import Mathlib.Algebra.Group.Nat.Defs

/-!
# KvmHost.Lib.Lap

Cursors on a ring of `n` slots. A cursor is an index and a wrap bit that flips each time the index
passes the end of the ring. The history of a cursor is one number, its position: the count of slots
it has passed since the start of the first lap, whose wrap bit is `true`. `Cursor.ofPos` reads index
and wrap bit off a position, and moving a cursor on is adding to its position, so ring arguments are
done on positions, which never wrap, and brought back with `ofPos`.

Positions of one window of length `n` have different indices (`mod_inj`), and the wrap bits of two
positions one lap apart differ (`wrapAt_add_lap`).
-/

namespace Lap

structure Cursor where
  idx : Nat
  wrap : Bool
deriving DecidableEq, Repr

/-- The wrap bit in force at position `p`. -/
def wrapAt (n p : Nat) : Bool := p / n % 2 == 0

def Cursor.ofPos (n p : Nat) : Cursor := ⟨p % n, wrapAt n p⟩

/-- One slot further. -/
def Cursor.next (n : Nat) (c : Cursor) : Cursor :=
  if c.idx + 1 ≥ n then ⟨c.idx + 1 - n, !c.wrap⟩ else ⟨c.idx + 1, c.wrap⟩

/-- `k` slots further. -/
def Cursor.advance (n : Nat) : Nat → Cursor → Cursor
  | 0, c => c
  | k + 1, c => Cursor.advance n k (c.next n)

theorem parity_succ (q : Nat) : ((q + 1) % 2 == 0) = !(q % 2 == 0) := by
  rcases Nat.mod_two_eq_zero_or_one q with h | h
  · simp [h, Nat.add_mod]
  · simp [h, Nat.add_mod]

theorem Cursor.ofPos_lap {n q r : Nat} (hr : r < n) :
    Cursor.ofPos n (n * q + r) = ⟨r, q % 2 == 0⟩ := by
  have hn : 0 < n := by omega
  simp [Cursor.ofPos, wrapAt, Nat.mul_add_div hn, Nat.mod_eq_of_lt hr, Nat.div_eq_of_lt hr]

theorem Cursor.next_ofPos {n : Nat} (hn : 0 < n) (p : Nat) :
    (Cursor.ofPos n p).next n = Cursor.ofPos n (p + 1) := by
  have hr : p % n < n := Nat.mod_lt p hn
  have hp : n * (p / n) + p % n = p := Nat.div_add_mod p n
  generalize p / n = q at hp
  generalize p % n = r at hp hr
  subst hp
  rw [Cursor.ofPos_lap hr]
  by_cases h : r + 1 ≥ n
  · -- the last slot of a lap: the next position opens lap `q + 1`
    have hlast : n * q + r + 1 = n * (q + 1) + 0 := by rw [Nat.mul_succ]; omega
    rw [hlast, Cursor.ofPos_lap hn, parity_succ]
    simp only [Cursor.next, if_pos h]
    congr 1
    omega
  · rw [Nat.add_assoc, Cursor.ofPos_lap (by omega)]
    simp only [Cursor.next, if_neg h]

theorem Cursor.advance_ofPos {n : Nat} (hn : 0 < n) :
    ∀ (k p : Nat), Cursor.advance n k (Cursor.ofPos n p) = Cursor.ofPos n (p + k) := by
  intro k
  induction k with
  | zero => intro p; rfl
  | succ k ih =>
    intro p
    rw [Cursor.advance, Cursor.next_ofPos hn, ih]
    congr 1
    omega

theorem wrapAt_add_lap {n : Nat} (hn : 0 < n) (p : Nat) : wrapAt n (p + n) = !wrapAt n p := by
  rw [wrapAt, wrapAt, Nat.add_div_right p hn, parity_succ]

/-- The first position at which a cursor stands so. -/
def Cursor.pos (n : Nat) (c : Cursor) : Nat := if c.wrap then c.idx else n + c.idx

theorem Cursor.ofPos_pos {n : Nat} {c : Cursor} (h : c.idx < n) : Cursor.ofPos n (c.pos n) = c := by
  obtain ⟨idx, wrap⟩ := c
  cases wrap with
  | true => simpa [Cursor.pos] using Cursor.ofPos_lap (n := n) (q := 0) h
  | false => simpa [Cursor.pos] using Cursor.ofPos_lap (n := n) (q := 1) h

/-- The lap is counted by the flips of the wrap bit. -/
theorem succ_div_flips (n p : Nat) :
    (p + 1) / n = p / n + if wrapAt n (p + 1) != wrapAt n p then 1 else 0 := by
  rw [Nat.succ_div]
  by_cases h : n ∣ p + 1
  · have hflip : (wrapAt n (p + 1) != wrapAt n p) = true := by
      simp [wrapAt, Nat.succ_div_of_dvd h, parity_succ]
    rw [if_pos h, if_pos hflip]
  · have hsame : ¬ (wrapAt n (p + 1) != wrapAt n p) = true := by
      simp [wrapAt, Nat.succ_div_of_not_dvd h]
    rw [if_neg h, if_neg hsame]

/-- Two positions of one window of length `n` share a slot only if they are equal. -/
theorem mod_inj {n a p q : Nat} (hp : a ≤ p) (hp' : p < a + n) (hq : a ≤ q) (hq' : q < a + n)
    (h : p % n = q % n) : p = q := by
  rcases Nat.le_total p q with hpq | hpq
  · have hd : n ∣ q - p := Nat.dvd_of_mod_eq_zero (Nat.sub_mod_eq_zero_of_mod_eq h.symm)
    have := Nat.eq_zero_of_dvd_of_lt hd (by omega)
    omega
  · have hd : n ∣ p - q := Nat.dvd_of_mod_eq_zero (Nat.sub_mod_eq_zero_of_mod_eq h)
    have := Nat.eq_zero_of_dvd_of_lt hd (by omega)
    omega

end Lap
