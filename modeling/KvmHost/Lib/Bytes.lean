import Mathlib.Algebra.Group.Nat.Defs

/-!
# KvmHost.Lib.Bytes

Byte stores and little-endian numbers.

* `Store` is a byte-addressed store, `slice` reads a run of bytes, `patch` overwrites one.
* `leNat` and `toLE` convert between byte lists and numbers, lowest byte first.
* `Span` is a half-open address range; `Span.Apart` says two of them share no address. Every frame
  fact below has the same shape: what is read from one span is not changed by a patch of a span
  that is apart from it.
-/

namespace ByteStore

/-- A byte-addressed store. -/
abbrev Store := Nat → UInt8

/-- The `n` bytes from address `a` on. -/
def slice (m : Store) (a : Nat) : Nat → List UInt8
  | 0 => []
  | n + 1 => m a :: slice m (a + 1) n

/-- The store with the bytes from address `a` on replaced by `bs`. -/
def patch (m : Store) (a : Nat) (bs : List UInt8) : Store :=
  fun p => if a ≤ p then (bs[p - a]?).getD (m p) else m p

/-- The number a byte list denotes, lowest byte first. -/
def leNat : List UInt8 → Nat
  | [] => 0
  | b :: bs => b.toNat + 256 * leNat bs

/-- The low `n` bytes of `v`, lowest byte first. -/
def toLE : Nat → Nat → List UInt8
  | 0, _ => []
  | n + 1, v => UInt8.ofNat v :: toLE n (v / 256)

/-! ## Address ranges -/

/-- The addresses `[lo, lo + len)`. -/
structure Span where
  lo : Nat
  len : Nat
deriving DecidableEq, Repr

def Span.Has (s : Span) (p : Nat) : Prop := s.lo ≤ p ∧ p < s.lo + s.len

/-- Two spans share no address. A span of length 0 is apart from every span. -/
def Span.Apart (s t : Span) : Prop :=
  s.len = 0 ∨ t.len = 0 ∨ s.lo + s.len ≤ t.lo ∨ t.lo + t.len ≤ s.lo

instance (s : Span) (p : Nat) : Decidable (s.Has p) := by unfold Span.Has; infer_instance
instance (s t : Span) : Decidable (s.Apart t) := by unfold Span.Apart; infer_instance

theorem Span.apart_of_le {s t : Span} (h : s.lo + s.len ≤ t.lo) : s.Apart t := .inr (.inr (.inl h))

theorem Span.Apart.symm {s t : Span} (h : s.Apart t) : t.Apart s := by
  unfold Span.Apart at *; omega

theorem Span.Apart.not_has {s t : Span} (h : s.Apart t) {p : Nat} (hp : s.Has p) : ¬ t.Has p := by
  unfold Span.Apart Span.Has at *; omega

/-- An address behind the end of a span. -/
theorem Span.not_has_of_end {s : Span} {k p : Nat} (hp : k ≤ p) (hs : s.lo + s.len ≤ k) :
    ¬ s.Has p :=
  fun hin => absurd hin.2 (Nat.not_lt_of_le (Nat.le_trans hs hp))

/-- An address that is not in a span, and a part of that span. -/
theorem Span.not_has_of_part {s t : Span} {p : Nat} (hp : ¬ t.Has p) (hlo : t.lo ≤ s.lo)
    (hend : s.lo + s.len ≤ t.lo + t.len) : ¬ s.Has p :=
  fun hin => hp ⟨Nat.le_trans hlo hin.1, Nat.lt_of_lt_of_le hin.2 hend⟩

/-! ## Slices and patches -/

@[simp] theorem slice_length (m : Store) : ∀ (n a : Nat), (slice m a n).length = n
  | 0, _ => rfl
  | n + 1, a => by simp [slice, slice_length m n]

theorem slice_getElem? (m : Store) :
    ∀ (n a i : Nat), (slice m a n)[i]? = if i < n then some (m (a + i)) else none := by
  intro n
  induction n with
  | zero => intro a i; simp [slice]
  | succ n ih =>
    intro a i
    cases i with
    | zero => simp [slice]
    | succ i =>
      rw [slice, List.getElem?_cons_succ, ih]
      simp only [Nat.add_lt_add_iff_right, Nat.add_assoc, Nat.add_comm 1 i]

theorem slice_congr {m m' : Store} {a b : Nat} :
    ∀ {n : Nat}, (∀ i, i < n → m (a + i) = m' (b + i)) → slice m a n = slice m' b n := by
  intro n h
  apply List.ext_getElem?
  intro i
  rw [slice_getElem?, slice_getElem?]
  split
  · rw [h i (by assumption)]
  · rfl

theorem patch_in (m : Store) (a : Nat) (bs : List UInt8) {i : Nat} (h : i < bs.length) :
    patch m a bs (a + i) = bs[i] := by
  simp [patch, h]

theorem patch_out {m : Store} {a : Nat} {bs : List UInt8} {p : Nat}
    (h : ¬ Span.Has ⟨a, bs.length⟩ p) : patch m a bs p = m p := by
  unfold patch
  split
  · rename_i hle
    have : bs.length ≤ p - a := by simp only [Span.Has] at h; omega
    simp [this]
  · rfl

/-- The same patch at the same distance from two origins. -/
theorem patch_move {m m' : Store} {b b' k : Nat} (a : Nat) (bs : List UInt8)
    (h : m (b + k) = m' (b' + k)) :
    patch m (b + a) bs (b + k) = patch m' (b' + a) bs (b' + k) := by
  unfold patch
  by_cases hk : a ≤ k
  · rw [if_pos (by omega), if_pos (by omega), Nat.add_sub_add_left, Nat.add_sub_add_left, h]
  · rw [if_neg (by omega), if_neg (by omega), h]

@[simp] theorem patch_nil (m : Store) (a : Nat) : patch m a [] = m := by
  funext p; simp [patch]

theorem slice_patch_same (m : Store) (a : Nat) (bs : List UInt8) :
    slice (patch m a bs) a bs.length = bs := by
  apply List.ext_getElem?
  intro i
  rw [slice_getElem?]
  split
  · rename_i h; rw [patch_in m a bs h, List.getElem?_eq_getElem h]
  · rename_i h; rw [List.getElem?_eq_none (by omega)]

theorem patch_patch_same (m : Store) (a : Nat) {xs ys : List UInt8} (h : xs.length = ys.length) :
    patch (patch m a xs) a ys = patch m a ys := by
  funext p
  by_cases hp : Span.Has ⟨a, ys.length⟩ p
  · simp only [Span.Has] at hp
    obtain ⟨i, rfl⟩ := Nat.exists_eq_add_of_le hp.1
    rw [patch_in _ _ _ (by omega), patch_in _ _ _ (by omega)]
  · rw [patch_out hp, patch_out hp, patch_out (by rw [h]; exact hp)]

/-- A change inside a span is not seen in a slice apart from it. -/
theorem slice_frame {m m' : Store} {s : Span} (hframe : ∀ p, ¬ s.Has p → m' p = m p) {a n : Nat}
    (hapart : Span.Apart ⟨a, n⟩ s) : slice m' a n = slice m a n := by
  refine slice_congr fun i hi => hframe (a + i) (hapart.not_has ?_)
  exact ⟨Nat.le_add_right a i, Nat.add_lt_add_left hi a⟩

theorem slice_patch_apart {m : Store} {a n b : Nat} {bs : List UInt8}
    (h : Span.Apart ⟨a, n⟩ ⟨b, bs.length⟩) : slice (patch m b bs) a n = slice m a n :=
  slice_frame (fun _ hp => patch_out hp) h

/-- A byte of a copy of `m` from `a` on. -/
theorem patch_slice_in (d m : Store) (a b : Nat) {i n : Nat} (h : i < n) :
    patch d b (slice m a n) (b + i) = m (a + i) := by
  have hi : i < (slice m a n).length := by rwa [slice_length]
  rw [patch_in d b _ hi]
  have hget := slice_getElem? m n a i
  rw [List.getElem?_eq_getElem hi, if_pos h] at hget
  exact Option.some.inj hget

theorem patch_slice_out {d m : Store} {a b n p : Nat} (h : ¬ Span.Has ⟨b, n⟩ p) :
    patch d b (slice m a n) p = d p :=
  patch_out (by rw [slice_length]; exact h)

theorem slice_copy (d m : Store) (a b n : Nat) :
    slice (patch d b (slice m a n)) b n = slice m a n :=
  slice_congr fun _ hi => patch_slice_in d m a b hi

/-! ## Little-endian numbers -/

@[simp] theorem toLE_length : ∀ (n v : Nat), (toLE n v).length = n
  | 0, _ => rfl
  | n + 1, v => by simp [toLE, toLE_length n]

theorem leNat_lt (bs : List UInt8) : leNat bs < 256 ^ bs.length := by
  induction bs with
  | nil => simp [leNat]
  | cons b bs ih =>
    have hb : b.toNat < 256 := UInt8.toNat_lt b
    rw [leNat, List.length_cons, Nat.pow_succ]
    omega

theorem leNat_toLE : ∀ (n v : Nat), leNat (toLE n v) = v % 256 ^ n := by
  intro n
  induction n with
  | zero => intro v; simp [toLE, leNat, Nat.mod_one]
  | succ n ih =>
    intro v
    have hb : (UInt8.ofNat v).toNat = v % 256 := UInt8.toNat_ofNat'
    rw [toLE, leNat, ih, hb, Nat.pow_succ', Nat.mod_mul]

/-- The `n`-byte little-endian number at `a`. -/
def getLE (m : Store) (a n : Nat) : Nat := leNat (slice m a n)

/-- Store `v` as an `n`-byte little-endian number at `a`. -/
def putLE (m : Store) (a n v : Nat) : Store := patch m a (toLE n v)

theorem getLE_lt (m : Store) (a n : Nat) : getLE m a n < 256 ^ n := by
  have := leNat_lt (slice m a n)
  rwa [slice_length] at this

theorem getLE_putLE_same (m : Store) (a n v : Nat) : getLE (putLE m a n v) a n = v % 256 ^ n := by
  have h := slice_patch_same m a (toLE n v)
  rw [toLE_length] at h
  rw [getLE, putLE, h, leNat_toLE]

theorem getLE_congr {m m' : Store} {a b n : Nat} (h : ∀ i, i < n → m (a + i) = m' (b + i)) :
    getLE m a n = getLE m' b n := congrArg leNat (slice_congr h)

/-- A field of a copied record is the field of the original. -/
theorem getLE_copy (d m : Store) (a b : Nat) {k n len : Nat} (h : k + n ≤ len) :
    getLE (patch d b (slice m a len)) (b + k) n = getLE m (a + k) n := by
  apply getLE_congr
  intro i hi
  rw [Nat.add_assoc, Nat.add_assoc]
  exact patch_slice_in d m a b (by omega)

theorem getLE_patch_apart {m : Store} {a n b : Nat} {bs : List UInt8}
    (h : Span.Apart ⟨a, n⟩ ⟨b, bs.length⟩) : getLE (patch m b bs) a n = getLE m a n := by
  rw [getLE, slice_patch_apart h, getLE]

theorem getLE_putLE_apart {m : Store} {a n b k v : Nat} (h : Span.Apart ⟨a, n⟩ ⟨b, k⟩) :
    getLE (putLE m b k v) a n = getLE m a n :=
  getLE_patch_apart (by simpa using h)

theorem putLE_out {m : Store} {a n v p : Nat} (h : ¬ Span.Has ⟨a, n⟩ p) : putLE m a n v p = m p :=
  patch_out (by simpa using h)

/-! ## The bytes of a number -/

theorem toLE_getElem? :
    ∀ (n v : Nat) {i : Nat}, i < n → (toLE n v)[i]? = some (UInt8.ofNat (v / 256 ^ i)) := by
  intro n
  induction n with
  | zero => intro v i h; exact absurd h (Nat.not_lt_zero i)
  | succ n ih =>
    intro v i h
    cases i with
    | zero => simp [toLE]
    | succ i =>
      rw [toLE, List.getElem?_cons_succ, ih _ (by omega), Nat.div_div_eq_div_mul, Nat.pow_succ']

theorem putLE_in (m : Store) (a v : Nat) {n i : Nat} (h : i < n) :
    putLE m a n v (a + i) = UInt8.ofNat (v / 256 ^ i) := by
  rw [putLE, patch_in m a (toLE n v) (by simpa using h)]
  exact (List.getElem_eq_iff _).mpr (toLE_getElem? n v h)

theorem byte_leNat :
    ∀ (bs : List UInt8) {i : Nat} {b : UInt8}, bs[i]? = some b →
      UInt8.ofNat (leNat bs / 256 ^ i) = b := by
  intro bs
  induction bs with
  | nil => intro i b h; cases h
  | cons c bs ih =>
    intro i b h
    have hc : c.toNat < 256 := UInt8.toNat_lt c
    cases i with
    | zero =>
      cases h
      apply UInt8.toNat_inj.mp
      rw [leNat, UInt8.toNat_ofNat', Nat.pow_zero, Nat.div_one]
      omega
    | succ i =>
      rw [leNat, Nat.pow_succ', ← Nat.div_div_eq_div_mul,
        show (c.toNat + 256 * leNat bs) / 256 = leNat bs by omega]
      exact ih h

theorem byte_getLE (m : Store) (a : Nat) {n i : Nat} (h : i < n) :
    UInt8.ofNat (getLE m a n / 256 ^ i) = m (a + i) := by
  refine byte_leNat _ ?_
  rw [slice_getElem?, if_pos h]

/-- Storing what is there changes nothing. -/
theorem putLE_getLE (m : Store) (a n : Nat) : putLE m a n (getLE m a n) = m := by
  funext p
  by_cases hp : Span.Has ⟨a, n⟩ p
  · obtain ⟨i, rfl⟩ : ∃ i, p = a + i := ⟨p - a, (Nat.add_sub_cancel' hp.1).symm⟩
    have hi : i < n := Nat.lt_of_add_lt_add_left hp.2
    rw [putLE_in m a _ hi, byte_getLE m a hi]
  · exact putLE_out hp

/-! ## Numbers in two parts -/

theorem slice_add (m : Store) (j k : Nat) :
    ∀ a, slice m a (j + k) = slice m a j ++ slice m (a + j) k := by
  induction j with
  | zero => intro a; simp [slice]
  | succ j ih =>
    intro a
    rw [Nat.succ_add, slice, slice, ih, List.cons_append, Nat.add_assoc, Nat.add_comm 1 j]

theorem leNat_append (xs ys : List UInt8) :
    leNat (xs ++ ys) = leNat xs + 256 ^ xs.length * leNat ys := by
  induction xs with
  | nil => simp [leNat]
  | cons x xs ih =>
    simp only [List.cons_append, leNat, ih, List.length_cons, Nat.pow_succ', Nat.mul_add,
      Nat.mul_assoc, Nat.add_assoc]

theorem getLE_add (m : Store) (a j k : Nat) :
    getLE m a (j + k) = getLE m a j + 256 ^ j * getLE m (a + j) k := by
  rw [getLE, slice_add, leNat_append, slice_length, getLE, getLE]

theorem patch_append (m : Store) (a : Nat) (xs ys : List UInt8) :
    patch m a (xs ++ ys) = patch (patch m a xs) (a + xs.length) ys := by
  funext p
  unfold patch
  by_cases ha : a ≤ p
  · by_cases hx : a + xs.length ≤ p
    · have hle : xs.length ≤ p - a := by omega
      rw [if_pos ha, if_pos hx, List.getElem?_append_right hle, Nat.sub_sub, if_pos ha,
        List.getElem?_eq_none hle, Option.getD_none]
    · rw [if_pos ha, if_neg hx, if_pos ha, List.getElem?_append_left (by omega)]
  · have hx : ¬ a + xs.length ≤ p := by omega
    rw [if_neg ha, if_neg hx, if_neg ha]

theorem toLE_add (j k : Nat) : ∀ v, toLE (j + k) v = toLE j v ++ toLE k (v / 256 ^ j) := by
  induction j with
  | zero => intro v; simp [toLE]
  | succ j ih =>
    intro v
    rw [Nat.succ_add, toLE, toLE, ih, List.cons_append, Nat.div_div_eq_div_mul, Nat.pow_succ']

theorem putLE_add (m : Store) (a j k v : Nat) :
    putLE m a (j + k) v = putLE (putLE m a j v) (a + j) k (v / 256 ^ j) := by
  rw [putLE, toLE_add, patch_append, toLE_length, putLE, putLE]

end ByteStore
