import Mathlib.Logic.Function.Basic
import KvmHost.Lib.Lap

/-!
# KvmHost.Lib.Circular

A queue in a circular buffer of `n` slots whose two counters run freely modulo `M`: they count the
puts and the gets and are reduced modulo `n` only where a slot is named. The number of elements is
the difference of the counters modulo `M`.

`Holds` says which list the buffer stands for. It needs `n ∣ M`, so that the slots go on in order
when a counter wraps, and `n < M`, so that a full buffer and an empty one are told apart.

`Bounded` is the abstract queue of at most `n` elements: what each operation returns and leaves.
Over a run of it the elements that enter behind those already there are those that leave and those
that stay, in one order (`BoundedRun.order`).
-/

namespace Circular

variable {α : Type}

structure Buf (α : Type) where
  data : Nat → α
  head : Nat
  tail : Nat

/-- The difference of the counters. -/
def Buf.used (M : Nat) (b : Buf α) : Nat := (b.tail + M - b.head) % M

def Buf.put (n M : Nat) (b : Buf α) (x : α) : Buf α :=
  { b with
    data := Function.update b.data (b.tail % n) x
    tail := (b.tail + 1) % M }

def Buf.front (n : Nat) (b : Buf α) : α := b.data (b.head % n)

def Buf.pop (M : Nat) (b : Buf α) : Buf α := { b with head := (b.head + 1) % M }

/-- The buffer holds `xs`, the element to be taken first at its head. -/
structure Holds (n M : Nat) (b : Buf α) (xs : List α) : Prop where
  head_lt : b.head < M
  tail_eq : b.tail = (b.head + xs.length) % M
  le : xs.length ≤ n
  get : ∀ i < xs.length, xs[i]? = some (b.data ((b.head + i) % n))

section

variable {n M : Nat} {b : Buf α} {x : α} {xs : List α}

theorem holds_nil (hM : 0 < M) (data : Nat → α) : Holds n M ⟨data, 0, 0⟩ [] where
  head_lt := hM
  tail_eq := (Nat.zero_mod M).symm
  le := Nat.zero_le n
  get := by
    intro i hi
    cases hi

theorem used_eq (hn : n < M) (h : Holds n M b xs) : b.used M = xs.length := by
  have hlt := h.head_lt
  have hle := h.le
  unfold Buf.used
  rw [h.tail_eq]
  by_cases hw : b.head + xs.length < M
  · have he : b.head + xs.length + M - b.head = xs.length + M := by omega
    rw [Nat.mod_eq_of_lt hw, he, Nat.add_mod_right, Nat.mod_eq_of_lt (by omega)]
  · -- the tail has wrapped and the head has not
    have ht : (b.head + xs.length) % M = b.head + xs.length - M := by
      rw [Nat.mod_eq_sub_mod (by omega), Nat.mod_eq_of_lt (by omega)]
    have he : b.head + xs.length - M + M - b.head = xs.length := by omega
    rw [ht, he, Nat.mod_eq_of_lt (by omega)]

theorem empty_iff (hn : n < M) (h : Holds n M b xs) : b.head = b.tail ↔ xs = [] := by
  have hlt := h.head_lt
  have hle := h.le
  constructor
  · intro he
    have hused := used_eq hn h
    unfold Buf.used at hused
    rw [← he, Nat.add_sub_cancel_left, Nat.mod_self] at hused
    exact List.eq_nil_of_length_eq_zero hused.symm
  · rintro rfl
    rw [h.tail_eq, List.length_nil, Nat.add_zero, Nat.mod_eq_of_lt hlt]

/-- A put goes to the end of the list. -/
theorem Holds.put (hd : n ∣ M) (h : Holds n M b xs) (hlen : xs.length < n) (x : α) :
    Holds n M (b.put n M x) (xs ++ [x]) where
  head_lt := h.head_lt
  tail_eq := by
    show (b.tail + 1) % M = _
    rw [h.tail_eq, Nat.mod_add_mod, List.length_append]
    rfl
  le := by
    rw [List.length_append]
    exact hlen
  get := by
    intro i hi
    have hslot : b.tail % n = (b.head + xs.length) % n := by
      rw [h.tail_eq]
      exact Nat.mod_mod_of_dvd _ hd
    simp only [List.length_append, List.length_singleton] at hi
    by_cases hx : i = xs.length
    · subst hx
      simp [Buf.put, hslot]
    · have hi' : i < xs.length := by omega
      have hne : (b.head + i) % n ≠ b.tail % n := by
        rw [hslot]
        intro he
        have := Lap.mod_inj (a := b.head) (by omega) (by omega) (by omega) (by omega) he
        omega
      rw [List.getElem?_append_left hi', h.get i hi']
      simp [Buf.put, Function.update_of_ne hne]

/-- A get takes the first element of the list. -/
theorem Holds.pop (hd : n ∣ M) (h : Holds n M b (x :: xs)) :
    b.front n = x ∧ Holds n M (b.pop M) xs := by
  have hpos : 0 < M := Nat.lt_of_le_of_lt (Nat.zero_le _) h.head_lt
  have hle := h.le
  have htail := h.tail_eq
  simp only [List.length_cons] at hle htail
  constructor
  · have hget := h.get 0 (by simp)
    simp only [List.getElem?_cons_zero, Option.some.injEq, Nat.add_zero] at hget
    exact hget.symm
  · refine ⟨Nat.mod_lt _ hpos, ?_, by omega, ?_⟩
    · show b.tail = ((b.head + 1) % M + xs.length) % M
      rw [htail, Nat.mod_add_mod]
      congr 1
      omega
    · intro i hi
      have hget := h.get (i + 1) (by simp only [List.length_cons]; omega)
      rw [List.getElem?_cons_succ] at hget
      have hslot : ((b.head + 1) % M + i) % n = (b.head + (i + 1)) % n := by
        rw [Nat.add_mod, Nat.mod_mod_of_dvd _ hd, ← Nat.add_mod]
        congr 1
        omega
      show xs[i]? = some (b.data (((b.head + 1) % M + i) % n))
      rw [hget, hslot]

/-- The elements between the counters. -/
def Buf.elems (n M : Nat) (b : Buf α) : List α :=
  (List.range (b.used M)).map fun i => b.data ((b.head + i) % n)

/-- Counters that are at most `n` apart stand for a list. -/
theorem holds_elems (hhead : b.head < M) (htail : b.tail < M) (hle : b.used M ≤ n) :
    Holds n M b (b.elems n M) where
  head_lt := hhead
  tail_eq := by
    unfold Buf.elems Buf.used
    rw [List.length_map, List.length_range]
    by_cases hw : b.head ≤ b.tail
    · have hdiff : (b.tail + M - b.head) % M = b.tail - b.head := by
        rw [show b.tail + M - b.head = b.tail - b.head + M by omega, Nat.add_mod_right]
        exact Nat.mod_eq_of_lt (by omega)
      rw [hdiff, Nat.add_sub_cancel' hw, Nat.mod_eq_of_lt htail]
    · -- the tail has wrapped
      have hdiff : (b.tail + M - b.head) % M = b.tail + M - b.head := Nat.mod_eq_of_lt (by omega)
      rw [hdiff, Nat.add_sub_cancel' (by omega), Nat.add_mod_right, Nat.mod_eq_of_lt htail]
  le := by
    unfold Buf.elems
    rw [List.length_map, List.length_range]
    exact hle
  get := by
    intro i hi
    unfold Buf.elems at hi ⊢
    rw [List.length_map, List.length_range] at hi
    rw [List.getElem?_map, List.getElem?_range hi]
    rfl

end

/-! ## The bounded queue -/

/-- An operation on a queue, with what it returned. -/
inductive Act (α : Type) where
  | put (x : α) (stored : Bool)
  | get (x : Option α)
deriving DecidableEq

def Act.entered : Act α → List α
  | put x true => [x]
  | _ => []

def Act.left : Act α → List α
  | get (some x) => [x]
  | _ => []

inductive Bounded (n : Nat) : List α → Act α → List α → Prop where
  | put {xs : List α} {x : α} : xs.length < n → Bounded n xs (.put x true) (xs ++ [x])
  | full {xs : List α} {x : α} : xs.length = n → Bounded n xs (.put x false) xs
  | get {xs : List α} {x : α} : Bounded n (x :: xs) (.get (some x)) xs
  | empty : Bounded n [] (.get none) []

inductive BoundedRun (n : Nat) : List α → List (Act α) → List α → Prop where
  | nil {xs : List α} : BoundedRun n xs [] xs
  | cons {xs ys zs : List α} {a : Act α} {as : List (Act α)} :
      Bounded n xs a ys → BoundedRun n ys as zs → BoundedRun n xs (a :: as) zs

theorem Bounded.order {n : Nat} {xs ys : List α} {a : Act α} (h : Bounded n xs a ys) :
    xs ++ a.entered = a.left ++ ys := by
  cases h with
  | put _ => rfl
  | full _ => exact List.append_nil xs
  | get => exact List.append_nil _
  | empty => rfl

/-- **First in, first out.** -/
theorem BoundedRun.order {n : Nat} {xs ys : List α} {as : List (Act α)}
    (h : BoundedRun n xs as ys) :
    xs ++ as.flatMap Act.entered = as.flatMap Act.left ++ ys := by
  induction h with
  | nil => exact List.append_nil _
  | @cons xs ys zs a as hstep _ ih =>
    rw [List.flatMap_cons, List.flatMap_cons, ← List.append_assoc, hstep.order, List.append_assoc,
      ih, List.append_assoc]

end Circular
