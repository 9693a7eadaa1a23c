import Mathlib.Logic.Function.Basic

/-!
# KvmHost.Lib.LinkedList

Singly linked lists in a heap. A heap gives every node its `next` pointer; `IsList next h xs` says
that the nodes met from `h` on are exactly `xs`, and that the last one ends in a null pointer. Such
a list has no node twice (`IsList.nodup`), and there is at most one `xs` for a given `h`
(`IsList.unique`), so a heap in which no `xs` fits is one whose walk never ends.

A node is put in front with `next a := h` (`push_iff`: the result is a list exactly when `a` was not
on it) and taken out through a pointer to the pointer that leads to it: `walk` finds that pointer,
`Slot.store` writes it, and `IsList.unlink` says what is left.
-/

namespace LinkedList

variable {α : Type}

inductive IsList (next : α → Option α) : Option α → List α → Prop where
  | nil : IsList next none []
  | cons {a : α} {xs : List α} : IsList next (next a) xs → IsList next (some a) (a :: xs)

theorem IsList.unique {next : α → Option α} {h : Option α} {xs : List α} (hx : IsList next h xs) :
    ∀ {ys : List α}, IsList next h ys → xs = ys := by
  induction hx with
  | nil => intro ys hy; cases hy; rfl
  | cons _ ih =>
    intro ys hy
    cases hy with
    | cons hy => rw [ih hy]

theorem IsList.suffix {next : α → Option α} {a : α} {pre post : List α} :
    ∀ {h : Option α}, IsList next h (pre ++ a :: post) → IsList next (some a) (a :: post) := by
  induction pre with
  | nil => intro h hl; cases hl with | cons hl => exact .cons hl
  | cons b pre ih => intro h hl; cases hl with | cons hl => exact ih hl

/-- A node that came back would start the same list again, which would not end. -/
theorem IsList.nodup {next : α → Option α} {h : Option α} {xs : List α} (hx : IsList next h xs) :
    xs.Nodup := by
  induction hx with
  | nil => exact List.nodup_nil
  | @cons a xs hx ih =>
    refine List.nodup_cons.mpr ⟨fun hmem => ?_, ih⟩
    obtain ⟨pre, post, rfl⟩ := List.append_of_mem hmem
    have heq := (IsList.cons hx).unique hx.suffix
    have hlen := congrArg List.length heq
    simp only [List.length_cons, List.length_append] at hlen
    omega

theorem IsList.congr {next next' : α → Option α} {h : Option α} {xs : List α}
    (hx : IsList next h xs) (he : ∀ x ∈ xs, next' x = next x) : IsList next' h xs := by
  induction hx with
  | nil => exact .nil
  | @cons a xs _ ih =>
    apply IsList.cons
    rw [he a List.mem_cons_self]
    exact ih fun x hx => he x (List.mem_cons_of_mem _ hx)

/-- A set of nodes that is closed under `next` holds every node of a list that starts in it. -/
theorem IsList.closed {next : α → Option α} {P : α → Prop}
    (hstep : ∀ x y, next x = some y → P x → P y) {h : Option α} {xs : List α}
    (hx : IsList next h xs) (hh : ∀ x, h = some x → P x) :
    ∀ x ∈ xs, P x := by
  induction hx with
  | nil => intro x hx; cases hx
  | @cons a xs _ ih =>
    intro x hx
    rcases List.mem_cons.mp hx with rfl | hx
    · exact hh _ rfl
    · exact ih (fun y hy => hstep a y hy (hh a rfl)) x hx

/-! ## Pointers into a list -/

/-- A pointer to a pointer of the list: the head, or the `next` field of a node. -/
inductive Slot (α : Type) where
  | head
  | next (a : α)
deriving DecidableEq, Repr

def Slot.load (head : Option α) (next : α → Option α) : Slot α → Option α
  | .head => head
  | .next a => next a

/-- The pointer behind the nodes `pre`, when `p` leads to them. -/
def Slot.after (p : Slot α) (pre : List α) : Slot α :=
  match pre.getLast? with
  | none => p
  | some b => .next b

theorem Slot.after_cons (p : Slot α) (b : α) (pre : List α) :
    p.after (b :: pre) = (Slot.next b).after pre := by
  unfold Slot.after
  cases hp : pre.getLast? with
  | none => rw [List.getLast?_eq_none_iff.mp hp]; rfl
  | some c => rw [List.getLast?_cons, hp]; rfl

/-- The pointer behind `pre` leads to the next node. -/
theorem load_after {head : Option α} {next : α → Option α} {x : α} {pre post : List α} :
    ∀ {p : Slot α}, IsList next (p.load head next) (pre ++ x :: post) →
      (p.after pre).load head next = some x := by
  induction pre with
  | nil =>
    intro p hl
    generalize hload : p.load head next = h at hl
    cases hl
    exact hload
  | cons b pre ih =>
    intro p hl
    rw [Slot.after_cons]
    generalize hload : p.load head next = h at hl
    cases hl with
    | cons hl => exact ih (p := .next b) hl

/-! ## Putting a node in front and taking one out -/

section Change

variable [DecidableEq α]

/-- Putting `a` in front gives a list exactly when `a` was not on the list. -/
theorem push_iff {next : α → Option α} {h : Option α} {a : α} {ys : List α} :
    IsList (Function.update next a h) (some a) ys ↔
      ∃ xs, ys = a :: xs ∧ a ∉ xs ∧ IsList next h xs := by
  constructor
  · intro hl
    cases hl with
    | @cons _ xs hl =>
      have hnot : a ∉ xs := (List.nodup_cons.mp (IsList.cons hl).nodup).1
      rw [Function.update_self] at hl
      refine ⟨xs, rfl, hnot, hl.congr fun x hx => ?_⟩
      have hne : x ≠ a := fun he => hnot (he ▸ hx)
      exact (Function.update_of_ne hne _ _).symm
  · rintro ⟨xs, rfl, hnot, hl⟩
    apply IsList.cons
    rw [Function.update_self]
    refine hl.congr fun x hx => ?_
    have hne : x ≠ a := fun he => hnot (he ▸ hx)
    exact Function.update_of_ne hne _ _

/-- Follow the list from `p` to the pointer that leads to `x`, or to the null pointer at its end.
`none` when the fuel runs out. -/
def walk (head : Option α) (next : α → Option α) (x : α) : Nat → Slot α → Option (Slot α)
  | 0, _ => none
  | fuel + 1, p =>
    match p.load head next with
    | none => some p
    | some b => if b = x then some p else walk head next x fuel (.next b)

variable {head : Option α} {next : α → Option α} {x : α}

/-- What a walk that ends has found. -/
theorem walk_sound {xs : List α} :
    ∀ {fuel : Nat} {p q : Slot α}, IsList next (p.load head next) xs →
      walk head next x fuel p = some q →
      (x ∉ xs ∧ q.load head next = none) ∨
      ∃ pre post, xs = pre ++ x :: post ∧ x ∉ pre ∧ q = p.after pre := by
  induction xs with
  | nil =>
    intro fuel p q hl hw
    cases fuel with
    | zero => cases hw
    | succ fuel =>
      generalize hload : p.load head next = h at hl
      cases hl
      rw [walk, hload] at hw
      cases hw
      exact .inl ⟨List.not_mem_nil, hload⟩
  | cons b xs ih =>
    intro fuel p q hl hw
    cases fuel with
    | zero => cases hw
    | succ fuel =>
      generalize hload : p.load head next = h at hl
      cases hl with
      | cons hl =>
        rw [walk, hload] at hw
        by_cases hb : b = x
        · subst hb
          simp only [if_true] at hw
          cases hw
          exact .inr ⟨[], xs, rfl, List.not_mem_nil, rfl⟩
        · simp only [if_neg hb] at hw
          rcases ih (p := .next b) hl hw with ⟨hx, hq⟩ | ⟨pre, post, rfl, hx, hq⟩
          · exact .inl ⟨by simp [Ne.symm hb, hx], hq⟩
          · refine .inr ⟨b :: pre, post, rfl, by simp [Ne.symm hb, hx], ?_⟩
            rw [hq, Slot.after_cons]

/-- A walk over a list ends. -/
theorem walk_total {xs : List α} :
    ∀ {fuel : Nat} {p : Slot α}, IsList next (p.load head next) xs → xs.length < fuel →
      ∃ q, walk head next x fuel p = some q := by
  induction xs with
  | nil =>
    intro fuel p hl hf
    obtain ⟨fuel, rfl⟩ : ∃ k, fuel = k + 1 := ⟨fuel - 1, by omega⟩
    generalize hload : p.load head next = h at hl
    cases hl
    exact ⟨p, by rw [walk, hload]⟩
  | cons b xs ih =>
    intro fuel p hl hf
    obtain ⟨fuel, rfl⟩ : ∃ k, fuel = k + 1 := ⟨fuel - 1, by omega⟩
    rw [List.length_cons] at hf
    generalize hload : p.load head next = h at hl
    cases hl with
    | cons hl =>
      by_cases hb : b = x
      · exact ⟨p, by rw [walk, hload]; simp [hb]⟩
      · obtain ⟨q, hq⟩ := ih (p := .next b) hl (show xs.length < fuel by omega)
        exact ⟨q, by rw [walk, hload]; simp [hb, hq]⟩

/-- A walk that starts in a set of nodes closed under `next` stays in it, wherever it leads. -/
theorem walk_closed {P : α → Prop} (hstep : ∀ x y, next x = some y → P x → P y) :
    ∀ {fuel : Nat} {p q : Slot α}, (∀ y, p = .next y → P y) →
      (∀ y, p.load head next = some y → P y) →
      walk head next x fuel p = some q →
      (∀ y, q = .next y → P y) ∧ ∀ y, q.load head next = some y → P y := by
  intro fuel
  induction fuel with
  | zero => intro p q _ _ hw; cases hw
  | succ fuel ih =>
    intro p q hp hload hw
    cases hl : p.load head next with
    | none =>
      simp only [walk, hl] at hw
      cases hw
      exact ⟨hp, hload⟩
    | some b =>
      simp only [walk, hl] at hw
      split at hw
      · cases hw; exact ⟨hp, hload⟩
      · have hb := hload b hl
        refine ih (p := .next b) (fun y hy => ?_) (fun y hy => hstep b y hy hb) hw
        cases hy
        exact hb

/-- Redirecting the last node of `pre` behind `x` takes `x` out. -/
theorem IsList.unlink {b : α} {pre post : List α} :
    ∀ {h : Option α}, IsList next h (pre ++ x :: post) → pre.getLast? = some b →
      IsList (Function.update next b (next x)) h (pre ++ post) := by
  induction pre with
  | nil => intro h _ hb; cases hb
  | cons a pre ih =>
    intro h hl hb
    have hnd := hl.nodup
    cases hl with
    | cons hl =>
      apply IsList.cons
      cases pre with
      | nil =>
        have hab : a = b := Option.some.inj hb
        subst hab
        generalize next a = h' at hl
        cases hl with
        | cons hl =>
          rw [Function.update_self]
          refine hl.congr fun y hy => Function.update_of_ne (fun he => ?_) _ _
          subst he
          simp only [List.cons_append, List.nil_append, List.nodup_cons, List.mem_cons] at hnd
          exact hnd.1 (.inr hy)
      | cons c pre =>
        have hb' : (c :: pre).getLast? = some b := by
          rw [List.getLast?_cons_cons] at hb; exact hb
        have hne : a ≠ b := by
          intro he
          subst he
          have hmem := List.mem_of_getLast? hb'
          rw [List.cons_append, List.nodup_cons] at hnd
          exact hnd.1 (List.mem_append_left _ hmem)
        rw [Function.update_of_ne hne]
        exact ih hl hb'

end Change

end LinkedList
