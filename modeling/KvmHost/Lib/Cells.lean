/-!
# KvmHost.Lib.Cells

Cells that a sequence of actions writes, where what an action writes may depend on the cells.

`writes f a c` is what action `a` puts into cell `c` when the cells are `f`. `written` collects
these over a sequence, and `run_val` says that a cell holds the last of them.
-/

namespace Cells

variable {κ ν α : Type} (writes : (κ → ν) → α → κ → Option ν)

def step (f : κ → ν) (a : α) : κ → ν := fun c => (writes f a c).getD (f c)

def run (f : κ → ν) (as : List α) : κ → ν := as.foldl (step writes) f

def written (c : κ) : (κ → ν) → List α → List ν
  | _, [] => []
  | f, a :: as => (writes f a c).toList ++ written c (step writes f a) as

variable {writes}

/-- An action that writes no cell. -/
theorem step_idle {f : κ → ν} {a : α} (h : ∀ c, writes f a c = none) : step writes f a = f := by
  funext c
  rw [step, h c, Option.getD_none]

variable (writes)

theorem run_val (c : κ) (as : List α) :
    ∀ f : κ → ν, run writes f as c = ((written writes c f as).getLast?).getD (f c) := by
  induction as with
  | nil =>
    intro f
    rfl
  | cons a as ih =>
    intro f
    refine (ih (step writes f a)).trans ?_
    rw [written, List.getLast?_append, step]
    cases (written writes c (step writes f a) as).getLast? with
    | some v => rfl
    | none =>
      cases writes f a c with
      | none => rfl
      | some v => rfl

end Cells
