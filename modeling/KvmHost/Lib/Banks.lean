import Mathlib.Logic.Function.Basic

/-!
# KvmHost.Lib.Banks

Banked registers. There are several banks of the same registers, one of which is selected; a write
goes to the selected bank, and selecting another bank changes no register. `run_val` says that a
register of a bank holds what was written to it last while its bank was selected.
-/

namespace Banks

variable {κ ρ ν : Type}

/-- What an access does: it may select a bank, and it may write registers of the one selected
before. -/
structure Action (κ ρ ν : Type) where
  select : Option κ
  write : ρ → Option ν

structure State (κ ρ ν : Type) where
  sel : κ
  val : κ → ρ → ν

variable [DecidableEq κ]

def State.step (s : State κ ρ ν) (a : Action κ ρ ν) : State κ ρ ν where
  sel := a.select.getD s.sel
  val := Function.update s.val s.sel fun r => (a.write r).getD (s.val s.sel r)

def State.run (s : State κ ρ ν) (as : List (Action κ ρ ν)) : State κ ρ ν := as.foldl State.step s

/-- What was written last to register `r` while bank `q` was selected; `sel` is selected at
first. -/
def lastWritten (q : κ) (r : ρ) : κ → List (Action κ ρ ν) → Option ν
  | _, [] => none
  | sel, a :: as =>
    (lastWritten q r (a.select.getD sel) as).or (if sel = q then a.write r else none)

/-- The bank selected last. -/
def lastSelected : List (Action κ ρ ν) → Option κ
  | [] => none
  | a :: as => (lastSelected as).or a.select

theorem step_idle (s : State κ ρ ν) : s.step ⟨none, fun _ => none⟩ = s := by
  cases s
  simp [State.step]

theorem step_val_self (s : State κ ρ ν) (a : Action κ ρ ν) (r : ρ) :
    (s.step a).val s.sel r = (a.write r).getD (s.val s.sel r) := by
  simp [State.step]

theorem step_val_other (s : State κ ρ ν) (a : Action κ ρ ν) {q : κ} (h : q ≠ s.sel) :
    (s.step a).val q = s.val q := by
  simp [State.step, Function.update_of_ne h]

/-- A register holds what was written last, or what it held at first. -/
theorem run_val (as : List (Action κ ρ ν)) (q : κ) (r : ρ) :
    ∀ s : State κ ρ ν, (s.run as).val q r = (lastWritten q r s.sel as).getD (s.val q r) := by
  induction as with
  | nil => intro s; rfl
  | cons a as ih =>
    intro s
    have hstep : (s.step a).val q r = (if s.sel = q then a.write r else none).getD (s.val q r) := by
      by_cases hq : s.sel = q
      · subst hq
        rw [step_val_self, if_pos rfl]
      · rw [step_val_other s a (Ne.symm hq), if_neg hq, Option.getD_none]
    have := ih (s.step a)
    rw [hstep] at this
    rw [State.run, List.foldl_cons]
    refine this.trans ?_
    show (lastWritten q r (a.select.getD s.sel) as).getD _ = _
    simp only [lastWritten]
    cases lastWritten q r (a.select.getD s.sel) as with
    | none => rfl
    | some v => rfl

theorem run_sel (as : List (Action κ ρ ν)) :
    ∀ s : State κ ρ ν, (s.run as).sel = (lastSelected as).getD s.sel := by
  induction as with
  | nil => intro s; rfl
  | cons a as ih =>
    intro s
    refine (ih (s.step a)).trans ?_
    simp only [lastSelected]
    cases lastSelected as with
    | none => rfl
    | some q => rfl

omit [DecidableEq κ] in
theorem exists_select {as : List (Action κ ρ ν)} {q : κ} (h : lastSelected as = some q) :
    ∃ a ∈ as, a.select.isSome := by
  induction as with
  | nil => cases h
  | cons a as ih =>
    simp only [lastSelected] at h
    cases hl : lastSelected as with
    | none =>
      rw [hl, Option.none_or] at h
      exact ⟨a, List.mem_cons_self, by rw [h]; rfl⟩
    | some q' =>
      obtain ⟨c, hc, hsel⟩ := ih (by rw [hl] at h ⊢; exact h)
      exact ⟨c, List.mem_cons_of_mem _ hc, hsel⟩

end Banks
