/-!
# KvmHost.Lib.Stops

Programs that may stop with an error, and what keeps them from it.

`Avoids bad x` says that `x` does not stop with an error that `bad` picks. `Needs bad good x ws`
says what that takes: `ws` lists things `x` reaches for, and `x` avoids the bad errors exactly when
all of them are good. What a sequence reaches for is what its first part does, and then, if that
returns, what the rest does (`Needs.bind`); so the list of a program is put together along its text.
-/

namespace Stops

variable {ε ω α β : Type}

def Avoids (bad : ε → Prop) (x : Except ε α) : Prop := ∀ e, x = .error e → ¬ bad e

/-- What is reached for once `x` has returned. -/
def follow (x : Except ε α) (vs : α → List ω) : List ω :=
  match x with
  | .ok a => vs a
  | .error _ => []

def Needs (bad : ε → Prop) (good : ω → Prop) (x : Except ε α) (ws : List ω) : Prop :=
  Avoids bad x ↔ ∀ w ∈ ws, good w

variable {bad : ε → Prop} {good : ω → Prop} {x y : Except ε α} {f : α → Except ε β} {ws us : List ω}
  {vs : α → List ω}

@[simp] theorem follow_ok (a : α) : follow (.ok a : Except ε α) vs = vs a := rfl
@[simp] theorem follow_error (e : ε) : follow (.error e : Except ε α) vs = [] := rfl

theorem avoids_ok (a : α) : Avoids bad (.ok a) := by
  intro e h
  cases h

theorem avoids_returns (h : ∃ a, x = .ok a) : Avoids bad x := by
  obtain ⟨a, rfl⟩ := h
  exact avoids_ok a

theorem avoids_error {e : ε} : Avoids bad (.error e : Except ε α) ↔ ¬ bad e := by
  constructor
  · intro h
    exact h e rfl
  · intro h e' he
    cases he
    exact h

theorem avoids_bind : Avoids bad (x >>= f) ↔ Avoids bad x ∧ ∀ a, x = .ok a → Avoids bad (f a) := by
  cases x with
  | error e =>
    have hsame : Avoids bad (Except.error e >>= f) ↔ Avoids bad (.error e : Except ε α) := by
      rw [avoids_error]
      exact avoids_error
    rw [hsame]
    refine ⟨fun h => ⟨h, ?_⟩, And.left⟩
    intro a ha
    cases ha
  | ok a =>
    refine ⟨fun h => ⟨avoids_ok a, ?_⟩, fun h => h.2 a rfl⟩
    intro b hb
    cases hb
    exact h

theorem needs_nil (h : Avoids bad x) : Needs bad good x [] :=
  ⟨fun _ _ hw => (List.not_mem_nil hw).elim, fun _ => h⟩

theorem Needs.bind (hx : Needs bad good x ws) (hf : ∀ a, x = .ok a → Needs bad good (f a) (vs a)) :
    Needs bad good (x >>= f) (ws ++ follow x vs) := by
  have hrest : (∀ a, x = .ok a → Avoids bad (f a)) ↔ ∀ w ∈ follow x vs, good w := by
    cases x with
    | error e =>
      refine ⟨fun _ w hw => (List.not_mem_nil hw).elim, fun _ a ha => ?_⟩
      cases ha
    | ok a =>
      refine ⟨fun h => (hf a rfl).mp (h a rfl), fun h b hb => ?_⟩
      cases hb
      exact (hf a rfl).mpr h
  unfold Needs at hx ⊢
  rw [avoids_bind, List.forall_mem_append, hx, hrest]

/-- A rest that reaches for nothing and stops with no bad error. -/
theorem Needs.bind_nil (hx : Needs bad good x ws) (hf : ∀ a, x = .ok a → Avoids bad (f a)) :
    Needs bad good (x >>= f) ws := by
  unfold Needs at hx ⊢
  rw [avoids_bind, ← hx]
  exact ⟨And.left, fun h => ⟨h, hf⟩⟩

/-- A first part that returns if what it reaches for is good. -/
theorem Needs.cons {w : ω} (hx : Needs bad good x [w])
    (hf : good w → ∃ a, x = .ok a ∧ Needs bad good (f a) ws) :
    Needs bad good (x >>= f) (w :: ws) := by
  unfold Needs at hx ⊢
  rw [avoids_bind, List.forall_mem_cons, hx, List.forall_mem_singleton]
  refine and_congr_right fun hw => ?_
  obtain ⟨a, rfl, ha⟩ := hf hw
  refine ⟨fun h => ha.mp (h a rfl), fun h b hb => ?_⟩
  cases hb
  exact ha.mpr h

theorem Needs.ite {c : Prop} [Decidable c] (hx : c → Needs bad good x ws)
    (hy : ¬ c → Needs bad good y us) :
    Needs bad good (if c then x else y) (if c then ws else us) := by
  by_cases hc : c
  · rw [if_pos hc, if_pos hc]
    exact hx hc
  · rw [if_neg hc, if_neg hc]
    exact hy hc

end Stops
