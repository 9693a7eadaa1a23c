/-!
# KvmHost.Lib.Turns

Runs of a machine that is driven by a list of events and may stop.

`turns next s es` lists the turns the machine takes, each with the state it starts from. A turn that
has no next state is the last one, and it is listed: what is said of all turns of a run is said of
the turn it stops at too.
-/

namespace Turns

variable {σ α : Type}

def turns (next : σ → α → Option σ) : σ → List α → List (σ × α)
  | _, [] => []
  | s, e :: es =>
    (s, e) ::
      match next s e with
      | none => []
      | some s' => turns next s' es

variable {next : σ → α → Option σ} {I : σ → Prop} {P Q : σ × α → Prop}

/-- What a turn preserves when it meets `P` holds before every turn of a run whose turns all meet
`P`. -/
theorem turns_invariant (hstep : ∀ s e s', I s → P (s, e) → next s e = some s' → I s') :
    ∀ {es : List α} {s : σ}, I s → (∀ t ∈ turns next s es, P t) → ∀ t ∈ turns next s es, I t.1 := by
  intro es
  induction es with
  | nil => intro s _ _ t ht; cases ht
  | cons e es ih =>
    intro s h0 hp
    simp only [turns, List.forall_mem_cons] at hp ⊢
    refine ⟨h0, ?_⟩
    cases hn : next s e with
    | none => intro t ht; cases ht
    | some s' =>
      rw [hn] at hp
      exact ih (hstep s e s' h0 hp.1 hn) hp.2

theorem turns_event : ∀ {es : List α} {s : σ} {t : σ × α}, t ∈ turns next s es → t.2 ∈ es := by
  intro es
  induction es with
  | nil => intro s t h; cases h
  | cons e es ih =>
    intro s t h
    rcases List.mem_cons.mp h with rfl | h
    · exact List.mem_cons_self
    · cases hn : next s e with
      | none => rw [hn] at h; cases h
      | some s' => rw [hn] at h; exact List.mem_cons_of_mem _ (ih h)

/-- What is said of all turns of a run, one turn at a time. -/
theorem turns_next {s s' : σ} {e : α} {es : List α} (h : next s e = some s') (hp : P (s, e))
    (hrest : ∀ t ∈ turns next s' es, P t) : ∀ t ∈ turns next s (e :: es), P t := by
  simp only [turns, h, List.forall_mem_cons]
  exact ⟨hp, hrest⟩

/-- Two conditions on turns that agree under the invariant agree on whole runs. -/
theorem turns_iff (hiff : ∀ s e, I s → (P (s, e) ↔ Q (s, e)))
    (hstep : ∀ s e s', I s → Q (s, e) → next s e = some s' → I s') {es : List α} {s : σ}
    (h0 : I s) :
    (∀ t ∈ turns next s es, P t) ↔ ∀ t ∈ turns next s es, Q t := by
  constructor
  · intro hp t ht
    have hi := turns_invariant (fun s e s' hs hps hn => hstep s e s' hs ((hiff s e hs).mp hps) hn)
      h0 hp t ht
    exact (hiff _ _ hi).mp (hp t ht)
  · intro hq t ht
    exact (hiff _ _ (turns_invariant hstep h0 hq t ht)).mpr (hq t ht)

/-- A machine that is watched through `view`: where its turns either show as a turn of another
machine or do not show, a whole run of it shows as a run of the other machine. -/
theorem turns_view {τ γ : Type} {next' : τ → γ → Option τ} {view : σ → τ} {event : σ × α → Option γ}
    (hstep : ∀ s e s', I s → next s e = some s' → I s')
    (hview : ∀ s e s', I s → next s e = some s' →
      (event (s, e)).elim (view s' = view s) fun g => next' (view s) g = some (view s')) :
    ∀ {es : List α} {s : σ}, I s → turns next' (view s) ((turns next s es).filterMap event) =
      (turns next s es).filterMap fun t => (event t).map (view t.1, ·) := by
  intro es
  induction es with
  | nil => intro s _; rfl
  | cons e es ih =>
    intro s h0
    cases hn : next s e with
    | none =>
      -- the last turn, which the other machine may survive: it has no more events either
      cases hev : event (s, e) with
      | none => simp [turns, hn, hev]
      | some g => cases hg : next' (view s) g <;> simp [turns, hn, hev, hg]
    | some s' =>
      have hrest := ih (hstep s e s' h0 hn)
      have hv := hview s e s' h0 hn
      cases hev : event (s, e) with
      | none =>
        rw [hev] at hv
        rw [show view s' = view s from hv] at hrest
        simpa [turns, hn, hev] using hrest
      | some g =>
        rw [hev] at hv
        simpa [turns, hn, hev, show next' (view s) g = some (view s') from hv] using hrest

end Turns
