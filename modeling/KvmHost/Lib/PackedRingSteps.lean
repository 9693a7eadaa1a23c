import KvmHost.Lib.PackedRing

/-!
# KvmHost.Lib.PackedRingSteps

Every step of the packed ring keeps `PackedRing.Inv`.

Three steps write a slot: `writeTail` and `publish` one of the free part of the window, `complete`
the head of the oldest chain taken. What each of them leaves alone is the same argument, made once:
the positions of one window of `n` slots have different slots, so a write at position `q` changes no
other position (`KeepsBut`). The lemmas under that name carry the fields of `Inv` over such a write.

`fifo` draws the conclusion: chains go through the ring in order, each exactly once, whatever the
order of steps.
-/

namespace PackedRing

open Lap

variable {δ : Type}

/-! ## Chains laid out from a position on -/

section Chains

variable {n : Nat}

theorem HeadsUsed.congr {slots slots' : Nat → Slot δ} :
    ∀ {p : Nat} {cs : List (List δ)}, HeadsUsed n slots p cs → (∀ c ∈ cs, c ≠ []) →
      (∀ q, p ≤ q → q < p + cs.flatten.length → slots' (q % n) = slots (q % n)) →
      HeadsUsed n slots' p cs := by
  intro p cs
  induction cs generalizing p with
  | nil => intro _ _ _; trivial
  | cons c cs ih =>
    intro h hne hsame
    have hc : 0 < c.length := List.length_pos_iff.mpr (hne c (by simp))
    simp only [List.flatten_cons, List.length_append] at hsame
    refine ⟨?_, ih h.2 (fun d hd => hne d (by simp [hd])) fun q hq hq' =>
      hsame q (by omega) (by omega)⟩
    rw [hsame p (by omega) (by omega)]
    exact h.1

theorem HeadsUsed.append {slots : Nat → Slot δ} {c : List δ} :
    ∀ {p : Nat} {cs : List (List δ)}, HeadsUsed n slots p cs →
      (slots ((p + cs.flatten.length) % n)).used = wrapAt n (p + cs.flatten.length) →
      HeadsUsed n slots p (cs ++ [c]) := by
  intro p cs
  induction cs generalizing p with
  | nil => intro _ h; exact ⟨by simpa using h, trivial⟩
  | cons d cs ih =>
    intro h hc
    simp only [List.flatten_cons, List.length_append, ← Nat.add_assoc] at hc
    exact ⟨h.1, ih h.2 hc⟩

theorem PendingAt.append {h : Nat} {c : List δ} :
    ∀ {p : Nat} {ps : List (Nat × List δ)}, PendingAt n p ps →
      h = (p + (ps.map Prod.snd).flatten.length) % n → PendingAt n p (ps ++ [(h, c)]) := by
  intro p ps
  induction ps generalizing p with
  | nil => intro _ he; exact ⟨by simpa using he, trivial⟩
  | cons q ps ih =>
    obtain ⟨g, d⟩ := q
    intro hp he
    simp only [List.map_cons, List.flatten_cons, List.length_append, ← Nat.add_assoc] at he
    exact ⟨hp.1, ih hp.2 he⟩

theorem append_getElem_of_prefix {l ch : List δ} (h : l <+: ch) (hi : l.length < ch.length) :
    l ++ [ch[l.length]] <+: ch := by
  obtain ⟨t, rfl⟩ := h
  cases t with
  | nil => simp at hi
  | cons x t => exact ⟨t, by simp⟩

/-- The slots of the chains `cs` and one chain more. -/
theorem layout_concat (cs : List (List δ)) (ch : List δ) (i : Nat) {x : δ × Bool}
    (hx : (layout (cs ++ [ch]))[cs.flatten.length + i]? = some x) : (cells ch)[i]? = some x := by
  have hlay : layout (cs ++ [ch]) = layout cs ++ cells ch := by
    rw [layout_append]; simp [layout]
  rw [hlay, List.getElem?_append_right (by rw [layout_length]; omega), layout_length,
    Nat.add_sub_cancel_left] at hx
  exact hx

end Chains

/-! ## One slot changes -/

section OneSlot

variable {n : Nat} {s : State δ} {q : Nat} {slots : Nat → Slot δ}

/-- In the window of `s`, `slots` differs from the slots of `s` at position `q` only. -/
def KeepsBut (n : Nat) (s : State δ) (q : Nat) (slots : Nat → Slot δ) : Prop :=
  ∀ p, s.freePos ≤ p → p < s.freePos + n → p ≠ q → slots (p % n) = s.slots (p % n)

theorem keepsBut_update (hq : s.freePos ≤ q) (hq' : q < s.freePos + n) (x : Slot δ) :
    KeepsBut n s q (Function.update s.slots (q % n) x) := by
  intro p hp hp' hne
  exact Function.update_of_ne (fun he => hne (mod_inj hp hp' hq hq' he)) _ _

theorem Inv.done_nonempty (h : Inv n s) {done : List (List δ)}
    (hd : s.completed = s.reclaimed ++ done) : ∀ c ∈ done, c ≠ [] := by
  intro c hc
  exact h.taken_nonempty (by rw [h.pending, hd]; simp [hc])

theorem KeepsBut.headsUsed (hk : KeepsBut n s q slots) (h : Inv n s) (hq : s.donePos ≤ q)
    {done : List (List δ)} (hd : s.completed = s.reclaimed ++ done)
    (hused : HeadsUsed n s.slots s.freePos done) : HeadsUsed n slots s.freePos done := by
  have hpos : s.donePos = s.freePos + done.flatten.length := by
    simp [State.donePos, State.freePos, hd]
  have := h.done_le_take; have := h.take_le_add; have := h.room
  exact hused.congr (h.done_nonempty hd) fun p hp hp' => hk p hp (by omega) (by omega)

theorem KeepsBut.completed (hk : KeepsBut n s q slots) (h : Inv n s) (hq : s.donePos ≤ q) :
    ∃ done, s.completed = s.reclaimed ++ done ∧ HeadsUsed n slots s.freePos done := by
  obtain ⟨done, hd, hused⟩ := h.completed
  exact ⟨done, hd, hk.headsUsed h hq hd hused⟩

theorem KeepsBut.availOld (hk : KeepsBut n s q slots) (h : Inv n s) (hq : s.takePos ≤ q) :
    ∀ p, s.freePos ≤ p → p < s.takePos → (slots (p % n)).avail = wrapAt n p := by
  intro p hp hp'
  have := h.take_le_add; have := h.room
  rw [hk p hp (by omega) (by omega)]
  exact h.availOld p hp hp'

/-- Chains completed since then are left out by the lower bound `lo`. -/
theorem KeepsBut.usedOld (hk : KeepsBut n s q slots) (h : Inv n s) {lo : Nat} (hlo : s.donePos ≤ lo)
    (hq : q < lo ∨ s.takePos ≤ q) :
    ∀ p, lo ≤ p → p < s.takePos → (slots (p % n)).used = !wrapAt n p := by
  intro p hp hp'
  have := h.free_le_done; have := h.take_le_add; have := h.room
  rw [hk p (by omega) (by omega) (by omega)]
  exact h.usedOld p (by omega) hp'

theorem KeepsBut.fresh (hk : KeepsBut n s q slots) (h : Inv n s)
    (hq : q < s.takePos ∨ s.addPos ≤ q) :
    ∀ p x, s.takePos ≤ p → (layout s.added)[p]? = some x →
      slots (p % n) = ⟨x.1, x.2, wrapAt n p, !wrapAt n p⟩ := by
  intro p x hp hx
  obtain ⟨hpa, hpn⟩ := h.lt_addPos hx
  have := h.free_le_done; have := h.done_le_take
  rw [hk p (by omega) hpn (by omega)]
  exact h.fresh p x hp hx

theorem KeepsBut.draftTail (hk : KeepsBut n s q slots) (h : Inv n s) {dr : Draft δ}
    (hd : s.draft = some dr) {i : Nat} {x : δ × Bool} (hi : 1 ≤ i) (hi' : i ≤ dr.written)
    (hne : s.addPos + i ≠ q) (hx : (cells dr.chain)[i]? = some x) :
    slots ((s.addPos + i) % n) =
      ⟨x.1, x.2, wrapAt n (s.addPos + i), !wrapAt n (s.addPos + i)⟩ := by
  obtain ⟨hw, hroom⟩ := h.draftRoom dr hd
  have := h.add_eq
  rw [hk _ (by omega) (by omega) hne]
  exact h.draftTail dr hd i x hi hi' hx

/-- A free position that the draft has not reached and the write does not touch stays stale. -/
theorem KeepsBut.stale (hk : KeepsBut n s q slots) (h : Inv n s) {dr : Draft δ}
    (hd : s.draft = some dr) {p : Nat} (hp : s.addPos ≤ p) (hp' : p < s.freePos + n) (hne : p ≠ q)
    (hout : p = s.addPos ∨ s.addPos + dr.written < p) : (slots (p % n)).avail = !wrapAt n p := by
  have := h.add_eq
  rw [hk p (by omega) hp' hne]
  refine h.stale p hp hp' fun dr' hdr' => ?_
  rw [hd] at hdr'
  cases hdr'
  exact hout

end OneSlot

/-! ## The producer's steps -/

section Steps

variable {n : Nat} {s : State δ}

theorem start_inv (h : Inv n s) {chain : List δ} (hd : s.draft = none) (hc : chain ≠ [])
    (hroom : s.outstanding.flatten.length + chain.length ≤ n) :
    Inv n { s with draft := some ⟨chain, 0⟩ } := by
  have hlen : 0 < chain.length := List.length_pos_iff.mpr hc
  have hadd := h.add_eq
  refine { h with draftRoom := ?_, draftTail := ?_, stale := ?_ }
  · rintro dr ⟨rfl⟩
    refine ⟨hlen, ?_⟩
    show s.addPos + chain.length ≤ s.freePos + n
    omega
  · rintro dr ⟨rfl⟩ i x h1 h0
    exact absurd h0 (by simp; omega)
  · intro p hp hp' _
    exact h.stale p hp hp' fun dr hdr => by rw [hd] at hdr; cases hdr

theorem writeTail_inv (h : Inv n s) {dr : Draft δ} (hd : s.draft = some dr) {d : δ}
    (hget : dr.chain[dr.written + 1]? = some d) {q : Nat} (hq : q = s.addPos + (dr.written + 1)) :
    Inv n { s with
      slots := Function.update s.slots (q % n)
        ⟨d, decide (dr.written + 2 < dr.chain.length), wrapAt n q, !wrapAt n q⟩
      draft := some ⟨dr.chain, dr.written + 1⟩ } := by
  obtain ⟨hlt, -⟩ := List.getElem?_eq_some_iff.mp hget
  obtain ⟨hw, hroom⟩ := h.draftRoom dr hd
  have hdt := h.done_le_take; have hta := h.take_le_add; have hadd := h.add_eq
  have hk : KeepsBut n s q (Function.update s.slots (q % n)
      ⟨d, decide (dr.written + 2 < dr.chain.length), wrapAt n q, !wrapAt n q⟩) :=
    keepsBut_update (by omega) (by omega) _
  refine { h with
    completed := hk.completed h (by omega)
    availOld := hk.availOld h (by omega)
    usedOld := hk.usedOld h (Nat.le_refl _) (.inr (by omega))
    fresh := hk.fresh h (.inr (by omega))
    draftRoom := ?_
    draftTail := ?_
    stale := ?_ }
  · rintro dr' ⟨rfl⟩
    exact ⟨hlt, hroom⟩
  · rintro dr' ⟨rfl⟩ i x hi hi' hx
    have hiw : i ≤ dr.written + 1 := hi'
    by_cases he : i = dr.written + 1
    · -- the slot just written
      subst he
      have hx' : x = (d, decide (dr.written + 1 + 1 < dr.chain.length)) := by
        rw [cells_getElem?, hget] at hx
        exact (Option.some.inj hx).symm
      show Function.update s.slots (q % n) _ ((s.addPos + (dr.written + 1)) % n) = _
      rw [← hq, Function.update_self, hx', hq]
      rfl
    · exact hk.draftTail h hd hi (by omega) (by omega) hx
  · intro p hp hp' hdr
    have hp1 : s.addPos ≤ p := hp
    have hout : p = s.addPos ∨ s.addPos + (dr.written + 1) < p := hdr _ rfl
    exact hk.stale h hd hp1 hp' (by omega) (by omega)

/-- The chain that the consumer is in, or will be in next, after one more chain is added. -/
theorem Inv.next_append (h : Inv n s) {ch : List δ} (hc : ch ≠ []) :
    ∃ c rest, s.added ++ [ch] = s.taken ++ c :: rest ∧ s.cur <+: c ∧ s.cur.length < c.length := by
  rcases h.next with ⟨ha, hcur⟩ | ⟨c, rest, ha, hpre, hlt⟩
  · refine ⟨ch, [], by rw [ha], ?_, ?_⟩
    · rw [hcur]; exact List.nil_prefix
    · rw [hcur]; exact List.length_pos_iff.mpr hc
  · exact ⟨c, rest ++ [ch], by rw [ha]; simp, hpre, hlt⟩

/-- After `publish` the whole chain is on the ring: its head was written now, its tail as a
draft. -/
theorem publish_fresh (h : Inv n s) {dr : Draft δ} (hd : s.draft = some dr) {d : δ} {tail : List δ}
    (hc : dr.chain = d :: tail) (hw : dr.written = tail.length) {slots : Nat → Slot δ}
    (hk : KeepsBut n s s.addPos slots)
    (hhead : slots (s.addPos % n) =
      ⟨d, decide (1 < (d :: tail).length), wrapAt n s.addPos, !wrapAt n s.addPos⟩) :
    ∀ p x, s.takePos ≤ p → (layout (s.added ++ [d :: tail]))[p]? = some x →
      slots (p % n) = ⟨x.1, x.2, wrapAt n p, !wrapAt n p⟩ := by
  intro p x hp hx
  by_cases hpa : p < s.addPos
  · rw [layout_append, List.getElem?_append_left (by rw [layout_length]; exact hpa)] at hx
    exact hk.fresh h (.inr (Nat.le_refl _)) p x hp hx
  · obtain ⟨i, rfl⟩ : ∃ i, p = s.addPos + i := ⟨p - s.addPos, by omega⟩
    have hx' := layout_concat s.added (d :: tail) i hx
    cases i with
    | zero =>
      rw [cells_getElem?] at hx'
      have he : x = (d, decide (0 + 1 < (d :: tail).length)) := (Option.some.inj hx').symm
      rw [he, Nat.add_zero, hhead]
    | succ i =>
      have hlen := (List.getElem?_eq_some_iff.mp hx').1
      rw [cells_length, List.length_cons] at hlen
      exact hk.draftTail h hd (by omega) (by omega) (by omega) (by rw [hc]; exact hx')

theorem publish_inv (hn : 0 < n) (h : Inv n s) {dr : Draft δ} (hd : s.draft = some dr) {d : δ}
    {tail : List δ} (hc : dr.chain = d :: tail) (hw : dr.written = tail.length) :
    Inv n { s with
      slots := Function.update s.slots (s.addPos % n)
        ⟨d, decide (1 < (d :: tail).length), wrapAt n s.addPos, !wrapAt n s.addPos⟩
      addAt := s.addAt.advance n (d :: tail).length
      outstanding := s.outstanding ++ [d :: tail]
      draft := none
      added := s.added ++ [d :: tail] } := by
  obtain ⟨-, hroom⟩ := h.draftRoom dr hd
  rw [hc, List.length_cons] at hroom
  have hdt := h.done_le_take; have hta := h.take_le_add; have hadd := h.add_eq
  have hk : KeepsBut n s s.addPos (Function.update s.slots (s.addPos % n)
      ⟨d, decide (1 < (d :: tail).length), wrapAt n s.addPos, !wrapAt n s.addPos⟩) :=
    keepsBut_update (by omega) (by omega) _
  have hpos : (s.added ++ [d :: tail]).flatten.length = s.addPos + (d :: tail).length := by
    simp [State.addPos]
  refine { h with
    addAt := ?_
    nonempty := ?_
    outstanding := ?_
    completed := hk.completed h (by omega)
    next := .inr (h.next_append (List.cons_ne_nil d tail))
    room := ?_
    availOld := hk.availOld h hta
    usedOld := hk.usedOld h (Nat.le_refl _) (.inr hta)
    fresh := publish_fresh h hd hc hw hk (Function.update_self ..)
    draftRoom := fun _ hn => by cases hn
    draftTail := fun _ hn => by cases hn
    stale := ?_ }
  · show s.addAt.advance n (d :: tail).length =
      Cursor.ofPos n (s.added ++ [d :: tail]).flatten.length
    rw [hpos, h.addAt, Cursor.advance_ofPos hn]
  · intro c hcm
    rcases List.mem_append.mp hcm with hcm | hcm
    · exact h.nonempty c hcm
    · rw [List.mem_singleton.mp hcm]; simp
  · show s.added ++ [d :: tail] = s.reclaimed ++ (s.outstanding ++ [d :: tail])
    rw [h.outstanding, List.append_assoc]
  · show (s.added ++ [d :: tail]).flatten.length ≤ s.freePos + n
    rw [hpos]; exact hroom
  · intro p hp hp' _
    have hp1 : s.addPos + (d :: tail).length ≤ p := by rw [← hpos]; exact hp
    rw [List.length_cons] at hp1
    exact hk.stale h hd (by omega) hp' (by omega) (by omega)

/-- The oldest outstanding chain is the oldest completed one. -/
theorem Inv.outstanding_cons (h : Inv n s) {c : List δ} {cs : List (List δ)}
    (hd : s.completed = s.reclaimed ++ c :: cs) : ∃ os, s.outstanding = c :: os := by
  obtain ⟨t, ht⟩ := h.taken_prefix
  have he := h.outstanding
  rw [← ht, h.pending, hd] at he
  simp only [List.append_assoc, List.append_cancel_left_eq] at he
  exact ⟨cs ++ (s.pending.map Prod.snd ++ t), by rw [← he]; simp⟩

theorem reclaim_inv (hn : 0 < n) (h : Inv n s) (hne : s.reclaimed ≠ s.completed) :
    Inv n { s with
      reclaimAt := s.reclaimAt.advance n (s.outstanding.headD []).length
      outstanding := s.outstanding.tail
      reclaimed := s.reclaimed ++ [s.outstanding.headD []] } := by
  obtain ⟨done, hd, hused⟩ := h.completed
  cases done with
  | nil => exact absurd (by simpa using hd.symm) hne
  | cons c cs =>
    obtain ⟨os, hos⟩ := h.outstanding_cons hd
    simp only [hos, List.headD_cons, List.tail_cons]
    have hpos : (s.reclaimed ++ [c]).flatten.length = s.freePos + c.length := by
      simp [State.freePos]
    have hdone : s.freePos + c.length ≤ s.donePos := by
      simp only [State.freePos, State.donePos, hd, List.flatten_append, List.length_append,
        List.flatten_cons]
      omega
    have hdt := h.done_le_take; have hta := h.take_le_add; have hr := h.room
    refine { h with
      reclaimAt := ?_
      outstanding := ?_
      completed := ?_
      room := ?_
      availOld := ?_
      draftRoom := ?_
      stale := ?_ }
    · show s.reclaimAt.advance n c.length = Cursor.ofPos n (s.reclaimed ++ [c]).flatten.length
      rw [hpos, h.reclaimAt, Cursor.advance_ofPos hn]
    · show s.added = s.reclaimed ++ [c] ++ os
      rw [h.outstanding, hos]; simp
    · refine ⟨cs, ?_, ?_⟩
      · show s.completed = s.reclaimed ++ [c] ++ cs
        rw [hd]; simp
      · show HeadsUsed n s.slots (s.reclaimed ++ [c]).flatten.length cs
        rw [hpos]; exact hused.2
    · show s.addPos ≤ (s.reclaimed ++ [c]).flatten.length + n
      rw [hpos]; omega
    · intro p hp1 hp2
      have hp1' : s.freePos + c.length ≤ p := by rw [← hpos]; exact hp1
      exact h.availOld p (by omega) hp2
    · intro dr hdr
      obtain ⟨hw, hroom⟩ := h.draftRoom dr hdr
      refine ⟨hw, ?_⟩
      show s.addPos + dr.chain.length ≤ (s.reclaimed ++ [c]).flatten.length + n
      rw [hpos]; omega
    · intro p hp1 hp2 hdr
      have hp1' : s.addPos ≤ p := hp1
      have hp2' : p < s.freePos + c.length + n := by rw [← hpos]; exact hp2
      by_cases hold : p < s.freePos + n
      · exact h.stale p hp1' hold hdr
      · -- a slot given back just now: one lap ago it was position `p - n`
        obtain ⟨q, rfl⟩ : ∃ q, p = q + n := ⟨p - n, by omega⟩
        show (s.slots ((q + n) % n)).avail = _
        rw [Nat.add_mod_right, wrapAt_add_lap hn, Bool.not_not]
        exact h.availOld q (by omega) (by omega)

/-! ## The consumer's steps -/

/-- The slot under the consumer's cursor, when one is available: the next slot of the chain that the
consumer is in, or the head of the next chain. -/
theorem Inv.next_slot (h : Inv n s) (hlt : s.takePos < s.addPos) :
    ∃ ch rest, s.added = s.taken ++ ch :: rest ∧ s.cur <+: ch ∧
      ∃ hi : s.cur.length < ch.length, s.slots (s.takePos % n) =
        ⟨ch[s.cur.length], decide (s.cur.length + 1 < ch.length), wrapAt n s.takePos,
          !wrapAt n s.takePos⟩ := by
  rcases h.next with ⟨ha, hcur⟩ | ⟨ch, rest, ha, hpre, hi⟩
  · exfalso
    simp [State.takePos, State.addPos, ha, hcur] at hlt
  · refine ⟨ch, rest, ha, hpre, hi, ?_⟩
    have hx := layout_getElem? s.taken rest ch hi
    rw [← ha] at hx
    exact h.fresh s.takePos _ (Nat.le_refl _) hx

/-- The head slot the consumer remembers, at the first slot of a chain and behind it. -/
theorem Inv.head_eq (h : Inv n s) :
    (if s.cur.isEmpty then s.takeAt.idx else s.curHead) = s.taken.flatten.length % n := by
  by_cases hcur : s.cur = []
  · rw [h.takeAt]; simp [hcur, State.takePos, Cursor.ofPos]
  · rw [if_neg (by simpa using hcur)]; exact h.curHead hcur

/-- The slot under the consumer's cursor joins the slots taken. -/
theorem Inv.availOld_succ (h : Inv n s)
    (hs : (s.slots (s.takePos % n)).avail = wrapAt n s.takePos) :
    ∀ p, s.freePos ≤ p → p < s.takePos + 1 → (s.slots (p % n)).avail = wrapAt n p := by
  intro p hp hp'
  by_cases he : p = s.takePos
  · rw [he]; exact hs
  · exact h.availOld p hp (by omega)

theorem Inv.usedOld_succ (h : Inv n s) (hs : (s.slots (s.takePos % n)).used = !wrapAt n s.takePos) :
    ∀ p, s.donePos ≤ p → p < s.takePos + 1 → (s.slots (p % n)).used = !wrapAt n p := by
  intro p hp hp'
  by_cases he : p = s.takePos
  · rw [he]; exact hs
  · exact h.usedOld p hp (by omega)

theorem take_more_inv (hn : 0 < n) (h : Inv n s) {ch : List δ} {rest : List (List δ)}
    (ha : s.added = s.taken ++ ch :: rest) (hpre : s.cur <+: ch) (hi : s.cur.length + 1 < ch.length)
    (hslot : s.slots (s.takePos % n) = ⟨ch[s.cur.length], true, wrapAt n s.takePos,
      !wrapAt n s.takePos⟩) :
    Inv n { s with
      takeAt := s.takeAt.next n
      cur := s.cur ++ [ch[s.cur.length]]
      curHead := if s.cur.isEmpty then s.takeAt.idx else s.curHead } := by
  have hpos : s.taken.flatten.length + (s.cur ++ [ch[s.cur.length]]).length = s.takePos + 1 := by
    simp [State.takePos, Nat.add_assoc]
  refine { h with
    takeAt := ?_
    next := .inr ⟨ch, rest, ha, append_getElem_of_prefix hpre (by omega), by simpa using hi⟩
    curHead := fun _ => h.head_eq
    availOld := ?_
    usedOld := ?_
    fresh := ?_ }
  · show s.takeAt.next n = Cursor.ofPos n (s.taken.flatten.length + (s.cur ++ _).length)
    rw [hpos, h.takeAt, Cursor.next_ofPos hn]
  · intro p hp hp'
    exact h.availOld_succ (by rw [hslot]) p hp (by rw [← hpos]; exact hp')
  · intro p hp hp'
    exact h.usedOld_succ (by rw [hslot]) p hp (by rw [← hpos]; exact hp')
  · intro p x hp hx
    have hp1 : s.takePos + 1 ≤ p := by rw [← hpos]; exact hp
    exact h.fresh p x (by omega) hx

theorem take_last_inv (hn : 0 < n) (h : Inv n s) {c : List δ} {rest : List (List δ)} {x : δ}
    (ha : s.added = s.taken ++ c :: rest) (hcur : c = s.cur ++ [x]) {head : Nat}
    (hhead : head = s.taken.flatten.length % n)
    (hslot : s.slots (s.takePos % n) = ⟨x, false, wrapAt n s.takePos, !wrapAt n s.takePos⟩) :
    Inv n { s with
      takeAt := s.takeAt.next n
      cur := []
      curHead := head
      pending := s.pending ++ [(head, c)]
      taken := s.taken ++ [c] } := by
  have hpos : (s.taken ++ [c]).flatten.length + ([] : List δ).length = s.takePos + 1 := by
    simp [State.takePos, hcur, Nat.add_assoc]
  refine { h with
    takeAt := ?_
    pending := ?_
    pendingAt := ?_
    next := ?_
    curHead := fun hne => absurd rfl hne
    availOld := ?_
    usedOld := ?_
    fresh := ?_ }
  · show s.takeAt.next n = Cursor.ofPos n ((s.taken ++ [c]).flatten.length + ([] : List δ).length)
    rw [hpos, h.takeAt, Cursor.next_ofPos hn]
  · show s.taken ++ [c] = s.completed ++ (s.pending ++ [(head, c)]).map Prod.snd
    rw [h.pending]; simp
  · refine h.pendingAt.append ?_
    rw [hhead, h.pending]
    simp [State.donePos]
  · cases rest with
    | nil => exact .inl ⟨ha, rfl⟩
    | cons c' rest =>
      refine .inr ⟨c', rest, ?_, List.nil_prefix, ?_⟩
      · show s.added = s.taken ++ [c] ++ c' :: rest
        rw [ha]; simp
      · exact List.length_pos_iff.mpr (h.nonempty c' (by rw [ha]; simp))
  · intro p hp hp'
    exact h.availOld_succ (by rw [hslot]) p hp (by rw [← hpos]; exact hp')
  · intro p hp hp'
    exact h.usedOld_succ (by rw [hslot]) p hp (by rw [← hpos]; exact hp')
  · intro p x hp hx
    have hp1 : s.takePos + 1 ≤ p := by rw [← hpos]; exact hp
    exact h.fresh p x (by omega) hx

theorem take_inv (hn : 0 < n) (h : Inv n s) {s' : State δ} (hs : step n s .take = some s') :
    Inv n s' := by
  simp only [step] at hs
  split at hs
  · rename_i hbits
    obtain ⟨c, rest, ha, hpre, hi, hslot⟩ := h.next_slot ((h.take_enabled hn).mp hbits)
    have hidx : s.takeAt.idx = s.takePos % n := by rw [h.takeAt]; rfl
    rw [hidx, hslot, ← hidx] at hs
    split at hs
    · rename_i hmore
      cases hs
      simp only [decide_eq_true_eq] at hmore
      rw [decide_eq_true hmore] at hslot
      exact take_more_inv hn h ha hpre hmore hslot
    · rename_i hmore
      cases hs
      simp only [decide_eq_true_eq] at hmore
      rw [decide_eq_false hmore] at hslot
      -- no slot of the chain is left behind this one
      obtain ⟨t, ht⟩ := append_getElem_of_prefix hpre hi
      have hnil : t = [] := by
        have := congrArg List.length ht
        simp only [List.length_append, List.length_singleton] at this
        exact List.eq_nil_of_length_eq_zero (by omega)
      rw [hnil, List.append_nil] at ht
      rw [ht]
      exact take_last_inv hn h ha ht.symm h.head_eq hslot
  · cases hs

theorem complete_inv (h : Inv n s) {i : Nat} {c : List δ} {ps : List (Nat × List δ)}
    (hp : s.pending = (i, c) :: ps) (d : δ) :
    Inv n { s with
      slots := Function.update s.slots i { s.slots i with data := d, used := !(s.slots i).used }
      pending := ps
      completed := s.completed ++ [c] } := by
  have hpend := h.pending
  have hat := h.pendingAt
  rw [hp] at hpend hat
  obtain ⟨rfl, hat'⟩ := hat
  have htaken : s.taken = s.completed ++ c :: ps.map Prod.snd := hpend
  have hc : 0 < c.length := List.length_pos_iff.mpr (h.taken_nonempty (by rw [htaken]; simp))
  have hlt : s.donePos + c.length ≤ s.takePos := by
    simp only [State.donePos, State.takePos, htaken, List.flatten_append, List.length_append,
      List.flatten_cons]
    omega
  have hpos : (s.completed ++ [c]).flatten.length = s.donePos + c.length := by simp [State.donePos]
  have hfd := h.free_le_done; have hta := h.take_le_add; have hr := h.room
  -- the completed chain's head is the only slot that changes, and only in `used` and `data`
  have hk : KeepsBut n s s.donePos (Function.update s.slots (s.donePos % n)
      { s.slots (s.donePos % n) with data := d, used := !(s.slots (s.donePos % n)).used }) :=
    keepsBut_update hfd (by omega) _
  have havail : ∀ j, (Function.update s.slots (s.donePos % n)
      { s.slots (s.donePos % n) with data := d, used := !(s.slots (s.donePos % n)).used } j).avail =
      (s.slots j).avail := by
    intro j
    by_cases hj : j = s.donePos % n
    · rw [hj, Function.update_self]
    · rw [Function.update_of_ne hj]
  refine { h with
    completed := ?_
    pending := ?_
    pendingAt := ?_
    availOld := fun p hp1 hp2 => (havail _).trans (h.availOld p hp1 hp2)
    usedOld := ?_
    fresh := hk.fresh h (.inl (by omega))
    draftTail := fun dr hdr i x hi hi' hx => hk.draftTail h hdr hi hi' (by omega) hx
    stale := fun p hp1 hp2 hdr => (havail _).trans (h.stale p hp1 hp2 hdr) }
  · obtain ⟨done, hd, hused⟩ := h.completed
    have hlen : s.donePos = s.freePos + done.flatten.length := by
      simp [State.donePos, State.freePos, hd]
    refine ⟨done ++ [c], ?_, (hk.headsUsed h (Nat.le_refl _) hd hused).append ?_⟩
    · show s.completed ++ [c] = s.reclaimed ++ (done ++ [c])
      rw [hd, List.append_assoc]
    · rw [← hlen, Function.update_self]
      simp [h.usedOld s.donePos (Nat.le_refl _) (by omega)]
  · show s.taken = s.completed ++ [c] ++ ps.map Prod.snd
    rw [htaken]; simp
  · show PendingAt n (s.completed ++ [c]).flatten.length ps
    rw [hpos]; exact hat'
  · intro p hp1 hp2
    have hp1' : s.donePos + c.length ≤ p := by rw [← hpos]; exact hp1
    exact hk.usedOld h (Nat.le_add_right ..) (.inl (by omega)) p hp1' hp2

/-! ## Every step, every run -/

theorem step_inv (hn : 0 < n) (h : Inv n s) {a : Act δ} {s' : State δ} (hs : step n s a = some s') :
    Inv n s' := by
  cases a with
  | start chain =>
    simp only [step] at hs
    split at hs
    · cases hs
    · rename_i hd
      split at hs
      · rename_i hc; cases hs; exact start_inv h hd hc.1 hc.2
      · cases hs
  | writeTail =>
    simp only [step] at hs
    split at hs
    · cases hs
    · rename_i dr hd
      split at hs
      · cases hs
      · rename_i d hget
        cases hs
        have hc : s.addAt.advance n (dr.written + 1) =
            Cursor.ofPos n (s.addPos + (dr.written + 1)) := by
          rw [h.addAt, Cursor.advance_ofPos hn]
        rw [hc]
        exact writeTail_inv h hd hget rfl
  | publish =>
    simp only [step] at hs
    split at hs
    · cases hs
    · rename_i dr hd
      split at hs
      · cases hs
      · rename_i d tail hc
        split at hs
        · rename_i hw
          cases hs
          have hp := publish_inv hn h hd hc hw
          have hcur : s.addAt.idx = s.addPos % n ∧ s.addAt.wrap = wrapAt n s.addPos := by
            rw [h.addAt]; exact ⟨rfl, rfl⟩
          rw [hcur.1, hcur.2]
          exact hp
        · cases hs
  | take => exact take_inv hn h hs
  | complete d =>
    simp only [step] at hs
    split at hs
    · cases hs
    · rename_i i c ps hp
      cases hs
      exact complete_inv h hp d
  | reclaim =>
    simp only [step] at hs
    split at hs
    · rename_i hbits
      cases hs
      exact reclaim_inv hn h ((h.reclaim_enabled hn).mp hbits)
    · cases hs

end Steps

/-! ## Chains go through the ring in order, each exactly once -/

/-- Both parties at the start of the first lap, nothing on the ring, every `avail` bit clear. -/
structure Init (n : Nat) (s : State δ) : Prop where
  addAt : s.addAt = Cursor.ofPos n 0
  takeAt : s.takeAt = Cursor.ofPos n 0
  reclaimAt : s.reclaimAt = Cursor.ofPos n 0
  clear : ∀ i, i < n → (s.slots i).avail = false
  idle : s.outstanding = [] ∧ s.draft = none ∧ s.cur = [] ∧ s.pending = []
  log : s.added = [] ∧ s.taken = [] ∧ s.completed = [] ∧ s.reclaimed = []

theorem init_inv {n : Nat} {s : State δ} (h : Init n s) : Inv n s := by
  obtain ⟨h1, h2, h3, hclear, ⟨ho, hdr, hc, hp⟩, ⟨la, lt, lc, lr⟩⟩ := h
  have hpos : s.addPos = 0 ∧ s.takePos = 0 ∧ s.donePos = 0 ∧ s.freePos = 0 := by
    simp [State.addPos, State.takePos, State.donePos, State.freePos, la, lt, lc, lr, hc]
  obtain ⟨pa, pt, pd, pf⟩ := hpos
  constructor
  · rw [h1, pa]
  · rw [h2, pt]
  · rw [h3, pf]
  · intro c hm; rw [la] at hm; cases hm
  · rw [la, lr, ho]; rfl
  · exact ⟨[], by rw [lc, lr]; rfl, trivial⟩
  · rw [lt, lc, hp]; rfl
  · rw [hp]; trivial
  · exact .inl ⟨by rw [la, lt], hc⟩
  · intro hne; exact absurd hc hne
  · omega
  · intro p _ h2; omega
  · intro p _ h2; omega
  · intro p x _ hx; rw [la] at hx; cases hx
  · intro dr hd; rw [hdr] at hd; cases hd
  · intro dr hd; rw [hdr] at hd; cases hd
  · intro p _ hlt _
    have hpn : p < n := by omega
    rw [Nat.mod_eq_of_lt hpn, hclear p hpn, wrapAt, Nat.div_eq_of_lt hpn]
    rfl

theorem reach_inv {n : Nat} {s s' : State δ} (hn : 0 < n) (h : Init n s) (hr : Reach n s s') :
    Inv n s' := by
  induction hr with
  | refl => exact init_inv h
  | tail _ hs ih =>
    obtain ⟨a, ha⟩ := hs
    exact step_inv hn ih ha

/-- What the producer and the consumer have seen agrees in every reachable state, and neither ever
waits for a chain that is there: a take is enabled exactly when a published slot has not been taken,
and a reclaim exactly when a completed chain has not been reclaimed. -/
theorem fifo {n : Nat} {s : State δ} (hn : 0 < n) (h : Inv n s) :
    s.taken <+: s.added ∧ s.completed <+: s.taken ∧ s.reclaimed <+: s.completed ∧
    ((∃ s', step n s .take = some s') ↔ s.takePos < s.addPos) ∧
    ((∃ s', step n s .reclaim = some s') ↔ s.reclaimed ≠ s.completed) := by
  refine ⟨h.taken_prefix, ?_, ?_, ?_, ?_⟩
  · rw [h.pending]; exact List.prefix_append _ _
  · obtain ⟨done, hd, _⟩ := h.completed
    rw [hd]; exact List.prefix_append _ _
  · rw [← h.take_enabled hn]
    simp only [step]
    split
    · rename_i hb; split <;> simp [hb]
    · rename_i hb; simp [hb]
  · rw [← h.reclaim_enabled hn]
    simp only [step]
    split
    · rename_i hb; simp [hb]
    · rename_i hb; simp [hb]

end PackedRing
