import Mathlib.Logic.Relation
import Mathlib.Logic.Function.Basic
import KvmHost.Lib.Lap

/-!
# KvmHost.Lib.PackedRing

A producer and a consumer that share one ring of slots and nothing else. A slot carries a datum, a
`more` bit (the next slot belongs to the same chain) and two state bits, `avail` and `used`. Each
party walks the ring with a cursor and reads the two bits against the cursor's wrap bit:

* the producer writes a chain with `avail = wrap`, `used = !wrap`, its head last (`publish`);
* the consumer takes a slot when `avail = wrap` and `used ≠ wrap`, and completes a chain by toggling
  `used` on the chain's head alone;
* the producer reclaims the chain under its second cursor when `avail = used = wrap`.

The slots behind the head of a chain are never touched by the consumer, so they keep their bits for
a whole lap. `Inv` says what the two bits of every slot are in terms of three positions (added,
taken, reclaimed); `Inv.take_enabled` and `Inv.reclaim_enabled` read off it when the two tests on
the bits succeed. That every step keeps `Inv` is `KvmHost.Lib.PackedRingSteps`.
-/

namespace PackedRing

open Lap

structure Slot (δ : Type) where
  data : δ
  more : Bool
  avail : Bool
  used : Bool

/-- A chain whose tail slots are being written; `written` of them are. -/
structure Draft (δ : Type) where
  chain : List δ
  written : Nat

structure State (δ : Type) where
  slots : Nat → Slot δ
  -- the producer
  addAt : Cursor
  reclaimAt : Cursor
  outstanding : List (List δ)
  draft : Option (Draft δ)
  -- the consumer
  takeAt : Cursor
  cur : List δ
  curHead : Nat
  pending : List (Nat × List δ)
  -- what has happened so far
  added : List (List δ)
  taken : List (List δ)
  completed : List (List δ)
  reclaimed : List (List δ)

inductive Act (δ : Type) where
  | start (chain : List δ)
  | writeTail
  | publish
  | take
  | complete (d : δ)
  | reclaim

variable {δ : Type}

/-- One step of either party on a ring of `n` slots; `none` when the step is not enabled. -/
def step (n : Nat) (s : State δ) : Act δ → Option (State δ)
  | .start chain =>
    match s.draft with
    | some _ => none
    | none =>
      if chain ≠ [] ∧ s.outstanding.flatten.length + chain.length ≤ n then
        some { s with draft := some ⟨chain, 0⟩ }
      else none
  | .writeTail =>
    match s.draft with
    | none => none
    | some dr =>
      match dr.chain[dr.written + 1]? with
      | none => none
      | some d =>
        let c := s.addAt.advance n (dr.written + 1)
        some { s with
          slots := Function.update s.slots c.idx
            ⟨d, decide (dr.written + 2 < dr.chain.length), c.wrap, !c.wrap⟩
          draft := some ⟨dr.chain, dr.written + 1⟩ }
  | .publish =>
    match s.draft with
    | none => none
    | some dr =>
      match dr.chain with
      | [] => none
      | d :: tail =>
        if dr.written = tail.length then
          some { s with
            slots := Function.update s.slots s.addAt.idx
              ⟨d, decide (1 < (d :: tail).length), s.addAt.wrap, !s.addAt.wrap⟩
            addAt := s.addAt.advance n (d :: tail).length
            outstanding := s.outstanding ++ [d :: tail]
            draft := none
            added := s.added ++ [d :: tail] }
        else none
  | .take =>
    let sl := s.slots s.takeAt.idx
    if sl.avail = s.takeAt.wrap ∧ sl.used ≠ s.takeAt.wrap then
      let head := if s.cur.isEmpty then s.takeAt.idx else s.curHead
      let cur := s.cur ++ [sl.data]
      if sl.more then
        some { s with takeAt := s.takeAt.next n, cur := cur, curHead := head }
      else
        some { s with
          takeAt := s.takeAt.next n
          cur := []
          curHead := head
          pending := s.pending ++ [(head, cur)]
          taken := s.taken ++ [cur] }
    else none
  | .complete d =>
    match s.pending with
    | [] => none
    | (h, c) :: rest =>
      some { s with
        slots := Function.update s.slots h
          { s.slots h with data := d, used := !(s.slots h).used }
        pending := rest
        completed := s.completed ++ [c] }
  | .reclaim =>
    let sl := s.slots s.reclaimAt.idx
    if sl.avail = s.reclaimAt.wrap ∧ sl.used = s.reclaimAt.wrap then
      -- the producer knows its chains; with none outstanding it would hand back an empty one
      let c := s.outstanding.headD []
      some { s with
        reclaimAt := s.reclaimAt.advance n c.length
        outstanding := s.outstanding.tail
        reclaimed := s.reclaimed ++ [c] }
    else none

theorem step_take_more {n : Nat} {s : State δ}
    (hb : (s.slots s.takeAt.idx).avail = s.takeAt.wrap ∧
      (s.slots s.takeAt.idx).used ≠ s.takeAt.wrap)
    (hm : (s.slots s.takeAt.idx).more = true) :
    step n s .take = some { s with
      takeAt := s.takeAt.next n
      cur := s.cur ++ [(s.slots s.takeAt.idx).data]
      curHead := if s.cur.isEmpty then s.takeAt.idx else s.curHead } := by
  simp only [step]
  rw [if_pos hb, if_pos hm]

theorem step_take_last {n : Nat} {s : State δ}
    (hb : (s.slots s.takeAt.idx).avail = s.takeAt.wrap ∧
      (s.slots s.takeAt.idx).used ≠ s.takeAt.wrap)
    (hm : (s.slots s.takeAt.idx).more = false) :
    step n s .take = some { s with
      takeAt := s.takeAt.next n
      cur := []
      curHead := if s.cur.isEmpty then s.takeAt.idx else s.curHead
      pending := s.pending ++
        [(if s.cur.isEmpty then s.takeAt.idx else s.curHead,
          s.cur ++ [(s.slots s.takeAt.idx).data])]
      taken := s.taken ++ [s.cur ++ [(s.slots s.takeAt.idx).data]] } := by
  simp only [step]
  rw [if_pos hb, if_neg (by rw [hm]; decide)]

/-- States reached from `s` by any interleaving of steps. -/
def Reach (n : Nat) : State δ → State δ → Prop :=
  Relation.ReflTransGen fun s s' => ∃ a, step n s a = some s'

/-! ## Chains laid out on the ring -/

/-- The data and `more` bits of a chain, slot by slot. -/
def cells : List δ → List (δ × Bool)
  | [] => []
  | d :: tail => (d, !tail.isEmpty) :: cells tail

theorem cells_length (c : List δ) : (cells c).length = c.length := by
  induction c with
  | nil => rfl
  | cons d tail ih => simp [cells, ih]

theorem cells_getElem? (ch : List δ) (i : Nat) :
    (cells ch)[i]? = (ch[i]?).map fun d => (d, decide (i + 1 < ch.length)) := by
  induction ch generalizing i with
  | nil => simp [cells]
  | cons d tail ih =>
    cases i with
    | zero => cases tail <;> simp [cells]
    | succ i => simp [cells, ih]

/-- The slots of a sequence of chains, one after the other. -/
def layout (cs : List (List δ)) : List (δ × Bool) := cs.flatMap cells

theorem layout_append (cs ds : List (List δ)) : layout (cs ++ ds) = layout cs ++ layout ds := by
  simp [layout]

theorem layout_length (cs : List (List δ)) : (layout cs).length = cs.flatten.length := by
  induction cs with
  | nil => rfl
  | cons c cs ih =>
    simp only [layout, List.flatMap_cons, List.length_append, List.flatten_cons] at ih ⊢
    rw [ih, cells_length]

/-- Chain `ch` after the chains `cs`: its `i`-th slot is at position `cs.flatten.length + i`. -/
theorem layout_getElem? (cs ds : List (List δ)) (ch : List δ) {i : Nat} (hi : i < ch.length) :
    (layout (cs ++ ch :: ds))[cs.flatten.length + i]? =
      some (ch[i], decide (i + 1 < ch.length)) := by
  have h1 : layout (cs ++ ch :: ds) = layout cs ++ (cells ch ++ layout ds) := by
    rw [layout_append]; rfl
  rw [h1, List.getElem?_append_right (by rw [layout_length]; omega), layout_length,
    Nat.add_sub_cancel_left, List.getElem?_append_left (by rw [cells_length]; exact hi),
    cells_getElem?, List.getElem?_eq_getElem hi]
  rfl

/-! ## The invariant -/

namespace State

/-- Slots published, taken, completed and reclaimed so far. -/
def addPos (s : State δ) : Nat := s.added.flatten.length
def takePos (s : State δ) : Nat := s.taken.flatten.length + s.cur.length
def donePos (s : State δ) : Nat := s.completed.flatten.length
def freePos (s : State δ) : Nat := s.reclaimed.flatten.length

end State

/-- The heads of chains laid out from position `p` on are marked used. -/
def HeadsUsed (n : Nat) (slots : Nat → Slot δ) : Nat → List (List δ) → Prop
  | _, [] => True
  | p, c :: cs => (slots (p % n)).used = wrapAt n p ∧ HeadsUsed n slots (p + c.length) cs

/-- The recorded head slots of chains laid out from position `p` on. -/
def PendingAt (n : Nat) : Nat → List (Nat × List δ) → Prop
  | _, [] => True
  | p, (h, c) :: rest => h = p % n ∧ PendingAt n (p + c.length) rest

/-- What the bits of every slot are, position by position: `[freePos, takePos)` has been taken,
`[takePos, addPos)` is available, and the rest of the window `[addPos, freePos + n)` is free. Free
slots still carry the bits of the lap before, except the tail slots of the draft. -/
structure Inv (n : Nat) (s : State δ) : Prop where
  addAt : s.addAt = Cursor.ofPos n s.addPos
  takeAt : s.takeAt = Cursor.ofPos n s.takePos
  reclaimAt : s.reclaimAt = Cursor.ofPos n s.freePos
  nonempty : ∀ c ∈ s.added, c ≠ []
  outstanding : s.added = s.reclaimed ++ s.outstanding
  completed : ∃ done, s.completed = s.reclaimed ++ done ∧ HeadsUsed n s.slots s.freePos done
  pending : s.taken = s.completed ++ s.pending.map Prod.snd
  pendingAt : PendingAt n s.donePos s.pending
  next : (s.added = s.taken ∧ s.cur = []) ∨
    ∃ c rest, s.added = s.taken ++ c :: rest ∧ s.cur <+: c ∧ s.cur.length < c.length
  curHead : s.cur ≠ [] → s.curHead = s.taken.flatten.length % n
  room : s.addPos ≤ s.freePos + n
  availOld : ∀ p, s.freePos ≤ p → p < s.takePos → (s.slots (p % n)).avail = wrapAt n p
  usedOld : ∀ p, s.donePos ≤ p → p < s.takePos → (s.slots (p % n)).used = !wrapAt n p
  fresh : ∀ p x, s.takePos ≤ p → (layout s.added)[p]? = some x →
    s.slots (p % n) = ⟨x.1, x.2, wrapAt n p, !wrapAt n p⟩
  draftRoom : ∀ dr, s.draft = some dr →
    dr.written < dr.chain.length ∧ s.addPos + dr.chain.length ≤ s.freePos + n
  draftTail : ∀ dr, s.draft = some dr → ∀ i x, 1 ≤ i → i ≤ dr.written →
    (cells dr.chain)[i]? = some x →
    s.slots ((s.addPos + i) % n) = ⟨x.1, x.2, wrapAt n (s.addPos + i), !wrapAt n (s.addPos + i)⟩
  stale : ∀ p, s.addPos ≤ p → p < s.freePos + n →
    (∀ dr, s.draft = some dr → p = s.addPos ∨ s.addPos + dr.written < p) →
    (s.slots (p % n)).avail = !wrapAt n p

section Inv

variable {n : Nat} {s : State δ}

theorem Inv.take_le_add (h : Inv n s) : s.takePos ≤ s.addPos := by
  rcases h.next with ⟨ha, hc⟩ | ⟨c, rest, ha, _, hlt⟩
  · simp [State.takePos, State.addPos, ha, hc]
  · simp only [State.takePos, State.addPos, ha, List.flatten_append, List.length_append,
      List.flatten_cons]
    omega

theorem Inv.taken_prefix (h : Inv n s) : s.taken <+: s.added := by
  rcases h.next with ⟨ha, _⟩ | ⟨c, rest, ha, _, _⟩
  · exact ⟨[], by rw [ha, List.append_nil]⟩
  · rw [ha]; exact List.prefix_append _ _

theorem Inv.taken_nonempty (h : Inv n s) {c : List δ} (hc : c ∈ s.taken) : c ≠ [] :=
  h.nonempty c (h.taken_prefix.subset hc)

theorem Inv.done_le_take (h : Inv n s) : s.donePos ≤ s.takePos := by
  have := congrArg (fun l => l.flatten.length) h.pending
  simp only [List.flatten_append, List.length_append] at this
  simp only [State.donePos, State.takePos]
  omega

theorem Inv.free_le_done (h : Inv n s) : s.freePos ≤ s.donePos := by
  obtain ⟨done, hd, _⟩ := h.completed
  simp [State.freePos, State.donePos, hd]

theorem Inv.lt_addPos (h : Inv n s) {p : Nat} {x : δ × Bool}
    (hx : (layout s.added)[p]? = some x) : p < s.addPos ∧ p < s.freePos + n := by
  have hlt := (List.getElem?_eq_some_iff.mp hx).1
  rw [layout_length] at hlt
  exact ⟨hlt, Nat.lt_of_lt_of_le hlt h.room⟩

theorem Inv.add_eq (h : Inv n s) : s.addPos = s.freePos + s.outstanding.flatten.length := by
  simp [State.addPos, State.freePos, h.outstanding]

/-- The slot the producer publishes into next never looks available: either it is free and still
carries the bits of the lap before, or the ring is full and it holds the oldest chain. -/
theorem Inv.avail_addPos (hn : 0 < n) (h : Inv n s) (hta : s.takePos = s.addPos) :
    (s.slots (s.addPos % n)).avail = !wrapAt n s.addPos := by
  by_cases hfull : s.addPos < s.freePos + n
  · exact h.stale _ (Nat.le_refl _) hfull fun _ _ => .inl rfl
  · have he : s.addPos = s.freePos + n := by have := h.room; omega
    rw [he, Nat.add_mod_right, wrapAt_add_lap hn, Bool.not_not]
    exact h.availOld _ (Nat.le_refl _) (by omega)

theorem Inv.take_enabled (hn : 0 < n) (h : Inv n s) :
    ((s.slots s.takeAt.idx).avail = s.takeAt.wrap ∧ (s.slots s.takeAt.idx).used ≠ s.takeAt.wrap) ↔
      s.takePos < s.addPos := by
  rw [h.takeAt]
  simp only [Cursor.ofPos]
  constructor
  · rintro ⟨ha, -⟩
    by_contra hge
    have hta : s.takePos = s.addPos := Nat.le_antisymm h.take_le_add (by omega)
    rw [hta, h.avail_addPos hn hta] at ha
    simp at ha
  · intro hlt
    have hlen : s.takePos < (layout s.added).length := by rw [layout_length]; exact hlt
    rw [h.fresh _ _ (Nat.le_refl _) (List.getElem?_eq_getElem hlen)]
    simp

/-- The reclaim test succeeds exactly when a completed chain has not been reclaimed yet. -/
theorem Inv.reclaim_enabled (hn : 0 < n) (h : Inv n s) :
    ((s.slots s.reclaimAt.idx).avail = s.reclaimAt.wrap ∧
      (s.slots s.reclaimAt.idx).used = s.reclaimAt.wrap) ↔ s.reclaimed ≠ s.completed := by
  obtain ⟨done, hd, hused⟩ := h.completed
  rw [h.reclaimAt]
  simp only [Cursor.ofPos]
  cases done with
  | nil =>
    have hpos : s.donePos = s.freePos := by simp [State.donePos, State.freePos, hd]
    refine ⟨fun hbits => ?_, fun hne => absurd (by simpa using hd.symm) hne⟩
    exfalso
    by_cases hta : s.freePos < s.takePos
    · have := h.usedOld s.freePos (by omega) hta
      rw [hbits.2] at this
      simp at this
    · by_cases hadd : s.freePos < s.addPos
      · -- available but not taken: `used` is still the inverse of the wrap bit
        have hlen : s.freePos < (layout s.added).length := by rw [layout_length]; exact hadd
        have := h.fresh s.freePos _ (by omega) (List.getElem?_eq_getElem hlen)
        rw [this] at hbits
        simp at hbits
      · have he : s.freePos = s.addPos := by have := h.add_eq; omega
        have hta' : s.takePos = s.addPos := by have := h.done_le_take; omega
        have := h.avail_addPos hn hta'
        rw [← he, hbits.1] at this
        simp at this
  | cons c cs =>
    have hc : c ≠ [] := h.taken_nonempty (by rw [h.pending, hd]; simp)
    refine ⟨fun _ he => by rw [he] at hd; simp at hd, fun _ => ⟨?_, hused.1⟩⟩
    apply h.availOld _ (Nat.le_refl _)
    have hlt : s.freePos < s.donePos := by
      have : 0 < c.length := List.length_pos_iff.mpr hc
      simp only [State.freePos, State.donePos, hd, List.flatten_append, List.length_append,
        List.flatten_cons]
      omega
    have := h.done_le_take
    omega

end Inv

end PackedRing
