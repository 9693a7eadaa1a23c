import KvmHost.Lib.PackedRingSteps
import KvmHost.Virtq

/-!
# KvmHost.RingProtocol

The packed-ring protocol between the guest driver and the device, on the bytes of guest memory.

The device side is the code: descriptors are taken with `virtqGetAvail`, a chain is followed while
`virtqCheckNext` says so, and a chain is completed by toggling USED on its first descriptor, as
`virtio_blk_complete_request` and the two `virtio_net` handlers do. The handlers complete a chain
before they take the next one; here completions may also lag behind, in order. The driver side
follows the virtio 1.1 rules for packed rings: it writes the descriptors of a chain one by one, the
head last, with AVAIL equal to its wrap bit and USED to the inverse, never has more than `n`
descriptors outstanding, and reclaims at its own in-order position.

`Sim` relates a state to one of `PackedRing`, where a slot is the descriptor its 16 bytes hold;
every step here is a step there (`step_sim`), so `ring_exactly_once` follows from `PackedRing.fifo`.
-/

namespace KvmHost

open ByteStore Lap
open PackedRing (Slot Draft)

namespace Ring

/-- The driver's private state and the buffers it has added and reclaimed. -/
structure Driver where
  addAt : Cursor
  reclaimAt : Cursor
  outstanding : List (List VringPackedDesc)
  draft : Option (Draft VringPackedDesc)
  added : List (List VringPackedDesc)
  reclaimed : List (List VringPackedDesc)

/-- The device's private state and the buffers it has taken and completed. -/
structure Device where
  vq : Virtq
  cur : List VringPackedDesc
  usedDesc : Nat
  pending : List (Nat × List VringPackedDesc)
  taken : List (List VringPackedDesc)
  completed : List (List VringPackedDesc)

structure Sys where
  ram : Ram
  drv : Driver
  dev : Device

inductive Act where
  | start (chain : List VringPackedDesc)
  | writeTail
  | publish
  | take
  /-- the device may also rewrite `len` of the head it completes -/
  | complete (len : Option Nat)
  | reclaim

/-- The descriptors of a chain that starts at cursor `c` have the flags the driver must give
them. -/
def chainOk (n : Nat) : Cursor → List VringPackedDesc → Prop
  | _, [] => True
  | c, d :: tail =>
    (d.Fits ∧ d.flags.testBit vringPackedDescFAvail = c.wrap ∧
      d.flags.testBit vringPackedDescFUsed = !c.wrap ∧
      d.flags.testBit vringDescFNext = !tail.isEmpty) ∧ chainOk n (c.next n) tail

instance (d : VringPackedDesc) : Decidable d.Fits :=
  decidable_of_iff (d.addr < 2 ^ 64 ∧ d.len < 2 ^ 32 ∧ d.id < 2 ^ 16 ∧ d.flags < 2 ^ 16)
    ⟨fun ⟨h1, h2, h3, h4⟩ => ⟨h1, h2, h3, h4⟩, fun ⟨h1, h2, h3, h4⟩ => ⟨h1, h2, h3, h4⟩⟩

instance chainOkDecidable (n : Nat) :
    ∀ (c : Cursor) (chain : List VringPackedDesc), Decidable (chainOk n c chain)
  | _, [] => .isTrue trivial
  | c, d :: tail =>
    have := chainOkDecidable n (c.next n) tail
    inferInstanceAs (Decidable ((d.Fits ∧ d.flags.testBit vringPackedDescFAvail = c.wrap ∧
      d.flags.testBit vringPackedDescFUsed = !c.wrap ∧
      d.flags.testBit vringDescFNext = !tail.isEmpty) ∧ chainOk n (c.next n) tail))

/-- The driver writes descriptor `d` into slot `i` of the ring at host address `ring`. -/
def writeSlot (ring : Nat) (ram : Ram) (i : Nat) (d : VringPackedDesc) : Ram :=
  { ram with bytes := putDesc ram.bytes (ring + 16 * i) d }

/-- One step of the driver or the device; `none` when the step is not enabled. -/
def step (ring n : Nat) (s : Sys) : Act → Option Sys
  | .start chain =>
    match s.drv.draft with
    | some _ => none
    | none =>
      if chain ≠ [] ∧ s.drv.outstanding.flatten.length + chain.length ≤ n ∧
          chainOk n s.drv.addAt chain then
        some { s with drv.draft := some ⟨chain, 0⟩ }
      else none
  | .writeTail =>
    match s.drv.draft with
    | none => none
    | some dr =>
      match dr.chain[dr.written + 1]? with
      | none => none
      | some d =>
        some { s with
          ram := writeSlot ring s.ram (s.drv.addAt.advance n (dr.written + 1)).idx d
          drv.draft := some ⟨dr.chain, dr.written + 1⟩ }
  | .publish =>
    match s.drv.draft with
    | none => none
    | some dr =>
      match dr.chain with
      | [] => none
      | d :: tail =>
        if dr.written = tail.length then
          some { s with
            ram := writeSlot ring s.ram s.drv.addAt.idx d
            drv := { s.drv with
              addAt := s.drv.addAt.advance n (d :: tail).length
              outstanding := s.drv.outstanding ++ [d :: tail]
              draft := none
              added := s.drv.added ++ [d :: tail] } }
        else none
  | .take =>
    match virtqGetAvail s.ram s.dev.vq with
    | .ok (some a, vq) =>
      let head := if s.dev.cur.isEmpty then a else s.dev.usedDesc
      let cur := s.dev.cur ++ [descAt s.ram.bytes a]
      match virtqCheckNext s.ram (some a) with
      | .ok true => some { s with dev := { s.dev with vq := vq, cur := cur, usedDesc := head } }
      | .ok false =>
        some { s with
          dev := { s.dev with
            vq := vq
            cur := []
            usedDesc := head
            pending := s.dev.pending ++ [(head, cur)]
            taken := s.dev.taken ++ [cur] } }
      | .error _ => none
    | _ => none
  | .complete len =>
    match s.dev.pending with
    | [] => none
    | (a, c) :: rest =>
      match xorDescUsed s.ram (some a) with
      | .error _ => none
      | .ok ram =>
        let dev := { s.dev with pending := rest, completed := s.dev.completed ++ [c] }
        match len with
        | none => some { s with ram := ram, dev := dev }
        | some r =>
          match setDescLen ram (some a) r with
          | .ok ram => some { s with ram := ram, dev := dev }
          | .error _ => none
  | .reclaim =>
    let flags := (descAt s.ram.bytes (ring + 16 * s.drv.reclaimAt.idx)).flags
    if flags.testBit vringPackedDescFAvail = s.drv.reclaimAt.wrap ∧
        flags.testBit vringPackedDescFUsed = s.drv.reclaimAt.wrap then
      let c := s.drv.outstanding.headD []
      some { s with
        drv := { s.drv with
          reclaimAt := s.drv.reclaimAt.advance n c.length
          outstanding := s.drv.outstanding.tail
          reclaimed := s.drv.reclaimed ++ [c] } }
    else none

/-- States reached from `s` by any interleaving of driver and device steps. -/
def Reach (ring n : Nat) : Sys → Sys → Prop :=
  Relation.ReflTransGen fun s s' => ∃ a, step ring n s a = some s'

/-- The start: `n` descriptors with zero flags, a device as `virtq_init` leaves it with its queue
set to this ring, and a driver at the start of its first lap. -/
structure Init (ring n : Nat) (s : Sys) : Prop where
  ringOf : RingOf s.dev.vq ring n
  device : s.dev.vq.cursor = (virtqInit s.dev.vq).cursor
  driver : s.drv.addAt = ⟨0, true⟩ ∧ s.drv.reclaimAt = ⟨0, true⟩
  flags : ∀ i, i < n → (descAt s.ram.bytes (ring + 16 * i)).flags = 0
  idle : s.drv.outstanding = [] ∧ s.drv.draft = none ∧ s.dev.cur = [] ∧ s.dev.pending = []
  log : s.drv.added = [] ∧ s.dev.taken = [] ∧ s.dev.completed = [] ∧ s.drv.reclaimed = []

/-! ## Simulation by `PackedRing` -/

/-- A descriptor as a slot of the abstract ring. -/
def slotOf (d : VringPackedDesc) : Slot VringPackedDesc :=
  ⟨d, d.flags.testBit vringDescFNext, d.flags.testBit vringPackedDescFAvail,
    d.flags.testBit vringPackedDescFUsed⟩

def slotsOf (ring : Nat) (m : Store) : Nat → Slot VringPackedDesc :=
  fun i => slotOf (descAt m (ring + 16 * i))

structure Sim (ring n : Nat) (s : Sys) (t : PackedRing.State VringPackedDesc) : Prop where
  ringOf : RingOf s.dev.vq ring n
  slots : t.slots = slotsOf ring s.ram.bytes
  addAt : t.addAt = s.drv.addAt
  reclaimAt : t.reclaimAt = s.drv.reclaimAt
  outstanding : t.outstanding = s.drv.outstanding
  draft : t.draft = s.drv.draft
  draftOk : ∀ dr, s.drv.draft = some dr → chainOk n s.drv.addAt dr.chain
  addIdx : s.drv.addAt.idx < n
  takeAt : t.takeAt = s.dev.vq.cursor
  cur : t.cur = s.dev.cur
  curHead : s.dev.cur ≠ [] → s.dev.usedDesc = ring + 16 * t.curHead ∧ t.curHead < n
  pending : s.dev.pending = t.pending.map fun p => (ring + 16 * p.1, p.2)
  pendingLt : ∀ p ∈ t.pending, p.1 < n
  added : t.added = s.drv.added
  taken : t.taken = s.dev.taken
  completed : t.completed = s.dev.completed
  reclaimed : t.reclaimed = s.drv.reclaimed

theorem advance_idx_lt {n : Nat} : ∀ (k : Nat) {c : Cursor}, c.idx < n → (c.advance n k).idx < n
  | 0, _, h => h
  | k + 1, _, h => advance_idx_lt k (Cursor.next_idx_lt h)

theorem chainOk_get {n : Nat} : ∀ {chain : List VringPackedDesc} {c : Cursor} {i : Nat}
    {d : VringPackedDesc}, chainOk n c chain → chain[i]? = some d →
    d.Fits ∧ slotOf d =
      ⟨d, decide (i + 1 < chain.length), (c.advance n i).wrap, !(c.advance n i).wrap⟩ := by
  intro chain
  induction chain with
  | nil => intro c i d _ h; cases h
  | cons e tail ih =>
    intro c i d hok hget
    cases i with
    | zero =>
      cases hget
      obtain ⟨⟨hfit, ha, hu, hm⟩, _⟩ := hok
      refine ⟨hfit, ?_⟩
      simp only [slotOf, ha, hu, hm, Cursor.advance]
      cases tail <;> simp
    | succ i =>
      obtain ⟨hfit, hs⟩ := ih (c := c.next n) hok.2 hget
      refine ⟨hfit, ?_⟩
      rw [hs]
      simp [Cursor.advance]

theorem slotsOf_writeSlot (ring : Nat) (ram : Ram) (i : Nat) {d : VringPackedDesc} (h : d.Fits) :
    slotsOf ring (writeSlot ring ram i d).bytes =
      Function.update (slotsOf ring ram.bytes) i (slotOf d) := by
  funext j
  by_cases hj : j = i
  · subst hj
    rw [Function.update_self]
    simp only [slotsOf, writeSlot, descAt_putDesc_same ram.bytes _ h]
  · rw [Function.update_of_ne hj]
    simp only [slotsOf, writeSlot]
    rw [descAt_putDesc_apart (by simp only [Span.Apart]; omega)]

/-- A change confined to slot `i` that keeps all but the USED bit and the datum of the slot. -/
theorem slotsOf_complete {ring i : Nat} {m m' : Store} {d : VringPackedDesc}
    (hout : ∀ p, ¬ Span.Has ⟨ring + 16 * i, 16⟩ p → m' p = m p)
    (hd : descAt m' (ring + 16 * i) = d)
    (hf : d.flags = (descAt m (ring + 16 * i)).flags ^^^ 2 ^ vringPackedDescFUsed) :
    slotsOf ring m' = Function.update (slotsOf ring m) i
      { slotsOf ring m i with data := d, used := !(slotsOf ring m i).used } := by
  funext j
  by_cases hj : j = i
  · subst hj
    rw [Function.update_self]
    simp only [slotsOf, slotOf, hd, hf, Nat.testBit_xor, vringPackedDescFUsed, vringDescFNext,
      vringPackedDescFAvail, Nat.testBit_two_pow]
    simp
  · rw [Function.update_of_ne hj]
    simp only [slotsOf]
    rw [descAt_congr fun p hp => hout p ?_]
    simp only [Span.Has] at hp ⊢
    omega

section Sim

variable {ring n : Nat} {s : Sys} {t : PackedRing.State VringPackedDesc}

theorem slot_eq (h : Sim ring n s t) (i : Nat) :
    t.slots i = slotOf (descAt s.ram.bytes (ring + 16 * i)) := by rw [h.slots]; rfl

/-- `virtq_get_avail` succeeds exactly when the abstract consumer may take a slot. -/
theorem getAvail_iff (h : Sim ring n s t) :
    availFor s.dev.vq.usedWrapCount
        (descAt s.ram.bytes (ring + 16 * s.dev.vq.nextAvailIdx)).flags = true ↔
      ((t.slots t.takeAt.idx).avail = t.takeAt.wrap ∧
        (t.slots t.takeAt.idx).used ≠ t.takeAt.wrap) := by
  rw [h.takeAt, slot_eq h]
  simp [availFor, slotOf, Virtq.cursor]

/-- The abstract ring can follow to `s'`. -/
def Follows (ring n : Nat) (t : PackedRing.State VringPackedDesc) (s' : Sys) : Prop :=
  ∃ a' t', PackedRing.step n t a' = some t' ∧ Sim ring n s' t'

theorem start_sim (h : Sim ring n s t) {chain : List VringPackedDesc} {s' : Sys}
    (hs : step ring n s (.start chain) = some s') : Follows ring n t s' := by
  simp only [step] at hs
  split at hs
  · cases hs
  · rename_i hd
    split at hs
    · rename_i hc
      cases hs
      refine ⟨.start chain, { t with draft := some ⟨chain, 0⟩ }, ?_, ?_⟩
      · simp only [PackedRing.step, h.draft, hd, h.outstanding]
        rw [if_pos ⟨hc.1, hc.2.1⟩]
      · exact { h with
          draft := rfl
          draftOk := fun dr hdr => by cases hdr; exact hc.2.2 }
    · cases hs

theorem writeTail_sim (h : Sim ring n s t) {s' : Sys} (hs : step ring n s .writeTail = some s') :
    Follows ring n t s' := by
  simp only [step] at hs
  split at hs
  · cases hs
  · rename_i dr hd
    split at hs
    · cases hs
    · rename_i d hget
      cases hs
      obtain ⟨hfit, hslot⟩ := chainOk_get (h.draftOk dr hd) hget
      refine ⟨.writeTail, _, by simp only [PackedRing.step, h.draft, hd, hget]; rfl, ?_⟩
      refine { h with slots := ?_, draft := rfl, draftOk := ?_ }
      · show Function.update t.slots _ _ = _
        rw [slotsOf_writeSlot _ _ _ hfit, hslot, h.slots, h.addAt]
      · rintro dr' ⟨rfl⟩
        exact h.draftOk dr hd

theorem publish_sim (h : Sim ring n s t) {s' : Sys} (hs : step ring n s .publish = some s') :
    Follows ring n t s' := by
  simp only [step] at hs
  split at hs
  · cases hs
  · rename_i dr hd
    split at hs
    · cases hs
    · rename_i d tail hc
      split at hs
      · rename_i hw
        cases hs
        obtain ⟨hfit, hslot⟩ := chainOk_get (i := 0) (d := d) (h.draftOk dr hd) (by rw [hc]; rfl)
        refine ⟨.publish, _, by simp only [PackedRing.step, h.draft, hd, hc]; rw [if_pos hw], ?_⟩
        refine { h with
          slots := ?_
          addAt := ?_
          outstanding := ?_
          draft := rfl
          draftOk := fun dr hdr => by cases hdr
          addIdx := advance_idx_lt _ h.addIdx
          added := ?_ }
        · show Function.update t.slots _ _ = _
          rw [slotsOf_writeSlot _ _ _ hfit, hslot, h.slots, h.addAt, hc]
          rfl
        · show t.addAt.advance n _ = _
          rw [h.addAt]
        · show t.outstanding ++ [d :: tail] = _
          rw [h.outstanding]
        · show t.added ++ [d :: tail] = _
          rw [h.added]
      · cases hs

/-- The descriptor the device remembers as the chain's first is the abstract head slot. -/
theorem head_sim (h : Sim ring n s t) :
    (if s.dev.cur.isEmpty then ring + 16 * s.dev.vq.nextAvailIdx else s.dev.usedDesc) =
        ring + 16 * (if t.cur.isEmpty then t.takeAt.idx else t.curHead) ∧
      (if t.cur.isEmpty then t.takeAt.idx else t.curHead) < n := by
  have hidx : t.takeAt.idx = s.dev.vq.nextAvailIdx := by rw [h.takeAt]; rfl
  rw [h.cur, hidx]
  by_cases hcur : s.dev.cur = []
  · simp only [hcur, List.isEmpty_nil, if_true]
    exact ⟨trivial, h.ringOf.idx⟩
  · simp only [List.isEmpty_iff, hcur, if_false]
    exact h.curHead hcur

theorem take_sim (h : Sim ring n s t) {s' : Sys} (hs : step ring n s .take = some s') :
    Follows ring n t s' := by
  simp only [step, virtqGetAvail_eq h.ringOf] at hs
  by_cases hav : availFor s.dev.vq.usedWrapCount
      (descAt s.ram.bytes (ring + 16 * s.dev.vq.nextAvailIdx)).flags = true
  · have hbits := (getAvail_iff h).mp hav
    rw [if_pos hav] at hs
    simp only [virtqCheckNext_ok (h.ringOf.slot_le h.ringOf.idx)] at hs
    have hidx : t.takeAt.idx = s.dev.vq.nextAvailIdx := by rw [h.takeAt]; rfl
    have hsl := slot_eq h s.dev.vq.nextAvailIdx
    have hnext : (s.dev.vq.cursor.next n).idx < n := Cursor.next_idx_lt h.ringOf.idx
    have hhead := head_sim h
    generalize (if s.dev.cur.isEmpty then ring + 16 * s.dev.vq.nextAvailIdx else s.dev.usedDesc) =
      head at hs hhead
    obtain ⟨rfl, hlt⟩ := hhead
    cases hm : (descAt s.ram.bytes (ring + 16 * s.dev.vq.nextAvailIdx)).flags.testBit
        vringDescFNext with
    | true =>
      rw [hm] at hs
      cases hs
      refine ⟨.take, _, PackedRing.step_take_more hbits (by rw [hidx, hsl]; exact hm), ?_⟩
      refine { h with
        ringOf := h.ringOf.setCursor hnext
        takeAt := ?_
        cur := ?_
        curHead := fun _ => ⟨rfl, hlt⟩ }
      · show t.takeAt.next n = _
        rw [h.takeAt]; rfl
      · show t.cur ++ [(t.slots t.takeAt.idx).data] = _
        rw [h.cur, hidx, hsl]; rfl
    | false =>
      rw [hm] at hs
      cases hs
      refine ⟨.take, _, PackedRing.step_take_last hbits (by rw [hidx, hsl]; exact hm), ?_⟩
      refine { h with
        ringOf := h.ringOf.setCursor hnext
        takeAt := ?_
        cur := rfl
        curHead := fun hne => absurd rfl hne
        pending := ?_
        pendingLt := ?_
        taken := ?_ }
      · show t.takeAt.next n = _
        rw [h.takeAt]; rfl
      · show s.dev.pending ++ _ = List.map _ (t.pending ++ _)
        rw [h.pending, List.map_append, List.map_singleton, h.cur, hidx, hsl]
        rfl
      · intro p hp
        rcases List.mem_append.mp hp with hp | hp
        · exact h.pendingLt p hp
        · rw [List.mem_singleton.mp hp]; exact hlt
      · show t.taken ++ _ = _
        rw [h.taken, h.cur, hidx, hsl]; rfl
  · rw [if_neg hav] at hs
    cases hs

/-- The oldest chain taken, on both sides. -/
theorem pending_cons (h : Sim ring n s t) {a : Nat} {c : List VringPackedDesc}
    {rest : List (Nat × List VringPackedDesc)} (hp : s.dev.pending = (a, c) :: rest) :
    ∃ i ps, t.pending = (i, c) :: ps ∧ a = ring + 16 * i ∧ i < n ∧
      rest = (ps.map fun p => (ring + 16 * p.1, p.2)) ∧ ∀ p ∈ ps, p.1 < n := by
  have hpend := h.pending
  have hlt := h.pendingLt
  rw [hp] at hpend
  cases htp : t.pending with
  | nil => rw [htp] at hpend; cases hpend
  | cons p ps =>
    rw [htp] at hpend hlt
    obtain ⟨i, c'⟩ := p
    simp only [List.map_cons, List.cons.injEq, Prod.mk.injEq] at hpend
    obtain ⟨⟨rfl, rfl⟩, hrest⟩ := hpend
    exact ⟨i, ps, rfl, rfl, hlt (i, c) (by simp), hrest, fun p hp => hlt p (by simp [hp])⟩

/-- Completing the oldest chain, whatever else the device writes into its head. -/
theorem completed_sim (h : Sim ring n s t) {i : Nat} {c : List VringPackedDesc}
    {ps : List (Nat × List VringPackedDesc)} (htp : t.pending = (i, c) :: ps)
    (hlt : ∀ p ∈ ps, p.1 < n) {ram : Ram} {d : VringPackedDesc}
    (hout : ∀ p, ¬ Span.Has ⟨ring + 16 * i, 16⟩ p → ram.bytes p = s.ram.bytes p)
    (hd : descAt ram.bytes (ring + 16 * i) = d)
    (hf : d.flags = (descAt s.ram.bytes (ring + 16 * i)).flags ^^^ 2 ^ vringPackedDescFUsed) :
    Follows ring n t { s with
      ram := ram
      dev := { s.dev with
        pending := ps.map fun p => (ring + 16 * p.1, p.2)
        completed := s.dev.completed ++ [c] } } := by
  refine ⟨.complete d, _, by simp only [PackedRing.step, htp]; rfl, ?_⟩
  refine { h with slots := ?_, pending := rfl, pendingLt := hlt, completed := ?_ }
  · show Function.update t.slots i { t.slots i with data := d, used := !(t.slots i).used } = _
    rw [h.slots]
    exact (slotsOf_complete hout hd hf).symm
  · show t.completed ++ [c] = _
    rw [h.completed]

theorem complete_sim (h : Sim ring n s t) {len : Option Nat} {s' : Sys}
    (hs : step ring n s (.complete len) = some s') : Follows ring n t s' := by
  simp only [step] at hs
  split at hs
  · cases hs
  · rename_i a c rest hp
    obtain ⟨i, ps, htp, rfl, hi, rfl, hlt⟩ := pending_cons h hp
    have hin := h.ringOf.slot_le hi
    have hx := descAt_xorUsed s.ram.bytes (ring + 16 * i)
    rw [xorDescUsed_ok hin] at hs
    simp only at hs
    cases len with
    | none =>
      cases hs
      refine completed_sim h htp hlt (fun p hp => ?_) hx rfl
      exact putLE_out (by simp only [Span.Has] at hp ⊢; omega)
    | some r =>
      simp only at hs
      rw [setDescLen_ok hin] at hs
      cases hs
      refine completed_sim h htp hlt (fun p hp => ?_) (descAt_putLen _ _ _) (by rw [hx])
      show putLE (putLE _ _ _ _) _ _ _ p = _
      rw [putLE_out (by simp only [Span.Has] at hp ⊢; omega),
        putLE_out (by simp only [Span.Has] at hp ⊢; omega)]

theorem reclaim_sim (h : Sim ring n s t) {s' : Sys} (hs : step ring n s .reclaim = some s') :
    Follows ring n t s' := by
  simp only [step] at hs
  split at hs
  · rename_i hbits
    cases hs
    refine ⟨.reclaim, _, if_pos (by rw [h.reclaimAt, slot_eq h]; exact hbits), ?_⟩
    refine { h with reclaimAt := ?_, outstanding := ?_, reclaimed := ?_ }
    · show t.reclaimAt.advance n _ = _
      rw [h.reclaimAt, h.outstanding]
    · show t.outstanding.tail = _
      rw [h.outstanding]
    · show t.reclaimed ++ [t.outstanding.headD []] = _
      rw [h.reclaimed, h.outstanding]
  · cases hs

theorem step_sim (h : Sim ring n s t) {a : Act} {s' : Sys} (hs : step ring n s a = some s') :
    Follows ring n t s' := by
  cases a with
  | start chain => exact start_sim h hs
  | writeTail => exact writeTail_sim h hs
  | publish => exact publish_sim h hs
  | take => exact take_sim h hs
  | complete len => exact complete_sim h hs
  | reclaim => exact reclaim_sim h hs

end Sim

/-- The abstract state at the start. -/
def absInit (ring : Nat) (s : Sys) : PackedRing.State VringPackedDesc :=
  { slots := slotsOf ring s.ram.bytes
    addAt := s.drv.addAt
    reclaimAt := s.drv.reclaimAt
    outstanding := []
    draft := none
    takeAt := s.dev.vq.cursor
    cur := []
    curHead := 0
    pending := []
    added := []
    taken := []
    completed := []
    reclaimed := [] }

theorem init_sim {ring n : Nat} {s : Sys} (hn : 1 ≤ n) (h : Init ring n s) :
    Sim ring n s (absInit ring s) ∧ PackedRing.Init n (absInit ring s) := by
  obtain ⟨hring, hdev, ⟨ha, hr⟩, hflags, ⟨ho, hd, hc, hp⟩, ⟨la, lt, lc, lr⟩⟩ := h
  have hzero : Cursor.ofPos n 0 = ⟨0, true⟩ := by
    simp [Cursor.ofPos, wrapAt]
  constructor
  · exact
      { ringOf := hring
        slots := rfl
        addAt := rfl
        reclaimAt := rfl
        outstanding := ho.symm
        draft := hd.symm
        draftOk := fun dr hdr => by rw [hd] at hdr; cases hdr
        addIdx := by rw [ha]; exact hn
        takeAt := rfl
        cur := hc.symm
        curHead := fun hne => absurd hc hne
        pending := hp
        pendingLt := fun p hp => by cases hp
        added := la.symm
        taken := lt.symm
        completed := lc.symm
        reclaimed := lr.symm }
  · refine ⟨?_, ?_, ?_, ?_, ⟨rfl, rfl, rfl, rfl⟩, ⟨rfl, rfl, rfl, rfl⟩⟩
    · rw [hzero]; exact ha
    · rw [hzero]; exact hdev
    · rw [hzero]; exact hr
    · intro i hi
      show (descAt s.ram.bytes (ring + 16 * i)).flags.testBit vringPackedDescFAvail = false
      rw [hflags i hi]
      exact Nat.zero_testBit _

/-- Every state of the bytes is matched by a reachable state of the abstract ring. -/
theorem reach_sim {ring n : Nat} {s s' : Sys} (hn : 1 ≤ n) (h : Init ring n s)
    (hr : Reach ring n s s') :
    ∃ t, PackedRing.Reach n (absInit ring s) t ∧ Sim ring n s' t := by
  induction hr with
  | refl => exact ⟨_, .refl, (init_sim hn h).1⟩
  | tail _ hs ih =>
    obtain ⟨a, ha⟩ := hs
    obtain ⟨t, hreach, hsim⟩ := ih
    obtain ⟨a', t', hstep, hsim'⟩ := step_sim hsim ha
    exact ⟨t', hreach.tail ⟨a', hstep⟩, hsim'⟩

/-- **Exactly once and in order.** For every ring size and every interleaving, the device takes the
buffers the driver added, in that order and each once; it completes what it took; and the driver
reclaims what the device completed. `virtq_get_avail` always returns, and it returns a descriptor
exactly when one has been published and not taken, so no buffer is lost and no stale descriptor is
taken; the driver's test succeeds exactly when a completed buffer is still to be reclaimed. -/
theorem ring_exactly_once {ring n : Nat} {s s' : Sys} (hn : 1 ≤ n) (h : Init ring n s)
    (hr : Reach ring n s s') :
    s'.dev.taken <+: s'.drv.added ∧
    s'.dev.completed <+: s'.dev.taken ∧
    s'.drv.reclaimed <+: s'.dev.completed ∧
    (∃ desc vq, virtqGetAvail s'.ram s'.dev.vq = .ok (desc, vq) ∧
      (desc.isSome ↔
        s'.dev.taken.flatten.length + s'.dev.cur.length < s'.drv.added.flatten.length)) ∧
    ((∃ s'', step ring n s' .reclaim = some s'') ↔ s'.drv.reclaimed ≠ s'.dev.completed) := by
  obtain ⟨t, hreach, hsim⟩ := reach_sim hn h hr
  have hinv := PackedRing.reach_inv hn (init_sim hn h).2 hreach
  obtain ⟨h1, h2, h3, -, -⟩ := PackedRing.fifo hn hinv
  rw [hsim.taken, hsim.added] at h1
  rw [hsim.completed, hsim.taken] at h2
  rw [hsim.reclaimed, hsim.completed] at h3
  refine ⟨h1, h2, h3, ?_, ?_⟩
  · have hav := (getAvail_iff hsim).trans (hinv.take_enabled hn)
    simp only [PackedRing.State.takePos, PackedRing.State.addPos, hsim.taken, hsim.cur,
      hsim.added] at hav
    rw [virtqGetAvail_eq hsim.ringOf]
    split
    · rename_i hb; exact ⟨_, _, rfl, by simpa using hav.mp hb⟩
    · rename_i hb
      refine ⟨_, _, rfl, ?_⟩
      simpa using fun hlt => hb (hav.mpr hlt)
  · have hre := hinv.reclaim_enabled hn
    rw [hsim.reclaimed, hsim.completed, hsim.reclaimAt, slot_eq hsim] at hre
    simp only [step]
    rw [← hre]
    split
    · rename_i hb; simp [slotOf, hb]
    · rename_i hb; simpa [slotOf] using hb

/-- Zeroed guest memory, a queue of `n` descriptors at host address `ring`, both parties idle. -/
def boot (ring n : Nat) : Sys :=
  { ram := ⟨0, fun _ => 0⟩
    drv := ⟨⟨0, true⟩, ⟨0, true⟩, [], none, [], []⟩
    dev := ⟨⟨some ring, none, none, putLE (fun _ => 0) 0 2 n, 0, true⟩, [], 0, [], [], []⟩ }

theorem getLE_zero (a : Nat) : ∀ k, getLE (fun _ => 0) a k = 0 := by
  intro k
  unfold getLE
  induction k generalizing a with
  | zero => rfl
  | succ k ih => simp [slice, leNat, ih (a + 1)]

theorem boot_init {ring n : Nat} (hn : 1 ≤ n) (hn' : n < 2 ^ 16) (h : ring + 16 * n ≤ ramSize) :
    Init ring n (boot ring n) where
  ringOf :=
    { descRing := rfl
      size := by
        show getLE (putLE _ 0 2 n) 0 2 = n
        rw [getLE_putLE_same]; exact Nat.mod_eq_of_lt hn'
      idx := hn
      inRam := h }
  device := rfl
  driver := ⟨rfl, rfl⟩
  flags := fun i _ => getLE_zero _ 2
  idle := ⟨rfl, rfl, rfl, rfl⟩
  log := ⟨rfl, rfl, rfl, rfl⟩

theorem reach_of_run {ring n : Nat} : ∀ {as : List Act} {s s' : Sys},
    as.foldlM (step ring n) s = some s' → Reach ring n s s' := by
  intro as
  induction as with
  | nil => intro s s' h; cases h; exact .refl
  | cons a as ih =>
    intro s s' h
    rw [List.foldlM_cons] at h
    cases hs : step ring n s a with
    | none => rw [hs] at h; cases h
    | some s1 =>
      rw [hs] at h
      exact .head ⟨a, hs⟩ (ih h)

/-- A two-descriptor chain goes once round a ring of two, and its slots are used again. -/
def twoLaps : List Act :=
  let first : List VringPackedDesc := [⟨4096, 16, 0, 2 ^ 7 + 1⟩, ⟨8192, 1, 7, 2 ^ 7 + 2⟩]
  let second : List VringPackedDesc := [⟨4096, 16, 0, 2 ^ 15 + 1⟩, ⟨8192, 1, 7, 2 ^ 15 + 2⟩]
  [.start first, .writeTail, .publish, .take, .take, .complete (some 0), .reclaim,
    .start second, .writeTail, .publish, .take, .take, .complete none, .reclaim]

theorem ring_exactly_once_two_laps :
    ∃ s', Reach 0 2 (boot 0 2) s' ∧ s'.drv.reclaimed.length = 2 ∧
      s'.dev.taken <+: s'.drv.added := by
  have hrun : (twoLaps.foldlM (step 0 2) (boot 0 2)).isSome = true := by decide +kernel
  have hlen : (twoLaps.foldlM (step 0 2) (boot 0 2)).map (·.drv.reclaimed.length) = some 2 := by
    decide +kernel
  obtain ⟨s', hs'⟩ := Option.isSome_iff_exists.mp hrun
  rw [hs'] at hlen
  have hreach := reach_of_run hs'
  exact ⟨s', hreach, Option.some.inj hlen,
    (ring_exactly_once (by decide) (boot_init (by decide) (by decide) (by decide)) hreach).1⟩

end Ring

end KvmHost
