import KvmHost.BlkRequest

/-!
# KvmHost.BlkBatch

One call of `virtio_blk_complete_request` on a ring that holds a batch of well-formed requests.

The requests stand one behind the other from the cursor on (`layout`), so they may straddle the end
of the ring. `Batch` is what the driver has to have arranged, `Done` what the call leaves behind.
The proof is by induction on the batch: a turn of the loop serves the first request (`round_ok`),
and what it changes is clear of what the remaining ones are made of (`Batch.tail`), so they are a
batch again.
-/

namespace KvmHost
namespace Blk

open ByteStore Lap

/-- The requests with the positions their chains start at. -/
def layout : Nat → List Req → List (Nat × Req)
  | _, [] => []
  | p, r :: rs => (p, r) :: layout (p + r.slots) rs

/-- The number of descriptors of a batch. -/
def total : List Req → Nat
  | [] => 0
  | r :: rs => r.slots + total rs

/-- The status bytes of a batch, when the backend calls from number `c` on end as `env` says. -/
def statuses (env : Nat → IoRes) : Nat → List Req → List Nat
  | _, [] => []
  | c, r :: rs => r.statusOf (env c) :: statuses env (if r.IsIo then c + 1 else c) rs

theorem layout_bounds {x : Nat × Req} :
    ∀ {p : Nat} {reqs : List Req}, x ∈ layout p reqs →
      p ≤ x.1 ∧ x.1 + x.2.slots ≤ p + total reqs := by
  intro p reqs
  induction reqs generalizing p with
  | nil => intro h; cases h
  | cons r rs ih =>
    intro h
    simp only [total]
    rcases List.mem_cons.mp h with rfl | h
    · simp only; omega
    · have := ih h; omega

theorem layout_req {x : Nat × Req} :
    ∀ {p : Nat} {reqs : List Req}, x ∈ layout p reqs → x.2 ∈ reqs := by
  intro p reqs
  induction reqs generalizing p with
  | nil => intro h; cases h
  | cons r rs ih =>
    intro h
    rcases List.mem_cons.mp h with rfl | h
    · exact List.mem_cons_self
    · exact List.mem_cons_of_mem _ (ih h)

/-- A batch of well-formed requests from position `p` of the ring on: their chains are available and
linked as the request types ask, the buffers are in guest memory, off the ring and pairwise
disjoint, the ranges lie in the image, and the descriptor behind the batch is not available. -/
structure Batch (dev : VirtioBlkDev) (ring n p : Nat) (reqs : List Req) : Prop where
  queue : QueueAt dev.vq ring n p
  chains : ∀ x ∈ layout p reqs, ChainAt dev.ram.base dev.ram.bytes ring n x.1 x.2
  reqOk : ∀ r ∈ reqs, ReqOk ring n dev.backend.fd.len r
  apart : (reqs.flatMap Req.spans).Pairwise Span.Apart
  stop : availFor (wrapAt n (p + total reqs))
    (descAt dev.ram.bytes (slotAt ring n (p + total reqs))).flags = false

/-- What a call leaves behind on such a batch. -/
structure Done (ring n p : Nat) (reqs : List Req) (dev dev' : VirtioBlkDev) : Prop where
  /-- the cursor moves by the descriptors of the batch, the queue is otherwise as before -/
  queue : dev'.vq = dev.vq.setCursor (dev.vq.cursor.advance n (total reqs))
  /-- the descriptors are taken in ring order and each head is marked used once, behind its chain -/
  order : dev'.trace = dev.trace ++ (layout p reqs).flatMap fun x => x.2.events ring n x.1
  status : (reqs.map fun r => getLE dev'.ram.bytes r.status 1) =
    statuses dev.backend.fd.env dev.backend.fd.calls reqs
  heads : ∀ x ∈ layout p reqs, descAt dev'.ram.bytes (slotAt ring n x.1) =
    { descAt dev.ram.bytes (slotAt ring n x.1) with
      len := 0
      flags := (descAt dev.ram.bytes (slotAt ring n x.1)).flags ^^^ 2 ^ vringPackedDescFUsed }
  others : ∀ i < n, (∀ x ∈ layout p reqs, x.1 % n ≠ i) →
    descAt dev'.ram.bytes (ring + 16 * i) = descAt dev.ram.bytes (ring + 16 * i)
  memory : ∀ a, (∀ x ∈ layout p reqs, ¬ x.2.Touches ring n x.1 a) →
    dev'.ram.bytes a = dev.ram.bytes a
  image : ∀ a, (∀ r ∈ reqs, ¬ (r.type = virtioBlkTOut ∧ Span.Has ⟨r.offset, r.dataLen⟩ a)) →
    dev'.backend.fd.bytes a = dev.backend.fd.bytes a
  imageLen : dev'.backend.fd.len = dev.backend.fd.len

/-! ## What one request leaves of the others -/

theorem ChainAt.congr {base ring n p : Nat} {m m' : Store} {r : Req}
    (h : ChainAt base m ring n p r)
    (hdesc : ∀ j < r.slots, descAt m' (slotAt ring n (p + j)) = descAt m (slotAt ring n (p + j)))
    (hhdr : ∀ a, r.headerSpan.Has a → m' a = m a) : ChainAt base m' ring n p r := by
  have hpos := r.slots_pos
  have h0 := hdesc 0 hpos
  rw [Nat.add_zero] at h0
  have h1 : r.IsIo → descAt m' (slotAt ring n (p + 1)) = descAt m (slotAt ring n (p + 1)) :=
    fun hio => hdesc 1 (by rw [Req.slots_io hio]; omega)
  refine ⟨?_, ?_, ?_, ?_, ?_, ?_, ?_, ?_, ?_⟩
  · intro j hj; rw [hdesc j hj]; exact h.avail j hj
  · intro j hj; rw [hdesc j hj]; exact h.next j hj
  · rw [h0]; exact h.headerAddr
  · rw [h0]; exact h.headerLen
  · rw [← h.type]
    exact getLE_congr fun i hi => hhdr _ (by simp only [Req.headerSpan, Span.Has]; omega)
  · rw [← h.sector]
    exact getLE_congr fun i hi => hhdr _ (by simp only [Req.headerSpan, Span.Has]; omega)
  · intro hio; rw [h1 hio]; exact h.dataAddr hio
  · intro hio; rw [h1 hio]; exact h.dataLen hio
  · rw [hdesc _ (by omega)]; exact h.statusAddr

/-! ## The batch behind the first request -/

section Tail

variable {dev : VirtioBlkDev} {ring n p : Nat} {r : Req} {reqs rs : List Req}

/-- Every descriptor of the batch is available. -/
theorem Batch.avail (h : Batch dev ring n p reqs) {j : Nat} (hj : j < total reqs) :
    availFor (wrapAt n (p + j)) (descAt dev.ram.bytes (slotAt ring n (p + j))).flags = true := by
  have hmem : ∀ (reqs : List Req) (p j : Nat), j < total reqs →
      ∃ x ∈ layout p reqs, x.1 ≤ p + j ∧ p + j < x.1 + x.2.slots := by
    intro reqs
    induction reqs with
    | nil => intro p j hj; simp [total] at hj
    | cons r rs ih =>
      intro p j hj
      by_cases hr : j < r.slots
      · exact ⟨(p, r), List.mem_cons_self, by simp only; omega, by simp only; omega⟩
      · obtain ⟨x, hx, h1, h2⟩ := ih (p + r.slots) (j - r.slots) (by simp only [total] at hj; omega)
        exact ⟨x, List.mem_cons_of_mem _ hx, by omega, by omega⟩
  obtain ⟨x, hx, h1, h2⟩ := hmem reqs p j hj
  have := (h.chains x hx).avail (p + j - x.1) (by omega)
  rwa [show x.1 + (p + j - x.1) = p + j by omega] at this

theorem availFor_lap {n : Nat} (hn : 0 < n) {p f : Nat} (h : availFor (wrapAt n p) f = true) :
    f.testBit vringPackedDescFAvail ≠ wrapAt n (p + n) := by
  rw [wrapAt_add_lap hn]
  simp only [availFor, Bool.and_eq_true, beq_iff_eq] at h
  rw [h.1]
  cases wrapAt n p <;> decide

/-- A batch is at most one lap: a slot is not available under both wrap bits. -/
theorem Batch.total_le (h : Batch dev ring n p reqs) : total reqs ≤ n := by
  apply Decidable.byContradiction
  intro hgt
  have hn := h.queue.pos
  have hfirst := h.avail (j := 0) (by omega)
  have hagain := h.avail (j := n) (by omega)
  rw [Nat.add_zero] at hfirst
  rw [slotAt_add_lap] at hagain
  apply availFor_lap hn hfirst
  simp only [availFor, Bool.and_eq_true, beq_iff_eq] at hagain
  exact hagain.1

theorem Batch.apart_tail (h : Batch dev ring n p (r :: rs)) {r' : Req} (hr' : r' ∈ rs) {s : Span}
    (hs : s ∈ r'.spans) : ∀ t ∈ r.spans, t.Apart s := by
  intro t ht
  have hp := h.apart
  rw [List.flatMap_cons, List.pairwise_append] at hp
  exact hp.2.2 t ht s (List.mem_flatMap.mpr ⟨r', hr', hs⟩)

/-- The descriptor behind the batch stays unavailable when the first request is served. It may be
the request's own head, one lap later. -/
theorem Batch.stop_tail (h : Batch dev ring n p (r :: rs)) :
    availFor (wrapAt n (p + total (r :: rs)))
      (descAt (r.memOut (slotAt ring n p) dev.ram.bytes dev.backend.fd)
        (slotAt ring n (p + total (r :: rs)))).flags = false := by
  have hn := h.queue.pos
  have hle := h.total_le
  have hr := h.reqOk r List.mem_cons_self
  have hpos : 0 < total (r :: rs) := by have := r.slots_pos; simp only [total]; omega
  by_cases heq : total (r :: rs) = n
  · rw [heq, slotAt_add_lap, memOut_head hn hr]
    have hfirst := h.avail (j := 0) hpos
    rw [Nat.add_zero] at hfirst
    have hne := availFor_lap hn hfirst
    have hbit : ((descAt dev.ram.bytes (slotAt ring n p)).flags ^^^
        2 ^ vringPackedDescFUsed).testBit
        vringPackedDescFAvail =
          (descAt dev.ram.bytes (slotAt ring n p)).flags.testBit vringPackedDescFAvail := by
      rw [Nat.testBit_xor, Nat.testBit_two_pow]
      simp [vringPackedDescFAvail, vringPackedDescFUsed]
    simp only [availFor, hbit, Bool.and_eq_false_iff, beq_eq_false_iff_ne]
    exact .inl hne
  · rw [memOut_slot hn hr (by omega) (by omega)]
    exact h.stop

/-- The requests behind the first are a batch for the device that served it. -/
theorem Batch.tail (h : Batch dev ring n p (r :: rs)) :
    Batch (r.served ring n p dev) ring n (p + r.slots) rs := by
  have hn := h.queue.pos
  have hr := h.reqOk r List.mem_cons_self
  have hle := h.total_le
  refine ⟨h.queue.at _, ?_, ?_, ?_, ?_⟩
  · intro x hx
    have hb := layout_bounds hx
    have hreq := layout_req hx
    have hpos := r.slots_pos
    simp only [total] at hle
    refine (h.chains x (List.mem_cons_of_mem _ hx)).congr ?_ ?_
    · intro j hj
      exact memOut_slot hn hr (by omega) (by omega)
    · intro a ha
      exact memOut_span hn ((h.reqOk _ (List.mem_cons_of_mem _ hreq)).offRing _ x.2.mem_header)
        (h.apart_tail hreq x.2.mem_header) ha
  · intro r' hr'
    have := h.reqOk r' (List.mem_cons_of_mem _ hr')
    rwa [show (r.served ring n p dev).backend.fd.len = dev.backend.fd.len from
      Req.imageOut_len hr.inImage]
  · have hp := h.apart
    rw [List.flatMap_cons, List.pairwise_append] at hp
    exact hp.2.1
  · have := h.stop_tail
    simp only [total] at this
    rw [← Nat.add_assoc] at this
    exact this

/-- Serving the first request and then the rest is serving the batch. -/
theorem Done.cons {dev' : VirtioBlkDev} (h : Batch dev ring n p (r :: rs))
    (hd : Done ring n (p + r.slots) rs (r.served ring n p dev) dev') :
    Done ring n p (r :: rs) dev dev' := by
  have hn := h.queue.pos
  have hr := h.reqOk r List.mem_cons_self
  have hpos := r.slots_pos
  have hle := h.total_le
  simp only [total] at hle
  -- a later head is another slot, and a later request is clear of this one
  have hlater : ∀ x ∈ layout (p + r.slots) rs, x.1 % n ≠ p % n := by
    intro x hx
    have hb := layout_bounds hx
    have := x.2.slots_pos
    exact (slot_ne (by omega) (by omega)).symm
  have hkeep : ∀ a, Span.Has r.statusSpan a → ∀ x ∈ layout (p + r.slots) rs,
      ¬ x.2.Touches ring n x.1 a := by
    intro a ha x hx
    have hreq := layout_req hx
    have hoff := hr.offRing _ r.mem_status
    rintro (hhead | hst | ⟨hin, hdata⟩)
    · exact hoff.not_has ha (slotAt_in_ring hn x.1 hhead)
    · exact (h.apart_tail hreq x.2.mem_status _ r.mem_status).not_has ha hst
    · exact (h.apart_tail hreq (Req.mem_data (.inl hin)) _ r.mem_status).not_has ha hdata
  refine ⟨?_, ?_, ?_, ?_, ?_, ?_, ?_, ?_⟩
  · rw [hd.queue]
    simp only [Req.served, Virtq.setCursor_setCursor, Virtq.setCursor_cursor, h.queue.cursor,
      Cursor.advance_ofPos hn, total, Nat.add_assoc]
  · rw [hd.order]
    simp only [Req.served, layout, List.flatMap_cons, List.append_assoc]
  · have hst : getLE dev'.ram.bytes r.status 1 =
        r.statusOf (dev.backend.fd.env dev.backend.fd.calls) := by
      rw [← memOut_status (p := p) (m := dev.ram.bytes) hn hr]
      apply getLE_congr
      intro i hi
      exact hd.memory _ (hkeep _ (by simp only [Req.statusSpan, Span.Has]; omega))
    simp only [List.map_cons, statuses, hst, List.cons.injEq, true_and]
    rw [hd.status]
    simp only [Req.served, Req.imageOut_env, Req.imageOut_calls]
  · intro x hx
    rcases List.mem_cons.mp hx with rfl | hx
    · rw [← memOut_head (f := dev.backend.fd) hn hr]
      exact hd.others _ (Nat.mod_lt _ hn) hlater
    · rw [hd.heads x hx]
      have hsame : descAt (r.served ring n p dev).ram.bytes (slotAt ring n x.1) =
          descAt dev.ram.bytes (slotAt ring n x.1) :=
        memOut_desc hr (Nat.mod_lt _ hn) (hlater x hx).symm
      rw [hsame]
  · intro i hi hx
    rw [hd.others i hi fun x h' => hx x (List.mem_cons_of_mem _ h')]
    exact memOut_desc hr hi (hx (p, r) List.mem_cons_self)
  · intro a ha
    rw [hd.memory a fun x h' => ha x (List.mem_cons_of_mem _ h')]
    exact Req.memOut_out (ha (p, r) List.mem_cons_self)
  · intro a ha
    rw [hd.image a fun r' h' => ha r' (List.mem_cons_of_mem _ h')]
    exact Req.imageOut_out hr.inImage (ha r List.mem_cons_self)
  · rw [hd.imageLen]
    exact Req.imageOut_len hr.inImage

end Tail

theorem Done.nil (ring n p : Nat) (dev : VirtioBlkDev) : Done ring n p [] dev dev where
  queue := rfl
  order := (List.append_nil _).symm
  status := rfl
  heads := fun x hx => by cases hx
  others := fun _ _ _ => rfl
  memory := fun _ _ => rfl
  image := fun _ _ => rfl
  imageLen := rfl

/-- **Batch correctness.** One call serves every request of the batch, in ring order, and stops at
the first descriptor that is not available. -/
theorem complete_request_batch {ring n p fuel : Nat} {reqs : List Req} {dev : VirtioBlkDev}
    (req : Store) (h : Batch dev ring n p reqs) (hfuel : reqs.length < fuel) :
    ∃ dev', virtioBlkCompleteRequest fuel dev req = .ok dev' ∧ Done ring n p reqs dev dev' ∧
      dev'.getAvail = .ok (none, dev') := by
  induction reqs generalizing p fuel dev req with
  | nil =>
    obtain ⟨fuel, rfl⟩ : ∃ k, fuel = k + 1 := ⟨fuel - 1, by omega⟩
    have hnone : dev.getAvail = .ok (none, dev) := VqDev.getAvail_none h.queue h.stop
    refine ⟨dev, ?_, Done.nil ring n p dev, hnone⟩
    rw [virtioBlkCompleteRequest, round, hnone]
    rfl
  | cons r rs ih =>
    obtain ⟨fuel, rfl⟩ : ∃ k, fuel = k + 1 := ⟨fuel - 1, by omega⟩
    rw [List.length_cons] at hfuel
    obtain ⟨req', hround⟩ := round_ok dev req h.queue (h.chains (p, r) List.mem_cons_self)
      (h.reqOk r List.mem_cons_self)
    obtain ⟨dev', hrun, hdone, hstop⟩ := ih req' h.tail (show rs.length < fuel by omega)
    refine ⟨dev', ?_, hdone.cons h, hstop⟩
    rw [virtioBlkCompleteRequest, hround]
    exact hrun

/-! ## A full lap

Eight descriptors from slot 6 on: a read that straddles the end of the ring, a GET_ID, and a write
whose backend call fails. -/

def lapReqs : List Req :=
  [⟨virtioBlkTIn, 1, 128, 144, 4, 148⟩, ⟨8, 0, 160, 0, 0, 176⟩,
    ⟨virtioBlkTOut, 0, 192, 208, 4, 212⟩]

-- the flags of positions 6 and 7 carry wrap bit 1, those of the next lap wrap bit 0
def lapMem : Store :=
  let m : Store := fun _ => 0
  let m := putDesc m 96 ⟨128, 16, 0, 129⟩
  let m := putDesc m 112 ⟨144, 4, 0, 129⟩
  let m := putDesc m 0 ⟨148, 1, 0, 32768⟩
  let m := putDesc m 16 ⟨160, 16, 0, 32769⟩
  let m := putDesc m 32 ⟨176, 1, 0, 32768⟩
  let m := putDesc m 48 ⟨192, 16, 0, 32769⟩
  let m := putDesc m 64 ⟨208, 4, 0, 32769⟩
  let m := putDesc m 80 ⟨212, 1, 0, 32768⟩
  putLE (putLE (putLE m 136 8 1) 160 4 8) 192 4 1

def lapDev : VirtioBlkDev where
  vq :=
    { descRing := some 0
      deviceEvent := none
      guestEvent := none
      info := putLE (fun _ => 0) 0 2 8
      nextAvailIdx := 6
      usedWrapCount := true }
  ram := ⟨0, lapMem⟩
  isrStatus := 0
  backend := diskimgInit
    { bytes := fun p => if p < 1024 then UInt8.ofNat p else 0
      len := 1024
      pos := 0
      env := fun i => if i = 0 then .count 4 else .err
      calls := 0
      hole := fun p hp => if_neg (by omega)
      limit := offMax
      fits := by decide
      limit_le := Nat.le_refl offMax }
  trace := []

theorem lap_batch : Batch lapDev 0 8 6 lapReqs where
  queue := ⟨rfl, by decide, by decide, by decide, by decide⟩
  chains := by decide +kernel
  reqOk := by decide
  apart := by decide
  stop := by decide +kernel

theorem complete_request_batch_lap :
    ∃ dev', virtioBlkCompleteRequest 4 lapDev (fun _ => 0) = .ok dev' ∧
      Done 0 8 6 lapReqs lapDev dev' ∧ dev'.getAvail = .ok (none, dev') :=
  complete_request_batch (fun _ => 0) lap_batch (by decide)

end Blk
end KvmHost
