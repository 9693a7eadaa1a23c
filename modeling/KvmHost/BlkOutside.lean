import KvmHost.BlkArray

/-!
# KvmHost.BlkOutside

Requests outside the disk.

The device advertises `diskimg.size >> 9` sectors and compares no request with it: the offset goes
to `lseek` as it is, and the status is the sign of what `read` or `write` returned. So a request
outside the disk is refused exactly when the backend call fails by itself (`Io.Fails`). A read at or
past the end returns 0, which is OK; a write past the end grows the file; an offset that is negative
as an `off_t` or beyond what the file system can hold is refused by `lseek`, which leaves the
position where the last request left it.

`ReqRun` is a run of the device on IN and OUT requests of any sector and length. The buffers are
where the driver may put them, but the range on the disk is anywhere.
-/

namespace KvmHost
namespace Blk

open ByteStore Lap

/-- The buffers of a request are clear of the ring, the status byte is clear of the data, and what
the backend call may touch is in guest memory. -/
structure Placed (ring n : Nat) (r : Req) : Prop where
  header : r.header + 16 ≤ ramSize
  status : r.status + 1 ≤ ramSize
  data : r.data + r.asked ≤ ramSize
  dataOffRing : r.dataSpan.Apart ⟨ring, 16 * n⟩
  statusOffRing : r.statusSpan.Apart ⟨ring, 16 * n⟩
  apart : r.dataSpan.Apart r.statusSpan

namespace Io

-- `config.capacity` is in sectors
def capacityBytes (x : Io) : Nat := (x.pre.backend.size >>> 9) * 512

def Outside (x : Io) : Prop := x.capacityBytes < x.req.offset + x.req.dataLen

/-- IOERR, and neither the image nor the data buffer has changed. -/
structure Refused (x : Io) : Prop where
  status : x.status = virtioBlkSIoerr
  bytes : x.post.backend.fd.bytes = x.pre.backend.fd.bytes
  len : x.post.backend.fd.len = x.pre.backend.fd.len
  buf : x.bufPost = x.bufPre

def Fails (x : Io) : Prop :=
  CallFails x.req.type (sectorOffset x.req.sector) x.req.asked x.pre.backend.fd

end Io

/-- Turns of the loop on IN and OUT requests of any range, from position `p` on; the guest may
rewrite its memory before each. -/
inductive ReqRun (ring n : Nat) : Nat → VirtioBlkDev → List Io → VirtioBlkDev → Prop where
  | done {p : Nat} {d : VirtioBlkDev} : ReqRun ring n p d [] d
  | step {p : Nat} {d pre post d' : VirtioBlkDev} {r : Req} {m req req' : Store} {xs : List Io} :
      pre = { d with ram := { d.ram with bytes := m } } → r.IsIo →
      ChainAt pre.ram.base m ring n p r → Placed ring n r →
      round pre req = .ok (.loop, post, req') →
      ReqRun ring n (p + 3) post xs d' → ReqRun ring n p d (⟨r, pre, post⟩ :: xs) d'

/-! ## One request -/

section One

variable {ring n p : Nat} {r : Req} {dev : VirtioBlkDev}

theorem Placed.status_off_slot (hp : Placed ring n r) (hn : 0 < n) :
    Span.Apart ⟨r.status, 1⟩ ⟨slotAt ring n p, 16⟩ := by
  have h := hp.statusOffRing
  have := Nat.mod_lt p hn
  simp only [Span.Apart, Req.statusSpan, slotAt] at h ⊢
  omega

/-- `finish` leaves the data buffer alone. -/
theorem Placed.finish_data (hp : Placed ring n r) (hn : 0 < n) (m : Store) (st : Nat) :
    slice (finishMem m (slotAt ring n p) r.status st) r.data r.dataLen =
      slice m r.data r.dataLen := by
  refine slice_congr ?_
  intro i hi
  have hin : r.dataSpan.Has (r.data + i) := by simp only [Req.dataSpan, Span.Has]; omega
  refine finishMem_out ?_ (hp.apart.not_has hin)
  intro hhead
  exact hp.dataOffRing.not_has hin (slotAt_in_ring hn p hhead)

variable (dev) in
/-- A turn of the loop on an IN or OUT request of any range returns. The backend call ends with
`res`; it changes guest memory in the data buffer only, and nothing if it fails. -/
theorem round_io (req : Store) (hq : QueueAt dev.vq ring n p)
    (hc : ChainAt dev.ram.base dev.ram.bytes ring n p r) (hp : Placed ring n r) (hio : r.IsIo) :
    ∃ res bytes img req', round dev req =
        .ok (.loop, finished ring n (p + 2) (slotAt ring n p) r.status (callStatus res)
          { (dev.took ring n p).took ring n (p + 1) with
            ram := { dev.ram with bytes := bytes }, backend := img }, req') ∧
      (∀ a, ¬ r.dataSpan.Has a → bytes a = dev.ram.bytes a) ∧
      (res = none ↔ CallFails r.type (sectorOffset r.sector) r.asked dev.backend.fd) ∧
      (res = none → bytes = dev.ram.bytes ∧ img.fd.bytes = dev.backend.fd.bytes ∧
        img.fd.len = dev.backend.fd.len) := by
  have hslots := Req.slots_io hio
  obtain ⟨hcopy, htype, hsector⟩ := hc.copyHeader_eq req hq hp.header
  have hdata : r.data + r.dataLen % 2 ^ 16 ≤ ramSize := hp.data
  obtain ⟨res, bytes, img, req₂, htr, hframe, hnone, hsame⟩ := transfer_total (dev.took ring n p)
    (patch req 0 (slice dev.ram.bytes r.header 16)) (hq.at (p + 1)) (hc.avail 1 (by omega))
      (hc.dataAddr hio)
    (hc.dataLen hio) hdata
  rw [htype, hsector] at hnone
  have hdesc : ∀ q, descAt bytes (slotAt ring n q) = descAt dev.ram.bytes (slotAt ring n q) := by
    intro q
    refine descAt_congr ?_
    intro a ha
    exact hframe a (hp.dataOffRing.symm.not_has (slotAt_in_ring hq.pos q ha))
  have hstatus : (descAt dev.ram.bytes (slotAt ring n (p + 2))).addr = dev.ram.base + r.status := by
    simpa [hslots] using hc.statusAddr
  have hbody := body_of_transfer hq hcopy (by rw [IsIoType, htype]; exact hio)
    (fun j hj => hc.next_io hio hj) htr (hq.at (p + 2)) rfl (fun j _ _ => hdesc (p + j))
    (hc.avail 2 (by omega)) hstatus hp.status
  have hround := (round_took req hq (hc.avail 0 r.slots_pos)).trans hbody
  exact ⟨res, bytes, img, req₂, hround, hframe, hnone, hsame⟩

variable (dev) in
/-- Such a turn refuses the request exactly when its backend call fails. -/
theorem round_placed (req : Store) (hq : QueueAt dev.vq ring n p)
    (hc : ChainAt dev.ram.base dev.ram.bytes ring n p r) (hp : Placed ring n r) (hio : r.IsIo) :
    ∃ post req', round dev req = .ok (.loop, post, req') ∧ QueueAt post.vq ring n (p + 3) ∧
      (Io.Refused ⟨r, dev, post⟩ ↔ Io.Fails ⟨r, dev, post⟩) := by
  obtain ⟨res, bytes, img, req', hround, -, hnone, hsame⟩ := round_io dev req hq hc hp hio
  refine ⟨_, req', hround, hq.at (p + 3), ?_⟩
  have hst : ∀ d : VirtioBlkDev,
      getLE (finished ring n (p + 2) (slotAt ring n p) r.status (callStatus res) d).ram.bytes
      r.status 1 = callStatus res := by
    intro d
    rw [finished, finishMem_status (hp.status_off_slot hq.pos)]
    exact Nat.mod_eq_of_lt (callStatus_lt res)
  constructor
  · intro h
    have hioerr := h.status
    unfold Io.status at hioerr
    rw [hst, callStatus_ioerr] at hioerr
    exact hnone.mp hioerr
  · intro h
    have hres : res = none := hnone.mpr h
    obtain ⟨hbytes, himg, hlen⟩ := hsame hres
    refine ⟨(hst _).trans (callStatus_ioerr.mpr hres), himg, hlen, ?_⟩
    refine (hp.finish_data hq.pos bytes (callStatus res)).trans ?_
    rw [hbytes]
    rfl

end One

/-! ## Runs -/

/-- **Requests outside the disk** are refused without effect in a run exactly when each of them
meets a backend call that fails by itself; and whatever happened before, the next request is
served. -/
theorem outside_refused_iff {ring n p : Nat} {d d' : VirtioBlkDev} {xs : List Io}
    (hq : QueueAt d.vq ring n p) (h : ReqRun ring n p d xs d') :
    ((∀ x ∈ xs, x.Outside → x.Refused) ↔ ∀ x ∈ xs, x.Outside → x.Fails) ∧
      ∀ (r : Req) (m req : Store), r.IsIo → ChainAt d'.ram.base m ring n (p + 3 * xs.length) r →
        Placed ring n r →
        ∃ post req', round { d' with ram := { d'.ram with bytes := m } } req =
          .ok (.loop, post, req') := by
  induction h with
  | @done p d =>
    refine ⟨by simp, ?_⟩
    intro r m req hio hc hp
    obtain ⟨post, req', hround, -⟩ := round_placed { d with ram := { d.ram with bytes := m } } req
      (show QueueAt d.vq ring n (p + 3 * 0) from hq) hc hp hio
    exact ⟨post, req', hround⟩
  | @step p d pre post d' r m req req' xs hpre hio hc hp hround _ ih =>
    subst hpre
    obtain ⟨post₁, req₁, hround₁, hq₁, hiff⟩ :=
      round_placed { d with ram := { d.ram with bytes := m } } req hq hc hp hio
    rw [hround] at hround₁
    cases hround₁
    obtain ⟨hrest, hnext⟩ := ih hq₁
    constructor
    · simp only [List.forall_mem_cons, hrest, hiff]
    · intro r' m' req'' hio' hc' hp'
      refine hnext r' m' req'' hio' ?_ hp'
      have hpos : p + 3 + 3 * xs.length = p + 3 * (xs.length + 1) := by omega
      rw [hpos]
      exact hc'

/-! ## A write past the end

An OUT request of four bytes at sector 1 of an image of one sector. -/

def pastReq : Req := { ioReq virtioBlkTOut 4 with sector := 1 }

def oneSector (res : IoRes) : VirtioBlkDev :=
  { ioDev with
    backend := diskimgInit
      { bytes := fun _ => 0
        len := 512
        pos := 0
        env := fun _ => res
        calls := 0
        hole := fun _ _ => rfl
        limit := offMax
        fits := of_decide_eq_true rfl
        limit_le := Nat.le_refl offMax } }

def pastPre (res : IoRes) : VirtioBlkDev :=
  { oneSector res with ram := ⟨0, putLE (ioMem 0 virtioBlkTOut 4) 136 8 1⟩ }

theorem past_chain : ChainAt 0 (putLE (ioMem 0 virtioBlkTOut 4) 136 8 1) 0 8 0 pastReq := by
  decide +kernel

theorem past_placed : Placed 0 8 pastReq :=
  ⟨by decide, by decide, by decide, by decide, by decide, by decide⟩

theorem past_outside (res : IoRes) (post : VirtioBlkDev) :
    Io.Outside ⟨pastReq, pastPre res, post⟩ := by
  show (512 >>> 9) * 512 < 1 * 512 + 4
  decide

theorem past_run (res : IoRes) :
    ∃ post req', round (pastPre res) (fun _ => 0) = .ok (.loop, post, req') ∧
      ReqRun 0 8 0 (oneSector res) [⟨pastReq, pastPre res, post⟩] post := by
  obtain ⟨post, req', hround, -, -⟩ :=
    round_placed (pastPre res) (fun _ => 0) ioDev_queue past_chain past_placed
    (by decide)
  exact ⟨post, req', hround, .step rfl (by decide) past_chain past_placed hround .done⟩

/-- The write ends with OK and the file is four bytes longer. -/
theorem out_past_end_grows :
    ∃ x, ReqRun 0 8 0 (oneSector (.count 4)) [x] x.post ∧ x.req = pastReq ∧ x.Outside ∧
      x.status = virtioBlkSOk ∧ x.pre.backend.fd.len = 512 ∧ x.post.backend.fd.len = 516 ∧
        ¬ x.Refused := by
  obtain ⟨post, req', hround, hrun⟩ := past_run (.count 4)
  have hst : (round (pastPre (.count 4)) (fun _ => 0)).toOption.map
      (fun o => (getLE o.2.1.ram.bytes 144 1, o.2.1.backend.fd.len)) =
        some (virtioBlkSOk, 516) := by
    decide +kernel
  rw [hround] at hst
  simp only [Except.toOption, Option.map_some, Option.some.injEq, Prod.mk.injEq] at hst
  refine ⟨_, hrun, rfl, past_outside _ _, hst.1, rfl, hst.2, ?_⟩
  intro h
  have hlen : 516 = 512 := hst.2.symm.trans h.len
  omega

/-- The same request when the kernel refuses it. -/
theorem outside_refused_iff_err :
    ∃ x, ReqRun 0 8 0 (oneSector .err) [x] x.post ∧ x.Outside ∧ x.Refused := by
  obtain ⟨post, req', -, hrun⟩ := past_run .err
  have hq : QueueAt (oneSector .err).vq 0 8 0 := ioDev_queue
  refine ⟨_, hrun, past_outside _ _, ?_⟩
  refine (outside_refused_iff hq hrun).1.mpr ?_ _ (List.mem_singleton_self _) (past_outside _ _)
  intro x hx _
  rw [List.mem_singleton.mp hx]
  exact .inl rfl

end Blk
end KvmHost
