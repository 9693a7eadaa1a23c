import KvmHost.VirtioBlk

/-!
# KvmHost.BlkRequest

What a turn of the block device's loop does with a well-formed request.

`Req` is a request as the driver lays it out, `ChainAt` says that its chain stands at a position of
the ring and `ReqOk` that its buffers are in guest memory, off the ring, and its range in the image.
`Req.served` is the device after the request, field by field, and `round_ok` says that a turn of the
loop computes it. The last section says what a served request leaves alone.
-/

namespace KvmHost

open ByteStore Lap

namespace Blk

/-! ## Requests -/

/-- A request as the driver lays it out; the four addresses are host addresses. -/
structure Req where
  type : Nat
  sector : Nat
  header : Nat
  data : Nat
  dataLen : Nat
  status : Nat
deriving DecidableEq, Repr

namespace Req

def IsIo (r : Req) : Prop := r.type = virtioBlkTIn ∨ r.type = virtioBlkTOut

instance (r : Req) : Decidable r.IsIo := inferInstanceAs (Decidable (_ ∨ _))

/-- The descriptors of the request's chain. -/
def slots (r : Req) : Nat := if r.IsIo then 3 else 2

def headerSpan (r : Req) : Span := ⟨r.header, 16⟩
def dataSpan (r : Req) : Span := ⟨r.data, r.dataLen⟩
def statusSpan (r : Req) : Span := ⟨r.status, 1⟩

/-- The buffers of the request. -/
def spans (r : Req) : List Span :=
  r.headerSpan :: r.statusSpan :: if r.IsIo then [r.dataSpan] else []

def offset (r : Req) : Nat := r.sector * 512

-- the length that reaches the backend: `data_size` is a `uint16_t`
def asked (r : Req) : Nat := r.dataLen % 2 ^ 16

theorem slots_io {r : Req} (h : r.IsIo) : r.slots = 3 := if_pos h
theorem slots_other {r : Req} (h : ¬ r.IsIo) : r.slots = 2 := if_neg h

theorem slots_pos (r : Req) : 0 < r.slots := by
  unfold slots; split <;> omega

theorem asked_le (r : Req) : r.asked ≤ r.dataLen := Nat.mod_le _ _

end Req

/-- The chain of `r` stands at position `p` of the ring, available and linked by NEXT, and its
header is in memory `m`. -/
structure ChainAt (base : Nat) (m : Store) (ring n p : Nat) (r : Req) : Prop where
  avail : ∀ j < r.slots, availFor (wrapAt n (p + j)) (descAt m (slotAt ring n (p + j))).flags = true
  next : ∀ j < r.slots,
    (descAt m (slotAt ring n (p + j))).flags.testBit vringDescFNext = decide (j + 1 < r.slots)
  headerAddr : (descAt m (slotAt ring n p)).addr = base + r.header
  headerLen : (descAt m (slotAt ring n p)).len = 16
  type : getLE m r.header 4 = r.type
  sector : getLE m (r.header + 8) 8 = r.sector
  dataAddr : r.IsIo → (descAt m (slotAt ring n (p + 1))).addr = base + r.data
  dataLen : r.IsIo → (descAt m (slotAt ring n (p + 1))).len = r.dataLen
  statusAddr : (descAt m (slotAt ring n (p + (r.slots - 1)))).addr = base + r.status

/-- The buffers of `r` are in guest memory and clear of the ring, and the range it names is in an
image of `len` bytes. -/
structure ReqOk (ring n len : Nat) (r : Req) : Prop where
  inRam : ∀ s ∈ r.spans, s.lo + s.len ≤ ramSize
  offRing : ∀ s ∈ r.spans, s.Apart ⟨ring, 16 * n⟩
  inImage : r.IsIo → r.offset + r.dataLen ≤ len

instance (base : Nat) (m : Store) (ring n p : Nat) (r : Req) :
    Decidable (ChainAt base m ring n p r) :=
  decidable_of_iff
    ((∀ j < r.slots, availFor (wrapAt n (p + j)) (descAt m (slotAt ring n (p + j))).flags = true) ∧
      (∀ j < r.slots, (descAt m (slotAt ring n (p + j))).flags.testBit vringDescFNext =
        decide (j + 1 < r.slots)) ∧
      (descAt m (slotAt ring n p)).addr = base + r.header ∧
      (descAt m (slotAt ring n p)).len = 16 ∧
      getLE m r.header 4 = r.type ∧
      getLE m (r.header + 8) 8 = r.sector ∧
      (r.IsIo → (descAt m (slotAt ring n (p + 1))).addr = base + r.data) ∧
      (r.IsIo → (descAt m (slotAt ring n (p + 1))).len = r.dataLen) ∧
      (descAt m (slotAt ring n (p + (r.slots - 1)))).addr = base + r.status)
    ⟨fun ⟨h1, h2, h3, h4, h5, h6, h7, h8, h9⟩ => ⟨h1, h2, h3, h4, h5, h6, h7, h8, h9⟩,
      fun h => ⟨h.avail, h.next, h.headerAddr, h.headerLen, h.type, h.sector, h.dataAddr, h.dataLen,
        h.statusAddr⟩⟩

instance (ring n len : Nat) (r : Req) : Decidable (ReqOk ring n len r) :=
  decidable_of_iff
    ((∀ s ∈ r.spans, s.lo + s.len ≤ ramSize) ∧ (∀ s ∈ r.spans, s.Apart ⟨ring, 16 * n⟩) ∧
      (r.IsIo → r.offset + r.dataLen ≤ len))
    ⟨fun ⟨h1, h2, h3⟩ => ⟨h1, h2, h3⟩, fun h => ⟨h.inRam, h.offRing, h.inImage⟩⟩

/-! ## What a request does -/

/-- The status of a request whose backend call, if it makes one, ends with `res`. -/
def Req.statusOf (r : Req) (res : IoRes) : Nat :=
  if r.IsIo then
    match res with
    | .err => virtioBlkSIoerr
    | .count _ => virtioBlkSOk
  else virtioBlkSUnsupp

theorem Req.statusOf_err {r : Req} (h : r.IsIo) : r.statusOf .err = virtioBlkSIoerr := if_pos h

theorem Req.statusOf_count {r : Req} (h : r.IsIo) (k : Nat) :
    r.statusOf (.count k) = virtioBlkSOk :=
  if_pos h

/-- The bytes of the data buffer after the backend call. -/
def Req.dataOut (r : Req) (m : Store) (f : File) : Store :=
  if r.type = virtioBlkTIn then
    patch m r.data (slice f.bytes r.offset ((f.env f.calls).moved r.asked))
  else m

/-- The image after the backend call. -/
def Req.imageOut (r : Req) (m : Store) (img : DiskImg) : DiskImg :=
  let n := (img.fd.env img.fd.calls).moved r.asked
  if r.type = virtioBlkTIn then img.seek r.offset n
  else if r.type = virtioBlkTOut then img.store r.offset (slice m r.data n)
  else img

/-- The device after the data descriptor at position `q`. -/
def Req.transferred (ring n q : Nat) (r : Req) (dev : VirtioBlkDev) : VirtioBlkDev :=
  { dev.took ring n q with
    ram := { dev.ram with bytes := r.dataOut dev.ram.bytes dev.backend.fd }
    backend := r.imageOut dev.ram.bytes dev.backend }

/-- Guest memory after `finish`: the status byte, and the head descriptor with USED toggled and
`len` 0. -/
def finishMem (m : Store) (head status st : Nat) : Store :=
  let m := putLE m status 1 st
  putLE (putLE m (head + 14) 2 ((descAt m head).flags ^^^ 2 ^ vringPackedDescFUsed)) (head + 8) 4 0

/-- The device after `finish` took the status descriptor at position `q`. -/
def finished (ring n q head status st : Nat) (dev : VirtioBlkDev) : VirtioBlkDev :=
  { vq := dev.vq.setCursor (Cursor.ofPos n (q + 1))
    ram := { dev.ram with bytes := finishMem dev.ram.bytes head status st }
    isrStatus := dev.isrStatus ||| virtioPciIsrQueue
    backend := dev.backend
    trace := dev.trace ++ [.take (slotAt ring n q), .used head] }

def Req.memOut (r : Req) (head : Nat) (m : Store) (f : File) : Store :=
  finishMem (r.dataOut m f) head r.status (r.statusOf (f.env f.calls))

/-- What the handler does to the ring for a request at position `p`. -/
def Req.events (ring n p : Nat) (r : Req) : List RingEvent :=
  (List.range r.slots).map (fun j => .take (slotAt ring n (p + j))) ++ [.used (slotAt ring n p)]

/-- The device after a request at position `p`. -/
def Req.served (ring n p : Nat) (r : Req) (dev : VirtioBlkDev) : VirtioBlkDev :=
  { vq := dev.vq.setCursor (Cursor.ofPos n (p + r.slots))
    ram := { dev.ram with bytes := r.memOut (slotAt ring n p) dev.ram.bytes dev.backend.fd }
    isrStatus := dev.isrStatus ||| virtioPciIsrQueue
    backend := r.imageOut dev.ram.bytes dev.backend
    trace := dev.trace ++ r.events ring n p }

/-! ## One round on a well-formed request -/

theorem toOffT_nat {v : Nat} (h : v ≤ offMax) : toOffT v = (v : Int) := by
  unfold offMax at h
  exact if_pos (by omega)

/-- A sector whose offset lies in a file is not truncated on its way to `lseek`. -/
theorem sectorOffset_eq {sector : Nat} (h : sector * 512 ≤ offMax) :
    sectorOffset sector = ((sector * 512 : Nat) : Int) := by
  have hlt : sector * 512 < 2 ^ 64 := by unfold offMax at h; omega
  rw [sectorOffset, Nat.mod_eq_of_lt hlt, toOffT_nat h]

theorem Req.mem_header (r : Req) : r.headerSpan ∈ r.spans := by simp [Req.spans]
theorem Req.mem_status (r : Req) : r.statusSpan ∈ r.spans := by simp [Req.spans]
theorem Req.mem_data {r : Req} (h : r.IsIo) : r.dataSpan ∈ r.spans := by simp [Req.spans, h]

theorem copyHeader_ok {dev : VirtioBlkDev} {desc header len : Nat} (req : Store)
    (hd : desc + 16 ≤ ramSize) (haddr : (descAt dev.ram.bytes desc).addr = dev.ram.base + header)
    (hlen : (descAt dev.ram.bytes desc).len = len) (hreq : len ≤ VirtioBlkReq.sizeof)
    (hram : header + len ≤ ramSize) :
    copyHeader dev (some desc) req = .ok (patch req 0 (slice dev.ram.bytes header len)) := by
  have hptr : vmGuestToHost dev.ram (dev.ram.base + header) = some header := by
    rw [vmGuestToHost_eq (Nat.le_add_right _ _), Nat.add_sub_cancel_left]
  rw [copyHeader, descAddr_ok hd, descLen_ok hd, haddr, hlen, ok_bind, ok_bind, hptr,
    Ram.read_ok hram, ok_bind, if_pos hreq]
  rfl

/-- The fields of `req` after a 16-byte header was copied over it. -/
theorem header_fields (req m : Store) (header : Nat) :
    VirtioBlkReq.type (patch req 0 (slice m header 16)) = getLE m header 4 ∧
    VirtioBlkReq.sector (patch req 0 (slice m header 16)) = getLE m (header + 8) 8 :=
  ⟨getLE_copy req m header 0 (k := 0) (n := 4) (by omega),
    by simpa [VirtioBlkReq.sector] using getLE_copy req m header 0 (show 8 + 8 ≤ 16 by omega)⟩

section Served

variable {dev : VirtioBlkDev} {ring n q : Nat}

variable (dev) in
theorem transfer_ok {r : Req} (req : Store) (hq : QueueAt dev.vq ring n q) (hio : r.IsIo)
    (ha : availFor (wrapAt n q) (descAt dev.ram.bytes (slotAt ring n q)).flags = true)
    (haddr : (descAt dev.ram.bytes (slotAt ring n q)).addr = dev.ram.base + r.data)
    (hlen : (descAt dev.ram.bytes (slotAt ring n q)).len = r.dataLen)
    (htype : VirtioBlkReq.type req = r.type) (hsector : VirtioBlkReq.sector req = r.sector)
    (hram : r.data + r.dataLen ≤ ramSize) (himg : r.offset + r.dataLen ≤ dev.backend.fd.len) :
    transfer dev req = .ok (some (slotAt ring n q),
      r.statusOf (dev.backend.fd.env dev.backend.fd.calls),
      r.transferred ring n q dev,
      VirtioBlkReq.setDataSize req r.dataLen) := by
  have hslot := hq.slot_le q
  have hptr : vmGuestToHost dev.ram (dev.ram.base + r.data) = some r.data := by
    rw [vmGuestToHost_eq (Nat.le_add_right _ _), Nat.add_sub_cancel_left]
  have htype' : VirtioBlkReq.type (VirtioBlkReq.setDataSize req r.dataLen) = r.type := by
    rw [← htype]; exact getLE_putLE_apart (by simp [Span.Apart])
  have hsector' : VirtioBlkReq.sector (VirtioBlkReq.setDataSize req r.dataLen) = r.sector := by
    rw [← hsector]; exact getLE_putLE_apart (by simp [Span.Apart])
  have hsize : VirtioBlkReq.dataSize (VirtioBlkReq.setDataSize req r.dataLen) = r.asked :=
    getLE_putLE_same req 24 2 r.dataLen
  have hasked := r.asked_le
  have hoff : sectorOffset r.sector = (r.offset : Int) :=
    sectorOffset_eq (Nat.le_trans (Nat.le_trans (Nat.le_add_right _ _) himg)
      (Nat.le_trans dev.backend.fd.fits dev.backend.fd.limit_le))
  have hstatus : r.statusOf (dev.backend.fd.env dev.backend.fd.calls) =
      if ((dev.backend.fd.env dev.backend.fd.calls).ret r.asked).isNone then virtioBlkSIoerr
      else virtioBlkSOk := by
    cases dev.backend.fd.env dev.backend.fd.calls with
    | err => exact Req.statusOf_err hio
    | count k => exact Req.statusOf_count hio k
  simp only [transfer, VqDev.getAvail_some hq ha, ok_bind, descLen_ok hslot, descAddr_ok hslot,
    VqDev.took_ram, haddr, hlen, hptr, htype', hsector', hsize, hoff, hstatus]
  by_cases hin : r.type = virtioBlkTIn
  · simp only [if_pos hin, virtioBlkRead, VqDev.took_ram, VqDev.took_backend,
      diskimgRead_ok dev.backend dev.ram r.data r.offset r.asked (by omega) (by omega), ok_bind,
      Req.dataOut, Req.imageOut, Req.transferred]
    rfl
  · have hout : r.type = virtioBlkTOut := hio.resolve_left hin
    simp only [if_neg hin, if_pos hout, virtioBlkWrite, VqDev.took_ram, VqDev.took_backend,
      diskimgWrite_ok dev.backend dev.ram r.data r.offset r.asked (by omega) (by omega), ok_bind,
      Req.dataOut, Req.imageOut, Req.transferred]
    rfl

variable (dev) in
theorem finish_ok (head desc status st : Nat) (hq : QueueAt dev.vq ring n q)
    (hhead : head + 16 ≤ ramSize) (hdesc : desc + 16 ≤ ramSize)
    (hnext : (descAt dev.ram.bytes desc).flags.testBit vringDescFNext = true)
    (ha : availFor (wrapAt n q) (descAt dev.ram.bytes (slotAt ring n q)).flags = true)
    (haddr : (descAt dev.ram.bytes (slotAt ring n q)).addr = dev.ram.base + status)
    (hram : status + 1 ≤ ramSize) :
    finish dev (some head) (some desc) st =
      .ok (.loop, finished ring n q head status st dev) := by
  have hptr : vmGuestToHost dev.ram (dev.ram.base + status) = some status := by
    rw [vmGuestToHost_eq (Nat.le_add_right _ _), Nat.add_sub_cancel_left]
  simp only [finish, virtqCheckNext_ok hdesc, hnext, ok_bind, if_true, VqDev.getAvail_some hq ha,
    descAddr_ok (hq.slot_le q), VqDev.took_ram, haddr, hptr, Ram.store_ok hram, VqDev.markUsed,
    xorDescUsed_ok hhead, setDescLen_ok hhead, VqDev.raiseIsr, finishMem, finished]
  simp only [VqDev.took_trace, List.append_assoc, List.singleton_append]
  rfl

theorem Req.dataOut_out {r : Req} {m : Store} {f : File} {a : Nat} (h : ¬ r.dataSpan.Has a) :
    r.dataOut m f a = m a := by
  unfold Req.dataOut
  split
  · have hmoved := (f.env f.calls).moved_le r.asked
    have hasked := r.asked_le
    apply patch_out
    simp only [Req.dataSpan, Span.Has, slice_length] at h ⊢
    omega
  · rfl

theorem Req.dataOut_desc {r : Req} (m : Store) (f : File) (hn : 0 < n)
    (h : r.dataSpan.Apart ⟨ring, 16 * n⟩) (p : Nat) :
    descAt (r.dataOut m f) (slotAt ring n p) = descAt m (slotAt ring n p) :=
  descAt_congr fun _ ha => Req.dataOut_out (h.symm.not_has (slotAt_in_ring hn p ha))

theorem Req.dataOut_other {r : Req} (h : ¬ r.IsIo) (m : Store) (f : File) : r.dataOut m f = m :=
  if_neg fun hin => h (.inl hin)

theorem Req.imageOut_other {r : Req} (h : ¬ r.IsIo) (m : Store) (img : DiskImg) :
    r.imageOut m img = img := by
  unfold Req.imageOut
  rw [if_neg fun hin => h (.inl hin), if_neg fun hout => h (.inr hout)]

theorem round_took {p : Nat} (req : Store) (hq : QueueAt dev.vq ring n p)
    (ha : availFor (wrapAt n p) (descAt dev.ram.bytes (slotAt ring n p)).flags = true) :
    round dev req = body (dev.took ring n p) (some (slotAt ring n p)) req := by
  rw [round, VqDev.getAvail_some hq ha]
  rfl

/-- The header of a request. -/
theorem ChainAt.copyHeader_eq {r : Req} {p : Nat} (req : Store) (hq : QueueAt dev.vq ring n p)
    (hc : ChainAt dev.ram.base dev.ram.bytes ring n p r) (hram : r.header + 16 ≤ ramSize) :
    copyHeader (dev.took ring n p) (some (slotAt ring n p)) req =
        .ok (patch req 0 (slice dev.ram.bytes r.header 16)) ∧
      VirtioBlkReq.type (patch req 0 (slice dev.ram.bytes r.header 16)) = r.type ∧
      VirtioBlkReq.sector (patch req 0 (slice dev.ram.bytes r.header 16)) = r.sector := by
  obtain ⟨htype, hsector⟩ := header_fields req dev.ram.bytes r.header
  rw [hc.type] at htype
  rw [hc.sector] at hsector
  exact ⟨copyHeader_ok req (hq.slot_le p) hc.headerAddr hc.headerLen (by decide) hram, htype,
    hsector⟩

/-- A request other than IN and OUT: header, status. -/
theorem body_other {r : Req} {p : Nat} (req : Store) (hq : QueueAt dev.vq ring n p)
    (hc : ChainAt dev.ram.base dev.ram.bytes ring n p r) (hheader : r.header + 16 ≤ ramSize)
    (hst : r.status + 1 ≤ ramSize) (hio : ¬ r.IsIo) :
    ∃ req', body (dev.took ring n p) (some (slotAt ring n p)) req =
      .ok (.loop, r.served ring n p dev, req') := by
  have hslots := Req.slots_other hio
  obtain ⟨hcopy, htype, -⟩ := hc.copyHeader_eq req hq hheader
  have hnext := hc.next 0 (by omega)
  have hfin := finish_ok (dev.took ring n p) (slotAt ring n p)
    (slotAt ring n p) r.status virtioBlkSUnsupp (hq.at (p + 1)) (hq.slot_le p)
    (hq.slot_le p) (by simpa [hslots] using hnext) (hc.avail 1 (by omega))
    (by simpa [hslots] using hc.statusAddr) hst
  have hstatus : ∀ res, r.statusOf res = virtioBlkSUnsupp := fun _ => if_neg hio
  refine ⟨patch req 0 (slice dev.ram.bytes r.header 16), ?_⟩
  simp only [body, hcopy, ok_bind, htype,
    if_neg (show ¬ (r.type = virtioBlkTIn ∨ r.type = virtioBlkTOut) from hio), hfin]
  simp only [VqDev.took, finished, Req.served, Req.memOut, Req.events, hslots, hstatus,
    Req.dataOut_other hio, Req.imageOut_other hio, List.range_succ, List.range_zero,
    List.nil_append, List.map_cons, List.map_nil, List.append_assoc, List.cons_append, Nat.add_zero]
  rfl

/-- The status for the result of a backend call. -/
def callStatus (r : Option Nat) : Nat := if r.isNone then virtioBlkSIoerr else virtioBlkSOk

theorem callStatus_lt (r : Option Nat) : callStatus r < 256 := by
  cases r with
  | none => decide
  | some k => exact (by decide : virtioBlkSOk < 256)

theorem callStatus_ioerr {r : Option Nat} : callStatus r = virtioBlkSIoerr ↔ r = none := by
  cases r with
  | none => exact ⟨fun _ => rfl, fun _ => rfl⟩
  | some k =>
    exact ⟨fun h => absurd (show virtioBlkSOk = virtioBlkSIoerr from h) (by decide),
      fun h => by cases h⟩

/-- The backend call for a request of this type, offset and size returns `-1`: the kernel says so,
or there is no room below the largest offset for the first byte of a write. -/
def CallFails (type : Nat) (offset : Int) (size : Nat) (f : File) : Prop :=
  f.env f.calls = .err ∨ (type ≠ virtioBlkTIn ∧ size ≠ 0 ∧ f.limit ≤ (f.lseek offset).pos)

variable (dev) in
/-- The data descriptor of an IN or OUT request, wherever its range lies: the call returns, guest
memory changes in the data buffer only, and a call that fails has no effect. -/
theorem transfer_total {data len : Nat} (req : Store) (hq : QueueAt dev.vq ring n q)
    (ha : availFor (wrapAt n q) (descAt dev.ram.bytes (slotAt ring n q)).flags = true)
    (haddr : (descAt dev.ram.bytes (slotAt ring n q)).addr = dev.ram.base + data)
    (hlen : (descAt dev.ram.bytes (slotAt ring n q)).len = len)
    (hram : data + len % 2 ^ 16 ≤ ramSize) :
    ∃ r bytes img req', transfer dev req = .ok (some (slotAt ring n q), callStatus r,
        { dev.took ring n q with ram := { dev.ram with bytes := bytes }, backend := img }, req') ∧
      (∀ x, ¬ Span.Has ⟨data, len⟩ x → bytes x = dev.ram.bytes x) ∧
      (r = none ↔ CallFails (VirtioBlkReq.type req) (sectorOffset (VirtioBlkReq.sector req))
        (len % 2 ^ 16) dev.backend.fd) ∧
      (r = none → bytes = dev.ram.bytes ∧ img.fd.bytes = dev.backend.fd.bytes ∧
        img.fd.len = dev.backend.fd.len) := by
  have hslot := hq.slot_le q
  have hptr : vmGuestToHost dev.ram (dev.ram.base + data) = some data := by
    rw [vmGuestToHost_eq (Nat.le_add_right _ _), Nat.add_sub_cancel_left]
  have hsize : VirtioBlkReq.dataSize (VirtioBlkReq.setDataSize req len) = len % 2 ^ 16 :=
    getLE_putLE_same req 24 2 len
  have htype : VirtioBlkReq.type (VirtioBlkReq.setDataSize req len) = VirtioBlkReq.type req :=
    getLE_putLE_apart (by simp [Span.Apart])
  have hsector : VirtioBlkReq.sector (VirtioBlkReq.setDataSize req len) = VirtioBlkReq.sector req :=
    getLE_putLE_apart (by simp [Span.Apart])
  have hle := Nat.mod_le len (2 ^ 16)
  simp only [transfer, VqDev.getAvail_some hq ha, ok_bind, descLen_ok hslot, descAddr_ok hslot,
    VqDev.took_ram, haddr, hlen, hptr, hsize, htype, hsector]
  by_cases hin : VirtioBlkReq.type req = virtioBlkTIn
  · obtain ⟨r, bytes, img, hread, hframe, hnone, hsame, hbytes, hlen'⟩ :=
      diskimgRead_total dev.backend
      dev.ram (sectorOffset (VirtioBlkReq.sector req)) hram
    simp only [if_pos hin, virtioBlkRead, VqDev.took_backend, VqDev.took_ram, hread, ok_bind]
    refine ⟨r, bytes, img, _, rfl, fun x hx => hframe x ?_, ?_, fun hr => ⟨hsame hr, hbytes, hlen'⟩⟩
    · simp only [Span.Has] at hx ⊢
      omega
    · rw [hnone]
      exact ⟨.inl, fun h => h.resolve_right fun hout => hout.1 hin⟩
  · obtain ⟨r, img, hwrite, hnone, hsame⟩ := diskimgWrite_total dev.backend dev.ram
      (sectorOffset (VirtioBlkReq.sector req)) hram
    simp only [if_neg hin, virtioBlkWrite, VqDev.took_backend, VqDev.took_ram, hwrite, ok_bind]
    refine ⟨r, dev.ram.bytes, img, _, rfl, fun _ _ => rfl, ?_, fun hr => ⟨rfl, hsame hr⟩⟩
    rw [hnone, CallFails]
    simp only [ne_eq, hin, not_false_eq_true, true_and]

/-- The loop body on an IN or OUT request, given what its backend call did: the rest of the chain is
as the driver wrote it. -/
theorem body_of_transfer {p status st : Nat} {d₂ : VirtioBlkDev} {req req₁ req₂ : Store}
    (hq : QueueAt dev.vq ring n p)
    (hcopy : copyHeader (dev.took ring n p) (some (slotAt ring n p)) req = .ok req₁)
    (hio : IsIoType req₁)
    (hnext : ∀ j < 2, (descAt dev.ram.bytes (slotAt ring n (p + j))).flags.testBit vringDescFNext =
      true)
    (htr : transfer (dev.took ring n p) req₁ = .ok (some (slotAt ring n (p + 1)), st, d₂, req₂))
    (hq₂ : QueueAt d₂.vq ring n (p + 2)) (hbase : d₂.ram.base = dev.ram.base)
    (hdesc : ∀ j, 0 < j → j < 3 →
      descAt d₂.ram.bytes (slotAt ring n (p + j)) = descAt dev.ram.bytes (slotAt ring n (p + j)))
    (ha : availFor (wrapAt n (p + 2)) (descAt dev.ram.bytes (slotAt ring n (p + 2))).flags = true)
    (haddr : (descAt dev.ram.bytes (slotAt ring n (p + 2))).addr = dev.ram.base + status)
    (hram : status + 1 ≤ ramSize) :
    body (dev.took ring n p) (some (slotAt ring n p)) req =
      .ok (.loop, finished ring n (p + 2) (slotAt ring n p) status st d₂, req₂) := by
  have hck : virtqCheckNext (dev.took ring n p).ram (some (slotAt ring n p)) = .ok true := by
    rw [virtqCheckNext_ok (hq.slot_le p)]
    exact congrArg _ (hnext 0 (by omega))
  have hfin := finish_ok d₂ (slotAt ring n p) (slotAt ring n (p + 1)) status st hq₂ (hq.slot_le p)
    (hq.slot_le (p + 1)) (by rw [hdesc 1 (by omega) (by omega)]; exact hnext 1 (by omega))
    (by rw [hdesc 2 (by omega) (by omega)]; exact ha)
      (by rw [hdesc 2 (by omega) (by omega), hbase]; exact haddr) hram
  simp only [body, hcopy, ok_bind, hck, if_true, htr, hfin, if_pos (show _ ∨ _ from hio)]
  rfl

theorem ChainAt.next_io {base p : Nat} {m : Store} {r : Req} (hc : ChainAt base m ring n p r)
    (hio : r.IsIo) {j : Nat} (hj : j < 2) :
    (descAt m (slotAt ring n (p + j))).flags.testBit vringDescFNext = true := by
  have hslots := Req.slots_io hio
  rw [hc.next j (by omega), hslots]
  exact decide_eq_true (by omega)

/-- An IN or OUT request: header, data, status. The data must leave the rest of the chain as it
was. -/
theorem body_chain {r : Req} {p : Nat} (req : Store) (hq : QueueAt dev.vq ring n p)
    (hc : ChainAt dev.ram.base dev.ram.bytes ring n p r) (hio : r.IsIo)
    (hram : ∀ s ∈ r.spans, s.lo + s.len ≤ ramSize)
    (himg : r.offset + r.dataLen ≤ dev.backend.fd.len)
    (hdesc : ∀ j, 0 < j → j < 3 → descAt (r.dataOut dev.ram.bytes dev.backend.fd)
      (slotAt ring n (p + j)) = descAt dev.ram.bytes (slotAt ring n (p + j))) :
    ∃ req', body (dev.took ring n p) (some (slotAt ring n p)) req =
      .ok (.loop, r.served ring n p dev, req') := by
  have hslots := Req.slots_io hio
  obtain ⟨hcopy, htype, hsector⟩ := hc.copyHeader_eq req hq (hram _ r.mem_header)
  have htr := transfer_ok (dev.took ring n p)
    (patch req 0 (slice dev.ram.bytes r.header 16)) (hq.at (p + 1)) hio (hc.avail 1 (by omega))
    (hc.dataAddr hio) (hc.dataLen hio) htype hsector (hram _ (Req.mem_data hio)) himg
  have hstatus : (descAt dev.ram.bytes (slotAt ring n (p + 2))).addr = dev.ram.base + r.status := by
    simpa [hslots] using hc.statusAddr
  have hbody := body_of_transfer hq hcopy (by rw [IsIoType, htype]; exact hio)
    (fun j hj => hc.next_io hio hj) htr (hq.at (p + 2)) rfl hdesc (hc.avail 2 (by omega)) hstatus
    (hram _ r.mem_status)
  refine ⟨VirtioBlkReq.setDataSize (patch req 0 (slice dev.ram.bytes r.header 16)) r.dataLen,
    hbody.trans ?_⟩
  simp only [Req.transferred, finished, VqDev.took_trace, Req.served, Req.memOut, Req.events,
    hslots, List.range_succ, List.range_zero, List.nil_append, List.map_cons, List.map_nil,
    List.append_assoc, List.cons_append, Nat.add_zero]
  rfl

theorem body_io {r : Req} {p : Nat} (req : Store) (hq : QueueAt dev.vq ring n p)
    (hc : ChainAt dev.ram.base dev.ram.bytes ring n p r)
    (hr : ReqOk ring n dev.backend.fd.len r) (hio : r.IsIo) :
    ∃ req', body (dev.took ring n p) (some (slotAt ring n p)) req =
      .ok (.loop, r.served ring n p dev, req') :=
  body_chain req hq hc hio hr.inRam (hr.inImage hio) fun j _ _ =>
    Req.dataOut_desc dev.ram.bytes dev.backend.fd hq.pos (hr.offRing _ (Req.mem_data hio)) (p + j)

variable (dev) in
/-- **One turn of the loop** serves the request under the cursor and goes back to the loop's
condition with the cursor behind the request's chain. -/
theorem round_ok {r : Req} {p : Nat} (req : Store) (hq : QueueAt dev.vq ring n p)
    (hc : ChainAt dev.ram.base dev.ram.bytes ring n p r)
    (hr : ReqOk ring n dev.backend.fd.len r) :
    ∃ req', round dev req = .ok (.loop, r.served ring n p dev, req') := by
  rw [round_took req hq (hc.avail 0 r.slots_pos)]
  by_cases hio : r.IsIo
  · exact body_io req hq hc hr hio
  · exact body_other req hq hc (hr.inRam _ r.mem_header) (hr.inRam _ r.mem_status) hio

end Served

/-! ## What a served request leaves alone -/

/-- The bytes of guest memory a request at position `p` may change: its head descriptor, its status
byte and, for an IN request, its data buffer. -/
def Req.Touches (ring n p : Nat) (r : Req) (a : Nat) : Prop :=
  Span.Has ⟨slotAt ring n p, 16⟩ a ∨ r.statusSpan.Has a ∨
    (r.type = virtioBlkTIn ∧ r.dataSpan.Has a)

theorem finishMem_out {m : Store} {head status st a : Nat} (hh : ¬ Span.Has ⟨head, 16⟩ a)
    (hs : ¬ Span.Has ⟨status, 1⟩ a) : finishMem m head status st a = m a := by
  simp only [Span.Has] at hh
  unfold finishMem
  rw [putLE_out (by simp only [Span.Has]; omega), putLE_out (by simp only [Span.Has]; omega),
    putLE_out hs]

theorem finishMem_status {m : Store} {head status st : Nat}
    (h : Span.Apart ⟨status, 1⟩ ⟨head, 16⟩) :
    getLE (finishMem m head status st) status 1 = st % 256 := by
  simp only [Span.Apart] at h
  have hbyte : 256 ^ 1 = 256 := by decide
  unfold finishMem
  rw [getLE_putLE_apart (by simp only [Span.Apart]; omega),
    getLE_putLE_apart (by simp only [Span.Apart]; omega), getLE_putLE_same, hbyte]

theorem finishMem_head {m : Store} {head status st : Nat}
    (h : Span.Apart ⟨status, 1⟩ ⟨head, 16⟩) :
    descAt (finishMem m head status st) head =
      { descAt m head with
        len := 0
        flags := (descAt m head).flags ^^^ 2 ^ vringPackedDescFUsed } := by
  have hm : descAt (putLE m status 1 st) head = descAt m head :=
    descAt_patch_apart (by rw [toLE_length]; exact h.symm)
  unfold finishMem
  rw [descAt_putLen, descAt_xorUsed, hm, Nat.zero_mod]

theorem Req.dataOut_touches {r : Req} {m : Store} {f : File} {a : Nat}
    (h : ¬ (r.type = virtioBlkTIn ∧ r.dataSpan.Has a)) : r.dataOut m f a = m a := by
  by_cases hin : r.type = virtioBlkTIn
  · exact Req.dataOut_out fun ha => h ⟨hin, ha⟩
  · unfold Req.dataOut; rw [if_neg hin]

theorem Req.memOut_out {r : Req} {ring n p : Nat} {m : Store} {f : File} {a : Nat}
    (h : ¬ r.Touches ring n p a) : r.memOut (slotAt ring n p) m f a = m a := by
  simp only [Req.Touches, not_or] at h
  unfold Req.memOut
  rw [finishMem_out h.1 h.2.1, Req.dataOut_touches h.2.2]

theorem Req.statusOf_lt (r : Req) (res : IoRes) : r.statusOf res < 256 := by
  unfold Req.statusOf
  split
  · cases res with
    | err => decide
    | count k => exact (by decide : virtioBlkSOk < 256)
  · decide

section Frame

variable {ring n p len : Nat} {r : Req} {m : Store} {f : File}

/-- A request leaves every descriptor but its head alone. -/
theorem memOut_desc (hr : ReqOk ring n len r) {i : Nat} (hi : i < n) (hne : p % n ≠ i) :
    descAt (r.memOut (slotAt ring n p) m f) (ring + 16 * i) = descAt m (ring + 16 * i) := by
  apply descAt_congr
  intro a ha
  have hring : Span.Has ⟨ring, 16 * n⟩ a := by simp only [Span.Has] at ha ⊢; omega
  apply Req.memOut_out
  rintro (hhead | hst | ⟨hin, hdata⟩)
  · simp only [Span.Has, slotAt] at ha hhead; omega
  · exact (hr.offRing _ r.mem_status).not_has hst hring
  · exact (hr.offRing _ (Req.mem_data (.inl hin))).not_has hdata hring

/-- A later position of the same lap is another slot. -/
theorem slot_ne {q : Nat} (hq : p < q) (hq' : q < p + n) : p % n ≠ q % n := fun he =>
  Nat.ne_of_lt hq (mod_inj (a := p) (by omega) (by omega) (by omega) hq' he)

theorem memOut_slot (hn : 0 < n) (hr : ReqOk ring n len r) {q : Nat} (hq : p < q)
    (hq' : q < p + n) :
    descAt (r.memOut (slotAt ring n p) m f) (slotAt ring n q) = descAt m (slotAt ring n q) :=
  memOut_desc hr (Nat.mod_lt q hn) (slot_ne hq hq')

/-- A buffer clear of the ring and of the request's buffers keeps its bytes. -/
theorem memOut_span {s : Span} (hn : 0 < n) (hring : s.Apart ⟨ring, 16 * n⟩)
    (hs : ∀ t ∈ r.spans, t.Apart s) {a : Nat} (ha : s.Has a) :
    r.memOut (slotAt ring n p) m f a = m a := by
  apply Req.memOut_out
  rintro (hhead | hst | ⟨hin, hdata⟩)
  · exact hring.not_has ha (slotAt_in_ring hn p hhead)
  · exact (hs _ r.mem_status).not_has hst ha
  · exact (hs _ (Req.mem_data (.inl hin))).not_has hdata ha

theorem status_off_slot (hn : 0 < n) (hr : ReqOk ring n len r) :
    Span.Apart ⟨r.status, 1⟩ ⟨slotAt ring n p, 16⟩ := by
  have h := hr.offRing _ r.mem_status
  have := Nat.mod_lt p hn
  simp only [Span.Apart, Req.statusSpan, slotAt] at h ⊢
  omega

theorem memOut_status (hn : 0 < n) (hr : ReqOk ring n len r) :
    getLE (r.memOut (slotAt ring n p) m f) r.status 1 = r.statusOf (f.env f.calls) := by
  unfold Req.memOut
  rw [finishMem_status (status_off_slot hn hr)]
  exact Nat.mod_eq_of_lt (r.statusOf_lt _)

theorem memOut_head (hn : 0 < n) (hr : ReqOk ring n len r) :
    descAt (r.memOut (slotAt ring n p) m f) (slotAt ring n p) =
      { descAt m (slotAt ring n p) with
        len := 0
        flags := (descAt m (slotAt ring n p)).flags ^^^ 2 ^ vringPackedDescFUsed } := by
  have hdata : descAt (r.dataOut m f) (slotAt ring n p) = descAt m (slotAt ring n p) := by
    by_cases hio : r.IsIo
    · exact Req.dataOut_desc m f hn (hr.offRing _ (Req.mem_data hio)) p
    · rw [Req.dataOut_other hio]
  unfold Req.memOut
  rw [finishMem_head (status_off_slot hn hr), hdata]

end Frame

section Image

variable {r : Req} {m : Store} {img : DiskImg}

@[simp] theorem Req.imageOut_env : (r.imageOut m img).fd.env = img.fd.env := by
  unfold Req.imageOut
  split
  · rfl
  · split
    · exact store_env _
    · rfl

theorem Req.imageOut_calls :
    (r.imageOut m img).fd.calls = if r.IsIo then img.fd.calls + 1 else img.fd.calls := by
  by_cases hio : r.IsIo
  · rw [if_pos hio]
    unfold Req.imageOut
    split
    · rfl
    · rw [if_pos (hio.resolve_left ‹_›)]
      exact store_calls _
  · rw [if_neg hio, Req.imageOut_other hio]

theorem Req.moved_le_dataLen (res : IoRes) : res.moved r.asked ≤ r.dataLen :=
  Nat.le_trans (res.moved_le _) r.asked_le

theorem Req.imageOut_len (h : r.IsIo → r.offset + r.dataLen ≤ img.fd.len) :
    (r.imageOut m img).fd.len = img.fd.len := by
  unfold Req.imageOut
  have hmoved := Req.moved_le_dataLen (r := r) (img.fd.env img.fd.calls)
  split
  · rfl
  · split
    · rename_i hout
      have := h (.inr hout)
      exact store_len (by rw [slice_length]; omega)
    · rfl

/-- Only an OUT request changes the image, and only in its range. -/
theorem Req.imageOut_out {a : Nat} (h : r.IsIo → r.offset + r.dataLen ≤ img.fd.len)
    (ha : ¬ (r.type = virtioBlkTOut ∧ Span.Has ⟨r.offset, r.dataLen⟩ a)) :
    (r.imageOut m img).fd.bytes a = img.fd.bytes a := by
  have hmoved := Req.moved_le_dataLen (r := r) (img.fd.env img.fd.calls)
  unfold Req.imageOut
  split
  · rfl
  · split
    · rename_i hout
      have himg := h (.inr hout)
      simp only [hout, true_and, Span.Has] at ha
      rw [store_bytes (by rw [slice_length]; omega)]
      exact patch_out (by simp only [Span.Has, slice_length]; omega)
    · rfl

end Image

end Blk

end KvmHost
