import KvmHost.BlkRequest

/-!
# KvmHost.BlkArray

The block device as a byte array.

`ArrayRun` is the array: an OUT that ends with OK stores its whole buffer, an IN that ends with OK
returns the bytes stored last, a request that ends otherwise does nothing. `IoRun` is a run of the
device on IN and OUT requests, one turn of the loop each, in one call or in several, with the guest
free to rewrite its memory in between.

The device is such an array as long as each backend call that succeeds moves the whole buffer
(`Io.MovesAll`). It does not when the length does not fit the 16 bits of `data_size`, or when the
kernel returns a short count: both end with OK.
-/

namespace KvmHost
namespace Blk

open ByteStore Lap

/-- A request with the device before and after it was served. -/
structure Io where
  req : Req
  pre : VirtioBlkDev
  post : VirtioBlkDev

namespace Io

def status (x : Io) : Nat := getLE x.post.ram.bytes x.req.status 1

-- the guest's buffer before and after
def bufPre (x : Io) : List UInt8 := slice x.pre.ram.bytes x.req.data x.req.dataLen
def bufPost (x : Io) : List UInt8 := slice x.post.ram.bytes x.req.data x.req.dataLen

/-- The bytes the backend call moved: how far it left the file position behind the request's
offset. -/
def moved (x : Io) : Nat := x.post.backend.fd.pos - x.req.offset

/-- A request that ends with OK has moved its whole data descriptor. -/
def Exact (x : Io) : Prop := x.status = virtioBlkSOk → x.moved = x.req.dataLen

/-- The backend call fails, or the length fits `data_size` and the kernel moves all of it. -/
def MovesAll (x : Io) : Prop :=
  match x.pre.backend.fd.env x.pre.backend.fd.calls with
  | .err => True
  | .count k => x.req.dataLen < 2 ^ 16 ∧ x.req.dataLen ≤ k

end Io

/-- The requests as operations of a byte array. -/
inductive ArrayRun : Store → List Io → Store → Prop where
  | done {arr : Store} : ArrayRun arr [] arr
  | put {arr arr' : Store} {x : Io} {xs : List Io} : x.req.type = virtioBlkTOut →
      x.status = virtioBlkSOk → ArrayRun (patch arr x.req.offset x.bufPre) xs arr' →
      ArrayRun arr (x :: xs) arr'
  | get {arr arr' : Store} {x : Io} {xs : List Io} : x.req.type = virtioBlkTIn →
      x.status = virtioBlkSOk → x.bufPost = slice arr x.req.offset x.req.dataLen →
      ArrayRun arr xs arr' → ArrayRun arr (x :: xs) arr'
  | failed {arr arr' : Store} {x : Io} {xs : List Io} : x.status ≠ virtioBlkSOk →
      ArrayRun arr xs arr' → ArrayRun arr (x :: xs) arr'

/-- Turns of the loop on well-formed IN and OUT requests, from position `p` on. -/
inductive IoRun (ring n : Nat) : Nat → VirtioBlkDev → List Io → VirtioBlkDev → Prop where
  | done {p : Nat} {d : VirtioBlkDev} : IoRun ring n p d [] d
  | step {p : Nat} {d pre post d' : VirtioBlkDev} {r : Req} {m req req' : Store} {xs : List Io} :
      pre = { d with ram := { d.ram with bytes := m } } → r.IsIo →
      ChainAt pre.ram.base m ring n p r → ReqOk ring n pre.backend.fd.len r →
      r.dataSpan.Apart r.statusSpan → round pre req = .ok (.loop, post, req') →
      IoRun ring n (p + 3) post xs d' → IoRun ring n p d (⟨r, pre, post⟩ :: xs) d'

/-! ## One request -/

section One

variable {ring n p : Nat} {r : Req} {dev : VirtioBlkDev}

theorem served_status (hn : 0 < n) (hr : ReqOk ring n dev.backend.fd.len r) :
    Io.status ⟨r, dev, r.served ring n p dev⟩ =
      r.statusOf (dev.backend.fd.env dev.backend.fd.calls) :=
  memOut_status hn hr

theorem served_moved (hio : r.IsIo) (hr : ReqOk ring n dev.backend.fd.len r) :
    Io.moved ⟨r, dev, r.served ring n p dev⟩ =
      (dev.backend.fd.env dev.backend.fd.calls).moved r.asked := by
  have hmoved := Req.moved_le_dataLen (r := r) (dev.backend.fd.env dev.backend.fd.calls)
  have himg := hr.inImage hio
  unfold Io.moved
  simp only [Req.served, Req.imageOut]
  split
  · simp [DiskImg.seek]
  · rw [if_pos (hio.resolve_left ‹_›), store_pos (by rw [slice_length]; omega), slice_length]
    omega

theorem served_exact_iff (hn : 0 < n) (hio : r.IsIo) (hr : ReqOk ring n dev.backend.fd.len r) :
    Io.Exact ⟨r, dev, r.served ring n p dev⟩ ↔ Io.MovesAll ⟨r, dev, r.served ring n p dev⟩ := by
  unfold Io.Exact Io.MovesAll
  rw [served_status hn hr, served_moved hio hr]
  cases dev.backend.fd.env dev.backend.fd.calls with
  | err => simp [Req.statusOf_err hio, virtioBlkSIoerr, virtioBlkSOk]
  | count k =>
    simp only [Req.statusOf_count hio, IoRes.moved, Req.asked, forall_const]
    omega

/-- The data buffer of an IN request keeps what the backend put there. -/
theorem served_data (hn : 0 < n) (hio : r.IsIo) (hr : ReqOk ring n dev.backend.fd.len r)
    (hd : r.dataSpan.Apart r.statusSpan) :
    Io.bufPost ⟨r, dev, r.served ring n p dev⟩ =
      slice (r.dataOut dev.ram.bytes dev.backend.fd) r.data r.dataLen := by
  apply slice_congr
  intro i hi
  change i < r.dataLen at hi
  have hin : r.dataSpan.Has (r.data + i) := by simp only [Req.dataSpan, Span.Has]; omega
  refine finishMem_out (fun hhead => ?_) (hd.not_has hin)
  exact (hr.offRing _ (Req.mem_data hio)).not_has hin (slotAt_in_ring hn p hhead)

/-- A request that moves all is a step of the array. -/
theorem served_array {xs : List Io} {arr' : Store} (hn : 0 < n) (hio : r.IsIo)
    (hr : ReqOk ring n dev.backend.fd.len r) (hd : r.dataSpan.Apart r.statusSpan)
    (hall : Io.MovesAll ⟨r, dev, r.served ring n p dev⟩)
    (hrest : ArrayRun (r.served ring n p dev).backend.fd.bytes xs arr') :
    ArrayRun dev.backend.fd.bytes (⟨r, dev, r.served ring n p dev⟩ :: xs) arr' := by
  have hst := served_status (p := p) hn hr
  have himg := hr.inImage hio
  have hmoved := Req.moved_le_dataLen (r := r) (dev.backend.fd.env dev.backend.fd.calls)
  unfold Io.MovesAll at hall
  simp only at hall
  cases henv : dev.backend.fd.env dev.backend.fd.calls with
  | err =>
    -- nothing was moved
    have hsame : (r.served ring n p dev).backend.fd.bytes = dev.backend.fd.bytes := by
      simp only [Req.served, Req.imageOut, henv, IoRes.moved, slice]
      split
      · rfl
      · rw [if_pos (hio.resolve_left ‹_›), store_bytes (by simp only [List.length_nil]; omega),
          patch_nil]
    rw [hsame] at hrest
    refine .failed ?_ hrest
    rw [hst, henv, Req.statusOf_err hio]
    decide
  | count k =>
    rw [henv] at hall hst
    rw [Req.statusOf_count hio] at hst
    have hn' : (dev.backend.fd.env dev.backend.fd.calls).moved r.asked = r.dataLen := by
      rw [henv, IoRes.moved, Req.asked, Nat.mod_eq_of_lt hall.1]
      exact Nat.min_eq_right hall.2
    by_cases hin : r.type = virtioBlkTIn
    · have hsame : (r.served ring n p dev).backend.fd.bytes = dev.backend.fd.bytes := by
        simp only [Req.served, Req.imageOut, if_pos hin]
        rfl
      rw [hsame] at hrest
      refine .get hin hst ?_ hrest
      rw [served_data hn hio hr hd, Req.dataOut, if_pos hin, hn']
      exact slice_copy _ _ _ _ _
    · have hout : r.type = virtioBlkTOut := hio.resolve_left hin
      have hput : (r.served ring n p dev).backend.fd.bytes =
          patch dev.backend.fd.bytes r.offset (slice dev.ram.bytes r.data r.dataLen) := by
        simp only [Req.served, Req.imageOut, if_neg hin, if_pos hout, hn']
        exact store_bytes (by rw [slice_length]; omega)
      rw [hput] at hrest
      exact .put hout hst hrest

end One

/-! ## Runs -/

theorem IoRun.served {ring n p : Nat} {d pre post : VirtioBlkDev} {r : Req} {m req req' : Store}
    (hq : QueueAt d.vq ring n p) (hpre : pre = { d with ram := { d.ram with bytes := m } })
    (hc : ChainAt pre.ram.base m ring n p r) (hr : ReqOk ring n pre.backend.fd.len r)
    (hround : round pre req = .ok (.loop, post, req')) : post = r.served ring n p pre := by
  subst hpre
  obtain ⟨req'', hok⟩ := round_ok { d with ram := { d.ram with bytes := m } } req hq hc hr
  rw [hok] at hround
  cases hround
  rfl

/-- **The block device is a byte array** on every run whose backend calls fail or move the whole
buffer, and a request is exact in no other case. -/
theorem io_run_array {ring n p : Nat} {d d' : VirtioBlkDev} {xs : List Io}
    (hq : QueueAt d.vq ring n p) (h : IoRun ring n p d xs d') :
    ((∀ x ∈ xs, x.Exact) ↔ ∀ x ∈ xs, x.MovesAll) ∧
      ((∀ x ∈ xs, x.MovesAll) → ArrayRun d.backend.fd.bytes xs d'.backend.fd.bytes) := by
  induction h with
  | done => exact ⟨by simp, fun _ => .done⟩
  | @step p d pre post d' r m req req' xs hpre hio hc hr hd hround _ ih =>
    have hpost := IoRun.served hq hpre hc hr hround
    have hslots := Req.slots_io hio
    have hq' : QueueAt post.vq ring n (p + 3) := by
      rw [hpost, ← hslots, hpre]
      exact hq.at _
    obtain ⟨hiff, harr⟩ := ih hq'
    constructor
    · simp only [List.forall_mem_cons, hiff, hpost, served_exact_iff hq.pos hio hr]
    · intro hall
      rw [List.forall_mem_cons] at hall
      have hrest := harr hall.2
      have hone := hall.1
      rw [hpost] at hrest hone ⊢
      have hstep := served_array hq.pos hio hr hd hone hrest
      rwa [show pre.backend = d.backend by rw [hpre]] at hstep

/-! ## A write that is not stored, and one that is

`ioMem` holds one request of `len` bytes at position `p` of a ring of eight: header at 128, data at
65536 (all ones), status at 144. -/

def ioReq (type len : Nat) : Req := ⟨type, 0, 128, 65536, len, 144⟩

def ioMem (p type len : Nat) : Store :=
  let m : Store := fun a => if 65536 ≤ a then 1 else 0
  let m := putDesc m (slotAt 0 8 p) ⟨128, 16, 0, 129⟩
  let m := putDesc m (slotAt 0 8 (p + 1)) ⟨65536, len, 0, 129⟩
  let m := putDesc m (slotAt 0 8 (p + 2)) ⟨144, 1, 0, 128⟩
  putLE m 128 4 type

def ioDev : VirtioBlkDev where
  vq :=
    { descRing := some 0
      deviceEvent := none
      guestEvent := none
      info := putLE (fun _ => 0) 0 2 8
      nextAvailIdx := 0
      usedWrapCount := true }
  ram := ⟨0, fun _ => 0⟩
  isrStatus := 0
  backend := diskimgInit
    { bytes := fun _ => 0
      len := 131072
      pos := 0
      env := fun _ => .count 131072
      calls := 0
      hole := fun _ _ => rfl
      limit := offMax
      fits := by decide
      limit_le := Nat.le_refl offMax }
  trace := []

def ioPre (p type len : Nat) (d : VirtioBlkDev) : VirtioBlkDev :=
  { d with ram := { d.ram with bytes := ioMem p type len } }

theorem ioDev_queue : QueueAt ioDev.vq 0 8 0 :=
  ⟨rfl, getLE_putLE_same _ 0 2 8, by decide, by decide, rfl⟩

/-- One turn on the request of `ioMem`, from any device with that queue. -/
theorem ioPre_run (type len : Nat) {p : Nat} {d d' : VirtioBlkDev} {xs : List Io}
    (hq : QueueAt d.vq 0 8 p) (hio : (ioReq type len).IsIo)
    (hc : ChainAt d.ram.base (ioMem p type len) 0 8 p (ioReq type len))
    (hr : ReqOk 0 8 d.backend.fd.len (ioReq type len))
    (hd : (ioReq type len).dataSpan.Apart (ioReq type len).statusSpan)
    (hrest : IoRun 0 8 (p + 3) ((ioReq type len).served 0 8 p (ioPre p type len d)) xs d') :
    IoRun 0 8 p d (⟨ioReq type len, ioPre p type len d,
      (ioReq type len).served 0 8 p (ioPre p type len d)⟩ :: xs) d' := by
  obtain ⟨req', hround⟩ := round_ok (ioPre p type len d) (fun _ => 0) hq hc hr
  exact .step (m := ioMem p type len) rfl hio hc hr hd hround hrest

/-- An OUT of 65536 bytes ends with OK and stores nothing: `data_size` is 0. -/
theorem out_65536_stores_nothing :
    ∃ x, IoRun 0 8 0 ioDev [x] x.post ∧ x.req.type = virtioBlkTOut ∧ x.req.dataLen = 65536 ∧
      x.status = virtioBlkSOk ∧ x.moved = 0 ∧
      x.post.backend.fd.bytes x.req.offset ≠ x.pre.ram.bytes x.req.data := by
  refine ⟨⟨ioReq virtioBlkTOut 65536, ioPre 0 virtioBlkTOut 65536 ioDev,
    (ioReq virtioBlkTOut 65536).served 0 8 0 (ioPre 0 virtioBlkTOut 65536 ioDev)⟩, ?_, rfl, rfl, ?_⟩
  · exact ioPre_run virtioBlkTOut 65536 ioDev_queue (by decide) (by decide +kernel) (by decide)
      (by decide) .done
  · decide +kernel

/-- An OUT of four bytes and an IN that reads them back. -/
theorem io_run_array_put_get :
    ∃ xs d', IoRun 0 8 0 ioDev xs d' ∧ xs.map (·.req.type) = [virtioBlkTOut, virtioBlkTIn] ∧
      ArrayRun ioDev.backend.fd.bytes xs d'.backend.fd.bytes := by
  have hrun :=
    ioPre_run virtioBlkTOut 4 ioDev_queue (by decide) (by decide +kernel) (by decide) (by decide)
    (ioPre_run virtioBlkTIn 4 (p := 3)
      (d := (ioReq virtioBlkTOut 4).served 0 8 0 (ioPre 0 virtioBlkTOut 4 ioDev))
      (ioDev_queue.at 3) (by decide) (by decide +kernel) (by decide) (by decide) .done)
  refine ⟨_, _, hrun, rfl, (io_run_array ioDev_queue hrun).2 ?_⟩
  intro x hx
  simp only [List.mem_cons, List.not_mem_nil, or_false] at hx
  rcases hx with rfl | rfl
  · exact ⟨by decide, by decide⟩
  · exact ⟨by decide, by decide⟩

end Blk
end KvmHost
