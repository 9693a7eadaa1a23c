import Mathlib.Data.List.Forall2
import Mathlib.Logic.Function.Basic
import KvmHost.VirtioNet

/-!
# KvmHost.NetFrames

Frames and used descriptors of the network device.

`NetRun` is a run of calls of the two handlers on the two queues of a device, which share guest
memory and the tap; the driver may rewrite its memory before each call, so any interleaving of its
posts with the calls is a run. A call is kept with the device before and after it, and what it did
is read off these: the descriptors it took and those it marked used, from the ring events, and the
frame it received, from the tap.

`net_frames_run` compares whole sequences: what the used receive descriptors hold with what the tap
returned, and the frames sent with what the used transmit descriptors hold.
-/

namespace KvmHost

open ByteStore

theorem Tap.read_eq (tap : Tap) (ram : Ram) {buf size : Nat} (h : buf + size ≤ ramSize) :
    tap.read ram (some buf) size =
      .ok (match tap.returns size with
        | none => (none, ram, { tap with reads := tap.reads + 1 })
        | some bs =>
          (some bs.length, { ram with bytes := patch ram.bytes buf bs },
            { tap with reads := tap.reads + 1 })) := by
  have hsize : ¬ ssizeMax < size := by
    unfold ssizeMax
    unfold ramSize at h
    omega
  unfold Tap.read Tap.returns
  cases tap.frames tap.reads with
  | none => rfl
  | some frame =>
    simp only [if_neg hsize]
    have hw : buf + (frame.take size).length ≤ ramSize := by
      rw [List.length_take]
      omega
    simp only [Ram.write_ok hw]
    rfl

theorem Tap.writev_eq (tap : Tap) (ram : Ram) {buf len : Nat} (h : buf + len ≤ ramSize) :
    tap.writev ram (some buf) len =
      .ok (if tap.accepts tap.writes then
          (some len, { tap with writes := tap.writes + 1, sent := tap.sent ++ [slice ram.bytes buf
            len] })
        else (none, { tap with writes := tap.writes + 1 })) := by
  unfold Tap.writev
  cases tap.accepts tap.writes with
  | false => rfl
  | true =>
    simp only [if_true, Ram.read_ok h, ok_bind, slice_length]
    rfl

/-! ## Buffers -/

/-- The descriptor at `a` names a buffer of at least `least` bytes, in guest memory and clear of the
ring. -/
structure BufferOk (ram : Ram) (ring n least a : Nat) : Prop where
  above : ram.base ≤ (descAt ram.bytes a).addr
  inRam : ram.bufAt a + (descAt ram.bytes a).len ≤ ramSize
  least : least ≤ (descAt ram.bytes a).len
  offRing : Span.Apart ⟨ram.bufAt a, (descAt ram.bytes a).len⟩ ⟨ring, 16 * n⟩

/-- What the driver owes at a call: the ring is in guest memory, and the descriptor under the cursor
names a buffer if it is available. -/
structure Posted (dev : VirtioNetDev) (ring n least : Nat) : Prop where
  ringOf : RingOf dev.vq ring n
  buffer : ∀ a d₁, dev.getAvail = .ok (some a, d₁) → BufferOk dev.ram ring n least a

section Calls

variable {dev dev' d₁ : VirtioNetDev} {ring n least a : Nat}

theorem getAvail_same (hget : dev.getAvail = .ok (some a, d₁)) :
    d₁.ram = dev.ram ∧ d₁.backend = dev.backend ∧ d₁.trace = dev.trace ++ [.take a] ∧
      d₁.vq.guestEvent = dev.vq.guestEvent := by
  have hmoved := VqDev.getAvail_moved hget
  rcases VqDev.getAvail_inv hget with ⟨hp, -⟩ | ⟨b, vq, hp, -, rfl⟩
  · cases hp
  · cases hp
    exact ⟨rfl, rfl, rfl, hmoved.guestEvent⟩

theorem disableGuestEvent_backend (h : disableGuestEvent dev = .ok dev') :
    dev'.backend = dev.backend := by
  obtain ⟨ram, -, h⟩ := bind_eq_ok.mp h
  cases h
  rfl

/-- A ring descriptor is clear of the buffer. -/
theorem BufferOk.slot {ram : Ram} (h : BufferOk ram ring n least a) {i : Nat} (hi : i < n)
    (ha : a = ring + 16 * i) : Span.Apart ⟨ram.bufAt a, (descAt ram.bytes a).len⟩ ⟨a, 16⟩ := by
  have hring := h.offRing
  subst ha
  simp only [Span.Apart] at hring ⊢
  omega

/-- Guest memory after a receive call that completes with the bytes `bs`. -/
def rxMem (m : Store) (a buf : Nat) (bs : List UInt8) : Store :=
  let m := patch m buf (virtioNetHdr ++ bs)
  let m := putLE m (a + 8) 4 (virtioHeaderLen + bs.length)
  putLE m (a + 14) 2 ((descAt m a).flags ^^^ 2 ^ vringPackedDescFUsed)

theorem rxMem_desc {m : Store} {buf : Nat} {bs : List UInt8}
    (hlen : virtioHeaderLen + bs.length < 2 ^ 32)
    (h : Span.Apart ⟨a, 16⟩ ⟨buf, virtioHeaderLen + bs.length⟩) :
    (descAt (rxMem m a buf bs) a).addr = (descAt m a).addr ∧
      (descAt (rxMem m a buf bs) a).len = virtioHeaderLen + bs.length := by
  have hpatch : descAt (patch m buf (virtioNetHdr ++ bs)) a = descAt m a := by
    refine descAt_patch_apart ?_
    rw [List.length_append]
    exact h
  unfold rxMem
  rw [descAt_xorUsed, descAt_putLen, hpatch]
  exact ⟨rfl, Nat.mod_eq_of_lt hlen⟩

theorem rxMem_buffer {m : Store} {buf : Nat} {bs : List UInt8}
    (h : Span.Apart ⟨buf, virtioHeaderLen + bs.length⟩ ⟨a, 16⟩) :
    slice (rxMem m a buf bs) buf (virtioHeaderLen + bs.length) = virtioNetHdr ++ bs := by
  have hlen : (virtioNetHdr ++ bs).length = virtioHeaderLen + bs.length := by
    rw [List.length_append]
    rfl
  simp only [Span.Apart] at h
  unfold rxMem putLE
  rw [slice_patch_apart (by simp only [Span.Apart, toLE_length]; omega),
    slice_patch_apart (by simp only [Span.Apart, toLE_length]; omega), ← hlen]
  exact slice_patch_same _ _ _

/-! ## One receive call -/

/-- The device after a receive call that read `bs` into the buffer of `a`. -/
def rxDone (dev d₁ : VirtioNetDev) (a : Nat) (bs : List UInt8) : VirtioNetDev :=
  { vq := d₁.vq
    ram := { dev.ram with bytes := rxMem dev.ram.bytes a (dev.ram.bufAt a) bs }
    isrStatus := d₁.isrStatus ||| virtioPciIsrQueue
    backend := { dev.backend with reads := dev.backend.reads + 1 }
    trace := dev.trace ++ [.take a, .used a] }

/-- The device when the read fails, before `guest_event` is written. -/
def rxFailed (dev d₁ : VirtioNetDev) (a : Nat) : VirtioNetDev :=
  { d₁ with
    ram := { dev.ram with bytes := patch dev.ram.bytes (dev.ram.bufAt a) virtioNetHdr }
    backend := { dev.backend with reads := dev.backend.reads + 1 } }

theorem rx_taken (hp : Posted dev ring n virtioHeaderLen) (hget : dev.getAvail = .ok (some a, d₁)) :
    virtioNetCompleteRequestRx dev =
      match dev.backend.returns ((descAt dev.ram.bytes a).len - virtioHeaderLen) with
      | none => disableGuestEvent (rxFailed dev d₁ a)
      | some bs => .ok (rxDone dev d₁ a bs) := by
  have hb := hp.buffer a d₁ hget
  obtain ⟨ha, -⟩ := VqDev.getAvail_slot hp.ringOf hget
  have hslot : a + 16 ≤ ramSize := by rw [ha]; exact hp.ringOf.slot_le hp.ringOf.idx
  have hoff := hb.slot hp.ringOf.idx ha
  obtain ⟨hram, hback, htr, -⟩ := getAvail_same hget
  have hlen := (descAt_fits dev.ram.bytes a).len
  have hleast := hb.least
  have hin := hb.inRam
  have hptr : vmGuestToHost dev.ram (descAt dev.ram.bytes a).addr = some (dev.ram.bufAt a) :=
    vmGuestToHost_eq hb.above
  have hplus : ∀ k ≤ 12, Ptr.plus (some (dev.ram.bufAt a)) k = some (dev.ram.bufAt a + k) := by
    intro k hk
    exact plus_ram (by unfold virtioHeaderLen at hleast; omega)
  have hzero : dev.ram.bufAt a + (List.replicate virtioHeaderLen (0 : UInt8)).length ≤ ramSize := by
    rw [List.length_replicate]
    omega
  have hnum : dev.ram.bufAt a + 10 + 2 ≤ ramSize := by
    simp only [virtioHeaderLen] at hleast
    omega
  have hdesc : descAt (patch dev.ram.bytes (dev.ram.bufAt a) virtioNetHdr) a =
      descAt dev.ram.bytes a := by
    have hlen : virtioNetHdr.length = 12 := rfl
    refine descAt_patch_apart ?_
    simp only [Span.Apart, virtioHeaderLen, hlen] at hoff hleast ⊢
    omega
  have hsize : sizeSub (descAt dev.ram.bytes a).len virtioHeaderLen =
      (descAt dev.ram.bytes a).len - virtioHeaderLen := sizeSub_eq hleast (by omega)
  unfold virtioNetCompleteRequestRx
  simp only [hget, ok_bind, Option.isNone_some, Bool.false_eq_true, if_false, hram,
    descAddr_ok hslot, hptr, Ram.write_ok hzero, hplus 10 (by omega), Ram.store_ok hnum,
    header_written, descLen_ok hslot, hdesc, hsize, hback, hplus virtioHeaderLen (by decide)]
  rw [Tap.read_eq _ _ (by simp only [virtioHeaderLen] at hleast ⊢; omega), ok_bind]
  cases hret : dev.backend.returns ((descAt dev.ram.bytes a).len - virtioHeaderLen) with
  | none =>
    simp only [rxFailed]
  | some bs =>
    have hjoin : patch (patch dev.ram.bytes (dev.ram.bufAt a) virtioNetHdr)
        (dev.ram.bufAt a + virtioHeaderLen) bs =
        patch dev.ram.bytes (dev.ram.bufAt a) (virtioNetHdr ++ bs) := (patch_append _ _ _ _).symm
    simp only [hjoin, setDescLen_ok hslot, ok_bind, VqDev.markUsed, xorDescUsed_ok hslot, htr,
      rxDone, rxMem, List.append_assoc]
    rfl

theorem rx_null (hget : dev.getAvail = .ok (none, dev)) :
    virtioNetCompleteRequestRx dev = disableGuestEvent dev := by
  unfold virtioNetCompleteRequestRx
  rw [hget]
  rfl

/-! ## One transmit call -/

/-- The device after a transmit call that sent the buffer of `a`. -/
def txDone (dev d₁ : VirtioNetDev) (a : Nat) : VirtioNetDev :=
  { vq := d₁.vq
    ram :=
      { dev.ram with
        bytes := putLE dev.ram.bytes (a + 14) 2
          ((descAt dev.ram.bytes a).flags ^^^ 2 ^ vringPackedDescFUsed) }
    isrStatus := d₁.isrStatus ||| virtioPciIsrQueue
    backend :=
      { dev.backend with
        writes := dev.backend.writes + 1
        sent := dev.backend.sent ++ [slice dev.ram.bytes (dev.ram.bufAt a + virtioHeaderLen)
          ((descAt dev.ram.bytes a).len - virtioHeaderLen)] }
    trace := dev.trace ++ [.take a, .used a] }

theorem tx_taken (hp : Posted dev ring n least) (hget : dev.getAvail = .ok (some a, d₁)) :
    virtioNetCompleteRequestTx dev =
      if (descAt dev.ram.bytes a).len < virtioHeaderLen then disableGuestEvent d₁
      else if dev.backend.accepts dev.backend.writes then .ok (txDone dev d₁ a)
      else disableGuestEvent
        { d₁ with backend := { dev.backend with writes := dev.backend.writes + 1 } } := by
  have hb := hp.buffer a d₁ hget
  obtain ⟨ha, -⟩ := VqDev.getAvail_slot hp.ringOf hget
  have hslot : a + 16 ≤ ramSize := by rw [ha]; exact hp.ringOf.slot_le hp.ringOf.idx
  obtain ⟨hram, hback, htr, -⟩ := getAvail_same hget
  have hlen := (descAt_fits dev.ram.bytes a).len
  have hin := hb.inRam
  have hptr : vmGuestToHost dev.ram (descAt dev.ram.bytes a).addr = some (dev.ram.bufAt a) :=
    vmGuestToHost_eq hb.above
  unfold virtioNetCompleteRequestTx
  simp only [hget, ok_bind, Option.isNone_some, Bool.false_eq_true, if_false, hram,
    descAddr_ok hslot, hptr, descLen_ok hslot]
  by_cases hshort : (descAt dev.ram.bytes a).len < virtioHeaderLen
  · rw [if_pos hshort, if_pos hshort]
  · have hplus : Ptr.plus (some (dev.ram.bufAt a)) virtioHeaderLen =
        some (dev.ram.bufAt a + virtioHeaderLen) :=
      plus_ram (by omega)
    have hsize : sizeSub (descAt dev.ram.bytes a).len virtioHeaderLen =
        (descAt dev.ram.bytes a).len - virtioHeaderLen := sizeSub_eq (by omega) (by omega)
    rw [if_neg hshort, if_neg hshort, hplus, hsize, hback, Tap.writev_eq _ _ (by omega), ok_bind]
    by_cases hacc : dev.backend.accepts dev.backend.writes = true
    · simp only [if_pos hacc, VqDev.markUsed, xorDescUsed_ok hslot, ok_bind, htr, txDone,
        List.append_assoc]
      rfl
    · simp only [if_neg hacc]

theorem tx_null (hget : dev.getAvail = .ok (none, dev)) :
    virtioNetCompleteRequestTx dev = disableGuestEvent dev := by
  unfold virtioNetCompleteRequestTx
  rw [hget]
  rfl

theorem disableGuestEvent_ok {g : Nat} (hg : dev.vq.guestEvent = some g) (hin : g + 4 ≤ ramSize) :
    ∃ dev', disableGuestEvent dev = .ok dev' := by
  have hplus : Ptr.plus (some g) 2 = some (g + 2) := plus_ram (by omega)
  unfold disableGuestEvent
  rw [hg, hplus, Ram.store_ok (by omega)]
  exact ⟨_, rfl⟩

end Calls

/-! ## Runs -/

inductive NetQueue where
  | rx
  | tx
deriving DecidableEq

namespace NetQueue

def call : NetQueue → VirtioNetDev → Except Stop VirtioNetDev
  | rx => virtioNetCompleteRequestRx
  | tx => virtioNetCompleteRequestTx

/-- The shortest buffer the driver posts. -/
def least : NetQueue → Nat
  | rx => virtioHeaderLen
  | tx => 0

end NetQueue

/-- Two queues with the guest memory and the tap they share. -/
structure NetSys where
  vq : NetQueue → Virtq
  ram : Ram
  isrStatus : Nat
  tap : Tap
  trace : NetQueue → List RingEvent

namespace NetSys

def dev (s : NetSys) (q : NetQueue) : VirtioNetDev := ⟨s.vq q, s.ram, s.isrStatus, s.tap, s.trace q⟩

def put (s : NetSys) (q : NetQueue) (d : VirtioNetDev) : NetSys where
  vq := Function.update s.vq q d.vq
  ram := d.ram
  isrStatus := d.isrStatus
  tap := d.backend
  trace := Function.update s.trace q d.trace

/-- What queue `q` works on when guest memory is `m`. -/
def devWith (s : NetSys) (q : NetQueue) (m : Store) : VirtioNetDev :=
  { s.dev q with ram := { s.ram with bytes := m } }

end NetSys

/-- A call that returned. -/
structure NetCall where
  queue : NetQueue
  pre : VirtioNetDev
  post : VirtioNetDev

namespace NetCall

def events (c : NetCall) : List RingEvent := c.post.trace.drop c.pre.trace.length

-- the descriptors that `virtq_get_avail` returned
def taken (c : NetCall) : List Nat :=
  c.events.filterMap fun
    | .take a => some a
    | _ => none

-- the descriptors marked used
def used (c : NetCall) : List Nat :=
  c.events.filterMap fun
    | .used a => some a
    | _ => none

/-- What a receive call got from the tap for the descriptor it took. -/
def received (c : NetCall) : List (List UInt8) :=
  match c.queue with
  | .rx => c.taken.filterMap fun a =>
      c.pre.backend.returns ((descAt c.pre.ram.bytes a).len - virtioHeaderLen)
  | .tx => []

-- the tap reads that a call issues
def issued (c : NetCall) : Nat := if c.queue = .rx then c.taken.length else 0

/-- The frames of the successful reads among them. -/
def arrived (c : NetCall) : List (List UInt8) :=
  (List.range' c.pre.backend.reads c.issued).filterMap c.pre.backend.frames

/-- Buffer and `len` of the receive descriptors marked used. -/
def rxUsed (c : NetCall) : List (List UInt8 × Nat) :=
  match c.queue with
  | .rx => c.used.map fun a =>
      (slice c.post.ram.bytes (c.post.ram.bufAt a) (descAt c.post.ram.bytes a).len,
        (descAt c.post.ram.bytes a).len)
  | .tx => []

/-- The transmit descriptors marked used, without their headers. -/
def txUsed (c : NetCall) : List (List UInt8) :=
  match c.queue with
  | .rx => []
  | .tx => c.used.map fun a =>
      slice c.post.ram.bytes (c.post.ram.bufAt a + virtioHeaderLen)
        ((descAt c.post.ram.bytes a).len - virtioHeaderLen)

end NetCall

inductive NetRun : NetSys → List NetCall → NetSys → Prop where
  | done {s : NetSys} : NetRun s [] s
  | call {s s' : NetSys} {q : NetQueue} {m : Store} {ring n : Nat} {post : VirtioNetDev}
      {cs : List NetCall} :
      Posted (s.devWith q m) ring n q.least → q.call (s.devWith q m) = .ok post →
      NetRun (s.put q post) cs s' → NetRun s (⟨q, s.devWith q m, post⟩ :: cs) s'

/-- What one call does, in the terms of the run. -/
structure NetCall.Spec (c : NetCall) : Prop where
  rx : c.rxUsed = c.received.map fun bs => (virtioNetHdr ++ bs, virtioHeaderLen + bs.length)
  fits : c.queue = .rx → ∀ a ∈ c.used,
    (descAt c.post.ram.bytes a).len ≤ (descAt c.pre.ram.bytes a).len
  reads : c.post.backend.reads = c.pre.backend.reads + c.issued
  once : c.taken.length ≤ 1
  frames : c.post.backend.frames = c.pre.backend.frames
  null : c.pre.getAvail = .ok (none, c.pre) → c.taken = []
  tx : c.post.backend.sent = c.pre.backend.sent ++ c.txUsed

/-- A call that takes one descriptor at most receives what arrives, cut to the buffer. -/
theorem NetCall.received_arrived {c : NetCall} (h : c.taken.length ≤ 1) :
    List.Forall₂ (· <+: ·) c.received c.arrived := by
  obtain ⟨q, pre, post⟩ := c
  cases q with
  | tx => exact .nil
  | rx =>
    unfold received arrived issued
    cases htaken : taken ⟨.rx, pre, post⟩ with
    | nil => exact .nil
    | cons a as =>
      rw [htaken] at h
      obtain rfl : as = [] := List.length_eq_zero_iff.mp (by simpa using h)
      have hsize : (descAt pre.ram.bytes a).len - virtioHeaderLen ≤ ssizeMax := by
        have := (descAt_fits pre.ram.bytes a).len
        unfold ssizeMax
        omega
      simp only [Tap.returns_eq _ hsize, List.length_singleton, if_true, List.range'_one,
        List.filterMap_cons, List.filterMap_nil]
      cases pre.backend.frames pre.backend.reads with
      | none => exact .nil
      | some frame => exact .cons (List.take_prefix _ _) .nil

section Spec

variable {dev dev' : VirtioNetDev} {ring n : Nat}

theorem events_eq {q : NetQueue} {ev : List RingEvent} (h : dev'.trace = dev.trace ++ ev) :
    NetCall.events ⟨q, dev, dev'⟩ = ev := by
  unfold NetCall.events
  rw [h, List.drop_left]

/-- A call that marked nothing used. -/
theorem spec_unused {q : NetQueue} (as : List Nat) (hev : dev'.trace = dev.trace ++ as.map .take)
    (hrec : q = .rx → ∀ a ∈ as, dev.backend.returns
      ((descAt dev.ram.bytes a).len - virtioHeaderLen) = none)
    (hreads : dev'.backend.reads = dev.backend.reads + if q = .rx then as.length else 0)
    (hone : as.length ≤ 1) (hframes : dev'.backend.frames = dev.backend.frames)
    (hsent : dev'.backend.sent = dev.backend.sent)
    (hnull : dev.getAvail = .ok (none, dev) → as = []) : NetCall.Spec ⟨q, dev, dev'⟩ := by
  have htaken : NetCall.taken ⟨q, dev, dev'⟩ = as := by
    unfold NetCall.taken
    rw [events_eq hev, List.filterMap_map]
    exact List.filterMap_some
  have hused : NetCall.used ⟨q, dev, dev'⟩ = [] := by
    unfold NetCall.used
    rw [events_eq hev, List.filterMap_map]
    simp
  have hissued : dev'.backend.reads = dev.backend.reads + NetCall.issued ⟨q, dev, dev'⟩ := by
    unfold NetCall.issued
    rw [htaken]
    exact hreads
  have hsent' : dev'.backend.sent = dev.backend.sent ++ NetCall.txUsed ⟨q, dev, dev'⟩ := by
    have hnone : NetCall.txUsed ⟨q, dev, dev'⟩ = [] := by
      cases q with
      | rx => rfl
      | tx => simp [NetCall.txUsed, hused]
    rw [hnone, List.append_nil]
    exact hsent
  refine ⟨?_, ?_, hissued, by rw [htaken]; exact hone, hframes, by rw [htaken]; exact hnull, hsent'⟩
  · cases q with
    | tx => rfl
    | rx =>
      have hreceived : NetCall.received ⟨.rx, dev, dev'⟩ = [] := by
        simp only [NetCall.received, htaken]
        exact List.filterMap_eq_nil_iff.mpr (hrec rfl)
      simp [NetCall.rxUsed, hused, hreceived]
  · intro _ a ha
    rw [hused] at ha
    cases ha

/-- The events of a call that took a descriptor and marked it used. -/
theorem completed_events {q : NetQueue} {a : Nat}
    (h : dev'.trace = dev.trace ++ [.take a, .used a]) :
    NetCall.taken ⟨q, dev, dev'⟩ = [a] ∧ NetCall.used ⟨q, dev, dev'⟩ = [a] := by
  unfold NetCall.taken NetCall.used
  rw [events_eq h]
  exact ⟨rfl, rfl⟩

theorem getAvail_ne_null {d₁ : VirtioNetDev} {a : Nat} (h : dev.getAvail = .ok (some a, d₁)) :
    dev.getAvail ≠ .ok (none, dev) := by
  rw [h]
  intro he
  cases he

theorem getAvail_cases (h : RingOf dev.vq ring n) :
    dev.getAvail = .ok (none, dev) ∨ ∃ a d₁, dev.getAvail = .ok (some a, d₁) := by
  rw [VqDev.getAvail_eq h]
  split
  · exact .inr ⟨_, _, rfl⟩
  · exact .inl rfl

/-- A call that found no descriptor. -/
theorem spec_null {q : NetQueue} (h : disableGuestEvent dev = .ok dev') :
    NetCall.Spec ⟨q, dev, dev'⟩ := by
  have hback := disableGuestEvent_backend h
  refine spec_unused [] ?_ ?_ ?_ (Nat.zero_le 1) (by rw [hback]) (by rw [hback]) fun _ => rfl
  · rw [(disableGuestEvent_inv h).2, List.map_nil, List.append_nil]
  · intro _ a ha
    cases ha
  · rw [hback]
    split <;> rfl

section Taken

variable {d₁ : VirtioNetDev} {a : Nat}

/-- A call that took a descriptor and gave up. -/
theorem spec_failed {q : NetQueue} {d₂ : VirtioNetDev} (hget : dev.getAvail = .ok (some a, d₁))
    (h : disableGuestEvent d₂ = .ok dev') (htrace : d₂.trace = d₁.trace)
    (hrec : q = .rx → dev.backend.returns ((descAt dev.ram.bytes a).len - virtioHeaderLen) = none)
    (hreads : d₂.backend.reads = dev.backend.reads + if q = .rx then 1 else 0)
    (hframes : d₂.backend.frames = dev.backend.frames)
    (hsent : d₂.backend.sent = dev.backend.sent) :
    NetCall.Spec ⟨q, dev, dev'⟩ := by
  have hback := disableGuestEvent_backend h
  obtain ⟨-, -, htr, -⟩ := getAvail_same hget
  refine spec_unused [a] ?_ ?_ ?_ (Nat.le_refl 1) ?_ ?_ fun he => absurd he (getAvail_ne_null hget)
  · rw [(disableGuestEvent_inv h).2, htrace]
    exact htr
  · intro hq b hb
    rw [List.mem_singleton.mp hb]
    exact hrec hq
  · rw [hback]
    exact hreads
  · rw [hback]
    exact hframes
  · rw [hback]
    exact hsent

theorem rxDone_spec {bs : List UInt8} (hp : Posted dev ring n virtioHeaderLen)
    (hget : dev.getAvail = .ok (some a, d₁))
    (hret : dev.backend.returns ((descAt dev.ram.bytes a).len - virtioHeaderLen) = some bs) :
    NetCall.Spec ⟨.rx, dev, rxDone dev d₁ a bs⟩ := by
  have hb := hp.buffer a d₁ hget
  have hoff := hb.slot hp.ringOf.idx (VqDev.getAvail_slot hp.ringOf hget).1
  have hleast := hb.least
  have hbs := Tap.returns_length hret
  have hfits := (descAt_fits dev.ram.bytes a).len
  have hapart : Span.Apart ⟨dev.ram.bufAt a, virtioHeaderLen + bs.length⟩ ⟨a, 16⟩ := by
    simp only [Span.Apart] at hoff ⊢
    omega
  obtain ⟨haddr, hlen⟩ :=
    rxMem_desc (m := dev.ram.bytes) (show virtioHeaderLen + bs.length < 2 ^ 32 by omega)
    hapart.symm
  have hbuf : (rxDone dev d₁ a bs).ram.bufAt a = dev.ram.bufAt a :=
    congrArg (· - dev.ram.base) haddr
  have hlen' : (descAt (rxDone dev d₁ a bs).ram.bytes a).len = virtioHeaderLen + bs.length := hlen
  have hslice : slice (rxDone dev d₁ a bs).ram.bytes (dev.ram.bufAt a)
      (virtioHeaderLen + bs.length) =
      virtioNetHdr ++ bs := rxMem_buffer hapart
  obtain ⟨htaken, hused⟩ : NetCall.taken ⟨.rx, dev, rxDone dev d₁ a bs⟩ = [a] ∧ _ :=
    completed_events rfl
  refine ⟨?_, ?_, ?_, by
    rw [htaken]; exact Nat.le_refl 1, rfl, fun he => absurd he (getAvail_ne_null hget), ?_⟩
  · simp only [NetCall.rxUsed, NetCall.received, hused, htaken, List.map_cons, List.map_nil, hbuf,
      hlen', hslice, List.filterMap_cons, hret, List.filterMap_nil]
  · intro _ b hb
    rw [hused] at hb
    rw [List.mem_singleton.mp hb]
    refine Nat.le_trans (Nat.le_of_eq hlen) ?_
    simp only
    omega
  · unfold NetCall.issued
    rw [htaken]
    rfl
  · exact (List.append_nil _).symm

theorem txDone_spec (hp : Posted dev ring n 0) (hget : dev.getAvail = .ok (some a, d₁)) :
    NetCall.Spec ⟨.tx, dev, txDone dev d₁ a⟩ := by
  have hoff := (hp.buffer a d₁ hget).slot hp.ringOf.idx (VqDev.getAvail_slot hp.ringOf hget).1
  obtain ⟨htaken, hused⟩ : NetCall.taken ⟨.tx, dev, txDone dev d₁ a⟩ = [a] ∧ _ :=
    completed_events rfl
  have hdesc := descAt_xorUsed dev.ram.bytes a
  have haddr : (txDone dev d₁ a).ram.bufAt a = dev.ram.bufAt a := by
    simp only [Ram.bufAt, txDone, hdesc]
  have hlen : (descAt (txDone dev d₁ a).ram.bytes a).len = (descAt dev.ram.bytes a).len := by
    simp only [txDone, hdesc]
  refine ⟨rfl, ?_, rfl, by
    rw [htaken]; exact Nat.le_refl 1, rfl, fun he => absurd he (getAvail_ne_null hget), ?_⟩
  · intro he
    cases he
  · simp only [NetCall.txUsed, hused, List.map_cons, List.map_nil, haddr, hlen]
    refine congrArg (fun bs => dev.backend.sent ++ [bs]) (slice_patch_apart ?_).symm
    simp only [Span.Apart, toLE_length] at hoff ⊢
    omega

end Taken

theorem rx_spec (hp : Posted dev ring n virtioHeaderLen)
    (h : virtioNetCompleteRequestRx dev = .ok dev') :
    NetCall.Spec ⟨.rx, dev, dev'⟩ := by
  rcases getAvail_cases hp.ringOf with hget | ⟨a, d₁, hget⟩
  · rw [rx_null hget] at h
    exact spec_null h
  · rw [rx_taken hp hget] at h
    cases hret : dev.backend.returns ((descAt dev.ram.bytes a).len - virtioHeaderLen) with
    | none =>
      rw [hret] at h
      exact spec_failed hget h rfl (fun _ => hret) rfl rfl rfl
    | some bs =>
      rw [hret] at h
      cases h
      exact rxDone_spec hp hget hret

theorem tx_spec (hp : Posted dev ring n 0) (h : virtioNetCompleteRequestTx dev = .ok dev') :
    NetCall.Spec ⟨.tx, dev, dev'⟩ := by
  rcases getAvail_cases hp.ringOf with hget | ⟨a, d₁, hget⟩
  · rw [tx_null hget] at h
    exact spec_null h
  · have hq : NetQueue.tx ≠ .rx := by decide
    rw [tx_taken hp hget] at h
    split at h
    · obtain ⟨-, hback, -⟩ := getAvail_same hget
      exact spec_failed hget h rfl (fun he => absurd he hq) (by rw [hback]; rfl) (by rw [hback])
        (by rw [hback])
    · split at h
      · cases h
        exact txDone_spec hp hget
      · exact spec_failed hget h rfl (fun he => absurd he hq) rfl rfl rfl

theorem call_spec {q : NetQueue} (hp : Posted dev ring n q.least) (h : q.call dev = .ok dev') :
    NetCall.Spec ⟨q, dev, dev'⟩ := by
  cases q with
  | rx => exact rx_spec hp h
  | tx => exact tx_spec hp h

/-- A call returns if `guest_event` is in guest memory too. -/
theorem call_returns {q : NetQueue} {g : Nat} (hp : Posted dev ring n q.least)
    (hg : dev.vq.guestEvent = some g) (hin : g + 4 ≤ ramSize) : ∃ dev', q.call dev = .ok dev' := by
  rcases getAvail_cases hp.ringOf with hget | ⟨a, d₁, hget⟩
  · cases q with
    | rx => rw [NetQueue.call, rx_null hget]; exact disableGuestEvent_ok hg hin
    | tx => rw [NetQueue.call, tx_null hget]; exact disableGuestEvent_ok hg hin
  · obtain ⟨-, -, -, hevent⟩ := getAvail_same hget
    have hg₁ : d₁.vq.guestEvent = some g := hevent.trans hg
    cases q with
    | rx =>
      rw [NetQueue.call, rx_taken hp hget]
      split
      · exact disableGuestEvent_ok hg₁ hin
      · exact ⟨_, rfl⟩
    | tx =>
      rw [NetQueue.call, tx_taken hp hget]
      split
      · exact disableGuestEvent_ok hg₁ hin
      · split
        · exact ⟨_, rfl⟩
        · exact disableGuestEvent_ok hg₁ hin

end Spec

section Run

variable {s s' : NetSys} {cs : List NetCall}

theorem net_calls_spec (h : NetRun s cs s') : ∀ c ∈ cs, c.Spec := by
  induction h with
  | done => simp
  | call hp hcall _ ih => exact List.forall_mem_cons.mpr ⟨call_spec hp hcall, ih⟩

/-- Every read of the tap has its call. -/
theorem net_reads_run (h : NetRun s cs s') :
    s.tap.reads ≤ s'.tap.reads ∧
      List.Forall₂ (· <+: ·) (cs.flatMap NetCall.received)
        ((List.range' s.tap.reads (s'.tap.reads - s.tap.reads)).filterMap s.tap.frames) := by
  induction h with
  | done => simp
  | @call s s' q m ring n post cs hp hcall _ ih =>
    have hspec := call_spec hp hcall
    have hone : post.backend.reads = s.tap.reads + NetCall.issued ⟨q, s.devWith q m, post⟩ :=
      hspec.reads
    have hframes : post.backend.frames = s.tap.frames := hspec.frames
    obtain ⟨hle, hrest⟩ := ih
    change post.backend.reads ≤ s'.tap.reads at hle
    change List.Forall₂ _ _ ((List.range' post.backend.reads
      (s'.tap.reads - post.backend.reads)).filterMap post.backend.frames) at hrest
    refine ⟨by omega, ?_⟩
    have hsplit : List.range' s.tap.reads (s'.tap.reads - s.tap.reads) =
        List.range' s.tap.reads (NetCall.issued ⟨q, s.devWith q m, post⟩) ++
          List.range' post.backend.reads (s'.tap.reads - post.backend.reads) := by
      rw [hone, List.range'_append_1]
      congr 1
      omega
    rw [List.flatMap_cons, hsplit, List.filterMap_append, ← hframes]
    refine List.rel_append ?_ hrest
    rw [hframes]
    exact NetCall.received_arrived hspec.once

theorem net_sent_run (h : NetRun s cs s') :
    s'.tap.sent = s.tap.sent ++ cs.flatMap NetCall.txUsed := by
  induction h with
  | done => exact (List.append_nil _).symm
  | @call s s' q m ring n post cs hp hcall _ ih =>
    have hone : post.backend.sent = s.tap.sent ++ NetCall.txUsed ⟨q, s.devWith q m, post⟩ :=
      (call_spec hp hcall).tx
    rw [List.flatMap_cons, ← List.append_assoc, ← hone]
    exact ih

end Run

/-- **Frames and used descriptors correspond.** The receive descriptors marked used, in order, hold
a header and what the successful tap reads returned, in order, and their `len` says so; these are
all the reads issued, and a call that finds no descriptor issues none; the frames sent are, in
order, the transmit descriptors marked used, without their headers. After any run a call on a posted
buffer returns, `guest_event` being in guest memory. -/
theorem net_frames_run {s s' : NetSys} {cs : List NetCall} (h : NetRun s cs s') :
    cs.flatMap NetCall.rxUsed =
        (cs.flatMap NetCall.received).map
          (fun bs => (virtioNetHdr ++ bs, virtioHeaderLen + bs.length)) ∧
      (∀ c ∈ cs, c.queue = .rx → ∀ a ∈ c.used,
        (descAt c.post.ram.bytes a).len ≤ (descAt c.pre.ram.bytes a).len) ∧
      List.Forall₂ (· <+: ·) (cs.flatMap NetCall.received)
        ((List.range' s.tap.reads (s'.tap.reads - s.tap.reads)).filterMap s.tap.frames) ∧
      (∀ c ∈ cs, c.post.backend.reads = c.pre.backend.reads + c.issued ∧
        (c.pre.getAvail = .ok (none, c.pre) → c.taken = [])) ∧
      s'.tap.sent = s.tap.sent ++ cs.flatMap NetCall.txUsed ∧
      ∀ (q : NetQueue) (m : Store) (ring n g : Nat), Posted (s'.devWith q m) ring n q.least →
        (s'.vq q).guestEvent = some g → g + 4 ≤ ramSize →
          ∃ post, q.call (s'.devWith q m) = .ok post := by
  have hreads := net_reads_run h
  have hreturns : ∀ (q : NetQueue) (m : Store) (ring n g : Nat),
      Posted (s'.devWith q m) ring n q.least →
      (s'.vq q).guestEvent = some g → g + 4 ≤ ramSize →
        ∃ post, q.call (s'.devWith q m) = .ok post := by
    intro q m ring n g hp hg hin
    exact call_returns hp hg hin
  have hspecs := net_calls_spec h
  refine ⟨?_, fun c hc => (hspecs c hc).fits, hreads.2,
    fun c hc => ⟨(hspecs c hc).reads, (hspecs c hc).null⟩, net_sent_run h, hreturns⟩
  rw [List.map_flatMap]
  exact List.flatMap_congr fun c hc => (hspecs c hc).rx

/-! ## A frame in, a frame out -/

/-- A receive buffer of 64 bytes and a transmit buffer of 26, each in slot 0 of its ring. -/
def echoSys : NetSys where
  vq
    | .rx => ⟨some 0, some 32, some 36, putLE (fun _ => 0) 0 2 2, 0, true⟩
    | .tx => ⟨some 512, some 544, some 548, putLE (fun _ => 0) 0 2 2, 0, true⟩
  ram := ⟨0, putDesc (putDesc (fun _ => 0) 0 ⟨64, 64, 0, 128⟩) 512 ⟨256, 26, 0, 128⟩⟩
  isrStatus := 0
  tap :=
    { frames := fun _ => some shortFrame
      reads := 0
      accepts := fun _ => true
      writes := 0
      sent := [] }
  trace := fun _ => []

/-- The device that a call on queue `q` returns. -/
def NetSys.returned (s : NetSys) (q : NetQueue) : VirtioNetDev :=
  (q.call (s.dev q)).toOption.getD (s.dev q)

theorem NetRun.next {s s' : NetSys} {q : NetQueue} {ring n : Nat} {cs : List NetCall}
    (hp : Posted (s.dev q) ring n q.least) (hok : (q.call (s.dev q)).isOk = true)
    (h : NetRun (s.put q (s.returned q)) cs s') :
    NetRun s (⟨q, s.dev q, s.returned q⟩ :: cs) s' := by
  have hcall : q.call (s.dev q) = .ok (s.returned q) := by
    unfold NetSys.returned
    cases hc : q.call (s.dev q) with
    | error e =>
      rw [hc] at hok
      cases hok
    | ok post => rfl
  exact .call (m := s.ram.bytes) hp hcall h

/-- A call takes no other descriptor than the one under the cursor. -/
theorem posted_of_cursor {dev : VirtioNetDev} {ring n least : Nat} (h : RingOf dev.vq ring n)
    (hb : BufferOk dev.ram ring n least (ring + 16 * dev.vq.nextAvailIdx)) :
    Posted dev ring n least := by
  refine ⟨h, ?_⟩
  intro a d₁ hget
  rw [(VqDev.getAvail_slot h hget).1]
  exact hb

theorem net_frames_run_echo :
    let s₁ := echoSys.put .rx (echoSys.returned .rx)
    let s₂ := s₁.put .tx (s₁.returned .tx)
    let cs : List NetCall :=
      [⟨.rx, echoSys.dev .rx, echoSys.returned .rx⟩, ⟨.tx, s₁.dev .tx, s₁.returned .tx⟩]
    cs.flatMap NetCall.rxUsed = [(virtioNetHdr ++ shortFrame, 26)] ∧
      s₂.tap.sent = [List.replicate 14 0] := by
  intro s₁ s₂ cs
  have hrx : Posted (echoSys.dev .rx) 0 2 virtioHeaderLen :=
    posted_of_cursor ⟨rfl, by decide +kernel, by decide, by decide⟩
      ⟨by decide +kernel, by decide +kernel, by decide +kernel, by decide +kernel⟩
  have htx : Posted (s₁.dev .tx) 512 2 0 :=
    posted_of_cursor ⟨rfl, by decide +kernel, by decide, by decide⟩
      ⟨by decide +kernel, by decide +kernel, by decide +kernel, by decide +kernel⟩
  have hrun : NetRun echoSys cs s₂ :=
    .next hrx (by decide +kernel) (.next htx (by decide +kernel) .done)
  obtain ⟨hused, -, -, -, hsent, -⟩ := net_frames_run hrun
  refine ⟨hused.trans ?_, hsent.trans ?_⟩
  · have : cs.flatMap NetCall.received = [shortFrame] := by decide +kernel
    rw [this]
    rfl
  · decide +kernel

end KvmHost
