import KvmHost.NetFrames

/-!
# KvmHost.NetBuffers

The buffers of the network device, as the driver posts them and as the handlers use them.

A receive call clears the header before it looks at any length, and the size it hands to `read` is
the difference of the descriptor's `len`, read again after that, and the size of the header. Where
that difference is below 0 the count is above any `ssize_t` and the kernel refuses it. `rxWrites`
lists what the call writes, and `rx_within_buffer` says for which descriptors this stays inside the
posted buffer.

A transmit call handles one descriptor and does not look at NEXT. `tx_run` follows the calls over
the descriptors of a buffer, and `tx_chain_frames` says for which buffers they send one frame.
-/

namespace KvmHost

open ByteStore Lap

/-- A copy into guest memory: where it starts and what it stores. -/
structure MemWrite where
  start : Nat
  bytes : List UInt8

namespace MemWrite

def span (w : MemWrite) : Span := ⟨w.start, w.bytes.length⟩

/-- Memory after the writes of a list, in order. -/
def applied (m : Store) (ws : List MemWrite) : Store :=
  ws.foldl (fun m w => patch m w.start w.bytes) m

end MemWrite

/-! ## Receiving -/

/-- The device when the next read of the tap finds `frame`. -/
def VqDev.withFrame (dev : VirtioNetDev) (frame : List UInt8) : VirtioNetDev :=
  { dev with
    backend := { dev.backend with
      frames := Function.update dev.backend.frames dev.backend.reads (some frame) } }

/-- What a receive call reads of a frame. Without room for the header the count is almost 2^64, and
the read fails. -/
def Ram.rxBytes (ram : Ram) (a : Nat) (frame : List UInt8) : Option (List UInt8) :=
  if virtioHeaderLen ≤ ram.lenAfterHeader a then
    some (frame.take (ram.lenAfterHeader a - virtioHeaderLen))
  else none

/-- What a receive call writes for the descriptor at `a`: the header and, when the read returns
`bs`, the bytes of the frame, `len` and `flags`. -/
def rxWrites (ram : Ram) (a : Nat) : Option (List UInt8) → List MemWrite
  | none => [⟨ram.bufAt a, virtioNetHdr⟩]
  | some bs =>
    let m := patch ram.bytes (ram.bufAt a) (virtioNetHdr ++ bs)
    let m := putLE m (a + 8) 4 (virtioHeaderLen + bs.length)
    [⟨ram.bufAt a, virtioNetHdr⟩, ⟨ram.bufAt a + virtioHeaderLen, bs⟩,
      ⟨a + 8, toLE 4 (virtioHeaderLen + bs.length)⟩,
      ⟨a + 14, toLE 2 ((descAt m a).flags ^^^ 2 ^ vringPackedDescFUsed)⟩]

theorem rxWrites_applied (ram : Ram) (a : Nat) (bs : List UInt8) :
    MemWrite.applied ram.bytes (rxWrites ram a (some bs)) =
      rxMem ram.bytes a (ram.bufAt a) bs := by
  have hjoin := patch_append ram.bytes (ram.bufAt a) virtioNetHdr bs
  unfold rxMem
  rw [hjoin]
  simp only [MemWrite.applied, rxWrites, List.foldl_cons, List.foldl_nil, hjoin]
  rfl

section Rx

variable {dev dev' d₁ : VirtioNetDev} {a : Nat}

theorem getAvail_withFrame (hget : dev.getAvail = .ok (some a, d₁)) (frame : List UInt8) :
    (dev.withFrame frame).getAvail = .ok (some a, d₁.withFrame frame) := by
  rcases VqDev.getAvail_inv hget with ⟨hp, -⟩ | ⟨b, vq, hp, hvq, rfl⟩
  · cases hp
  · cases hp
    show virtqGetAvail dev.ram dev.vq >>= _ = _
    rw [hvq]
    rfl

variable (dev a) in
theorem returns_withFrame (frame : List UInt8) :
    (dev.withFrame frame).backend.returns (sizeSub (dev.ram.lenAfterHeader a) virtioHeaderLen) =
      dev.ram.rxBytes a frame := by
  have hfound : (dev.withFrame frame).backend.frames (dev.withFrame frame).backend.reads =
      some frame := by
    simp [VqDev.withFrame]
  have hlt := dev.ram.lenAfterHeader_lt a
  unfold Ram.rxBytes
  by_cases hroom : virtioHeaderLen ≤ dev.ram.lenAfterHeader a
  · rw [if_pos hroom, sizeSub_eq hroom (by omega),
      Tap.returns_eq _ (by unfold ssizeMax; omega), hfound]
    rfl
  · have hnone := (dev.withFrame frame).backend.returns_room hlt
    rw [decide_eq_false hroom, Bool.false_and] at hnone
    rw [if_neg hroom]
    exact Option.not_isSome_iff_eq_none.mp (by rw [hnone]; exact Bool.false_ne_true)

/-- A receive call whose buffer starts below guest memory writes through a null pointer. -/
theorem rx_below (hget : dev.getAvail = .ok (some a, d₁)) (hin : a + 16 ≤ ramSize)
    (hbelow : (descAt dev.ram.bytes a).addr < dev.ram.base) :
    virtioNetCompleteRequestRx dev = .error .null := by
  obtain ⟨hram, -⟩ := getAvail_same hget
  have hptr : vmGuestToHost dev.ram (descAt dev.ram.bytes a).addr = none := if_pos hbelow
  unfold virtioNetCompleteRequestRx
  simp only [hget, ok_bind, Option.isNone_some, Bool.false_eq_true, if_false, hram,
    descAddr_ok hin, hptr]
  rfl

/-- How a receive call that returns leaves guest memory: it has written `rxWrites`, and after a read
that failed the flags in `guest_event` as well. -/
theorem rx_written (hget : dev.getAvail = .ok (some a, d₁)) (hin : a + 16 ≤ ramSize)
    {frame : List UInt8} (h : virtioNetCompleteRequestRx (dev.withFrame frame) = .ok dev') :
    (∀ bs, dev.ram.rxBytes a frame = some bs →
      dev'.ram.bytes = rxMem dev.ram.bytes a (dev.ram.bufAt a) bs ∧
        virtioHeaderLen + bs.length < 2 ^ 32) ∧
    (dev.ram.rxBytes a frame = none → ∃ d₂ : VirtioNetDev,
      d₂.ram.bytes = MemWrite.applied dev.ram.bytes (rxWrites dev.ram a none) ∧
        d₂.trace = d₁.trace ∧ disableGuestEvent d₂ = .ok dev') := by
  have hram : (d₁.withFrame frame).ram = dev.ram := (getAvail_same hget).1
  have hback : (d₁.withFrame frame).backend = (dev.withFrame frame).backend :=
    (getAvail_same (getAvail_withFrame hget frame)).2.1
  obtain ⟨⟨p, d⟩, hget', h⟩ := bind_eq_ok.mp h
  obtain ⟨rfl, rfl⟩ := Prod.mk.inj
    (Except.ok.inj ((getAvail_withFrame hget frame).symm.trans hget'))
  simp only [Option.isNone_some, Bool.false_eq_true, if_false, hram] at h
  obtain ⟨addr, haddr, h⟩ := bind_eq_ok.mp h
  obtain rfl := Except.ok.inj ((descAddr_ok hin).symm.trans haddr)
  obtain ⟨ram₁, hzeros, h⟩ := bind_eq_ok.mp h
  obtain ⟨ram₂, hnum, h⟩ := bind_eq_ok.mp h
  obtain ⟨hptr, hle, rfl⟩ := header_ram hzeros hnum
  obtain ⟨len, hlen, h⟩ := bind_eq_ok.mp h
  obtain rfl := Except.ok.inj ((descLen_ok hin).symm.trans hlen)
  obtain ⟨⟨r, ram₃, tap⟩, hread, h⟩ := bind_eq_ok.mp h
  have hret := returns_withFrame dev a frame
  rw [← hret]
  rw [hback] at hread
  rcases Tap.read_cases hread with ⟨hnone, rfl, rfl⟩ | ⟨bs, hsome, rfl, hwrite⟩
  · have hno : dev.ram.rxBytes a frame = none := hret.symm.trans hnone
    rw [hret, hno]
    refine ⟨fun bs hbs => (by cases hbs), fun _ => ?_⟩
    exact ⟨{ d₁.withFrame frame with
      ram := { dev.ram with bytes := patch dev.ram.bytes (dev.ram.bufAt a) virtioNetHdr }
      backend := tap }, rfl, rfl, h⟩
  · have hyes : dev.ram.rxBytes a frame = some bs := hret.symm.trans hsome
    rw [hret, hyes]
    refine ⟨?_, fun hno => by cases hno⟩
    intro bs' hbs
    cases hbs
    rw [hptr, plus_ram (by omega)] at hwrite
    obtain ⟨rfl, hfit⟩ := Ram.write_inv hwrite
    have hshort : virtioHeaderLen + bs.length < 2 ^ 32 := by
      by_cases hnil : bs = []
      · rw [hnil]
        decide
      · have := hfit hnil
        unfold ramSize at this
        omega
    simp only [setDescLen_ok hin, ok_bind, VqDev.markUsed, xorDescUsed_ok hin] at h
    cases h
    refine ⟨?_, hshort⟩
    unfold rxMem
    rw [patch_append]
    rfl

/-- A transmit call refuses a buffer that has no room for the header. -/
theorem tx_short (hget : dev.getAvail = .ok (some a, d₁)) (hin : a + 16 ≤ ramSize)
    (hshort : (descAt dev.ram.bytes a).len < virtioHeaderLen) :
    virtioNetCompleteRequestTx dev = disableGuestEvent d₁ := by
  obtain ⟨hram, -⟩ := getAvail_same hget
  unfold virtioNetCompleteRequestTx
  simp only [hget, ok_bind, Option.isNone_some, Bool.false_eq_true, if_false, hram,
    descAddr_ok hin, descLen_ok hin, if_pos hshort]

variable (dev a) in
/-- What a receive call owes the buffer posted at `a`, the tap having `frame` for it: the writes are
in the buffer, `len` and `flags` apart, the `len` reported is at most the one posted, and nothing is
written to a buffer that has no room for the header. -/
structure RxWithin (frame : List UInt8) : Prop where
  inside : ∀ w ∈ rxWrites dev.ram a (dev.ram.rxBytes a frame), ∀ p, w.span.Has p →
    Span.Has ⟨dev.ram.bufAt a, (descAt dev.ram.bytes a).len⟩ p ∨
      Span.Has ⟨a + 8, 4⟩ p ∨ Span.Has ⟨a + 14, 2⟩ p
  reported : ∀ bs, dev.ram.rxBytes a frame = some bs →
    virtioHeaderLen + bs.length ≤ (descAt dev.ram.bytes a).len
  refused : (descAt dev.ram.bytes a).len < virtioHeaderLen →
    rxWrites dev.ram a (dev.ram.rxBytes a frame) = []

theorem rxWrites_ne_nil (ram : Ram) (a : Nat) (r : Option (List UInt8)) :
    rxWrites ram a r ≠ [] := by
  cases r with
  | none => exact List.cons_ne_nil _ _
  | some bs => exact List.cons_ne_nil _ _

theorem rxWithin_iff {frame : List UInt8} :
    RxWithin dev a frame ↔ virtioHeaderLen ≤ (descAt dev.ram.bytes a).len ∧
      ∀ bs, dev.ram.rxBytes a frame = some bs →
        virtioHeaderLen + bs.length ≤ (descAt dev.ram.bytes a).len := by
  constructor
  · intro h
    exact ⟨Nat.le_of_not_lt fun hshort => rxWrites_ne_nil _ _ _ (h.refused hshort), h.reported⟩
  · rintro ⟨hroom, hfit⟩
    refine ⟨?_, hfit, fun hshort => by omega⟩
    have hhdr : virtioNetHdr.length = virtioHeaderLen := rfl
    intro w hw p hp
    cases hbytes : dev.ram.rxBytes a frame with
    | none =>
      rw [hbytes, rxWrites, List.mem_singleton] at hw
      subst hw
      simp only [MemWrite.span, Span.Has, hhdr] at hp ⊢
      omega
    | some bs =>
      have hlen := hfit bs hbytes
      simp only [hbytes, rxWrites, List.mem_cons, List.not_mem_nil, or_false] at hw
      rcases hw with rfl | rfl | rfl | rfl
      · simp only [MemWrite.span, Span.Has, hhdr] at hp ⊢
        omega
      · simp only [MemWrite.span, Span.Has] at hp ⊢
        omega
      · simp only [MemWrite.span, toLE_length] at hp
        exact .inr (.inl hp)
      · simp only [MemWrite.span, toLE_length] at hp
        exact .inr (.inr hp)

theorem lenAfterHeader_apart {ram : Ram}
    (h : Span.Apart ⟨a + 8, 4⟩ ⟨ram.bufAt a, virtioHeaderLen⟩) :
    ram.lenAfterHeader a = (descAt ram.bytes a).len :=
  getLE_patch_apart h

/-- What is read of any frame stays within `len` bytes if the longest one does. -/
theorem rxBytes_all_le {ram : Ram} {len : Nat} (hroom : virtioHeaderLen ≤ len) :
    (∀ frame bs, ram.rxBytes a frame = some bs → virtioHeaderLen + bs.length ≤ len) ↔
      ram.lenAfterHeader a ≤ len := by
  unfold Ram.rxBytes
  generalize ram.lenAfterHeader a = posted
  by_cases hle : virtioHeaderLen ≤ posted
  · simp only [if_pos hle, Option.some.injEq, forall_eq']
    constructor
    · intro h
      have hmost := h (List.replicate (posted - virtioHeaderLen) 0)
      rw [List.length_take, List.length_replicate, Nat.min_self] at hmost
      omega
    · intro hposted frame
      rw [List.length_take]
      omega
  · simp only [if_neg hle]
    exact ⟨fun _ => by omega, fun _ frame bs hbs => by cases hbs⟩

end Rx

/-- **Receiving within the buffer.** When a receive call returns, guest memory is as `rxWrites`
leaves it, and `len` is the header and what was read of the frame; if the read failed, the call has
written the flags in `guest_event` after that. For all frames this stays inside the posted buffer,
and within its length, exactly when the buffer has room for the header and the descriptor's `len` is
no more than what was posted once the header is written. Where the header does not lie over `len`,
that is when the buffer has room for the header. The transmit call refuses a shorter buffer, and
writes nothing but the flags in `guest_event`. -/
theorem rx_within_buffer {dev d₁ : VirtioNetDev} {a : Nat}
    (hget : dev.getAvail = .ok (some a, d₁)) (hin : a + 16 ≤ ramSize) :
    (∀ frame dev', virtioNetCompleteRequestRx (dev.withFrame frame) = .ok dev' →
      (∀ bs, dev.ram.rxBytes a frame = some bs →
        dev'.ram.bytes = MemWrite.applied dev.ram.bytes (rxWrites dev.ram a (some bs)) ∧
          (descAt dev'.ram.bytes a).len = virtioHeaderLen + bs.length) ∧
      (dev.ram.rxBytes a frame = none → ∃ d₂ : VirtioNetDev,
        d₂.ram.bytes = MemWrite.applied dev.ram.bytes (rxWrites dev.ram a none) ∧
          d₂.trace = d₁.trace ∧ disableGuestEvent d₂ = .ok dev')) ∧
    (dev.ram.base ≤ (descAt dev.ram.bytes a).addr →
      ((∀ frame, RxWithin dev a frame) ↔
        virtioHeaderLen ≤ (descAt dev.ram.bytes a).len ∧
          dev.ram.lenAfterHeader a ≤ (descAt dev.ram.bytes a).len)) ∧
    ((descAt dev.ram.bytes a).addr < dev.ram.base →
      ∀ frame, virtioNetCompleteRequestRx (dev.withFrame frame) = .error .null) ∧
    (Span.Apart ⟨a + 8, 4⟩ ⟨dev.ram.bufAt a, virtioHeaderLen⟩ →
      dev.ram.lenAfterHeader a = (descAt dev.ram.bytes a).len) ∧
    ((descAt dev.ram.bytes a).len < virtioHeaderLen →
      virtioNetCompleteRequestTx dev = disableGuestEvent d₁) := by
  refine ⟨?_, ?_, ?_, lenAfterHeader_apart, tx_short hget hin⟩
  · intro frame dev' h
    obtain ⟨hread, hfailed⟩ := rx_written hget hin h
    refine ⟨fun bs hbs => ?_, hfailed⟩
    obtain ⟨hmem, hshort⟩ := hread bs hbs
    refine ⟨hmem.trans (rxWrites_applied _ _ _).symm, ?_⟩
    rw [hmem]
    unfold rxMem
    rw [descAt_xorUsed, descAt_putLen]
    exact Nat.mod_eq_of_lt hshort
  · intro _
    simp only [rxWithin_iff, forall_and, forall_const]
    exact and_congr_right rxBytes_all_le
  · intro hbelow frame
    exact rx_below (getAvail_withFrame hget frame) hin hbelow

/-- A ring of two descriptors, a buffer at 64 of `len` bytes in the first. -/
def oneBuffer (len : Nat) : VirtioNetDev where
  vq := ⟨some 0, some 32, some 36, putLE (fun _ => 0) 0 2 2, 0, true⟩
  ram := ⟨0, putDesc (fun _ => 0) 0 ⟨64, len, 0, 128⟩⟩
  isrStatus := 0
  backend :=
    { frames := fun _ => none, reads := 0, accepts := fun _ => true, writes := 0, sent := [] }
  trace := []

theorem rx_within_buffer_room :
    (descAt (oneBuffer 64).ram.bytes (slotAt 0 2 0)).len = 64 ∧
      ∀ frame, RxWithin (oneBuffer 64) (slotAt 0 2 0) frame := by
  have hqueue : QueueAt (oneBuffer 64).vq 0 2 0 :=
    ⟨rfl, by decide +kernel, by decide, by decide, rfl⟩
  have hget := VqDev.getAvail_some hqueue (by decide +kernel)
  have hlen : (descAt (oneBuffer 64).ram.bytes (slotAt 0 2 0)).len = 64 := by decide +kernel
  obtain ⟨-, hiff, -, hapart, -⟩ := rx_within_buffer hget (by decide)
  refine ⟨hlen, (hiff (by decide +kernel)).mpr ?_⟩
  rw [hapart (by decide +kernel), hlen]
  decide

/-- The header is written past the end of a buffer of four bytes, where a transmit call leaves
memory as it is apart from the flags in `guest_event`. -/
theorem rx_short_overrun :
    let dev := (oneBuffer 4).withFrame (List.replicate 14 7)
    let rx := (virtioNetCompleteRequestRx dev).toOption.getD dev
    let tx := (virtioNetCompleteRequestTx dev).toOption.getD dev
    (virtioNetCompleteRequestRx dev).isOk = true ∧
      (virtioNetCompleteRequestTx dev).isOk = true ∧
      (descAt dev.ram.bytes 0).addr = 64 ∧ (descAt dev.ram.bytes 0).len = 4 ∧
      dev.ram.bytes 74 = 0 ∧ rx.ram.bytes 74 = 1 ∧ tx.ram.bytes 74 = 0 ∧
      rx.trace = [.take 0] ∧ tx.trace = [.take 0] := by
  decide +kernel

/-! ## Transmitting -/

/-- `k` calls of the transmit handler, one after another. -/
def txCalls : Nat → VirtioNetDev → Except Stop VirtioNetDev
  | 0, dev => .ok dev
  | k + 1, dev => do
    let dev ← virtioNetCompleteRequestTx dev
    txCalls k dev

/-- The descriptor at position `q` of the ring, with the bytes of its buffer. -/
def txPart (ram : Ram) (ring n q : Nat) : Nat × List UInt8 :=
  let a := slotAt ring n q
  (a, slice ram.bytes (ram.bufAt a) (descAt ram.bytes a).len)

/-- The descriptors at the `k` positions from `p` on. -/
def txParts (ram : Ram) (ring n p k : Nat) : List (Nat × List UInt8) :=
  (List.range' p k).map (txPart ram ring n)

-- what one call sends for a descriptor
def txFrame (part : Nat × List UInt8) : Option (List UInt8) :=
  if part.2.length < virtioHeaderLen then none else some (part.2.drop virtioHeaderLen)

-- the descriptor it marks used
def txMarked (part : Nat × List UInt8) : Option Nat :=
  if part.2.length < virtioHeaderLen then none else some part.1

-- what it does to the ring
def txEvents (part : Nat × List UInt8) : List RingEvent :=
  if part.2.length < virtioHeaderLen then [.take part.1] else [.take part.1, .used part.1]

def usedIn (events : List RingEvent) : List Nat :=
  events.filterMap fun
    | .used a => some a
    | _ => none

/-- What the driver owes before `k` calls: the descriptors at `k` positions from the cursor on are
available, their buffers lie in guest memory, clear of the ring and of the flags in `guest_event`;
the tap takes every frame. -/
structure TxPosted (dev : VirtioNetDev) (ring n p k g : Nat) : Prop where
  queue : QueueAt dev.vq ring n p
  size : k ≤ n
  avail : ∀ q, p ≤ q → q < p + k →
    availFor (wrapAt n q) (descAt dev.ram.bytes (slotAt ring n q)).flags = true
  buffer : ∀ q, p ≤ q → q < p + k → BufferOk dev.ram ring n 0 (slotAt ring n q)
  event : dev.vq.guestEvent = some g
  eventIn : g + 4 ≤ ramSize
  eventRing : Span.Apart ⟨ring, 16 * n⟩ ⟨g + 2, 2⟩
  eventBuffer : ∀ q, p ≤ q → q < p + k →
    Span.Apart ⟨dev.ram.bufAt (slotAt ring n q), (descAt dev.ram.bytes (slotAt ring n q)).len⟩
      ⟨g + 2, 2⟩
  accepts : ∀ i, dev.backend.accepts i = true

/-- One buffer of `k` descriptors: all but the last have NEXT set. -/
structure TxChain (dev : VirtioNetDev) (ring n p k g : Nat) :
    Prop extends TxPosted dev ring n p k g where
  next : ∀ q, p ≤ q → q < p + k →
    (descAt dev.ram.bytes (slotAt ring n q)).flags.testBit vringDescFNext = decide (q + 1 < p + k)

section Tx

variable {dev : VirtioNetDev} {ring n p k g : Nat}

theorem TxPosted.posted (h : TxPosted dev ring n p (k + 1) g) : Posted dev ring n 0 := by
  refine ⟨h.queue.ringOf, ?_⟩
  intro a d₁ hget
  obtain ⟨-, rfl⟩ := VqDev.getAvail_next h.queue hget
  exact h.buffer p (Nat.le_refl p) (by omega)

theorem TxPosted.take (h : TxPosted dev ring n p k g) {j : Nat} (hj : j ≤ k) :
    TxPosted dev ring n p j g where
  queue := h.queue
  size := Nat.le_trans hj h.size
  avail q hle hlt := h.avail q hle (by omega)
  buffer q hle hlt := h.buffer q hle (by omega)
  event := h.event
  eventIn := h.eventIn
  eventRing := h.eventRing
  eventBuffer q hle hlt := h.eventBuffer q hle (by omega)
  accepts := h.accepts

/-- A write that is clear of the other descriptors and of their buffers leaves them posted. -/
theorem TxPosted.step (h : TxPosted dev ring n p (k + 1) g) (dev₁ : VirtioNetDev) {b : Nat}
    {bs : List UInt8}
    (hvq : dev₁.vq = dev.vq.setCursor (Cursor.ofPos n (p + 1)))
    (hram : dev₁.ram = { dev.ram with bytes := patch dev.ram.bytes b bs })
    (haccepts : dev₁.backend.accepts = dev.backend.accepts)
    (hslot : ∀ q, p < q → q < p + (k + 1) → Span.Apart ⟨slotAt ring n q, 16⟩ ⟨b, bs.length⟩)
    (hbuffer : ∀ q, p < q → q < p + (k + 1) → Span.Apart
      ⟨dev.ram.bufAt (slotAt ring n q), (descAt dev.ram.bytes (slotAt ring n q)).len⟩
      ⟨b, bs.length⟩) :
    TxPosted dev₁ ring n (p + 1) k g ∧
      txParts dev₁.ram ring n (p + 1) k = txParts dev.ram ring n (p + 1) k := by
  have hdesc : ∀ q, p < q → q < p + (k + 1) →
      descAt dev₁.ram.bytes (slotAt ring n q) = descAt dev.ram.bytes (slotAt ring n q) := by
    intro q hle hlt
    rw [hram]
    exact descAt_patch_apart (hslot q hle hlt)
  have hbuf : ∀ q, p < q → q < p + (k + 1) →
      dev₁.ram.bufAt (slotAt ring n q) = dev.ram.bufAt (slotAt ring n q) := by
    intro q hle hlt
    unfold Ram.bufAt
    rw [hdesc q hle hlt, hram]
  have hbase : dev₁.ram.base = dev.ram.base := by rw [hram]
  refine ⟨⟨?_, ?_, ?_, ?_, ?_, h.eventIn, h.eventRing, ?_, ?_⟩, ?_⟩
  · rw [hvq]
    exact h.queue.at (p + 1)
  · have := h.size
    omega
  · intro q hle hlt
    rw [hdesc q hle (by omega)]
    exact h.avail q (by omega) (by omega)
  · intro q hle hlt
    obtain ⟨habove, hin, hleast, hoff⟩ := h.buffer q (by omega) (by omega)
    rw [← hbuf q hle (by omega), ← hdesc q hle (by omega)] at hin hoff
    rw [← hdesc q hle (by omega)] at habove hleast
    exact ⟨by rw [hbase]; exact habove, hin, hleast, hoff⟩
  · rw [hvq]
    exact h.event
  · intro q hle hlt
    rw [hdesc q hle (by omega), hbuf q hle (by omega)]
    exact h.eventBuffer q (by omega) (by omega)
  · rw [haccepts]
    exact h.accepts
  · refine List.map_congr_left ?_
    intro q hq
    rw [List.mem_range'_1] at hq
    unfold txPart
    dsimp only
    rw [hdesc q (by omega) (by omega), hbuf q (by omega) (by omega), hram]
    exact congrArg _ (slice_patch_apart (hbuffer q (by omega) (by omega)))

theorem slice_drop (m : Store) (a : Nat) {j len : Nat} (h : j ≤ len) :
    (slice m a len).drop j = slice m (a + j) (len - j) := by
  have hsplit := slice_add m j (len - j) a
  rw [Nat.add_sub_cancel' h] at hsplit
  rw [hsplit]
  exact List.drop_left' (slice_length _ _ _)

/-- One call handles one descriptor, whether it is linked to the next one or not. -/
theorem tx_step (h : TxPosted dev ring n p (k + 1) g) :
    ∃ dev₁, virtioNetCompleteRequestTx dev = .ok dev₁ ∧ TxPosted dev₁ ring n (p + 1) k g ∧
      txParts dev₁.ram ring n (p + 1) k = txParts dev.ram ring n (p + 1) k ∧
      dev₁.backend.sent = dev.backend.sent ++ (txFrame (txPart dev.ram ring n p)).toList ∧
      dev₁.trace = dev.trace ++ txEvents (txPart dev.ram ring n p) := by
  have hget := VqDev.getAvail_some h.queue (h.avail p (Nat.le_refl p) (by omega))
  have hlen : (txPart dev.ram ring n p).2.length = (descAt dev.ram.bytes (slotAt ring n p)).len :=
    slice_length _ _ _
  have hsize := h.size
  rw [tx_taken h.posted hget, h.accepts]
  unfold txFrame txEvents
  rw [hlen]
  by_cases hshort : (descAt dev.ram.bytes (slotAt ring n p)).len < virtioHeaderLen
  · have hin := h.eventIn
    have hplus : Ptr.plus (some g) 2 = some (g + 2) := plus_ram (by omega)
    have hdisable : disableGuestEvent (dev.took ring n p) = .ok { dev.took ring n p with
        ram := { dev.ram with
          bytes := patch dev.ram.bytes (g + 2) (toLE 2 vringPackedEventFlagDisable) } } := by
      unfold disableGuestEvent
      rw [VqDev.took_vq, Virtq.setCursor_guestEvent, h.event, hplus, Ram.store_ok (by omega)]
      rfl
    have hslot : ∀ q, p < q → q < p + (k + 1) →
        Span.Apart ⟨slotAt ring n q, 16⟩ ⟨g + 2, (toLE 2 vringPackedEventFlagDisable).length⟩ := by
      intro q _ _
      have hring := h.eventRing
      have hq := Nat.mod_lt q h.queue.pos
      simp only [Span.Apart, slotAt, toLE_length] at hring ⊢
      omega
    simp only [if_pos hshort]
    refine ⟨_, hdisable, ?_⟩
    obtain ⟨hposted, hparts⟩ := h.step { dev.took ring n p with
        ram := { dev.ram with
          bytes := patch dev.ram.bytes (g + 2) (toLE 2 vringPackedEventFlagDisable) } }
      rfl rfl rfl hslot fun q hle hlt => h.eventBuffer q (Nat.le_of_lt hle) hlt
    exact ⟨hposted, hparts, (List.append_nil _).symm, rfl⟩
  · have hslot : ∀ q, p < q → q < p + (k + 1) →
        Span.Apart ⟨slotAt ring n q, 16⟩ ⟨slotAt ring n p + 14, 2⟩ := by
      intro q hle hlt
      have hapart : Span.Apart ⟨slotAt ring n q, 16⟩ ⟨slotAt ring n p, 16⟩ :=
        slotAt_apart h.queue.pos hle (by omega)
      simp only [Span.Apart] at hapart ⊢
      omega
    have hbuffer : ∀ q, p < q → q < p + (k + 1) → Span.Apart
        ⟨dev.ram.bufAt (slotAt ring n q), (descAt dev.ram.bytes (slotAt ring n q)).len⟩
          ⟨slotAt ring n p + 14, 2⟩ := by
      intro q hle hlt
      have hoff := (h.buffer q (Nat.le_of_lt hle) hlt).offRing
      have hp := Nat.mod_lt p h.queue.pos
      generalize dev.ram.bufAt (slotAt ring n q) = buf at hoff ⊢
      simp only [Span.Apart, slotAt] at hoff ⊢
      omega
    simp only [if_neg hshort, if_true]
    refine ⟨_, rfl, ?_⟩
    obtain ⟨hposted, hparts⟩ :=
      h.step (txDone dev (dev.took ring n p) (slotAt ring n p)) rfl rfl rfl hslot hbuffer
    refine ⟨hposted, hparts, ?_, rfl⟩
    rw [Option.toList_some, txPart, slice_drop _ _ (Nat.le_of_not_lt hshort)]
    rfl

theorem txParts_succ (ram : Ram) (ring n p k : Nat) :
    txParts ram ring n p (k + 1) = txPart ram ring n p :: txParts ram ring n (p + 1) k := by
  unfold txParts
  rw [List.range'_succ, List.map_cons]

/-- What the calls send and mark used, descriptor by descriptor. -/
theorem tx_run : ∀ {k p : Nat} {dev : VirtioNetDev}, TxPosted dev ring n p k g →
    ∃ dev', txCalls k dev = .ok dev' ∧
      dev'.backend.sent = dev.backend.sent ++ (txParts dev.ram ring n p k).filterMap txFrame ∧
      dev'.trace = dev.trace ++ (txParts dev.ram ring n p k).flatMap txEvents := by
  intro k
  induction k with
  | zero =>
    intro p dev _
    exact ⟨dev, rfl, (List.append_nil _).symm, (List.append_nil _).symm⟩
  | succ k ih =>
    intro p dev h
    obtain ⟨dev₁, hcall, hposted, hparts, hsent, htrace⟩ := tx_step h
    obtain ⟨dev', hrest, hsent', htrace'⟩ := ih hposted
    refine ⟨dev', ?_, ?_, ?_⟩
    · rw [txCalls, hcall]
      exact hrest
    · rw [hsent', hsent, hparts, txParts_succ, List.filterMap_cons, List.append_assoc]
      cases txFrame (txPart dev.ram ring n p) with
      | none => rfl
      | some frame => rfl
    · rw [htrace', htrace, hparts, txParts_succ, List.flatMap_cons, List.append_assoc]

end Tx

/-- The buffer with the descriptors `parts`, the first of them at `head`, went out as one frame. -/
structure OneFrame (dev dev' : VirtioNetDev) (head : Nat) (parts : List (Nat × List UInt8)) :
    Prop where
  sent : dev'.backend.sent = dev.backend.sent ++ [(parts.flatMap Prod.snd).drop virtioHeaderLen]
  used : usedIn (dev'.trace.drop dev.trace.length) = [head]

section OneFrame

variable {part : Nat × List UInt8} {front rest : List (Nat × List UInt8)}

theorem txFrame_short (h : part.2.length < virtioHeaderLen) : txFrame part = none := if_pos h

theorem txFrame_long (h : ¬ part.2.length < virtioHeaderLen) :
    txFrame part = some (part.2.drop virtioHeaderLen) :=
  if_neg h

theorem txMarked_short (h : part.2.length < virtioHeaderLen) : txMarked part = none := if_pos h

theorem txMarked_long (h : ¬ part.2.length < virtioHeaderLen) : txMarked part = some part.1 :=
  if_neg h

theorem usedIn_events (parts : List (Nat × List UInt8)) :
    usedIn (parts.flatMap txEvents) = parts.filterMap txMarked := by
  induction parts with
  | nil => rfl
  | cons part parts ih =>
    have happend : usedIn (txEvents part ++ parts.flatMap txEvents) =
        usedIn (txEvents part) ++ usedIn (parts.flatMap txEvents) := List.filterMap_append
    rw [List.flatMap_cons, happend, ih]
    by_cases hshort : part.2.length < virtioHeaderLen
    · rw [txEvents, if_pos hshort, List.filterMap_cons_none (txMarked_short hshort)]
      rfl
    · rw [txEvents, if_neg hshort, List.filterMap_cons_some (txMarked_long hshort)]
      rfl

theorem parts_empty {parts : List (Nat × List UInt8)} (h : ∀ x ∈ parts, x.2 = []) :
    parts.flatMap Prod.snd = [] := by
  rw [List.flatMap_eq_nil_iff]
  exact h

theorem short_frame {x : Nat × List UInt8} (h : x.2 = []) : x.2.length < virtioHeaderLen := by
  rw [h]
  decide

/-- One frame and one used descriptor for a head `part` and some of the descriptors after it. -/
theorem one_frame_iff (hfront : ∀ x ∈ front, x ∈ rest) (hhead : ∀ x ∈ front, x.1 ≠ part.1)
    (htotal : virtioHeaderLen ≤ ((part :: rest).flatMap Prod.snd).length) :
    ((part :: front).filterMap txFrame = [((part :: rest).flatMap Prod.snd).drop virtioHeaderLen] ∧
        usedIn ((part :: front).flatMap txEvents) = [part.1]) ↔
      ∀ x ∈ rest, x.2 = [] := by
  rw [usedIn_events, List.flatMap_cons]
  rw [List.flatMap_cons] at htotal
  constructor
  · rintro ⟨hsent, hused⟩
    by_cases hshort : part.2.length < virtioHeaderLen
    · -- the head is left alone, and another descriptor cannot be marked used in its place
      rw [List.filterMap_cons_none (txMarked_short hshort)] at hused
      have hmem : part.1 ∈ front.filterMap txMarked := by
        rw [hused]
        exact List.mem_singleton_self _
      obtain ⟨x, hx, he⟩ := List.mem_filterMap.mp hmem
      unfold txMarked at he
      split at he
      · cases he
      · exact absurd (Option.some.inj he) (hhead x hx)
    · rw [List.filterMap_cons_some (txFrame_long hshort), List.cons.injEq,
        List.drop_append_of_le_length (Nat.le_of_not_lt hshort)] at hsent
      have hrest : rest.flatMap Prod.snd = [] := List.self_eq_append_right.mp hsent.1
      exact List.flatMap_eq_nil_iff.mp hrest
  · intro hempty
    have hfirst : ¬ part.2.length < virtioHeaderLen := by
      rw [parts_empty hempty, List.append_nil] at htotal
      exact Nat.not_lt_of_le htotal
    have hshort : ∀ x ∈ front, x.2.length < virtioHeaderLen :=
      fun x hx => short_frame (hempty x (hfront x hx))
    have hnone : front.filterMap txFrame = [] :=
      List.filterMap_eq_nil_iff.mpr fun x hx => txFrame_short (hshort x hx)
    have hunused : front.filterMap txMarked = [] :=
      List.filterMap_eq_nil_iff.mpr fun x hx => txMarked_short (hshort x hx)
    rw [List.filterMap_cons_some (txFrame_long hfirst),
      List.filterMap_cons_some (txMarked_long hfirst), hnone, hunused, parts_empty hempty,
      List.append_nil]
    exact ⟨rfl, rfl⟩

end OneFrame

/-- **A transmit chain.** The descriptors of a buffer are handled one by one. After any number of
calls from the first to one for each descriptor, one frame with the bytes of the whole chain was
sent and its head alone marked used exactly when every descriptor after the head is empty. -/
theorem tx_chain_frames {dev : VirtioNetDev} {ring n p k g j : Nat} (h : TxChain dev ring n p k g)
    (htotal : virtioHeaderLen ≤ ((txParts dev.ram ring n p k).flatMap Prod.snd).length) (hj : 1 ≤ j)
    (hjk : j ≤ k) :
    ∃ dev', txCalls j dev = .ok dev' ∧
      dev'.backend.sent = dev.backend.sent ++ (txParts dev.ram ring n p j).filterMap txFrame ∧
      dev'.trace = dev.trace ++ (txParts dev.ram ring n p j).flatMap txEvents ∧
      (OneFrame dev dev' (slotAt ring n p) (txParts dev.ram ring n p k) ↔
        ∀ q, p < q → q < p + k → (descAt dev.ram.bytes (slotAt ring n q)).len = 0) := by
  obtain ⟨dev', hcalls, hsent, htrace⟩ := tx_run (h.toTxPosted.take hjk)
  obtain ⟨j, rfl⟩ := Nat.exists_eq_add_of_le' hj
  obtain ⟨k, rfl⟩ := Nat.exists_eq_add_of_le' (Nat.le_trans hj hjk)
  have hsize := h.size
  have hrest : (∀ x ∈ txParts dev.ram ring n (p + 1) k, x.2 = []) ↔
      ∀ q, p < q → q < p + (k + 1) → (descAt dev.ram.bytes (slotAt ring n q)).len = 0 := by
    simp only [txParts, List.forall_mem_map, List.mem_range'_1]
    refine forall_congr' fun q => ⟨fun hq hle hlt => ?_, fun hq hin => ?_⟩
    · have hnil := hq ⟨hle, by omega⟩
      rw [← slice_length dev.ram.bytes (descAt dev.ram.bytes (slotAt ring n q)).len
        (dev.ram.bufAt (slotAt ring n q))]
      exact congrArg List.length hnil
    · refine List.eq_nil_of_length_eq_zero ?_
      rw [txPart, slice_length]
      exact hq (by omega) (by omega)
  have hfront : ∀ x ∈ txParts dev.ram ring n (p + 1) j, x ∈ txParts dev.ram ring n (p + 1) k := by
    simp only [txParts, List.forall_mem_map, List.mem_range'_1]
    intro q hq
    exact List.mem_map_of_mem (List.mem_range'_1.mpr (by omega))
  have hhead : ∀ x ∈ txParts dev.ram ring n (p + 1) j, x.1 ≠ (txPart dev.ram ring n p).1 := by
    simp only [txParts, List.forall_mem_map, List.mem_range'_1]
    intro q hq
    have hapart : Span.Apart ⟨slotAt ring n q, 16⟩ ⟨slotAt ring n p, 16⟩ :=
      slotAt_apart h.queue.pos (by omega) (by omega)
    simp only [Span.Apart, txPart] at hapart ⊢
    omega
  refine ⟨dev', hcalls, hsent, htrace, ?_⟩
  rw [← hrest]
  rw [txParts_succ] at htotal hsent htrace ⊢
  refine Iff.trans ?_ (one_frame_iff hfront hhead htotal)
  have hevents : dev'.trace.drop dev.trace.length =
      (txPart dev.ram ring n p :: txParts dev.ram ring n (p + 1) j).flatMap txEvents := by
    rw [htrace, List.drop_left]
  constructor
  · rintro ⟨hone, hused⟩
    rw [hsent] at hone
    rw [hevents] at hused
    exact ⟨List.append_cancel_left hone, hused⟩
  · rintro ⟨hone, hused⟩
    refine ⟨?_, ?_⟩
    · rw [hsent, hone]
    · rw [hevents]
      exact hused

/-- A chain of two descriptors, of `len` and `len'` bytes, that starts at the last slot of the
ring. -/
def twoDescs (len len' : Nat) : VirtioNetDev where
  vq := ⟨some 0, some 32, some 36, putLE (fun _ => 0) 0 2 2, 1, true⟩
  ram := ⟨0, putDesc (putDesc (fun _ => 0) 16 ⟨64, len, 0, 129⟩) 0 ⟨128, len', 0, 32768⟩⟩
  isrStatus := 0
  backend :=
    { frames := fun _ => none, reads := 0, accepts := fun _ => true, writes := 0, sent := [] }
  trace := []

theorem tx_chain_frames_linear :
    ∃ dev', txCalls 2 (twoDescs 26 0) = .ok dev' ∧
      OneFrame (twoDescs 26 0) dev' 16 (txParts (twoDescs 26 0).ram 0 2 1 2) := by
  have hposted : TxPosted (twoDescs 26 0) 0 2 1 2 36 := by
    refine ⟨⟨rfl, by decide +kernel, by decide, by decide, rfl⟩,
      by decide, ?_, ?_, rfl, by decide, by decide, ?_, fun _ => rfl⟩
    · intro q hle hlt
      obtain rfl | rfl : q = 1 ∨ q = 2 := by omega
      · decide +kernel
      · decide +kernel
    · intro q hle hlt
      obtain rfl | rfl : q = 1 ∨ q = 2 := by omega
      · exact ⟨by decide +kernel, by decide +kernel, by decide +kernel, by decide +kernel⟩
      · exact ⟨by decide +kernel, by decide +kernel, by decide +kernel, by decide +kernel⟩
    · intro q hle hlt
      obtain rfl | rfl : q = 1 ∨ q = 2 := by omega
      · decide +kernel
      · decide +kernel
  have hchain : TxChain (twoDescs 26 0) 0 2 1 2 36 := by
    refine ⟨hposted, ?_⟩
    intro q hle hlt
    obtain rfl | rfl : q = 1 ∨ q = 2 := by omega
    · decide +kernel
    · decide +kernel
  obtain ⟨dev', hcalls, -, -, hiff⟩ :=
    tx_chain_frames (j := 2) hchain (by decide +kernel) (by decide) (by decide)
  refine ⟨dev', hcalls, hiff.mpr ?_⟩
  intro q hle hlt
  obtain rfl : q = 2 := by omega
  decide +kernel

/-- A packet of 40 bytes behind its header, split over two descriptors, goes out as two frames of 14
bytes. -/
theorem tx_split_chain :
    let dev := twoDescs 26 26
    let dev' := (txCalls 2 dev).toOption.getD dev
    (txCalls 2 dev).isOk = true ∧ ((txParts dev.ram 0 2 1 2).flatMap Prod.snd).length = 52 ∧
      dev'.backend.sent.map List.length = [14, 14] ∧ usedIn dev'.trace = [16, 0] := by
  decide +kernel

end KvmHost
