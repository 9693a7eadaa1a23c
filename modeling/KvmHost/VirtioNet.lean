import KvmHost.Virtq

/-!
# KvmHost.VirtioNet

The two request handlers of `virtio-net.c`.

Both are written as a `while` over `virtq_get_avail`, but every path through the body returns, so a
call handles at most one descriptor. The tap device is non-blocking: `frames` says what each read
finds (`none` for `-1`, such as EAGAIN) and `accepts` whether each `writev` succeeds; a read of a
frame longer than the buffer drops the rest of the frame. A read that asks for more bytes than an
`ssize_t` can count fails before the tap is asked (EFAULT), and no frame is consumed.
-/

namespace KvmHost

open ByteStore

structure Tap where
  frames : Nat → Option (List UInt8)
  reads : Nat
  accepts : Nat → Bool
  writes : Nat
  sent : List (List UInt8)

-- the largest `ssize_t`
def ssizeMax : Nat := 2 ^ 63 - 1

namespace Tap

/-- `read(tapfd, data, size)`; the result is `none` for `-1`. -/
def read (tap : Tap) (ram : Ram) (data : Ptr) (size : Nat) :
    Except Stop (Option Nat × Ram × Tap) :=
  let tap' := { tap with reads := tap.reads + 1 }
  match tap.frames tap.reads with
  | none => .ok (none, ram, tap')
  | some frame =>
    -- the kernel refuses such a count, and the frame stays where it is
    if ssizeMax < size then .ok (none, ram, tap)
    else do
      let ram ← ram.write data (frame.take size)
      return (some (frame.take size).length, ram, tap')

/-- The bytes that the next read of at most `size` bytes returns. -/
def returns (tap : Tap) (size : Nat) : Option (List UInt8) :=
  match tap.frames tap.reads with
  | none => none
  | some frame => if ssizeMax < size then none else some (frame.take size)

/-- `writev(tapfd, iov, 1)` -/
def writev (tap : Tap) (ram : Ram) (base : Ptr) (len : Nat) : Except Stop (Option Nat × Tap) :=
  let tap' := { tap with writes := tap.writes + 1 }
  if tap.accepts tap.writes then do
    let bs ← ram.read base len
    return (some bs.length, { tap' with sent := tap.sent ++ [bs] })
  else .ok (none, tap')

end Tap

abbrev VirtioNetDev := VqDev Tap

-- `sizeof(struct virtio_net_hdr_v1)`
def virtioHeaderLen : Nat := 12

-- `vq->guest_event->flags = VRING_PACKED_EVENT_FLAG_DISABLE`
def disableGuestEvent (dev : VirtioNetDev) : Except Stop VirtioNetDev := do
  let ram ← dev.ram.store (dev.vq.guestEvent.plus 2) 2 vringPackedEventFlagDisable
  return { dev with ram := ram }

-- `vq->guest_event->flags = VRING_PACKED_EVENT_FLAG_ENABLE`, which the queue threads write before
-- each poll
def enableGuestEvent {β : Type} (d : VqDev β) : Except Stop (VqDev β) := do
  let ram ← d.ram.store (d.vq.guestEvent.plus 2) 2 vringPackedEventFlagEnable
  return { d with ram := ram }

def virtioNetCompleteRequestRx (dev : VirtioNetDev) : Except Stop VirtioNetDev := do
  let (desc, dev) ← dev.getAvail
  if desc.isNone then disableGuestEvent dev
  else
    let addr ← descAddr dev.ram desc
    let data := vmGuestToHost dev.ram addr
    let ram ← dev.ram.write data (List.replicate virtioHeaderLen 0)
    -- `virtio_hdr->num_buffers = 1`
    let ram ← ram.store (data.plus 10) 2 1
    let len ← descLen ram desc
    let (readBytes, ram, tap) ←
      dev.backend.read ram (data.plus virtioHeaderLen) (sizeSub len virtioHeaderLen)
    let dev := { dev with ram := ram, backend := tap }
    match readBytes with
    | none => disableGuestEvent dev
    | some n => do
      let ram ← setDescLen dev.ram desc (virtioHeaderLen + n)
      let dev ← { dev with ram := ram }.markUsed desc
      return dev.raiseIsr

def virtioNetCompleteRequestTx (dev : VirtioNetDev) : Except Stop VirtioNetDev := do
  let (desc, dev) ← dev.getAvail
  if desc.isNone then disableGuestEvent dev
  else
    let addr ← descAddr dev.ram desc
    let data := vmGuestToHost dev.ram addr
    let len ← descLen dev.ram desc
    if len < virtioHeaderLen then disableGuestEvent dev
    else
      let (writeBytes, tap) ←
        dev.backend.writev dev.ram (data.plus virtioHeaderLen) (sizeSub len virtioHeaderLen)
      let dev := { dev with backend := tap }
      match writeBytes with
      | none => disableGuestEvent dev
      | some _ => do
        let dev ← dev.markUsed desc
        return dev.raiseIsr

/-! ## Reads of the tap -/

namespace Tap

variable {tap tap' : Tap} {ram ram' : Ram} {data : Ptr} {size : Nat}

theorem returns_eq (tap : Tap) (h : size ≤ ssizeMax) :
    tap.returns size = (tap.frames tap.reads).map (·.take size) := by
  unfold returns
  cases tap.frames tap.reads with
  | none => rfl
  | some frame => exact if_neg (Nat.not_lt_of_le h)

theorem returns_big (tap : Tap) (h : ssizeMax < size) : tap.returns size = none := by
  unfold returns
  cases tap.frames tap.reads with
  | none => rfl
  | some frame => exact if_pos h

theorem returns_length {bs : List UInt8} (h : tap.returns size = some bs) : bs.length ≤ size := by
  by_cases hbig : ssizeMax < size
  · rw [returns_big tap hbig] at h
    cases h
  · rw [returns_eq tap (Nat.le_of_not_lt hbig)] at h
    obtain ⟨frame, -, rfl⟩ := Option.map_eq_some_iff.mp h
    rw [List.length_take]
    exact Nat.min_le_left _ _

variable (ram data) in
/-- A read that returns nothing leaves memory alone. -/
theorem read_none (h : tap.returns size = none) :
    ∃ tap', tap.read ram data size = .ok (none, ram, tap') := by
  by_cases hbig : ssizeMax < size
  · unfold read
    cases tap.frames tap.reads with
    | none => exact ⟨_, rfl⟩
    | some frame => exact ⟨tap, if_pos hbig⟩
  · rw [returns_eq tap (Nat.le_of_not_lt hbig)] at h
    unfold read
    rw [Option.map_eq_none_iff.mp h]
    exact ⟨_, rfl⟩

variable (ram data) in
theorem read_some {bs : List UInt8} (h : tap.returns size = some bs) :
    tap.read ram data size = (ram.write data bs >>= fun ram =>
      .ok (some bs.length, ram, { tap with reads := tap.reads + 1 })) := by
  by_cases hbig : ssizeMax < size
  · rw [returns_big tap hbig] at h
    cases h
  · rw [returns_eq tap (Nat.le_of_not_lt hbig)] at h
    obtain ⟨frame, hframe, rfl⟩ := Option.map_eq_some_iff.mp h
    unfold read
    rw [hframe]
    exact if_neg hbig

/-- The ways a read goes. -/
theorem read_cases {r : Option Nat} (h : tap.read ram data size = .ok (r, ram', tap')) :
    (tap.returns size = none ∧ r = none ∧ ram' = ram) ∨
      ∃ bs, tap.returns size = some bs ∧ r = some bs.length ∧ ram.write data bs = .ok ram' := by
  cases hret : tap.returns size with
  | none =>
    obtain ⟨tap'', hread⟩ := read_none ram data hret
    rw [hread] at h
    cases h
    exact .inl ⟨rfl, rfl, rfl⟩
  | some bs =>
    rw [read_some ram data hret] at h
    obtain ⟨ram₁, hwrite, h⟩ := bind_eq_ok.mp h
    cases h
    exact .inr ⟨bs, rfl, rfl, hwrite⟩

theorem read_isSome {r : Option Nat} (h : tap.read ram data size = .ok (r, ram', tap')) :
    r.isSome = (tap.returns size).isSome := by
  rcases read_cases h with ⟨hret, rfl, -⟩ | ⟨bs, hret, rfl, -⟩
  · rw [hret]
    rfl
  · rw [hret]
    rfl

/-- A read into what a header leaves of `len` bytes finds a frame if there is one and there is room
for the header; the difference is almost 2^64 otherwise. -/
theorem returns_room (tap : Tap) {len : Nat} (h : len < 2 ^ 32) :
    (tap.returns (sizeSub len virtioHeaderLen)).isSome =
      (decide (virtioHeaderLen ≤ len) && (tap.frames tap.reads).isSome) := by
  by_cases hroom : virtioHeaderLen ≤ len
  · rw [sizeSub_eq hroom (by omega), returns_eq tap (by unfold ssizeMax; omega), Option.isSome_map]
    simp [hroom]
  · have hbig : ssizeMax < sizeSub len virtioHeaderLen := by
      rw [sizeSub_short (Nat.lt_of_not_le hroom)]
      unfold ssizeMax virtioHeaderLen
      omega
    rw [returns_big tap hbig]
    simp [hroom]

end Tap

/-! ## The header of a receive buffer -/

-- `struct virtio_net_hdr_v1` with `num_buffers` 1
def virtioNetHdr : List UInt8 := [0, 0, 0, 0, 0, 0, 0, 0, 0, 0, 1, 0]

-- `desc->len` once the header is written
def Ram.lenAfterHeader (ram : Ram) (a : Nat) : Nat :=
  (descAt (patch ram.bytes (ram.bufAt a) virtioNetHdr) a).len

theorem Ram.lenAfterHeader_lt (ram : Ram) (a : Nat) : ram.lenAfterHeader a < 2 ^ 32 :=
  (descAt_fits _ a).len

/-- Zeros and `num_buffers = 1` are the header. -/
theorem header_written (m : Store) (buf : Nat) :
    putLE (patch m buf (List.replicate virtioHeaderLen 0)) (buf + 10) 2 1 =
      patch m buf virtioNetHdr := by
  have hzero : List.replicate virtioHeaderLen (0 : UInt8) = List.replicate 10 0 ++ [0, 0] := rfl
  have hhdr : virtioNetHdr = List.replicate 10 0 ++ [1, 0] := rfl
  rw [hzero, hhdr, patch_append, patch_append]
  exact patch_patch_same _ _ rfl

/-- The two stores of the header, which returned: they are to a buffer in guest memory, and leave
`virtio_hdr` there. -/
theorem header_ram {ram ram₁ ram₂ : Ram} {addr : Nat}
    (hzeros : ram.write (vmGuestToHost ram addr) (List.replicate virtioHeaderLen 0) = .ok ram₁)
    (hnum : ram₁.store ((vmGuestToHost ram addr).plus 10) 2 1 = .ok ram₂) :
    vmGuestToHost ram addr = some (addr - ram.base) ∧
      addr - ram.base + virtioHeaderLen ≤ ramSize ∧
      ram₂ = { ram with bytes := patch ram.bytes (addr - ram.base) virtioNetHdr } := by
  by_cases hbelow : addr < ram.base
  · rw [vmGuestToHost, if_pos hbelow] at hzeros
    cases hzeros
  · have hptr : vmGuestToHost ram addr = some (addr - ram.base) := if_neg hbelow
    rw [hptr] at hzeros hnum
    obtain ⟨rfl, hle⟩ := Ram.write_inv hzeros
    have hin : addr - ram.base + 12 ≤ ramSize := hle (by decide)
    rw [plus_ram (by omega), Ram.store_ok (by omega)] at hnum
    cases hnum
    exact ⟨hptr, hin, by rw [header_written]⟩

/-! ## What the handlers can do -/

section Inversion

variable {dev dev' : VirtioNetDev}

theorem disableGuestEvent_inv (h : disableGuestEvent dev = .ok dev') :
    dev'.vq = dev.vq ∧ dev'.trace = dev.trace := by
  obtain ⟨ram, -, h⟩ := bind_eq_ok.mp h
  cases h
  exact ⟨rfl, rfl⟩

theorem Tap.writev_inv {tap tap' : Tap} {ram : Ram} {base : Ptr} {len : Nat} {r : Option Nat}
    (h : tap.writev ram base len = .ok (r, tap')) : r.isSome = tap.accepts tap.writes := by
  unfold Tap.writev at h
  cases ha : tap.accepts tap.writes with
  | false => rw [ha] at h; cases h; rfl
  | true =>
    rw [ha] at h
    obtain ⟨bs, -, h⟩ := bind_eq_ok.mp h
    cases h
    rfl

/-- A receive call takes no descriptor, or takes one and marks it used exactly when the tap has a
frame and the descriptor has room for the header. -/
theorem virtioNetCompleteRequestRx_inv (h : virtioNetCompleteRequestRx dev = .ok dev') :
    (dev.getAvail = .ok (none, dev) ∧ dev'.vq = dev.vq ∧ dev'.trace = dev.trace) ∨
    ∃ a d₁, dev.getAvail = .ok (some a, d₁) ∧ dev'.vq = d₁.vq ∧
      dev'.trace = d₁.trace ++
        if virtioHeaderLen ≤ dev.ram.lenAfterHeader a ∧
          (dev.backend.frames dev.backend.reads).isSome then [.used a] else [] := by
  obtain ⟨⟨p, d₁⟩, hget, hbody⟩ := bind_eq_ok.mp h
  clear h
  rcases VqDev.getAvail_inv hget with ⟨rfl, rfl⟩ | ⟨a, vq, rfl, -, hd₁⟩
  · exact .inl ⟨hget, disableGuestEvent_inv hbody⟩
  · have hback : d₁.backend = dev.backend := by rw [hd₁]
    have hram : d₁.ram = dev.ram := by rw [hd₁]
    refine .inr ⟨a, d₁, hget, ?_⟩
    simp only [Option.isNone_some, Bool.false_eq_true, if_false] at hbody
    obtain ⟨addr, haddr, h⟩ := bind_eq_ok.mp hbody
    have hin := VqDev.getAvail_in hget haddr
    obtain rfl := Except.ok.inj ((descAddr_ok hin).symm.trans haddr)
    obtain ⟨ram₁, hzeros, h⟩ := bind_eq_ok.mp h
    obtain ⟨ram₂, hnum, h⟩ := bind_eq_ok.mp h
    obtain ⟨hptr, -, rfl⟩ := header_ram hzeros hnum
    obtain ⟨len, hlen, h⟩ := bind_eq_ok.mp h
    obtain rfl := Except.ok.inj ((descLen_ok hin).symm.trans hlen)
    obtain ⟨⟨r, ram₃, tap⟩, hread, h⟩ := bind_eq_ok.mp h
    rw [hram, hback] at hread
    have hr : r.isSome = (decide (virtioHeaderLen ≤ dev.ram.lenAfterHeader a) &&
        (dev.backend.frames dev.backend.reads).isSome) :=
      (Tap.read_isSome hread).trans (dev.backend.returns_room (dev.ram.lenAfterHeader_lt a))
    cases r with
    | none =>
      obtain ⟨hvq, htr⟩ := disableGuestEvent_inv h
      rw [if_neg fun hc => by rw [hc.2, decide_eq_true hc.1] at hr; cases hr]
      exact ⟨hvq, by rw [htr]; simp⟩
    | some n =>
      rw [if_pos (by simpa using hr.symm)]
      obtain ⟨ram₄, -, h⟩ := bind_eq_ok.mp h
      obtain ⟨d₂, hmark, h⟩ := bind_eq_ok.mp h
      obtain ⟨ram₅, -, rfl⟩ := VqDev.markUsed_inv hmark
      cases h
      exact ⟨rfl, rfl⟩

/-- A transmit call takes no descriptor, or takes one and marks it used exactly when the descriptor
has room for the header and the tap write succeeds. -/
theorem virtioNetCompleteRequestTx_inv (h : virtioNetCompleteRequestTx dev = .ok dev') :
    (dev.getAvail = .ok (none, dev) ∧ dev'.vq = dev.vq ∧ dev'.trace = dev.trace) ∨
    ∃ a d₁ len, dev.getAvail = .ok (some a, d₁) ∧ descLen dev.ram (some a) = .ok len ∧
      dev'.vq = d₁.vq ∧ dev'.trace = d₁.trace ++
        if virtioHeaderLen ≤ len ∧ dev.backend.accepts dev.backend.writes then [.used a]
          else [] := by
  obtain ⟨⟨p, d₁⟩, hget, hbody⟩ := bind_eq_ok.mp h
  clear h
  rcases VqDev.getAvail_inv hget with ⟨rfl, rfl⟩ | ⟨a, vq, rfl, -, hd₁⟩
  · exact .inl ⟨hget, disableGuestEvent_inv hbody⟩
  · have hback : d₁.backend = dev.backend := by rw [hd₁]
    have hram : d₁.ram = dev.ram := by rw [hd₁]
    simp only [Option.isNone_some, Bool.false_eq_true, if_false] at hbody
    obtain ⟨addr, -, h⟩ := bind_eq_ok.mp hbody
    obtain ⟨len, hlen, h⟩ := bind_eq_ok.mp h
    rw [hram] at hlen
    refine .inr ⟨a, d₁, len, hget, hlen, ?_⟩
    by_cases hshort : len < virtioHeaderLen
    · rw [if_pos hshort] at h
      obtain ⟨hvq, htr⟩ := disableGuestEvent_inv h
      rw [if_neg fun hc => Nat.not_le_of_lt hshort hc.1]
      exact ⟨hvq, by rw [htr]; simp⟩
    · rw [if_neg hshort] at h
      obtain ⟨⟨r, tap⟩, hwrite, h⟩ := bind_eq_ok.mp h
      have hr := Tap.writev_inv hwrite
      rw [hback] at hr
      rw [← hr]
      cases r with
      | none =>
        obtain ⟨hvq, htr⟩ := disableGuestEvent_inv h
        exact ⟨hvq, by rw [htr]; simp⟩
      | some n =>
        obtain ⟨d₂, hmark, h⟩ := bind_eq_ok.mp h
        obtain ⟨ram₅, -, rfl⟩ := VqDev.markUsed_inv hmark
        cases h
        rw [if_pos ⟨Nat.le_of_not_lt hshort, rfl⟩]
        exact ⟨rfl, rfl⟩

theorem virtioNetCompleteRequestRx_moved (h : virtioNetCompleteRequestRx dev = .ok dev') :
    dev.vq.Moved dev'.vq := by
  rcases virtioNetCompleteRequestRx_inv h with ⟨-, hvq, -⟩ | ⟨a, d₁, hget, hvq, -⟩
  · rw [hvq]; exact .refl dev.vq
  · rw [hvq]; exact VqDev.getAvail_moved hget

theorem virtioNetCompleteRequestTx_moved (h : virtioNetCompleteRequestTx dev = .ok dev') :
    dev.vq.Moved dev'.vq := by
  rcases virtioNetCompleteRequestTx_inv h with ⟨-, hvq, -⟩ | ⟨a, d₁, len, hget, -, hvq, -⟩
  · rw [hvq]; exact .refl dev.vq
  · rw [hvq]; exact VqDev.getAvail_moved hget

end Inversion

/-- A frame as short as frames are, for the runs of single devices: the header and no data. -/
def shortFrame : List UInt8 := [1, 2, 3, 4, 5, 6, 7, 8, 9, 10, 11, 12, 8, 0]

end KvmHost
