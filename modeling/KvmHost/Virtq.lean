import KvmHost.Lib.Lap
import KvmHost.Memory

/-!
# KvmHost.Virtq

The packed virtqueue of `virtq.c` and `virtq.h`.

Descriptors live in guest memory, 16 bytes each (`addr`, `len`, `id`, `flags`), and are reached
through the host pointer `desc_ring`. `struct virtq_info` is kept as the 32-byte image it is in the
source, since the guest writes it with byte copies; its fields are read off the image.

* `virtqGetAvail` is the only function that moves a queue's cursor.
* `VqDev` is what a queue handler works on: the queue, guest memory, the ISR register and the
  backend of the device. Its `trace` records what the handler does to the ring: descriptors taken,
  descriptors marked used, and interrupts raised.

`virtqGetAvail_eq` says what a call does when the ring lies in guest memory; proofs about the
handlers cite it and never unfold the function.
-/

namespace KvmHost

open ByteStore Lap

/-! ## Descriptors -/

/-- `struct vring_packed_desc` -/
structure VringPackedDesc where
  addr : Nat
  len : Nat
  id : Nat
  flags : Nat
deriving DecidableEq, Repr

/-- Bit 0 of `flags`: `VRING_DESC_F_NEXT` is the mask 1. -/
def vringDescFNext : Nat := 0

/-- `VRING_PACKED_DESC_F_AVAIL` -/
def vringPackedDescFAvail : Nat := 7

/-- `VRING_PACKED_DESC_F_USED` -/
def vringPackedDescFUsed : Nat := 15

/-- `VRING_PACKED_EVENT_FLAG_ENABLE` -/
def vringPackedEventFlagEnable : Nat := 0

/-- `VRING_PACKED_EVENT_FLAG_DISABLE` -/
def vringPackedEventFlagDisable : Nat := 1

/-- `desc->addr` -/
def descAddr (ram : Ram) (desc : Ptr) : Except Stop Nat := ram.load desc 8

/-- `desc->len` -/
def descLen (ram : Ram) (desc : Ptr) : Except Stop Nat := ram.load (desc.plus 8) 4

/-- `desc->flags` -/
def descFlags (ram : Ram) (desc : Ptr) : Except Stop Nat := ram.load (desc.plus 14) 2

/-- `desc->len = v` -/
def setDescLen (ram : Ram) (desc : Ptr) (v : Nat) : Except Stop Ram := ram.store (desc.plus 8) 4 v

/-- `desc->flags ^= (1ULL << VRING_PACKED_DESC_F_USED)` -/
def xorDescUsed (ram : Ram) (desc : Ptr) : Except Stop Ram := do
  let flags ← descFlags ram desc
  ram.store (desc.plus 14) 2 (flags ^^^ 2 ^ vringPackedDescFUsed)

/-! ## The queue -/

/-- `struct virtq`, without the table `ops`. The back pointer `dev` follows `info`: it is what the
image holds from byte 32 on. -/
structure Virtq where
  descRing : Ptr
  deviceEvent : Ptr
  guestEvent : Ptr
  info : Store
  nextAvailIdx : Nat
  usedWrapCount : Bool

namespace Virtq

def size (vq : Virtq) : Nat := getLE vq.info 0 2
def msixVector (vq : Virtq) : Nat := getLE vq.info 2 2
def enable (vq : Virtq) : Nat := getLE vq.info 4 2
def notifyOff (vq : Virtq) : Nat := getLE vq.info 6 2
def descAddr (vq : Virtq) : Nat := getLE vq.info 8 8
def deviceAddr (vq : Virtq) : Nat := getLE vq.info 16 8
def driverAddr (vq : Virtq) : Nat := getLE vq.info 24 8

/-- `next_avail_idx` and `used_wrap_count` together. -/
def cursor (vq : Virtq) : Cursor := ⟨vq.nextAvailIdx, vq.usedWrapCount⟩

def setCursor (vq : Virtq) (c : Cursor) : Virtq :=
  { vq with nextAvailIdx := c.idx, usedWrapCount := c.wrap }

@[simp] theorem setCursor_descRing (vq : Virtq) (c : Cursor) :
    (vq.setCursor c).descRing = vq.descRing := rfl
@[simp] theorem setCursor_deviceEvent (vq : Virtq) (c : Cursor) :
    (vq.setCursor c).deviceEvent = vq.deviceEvent := rfl
@[simp] theorem setCursor_guestEvent (vq : Virtq) (c : Cursor) :
    (vq.setCursor c).guestEvent = vq.guestEvent := rfl
@[simp] theorem setCursor_info (vq : Virtq) (c : Cursor) : (vq.setCursor c).info = vq.info := rfl
@[simp] theorem setCursor_size (vq : Virtq) (c : Cursor) : (vq.setCursor c).size = vq.size := rfl
@[simp] theorem setCursor_cursor (vq : Virtq) (c : Cursor) : (vq.setCursor c).cursor = c := rfl
@[simp] theorem setCursor_setCursor (vq : Virtq) (c c' : Cursor) :
    (vq.setCursor c).setCursor c' = vq.setCursor c' := rfl
@[simp] theorem setCursor_self (vq : Virtq) : vq.setCursor vq.cursor = vq := rfl

end Virtq

/-- `VIRTQ_SIZE` -/
def virtqSize : Nat := 128

def virtqInit (vq : Virtq) : Virtq :=
  { vq with
    info := putLE (putLE vq.info 0 2 virtqSize) 4 2 0
    nextAvailIdx := 0
    usedWrapCount := true }

def virtqCheckNext (ram : Ram) (desc : Ptr) : Except Stop Bool := do
  let flags ← descFlags ram desc
  return flags.testBit vringDescFNext

/-- Returns the descriptor (`none` for NULL) and the queue with its cursor moved. -/
def virtqGetAvail (ram : Ram) (vq : Virtq) : Except Stop (Ptr × Virtq) := do
  let desc := vq.descRing.plus (16 * vq.nextAvailIdx)
  let flags ← descFlags ram desc
  let avail := flags.testBit vringPackedDescFAvail
  let used := flags.testBit vringPackedDescFUsed
  if avail ≠ vq.usedWrapCount ∨ used = vq.usedWrapCount then
    return (none, vq)
  -- `next_avail_idx` is a `uint16_t`
  let idx := (vq.nextAvailIdx + 1) % 2 ^ 16
  if idx ≥ vq.size then
    return (desc, { vq with nextAvailIdx := idx - vq.size, usedWrapCount := !vq.usedWrapCount })
  else
    return (desc, { vq with nextAvailIdx := idx })

/-! ## What a handler works on -/

/-- What a handler does to the ring; a descriptor is named by its address. -/
inductive RingEvent where
  | take (desc : Nat)
  | used (desc : Nat)
  | notify
deriving DecidableEq, Repr

/-- A queue with the guest memory, device register and backend its handler uses. -/
structure VqDev (β : Type) where
  vq : Virtq
  ram : Ram
  isrStatus : Nat
  backend : β
  trace : List RingEvent

/-- `VIRTIO_PCI_ISR_QUEUE` -/
def virtioPciIsrQueue : Nat := 1

namespace VqDev

variable {β : Type}

/-- `virtq_get_avail(vq)` -/
def getAvail (d : VqDev β) : Except Stop (Ptr × VqDev β) := do
  let (desc, vq) ← virtqGetAvail d.ram d.vq
  match desc with
  | none => return (none, { d with vq := vq })
  | some a => return (some a, { d with vq := vq, trace := d.trace ++ [.take a] })

/-- `desc->flags ^= (1ULL << VRING_PACKED_DESC_F_USED)` on the head of a buffer. -/
def markUsed (d : VqDev β) (desc : Ptr) : Except Stop (VqDev β) := do
  let ram ← xorDescUsed d.ram desc
  match desc with
  | none => return { d with ram := ram }
  | some a => return { d with ram := ram, trace := d.trace ++ [.used a] }

/-- `isr_status |= VIRTIO_PCI_ISR_QUEUE` -/
def raiseIsr (d : VqDev β) : VqDev β := { d with isrStatus := d.isrStatus ||| virtioPciIsrQueue }

end VqDev

/-- `virtq_handle_avail`, with the queue's `complete_request` and `notify_used` operations. -/
def virtqHandleAvail {β : Type} (completeRequest notifyUsed : VqDev β → Except Stop (VqDev β))
    (d : VqDev β) : Except Stop (VqDev β) :=
  if d.vq.enable = 0 then .ok d
  else do
    let d ← completeRequest d
    let flags ← d.ram.load (d.vq.guestEvent.plus 2) 2
    if flags = vringPackedEventFlagEnable then notifyUsed d else return d

/-! ## What a call can do, whatever the ring holds -/

/-- `virtq_get_avail` returns the descriptor under the cursor, or NULL with the queue as it was. -/
theorem virtqGetAvail_inv {ram : Ram} {vq vq' : Virtq} {desc : Ptr}
    (h : virtqGetAvail ram vq = .ok (desc, vq')) :
    (desc = none ∧ vq' = vq) ∨ desc = vq.descRing.plus (16 * vq.nextAvailIdx) := by
  obtain ⟨flags, -, h⟩ := bind_eq_ok.mp h
  simp only at h
  split at h
  · cases h; exact .inl ⟨rfl, rfl⟩
  · split at h
    · cases h; exact .inr rfl
    · cases h; exact .inr rfl

/-- What calls of `virtq_get_avail` can change in a queue: the cursor, which stays in the ring. A
call on a ring that is NULL does not return. -/
structure Virtq.Moved (vq vq' : Virtq) : Prop where
  info : vq'.info = vq.info
  descRing : vq'.descRing = vq.descRing
  deviceEvent : vq'.deviceEvent = vq.deviceEvent
  guestEvent : vq'.guestEvent = vq.guestEvent
  idx : vq.nextAvailIdx < vq.size → vq'.nextAvailIdx < vq.size
  null : vq.descRing = none → vq' = vq

theorem Virtq.Moved.refl (vq : Virtq) : Virtq.Moved vq vq :=
  ⟨rfl, rfl, rfl, rfl, fun h => h, fun _ => rfl⟩

theorem Virtq.Moved.trans {vq vq' vq'' : Virtq} (h : Virtq.Moved vq vq')
    (h' : Virtq.Moved vq' vq'') :
    Virtq.Moved vq vq'' where
  info := h'.info.trans h.info
  descRing := h'.descRing.trans h.descRing
  deviceEvent := h'.deviceEvent.trans h.deviceEvent
  guestEvent := h'.guestEvent.trans h.guestEvent
  idx := fun hi => by
    have hs : vq'.size = vq.size := by unfold Virtq.size; rw [h.info]
    have := h'.idx (by rw [hs]; exact h.idx hi)
    rwa [hs] at this
  null := fun hn => by
    have hvq := h.null hn
    rw [hvq] at h'
    exact h'.null hn

theorem virtqGetAvail_moved {ram : Ram} {vq vq' : Virtq} {desc : Ptr}
    (h : virtqGetAvail ram vq = .ok (desc, vq')) : vq.Moved vq' := by
  have hsize : vq.size < 2 ^ 16 := getLE_lt vq.info 0 2
  obtain ⟨flags, hflags, h⟩ := bind_eq_ok.mp h
  have hnull : vq.descRing = none → vq' = vq := fun hn => by rw [hn] at hflags; cases hflags
  simp only at h
  split at h
  · cases h; exact .refl vq
  · split at h
    · rename_i hwrap
      cases h
      refine ⟨rfl, rfl, rfl, rfl, fun hi => ?_, hnull⟩
      simp only
      omega
    · rename_i hwrap
      cases h
      refine ⟨rfl, rfl, rfl, rfl, fun _ => ?_, hnull⟩
      simp only
      omega

namespace VqDev

variable {β : Type} {d d' : VqDev β}

theorem getAvail_moved {desc : Ptr} (h : d.getAvail = .ok (desc, d')) : d.vq.Moved d'.vq := by
  obtain ⟨⟨p, vq⟩, hvq, h⟩ := bind_eq_ok.mp h
  cases p with
  | none => cases h; exact virtqGetAvail_moved hvq
  | some a => cases h; exact virtqGetAvail_moved hvq

theorem getAvail_inv {desc : Ptr} (h : d.getAvail = .ok (desc, d')) :
    (desc = none ∧ d' = d) ∨
      ∃ a vq, desc = some a ∧ virtqGetAvail d.ram d.vq = .ok (some a, vq) ∧
        d' = { d with vq := vq, trace := d.trace ++ [.take a] } := by
  obtain ⟨⟨p, vq⟩, hvq, h⟩ := bind_eq_ok.mp h
  cases p with
  | none =>
    cases h
    rcases virtqGetAvail_inv hvq with ⟨-, rfl⟩ | hnull
    · exact .inl ⟨rfl, rfl⟩
    · -- a NULL ring: reading its flags is not a call that returns
      obtain ⟨flags, hflags, -⟩ := bind_eq_ok.mp hvq
      rw [← hnull] at hflags
      cases hflags
  | some a =>
    cases h
    exact .inr ⟨a, vq, rfl, hvq, rfl⟩

theorem getAvail_ram {desc : Ptr} (h : d.getAvail = .ok (desc, d')) : d'.ram = d.ram := by
  rcases getAvail_inv h with ⟨-, rfl⟩ | ⟨a, vq, -, -, rfl⟩
  · rfl
  · rfl

theorem getAvail_trace {a : Nat} (h : d.getAvail = .ok (some a, d')) :
    d'.trace = d.trace ++ [.take a] := by
  rcases getAvail_inv h with ⟨hp, -⟩ | ⟨b, vq, hp, -, rfl⟩
  · cases hp
  · cases hp; rfl

/-- A descriptor whose flags are in guest memory is there as a whole, or its first field is not. -/
theorem getAvail_whole {a : Nat} (h : d.getAvail = .ok (some a, d')) :
    a + 16 ≤ ramSize ∨ ramSize < a + 8 := by
  obtain ⟨vq, hvq⟩ : ∃ vq, virtqGetAvail d.ram d.vq = .ok (some a, vq) := by
    rcases getAvail_inv h with ⟨hp, -⟩ | ⟨b, vq, hp, hvq, -⟩
    · cases hp
    · cases hp
      exact ⟨vq, hvq⟩
  have ha : some a = d.vq.descRing.plus (16 * d.vq.nextAvailIdx) :=
    (virtqGetAvail_inv hvq).resolve_left fun hn => by cases hn.1
  obtain ⟨flags, hflags, -⟩ := bind_eq_ok.mp hvq
  rw [← ha] at hflags
  have hin : (a + 14) % 2 ^ 64 + 2 ≤ ramSize := Ram.load_in hflags (by decide)
  unfold ramSize at hin ⊢
  by_cases hlt : a + 14 < 2 ^ 64
  · rw [Nat.mod_eq_of_lt hlt] at hin
    exact .inl (by omega)
  · exact .inr (by omega)

/-- A descriptor whose address is read is in guest memory. -/
theorem getAvail_in {ram : Ram} {a addr : Nat} (h : d.getAvail = .ok (some a, d'))
    (haddr : descAddr ram (some a) = .ok addr) : a + 16 ≤ ramSize := by
  refine (getAvail_whole h).resolve_right fun hout => ?_
  have := Ram.load_in haddr (by decide)
  omega

theorem markUsed_inv {a : Nat} (h : d.markUsed (some a) = .ok d') :
    ∃ ram, xorDescUsed d.ram (some a) = .ok ram ∧
      d' = { d with ram := ram, trace := d.trace ++ [.used a] } := by
  obtain ⟨ram, hram, h⟩ := bind_eq_ok.mp h
  cases h
  exact ⟨ram, hram, rfl⟩

end VqDev

/-! ## Descriptors of a ring that lies in guest memory -/

/-- The descriptor stored at host address `a`. -/
def descAt (m : Store) (a : Nat) : VringPackedDesc :=
  ⟨getLE m a 8, getLE m (a + 8) 4, getLE m (a + 12) 2, getLE m (a + 14) 2⟩

/-- Where the buffer of the descriptor at `a` is in the host's mapping. -/
def Ram.bufAt (ram : Ram) (a : Nat) : Nat := (descAt ram.bytes a).addr - ram.base

/-- Store the four fields of `desc` at host address `a`. -/
def putDesc (m : Store) (a : Nat) (desc : VringPackedDesc) : Store :=
  putLE (putLE (putLE (putLE m a 8 desc.addr) (a + 8) 4 desc.len) (a + 12) 2 desc.id)
    (a + 14) 2 desc.flags

/-- The fields of `desc` fit their widths. -/
structure VringPackedDesc.Fits (desc : VringPackedDesc) : Prop where
  addr : desc.addr < 2 ^ 64
  len : desc.len < 2 ^ 32
  id : desc.id < 2 ^ 16
  flags : desc.flags < 2 ^ 16

theorem descAt_fits (m : Store) (a : Nat) : (descAt m a).Fits :=
  ⟨getLE_lt m a 8, getLE_lt m (a + 8) 4, getLE_lt m (a + 12) 2, getLE_lt m (a + 14) 2⟩

theorem descAt_putDesc_same (m : Store) (a : Nat) {desc : VringPackedDesc} (h : desc.Fits) :
    descAt (putDesc m a desc) a = desc := by
  obtain ⟨h1, h2, h3, h4⟩ := h
  obtain ⟨addr, len, id, flags⟩ := desc
  simp only [descAt, putDesc, VringPackedDesc.mk.injEq]
  refine ⟨?_, ?_, ?_, ?_⟩
  · rw [getLE_putLE_apart (by simp [Span.Apart]), getLE_putLE_apart (by simp [Span.Apart]),
      getLE_putLE_apart (by simp [Span.Apart]), getLE_putLE_same]
    exact Nat.mod_eq_of_lt h1
  · rw [getLE_putLE_apart (by simp [Span.Apart]), getLE_putLE_apart (by simp [Span.Apart]),
      getLE_putLE_same]
    exact Nat.mod_eq_of_lt h2
  · rw [getLE_putLE_apart (by simp [Span.Apart]), getLE_putLE_same]
    exact Nat.mod_eq_of_lt h3
  · rw [getLE_putLE_same]
    exact Nat.mod_eq_of_lt h4

theorem putDesc_out {m : Store} {a p : Nat} {desc : VringPackedDesc} (h : ¬ Span.Has ⟨a, 16⟩ p) :
    putDesc m a desc p = m p := by
  simp only [Span.Has] at h
  unfold putDesc
  rw [putLE_out (by simp only [Span.Has]; omega), putLE_out (by simp only [Span.Has]; omega),
    putLE_out (by simp only [Span.Has]; omega), putLE_out (by simp only [Span.Has]; omega)]

theorem descAt_congr {m m' : Store} {a : Nat} (h : ∀ p, Span.Has ⟨a, 16⟩ p → m p = m' p) :
    descAt m a = descAt m' a := by
  have hs : ∀ k n, k + n ≤ 16 → getLE m (a + k) n = getLE m' (a + k) n := by
    intro k n hk
    unfold getLE
    congr 1
    exact slice_congr fun i hi => h _ (by simp only [Span.Has]; omega)
  simp only [descAt, VringPackedDesc.mk.injEq]
  exact ⟨hs 0 8 (by omega), hs 8 4 (by omega), hs 12 2 (by omega), hs 14 2 (by omega)⟩

theorem descAt_patch_apart {m : Store} {a b : Nat} {bs : List UInt8}
    (h : Span.Apart ⟨a, 16⟩ ⟨b, bs.length⟩) : descAt (patch m b bs) a = descAt m a :=
  descAt_congr fun _ hp => patch_out (h.not_has hp)

/-- A descriptor that was copied. -/
theorem descAt_copy (d m : Store) (a b : Nat) {k len : Nat} (h : k + 16 ≤ len) :
    descAt (patch d b (slice m a len)) (b + k) = descAt m (a + k) := by
  have hfield : ∀ i n, i + n ≤ 16 →
      getLE (patch d b (slice m a len)) (b + k + i) n = getLE m (a + k + i) n := by
    intro i n hi
    rw [Nat.add_assoc, Nat.add_assoc]
    exact getLE_copy d m a b (by omega)
  simp only [descAt, VringPackedDesc.mk.injEq]
  exact ⟨hfield 0 8 (by omega), hfield 8 4 (by omega), hfield 12 2 (by omega),
    hfield 14 2 (by omega)⟩

theorem descAt_putDesc_apart {m : Store} {a b : Nat} {desc : VringPackedDesc}
    (h : Span.Apart ⟨a, 16⟩ ⟨b, 16⟩) : descAt (putDesc m b desc) a = descAt m a :=
  descAt_congr fun _ hp => putDesc_out (h.not_has hp)

section InRam

variable {ram : Ram} {a : Nat}

theorem plus_ok {k : Nat} (h : a + 16 ≤ ramSize) (hk : k ≤ 16) :
    Ptr.plus (some a) k = some (a + k) :=
  plus_ram (by omega)

theorem descAddr_ok (h : a + 16 ≤ ramSize) :
    descAddr ram (some a) = .ok (descAt ram.bytes a).addr := Ram.load_ok (by omega)

theorem descLen_ok (h : a + 16 ≤ ramSize) :
    descLen ram (some a) = .ok (descAt ram.bytes a).len := by
  rw [descLen, plus_ok h (by omega)]; exact Ram.load_ok (by omega)

theorem descFlags_ok (h : a + 16 ≤ ramSize) :
    descFlags ram (some a) = .ok (descAt ram.bytes a).flags := by
  rw [descFlags, plus_ok h (by omega)]; exact Ram.load_ok (by omega)

theorem virtqCheckNext_ok (h : a + 16 ≤ ramSize) :
    virtqCheckNext ram (some a) = .ok ((descAt ram.bytes a).flags.testBit vringDescFNext) := by
  rw [virtqCheckNext, descFlags_ok h]; rfl

theorem setDescLen_ok (h : a + 16 ≤ ramSize) (v : Nat) :
    setDescLen ram (some a) v = .ok { ram with bytes := putLE ram.bytes (a + 8) 4 v } := by
  rw [setDescLen, plus_ok h (by omega)]; exact Ram.store_ok (by omega)

theorem xorDescUsed_ok (h : a + 16 ≤ ramSize) :
    xorDescUsed ram (some a) = .ok { ram with
      bytes := putLE ram.bytes (a + 14) 2
        ((descAt ram.bytes a).flags ^^^ 2 ^ vringPackedDescFUsed) } := by
  rw [xorDescUsed, descFlags_ok h, plus_ok h (by omega), ok_bind]
  exact Ram.store_ok (by omega)

end InRam

/-- The value of `flags` after USED is toggled, as the two bytes hold it. -/
theorem xor_used_lt {f : Nat} (h : f < 2 ^ 16) : f ^^^ 2 ^ vringPackedDescFUsed < 2 ^ 16 :=
  Nat.xor_lt_two_pow h (by decide)

theorem descAt_xorUsed (m : Store) (a : Nat) :
    descAt (putLE m (a + 14) 2 ((descAt m a).flags ^^^ 2 ^ vringPackedDescFUsed)) a =
      { descAt m a with flags := (descAt m a).flags ^^^ 2 ^ vringPackedDescFUsed } := by
  have hf := xor_used_lt (descAt_fits m a).flags
  generalize (descAt m a).flags ^^^ 2 ^ vringPackedDescFUsed = v at hf
  simp only [descAt, VringPackedDesc.mk.injEq]
  refine ⟨?_, ?_, ?_, ?_⟩
  · exact getLE_putLE_apart (by simp [Span.Apart])
  · exact getLE_putLE_apart (by simp [Span.Apart])
  · exact getLE_putLE_apart (by simp [Span.Apart])
  · rw [getLE_putLE_same]; exact Nat.mod_eq_of_lt hf

theorem descAt_putLen (m : Store) (a v : Nat) :
    descAt (putLE m (a + 8) 4 v) a = { descAt m a with len := v % 2 ^ 32 } := by
  simp only [descAt, VringPackedDesc.mk.injEq]
  refine ⟨?_, ?_, ?_, ?_⟩
  · exact getLE_putLE_apart (by simp [Span.Apart])
  · exact getLE_putLE_same m (a + 8) 4 v
  · exact getLE_putLE_apart (by simp [Span.Apart])
  · exact getLE_putLE_apart (by simp [Span.Apart])

/-! ## The cursor of a queue -/

/-- A descriptor with these flags is available to a device whose wrap bit is `wrap`. -/
def availFor (wrap : Bool) (flags : Nat) : Bool :=
  flags.testBit vringPackedDescFAvail == wrap && flags.testBit vringPackedDescFUsed != wrap

/-- The queue's ring is the `n` descriptors from host address `ring` on, all in guest memory. -/
structure RingOf (vq : Virtq) (ring n : Nat) : Prop where
  descRing : vq.descRing = some ring
  size : vq.size = n
  idx : vq.nextAvailIdx < n
  inRam : ring + 16 * n ≤ ramSize

theorem RingOf.slot_le {vq : Virtq} {ring n i : Nat} (h : RingOf vq ring n) (hi : i < n) :
    ring + 16 * i + 16 ≤ ramSize := by
  have := h.inRam; omega

theorem RingOf.setCursor {vq : Virtq} {ring n : Nat} (h : RingOf vq ring n) {c : Cursor}
    (hc : c.idx < n) : RingOf (vq.setCursor c) ring n :=
  ⟨h.descRing, h.size, hc, h.inRam⟩

theorem RingOf.size_lt {vq : Virtq} {ring n : Nat} (h : RingOf vq ring n) : n < 2 ^ 16 := by
  have := getLE_lt vq.info 0 2
  rw [← h.size]; exact this

theorem Cursor.next_idx_lt {n : Nat} {c : Cursor} (h : c.idx < n) : (c.next n).idx < n := by
  unfold Cursor.next
  split
  · simp only; omega
  · simp only; omega

/-- A call of `virtq_get_avail` on a ring in guest memory: it returns the descriptor under the
cursor and moves the cursor one slot when that descriptor is available, and does nothing else. -/
theorem virtqGetAvail_eq {ram : Ram} {vq : Virtq} {ring n : Nat} (h : RingOf vq ring n) :
    virtqGetAvail ram vq = .ok
      (if availFor vq.usedWrapCount (descAt ram.bytes (ring + 16 * vq.nextAvailIdx)).flags then
        (some (ring + 16 * vq.nextAvailIdx), vq.setCursor (vq.cursor.next n))
      else (none, vq)) := by
  have hslot := h.slot_le h.idx
  have hn := h.size_lt
  have hi := h.idx
  have hp : vq.descRing.plus (16 * vq.nextAvailIdx) = some (ring + 16 * vq.nextAvailIdx) := by
    rw [h.descRing]; exact plus_ram (by omega)
  have hmod : (vq.nextAvailIdx + 1) % 2 ^ 16 = vq.nextAvailIdx + 1 := Nat.mod_eq_of_lt (by omega)
  simp only [virtqGetAvail, hp, descFlags_ok hslot, ok_bind, hmod, h.size]
  generalize (descAt ram.bytes (ring + 16 * vq.nextAvailIdx)).flags = f
  by_cases ha : availFor vq.usedWrapCount f = true
  · have hcond : ¬ (f.testBit vringPackedDescFAvail ≠ vq.usedWrapCount ∨
        f.testBit vringPackedDescFUsed = vq.usedWrapCount) := by
      simpa [availFor] using ha
    rw [if_neg hcond, if_pos ha]
    by_cases hw : vq.nextAvailIdx + 1 ≥ n
    · have hc : vq.cursor.next n = ⟨vq.nextAvailIdx + 1 - n, !vq.usedWrapCount⟩ := if_pos hw
      rw [if_pos hw, hc]; rfl
    · have hc : vq.cursor.next n = ⟨vq.nextAvailIdx + 1, vq.usedWrapCount⟩ := if_neg hw
      rw [if_neg hw, hc]; rfl
  · have hcond : f.testBit vringPackedDescFAvail ≠ vq.usedWrapCount ∨
        f.testBit vringPackedDescFUsed = vq.usedWrapCount := by
      simp only [availFor, Bool.and_eq_true, beq_iff_eq, bne_iff_ne, ne_eq, not_and,
        Decidable.not_not] at ha
      by_cases h' : f.testBit vringPackedDescFAvail = vq.usedWrapCount
      · exact .inr (ha h')
      · exact .inl h'
    rw [if_pos hcond, if_neg ha]; rfl

/-- `VqDev.getAvail` on a ring in guest memory. -/
theorem VqDev.getAvail_eq {β : Type} {d : VqDev β} {ring n : Nat} (h : RingOf d.vq ring n) :
    d.getAvail = .ok
      (if availFor d.vq.usedWrapCount
          (descAt d.ram.bytes (ring + 16 * d.vq.nextAvailIdx)).flags then
        (some (ring + 16 * d.vq.nextAvailIdx),
          { d with
            vq := d.vq.setCursor (d.vq.cursor.next n)
            trace := d.trace ++ [.take (ring + 16 * d.vq.nextAvailIdx)] })
      else (none, d)) := by
  rw [VqDev.getAvail, virtqGetAvail_eq h, ok_bind]
  by_cases ha : availFor d.vq.usedWrapCount
      (descAt d.ram.bytes (ring + 16 * d.vq.nextAvailIdx)).flags = true
  · simp only [if_pos ha]; rfl
  · simp only [if_neg ha]; rfl

/-- A descriptor that `virtq_get_avail` returns is the one under the cursor, and the ring stays
where it is. -/
theorem VqDev.getAvail_slot {β : Type} {d d' : VqDev β} {ring n a : Nat} (h : RingOf d.vq ring n)
    (hget : d.getAvail = .ok (some a, d')) :
    a = ring + 16 * d.vq.nextAvailIdx ∧ RingOf d'.vq ring n := by
  rw [VqDev.getAvail_eq h] at hget
  split at hget
  · cases hget
    exact ⟨rfl, h.setCursor (Cursor.next_idx_lt h.idx)⟩
  · cases hget

/-! ## A queue at a position

Runs of a handler over a ring in guest memory are followed by the position of the cursor. -/

/-- Host address of the descriptor at position `p` of the ring. -/
def slotAt (ring n p : Nat) : Nat := ring + 16 * (p % n)

/-- The slot at position `q` of the ring is available. -/
def availAt (ring n : Nat) (ram : Ram) (q : Nat) : Bool :=
  availFor (wrapAt n q) (descAt ram.bytes (slotAt ring n q)).flags

/-- The descriptor at position `q` says that its chain goes on. -/
def nextAt (ring n : Nat) (ram : Ram) (q : Nat) : Bool :=
  (descAt ram.bytes (slotAt ring n q)).flags.testBit vringDescFNext

/-- The queue's ring is the `n` descriptors at `ring`, and its cursor is at position `p`. -/
structure QueueAt (vq : Virtq) (ring n p : Nat) : Prop where
  descRing : vq.descRing = some ring
  size : vq.size = n
  pos : 0 < n
  inRam : ring + 16 * n ≤ ramSize
  cursor : vq.cursor = Cursor.ofPos n p

theorem QueueAt.ringOf {vq : Virtq} {ring n p : Nat} (h : QueueAt vq ring n p) :
    RingOf vq ring n := by
  refine ⟨h.descRing, h.size, ?_, h.inRam⟩
  have hidx : vq.nextAvailIdx = p % n := congrArg Cursor.idx h.cursor
  rw [hidx]
  exact Nat.mod_lt p h.pos

theorem QueueAt.slot_le {vq : Virtq} {ring n p : Nat} (h : QueueAt vq ring n p) (q : Nat) :
    slotAt ring n q + 16 ≤ ramSize :=
  h.ringOf.slot_le (Nat.mod_lt q h.pos)

theorem QueueAt.at {vq : Virtq} {ring n p : Nat} (h : QueueAt vq ring n p) (q : Nat) :
    QueueAt (vq.setCursor (Cursor.ofPos n q)) ring n q :=
  ⟨h.descRing, h.size, h.pos, h.inRam, rfl⟩

/-- Wherever the cursor of a ring is, it is at some position. -/
theorem RingOf.queueAt {vq : Virtq} {ring n : Nat} (h : RingOf vq ring n) :
    QueueAt vq ring n (vq.cursor.pos n) :=
  ⟨h.descRing, h.size, Nat.lt_of_le_of_lt (Nat.zero_le _) h.idx, h.inRam,
    (Cursor.ofPos_pos (c := vq.cursor) h.idx).symm⟩

/-- Two positions of one lap have different slots. -/
theorem slotAt_apart {ring n p q : Nat} (hn : 0 < n) (hpq : p < q) (hlap : q < p + n) :
    Span.Apart ⟨slotAt ring n q, 16⟩ ⟨slotAt ring n p, 16⟩ := by
  have hne : q % n ≠ p % n := by
    intro he
    have := mod_inj (a := p) (by omega) hlap (Nat.le_refl p) (by omega) he
    omega
  have hq := Nat.mod_lt q hn
  have hp := Nat.mod_lt p hn
  simp only [Span.Apart, slotAt]
  omega

theorem slotAt_add_lap (ring n p : Nat) : slotAt ring n (p + n) = slotAt ring n p := by
  simp [slotAt]

theorem slotAt_in_ring {ring n : Nat} (hn : 0 < n) (p : Nat) {a : Nat}
    (h : Span.Has ⟨slotAt ring n p, 16⟩ a) : Span.Has ⟨ring, 16 * n⟩ a := by
  have := Nat.mod_lt p hn
  simp only [Span.Has, slotAt] at h ⊢
  omega

/-- The device after it took the descriptor at position `p`. -/
def VqDev.took {β : Type} (d : VqDev β) (ring n p : Nat) : VqDev β :=
  { d with
    vq := d.vq.setCursor (Cursor.ofPos n (p + 1))
    trace := d.trace ++ [.take (slotAt ring n p)] }

@[simp] theorem VqDev.took_vq {β : Type} (d : VqDev β) (ring n p : Nat) :
    (d.took ring n p).vq = d.vq.setCursor (Cursor.ofPos n (p + 1)) := rfl
@[simp] theorem VqDev.took_ram {β : Type} (d : VqDev β) (ring n p : Nat) :
    (d.took ring n p).ram = d.ram := rfl
@[simp] theorem VqDev.took_isrStatus {β : Type} (d : VqDev β) (ring n p : Nat) :
    (d.took ring n p).isrStatus = d.isrStatus := rfl
@[simp] theorem VqDev.took_backend {β : Type} (d : VqDev β) (ring n p : Nat) :
    (d.took ring n p).backend = d.backend := rfl
@[simp] theorem VqDev.took_trace {β : Type} (d : VqDev β) (ring n p : Nat) :
    (d.took ring n p).trace = d.trace ++ [.take (slotAt ring n p)] := rfl

/-- `virtq_get_avail` on a queue at position `p`, when the descriptor there is available. -/
theorem VqDev.getAvail_some {β : Type} {d : VqDev β} {ring n p : Nat} (h : QueueAt d.vq ring n p)
    (ha : availFor (wrapAt n p) (descAt d.ram.bytes (slotAt ring n p)).flags = true) :
    d.getAvail = .ok (some (slotAt ring n p), d.took ring n p) := by
  have hidx : d.vq.nextAvailIdx = p % n := congrArg Cursor.idx h.cursor
  have hwrap : d.vq.usedWrapCount = wrapAt n p := congrArg Cursor.wrap h.cursor
  rw [VqDev.getAvail_eq h.ringOf, h.cursor, Cursor.next_ofPos h.pos, hidx, hwrap]
  exact congrArg _ (if_pos ha)

theorem VqDev.getAvail_none {β : Type} {d : VqDev β} {ring n p : Nat} (h : QueueAt d.vq ring n p)
    (ha : availFor (wrapAt n p) (descAt d.ram.bytes (slotAt ring n p)).flags = false) :
    d.getAvail = .ok (none, d) := by
  have hidx : d.vq.nextAvailIdx = p % n := congrArg Cursor.idx h.cursor
  have hwrap : d.vq.usedWrapCount = wrapAt n p := congrArg Cursor.wrap h.cursor
  rw [VqDev.getAvail_eq h.ringOf, hidx, hwrap]
  exact congrArg _ (if_neg (by rw [slotAt] at ha; simp [ha]))

/-- A call that returns a descriptor moves the cursor one position. -/
theorem VqDev.getAvail_next {β : Type} {d d' : VqDev β} {ring n p a : Nat}
    (h : QueueAt d.vq ring n p) (hget : d.getAvail = .ok (some a, d')) :
    d' = d.took ring n p ∧ a = slotAt ring n p := by
  cases ha : availFor (wrapAt n p) (descAt d.ram.bytes (slotAt ring n p)).flags with
  | true => rw [VqDev.getAvail_some h ha] at hget; cases hget; exact ⟨rfl, rfl⟩
  | false => rw [VqDev.getAvail_none h ha] at hget; cases hget

end KvmHost
