import KvmHost.BlkRequest

/-!
# KvmHost.BlkSync

How many descriptors a turn of the block device's loop takes.

The handler decides it from the request type: three for IN and OUT, two for every other type. The
driver decides it with the NEXT bits. `Chain` is a chain of any length `k` of at least two, and
`Synced` says that the turn takes it whole: the cursor ends behind it, its last descriptor holds the
status, and the loop goes on with the next buffer's head. `chain_synced_iff` says that this happens
for the one length that the type stands for.
-/

namespace KvmHost
namespace Blk

open ByteStore Lap

/-- A chain of `k` descriptors at position `p`, available and linked by NEXT, that starts with the
16-byte header of a request of this type; `bufs` are its buffers, as host ranges. -/
structure Chain (base : Nat) (m : Store) (ring n p k type : Nat) (bufs : Nat → Span) : Prop where
  two : 2 ≤ k
  le : k ≤ n
  avail : ∀ j < k, availFor (wrapAt n (p + j)) (descAt m (slotAt ring n (p + j))).flags = true
  next : ∀ j < k,
    (descAt m (slotAt ring n (p + j))).flags.testBit vringDescFNext = decide (j + 1 < k)
  addr : ∀ j < k, (descAt m (slotAt ring n (p + j))).addr = base + (bufs j).lo
  len : ∀ j < k, (descAt m (slotAt ring n (p + j))).len = (bufs j).len
  header : (bufs 0).len = 16
  type : getLE m (bufs 0).lo 4 = type
  status : 0 < (bufs (k - 1)).len
  inRam : ∀ j < k, (bufs j).lo + (bufs j).len ≤ ramSize
  offRing : ∀ j < k, (bufs j).Apart ⟨ring, 16 * n⟩

/-- The status values a request of this type can end with. -/
def Answers (type st : Nat) : Prop :=
  if type = virtioBlkTIn ∨ type = virtioBlkTOut then st = virtioBlkSOk ∨ st = virtioBlkSIoerr
  else st = virtioBlkSUnsupp

/-- The turn of the loop that starts at a chain of `k` descriptors with last buffer `last`: the
cursor moves by `k`, the status is in the last buffer, and the loop goes on, so that the next header
it reads is the descriptor behind the chain. -/
def Synced (dev : VirtioBlkDev) (req : Store) (n k type last : Nat) : Prop :=
  ∃ dev' req', round dev req = .ok (.loop, dev', req') ∧
    dev'.vq.cursor = dev.vq.cursor.advance n k ∧ Answers type (getLE dev'.ram.bytes last 1)

section Sync

variable {dev dev' : VirtioBlkDev} {req req' : Store} {ring n p k type : Nat} {bufs : Nat → Span}

theorem Chain.copyHeader_eq (hc : Chain dev.ram.base dev.ram.bytes ring n p k type bufs)
    (hq : QueueAt dev.vq ring n p) (req : Store) :
    copyHeader (dev.took ring n p) (some (slotAt ring n p)) req =
      .ok (patch req 0 (slice dev.ram.bytes (bufs 0).lo 16)) := by
  have hk := hc.two
  have h0 : 0 < k := by omega
  have hram := hc.inRam 0 h0
  rw [hc.header] at hram
  exact copyHeader_ok req (hq.slot_le p) (hc.addr 0 h0) (by rw [← hc.header]; exact hc.len 0 h0)
    (by decide) hram

/-- A turn that goes on has taken as many descriptors as the type stands for. -/
theorem loop_cursor (hq : QueueAt dev.vq ring n p)
    (hc : Chain dev.ram.base dev.ram.bytes ring n p k type bufs)
    (h : round dev req = .ok (.loop, dev', req')) :
    dev'.vq.cursor =
      Cursor.ofPos n (p + if type = virtioBlkTIn ∨ type = virtioBlkTOut then 3 else 2) := by
  rcases round_inv h with ⟨-, hflow, -⟩ | ⟨head, d₁, req₁, hget, hcopy, hcases⟩
  · cases hflow
  · obtain ⟨rfl, rfl⟩ := VqDev.getAvail_next hq hget
    have htype : VirtioBlkReq.type req₁ = type := by
      rw [hc.copyHeader_eq hq req] at hcopy
      cases hcopy
      rw [(header_fields req dev.ram.bytes (bufs 0).lo).1, hc.type]
    rcases hcases with ⟨-, -, hflow, -⟩ | ⟨hio, -, desc, status, d₂, req₂, htr, hfin⟩ | ⟨hio, hfin⟩
    · cases hflow
    · obtain ⟨a, d₁', hget₂, -, hvq₂, -⟩ := transfer_inv htr
      obtain ⟨rfl, -⟩ := VqDev.getAvail_next (p := p + 1) (hq.at (p + 1)) hget₂
      have hq₂ : QueueAt d₂.vq ring n (p + 2) := by rw [hvq₂]; exact hq.at (p + 2)
      rcases finish_inv hfin with ⟨-, hflow, -⟩ | ⟨-, -, b, d₃, hget₃, hvq₃, -⟩
      · cases hflow
      · obtain ⟨rfl, -⟩ := VqDev.getAvail_next hq₂ hget₃
        rw [hvq₃, if_pos (by rw [IsIoType, htype] at hio; exact hio)]
        rfl
    · rcases finish_inv hfin with ⟨-, hflow, -⟩ | ⟨-, -, b, d₃, hget₃, hvq₃, -⟩
      · cases hflow
      · obtain ⟨rfl, -⟩ := VqDev.getAvail_next (hq.at (p + 1)) hget₃
        rw [hvq₃, if_neg (by rw [IsIoType, htype] at hio; exact hio)]
        rfl

/-- `finish` leaves the status in the buffer of the descriptor it takes. -/
theorem finished_status {head q status st : Nat} {d : VirtioBlkDev} (hst : st < 256)
    (hoff : Span.Apart ⟨status, 1⟩ ⟨head, 16⟩) :
    getLE (finished ring n q head status st d).ram.bytes status 1 = st := by
  rw [finished, finishMem_status hoff]
  exact Nat.mod_eq_of_lt hst

/-- A byte in a buffer off the ring is off every descriptor. -/
theorem first_off_slot {s : Span} (hn : 0 < n) (h : s.Apart ⟨ring, 16 * n⟩) (hpos : 0 < s.len) :
    Span.Apart ⟨s.lo, 1⟩ ⟨slotAt ring n p, 16⟩ := by
  have := Nat.mod_lt p hn
  simp only [Span.Apart, slotAt] at h ⊢
  omega

/-- A request other than IN and OUT, with exactly one descriptor behind its header. -/
theorem synced_other (hq : QueueAt dev.vq ring n p)
    (hc : Chain dev.ram.base dev.ram.bytes ring n p 2 type bufs)
    (hio : ¬ (type = virtioBlkTIn ∨ type = virtioBlkTOut)) :
    Synced dev req n 2 type (bufs 1).lo := by
  have hst := hc.inRam 1 (by omega)
  have hpos : 0 < (bufs 1).len := hc.status
  have hnext := hc.next 0 (by omega)
  have hfin := finish_ok (dev.took ring n p) (slotAt ring n p)
    (slotAt ring n p) (bufs 1).lo virtioBlkSUnsupp (hq.at (p + 1)) (hq.slot_le p)
    (hq.slot_le p) (by simpa using hnext) (hc.avail 1 (by omega)) (hc.addr 1 (by omega)) (by omega)
  have htype : VirtioBlkReq.type (patch req 0 (slice dev.ram.bytes (bufs 0).lo 16)) = type := by
    rw [(header_fields req dev.ram.bytes (bufs 0).lo).1, hc.type]
  refine ⟨finished ring n (p + 1) (slotAt ring n p) (bufs 1).lo virtioBlkSUnsupp
    (dev.took ring n p), patch req 0 (slice dev.ram.bytes (bufs 0).lo 16), ?_, ?_, ?_⟩
  · rw [round_took req hq (hc.avail 0 (by omega))]
    simp only [body, hc.copyHeader_eq hq req, ok_bind, htype, if_neg hio, hfin]
    rfl
  · rw [hq.cursor, Cursor.advance_ofPos hq.pos]
    rfl
  · rw [Answers, if_neg hio]
    exact finished_status (by decide) (first_off_slot hq.pos (hc.offRing 1 (by omega)) hpos)

/-- An IN or OUT request with exactly two descriptors behind its header. -/
theorem synced_io (hq : QueueAt dev.vq ring n p)
    (hc : Chain dev.ram.base dev.ram.bytes ring n p 3 type bufs)
    (hio : type = virtioBlkTIn ∨ type = virtioBlkTOut) :
    Synced dev req n 3 type (bufs 2).lo := by
  have hst := hc.inRam 2 (by omega)
  have hpos : 0 < (bufs 2).len := hc.status
  have htype : VirtioBlkReq.type (patch req 0 (slice dev.ram.bytes (bufs 0).lo 16)) = type := by
    rw [(header_fields req dev.ram.bytes (bufs 0).lo).1, hc.type]
  obtain ⟨r, bytes, img, req₂, htr, hframe, -, -⟩ := transfer_total (dev.took ring n p)
    (patch req 0 (slice dev.ram.bytes (bufs 0).lo 16)) (hq.at (p + 1)) (hc.avail 1 (by omega))
    (hc.addr 1 (by omega)) (hc.len 1 (by omega))
    (Nat.le_trans (Nat.add_le_add_left (Nat.mod_le _ _) _) (hc.inRam 1 (by omega)))
  -- the data is off the ring, so the rest of the chain is as the driver wrote it
  have hdesc : ∀ q, descAt bytes (slotAt ring n q) = descAt dev.ram.bytes (slotAt ring n q) :=
    fun q => descAt_congr fun a ha =>
      hframe a ((hc.offRing 1 (by omega)).symm.not_has (slotAt_in_ring hq.pos q ha))
  have hbody := body_of_transfer hq (hc.copyHeader_eq hq req) (by rw [IsIoType, htype]; exact hio)
    (fun j hj => by rw [hc.next j (by omega)]; exact decide_eq_true (by omega)) htr
      (hq.at (p + 2)) rfl
    (fun j _ _ => hdesc (p + j)) (hc.avail 2 (by omega)) (hc.addr 2 (by omega)) (by omega)
  refine ⟨_, req₂, (round_took req hq (hc.avail 0 (by omega))).trans hbody, ?_, ?_⟩
  · rw [hq.cursor, Cursor.advance_ofPos hq.pos]
    rfl
  · rw [Answers, if_pos hio, finished_status (callStatus_lt r)
      (first_off_slot hq.pos (hc.offRing 2 (by omega)) hpos)]
    cases r with
    | none => exact .inr rfl
    | some k => exact .inl rfl

/-- **Ring synchronisation.** A turn of the loop takes a chain whole exactly when its length is the
one the request type stands for: three descriptors for IN and OUT, two for every other type. -/
theorem chain_synced_iff (hq : QueueAt dev.vq ring n p)
    (hc : Chain dev.ram.base dev.ram.bytes ring n p k type bufs) :
    Synced dev req n k type (bufs (k - 1)).lo ↔
      k = if type = virtioBlkTIn ∨ type = virtioBlkTOut then 3 else 2 := by
  constructor
  · rintro ⟨dev', req', hround, hcur, -⟩
    have htwo := hc.two
    have hle := hc.le
    rw [loop_cursor hq hc hround, hq.cursor, Cursor.advance_ofPos hq.pos] at hcur
    have hidx := congrArg Cursor.idx hcur
    split at hidx
    · rw [if_pos ‹_›]
      have := mod_inj (a := p + 2) (by omega) (by omega) (by omega) (by omega) hidx
      omega
    · rw [if_neg ‹_›]
      have := mod_inj (a := p + 2) (by omega) (by omega) (by omega) (by omega) hidx
      omega
  · intro hk
    split at hk
    · subst hk; exact synced_io hq hc ‹_›
    · subst hk; exact synced_other hq hc ‹_›

end Sync

/-! ## GET_ID with a data descriptor

The driver sends GET_ID (type 8) as header, 20-byte buffer, status. The turn takes two of the three
descriptors and answers into the buffer. -/

def getIdMem (flags : Nat) : Store :=
  let m : Store := fun _ => 0
  let m := putDesc m 0 ⟨64, 16, 0, 129⟩
  let m := putDesc m 16 ⟨80, 20, 0, flags⟩
  let m := putDesc m 32 ⟨100, 1, 0, 128⟩
  putLE m 64 4 8

def getIdDev (flags : Nat) : VirtioBlkDev where
  vq :=
    { descRing := some 0
      deviceEvent := none
      guestEvent := none
      info := putLE (fun _ => 0) 0 2 4
      nextAvailIdx := 0
      usedWrapCount := true }
  ram := ⟨0, getIdMem flags⟩
  isrStatus := 0
  backend := diskimgInit
    { bytes := fun _ => 0
      len := 0
      pos := 0
      env := fun _ => .err
      calls := 0
      hole := fun _ _ => rfl
      limit := offMax
      fits := by decide
      limit_le := Nat.le_refl offMax }
  trace := []

def getIdBufs : Nat → Span
  | 0 => ⟨64, 16⟩
  | 1 => ⟨80, 20⟩
  | _ => ⟨100, 1⟩

theorem getId_queue (flags : Nat) : QueueAt (getIdDev flags).vq 0 4 0 :=
  ⟨rfl, getLE_putLE_same _ 0 2 4, by decide, by decide, rfl⟩

theorem getId_chain : Chain 0 (getIdMem 129) 0 4 0 3 8 getIdBufs where
  two := by decide
  le := by decide
  avail := by decide +kernel
  next := by decide +kernel
  addr := by decide +kernel
  len := by decide +kernel
  header := rfl
  type := by decide +kernel
  status := by decide
  inRam := by decide
  offRing := by decide

theorem getId_not_synced :
    Chain 0 (getIdMem 129) 0 4 0 3 8 getIdBufs ∧
      ¬ Synced (getIdDev 129) (fun _ => 0) 4 3 8 (getIdBufs 2).lo := by
  refine ⟨getId_chain, fun ⟨dev', req', hround, hcur, _⟩ => ?_⟩
  have hidx : (round (getIdDev 129) (fun _ => 0)).toOption.map (·.2.1.vq.nextAvailIdx) =
      some 2 := by
    decide +kernel
  rw [hround] at hidx
  have hcur' : dev'.vq.nextAvailIdx = 3 := congrArg Cursor.idx hcur
  simp [Except.toOption, hcur'] at hidx

/-- The same request without the data descriptor is taken whole. -/
theorem chain_synced_getId :
    Chain 0 (getIdMem 128) 0 4 0 2 8 getIdBufs ∧
      Synced (getIdDev 128) (fun _ => 0) 4 2 8 (getIdBufs 1).lo := by
  have hc : Chain 0 (getIdMem 128) 0 4 0 2 8 getIdBufs :=
    ⟨by decide, by decide, by decide +kernel, by decide +kernel, by decide +kernel,
      by decide +kernel, rfl, by decide +kernel, by decide, by decide, by decide⟩
  exact ⟨hc, (chain_synced_iff (getId_queue 128) hc).mpr (by decide)⟩

end Blk
end KvmHost
