import KvmHost.Lib.Stops
import KvmHost.NetFrames
import KvmHost.VirtioRuns

/-!
# KvmHost.DmaRanges

Which parts of guest memory the device code reaches for, and whether they are there.

`vm_guest_to_host` compares an address with `RAM_BASE` and nothing compares an address or a range
with the end of guest memory, nor a pointer with NULL. So whether an access stays inside the mapping
is up to the guest, and the ranges below say what it is up to: for each call of a handler, the
descriptors it looks at, the buffers that those name, as far as the call moves bytes in or out of
them, and the event flags. A descriptor that a chain promises and `virtq_get_avail` does not find is
a range at NULL.

Each list is shown to be what its function needs (`Reaches`): the function makes no stray access
exactly when every range is in guest memory. `dmaStep_strays` says it for a turn of a device's run.
-/

namespace KvmHost

open ByteStore Stops Turns

/-- `len` bytes from the host pointer `start` on. -/
structure DmaRange where
  start : Ptr
  len : Nat

/-- The range is in `[mem, mem + RAM_SIZE)`. -/
def DmaRange.InRam (r : DmaRange) : Prop := r.len = 0 ∨ ∃ a ∈ r.start, a + r.len ≤ ramSize

instance (r : DmaRange) : Decidable r.InRam := inferInstanceAs (Decidable (_ ∨ _))

/-- An access to NULL or outside guest memory. -/
def Stop.Stray (e : Stop) : Prop := e = .null ∨ e = .wild

instance (e : Stop) : Decidable e.Stray := inferInstanceAs (Decidable (_ ∨ _))

/-- `x` makes no stray access exactly when all of `rs` is in guest memory. -/
abbrev Reaches {α : Type} (x : Except Stop α) (rs : List DmaRange) : Prop :=
  Needs Stop.Stray DmaRange.InRam x rs

theorem inRam_some {a n : Nat} (hn : n ≠ 0) : DmaRange.InRam ⟨some a, n⟩ ↔ a + n ≤ ramSize := by
  simp [DmaRange.InRam, hn]

theorem not_inRam_none {n : Nat} (hn : n ≠ 0) : ¬ DmaRange.InRam ⟨none, n⟩ := by
  simp [DmaRange.InRam, hn]

/-- A range in guest memory that is not empty starts there. -/
theorem inRam_start {p : Ptr} {n : Nat} (h : DmaRange.InRam ⟨p, n⟩) (hn : n ≠ 0) :
    ∃ a, p = some a ∧ a + n ≤ ramSize := by
  obtain ⟨a, ha, hle⟩ := h.resolve_left hn
  exact ⟨a, ha, hle⟩

theorem needs_single {α : Type} {x : Except Stop α} {r : DmaRange}
    (h : Avoids Stop.Stray x ↔ r.InRam) :
    Reaches x [r] := by
  unfold Reaches Needs
  rw [h, List.forall_mem_singleton]

/-! ## Single accesses -/

section Accesses

variable (ram : Ram) (p : Ptr) (n v : Nat)

theorem read_reaches : Reaches (ram.read p n) [⟨p, n⟩] := by
  apply needs_single
  unfold Ram.read
  by_cases hn : n = 0
  · rw [if_pos hn]
    exact ⟨fun _ => .inl hn, fun _ => avoids_ok _⟩
  · rw [if_neg hn]
    cases p with
    | none => simp [avoids_error, Stop.Stray, not_inRam_none hn]
    | some a =>
      rw [inRam_some hn]
      by_cases h : a + n ≤ ramSize
      · simp [h, avoids_ok]
      · simp [h, avoids_error, Stop.Stray]

theorem write_reaches (bs : List UInt8) : Reaches (ram.write p bs) [⟨p, bs.length⟩] := by
  apply needs_single
  unfold Ram.write
  by_cases hn : bs = []
  · rw [if_pos hn]
    exact ⟨fun _ => .inl (by rw [hn]; rfl), fun _ => avoids_ok _⟩
  · have hlen : bs.length ≠ 0 := fun h => hn (List.length_eq_zero_iff.mp h)
    rw [if_neg hn]
    cases p with
    | none => simp [avoids_error, Stop.Stray, not_inRam_none hlen]
    | some a =>
      rw [inRam_some hlen]
      by_cases h : a + bs.length ≤ ramSize
      · simp [h, avoids_ok]
      · simp [h, avoids_error, Stop.Stray]

theorem load_reaches : Reaches (ram.load p n) [⟨p, n⟩] :=
  (read_reaches ram p n).bind_nil fun _ _ => avoids_ok _

/-- A load stops for no other reason. -/
theorem load_returns {ram : Ram} {p : Ptr} {n : Nat} (h : Avoids Stop.Stray (ram.load p n)) :
    ∃ v, ram.load p n = .ok v := by
  have hin := List.forall_mem_singleton.mp ((load_reaches ram p n).mp h)
  by_cases hn : n = 0
  · rw [hn]
    exact ⟨_, rfl⟩
  · obtain ⟨a, rfl, hle⟩ := inRam_start hin hn
    exact ⟨_, Ram.load_ok hle⟩

theorem store_reaches : Reaches (ram.store p n v) [⟨p, n⟩] := by
  have h := write_reaches ram p (toLE n v)
  rw [toLE_length] at h
  exact h

end Accesses

/-! ## The descriptor under the cursor -/

namespace VqDev

variable {β γ : Type}

/-- The flags of the descriptor under the cursor, which `virtq_get_avail` reads. -/
def slotFlags (d : VqDev β) : DmaRange := ⟨(d.vq.descRing.plus (16 * d.vq.nextAvailIdx)).plus 14, 2⟩

/-- `vq->guest_event->flags` -/
def eventFlags (d : VqDev β) : DmaRange := ⟨d.vq.guestEvent.plus 2, 2⟩

/-- What is reached for by a call of `virtq_get_avail` and by what follows it: `null` if it finds
nothing, and the descriptor `a` and then `vs` if it returns one. -/
def takes (d : VqDev β) (null : List DmaRange) (vs : Nat → VqDev β → List DmaRange) :
    List DmaRange :=
  d.slotFlags :: follow d.getAvail fun
    | (none, _) => null
    | (some a, d₁) => ⟨some a, 16⟩ :: vs a d₁

theorem getAvail_reaches (d : VqDev β) : Reaches d.getAvail [d.slotFlags] := by
  have hflags : Reaches (descFlags d.ram (d.vq.descRing.plus (16 * d.vq.nextAvailIdx)))
      [d.slotFlags] :=
    load_reaches _ _ _
  have hvq : Reaches (virtqGetAvail d.ram d.vq) [d.slotFlags] := by
    refine hflags.bind_nil fun flags _ => ?_
    simp only
    split
    · exact avoids_ok _
    · split
      · exact avoids_ok _
      · exact avoids_ok _
  refine hvq.bind_nil fun p _ => ?_
  obtain ⟨desc, vq⟩ := p
  cases desc with
  | none => exact avoids_ok _
  | some a => exact avoids_ok _

theorem descAddr_wild {ram : Ram} {a : Nat} (h : ramSize < a + 8) :
    descAddr ram (some a) = .error .wild := by
  simp [descAddr, Ram.load, Ram.read, Nat.not_le_of_lt h]

theorem takes_reaches {d : VqDev β} {f : Ptr × VqDev β → Except Stop γ} {null : List DmaRange}
    {vs : Nat → VqDev β → List DmaRange} (hnull : Reaches (f (none, d)) null)
    (hdesc : ∀ a d₁, d.getAvail = .ok (some a, d₁) → a + 16 ≤ ramSize →
      Reaches (f (some a, d₁)) (vs a d₁))
    (hwild : ∀ a d₁, d₁.ram = d.ram → descAddr d₁.ram (some a) = .error .wild →
      ¬ Avoids Stop.Stray (f (some a, d₁))) :
    Reaches (d.getAvail >>= f) (d.takes null vs) := by
  refine (getAvail_reaches d).bind fun p hp => ?_
  obtain ⟨desc, d₁⟩ := p
  rcases getAvail_inv hp with ⟨rfl, rfl⟩ | ⟨a, vq, rfl, -, hd₁⟩
  · exact hnull
  · have hram : d₁.ram = d.ram := by rw [hd₁]
    unfold Needs
    simp only [List.forall_mem_cons]
    rw [inRam_some (by decide)]
    rcases getAvail_whole hp with hin | hout
    · have hrest := hdesc a d₁ hp hin
      exact ⟨fun h => ⟨hin, hrest.mp h⟩, fun h => hrest.mpr h.2⟩
    · refine ⟨fun h => absurd h (hwild a d₁ hram (descAddr_wild hout)), fun h => ?_⟩
      have := h.1
      omega

end VqDev

theorem not_avoids_wild {α β : Type} {x : Except Stop α} {f : α → Except Stop β}
    (h : x = .error .wild) :
    ¬ Avoids Stop.Stray (x >>= f) := by
  rw [h, avoids_bind, avoids_error]
  exact fun hn => hn.1 (.inr rfl)

/-- A field read through NULL. -/
theorem null_reaches {α β : Type} {x : Except Stop α} {f : α → Except Stop β}
    (h : x = .error .null) :
    Reaches (x >>= f) [⟨none, 16⟩] := by
  refine needs_single ⟨fun hav => ?_, fun hin => absurd hin (not_inRam_none (by decide))⟩
  rw [h, avoids_bind, avoids_error] at hav
  exact absurd (.inl rfl) hav.1

/-! ## The network device -/

def rxRanges (dev : VirtioNetDev) : List DmaRange :=
  dev.takes [dev.eventFlags] fun a d₁ =>
    let data := vmGuestToHost d₁.ram (descAt d₁.ram.bytes a).addr
    -- `len` is read after the header is written
    ⟨data, virtioHeaderLen⟩ ::
      match d₁.backend.returns (sizeSub (d₁.ram.lenAfterHeader a) virtioHeaderLen) with
      | none => [d₁.eventFlags]
      | some bs => [⟨data.plus virtioHeaderLen, bs.length⟩]

def txRanges (dev : VirtioNetDev) : List DmaRange :=
  dev.takes [dev.eventFlags] fun a d₁ =>
    let desc := descAt d₁.ram.bytes a
    if desc.len < virtioHeaderLen then [d₁.eventFlags]
    else if d₁.backend.accepts d₁.backend.writes then
      [⟨(vmGuestToHost d₁.ram desc.addr).plus virtioHeaderLen, sizeSub desc.len virtioHeaderLen⟩]
    else [d₁.eventFlags]

section Net

variable (dev : VirtioNetDev)

theorem disableGuestEvent_reaches : Reaches (disableGuestEvent dev) [dev.eventFlags] :=
  (store_reaches _ _ _ _).bind_nil fun _ _ => avoids_ok _

theorem rx_reaches : Reaches (virtioNetCompleteRequestRx dev) (rxRanges dev) := by
  refine VqDev.takes_reaches (disableGuestEvent_reaches dev) ?_ ?_
  · intro a d₁ _ hin
    simp only [Option.isNone_some, Bool.false_eq_true, if_false, descAddr_ok hin, ok_bind]
    have hzeros := write_reaches d₁.ram (vmGuestToHost d₁.ram (descAt d₁.ram.bytes a).addr)
      (List.replicate virtioHeaderLen 0)
    rw [List.length_replicate] at hzeros
    refine hzeros.cons fun hhdr => ?_
    obtain ⟨b, hb, hle⟩ := inRam_start hhdr (by decide)
    have hbuf : d₁.ram.bufAt a = b := by
      unfold vmGuestToHost at hb
      split at hb
      · cases hb
      · exact Option.some.inj hb
    have hnum : b + 10 + 2 ≤ ramSize := hle
    have hplus : Ptr.plus (some b) 10 = some (b + 10) := plus_ram (by omega)
    rw [hb, Ram.write_ok (by rw [List.length_replicate]; exact hle)]
    refine ⟨_, rfl, ?_⟩
    simp only [hplus, Ram.store_ok hnum, ok_bind, header_written, descLen_ok hin]
    have hlen : d₁.ram.lenAfterHeader a = (descAt (patch d₁.ram.bytes b virtioNetHdr) a).len := by
      rw [Ram.lenAfterHeader, hbuf]
    rw [hlen]
    generalize sizeSub (descAt (patch d₁.ram.bytes b virtioNetHdr) a).len virtioHeaderLen = size
    cases hret : d₁.backend.returns size with
    | none =>
      obtain ⟨tap, hread⟩ :=
        Tap.read_none { d₁.ram with bytes := patch d₁.ram.bytes b virtioNetHdr }
        (Ptr.plus (some b) virtioHeaderLen) hret
      rw [hread]
      exact disableGuestEvent_reaches _
    | some bs =>
      rw [Tap.read_some _ _ hret]
      refine ((write_reaches _ _ _).bind_nil fun _ _ => avoids_ok _).bind_nil fun r hr => ?_
      obtain ⟨ram, -, hr⟩ := bind_eq_ok.mp hr
      cases hr
      simp only [setDescLen_ok hin, ok_bind, VqDev.markUsed, xorDescUsed_ok hin]
      exact avoids_ok _
  · intro a d₁ _ hwild
    exact not_avoids_wild hwild

theorem tx_reaches : Reaches (virtioNetCompleteRequestTx dev) (txRanges dev) := by
  refine VqDev.takes_reaches (disableGuestEvent_reaches dev) ?_ ?_
  · intro a d₁ _ hin
    simp only [Option.isNone_some, Bool.false_eq_true, if_false, descAddr_ok hin, descLen_ok hin,
      ok_bind]
    refine .ite (fun _ => disableGuestEvent_reaches d₁) fun _ => ?_
    unfold Tap.writev
    cases d₁.backend.accepts d₁.backend.writes with
    | false => exact disableGuestEvent_reaches _
    | true =>
      refine ((read_reaches _ _ _).bind_nil fun _ _ => avoids_ok _).bind_nil fun r hr => ?_
      obtain ⟨bs, -, hr⟩ := bind_eq_ok.mp hr
      cases hr
      simp only [ok_bind, VqDev.markUsed, xorDescUsed_ok hin]
      exact avoids_ok _
  · intro a d₁ _ hwild
    exact not_avoids_wild hwild

end Net

/-! ## The block device -/

-- what a file call moves between the file and a buffer
def File.readMoves (f : File) (size : Nat) : Nat :=
  match f.env f.calls with
  | .err => 0
  | .count k => min k (min size (f.len - f.pos))

def File.writeMoves (f : File) (size : Nat) : Nat :=
  match f.env f.calls with
  | .err => 0
  | .count k => min k (min size (f.limit - f.pos))

namespace Blk

-- what the backend call of a request with the header `req` moves
def moves (dev : VirtioBlkDev) (req : Store) : Nat :=
  let fd := dev.backend.fd.lseek (sectorOffset (VirtioBlkReq.sector req))
  if VirtioBlkReq.type req = virtioBlkTIn then fd.readMoves (VirtioBlkReq.dataSize req)
  else fd.writeMoves (VirtioBlkReq.dataSize req)

def transferRanges (dev : VirtioBlkDev) (req : Store) : List DmaRange :=
  dev.takes [⟨none, 16⟩] fun a d₁ =>
    let desc := descAt d₁.ram.bytes a
    [⟨vmGuestToHost d₁.ram desc.addr, moves d₁ (VirtioBlkReq.setDataSize req desc.len)⟩]

/-- For the status, if the descriptor `a` says that there is one. -/
def finishRanges (dev : VirtioBlkDev) (a : Nat) : List DmaRange :=
  if (descAt dev.ram.bytes a).flags.testBit vringDescFNext then
    dev.takes [⟨none, 16⟩] fun a d₁ => [⟨vmGuestToHost d₁.ram (descAt d₁.ram.bytes a).addr, 1⟩]
  else []

def bodyRanges (dev : VirtioBlkDev) (head : Nat) (req : Store) : List DmaRange :=
  let desc := descAt dev.ram.bytes head
  ⟨vmGuestToHost dev.ram desc.addr, desc.len⟩ ::
    follow (copyHeader dev (some head) req) fun req =>
      if IsIoType req then
        if desc.flags.testBit vringDescFNext then
          transferRanges dev req ++ follow (transfer dev req) fun
            | (some a, _, dev, _) => finishRanges dev a
            | (none, _) => []
        else []
      else finishRanges dev head

def roundRanges (dev : VirtioBlkDev) (req : Store) : List DmaRange :=
  dev.takes [] fun head d₁ => bodyRanges d₁ head req

end Blk

def blkRanges : Nat → VirtioBlkDev → Store → List DmaRange
  | 0, _, _ => []
  | fuel + 1, dev, req =>
    Blk.roundRanges dev req ++ follow (Blk.round dev req) fun
      | (.loop, dev, req) => blkRanges fuel dev req
      | (.ret, _) => []

section File

variable (f : File) (ram : Ram) (data : Ptr) (size : Nat)

theorem File.read_reaches : Reaches (f.read ram data size) [⟨data, f.readMoves size⟩] := by
  unfold File.read File.readMoves
  cases f.env f.calls with
  | err => exact needs_single ⟨fun _ => .inl rfl, fun _ => avoids_ok _⟩
  | count k =>
    have hw := write_reaches ram data (slice f.bytes f.pos (min k (min size (f.len - f.pos))))
    rw [slice_length] at hw
    exact hw.bind_nil fun _ _ => avoids_ok _

theorem File.write_reaches : Reaches (f.write ram data size) [⟨data, f.writeMoves size⟩] := by
  unfold File.write File.writeMoves
  cases f.env f.calls with
  | err => exact needs_single ⟨fun _ => .inl rfl, fun _ => avoids_ok _⟩
  | count k =>
    simp only
    split
    · rename_i hfull
      exact needs_single ⟨fun _ => .inl (by simp only; omega), fun _ => avoids_ok _⟩
    · exact (KvmHost.read_reaches ram data _).bind_nil fun _ _ => avoids_ok _

end File

namespace Blk

variable (dev : VirtioBlkDev) (req : Store)

theorem transfer_reaches : Reaches (transfer dev req) (transferRanges dev req) := by
  refine VqDev.takes_reaches (null_reaches rfl) ?_ ?_
  · intro a d₁ _ hin
    simp only [descLen_ok hin, descAddr_ok hin, ok_bind]
    unfold moves
    by_cases htype : VirtioBlkReq.type (VirtioBlkReq.setDataSize req (descAt d₁.ram.bytes a).len) =
      virtioBlkTIn
    · simp only [if_pos htype]
      exact (((File.read_reaches _ _ _ _).bind_nil fun _ _ => avoids_ok _).bind_nil fun _ _ =>
        avoids_ok _).bind_nil
        fun _ _ => avoids_ok _
    · simp only [if_neg htype]
      exact (((File.write_reaches _ _ _ _).bind_nil fun _ _ => avoids_ok _).bind_nil fun _ _ =>
        avoids_ok _).bind_nil
        fun _ _ => avoids_ok _
  · intro a d₁ _ hwild h
    obtain ⟨hlen, hrest⟩ := avoids_bind.mp h
    obtain ⟨len, hok⟩ := load_returns hlen
    exact not_avoids_wild hwild (hrest len hok)

/-- The descriptor that a transfer returns is in guest memory. -/
theorem transfer_desc {dev dev' : VirtioBlkDev} {req req' : Store} {desc : Ptr} {status : Nat}
    (h : transfer dev req = .ok (desc, status, dev', req')) :
    ∃ a, desc = some a ∧ a + 16 ≤ ramSize := by
  obtain ⟨a, d₁, hget, rfl, -⟩ := transfer_inv h
  unfold transfer at h
  rw [hget, ok_bind] at h
  obtain ⟨len, -, h⟩ := bind_eq_ok.mp h
  obtain ⟨addr, haddr, -⟩ := bind_eq_ok.mp h
  exact ⟨a, rfl, VqDev.getAvail_in hget haddr⟩

variable {dev req} {head a : Nat}

theorem finish_reaches {status : Nat} (hhead : head + 16 ≤ ramSize) (ha : a + 16 ≤ ramSize) :
    Reaches (finish dev (some head) (some a) status) (finishRanges dev a) := by
  unfold finish finishRanges
  rw [virtqCheckNext_ok ha, ok_bind]
  refine .ite (fun _ => ?_) fun _ => needs_nil (avoids_ok _)
  refine VqDev.takes_reaches (null_reaches rfl) ?_ ?_
  · intro b d₁ _ hin
    simp only [descAddr_ok hin, ok_bind]
    refine (store_reaches _ _ _ _).bind_nil fun ram _ => ?_
    simp only [VqDev.markUsed, xorDescUsed_ok hhead, ok_bind, setDescLen_ok hhead]
    exact avoids_ok _
  · intro b d₁ _ hwild
    exact not_avoids_wild hwild

theorem copyHeader_reaches (hhead : head + 16 ≤ ramSize) :
    Reaches (copyHeader dev (some head) req)
      [⟨vmGuestToHost dev.ram (descAt dev.ram.bytes head).addr,
        (descAt dev.ram.bytes head).len⟩] := by
  unfold copyHeader
  rw [descAddr_ok hhead, ok_bind, descLen_ok hhead, ok_bind]
  refine (read_reaches _ _ _).bind_nil fun bs _ => ?_
  split
  · exact avoids_ok _
  · rw [avoids_error]
    decide

theorem body_reaches (hhead : head + 16 ≤ ramSize) :
    Reaches (body dev (some head) req) (bodyRanges dev head req) := by
  refine (copyHeader_reaches hhead).bind fun req₁ _ => ?_
  refine .ite (fun _ => ?_) fun _ => ?_
  · rw [virtqCheckNext_ok hhead, ok_bind]
    refine .ite (fun _ => ?_) fun _ => needs_nil (avoids_ok _)
    refine (transfer_reaches dev req₁).bind fun r hr => ?_
    obtain ⟨desc, status, d₂, req₂⟩ := r
    obtain ⟨a, rfl, ha⟩ := transfer_desc hr
    exact (finish_reaches hhead ha).bind_nil fun _ _ => avoids_ok _
  · exact (finish_reaches hhead hhead).bind_nil fun _ _ => avoids_ok _

variable (dev req) in
theorem round_reaches : Reaches (round dev req) (roundRanges dev req) := by
  refine VqDev.takes_reaches (needs_nil (avoids_ok _)) ?_ ?_
  · intro head d₁ _ hin
    exact body_reaches hin
  · intro head d₁ _ hwild
    refine fun h => ?_
    exact not_avoids_wild hwild (avoids_bind.mp h).1

end Blk

theorem blk_reaches (fuel : Nat) (dev : VirtioBlkDev) (req : Store) :
    Reaches (virtioBlkCompleteRequest fuel dev req) (blkRanges fuel dev req) := by
  induction fuel generalizing dev req with
  | zero => exact needs_nil (avoids_error.mpr (by decide))
  | succ fuel ih =>
    refine (Blk.round_reaches dev req).bind fun r _ => ?_
    obtain ⟨flow, d₁, req₁⟩ := r
    cases flow with
    | loop => exact ih d₁ req₁
    | ret => exact needs_nil (avoids_ok _)

/-! ## A device and its queue threads -/

inductive DmaEvent where
  | event (ev : Event)
  /-- the thread of network queue `q` writes `guest_event->flags` before it polls -/
  | arm (q : Nat)

section

variable {β : Type}

/-- The call made a stray access. -/
def Outcome.Strays (o : Outcome β) : Prop :=
  o.stop = some (.handler .null) ∨ o.stop = some (.handler .wild)

instance (o : Outcome β) : Decidable o.Strays := inferInstanceAs (Decidable (_ ∨ _))

@[simp] theorem strays_done (dev : VirtioPciDev β) : ¬ (Outcome.done dev).Strays := by
  simp [Outcome.Strays, Outcome.done]

@[simp] theorem strays_after (cs : List Copy) (o : Outcome β) : (o.after cs).Strays ↔ o.Strays :=
  Iff.rfl

@[simp] theorem strays_failed (e : PciStop) (dev : VirtioPciDev β) :
    (Outcome.failed e dev).Strays ↔ ∃ s, e = .handler s ∧ s.Stray := by
  simp only [Outcome.Strays, Outcome.failed, Stop.Stray, Option.some.injEq]
  constructor
  · rintro (h | h)
    · exact ⟨.null, h, .inl rfl⟩
    · exact ⟨.wild, h, .inr rfl⟩
  · rintro ⟨s, h, rfl | rfl⟩
    · exact .inl h
    · exact .inr h

/-- A call on a queue, with the device it leaves. -/
theorem strays_of_reaches {γ : Type} {x : Except Stop γ} {rs : List DmaRange} {o : Outcome β}
    (dev : VirtioPciDev β) (h : Reaches x rs) (hok : ∀ v, x = .ok v → ¬ o.Strays)
    (herr : ∀ e, x = .error e → o = .failed (.handler e) dev) :
    ¬ o.Strays ↔ ∀ r ∈ rs, r.InRam := by
  refine Iff.trans ?_ h
  cases hx : x with
  | ok v => exact ⟨fun _ => avoids_ok v, fun _ => hok v hx⟩
  | error e =>
    rw [avoids_error, herr e hx]
    simp

/-- A call that reaches for nothing. -/
theorem strays_nil {o : Outcome β} (h : ¬ o.Strays) :
    ¬ o.Strays ↔ ∀ r ∈ ([] : List DmaRange), r.InRam :=
  ⟨fun _ _ hr => (List.not_mem_nil hr).elim, fun _ => h⟩

end

namespace VirtioKind

variable (k : VirtioKind) (fuel : Nat) (req : Store) (q : Nat)

def completeRanges : (k : VirtioKind) → Nat → Store → Nat → VqDev k.Backend → List DmaRange
  | blk, fuel, req, _, d => blkRanges fuel d req
  | net, _, _, q, d => if q = virtqRx then rxRanges d else txRanges d

def handleRanges (d : VqDev k.Backend) : List DmaRange :=
  if d.vq.enable = 0 then []
  else k.completeRanges fuel req q d ++ follow ((k.ops fuel req q).completeRequest d) fun d =>
    [d.eventFlags]

def queueRanges (dev : VirtioPciDev k.Backend) : List DmaRange :=
  if q < dev.numVq then
    if (dev.vq q).enable ≠ 0 ∧ dev.vqDevPtr q ≠ dev.self then []
      else k.handleRanges fuel req q (dev.vqDev q)
  else []

/-- The queue has a thread that arms it. -/
def Arms (dev : VirtioPciDev k.Backend) : Prop :=
  k = .net ∧ q < dev.numVq ∧ ∃ e ∈ dev.enables, e.queue = q

instance (dev : VirtioPciDev k.Backend) : Decidable (k.Arms q dev) :=
  inferInstanceAs (Decidable (_ ∧ _))

def dmaStep (dev : VirtioPciDev k.Backend) : DmaEvent → Outcome k.Backend
  | .event ev => k.step dev ev
  | .arm q =>
    if k.Arms q dev then
      match enableGuestEvent (dev.vqDev q) with
      | .ok d => .done (dev.putVqDev q d)
      | .error e => .failed (.handler e) dev
    else .done dev

def dmaNext (dev : VirtioPciDev k.Backend) (ev : DmaEvent) : Option (VirtioPciDev k.Backend) :=
  match (k.dmaStep dev ev).stop with
  | none => some (k.dmaStep dev ev).dev
  | some _ => none

/-- The turns of a device and its queue threads from its creation on. -/
def dmaRun (host : Host k.Backend) (evs : List DmaEvent) :
    List (VirtioPciDev k.Backend × DmaEvent) :=
  turns k.dmaNext (k.initPci host) evs

/-- What a turn reaches for in guest memory. -/
def dmaRanges (dev : VirtioPciDev k.Backend) : DmaEvent → List DmaRange
  | .event (.access a fuel req) =>
    if a.isWrite ∧ a.offset = notifyData then
      k.queueRanges fuel req (a.copied dev).vqn (a.copied dev) else []
  | .event (.handle q fuel req) => k.queueRanges fuel req q dev
  | .event (.getAvail q) => if q < dev.numVq then [(dev.vqDev q).slotFlags] else []
  | .event (.memory _) => []
  | .event (.header _) => []
  | .arm q => if k.Arms q dev then [(dev.vqDev q).eventFlags] else []

variable {k fuel req q}

theorem completeRequest_reaches (d : VqDev k.Backend) :
    Reaches ((k.ops fuel req q).completeRequest d) (k.completeRanges fuel req q d) := by
  cases k with
  | blk => exact blk_reaches fuel d req
  | net =>
    unfold completeRanges
    simp only [ops, virtioNetOps]
    split
    · exact rx_reaches d
    · exact tx_reaches d

variable (fuel req q) in
theorem notifyUsed_ok (d : VqDev k.Backend) : ∃ d', (k.ops fuel req q).notifyUsed d = .ok d' := by
  cases k with
  | blk => exact ⟨_, rfl⟩
  | net =>
    simp only [ops, virtioNetOps]
    split
    · exact ⟨_, rfl⟩
    · exact ⟨_, rfl⟩

theorem handle_reaches (d : VqDev k.Backend) :
    Reaches (virtqHandleAvail (k.ops fuel req q).completeRequest (k.ops fuel req q).notifyUsed d)
      (k.handleRanges fuel req q d) := by
  refine .ite (fun _ => needs_nil (avoids_ok _)) fun _ => ?_
  refine (completeRequest_reaches d).bind fun d₁ _ => ?_
  refine (load_reaches _ _ _).bind_nil fun flags _ => ?_
  split
  · obtain ⟨d₂, h⟩ := notifyUsed_ok fuel req q d₁
    rw [h]
    exact avoids_ok _
  · exact avoids_ok _

theorem handleAvail_strays (dev : VirtioPciDev k.Backend) :
    ¬ (handleAvail (k.ops fuel req) dev q).Strays ↔
      ∀ r ∈ k.queueRanges fuel req q dev, r.InRam := by
  unfold handleAvail queueRanges
  by_cases hq : q < dev.numVq
  · rw [if_pos hq, if_pos hq]
    split
    · exact strays_nil (by simp)
    · refine strays_of_reaches dev (handle_reaches (dev.vqDev q)) ?_ ?_
      · intro d hd
        rw [hd]
        exact strays_done _
      · intro e he
        rw [he]
  · rw [if_neg hq, if_neg hq]
    exact strays_nil (by simp)

theorem enableVq_not_handler {len : VirtioPciDev k.Backend → Nat} {dev : VirtioPciDev k.Backend}
    {e : PciStop} (h : enableVq len dev q = .error e) (s : Stop) : e ≠ .handler s := by
  unfold enableVq at h
  dsimp only at h
  split at h
  · cases h
  · split at h
    · cases h
      intro he
      cases he
    · unfold virtioPciGetNotifyAddr at h
      dsimp only at h
      split at h
      · cases h
      · cases h
        intro he
        cases he

/-- Only the notification register runs a handler. -/
theorem writeRegister_not_strays {dev : VirtioPciDev k.Backend} {offset : Nat} {data : List UInt8}
    (h : offset ≠ notifyData) : ¬ (writeRegister (k.ops fuel req) dev offset data).Strays := by
  rcases offset_cases offset with hp | rfl | rfl | ⟨hoth, hreg | hnot | hplain⟩
  · obtain ⟨dev', hw, -⟩ := writeRegister_plain (k.ops fuel req) dev data hp
    rw [hw]
    exact strays_done dev'
  · simp only [writeRegister, qSelect, virtioPciSelectVirtq]
    split
    · rw [strays_after]
      split
      · exact strays_done _
      · simp
    · exact strays_done _
  · simp only [writeRegister, qEnable]
    split
    · unfold virtioPciEnableVirtq
      dsimp only
      split
      · obtain ⟨len, hlen⟩ := enableVq_eq k fuel req dev.queueSelect
        rw [hlen]
        cases hen : enableVq len dev dev.queueSelect with
        | ok dev' => exact strays_done dev'
        | error e =>
          have hne := enableVq_not_handler hen
          simp [Outcome.of, hne]
      · simp
    · unfold virtioPciDisableVirtq
      dsimp only
      split
      · exact strays_done dev
      · simp
  · rw [writeRegister_other hoth, writeOther_queueReg hreg]
    split
    · rw [strays_after]
      split
      · exact strays_done _
      · simp
    · exact strays_done dev
  · exact absurd hnot h
  · rw [writeRegister_other hoth, writeOther_plain hplain]
    exact strays_done dev

theorem access_strays (dev : VirtioPciDev k.Backend) (a : Access) :
    ¬ (virtioPciSpaceIo (k.ops fuel req) dev a).Strays ↔
      ∀ r ∈ k.dmaRanges dev (.event (.access a fuel req)), r.InRam := by
  simp only [dmaRanges]
  rcases access_cases a with ⟨hw, hlt⟩ | ⟨hr, hlt⟩ | hge
  · rw [spaceIo_register _ _ hw hlt, strays_after]
    by_cases hnot : a.offset = notifyData
    · rw [if_pos ⟨hw, hnot⟩, hnot, writeRegister_other (by decide), writeOther_notify]
      exact handleAvail_strays (a.copied dev)
    · rw [if_neg fun h => hnot h.2]
      exact strays_nil (writeRegister_not_strays hnot)
  · have hnot : ¬ (a.isWrite = true ∧ a.offset = notifyData) := by simp [hr]
    rw [spaceIo_read _ _ hr hlt, strays_after, if_neg hnot]
    exact strays_nil (strays_done _)
  · have hnot : a.offset ≠ notifyData := by unfold devCfgOffset at hge; unfold notifyData; omega
    rw [if_neg fun h => hnot h.2]
    refine strays_nil ?_
    unfold Outcome.Strays
    rcases spaceIo_devCfg_stop (k.ops fuel req) dev hge with hs | hs | hs
    all_goals
      rw [hs]
      simp

/-- A turn makes no access outside guest memory exactly when every range it reaches for is there. -/
theorem dmaStep_strays (dev : VirtioPciDev k.Backend) (ev : DmaEvent) :
    ¬ (k.dmaStep dev ev).Strays ↔ ∀ r ∈ k.dmaRanges dev ev, r.InRam := by
  cases ev with
  | arm q =>
    simp only [dmaStep, dmaRanges]
    by_cases harm : k.Arms q dev
    · simp only [if_pos harm]
      refine strays_of_reaches dev (x := enableGuestEvent (dev.vqDev q))
        ((store_reaches _ _ _ _).bind_nil fun _ _ => avoids_ok _) ?_ ?_
      · intro d hd
        rw [hd]
        exact strays_done _
      · intro e he
        rw [he]
    · simp only [if_neg harm]
      exact strays_nil (strays_done dev)
  | event ev =>
    cases ev with
    | access a fuel req => exact access_strays dev a
    | handle q fuel req =>
      simp only [dmaStep, dmaRanges, step]
      by_cases hq : q < dev.numVq
      · rw [if_pos hq]
        exact handleAvail_strays dev
      · rw [if_neg hq, queueRanges, if_neg hq]
        exact strays_nil (strays_done dev)
    | getAvail q =>
      simp only [dmaStep, dmaRanges, step]
      by_cases hq : q < dev.numVq
      · simp only [if_pos hq]
        refine strays_of_reaches dev (VqDev.getAvail_reaches (dev.vqDev q)) ?_ ?_
        · intro p hp
          rw [hp]
          exact strays_done _
        · intro e he
          rw [he]
      · simp only [if_neg hq]
        exact strays_nil (strays_done dev)
    | memory m => exact strays_nil (strays_done _)
    | header h => exact strays_nil (strays_done _)

end VirtioKind

end KvmHost
