import KvmHost.BlkRequest
import KvmHost.Lib.Stops

/-!
# KvmHost.BlkHostile

The request loop of the block device on rings that do not hold well-formed requests.

`uses` lists what the loop does with what the guest gave it: the descriptors it uses, as
`virtq_get_avail` returned them, and the lengths it copies headers with. Nothing in the source looks
at either: a chain is followed into a slot that is not available and NULL is dereferenced, and a
header may be longer than `struct virtio_blk_req`. `chained` says of the ring, as it is at the head
of the loop, that neither happens in the next turn. `blk_hostile_ring` says that a call is safe
exactly when this holds each time the loop comes to its head, as long as the buffers of the requests
it comes to are in guest memory and their data is clear of the ring; elsewhere the source reads the
host's memory for a header, and goes on with whatever it finds there.
-/

namespace KvmHost

open ByteStore Lap Stops

namespace Blk

inductive Use where
  | desc (p : Ptr)
  | header (len : Nat)
deriving DecidableEq

/-- `virtq_get_avail` returned the descriptor; `struct virtio_blk_req` holds the header. -/
def Use.Safe : Use → Prop
  | desc p => p ≠ none
  | header len => len ≤ VirtioBlkReq.sizeof

instance (u : Use) : Decidable u.Safe :=
  match u with
  | .desc _ => inferInstanceAs (Decidable (_ ≠ _))
  | .header _ => inferInstanceAs (Decidable (_ ≤ _))

/-- Take a descriptor and use it. -/
def takeUses (dev : VirtioBlkDev) : List Use := follow dev.getAvail fun p => [.desc p.1]

def finishUses (dev : VirtioBlkDev) (desc : Ptr) : List Use :=
  follow (virtqCheckNext dev.ram desc) fun next => if next then takeUses dev else []

def bodyUses (dev : VirtioBlkDev) (usedDesc : Ptr) (req : Store) : List Use :=
  .desc usedDesc :: follow (descLen dev.ram usedDesc) (fun len => [.header len]) ++
    follow (copyHeader dev usedDesc req) fun req =>
      if IsIoType req then
        follow (virtqCheckNext dev.ram usedDesc) fun next =>
          if next then takeUses dev ++ follow (transfer dev req) fun r => finishUses r.2.2.1 r.1
            else []
      else finishUses dev usedDesc

def roundUses (dev : VirtioBlkDev) (req : Store) : List Use :=
  follow dev.getAvail fun p => if p.1.isNone then [] else bodyUses p.2 p.1 req

/-- The states in which a call of `virtio_blk_complete_request` comes to the head of its loop. -/
def heads : Nat → VirtioBlkDev → Store → List (VirtioBlkDev × Store)
  | 0, _, _ => []
  | fuel + 1, dev, req => (dev, req) :: follow (round dev req) fun
    | (.loop, dev, req) => heads fuel dev req
    | (.ret, _, _) => []

def uses (fuel : Nat) (dev : VirtioBlkDev) (req : Store) : List Use :=
  (heads fuel dev req).flatMap fun t => roundUses t.1 t.2

/-! ## What the ring must hold -/

section Ring

variable (ring n : Nat)

/-- The local `req` once the header at position `p` has been copied over it. -/
def headerAt (ram : Ram) (p : Nat) (req : Store) : Store :=
  patch req 0 (slice ram.bytes (ram.bufAt (slotAt ring n p))
    (descAt ram.bytes (slotAt ring n p)).len)

/-- The request at position `p`, if there is one: its header fits, and its chain has all descriptors
it promises. -/
def chainedAt (ram : Ram) (p : Nat) (req : Store) : Bool :=
  !availAt ring n ram p ||
    decide ((descAt ram.bytes (slotAt ring n p)).len ≤ VirtioBlkReq.sizeof) &&
      (!nextAt ring n ram p ||
        availAt ring n ram (p + 1) &&
          (!decide (IsIoType (headerAt ring n ram p req)) || !nextAt ring n ram (p + 1) ||
            availAt ring n ram (p + 2)))

/-- The request at the cursor. -/
def chained (dev : VirtioBlkDev) (req : Store) : Bool :=
  chainedAt ring n dev.ram (dev.vq.cursor.pos n) req

/-- The first `len` bytes of the buffer at position `q` are in guest memory. -/
def Holds (ram : Ram) (q len : Nat) : Prop :=
  ram.base ≤ (descAt ram.bytes (slotAt ring n q)).addr ∧
    ram.bufAt (slotAt ring n q) + len ≤ ramSize

instance (ram : Ram) (q len : Nat) : Decidable (Holds ring n ram q len) :=
  inferInstanceAs (Decidable (_ ∧ _))

/-- The buffers of the request at position `p`, as far as its chain goes, are in guest memory, and
its data is clear of the ring. -/
def BuffersAt (ram : Ram) (p : Nat) (req : Store) : Prop :=
  availAt ring n ram p = true →
    Holds ring n ram p (descAt ram.bytes (slotAt ring n p)).len ∧
    (nextAt ring n ram p = true → availAt ring n ram (p + 1) = true →
      (IsIoType (headerAt ring n ram p req) →
        (Holds ring n ram (p + 1) (descAt ram.bytes (slotAt ring n (p + 1))).len ∧
          Span.Apart ⟨ring, 16 * n⟩ ⟨ram.bufAt (slotAt ring n (p + 1)),
            (descAt ram.bytes (slotAt ring n (p + 1))).len⟩) ∧
        (nextAt ring n ram (p + 1) = true → availAt ring n ram (p + 2) = true →
          Holds ring n ram (p + 2) 1)) ∧
      (¬ IsIoType (headerAt ring n ram p req) → Holds ring n ram (p + 1) 1))

instance (ram : Ram) (p : Nat) (req : Store) : Decidable (BuffersAt ring n ram p req) :=
  inferInstanceAs (Decidable (_ → _ ∧ (_ → _ → (_ → _ ∧ (_ → _ → _)) ∧ (¬ _ → _))))

/-- The buffers of the request at the cursor. -/
def BuffersIn (dev : VirtioBlkDev) (req : Store) : Prop :=
  BuffersAt ring n dev.ram (dev.vq.cursor.pos n) req

instance (dev : VirtioBlkDev) (req : Store) : Decidable (BuffersIn ring n dev req) :=
  inferInstanceAs (Decidable (BuffersAt ring n _ _ _))

end Ring

/-! ## A turn of the loop -/

section

variable {dev dev' : VirtioBlkDev} {req req' : Store} {ring n p q a : Nat}

theorem Holds.addr {ram : Ram} {len : Nat} (h : Holds ring n ram q len) :
    (descAt ram.bytes (slotAt ring n q)).addr = ram.base + ram.bufAt (slotAt ring n q) := by
  have := h.1
  unfold Ram.bufAt
  omega

variable (dev) in
theorem takeUses_iff (hq : QueueAt dev.vq ring n q) :
    (∀ u ∈ takeUses dev, u.Safe) ↔ availAt ring n dev.ram q = true := by
  unfold takeUses
  cases ha : availAt ring n dev.ram q with
  | true =>
    rw [VqDev.getAvail_some hq ha]
    simp [Use.Safe]
  | false =>
    rw [VqDev.getAvail_none hq ha]
    simp [Use.Safe]

variable (dev p) in
theorem finishUses_iff (hq : QueueAt dev.vq ring n q) :
    (∀ u ∈ finishUses dev (some (slotAt ring n p)), u.Safe) ↔
      (!nextAt ring n dev.ram p || availAt ring n dev.ram q) = true := by
  unfold finishUses
  rw [virtqCheckNext_ok (hq.slot_le p)]
  have hnext : nextAt ring n dev.ram p =
    (descAt dev.ram.bytes (slotAt ring n p)).flags.testBit vringDescFNext := rfl
  rw [← hnext]
  cases nextAt ring n dev.ram p with
  | false => simp
  | true => simp [takeUses_iff dev hq]

variable (req) in
/-- The copy of a header that is in guest memory. -/
theorem copyHeader_at (hq : QueueAt dev.vq ring n p)
    (h : Holds ring n dev.ram p (descAt dev.ram.bytes (slotAt ring n p)).len) :
    copyHeader (dev.took ring n p) (some (slotAt ring n p)) req =
      if (descAt dev.ram.bytes (slotAt ring n p)).len ≤ VirtioBlkReq.sizeof then
        .ok (headerAt ring n dev.ram p req)
      else .error .smash := by
  have hslot := hq.slot_le p
  have hptr : vmGuestToHost dev.ram (descAt dev.ram.bytes (slotAt ring n p)).addr =
    some (dev.ram.bufAt (slotAt ring n p)) := vmGuestToHost_eq h.1
  simp only [copyHeader, VqDev.took_ram, descAddr_ok hslot, descLen_ok hslot, ok_bind, hptr,
    Ram.read_ok h.2]
  rfl

variable (dev req) in
/-- A transfer whose data is in guest memory and clear of the ring returns and leaves the ring as it
was. -/
theorem transfer_at (hq : QueueAt dev.vq ring n q) (ha : availAt ring n dev.ram q = true)
    (h : Holds ring n dev.ram q (descAt dev.ram.bytes (slotAt ring n q)).len)
    (hoff : Span.Apart ⟨ring, 16 * n⟩ ⟨dev.ram.bufAt (slotAt ring n q),
      (descAt dev.ram.bytes (slotAt ring n q)).len⟩) :
    ∃ status d₂ req', transfer dev req = .ok (some (slotAt ring n q), status, d₂, req') ∧
      QueueAt d₂.vq ring n (q + 1) ∧ d₂.ram.base = dev.ram.base ∧
      ∀ r, descAt d₂.ram.bytes (slotAt ring n r) = descAt dev.ram.bytes (slotAt ring n r) := by
  have hle := Nat.mod_le (descAt dev.ram.bytes (slotAt ring n q)).len (2 ^ 16)
  obtain ⟨r, bytes, img, req', htr, hframe, -, -⟩ := transfer_total dev req hq ha h.addr rfl
    (Nat.le_trans (Nat.add_le_add_left hle _) h.2)
  refine ⟨_, _, _, htr, hq.at (q + 1), rfl, fun r => ?_⟩
  refine descAt_congr fun x hx => hframe x fun hin => ?_
  exact hoff.not_has (slotAt_in_ring hq.pos r hx) hin

/-- The next turn of the loop is safe exactly when the ring holds a request that is chained, or
none. -/
theorem roundUses_iff (hq : QueueAt dev.vq ring n p) (hb : BuffersAt ring n dev.ram p req) :
    (∀ u ∈ roundUses dev req, u.Safe) ↔ chainedAt ring n dev.ram p req = true := by
  have hnext : (descAt dev.ram.bytes (slotAt ring n p)).flags.testBit vringDescFNext =
    nextAt ring n dev.ram p := rfl
  unfold roundUses chainedAt
  cases ha : availAt ring n dev.ram p with
  | false =>
    rw [VqDev.getAvail_none hq ha]
    simp
  | true =>
    rw [VqDev.getAvail_some hq ha, follow_ok, if_neg (by simp)]
    unfold bodyUses
    rw [copyHeader_at req hq (hb ha).1, descLen_ok (hq.slot_le p),
      virtqCheckNext_ok (hq.slot_le p)]
    simp only [VqDev.took_ram, hnext, follow_ok]
    by_cases hlen : (descAt dev.ram.bytes (slotAt ring n p)).len ≤ VirtioBlkReq.sizeof
    · have hfirst : ∀ u ∈ [Use.desc (some (slotAt ring n p)),
          .header (descAt dev.ram.bytes (slotAt ring n p)).len], u.Safe := by
        simp [Use.Safe, hlen]
      rw [if_pos hlen, follow_ok, List.forall_mem_append, decide_eq_true hlen]
      refine (and_iff_right hfirst).trans ?_
      simp only [Bool.not_true, Bool.false_or, Bool.true_and]
      by_cases hio : IsIoType (headerAt ring n dev.ram p req)
      · rw [if_pos hio, decide_eq_true hio]
        cases hn : nextAt ring n dev.ram p with
        | false => simp
        | true =>
          have htake := takeUses_iff (dev.took ring n p) (hq.at (p + 1))
          rw [if_pos rfl, List.forall_mem_append, htake, VqDev.took_ram]
          cases ha₁ : availAt ring n dev.ram (p + 1) with
          | false => simp
          | true =>
            -- the data leaves the rest of the ring as it was
            obtain ⟨⟨hdata, hoff⟩, -⟩ := ((hb ha).2 hn ha₁).1 hio
            obtain ⟨status, d₂, req', htr, hq₂, -, hdesc⟩ :=
              transfer_at (dev.took ring n p) (headerAt ring n dev.ram p req)
                (hq.at (p + 1)) ha₁ hdata hoff
            rw [htr, follow_ok, finishUses_iff d₂ (p + 1) hq₂]
            simp only [nextAt, availAt, hdesc, VqDev.took_ram, true_and, Bool.not_true,
              Bool.false_or, Bool.true_and]
      · have hfin := finishUses_iff (dev.took ring n p) p (hq.at (p + 1))
        rw [if_neg hio, hfin, decide_eq_false hio]
        simp
    · rw [if_neg hlen]
      simp [Use.Safe, hlen]

/-- What is left of a request of `t + 2` descriptors at position `p` once it is answered. -/
structure Answered (ring n p : Nat) (dev dev' : VirtioBlkDev) (t : Nat) : Prop where
  avail : availAt ring n dev.ram p = true
  next : ∀ j ≤ t, nextAt ring n dev.ram (p + j) = true
  queue : QueueAt dev'.vq ring n (p + (t + 2))
  base : dev'.ram.base = dev.ram.base
  bytes : ∃ m st, dev'.ram.bytes = finishMem m (slotAt ring n p)
      (dev.ram.bufAt (slotAt ring n (p + (t + 1)))) st ∧
    ∀ r, descAt m (slotAt ring n r) = descAt dev.ram.bytes (slotAt ring n r)

/-- A turn on a request that is chained and whose buffers are in guest memory returns. If the loop
goes on, the request is answered. -/
theorem round_chained (hq : QueueAt dev.vq ring n p) (hb : BuffersAt ring n dev.ram p req)
    (hc : chainedAt ring n dev.ram p req = true) :
    ∃ flow dev' req', round dev req = .ok (flow, dev', req') ∧
      (flow = .loop → ∃ t, Answered ring n p dev dev' t) := by
  have hnext : (descAt dev.ram.bytes (slotAt ring n p)).flags.testBit vringDescFNext =
    nextAt ring n dev.ram p := rfl
  cases ha : availAt ring n dev.ram p with
  | false =>
    rw [round, VqDev.getAvail_none hq ha]
    exact ⟨_, _, _, rfl, fun h => by cases h⟩
  | true =>
    simp only [chainedAt, ha, Bool.not_true, Bool.false_or, Bool.and_eq_true,
      decide_eq_true_eq] at hc
    obtain ⟨hlen, hc⟩ := hc
    rw [round_took req hq ha, body, copyHeader_at req hq (hb ha).1, if_pos hlen, ok_bind]
    by_cases hio : IsIoType (headerAt ring n dev.ram p req)
    · rw [if_pos (show _ ∨ _ from hio), virtqCheckNext_ok (hq.slot_le p), ok_bind]
      simp only [VqDev.took_ram, hnext]
      cases hn : nextAt ring n dev.ram p with
      | false => exact ⟨_, _, _, rfl, fun h => by cases h⟩
      | true =>
        simp only [hn, hio, decide_true, Bool.not_true, Bool.false_or, Bool.and_eq_true,
          Bool.or_eq_true, Bool.not_eq_true'] at hc
        obtain ⟨ha₁, hc⟩ := hc
        obtain ⟨⟨hdata, hoff⟩, hst⟩ := ((hb ha).2 hn ha₁).1 hio
        obtain ⟨status, d₂, req', htr, hq₂, hbase, hdesc⟩ :=
          transfer_at (dev.took ring n p) (headerAt ring n dev.ram p req)
            (hq.at (p + 1)) ha₁ hdata hoff
        rw [if_pos rfl, htr, ok_bind]
        have hsame : ∀ r, descAt d₂.ram.bytes (slotAt ring n r) =
          descAt dev.ram.bytes (slotAt ring n r) := hdesc
        cases hn₁ : nextAt ring n dev.ram (p + 1) with
        | false =>
          have hck : virtqCheckNext d₂.ram (some (slotAt ring n (p + 1))) = .ok false := by
            rw [virtqCheckNext_ok (hq.slot_le _), hsame]
            exact congrArg _ hn₁
          simp only [finish, hck, ok_bind]
          exact ⟨_, _, _, rfl, fun h => by cases h⟩
        | true =>
          have ha₂ : availAt ring n dev.ram (p + 2) = true := by
            rw [hn₁] at hc
            exact hc.resolve_left (by decide)
          replace hst := hst hn₁ ha₂
          rw [finish_ok d₂ (slotAt ring n p) (slotAt ring n (p + 1)) _ status hq₂
            (hq.slot_le p) (hq.slot_le _) (by rw [hsame]; exact hn₁)
            (by rw [hsame]; exact ha₂) (by rw [hsame, hbase]; exact hst.addr) hst.2]
          refine ⟨_, _, _, rfl, fun _ =>
            ⟨1, ha, fun j hj => ?_, hq₂.at (p + 3), hbase, _, _, rfl, hsame⟩⟩
          rcases Nat.le_one_iff_eq_zero_or_eq_one.mp hj with rfl | rfl
          · exact hn
          · exact hn₁
    · rw [if_neg (show ¬ (_ ∨ _) from hio)]
      cases hn : nextAt ring n dev.ram p with
      | false =>
        have hck : virtqCheckNext (dev.took ring n p).ram (some (slotAt ring n p)) =
            .ok false := by
          rw [virtqCheckNext_ok (hq.slot_le p)]
          exact congrArg _ hn
        simp only [finish, hck, ok_bind]
        exact ⟨_, _, _, rfl, fun h => by cases h⟩
      | true =>
        simp only [hn, hio, decide_false, Bool.not_true, Bool.false_or, Bool.not_false,
          Bool.true_or, Bool.and_true] at hc
        have hst := ((hb ha).2 hn hc).2 hio
        rw [finish_ok (dev.took ring n p) (slotAt ring n p) (slotAt ring n p) _
          virtioBlkSUnsupp (hq.at (p + 1)) (hq.slot_le p) (hq.slot_le p) hn hc hst.addr hst.2]
        refine ⟨_, _, _, rfl, fun _ =>
          ⟨0, ha, fun j hj => ?_, (hq.at (p + 1)).at (p + 2), rfl, _, _, rfl, fun _ => rfl⟩⟩
        rw [Nat.le_zero.mp hj]
        exact hn

theorem takeUses_some (h : dev.getAvail = .ok (some a, dev')) : ∀ u ∈ takeUses dev, u.Safe := by
  unfold takeUses
  rw [h]
  simp [Use.Safe]

theorem finishUses_ok {head : Nat} {desc : Ptr} {status : Nat} {flow : Flow}
    (h : finish dev (some head) desc status = .ok (flow, dev')) :
    ∀ u ∈ finishUses dev desc, u.Safe := by
  unfold finishUses
  rcases finish_inv h with ⟨hnext, -, -⟩ | ⟨hnext, -, a, d₁, hget, -, -⟩
  · rw [hnext]
    simp
  · rw [hnext]
    exact takeUses_some hget

theorem copyHeader_fits {desc : Ptr} (h : copyHeader dev desc req = .ok req') {len : Nat}
    (hlen : descLen dev.ram desc = .ok len) : len ≤ VirtioBlkReq.sizeof := by
  obtain ⟨addr, -, h⟩ := bind_eq_ok.mp h
  obtain ⟨len', hlen', h⟩ := bind_eq_ok.mp h
  obtain ⟨bs, -, h⟩ := bind_eq_ok.mp h
  rw [hlen] at hlen'
  cases hlen'
  split at h
  · assumption
  · cases h

/-- A turn that is not safe does not return. -/
theorem roundUses_ok {x : Flow × VirtioBlkDev × Store} (h : round dev req = .ok x) :
    ∀ u ∈ roundUses dev req, u.Safe := by
  obtain ⟨flow, d', req'⟩ := x
  unfold roundUses
  rcases round_inv h with ⟨hget, -, -⟩ | ⟨head, d₁, req₁, hget, hcopy, hcases⟩
  · rw [hget]
    simp
  · rw [hget, follow_ok, if_neg (by simp)]
    unfold bodyUses
    rw [List.forall_mem_append, hcopy, follow_ok]
    constructor
    · cases hlen : descLen d₁.ram (some head) with
      | error e => simp [Use.Safe]
      | ok len => simp [Use.Safe, copyHeader_fits hcopy hlen]
    · rcases hcases with ⟨hio, hnext, -, -⟩ | ⟨hio, hnext, desc, status, d₂, req₂, htr,
        hfin⟩ | ⟨hio, hfin⟩
      · rw [if_pos hio, hnext]
        simp
      · obtain ⟨a, d₃, hget₂, -, -, -⟩ := transfer_inv htr
        rw [if_pos hio, hnext, follow_ok, if_pos rfl, List.forall_mem_append, htr]
        exact ⟨takeUses_some hget₂, finishUses_ok hfin⟩
      · rw [if_neg hio]
        exact finishUses_ok hfin

end

/-! ## What a turn can stop with

An access to guest memory stops with `null` or `wild`, and the copy of a header that does not fit
with `smash`. -/

/-- The error of a copy that leaves its object. -/
abbrev NoSmash {α : Type} (x : Except Stop α) : Prop := Avoids (· = .smash) x

section Avoids

variable {bad : Stop → Prop} (hnull : ¬ bad .null) (hwild : ¬ bad .wild)
variable {ram : Ram} {p : Ptr} {n v : Nat} {dev : VirtioBlkDev} {req : Store}

include hnull hwild

theorem read_avoids : Avoids bad (ram.read p n) := by
  unfold Ram.read
  split
  · exact avoids_ok _
  · split
    · exact avoids_error.mpr hnull
    · split
      · exact avoids_ok _
      · exact avoids_error.mpr hwild

theorem write_avoids {bs : List UInt8} : Avoids bad (ram.write p bs) := by
  rcases ram.write_cases p bs with ⟨bytes, hw⟩ | hw | hw
  · rw [hw]
    exact avoids_ok _
  · rw [hw]
    exact avoids_error.mpr hnull
  · rw [hw]
    exact avoids_error.mpr hwild

theorem load_avoids : Avoids bad (ram.load p n) :=
  avoids_bind.mpr ⟨read_avoids hnull hwild, fun _ _ => avoids_ok _⟩

theorem setDescLen_avoids : Avoids bad (setDescLen ram p v) := by
  unfold setDescLen Ram.store
  exact write_avoids hnull hwild

theorem getAvail_avoids : Avoids bad dev.getAvail := by
  refine avoids_bind.mpr ⟨avoids_bind.mpr ⟨load_avoids hnull hwild, fun flags _ => ?_⟩,
    fun x _ => ?_⟩
  · simp only
    split
    · exact avoids_ok _
    · split
      · exact avoids_ok _
      · exact avoids_ok _
  · obtain ⟨desc, vq⟩ := x
    cases desc with
    | none => exact avoids_ok _
    | some a => exact avoids_ok _

theorem markUsed_avoids {desc : Ptr} : Avoids bad (dev.markUsed desc) := by
  refine avoids_bind.mpr ⟨?_, fun ram _ => ?_⟩
  · exact avoids_bind.mpr ⟨load_avoids hnull hwild, fun flags _ => write_avoids hnull hwild⟩
  cases desc with
  | none => exact avoids_ok _
  | some a => exact avoids_ok _

theorem virtioBlkRead_avoids {data : Ptr} {offset : Int} {size : Nat} :
    Avoids bad (virtioBlkRead dev data offset size) := by
  refine avoids_bind.mpr ⟨avoids_bind.mpr ⟨?_, fun _ _ => avoids_ok _⟩, fun _ _ => avoids_ok _⟩
  unfold File.read
  split
  · exact avoids_ok _
  · exact avoids_bind.mpr ⟨write_avoids hnull hwild, fun _ _ => avoids_ok _⟩

theorem virtioBlkWrite_avoids {data : Ptr} {offset : Int} {size : Nat} :
    Avoids bad (virtioBlkWrite dev data offset size) := by
  refine avoids_bind.mpr ⟨avoids_bind.mpr ⟨?_, fun _ _ => avoids_ok _⟩, fun _ _ => avoids_ok _⟩
  unfold File.write
  split
  · exact avoids_ok _
  · dsimp only
    split
    · exact avoids_ok _
    · exact avoids_bind.mpr ⟨read_avoids hnull hwild, fun _ _ => avoids_ok _⟩

theorem transfer_avoids : Avoids bad (transfer dev req) := by
  refine avoids_bind.mpr ⟨getAvail_avoids hnull hwild, fun x _ => ?_⟩
  refine avoids_bind.mpr ⟨load_avoids hnull hwild, fun len _ => ?_⟩
  refine avoids_bind.mpr ⟨load_avoids hnull hwild, fun addr _ => ?_⟩
  dsimp only
  split
  · exact avoids_bind.mpr ⟨virtioBlkRead_avoids hnull hwild, fun _ _ => avoids_ok _⟩
  · exact avoids_bind.mpr ⟨virtioBlkWrite_avoids hnull hwild, fun _ _ => avoids_ok _⟩

theorem checkNext_avoids : Avoids bad (virtqCheckNext ram p) :=
  avoids_bind.mpr ⟨load_avoids hnull hwild, fun _ _ => avoids_ok _⟩

theorem finish_avoids {usedDesc desc : Ptr} {status : Nat} :
    Avoids bad (finish dev usedDesc desc status) := by
  refine avoids_bind.mpr ⟨checkNext_avoids hnull hwild, fun next _ => ?_⟩
  cases next with
  | false => exact avoids_ok _
  | true =>
    refine avoids_bind.mpr ⟨getAvail_avoids hnull hwild, fun x _ => ?_⟩
    refine avoids_bind.mpr ⟨load_avoids hnull hwild, fun addr _ => ?_⟩
    refine avoids_bind.mpr ⟨write_avoids hnull hwild, fun ram _ => ?_⟩
    refine avoids_bind.mpr ⟨markUsed_avoids hnull hwild, fun d _ => ?_⟩
    exact avoids_bind.mpr ⟨setDescLen_avoids hnull hwild, fun _ _ => avoids_ok _⟩

theorem copyHeader_avoids {desc : Ptr}
    (h : bad .smash → ∀ len, descLen dev.ram desc = .ok len → len ≤ VirtioBlkReq.sizeof) :
    Avoids bad (copyHeader dev desc req) := by
  refine avoids_bind.mpr ⟨load_avoids hnull hwild, fun addr _ => ?_⟩
  refine avoids_bind.mpr ⟨load_avoids hnull hwild, fun len hlen => ?_⟩
  refine avoids_bind.mpr ⟨read_avoids hnull hwild, fun bs _ => ?_⟩
  split
  · exact avoids_ok _
  · rename_i hlong
    exact avoids_error.mpr fun hb => hlong (h hb len hlen)

theorem round_avoids (h : bad .smash → ∀ u ∈ roundUses dev req, u.Safe) :
    Avoids bad (round dev req) := by
  refine avoids_bind.mpr ⟨getAvail_avoids hnull hwild, fun x hget => ?_⟩
  obtain ⟨desc, d₁⟩ := x
  unfold roundUses at h
  rw [hget, follow_ok] at h
  cases desc with
  | none => exact avoids_ok _
  | some head =>
    have hlen : bad .smash → ∀ len, descLen d₁.ram (some head) = .ok len →
        len ≤ VirtioBlkReq.sizeof := by
      intro hb len hlen
      refine h hb (.header len) ?_
      rw [if_neg (by simp)]
      unfold bodyUses
      rw [hlen]
      simp
    refine avoids_bind.mpr ⟨copyHeader_avoids hnull hwild hlen, fun req₁ _ => ?_⟩
    split
    · refine avoids_bind.mpr ⟨checkNext_avoids hnull hwild, fun next _ => ?_⟩
      cases next with
      | false => exact avoids_ok _
      | true =>
        refine avoids_bind.mpr ⟨transfer_avoids hnull hwild, fun x _ => ?_⟩
        exact avoids_bind.mpr ⟨finish_avoids hnull hwild, fun _ _ => avoids_ok _⟩
    · exact avoids_bind.mpr ⟨finish_avoids hnull hwild, fun _ _ => avoids_ok _⟩

end Avoids

/-- A safe turn smashes nothing. -/
theorem round_noSmash {dev : VirtioBlkDev} {req : Store} (h : ∀ u ∈ roundUses dev req, u.Safe) :
    NoSmash (round dev req) :=
  round_avoids (by decide) (by decide) fun _ => h

/-! ## A call -/

section

variable {dev : VirtioBlkDev} {req : Store} {ring n : Nat}

theorem round_ring {dev' : VirtioBlkDev} {req' : Store} {flow : Flow} (h : RingOf dev.vq ring n)
    (hr : round dev req = .ok (flow, dev', req')) : RingOf dev'.vq ring n := by
  have hm := round_moved hr
  refine ⟨hm.descRing.trans h.descRing, ?_, ?_, h.inRam⟩
  · unfold Virtq.size
    rw [hm.info]
    exact h.size
  · have hidx := hm.idx (by rw [h.size]; exact h.idx)
    rw [h.size] at hidx
    exact hidx

theorem heads_ring (fuel : Nat) : ∀ {dev : VirtioBlkDev} {req : Store}, RingOf dev.vq ring n →
    ∀ t ∈ heads fuel dev req, RingOf t.1.vq ring n := by
  induction fuel with
  | zero =>
    intro dev req _ t ht
    cases ht
  | succ fuel ih =>
    intro dev req h t ht
    rcases List.mem_cons.mp ht with rfl | ht
    · exact h
    · cases hr : round dev req with
      | error e =>
        rw [hr] at ht
        cases ht
      | ok x =>
        obtain ⟨flow, d', req'⟩ := x
        have hring := round_ring h hr
        rw [hr] at ht
        cases flow with
        | ret => cases ht
        | loop => exact ih hring t ht

/-- A call that returns is its turns, one for each time it comes to the head of the loop. -/
theorem heads_ok (fuel : Nat) : ∀ (dev : VirtioBlkDev) (req : Store) {dev' : VirtioBlkDev},
    virtioBlkCompleteRequest fuel dev req = .ok dev' →
      ∀ t ∈ heads fuel dev req, ∃ x, round t.1 t.2 = .ok x := by
  induction fuel with
  | zero =>
    intro dev req dev' h
    cases h
  | succ fuel ih =>
    intro dev req dev' h
    obtain ⟨⟨flow, d', req'⟩, hr, h⟩ := bind_eq_ok.mp h
    rw [heads, List.forall_mem_cons, hr, follow_ok]
    refine ⟨⟨_, rfl⟩, ?_⟩
    cases flow with
    | ret => exact fun t ht => by cases ht
    | loop => exact ih d' req' h

/-- A call that stops has run out of fuel, or stopped in one of its turns. -/
theorem heads_error (fuel : Nat) : ∀ (dev : VirtioBlkDev) (req : Store) {e : Stop},
    virtioBlkCompleteRequest fuel dev req = .error e →
      e = .fuel ∨ ∃ t ∈ heads fuel dev req, round t.1 t.2 = .error e := by
  induction fuel with
  | zero =>
    intro dev req e h
    cases h
    exact .inl rfl
  | succ fuel ih =>
    intro dev req e h
    rw [virtioBlkCompleteRequest] at h
    cases hr : round dev req with
    | error e' =>
      rw [hr] at h
      cases h
      exact .inr ⟨(dev, req), List.mem_cons_self, hr⟩
    | ok x =>
      obtain ⟨flow, d', req'⟩ := x
      rw [hr, ok_bind] at h
      cases flow with
      | ret => cases h
      | loop =>
        refine (ih d' req' h).imp_right fun ⟨t, ht, hs⟩ => ⟨t, ?_, hs⟩
        rw [heads, hr, follow_ok]
        exact List.mem_cons_of_mem _ ht

end

end Blk

/-- **The request loop on any ring.** For every ring in guest memory, whatever it holds and wherever
the cursor is in it: if the buffers of the requests that the loop comes to are in guest memory, with
the data clear of the ring, a call uses only descriptors that `virtq_get_avail` returned and copies
only headers that fit exactly when the ring is `chained` each time the loop comes to its head, and
then nothing stops the call but its fuel. Whatever the buffers are, a call that returns was safe,
and one that smashed the stack was not. -/
theorem blk_hostile_ring {dev : VirtioBlkDev} {ring n : Nat} (h : RingOf dev.vq ring n)
    (fuel : Nat) (req : Store) :
    ((∀ t ∈ Blk.heads fuel dev req, Blk.BuffersIn ring n t.1 t.2) →
      ((∀ u ∈ Blk.uses fuel dev req, u.Safe) ↔
        ∀ t ∈ Blk.heads fuel dev req, Blk.chained ring n t.1 t.2 = true) ∧
      ((∀ u ∈ Blk.uses fuel dev req, u.Safe) →
        ∀ e, virtioBlkCompleteRequest fuel dev req = .error e → e = .fuel)) ∧
    (∀ dev', virtioBlkCompleteRequest fuel dev req = .ok dev' →
      ∀ u ∈ Blk.uses fuel dev req, u.Safe) ∧
    (virtioBlkCompleteRequest fuel dev req = .error .smash →
      ∃ u ∈ Blk.uses fuel dev req, ¬ u.Safe) := by
  have hturns : (∀ u ∈ Blk.uses fuel dev req, u.Safe) ↔
      ∀ t ∈ Blk.heads fuel dev req, ∀ u ∈ Blk.roundUses t.1 t.2, u.Safe := by
    unfold Blk.uses
    rw [List.forall_mem_flatMap]
  refine ⟨fun hb => ?_, ?_, ?_⟩
  · have hiff : (∀ u ∈ Blk.uses fuel dev req, u.Safe) ↔
        ∀ t ∈ Blk.heads fuel dev req, Blk.chained ring n t.1 t.2 = true := by
      rw [hturns]
      exact forall₂_congr fun t ht =>
        Blk.roundUses_iff (Blk.heads_ring fuel h t ht).queueAt (hb t ht)
    refine ⟨hiff, fun hsafe e hcall => ?_⟩
    rcases Blk.heads_error fuel dev req hcall with hfuel | ⟨t, ht, hround⟩
    · exact hfuel
    · obtain ⟨flow, d', req', hx, -⟩ :=
        Blk.round_chained (Blk.heads_ring fuel h t ht).queueAt (hb t ht)
        (hiff.mp hsafe t ht)
      rw [hx] at hround
      cases hround
  · intro dev' hcall
    rw [hturns]
    intro t ht
    obtain ⟨x, hx⟩ := Blk.heads_ok fuel dev req hcall t ht
    exact Blk.roundUses_ok hx
  · intro hcall
    rcases Blk.heads_error fuel dev req hcall with hfuel | ⟨t, ht, hs⟩
    · cases hfuel
    · refine Classical.byContradiction fun hn => ?_
      have hsafe : ∀ u ∈ Blk.uses fuel dev req, u.Safe := fun u hu =>
        Decidable.byContradiction fun hu' => hn ⟨u, hu, hu'⟩
      exact Blk.round_noSmash (hturns.mp hsafe t ht) _ hs rfl

/-! Rings of four slots at 0x1000, with a disk of zeros; the header at 0x4000 is that of a read of
sector 0. -/

def ringDev (descs : List VringPackedDesc) : VirtioBlkDev where
  vq := ⟨some 0x1000, none, none, putLE (fun _ => 0) 0 2 4, 0, true⟩
  ram := ⟨0, (descs.zipIdx.foldl fun m x => putDesc m (0x1000 + 16 * x.2) x.1) fun _ => 0⟩
  isrStatus := 0
  backend := zeroDisk
  trace := []

theorem ringDev_ring (descs : List VringPackedDesc) : RingOf (ringDev descs).vq 0x1000 4 :=
  ⟨rfl, rfl, by show 0 < 4; decide, by decide⟩

/-- A whole request: header, 16 bytes of data and status. -/
def wholeChain : List VringPackedDesc :=
  [⟨0x4000, 16, 0, 2 ^ vringPackedDescFAvail + 1⟩, ⟨0x5000, 16, 0, 2 ^ vringPackedDescFAvail + 1⟩,
    ⟨0x6000, 1, 0, 2 ^ vringPackedDescFAvail⟩]

theorem blk_hostile_ring_whole :
    RingOf (ringDev wholeChain).vq 0x1000 4 ∧
      (Blk.uses 2 (ringDev wholeChain) fun _ => 0).length = 4 ∧
      ∀ u ∈ Blk.uses 2 (ringDev wholeChain) fun _ => 0, u.Safe :=
  ⟨ringDev_ring _, by decide +kernel,
    (((blk_hostile_ring (ringDev_ring wholeChain) 2 fun _ => 0).1 (by decide +kernel)).1).mpr
      (by decide +kernel)⟩

/-- A header longer than `struct virtio_blk_req`, and a head whose NEXT leads to a slot that is not
available. -/
def longHeader : List VringPackedDesc := [⟨0x4000, 41, 0, 2 ^ vringPackedDescFAvail⟩]
def brokenChain : List VringPackedDesc := [⟨0x4000, 16, 0, 2 ^ vringPackedDescFAvail + 1⟩]

theorem hostile_rings_misused :
    (RingOf (ringDev longHeader).vq 0x1000 4 ∧
      .header 41 ∈ Blk.uses 1 (ringDev longHeader) (fun _ => 0) ∧
      ¬ (Blk.Use.header 41).Safe ∧ virtioBlkCompleteRequest 1 (ringDev longHeader) (fun _ => 0) =
        .error .smash) ∧
    RingOf (ringDev brokenChain).vq 0x1000 4 ∧
      .desc none ∈ Blk.uses 1 (ringDev brokenChain) (fun _ => 0) ∧
      ¬ (Blk.Use.desc none).Safe ∧ virtioBlkCompleteRequest 1 (ringDev brokenChain) (fun _ => 0) =
        .error .null :=
  ⟨⟨ringDev_ring _, by decide +kernel, by decide, rfl⟩, ringDev_ring _,
    by decide +kernel, by decide, rfl⟩

end KvmHost
