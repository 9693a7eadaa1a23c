import KvmHost.BlkOutside

/-!
# KvmHost.BlkUsed

What the block device leaves in the ring for a request it completed.

The used element is written over the head of the chain: the head keeps its own `id`, and its `len`
is the outer `r` of the loop, which is 0. The count that the backend read returned is in the inner
`r` and is lost. `used_elements` says for which requests of a run this is the element the driver
expects.
-/

namespace KvmHost
namespace Blk

open ByteStore Lap

/-- A request that was served at position `pos` of the ring. -/
structure Turn extends Io where
  pos : Nat

namespace Turn

variable (ring n : Nat) (x : Turn)

def headPre : VringPackedDesc := descAt x.pre.ram.bytes (slotAt ring n x.pos)
def headPost : VringPackedDesc := descAt x.post.ram.bytes (slotAt ring n x.pos)

-- the last descriptor of the chain, where the driver puts the id of the buffer
def last : VringPackedDesc := descAt x.pre.ram.bytes (slotAt ring n (x.pos + (x.req.slots - 1)))

/-- What `virtio_blk_read` returns for the request: `none` for a negative value. -/
def returned : Option Nat :=
  match virtioBlkRead x.pre (some x.req.data) (sectorOffset x.req.sector) x.req.asked with
  | .ok (r, _) => r
  | .error _ => none

/-- The used element has the buffer's id and a length that accounts for the bytes written. -/
structure Faithful : Prop where
  id : (x.headPost ring n).id = (x.last ring n).id
  inLen : x.req.type = virtioBlkTIn → ∀ r, x.returned = some r →
    r ≤ (x.headPost ring n).len ∧ (x.headPost ring n).len ≤ r + 1
  otherLen : x.req.type ≠ virtioBlkTIn ∨ x.returned = none → (x.headPost ring n).len ≤ 1

end Turn

/-- Turns of the loop on well-formed requests of any type and any range, from position `p` on; the
guest may rewrite its memory before each. -/
inductive UsedRun (ring n : Nat) : Nat → VirtioBlkDev → List Turn → VirtioBlkDev → Prop where
  | done {p : Nat} {d : VirtioBlkDev} : UsedRun ring n p d [] d
  | step {p : Nat} {d pre post d' : VirtioBlkDev} {r : Req} {m req req' : Store} {xs : List Turn} :
      pre = { d with ram := { d.ram with bytes := m } } → ChainAt pre.ram.base m ring n p r →
        Placed ring n r →
      round pre req = .ok (.loop, post, req') →
      UsedRun ring n (p + r.slots) post xs d' → UsedRun ring n p d (⟨⟨r, pre, post⟩, p⟩ :: xs) d'

section One

variable {ring n p : Nat} {r : Req} {dev : VirtioBlkDev}

variable (dev) in
/-- A turn of the loop leaves the head of the chain marked used with `len` 0, and otherwise as it
was. -/
theorem round_used (req : Store) (hq : QueueAt dev.vq ring n p)
    (hc : ChainAt dev.ram.base dev.ram.bytes ring n p r) (hp : Placed ring n r) :
    ∃ post req', round dev req = .ok (.loop, post, req') ∧ QueueAt post.vq ring n (p + r.slots) ∧
      descAt post.ram.bytes (slotAt ring n p) =
        { descAt dev.ram.bytes (slotAt ring n p) with
          len := 0
          flags :=
            (descAt dev.ram.bytes (slotAt ring n p)).flags ^^^ 2 ^ vringPackedDescFUsed } := by
  by_cases hio : r.IsIo
  · obtain ⟨res, bytes, img, req', hround, hframe, -, -⟩ := round_io dev req hq hc hp hio
    have hdesc : descAt bytes (slotAt ring n p) = descAt dev.ram.bytes (slotAt ring n p) := by
      refine descAt_congr ?_
      intro a ha
      exact hframe a (hp.dataOffRing.symm.not_has (slotAt_in_ring hq.pos p ha))
    rw [Req.slots_io hio]
    refine ⟨_, req', hround, hq.at (p + 3), ?_⟩
    rw [← hdesc]
    exact finishMem_head (hp.status_off_slot hq.pos)
  · obtain ⟨req', hbody⟩ := body_other req hq hc hp.header hp.status hio
    have hround := (round_took req hq (hc.avail 0 r.slots_pos)).trans hbody
    refine ⟨_, req', hround, hq.at (p + r.slots), ?_⟩
    simp only [Req.served, Req.memOut, Req.dataOut_other hio]
    exact finishMem_head (hp.status_off_slot hq.pos)

end One

/-- An element with the head's own id and length 0 is faithful only by chance. -/
theorem Turn.faithful_iff {ring n flags : Nat} {x : Turn}
    (hhead : x.headPost ring n = { x.headPre ring n with len := 0, flags := flags }) :
    x.Faithful ring n ↔
      (x.headPre ring n).id = (x.last ring n).id ∧
        (x.req.type = virtioBlkTIn → ∀ r, x.returned = some r → r = 0) := by
  have hid : (x.headPost ring n).id = (x.headPre ring n).id := by rw [hhead]
  have hlen : (x.headPost ring n).len = 0 := by rw [hhead]
  constructor
  · intro h
    refine ⟨hid.symm.trans h.id, ?_⟩
    intro hin r hr
    obtain ⟨hle, -⟩ := h.inLen hin r hr
    omega
  · rintro ⟨hsame, hzero⟩
    refine ⟨hid.trans hsame, ?_, fun _ => by omega⟩
    intro hin r hr
    have := hzero hin r hr
    omega

/-- **Used elements.** Every well-formed request is served and leaves its head marked used, with the
id that the head itself has and `len` 0. This is the id in the last descriptor of the chain and the
number of bytes written exactly when the driver put the same id in both descriptors and no read
returned any byte. -/
theorem used_elements {ring n p : Nat} {d d' : VirtioBlkDev} {xs : List Turn}
    (hq : QueueAt d.vq ring n p) (h : UsedRun ring n p d xs d') :
    (∀ x ∈ xs, x.headPost ring n =
        { x.headPre ring n with
          len := 0
          flags := (x.headPre ring n).flags ^^^ 2 ^ vringPackedDescFUsed } ∧
      (x.Faithful ring n ↔
        (x.headPre ring n).id = (x.last ring n).id ∧
          (x.req.type = virtioBlkTIn → ∀ r, x.returned = some r → r = 0))) ∧
    ∃ q, QueueAt d'.vq ring n q ∧
      ∀ (r : Req) (m req : Store), ChainAt d'.ram.base m ring n q r → Placed ring n r →
        ∃ post req', round { d' with ram := { d'.ram with bytes := m } } req =
          .ok (.loop, post, req') := by
  induction h with
  | @done p d =>
    refine ⟨by simp, p, hq, ?_⟩
    intro r m req hc hp
    obtain ⟨post, req', hround, -⟩ :=
      round_used { d with ram := { d.ram with bytes := m } } req hq hc hp
    exact ⟨post, req', hround⟩
  | @step p d pre post d' r m req req' xs hpre hc hp hround _ ih =>
    subst hpre
    obtain ⟨post₁, req₁, hround₁, hq₁, hhead⟩ :=
      round_used { d with ram := { d.ram with bytes := m } } req hq hc hp
    rw [hround] at hround₁
    cases hround₁
    obtain ⟨hrest, hnext⟩ := ih hq₁
    exact ⟨List.forall_mem_cons.mpr ⟨⟨hhead, Turn.faithful_iff hhead⟩, hrest⟩, hnext⟩

/-! ## A write and a read

One request of four bytes in a ring of eight: header at 128, status at 144, data at 160; `id` is in
the last descriptor. -/

def idReq (type : Nat) : Req := ⟨type, 0, 128, 160, 4, 144⟩

def idMem (type id : Nat) : Store :=
  let m : Store := fun _ => 0
  let m := putDesc m 0 ⟨128, 16, 0, 129⟩
  let m := putDesc m 16 ⟨160, 4, 0, 129⟩
  let m := putDesc m 32 ⟨144, 1, id, 128⟩
  putLE m 128 4 type

def idDev (type id : Nat) : VirtioBlkDev := { ioDev with ram := ⟨0, idMem type id⟩ }

theorem used_elements_write :
    ∃ x d', UsedRun 0 8 0 (idDev virtioBlkTOut 0) [x] d' ∧ x.req = idReq virtioBlkTOut ∧
      x.Faithful 0 8 := by
  have hc : ChainAt 0 (idMem virtioBlkTOut 0) 0 8 0 (idReq virtioBlkTOut) := by decide +kernel
  have hp : Placed 0 8 (idReq virtioBlkTOut) :=
    ⟨by decide, by decide, by decide, by decide, by decide, by decide⟩
  obtain ⟨post, req', hround, -⟩ :=
    round_used (idDev virtioBlkTOut 0) (fun _ => 0) ioDev_queue hc hp
  have hrun : UsedRun 0 8 0 (idDev virtioBlkTOut 0)
      [⟨⟨idReq virtioBlkTOut, idDev virtioBlkTOut 0, post⟩, 0⟩] post :=
    .step (m := idMem virtioBlkTOut 0) rfl hc hp hround .done
  have hid : (descAt (idMem virtioBlkTOut 0) (slotAt 0 8 0)).id =
      (descAt (idMem virtioBlkTOut 0) (slotAt 0 8 2)).id := by
    decide +kernel
  obtain ⟨hall, -⟩ := used_elements (d := idDev virtioBlkTOut 0) ioDev_queue hrun
  refine ⟨_, post, hrun, rfl, (hall _ List.mem_cons_self).2.mpr ⟨hid, ?_⟩⟩
  intro hin
  cases hin

/-- A read of four bytes leaves a used element of length 0, and a write whose last descriptor has
the id 7 one with the id 0. -/
theorem used_len_lost :
    let post := fun type id => (virtioBlkCompleteRequest 2 (idDev type id) fun _ => 0).toOption.getD
      (idDev type id)
    (virtioBlkCompleteRequest 2 (idDev virtioBlkTIn 0) fun _ => 0).isOk = true ∧
      Turn.returned ⟨⟨idReq virtioBlkTIn, idDev virtioBlkTIn 0, post virtioBlkTIn 0⟩, 0⟩ = some 4 ∧
      descAt (post virtioBlkTIn 0).ram.bytes 0 = ⟨128, 0, 0, 32897⟩ ∧
      (virtioBlkCompleteRequest 2 (idDev virtioBlkTOut 7) fun _ => 0).isOk = true ∧
      descAt (post virtioBlkTOut 7).ram.bytes 0 = ⟨128, 0, 0, 32897⟩ ∧
      (descAt (idDev virtioBlkTOut 7).ram.bytes 32).id = 7 := by
  decide +kernel

end Blk
end KvmHost
