import Mathlib.Algebra.Group.Int.Defs
import KvmHost.DiskImg
import KvmHost.Virtq

/-!
# KvmHost.VirtioBlk

The request loop of `virtio-blk.c`.

`struct virtio_blk_req req` is one local of `virtio_blk_complete_request`: it is not initialised and
keeps its bytes from one round to the next, and the header of a request is copied over it with the
length the guest put in the descriptor. It is kept as its byte image, 40 bytes: `type` at 0,
`sector` at 8, `data_size` at 24. The pointers `data` (at 16) and `status` (at 32) are assigned in
each round before they are used, so their image is never read and they are plain values here.

The loop is cut where the source reads the ring: `copyHeader`, `transfer` for the data descriptor of
an IN or OUT request, `finish` for the status descriptor. `round` is one turn of the loop.
-/

namespace KvmHost

open ByteStore Lap

abbrev VirtioBlkDev := VqDev DiskImg

def virtioBlkTIn : Nat := 0
def virtioBlkTOut : Nat := 1

def virtioBlkSOk : Nat := 0
def virtioBlkSIoerr : Nat := 1
def virtioBlkSUnsupp : Nat := 2

namespace VirtioBlkReq

-- `sizeof(struct virtio_blk_req)` on the two 64-bit targets
def sizeof : Nat := 40

def type (req : Store) : Nat := getLE req 0 4
def sector (req : Store) : Nat := getLE req 8 8
def dataSize (req : Store) : Nat := getLE req 24 2
def setDataSize (req : Store) (v : Nat) : Store := putLE req 24 2 v

end VirtioBlkReq

/-- A 64-bit value converted to `off_t`. -/
def toOffT (v : Nat) : Int := if v < 2 ^ 63 then v else (v : Int) - 2 ^ 64

-- `req.sector << 9`
def sectorOffset (sector : Nat) : Int := toOffT (sector * 512 % 2 ^ 64)

def virtioBlkRead (dev : VirtioBlkDev) (data : Ptr) (offset : Int) (size : Nat) :
    Except Stop (Option Nat × VirtioBlkDev) := do
  let (r, ram, img) ← diskimgRead dev.backend dev.ram data offset size
  return (r, { dev with ram := ram, backend := img })

def virtioBlkWrite (dev : VirtioBlkDev) (data : Ptr) (offset : Int) (size : Nat) :
    Except Stop (Option Nat × VirtioBlkDev) := do
  let (r, img) ← diskimgWrite dev.backend dev.ram data offset size
  return (r, { dev with backend := img })

namespace Blk

/-- How a turn of the loop ends: at the loop's condition, or with `return`. -/
inductive Flow where
  | loop
  | ret
deriving DecidableEq, Repr

/-- `memcpy(&req, vm_guest_to_host(v, desc->addr), desc->len)` -/
def copyHeader (dev : VirtioBlkDev) (desc : Ptr) (req : Store) : Except Stop Store := do
  let addr ← descAddr dev.ram desc
  let len ← descLen dev.ram desc
  let bs ← dev.ram.read (vmGuestToHost dev.ram addr) len
  if len ≤ VirtioBlkReq.sizeof then return patch req 0 bs else .error .smash

/-- The data descriptor of an IN or OUT request; returns it with the status of the backend call. -/
def transfer (dev : VirtioBlkDev) (req : Store) :
    Except Stop (Ptr × Nat × VirtioBlkDev × Store) := do
  let (desc, dev) ← dev.getAvail
  let len ← descLen dev.ram desc
  let req := VirtioBlkReq.setDataSize req len
  let addr ← descAddr dev.ram desc
  let data := vmGuestToHost dev.ram addr
  let offset := sectorOffset (VirtioBlkReq.sector req)
  let size := VirtioBlkReq.dataSize req
  let (r, dev) ←
    if VirtioBlkReq.type req = virtioBlkTIn then virtioBlkRead dev data offset size
    else virtioBlkWrite dev data offset size
  let status := if r.isNone then virtioBlkSIoerr else virtioBlkSOk
  return (desc, status, dev, req)

/-- From `if (!virtq_check_next(desc))` to the end of the loop body. -/
def finish (dev : VirtioBlkDev) (usedDesc desc : Ptr) (status : Nat) :
    Except Stop (Flow × VirtioBlkDev) := do
  if ← virtqCheckNext dev.ram desc then
    let (desc, dev) ← dev.getAvail
    let addr ← descAddr dev.ram desc
    let ram ← dev.ram.store (vmGuestToHost dev.ram addr) 1 status
    let dev ← { dev with ram := ram }.markUsed usedDesc
    -- `r` is the outer one, which the transfer's own `r` hides and nothing assigns
    let ram ← setDescLen dev.ram usedDesc 0
    return (.loop, { dev with ram := ram }.raiseIsr)
  else
    return (.ret, dev)

/-- The loop body, for the descriptor that the loop's condition returned. -/
def body (dev : VirtioBlkDev) (usedDesc : Ptr) (req : Store) :
    Except Stop (Flow × VirtioBlkDev × Store) := do
  let req ← copyHeader dev usedDesc req
  if VirtioBlkReq.type req = virtioBlkTIn ∨ VirtioBlkReq.type req = virtioBlkTOut then
    if ← virtqCheckNext dev.ram usedDesc then
      let (desc, status, dev, req) ← transfer dev req
      let (flow, dev) ← finish dev usedDesc desc status
      return (flow, dev, req)
    else
      return (.ret, dev, req)
  else
    let (flow, dev) ← finish dev usedDesc usedDesc virtioBlkSUnsupp
    return (flow, dev, req)

/-- One turn of the loop, its condition included. -/
def round (dev : VirtioBlkDev) (req : Store) : Except Stop (Flow × VirtioBlkDev × Store) := do
  let (desc, dev) ← dev.getAvail
  if desc.isNone then return (.ret, dev, req)
  body dev desc req

end Blk

/-- `virtio_blk_complete_request`; `req` is what the stack holds where the local is. -/
def virtioBlkCompleteRequest : Nat → VirtioBlkDev → Store → Except Stop VirtioBlkDev
  | 0, _, _ => .error .fuel
  | fuel + 1, dev, req => do
    let (flow, dev, req) ← Blk.round dev req
    match flow with
    | .loop => virtioBlkCompleteRequest fuel dev req
    | .ret => return dev

/-! ## What the pieces of the loop can do -/

namespace Blk

/-- The request is one the source takes a data descriptor for. -/
def IsIoType (req : Store) : Prop :=
  VirtioBlkReq.type req = virtioBlkTIn ∨ VirtioBlkReq.type req = virtioBlkTOut

instance (req : Store) : Decidable (IsIoType req) := inferInstanceAs (Decidable (_ ∨ _))

section Inversion

variable {dev dev' : VirtioBlkDev} {req req' : Store} {desc : Ptr} {status : Nat} {flow : Flow}

theorem virtioBlkRead_inv {data : Ptr} {offset : Int} {size : Nat} {r : Option Nat}
    (h : virtioBlkRead dev data offset size = .ok (r, dev')) :
    dev'.vq = dev.vq ∧ dev'.trace = dev.trace := by
  obtain ⟨x, -, h⟩ := bind_eq_ok.mp h
  cases h
  exact ⟨rfl, rfl⟩

theorem virtioBlkWrite_inv {data : Ptr} {offset : Int} {size : Nat} {r : Option Nat}
    (h : virtioBlkWrite dev data offset size = .ok (r, dev')) :
    dev'.vq = dev.vq ∧ dev'.trace = dev.trace := by
  obtain ⟨x, -, h⟩ := bind_eq_ok.mp h
  cases h
  exact ⟨rfl, rfl⟩

/-- The data descriptor was available: NULL would have been dereferenced. -/
theorem transfer_inv (h : transfer dev req = .ok (desc, status, dev', req')) :
    ∃ a d₁, dev.getAvail = .ok (some a, d₁) ∧ desc = some a ∧
      dev'.vq = d₁.vq ∧ dev'.trace = d₁.trace := by
  obtain ⟨⟨p, d₁⟩, hget, h⟩ := bind_eq_ok.mp h
  obtain ⟨len, hlen, h⟩ := bind_eq_ok.mp h
  obtain ⟨addr, -, h⟩ := bind_eq_ok.mp h
  cases p with
  | none => cases hlen
  | some a =>
    simp only at h
    split at h
    · obtain ⟨⟨r, d₂⟩, hio, h⟩ := bind_eq_ok.mp h
      cases h
      exact ⟨a, d₁, hget, rfl, virtioBlkRead_inv hio⟩
    · obtain ⟨⟨r, d₂⟩, hio, h⟩ := bind_eq_ok.mp h
      cases h
      exact ⟨a, d₁, hget, rfl, virtioBlkWrite_inv hio⟩

/-- The status descriptor is taken and the head marked used, or the chain ends too early. -/
theorem finish_inv {head : Nat} (h : finish dev (some head) desc status = .ok (flow, dev')) :
    (virtqCheckNext dev.ram desc = .ok false ∧ flow = .ret ∧ dev' = dev) ∨
    (virtqCheckNext dev.ram desc = .ok true ∧ flow = .loop ∧
      ∃ a d₁, dev.getAvail = .ok (some a, d₁) ∧ dev'.vq = d₁.vq ∧
        dev'.trace = d₁.trace ++ [.used head]) := by
  obtain ⟨next, hnext, h⟩ := bind_eq_ok.mp h
  cases next with
  | false => cases h; exact .inl ⟨hnext, rfl, rfl⟩
  | true =>
    obtain ⟨⟨p, d₁⟩, hget, h⟩ := bind_eq_ok.mp h
    obtain ⟨addr, haddr, h⟩ := bind_eq_ok.mp h
    obtain ⟨ram₁, -, h⟩ := bind_eq_ok.mp h
    obtain ⟨d₂, hmark, h⟩ := bind_eq_ok.mp h
    obtain ⟨ram₂, -, h⟩ := bind_eq_ok.mp h
    cases h
    cases p with
    | none => cases haddr
    | some a =>
      obtain ⟨ram, -, rfl⟩ := VqDev.markUsed_inv hmark
      exact .inr ⟨hnext, rfl, a, d₁, hget, rfl, rfl⟩

/-- The ways a turn of the loop can go. -/
theorem round_inv (h : round dev req = .ok (flow, dev', req')) :
    (dev.getAvail = .ok (none, dev) ∧ flow = .ret ∧ dev' = dev) ∨
    ∃ head d₁ req₁, dev.getAvail = .ok (some head, d₁) ∧
      copyHeader d₁ (some head) req = .ok req₁ ∧
      ((IsIoType req₁ ∧ virtqCheckNext d₁.ram (some head) = .ok false ∧ flow = .ret ∧ dev' = d₁) ∨
       (IsIoType req₁ ∧ virtqCheckNext d₁.ram (some head) = .ok true ∧
          ∃ desc status d₂ req₂, transfer d₁ req₁ = .ok (desc, status, d₂, req₂) ∧
            finish d₂ (some head) desc status = .ok (flow, dev')) ∨
       (¬ IsIoType req₁ ∧
          finish d₁ (some head) (some head) virtioBlkSUnsupp = .ok (flow, dev'))) := by
  obtain ⟨⟨p, d₁⟩, hget, h⟩ := bind_eq_ok.mp h
  cases p with
  | none =>
    cases h
    rcases VqDev.getAvail_inv hget with ⟨-, rfl⟩ | ⟨a, vq, hp, -⟩
    · exact .inl ⟨hget, rfl, rfl⟩
    · cases hp
  | some head =>
    obtain ⟨req₁, hcopy, h⟩ := bind_eq_ok.mp h
    refine .inr ⟨head, d₁, req₁, hget, hcopy, ?_⟩
    by_cases hio : IsIoType req₁
    · rw [if_pos (show _ ∨ _ from hio)] at h
      obtain ⟨next, hnext, h⟩ := bind_eq_ok.mp h
      cases next with
      | false => cases h; exact .inl ⟨hio, hnext, rfl, rfl⟩
      | true =>
        obtain ⟨⟨desc, status, d₂, req₂⟩, htr, h⟩ := bind_eq_ok.mp h
        obtain ⟨⟨fl, d₃⟩, hfin, h⟩ := bind_eq_ok.mp h
        cases h
        exact .inr (.inl ⟨hio, hnext, desc, status, d₂, _, htr, hfin⟩)
    · rw [if_neg (show ¬ (_ ∨ _) from hio)] at h
      obtain ⟨⟨fl, d₃⟩, hfin, h⟩ := bind_eq_ok.mp h
      cases h
      exact .inr (.inr ⟨hio, hfin⟩)

/-- The data goes to the buffer of the data descriptor. -/
theorem transfer_mem (h : transfer dev req = .ok (desc, status, dev', req')) :
    ∃ a d₁ addr len, dev.getAvail = .ok (some a, d₁) ∧ descAddr dev.ram (some a) = .ok addr ∧
      descLen dev.ram (some a) = .ok len ∧
        Ram.Changed (vmGuestToHost dev.ram addr) len dev.ram dev'.ram := by
  obtain ⟨⟨p, d₁⟩, hget, h⟩ := bind_eq_ok.mp h
  obtain ⟨len, hlen, h⟩ := bind_eq_ok.mp h
  obtain ⟨addr, haddr, h⟩ := bind_eq_ok.mp h
  have hram := VqDev.getAvail_ram hget
  cases p with
  | none => cases hlen
  | some a =>
    simp only at h hlen haddr
    rw [hram] at h hlen haddr
    refine ⟨a, d₁, addr, len, hget, haddr, hlen, ?_⟩
    have hsize : VirtioBlkReq.dataSize (VirtioBlkReq.setDataSize req len) ≤ len :=
      Nat.le_trans (Nat.le_of_eq (getLE_putLE_same req 24 2 len)) (Nat.mod_le _ _)
    split at h
    · obtain ⟨⟨r, d₂⟩, hio, h⟩ := bind_eq_ok.mp h
      obtain ⟨⟨r', ram, img⟩, hread, hio⟩ := bind_eq_ok.mp hio
      cases hio
      cases h
      rw [hram] at hread
      exact (diskimgRead_changed hread).mono hsize
    · obtain ⟨⟨r, d₂⟩, hio, h⟩ := bind_eq_ok.mp h
      obtain ⟨⟨r', img⟩, -, hio⟩ := bind_eq_ok.mp hio
      cases hio
      cases h
      rw [← hram]
      exact ⟨rfl, fun _ _ => rfl⟩

/-- The status goes to the buffer of the status descriptor; then the head is marked. -/
theorem finish_mem {head : Nat} (h : finish dev (some head) desc status = .ok (.loop, dev')) :
    ∃ a d₁ addr ram₁ ram₂, dev.getAvail = .ok (some a, d₁) ∧ descAddr dev.ram (some a) = .ok addr ∧
      dev.ram.store (vmGuestToHost dev.ram addr) 1 status = .ok ram₁ ∧
        xorDescUsed ram₁ (some head) = .ok ram₂ ∧
      setDescLen ram₂ (some head) 0 = .ok dev'.ram := by
  obtain ⟨next, -, h⟩ := bind_eq_ok.mp h
  cases next with
  | false => cases h
  | true =>
    obtain ⟨⟨p, d₁⟩, hget, h⟩ := bind_eq_ok.mp h
    obtain ⟨addr, haddr, h⟩ := bind_eq_ok.mp h
    obtain ⟨ram₁, hstatus, h⟩ := bind_eq_ok.mp h
    obtain ⟨d₂, hmark, h⟩ := bind_eq_ok.mp h
    obtain ⟨ram₃, hlen, h⟩ := bind_eq_ok.mp h
    have hram := VqDev.getAvail_ram hget
    cases p with
    | none => cases haddr
    | some a =>
      simp only [hram] at haddr hstatus
      obtain ⟨ram₂, hxor, rfl⟩ := VqDev.markUsed_inv hmark
      cases h
      exact ⟨a, d₁, addr, ram₁, ram₂, hget, haddr, hstatus, hxor, hlen⟩

theorem finish_moved {head : Nat} (h : finish dev (some head) desc status = .ok (flow, dev')) :
    dev.vq.Moved dev'.vq := by
  rcases finish_inv h with ⟨-, -, rfl⟩ | ⟨-, -, a, d₁, hget, hvq, -⟩
  · exact .refl _
  · rw [hvq]; exact VqDev.getAvail_moved hget

theorem round_moved (h : round dev req = .ok (flow, dev', req')) : dev.vq.Moved dev'.vq := by
  rcases round_inv h with ⟨-, -, rfl⟩ | ⟨head, d₁, req₁, hget, -, hcases⟩
  · exact .refl _
  · refine (VqDev.getAvail_moved hget).trans ?_
    rcases hcases with ⟨-, -, -, rfl⟩ | ⟨-, -, desc, status, d₂, req₂, htr, hfin⟩ | ⟨-, hfin⟩
    · exact .refl _
    · obtain ⟨a, d₁', hget₂, -, hvq, -⟩ := transfer_inv htr
      have hmoved : d₁.vq.Moved d₂.vq := by rw [hvq]; exact VqDev.getAvail_moved hget₂
      exact hmoved.trans (finish_moved hfin)
    · exact finish_moved hfin

end Inversion

end Blk

theorem virtioBlkCompleteRequest_moved {dev' : VirtioBlkDev} :
    ∀ {fuel : Nat} {dev : VirtioBlkDev} {req : Store},
      virtioBlkCompleteRequest fuel dev req = .ok dev' → dev.vq.Moved dev'.vq := by
  intro fuel
  induction fuel with
  | zero => intro dev req h; cases h
  | succ fuel ih =>
    intro dev req h
    obtain ⟨⟨flow, d₁, req₁⟩, hround, h⟩ := bind_eq_ok.mp h
    have hmoved := Blk.round_moved hround
    cases flow with
    | loop => exact hmoved.trans (ih h)
    | ret => cases h; exact hmoved

end KvmHost
