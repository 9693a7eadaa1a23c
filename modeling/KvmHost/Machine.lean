import KvmHost.Arm64Boot
import KvmHost.NotifyAddress
import KvmHost.PciAddress
import KvmHost.PortIo

/-!
# KvmHost.Machine

The machine that a guest access meets: the two buses of `vm.c`, the platform devices of both
architectures, the PCI configuration bus and the BARs of the PCI devices.

* `vmArchInitPlatformDevice` puts the platform's nodes on the buses. On x86 the ports of the PCI
  configuration mechanism and of the UART are on `io_bus`; on arm64 `io_bus` holds the UART alone
  and is reached through a window of `mmio_bus`, which also holds the window of the configuration
  space.
* An access is routed first and acted on then. `routeIo` and `routeMmio` say which handler it ends
  at (`Target`), `act` what that handler does; `Machine.access` is `vm_handle_io` for one element,
  and `vm_handle_mmio`.

The handlers of the BARs are a parameter, as `do_io` is one of `pci_set_bar`: what they do to their
devices is no concern of the buses. The threads of the devices and of the UART come in between at
any time. `Up` is what all of this keeps, whatever the guest writes to configuration space; that no
BAR is an I/O one is part of it.
-/

namespace KvmHost

open ByteStore LinkedList

inductive Arch where
  | x86
  | arm64
deriving DecidableEq, Repr

/-! ## The platform -/

namespace Node

variable {ι : Type}

/-- `v->pci.pci_addr_dev` -/
@[match_pattern] def pciAddrDev : Node ι := .other true 0

/-- `v->pci.pci_bus_dev` -/
@[match_pattern] def pciBusDev : Node ι := .other true 1

/-- `v->serial.dev` -/
@[match_pattern] def serialDev : Node ι := .other true 2

/-- `priv->iodev` -/
@[match_pattern] def iodev : Node ι := .other false 0

/-- `v->pci.pci_mmio_dev` -/
@[match_pattern] def pciMmioDev : Node ι := .other false 1

end Node

namespace Arm64

def armIoportSize : Nat := 2 ^ 16

end Arm64

section

variable {ι : Type} [DecidableEq ι]

namespace PciSys

def initNode (s : PciSys ι) (x : Node ι) (base len : Nat) : PciSys ι :=
  { s with heap := devInit s.heap x base len }

def register (s : PciSys ι) (io : Bool) (x : Node ι) : PciSys ι :=
  s.setBus io (busRegisterDev s.heap (s.bus io) x)

/-- The nodes that `pci_init` initialises. -/
def initPci (s : PciSys ι) : PciSys ι :=
  ((s.initNode .pciAddrDev pciConfigAddr 4).initNode .pciBusDev pciConfigData 4).initNode
    .pciMmioDev 0 pciMmioSize

/-- What `serial_init` does to the bus. -/
def initSerial (s : PciSys ι) : PciSys ι :=
  (s.initNode .serialDev Arm64.com1PortBase Arm64.com1PortSize).register true .serialDev

def setBase (s : PciSys ι) (x : Node ι) (base : Nat) : PciSys ι :=
  { s with heap := s.heap.setBase x base }

end PciSys

/-- `vm_arch_init_platform_device` of the two architectures. -/
def vmArchInitPlatformDevice (arch : Arch) (s : PciSys ι) : PciSys ι :=
  match arch with
  | .x86 => ((s.initPci.register true .pciAddrDev).register true .pciBusDev).initSerial
  | .arm64 =>
    let s := (s.initNode .iodev Arm64.armIoportBase Arm64.armIoportSize).register false .iodev
    ((s.initPci.setBase .pciMmioDev Arm64.armPciCfgBase).register false .pciMmioDev).initSerial

/-- Empty buses, and PCI devices that are still to be initialised. -/
def PciSys.blank : PciSys ι where
  dev := fun _ => ⟨fun _ => 0, fun _ => 0, fun _ => false, fun _ => false⟩
  heap := blankNodes
  ioBus := busInit
  mmioBus := busInit

/-- The nodes of the platform, as they stand on a bus. -/
def platformNodes (arch : Arch) (io : Bool) : List (Node ι) :=
  match arch, io with
  | .x86, true => [.serialDev, .pciBusDev, .pciAddrDev]
  | .x86, false => []
  | .arm64, true => [.serialDev]
  | .arm64, false => [.pciMmioDev, .iodev]

/-- Base and length of a platform node that is on a bus. -/
def nodeWindow : Node ι → Nat × Nat
  | .pciAddrDev => (pciConfigAddr, 4)
  | .pciBusDev => (pciConfigData, 4)
  | .serialDev => (Arm64.com1PortBase, Arm64.com1PortSize)
  | .iodev => (Arm64.armIoportBase, Arm64.armIoportSize)
  | .pciMmioDev => (Arm64.armPciCfgBase, Arm64.armPciCfgSize)
  | _ => (0, 0)

/-- The machine as it is when the guest starts. -/
structure PciSys.Fresh (arch : Arch) (s : PciSys ι) : Prop where
  nodes : ∀ io, s.Nodes io (platformNodes arch io)
  windows : ∀ io, ∀ x ∈ platformNodes (ι := ι) arch io,
    (s.heap x).base = (nodeWindow x).1 ∧ (s.heap x).len = (nodeWindow x).2
  kinds : ∀ io k x, s.heap.next (.other io k) = some x → ∃ k', x = .other io k'
  single : ∀ d i, s.heap.next (.space d i) = none
  memory : ∀ d i, (s.dev d).barIsIoSpace i = false
  inactive : ∀ d i, (s.dev d).barActive i = false
  command : ∀ d, getLE (s.dev d).hdr pciCommand 2 = 0

/-- Platform nodes lead to platform nodes of their own bus. -/
def PciSys.OwnKind (s : PciSys ι) : Prop :=
  (∀ io x, (s.bus io).head = some x → ∃ k, x = .other io k) ∧
    ∀ io k x, s.heap.next (.other io k) = some x → ∃ k', x = .other io k'

section OwnKind

variable {s : PciSys ι}

omit [DecidableEq ι] in
theorem ownKind_blank : (PciSys.blank : PciSys ι).OwnKind := by
  refine ⟨fun io x h => ?_, fun io k x h => by cases h⟩
  cases io <;> cases h

theorem PciSys.OwnKind.initNode (h : s.OwnKind) (x : Node ι) (base len : Nat) :
    (s.initNode x base len).OwnKind := by
  refine ⟨h.1, fun io k y hy => ?_⟩
  by_cases hx : .other io k = x
  · subst hx
    simp [PciSys.initNode, devInit, Heap.next] at hy
  · simp only [PciSys.initNode, devInit, Heap.next, Function.update_of_ne hx] at hy
    exact h.2 io k y hy

theorem PciSys.OwnKind.setBase (h : s.OwnKind) (x : Node ι) (base : Nat) :
    (s.setBase x base).OwnKind := by
  refine ⟨h.1, fun io k y hy => ?_⟩
  rw [PciSys.setBase, Heap.setBase_next] at hy
  exact h.2 io k y hy

theorem PciSys.OwnKind.register (h : s.OwnKind) (io : Bool) (k : Nat) :
    (s.register io (.other io k)).OwnKind := by
  refine ⟨fun io' x hx => ?_, fun io' j y hy => ?_⟩
  · by_cases hio : io' = io
    · subst hio
      rw [PciSys.register, PciSys.bus_setBus_same] at hx
      cases hx
      exact ⟨k, rfl⟩
    · rw [PciSys.register, PciSys.bus_setBus_other _ hio] at hx
      exact h.1 io' x hx
  · rw [PciSys.register, PciSys.heap_setBus, busRegisterDev, Heap.setNext_next] at hy
    by_cases hx : (Node.other io' j : Node ι) = .other io k
    · rw [hx, Function.update_self] at hy
      cases hx
      exact h.1 io y hy
    · rw [Function.update_of_ne hx] at hy
      exact h.2 io' j y hy

end OwnKind

theorem fresh_platform (arch : Arch) :
    (vmArchInitPlatformDevice arch (PciSys.blank : PciSys ι)).Fresh arch := by
  refine ⟨?_, ?_, ?_, ?_, ?_, ?_, ?_⟩
  · intro io
    cases arch <;> cases io
    · exact .nil
    · exact .cons (.cons (.cons .nil))
    · exact .cons (.cons .nil)
    · exact .cons .nil
  · intro io x hx
    cases arch <;> cases io <;> simp only [platformNodes, List.mem_cons, List.not_mem_nil, or_false]
      at hx
    · rcases hx with rfl | rfl | rfl <;> exact ⟨rfl, rfl⟩
    · rcases hx with rfl | rfl <;> exact ⟨rfl, rfl⟩
    · subst hx
      exact ⟨rfl, rfl⟩
  · cases arch
    · exact ((((ownKind_blank.initNode _ _ _).initNode _ _ _).initNode _ _ _).register true 0
        |>.register true 1 |>.initNode _ _ _ |>.register true 2).2
    · exact (((ownKind_blank.initNode _ _ _).register false 0 |>.initNode _ _ _
        |>.initNode _ _ _ |>.initNode _ _ _ |>.setBase _ _).register false 1
        |>.initNode _ _ _ |>.register true 2).2
  · intro d i
    cases arch <;> rfl
  · intro d i
    cases arch <;> rfl
  · intro d i
    cases arch <;> rfl
  · intro d
    cases arch <;> rfl

omit [DecidableEq ι] in
theorem platformNodes_other {arch : Arch} {io : Bool} {x : Node ι}
    (hx : x ∈ platformNodes arch io) :
    ∃ k, x = .other io k := by
  cases arch <;> cases io <;> simp only [platformNodes, List.mem_cons, List.not_mem_nil, or_false]
    at hx
  · rcases hx with rfl | rfl | rfl
    · exact ⟨2, rfl⟩
    · exact ⟨1, rfl⟩
    · exact ⟨0, rfl⟩
  · rcases hx with rfl | rfl
    · exact ⟨1, rfl⟩
    · exact ⟨0, rfl⟩
  · exact ⟨2, hx⟩

omit [DecidableEq ι] in
theorem nodeWindow_bounds {arch : Arch} {io : Bool} {x : Node ι} (hx : x ∈ platformNodes arch io) :
    1 ≤ (nodeWindow x).2 ∧ (nodeWindow x).1 + (nodeWindow x).2 ≤ 2 ^ 32 := by
  have hall : ∀ w : Nat × Nat, w ∈
      [(0x3f8, 8), (0xCF8, 4), (0xCFC, 4), (0, 2 ^ 16), (0x40000000, 2 ^ 16)] →
      1 ≤ w.2 ∧ w.1 + w.2 ≤ 2 ^ 32 := by decide
  refine hall _ ?_
  cases arch <;> cases io <;> simp only [platformNodes, List.mem_cons, List.not_mem_nil, or_false]
    at hx
  · rcases hx with rfl | rfl | rfl
    · exact List.mem_of_getElem? (i := 0) rfl
    · exact List.mem_of_getElem? (i := 2) rfl
    · exact List.mem_of_getElem? (i := 1) rfl
  · rcases hx with rfl | rfl
    · exact List.mem_of_getElem? (i := 4) rfl
    · exact List.mem_of_getElem? (i := 3) rfl
  · subst hx
    exact List.mem_of_getElem? (i := 0) rfl

/-! ### Creating the devices -/

section Fresh

variable {arch : Arch} {s s' : PciSys ι}

omit [DecidableEq ι] in
/-- Creating a device touches nothing but the device and its own nodes. -/
theorem PciSys.Fresh.congr (h : s.Fresh arch) (hbus : ∀ io, s'.bus io = s.bus io)
    (hother : ∀ io k, s'.heap (.other io k) = s.heap (.other io k))
    (hsingle : ∀ d i, s'.heap.next (.space d i) = none)
    (hdev : ∀ d, (∀ i, (s'.dev d).barIsIoSpace i = false) ∧ (∀ i, (s'.dev d).barActive i = false) ∧
      getLE (s'.dev d).hdr pciCommand 2 = 0) : s'.Fresh arch := by
  refine ⟨fun io => ?_, fun io x hx => ?_, fun io k x hx => ?_, hsingle, fun d => (hdev d).1,
    fun d => (hdev d).2.1, fun d => (hdev d).2.2⟩
  · unfold PciSys.Nodes OnList
    rw [hbus]
    refine (h.nodes io).congr fun x hx => ?_
    obtain ⟨k, rfl⟩ := platformNodes_other hx
    simp only [Heap.next, hother]
  · obtain ⟨k, rfl⟩ := platformNodes_other hx
    rw [hother]
    exact h.windows io _ hx
  · simp only [Heap.next, hother] at hx
    exact h.kinds io k x hx

theorem PciSys.Fresh.devInit (h : s.Fresh arch) (d : ι) : (pciDevInit s d).Fresh arch := by
  refine h.congr (fun _ => rfl) (fun _ _ => rfl) (fun e i => ?_) (fun e => ?_)
  · by_cases he : e = d
    · simp [pciDevInit, Heap.next, he]
    · simp only [pciDevInit, Heap.next, if_neg he]
      exact h.single e i
  · by_cases he : e = d
    · subst he
      simp only [pciDevInit, PciSys.setDev, Function.update_self]
      exact ⟨fun _ => trivial, fun _ => trivial, rfl⟩
    · simp only [pciDevInit, PciSys.setDev, Function.update_of_ne he]
      exact ⟨h.memory e, h.inactive e, h.command e⟩

theorem PciSys.Fresh.setBar (h : s.Fresh arch) (d : ι) (bar size : Nat) :
    (pciSetBar s d bar size false).Fresh arch := by
  refine h.congr (fun _ => rfl) (fun _ _ => rfl) (fun e i => ?_) (fun e => ?_)
  · by_cases he : (Node.space e i : Node ι) = .space d bar
    · simp [pciSetBar, KvmHost.devInit, Heap.next, he]
    · simp only [pciSetBar, KvmHost.devInit, Heap.next, Function.update_of_ne he]
      exact h.single e i
  · by_cases he : e = d
    · subst he
      simp only [dev_pciSetBar]
      refine ⟨fun i => ?_, h.inactive e, ?_⟩
      · by_cases hi : i = bar
        · rw [hi, Function.update_self]
        · rw [Function.update_of_ne hi]
          exact h.memory e i
      · have hapart : Span.Apart ⟨pciCommand, 2⟩ ⟨pciBarOffset bar, 4⟩ := by
          simp only [Span.Apart, pciCommand, pciBarOffset, pciBaseAddress0]
          omega
        rw [getLE_putLE_apart hapart]
        exact h.command e
    · simp only [pciSetBar, PciSys.setDev, Function.update_of_ne he]
      exact ⟨h.memory e, h.inactive e, h.command e⟩

/-- The rest of a header is filled in with COMMAND left at zero. -/
theorem PciSys.Fresh.setHdr (h : s.Fresh arch) (d : ι) {hdr : Store}
    (hc : getLE hdr pciCommand 2 = 0) :
    (s.setHdr d hdr).Fresh arch := by
  refine h.congr (fun _ => rfl) (fun _ _ => rfl) h.single (fun e => ?_)
  by_cases he : e = d
  · subst he
    simp only [PciSys.setHdr, PciSys.setDev, Function.update_self]
    exact ⟨h.memory e, h.inactive e, hc⟩
  · simp only [PciSys.setHdr, PciSys.setDev, Function.update_of_ne he]
    exact ⟨h.memory e, h.inactive e, h.command e⟩

theorem PciSys.Fresh.create (h : s.Fresh arch) (d : ι) {k : VirtioKind} (host : Host k.Backend) :
    (VirtioSys.create d s host).pci.Fresh arch := by
  refine ((h.devInit d).setBar d 0 barWindow).setHdr d ?_
  exact (k.initPci_field host (by decide) (by decide) (by decide) (by decide) (by decide)).trans
    (by decide +kernel)

end Fresh

/-! ## What configuration writes leave alone -/

/-- The platform, whatever the guest has done to configuration space. -/
structure PciSys.Platform (arch : Arch) (s : PciSys ι) : Prop where
  kindOk : s.KindOk
  memory : ∀ d i, (s.dev d).barIsIoSpace i = false
  ports : s.Nodes true (platformNodes arch true)
  windows : ∀ io, ∀ x ∈ platformNodes (ι := ι) arch io,
    (s.heap x).base = (nodeWindow x).1 ∧ (s.heap x).len = (nodeWindow x).2

omit [DecidableEq ι] in
theorem PciSys.Fresh.ownKind {arch : Arch} {s : PciSys ι} (h : s.Fresh arch) : s.OwnKind := by
  refine ⟨fun io x hx => ?_, h.kinds⟩
  have hl := h.nodes io
  unfold PciSys.Nodes OnList at hl
  rw [hx] at hl
  generalize hxs : platformNodes arch io = xs at hl
  cases hl with
  | cons hl => exact platformNodes_other (by rw [hxs]; exact List.mem_cons_self)

omit [DecidableEq ι] in
theorem PciSys.Fresh.kindOk {arch : Arch} {s : PciSys ι} (h : s.Fresh arch) : s.KindOk := by
  refine ⟨fun io x hx => ?_, fun x y hxy => ?_⟩
  · obtain ⟨k, rfl⟩ := h.ownKind.1 io x hx
    rfl
  · cases x with
    | space d i => rw [h.single] at hxy; cases hxy
    | other io k =>
      obtain ⟨k', rfl⟩ := h.kinds io k y hxy
      rfl

omit [DecidableEq ι] in
theorem PciSys.Fresh.platform {arch : Arch} {s : PciSys ι} (h : s.Fresh arch) : s.Platform arch :=
  ⟨h.kindOk, h.memory, h.nodes true, h.windows⟩

section Keeps

variable {arch : Arch} {s s' : PciSys ι} {c : ConfigStep ι} {d : ι} {enable : Bool → Bool}
  {fuel : Nat}

theorem commandBarBody_len {i : Nat} (h : pciCommandBarBody fuel d enable s i = .ok s')
    (x : Node ι) :
    (s'.heap x).len = (s.heap x).len := by
  unfold pciCommandBarBody at h
  simp only at h
  split at h
  · cases h
    unfold pciActivateBar
    simp only
    split
    · simp only [PciSys.setActive, PciSys.heap_setDev, PciSys.heap_setBus]
      exact Heap.setNext_len _ _ _ _
    · rfl
  · unfold pciDeactivateBar at h
    split at h
    · obtain ⟨hb, hd, h⟩ := bind_eq_ok.mp h
      cases h
      simp only [PciSys.setActive, PciSys.heap_setDev, PciSys.heap_setBus]
      exact (busDeregisterDev_same hd x).2
    · cases h
      rfl

theorem commandBar_len (is : List Nat) :
    ∀ {s : PciSys ι},
    is.foldlM (pciCommandBarBody fuel d enable) s = .ok s' →
      ∀ x, (s'.heap x).len = (s.heap x).len := by
  induction is with
  | nil =>
    intro s h x
    cases h
    rfl
  | cons i is ih =>
    intro s h x
    rw [List.foldlM_cons] at h
    obtain ⟨s₁, hbody, h⟩ := bind_eq_ok.mp h
    rw [ih h x, commandBarBody_len hbody x]

/-- A bus that none of the device's BARs is for does not change. -/
theorem command_elsewhere {io : Bool} (is : List Nat) : ∀ {s : PciSys ι}, s.KindOk →
    is.foldlM (pciCommandBarBody fuel d enable) s = .ok s' → (∀ i, io ≠ (s.dev d).barIsIoSpace i) →
    ∀ xs, s'.Nodes io xs ↔ s.Nodes io xs := by
  induction is with
  | nil =>
    intro s _ h _ xs
    cases h
    exact Iff.rfl
  | cons i is ih =>
    intro s hk h hne xs
    obtain ⟨s₁, hstep, h⟩ := foldlM_cons_ok h hk
    rw [ih hstep.kindOk h (fun j => by rw [hstep.isIo]; exact hne j), hstep.elsewhere io xs (hne i)]

theorem ConfigStep.len (hret : c.Returns) (x : Node ι) :
    (c.post.heap x).len = (c.pre.heap x).len := by
  rcases c.returns_cases hret with ⟨hoff, -⟩ | ⟨-, h⟩ | ⟨-, h⟩ | ⟨-, -, h⟩
  · rcases configWrite_cases hret with ⟨-, hfold⟩ | ⟨hne, -⟩
    · exact commandBar_len _ hfold x
    · exact absurd hoff hne
  · rw [h]
    by_cases hx : x = .space c.write.d c.write.bar
    · subst hx
      simp only [pciConfigBar, Function.update_self]
      rfl
    · simp only [pciConfigBar, Function.update_of_ne hx]
      rfl
  · rw [h]
    rfl
  · rw [h]
    rfl

theorem ConfigStep.base_other (hret : c.Returns) (io : Bool) (k : Nat) :
    (c.post.heap (.other io k)).base = (c.pre.heap (.other io k)).base := by
  rcases c.returns_cases hret with ⟨-, h⟩ | ⟨-, h⟩ | ⟨-, h⟩ | ⟨-, -, h⟩
  · exact h.base _
  · rw [h]
    rfl
  · rw [h]
    rfl
  · rw [h]
    rfl

theorem PciSys.Platform.config (h : c.pre.Platform arch) (hret : c.Returns) :
    c.post.Platform arch := by
  refine ⟨c.kindOk h.kindOk hret, fun d i => ?_, ?_, fun io x hx => ?_⟩
  · rw [(c.frame hret).isIo]
    exact h.memory d i
  · rcases configWrite_cases hret with ⟨-, hfold⟩ | ⟨-, hplain⟩
    · have hst := plainWrite_stored c.write c.pre
      refine (command_elsewhere _ (hst.kindOk h.kindOk) hfold (fun i => ?_) _).mpr
        ((hst.nodes _ _).mpr h.ports)
      rw [(hst.bars _).isIo, h.memory]
      decide
    · exact (hplain.nodes _ _).mpr h.ports
  · obtain ⟨k, rfl⟩ := platformNodes_other hx
    rw [c.base_other hret, c.len hret]
    exact h.windows io _ hx

end Keeps

/-! ## Accesses -/

end

/-- The handler that an access ends at, and the offset it gets. -/
inductive Target (ι : Type) where
  | nobody
  | latch (off : Nat)
  | config (d : ι) (off : Nat)
  | serial (off : Nat)
  | bar (d : ι) (i off : Nat)
deriving DecidableEq, Repr

def Target.ofConfig {ι : Type} : Option (ι × Nat) → Target ι
  | none => .nobody
  | some (d, off) => .config d off

structure Machine (ι β : Type) where
  sys : PciSys ι
  pci : Pci ι
  serial : SerialDev
  devs : β

/-- An exit of the guest with one element. -/
structure GuestAccess where
  mmio : Bool
  addr : Nat
  isWrite : Bool
  data : List UInt8
  size_pos : 1 ≤ data.length
  size_le : data.length ≤ 8
  inside : addr + data.length ≤ 2 ^ 64

def GuestAccess.of (mmio : Bool) (addr : Nat) (isWrite : Bool) (data : List UInt8)
    (h : 1 ≤ data.length ∧ data.length ≤ 8 ∧ addr + data.length ≤ 2 ^ 64) : GuestAccess :=
  ⟨mmio, addr, isWrite, data, h.1, h.2.1, h.2.2⟩

def GuestAccess.size (a : GuestAccess) : Nat := a.data.length

/-- `do_io` of the BARs: the device, the BAR, the devices' states, `is_write`, `offset` and the
bytes of `data`. -/
abbrev BarIo (ι β : Type) :=
  PciSys ι → ι → Nat → β → Bool → Nat → List UInt8 → Except Stop (β × List UInt8)

namespace Machine

variable {ι β : Type}

section Route

variable (fuel : Nat) (m : Machine ι β)

/-- The handler of a node that is not `priv->iodev`. -/
def nodeIo (x : Node ι) (offset size : Nat) : Except Stop (Target ι) :=
  match x with
  | .pciAddrDev => .ok (.latch offset)
  | .pciBusDev => (pciDataIo fuel m.pci offset size).map .ofConfig
  | .pciMmioDev => (pciMmioIo fuel m.pci offset size).map .ofConfig
  | .serialDev => .ok (.serial offset)
  | .space d i => .ok (.bar d i offset)
  | _ => .ok .nobody

def routeIo (port size : Nat) : Except Stop (Target ι) := do
  match ← busHandleIo fuel m.sys.heap m.sys.ioBus port size with
  | none => return .nobody
  | some (x, offset) => m.nodeIo fuel x offset size

def routeMmio (addr size : Nat) : Except Stop (Target ι) := do
  match ← busHandleIo fuel m.sys.heap m.sys.mmioBus addr size with
  | none => return .nobody
  -- `pio_handler`
  | some (.iodev, offset) => m.routeIo fuel offset size
  | some (x, offset) => m.nodeIo fuel x offset size

def route (a : GuestAccess) : Except Stop (Target ι) :=
  if a.mmio then m.routeMmio fuel a.addr a.size else m.routeIo fuel a.addr a.size

end Route

variable [DecidableEq ι] (barIo : BarIo ι β) (fuel : Nat)

/-- What the handler does: the machine afterwards, and the bytes that are in `data`. -/
def act (m : Machine ι β) (t : Target ι) (isWrite : Bool) (data : List UInt8) :
    Except Stop (Machine ι β × List UInt8) :=
  match t with
  | .nobody => .ok (m, data)
  | .latch off =>
    let (data, pci) := pciAddressIo m.pci data isWrite off
    .ok ({ m with pci }, data)
  | .config d off =>
    if isWrite then do
      let sys ← pciConfigWrite fuel m.sys d off data
      return ({ m with sys }, data)
    else .ok (m, slice (m.sys.dev d).hdr off data.length)
  | .serial off =>
    let (serial, page) := serialIo m.serial (patch (fun _ => 0) 0 data) 0 isWrite off
    .ok ({ m with serial }, slice page 0 data.length)
  | .bar d i off => do
    let (devs, data) ← barIo m.sys d i m.devs isWrite off data
    return ({ m with devs }, data)

def access (m : Machine ι β) (a : GuestAccess) : Except Stop (Machine ι β × List UInt8) := do
  let t ← m.route fuel a
  m.act barIo fuel t a.isWrite a.data

end Machine

inductive MachineEvent (β : Type) where
  | access (a : GuestAccess)
  /-- the other threads: they work on the devices and on the UART, and on no bus -/
  | others (serial : SerialDev) (devs : β)

namespace Machine

variable {ι β : Type} [DecidableEq ι] (barIo : BarIo ι β) (fuel : Nat)

def next (m : Machine ι β) : MachineEvent β → Option (Machine ι β)
  | .access a => (m.access barIo fuel a).toOption.map Prod.fst
  | .others serial devs => some { m with serial, devs }

/-- `virtio_blk_init_pci` or `virtio_net_init_pci`, as far as the buses see it. -/
def attach (kind : ι → VirtioKind) (host : (d : ι) → Host (kind d).Backend) (m : Machine ι β)
    (d : ι) : Machine ι β :=
  { m with
    sys := (VirtioSys.create d m.sys (host d)).pci
    pci := pciDevRegister m.pci d }

/-- The machine that `main` has built when it calls `vm_run`; the latch and the nodes of the devices
are what was in memory. -/
def boot (arch : Arch) (ds : List ι) (kind : ι → VirtioKind)
    (host : (d : ι) → Host (kind d).Backend) (latch : Store) (heap : Heap ι) (devs : β) :
    Machine ι β :=
  ds.foldl (attach kind host)
    { sys := vmArchInitPlatformDevice arch .blank
      pci := pciInit latch heap
      serial := ⟨serialDevPriv, 0, []⟩
      devs }

/-- The turn writes to configuration space, and `c` is the write. -/
structure Makes (t : Machine ι β × MachineEvent β) (c : ConfigStep ι) : Prop where
  fuel_eq : c.fuel = fuel
  pre : c.pre = t.1.sys
  returns : c.Returns
  access : ∃ a, t.2 = .access a ∧ a.isWrite = true ∧ a.data = c.write.data ∧
    t.1.route fuel a = .ok (.config c.write.d c.write.offset)

variable {barIo : BarIo ι β} {fuel : Nat} {m m' : Machine ι β}

theorem act_cases {t : Target ι} {isWrite : Bool} {data data' : List UInt8}
    (h : m.act barIo fuel t isWrite data = .ok (m', data')) :
    (m'.sys = m.sys ∧ m'.pci = m.pci) ∨
    (∃ off, m'.sys = m.sys ∧ m'.pci = (pciAddressIo m.pci data isWrite off).2) ∨
    (∃ d off, t = .config d off ∧ isWrite = true ∧
      pciConfigWrite fuel m.sys d off data = .ok m'.sys ∧
      m'.pci = m.pci) := by
  cases t with
  | nobody => cases h; exact .inl ⟨rfl, rfl⟩
  | latch off => cases h; exact .inr (.inl ⟨off, rfl, rfl⟩)
  | config d off =>
    cases isWrite with
    | false => cases h; exact .inl ⟨rfl, rfl⟩
    | true =>
      obtain ⟨sys, hsys, h⟩ := bind_eq_ok.mp h
      cases h
      exact .inr (.inr ⟨d, off, rfl, rfl, hsys, rfl⟩)
  | serial off => cases h; exact .inl ⟨rfl, rfl⟩
  | bar d i off =>
    obtain ⟨r, _, h⟩ := bind_eq_ok.mp h
    cases h
    exact .inl ⟨rfl, rfl⟩

theorem next_access {a : GuestAccess} (h : m.next barIo fuel (.access a) = some m') :
    ∃ t data, m.route fuel a = .ok t ∧ m.act barIo fuel t a.isWrite a.data = .ok (m', data) := by
  obtain ⟨⟨m₁, data⟩, hacc, rfl⟩ := Option.map_eq_some_iff.mp h
  have hok : m.access barIo fuel a = .ok (m₁, data) := by
    cases hr : m.access barIo fuel a with
    | error e => rw [hr] at hacc; cases hacc
    | ok r => rw [hr] at hacc; cases hacc; rfl
  obtain ⟨t, ht, hact⟩ := bind_eq_ok.mp hok
  exact ⟨t, data, ht, hact⟩

/-- What one turn can do to the buses: nothing, set the latch, or write to configuration space. -/
theorem next_cases {e : MachineEvent β} (h : m.next barIo fuel e = some m') :
    (m'.sys = m.sys ∧ m'.pci = m.pci) ∨
    (∃ data isWrite off, m'.sys = m.sys ∧ m'.pci = (pciAddressIo m.pci data isWrite off).2) ∨
    (∃ c, Makes fuel (m, e) c ∧ c.post = m'.sys ∧ m'.pci = m.pci) := by
  cases e with
  | others serial devs => cases h; exact .inl ⟨rfl, rfl⟩
  | access a =>
    obtain ⟨t, data, ht, hact⟩ := next_access h
    rcases act_cases hact with hsame | ⟨off, hlatch⟩ | ⟨d, off, rfl, hwr, hcfg, hpci⟩
    · exact .inl hsame
    · exact .inr (.inl ⟨a.data, a.isWrite, off, hlatch⟩)
    · exact .inr (.inr ⟨⟨⟨d, off, a.data⟩, fuel, m.sys, m'.sys⟩,
        ⟨rfl, rfl, hcfg, a, rfl, hwr, rfl, ht⟩, rfl, hpci⟩)

/-! ### What every turn keeps -/

/-- The platform is there, and the devices `ds` are on `pci_bus`. -/
structure Up (arch : Arch) (ds : List ι) (m : Machine ι β) : Prop where
  platform : m.sys.Platform arch
  slots : Slots ds m.pci

theorem Up.next {arch : Arch} {ds : List ι} {e : MachineEvent β} (h : m.Up arch ds)
    (hn : m.next barIo fuel e = some m') : m'.Up arch ds := by
  rcases next_cases hn with ⟨hsys, hpci⟩ | ⟨data, isWrite, off, hsys, hpci⟩ | ⟨c, hmakes, hpost,
    hpci⟩
  · exact ⟨by rw [hsys]; exact h.platform, by rw [hpci]; exact h.slots⟩
  · exact ⟨by rw [hsys]; exact h.platform, by rw [hpci]; exact slots_addressIo h.slots _ _ _⟩
  · refine ⟨?_, by rw [hpci]; exact h.slots⟩
    rw [← hpost]
    exact PciSys.Platform.config (by rw [hmakes.pre]; exact h.platform) hmakes.returns

section Boot

variable {arch : Arch} {ds : List ι} {kind : ι → VirtioKind}
  {host : (d : ι) → Host (kind d).Backend}

theorem attach_pci (ds : List ι) : ∀ m : Machine ι β,
    (ds.foldl (attach kind host) m).pci = ds.foldl pciDevRegister m.pci := by
  induction ds with
  | nil => intro m; rfl
  | cons d ds ih => intro m; exact ih _

theorem attach_fresh (ds : List ι) : ∀ {m : Machine ι β}, m.sys.Fresh arch →
    (ds.foldl (attach kind host) m).sys.Fresh arch := by
  induction ds with
  | nil => intro m h; exact h
  | cons d ds ih => intro m h; exact ih (h.create d (host d))

theorem boot_up (hnd : ds.Nodup) (hn : ds.length ≤ 32) (latch : Store) (heap : Heap ι) (devs : β) :
    (boot arch ds kind host latch heap devs).Up arch ds where
  platform := (attach_fresh ds (fresh_platform arch)).platform
  slots := by
    unfold boot
    rw [attach_pci]
    exact slots_foldl ds (slots_init latch heap) hnd hn

theorem turns_up (hnd : ds.Nodup) (hn : ds.length ≤ 32) {latch : Store} {heap : Heap ι} {devs : β}
    (es : List (MachineEvent β)) :
    ∀ t ∈ Turns.turns (next barIo fuel) (boot arch ds kind host latch heap devs) es,
      t.1.Up arch ds :=
  Turns.turns_invariant (P := fun _ => True) (fun _ _ _ h _ hn => h.next hn)
    (boot_up hnd hn latch heap devs)
    fun _ _ => trivial

end Boot

end Machine

/-! ## The ports -/

/-- A node whose window no other one touches either takes the access or has no say in it. -/
theorem dispatch_apart {ν : Type} {heap : Heap ν} {x : ν} {xs : List ν}
    (h : ∀ y ∈ xs, (heap x).Apart (heap y)) {addr size : Nat} (h1 : 1 ≤ size) :
    dispatch heap (x :: xs) addr size =
      if (heap x).Fits addr size then some (x, addr - (heap x).base)
        else dispatch heap xs addr size := by
  by_cases hc : (heap x).Covers addr
  · have hrest : xs.find? (fun y => (heap y).Covers addr) = none := by
      rw [List.find?_eq_none]
      intro y hy
      have hap := h y hy
      simp only [decide_eq_true_eq]
      unfold Dev.Apart at hap
      unfold Dev.Covers at hc ⊢
      omega
    rw [dispatch, dispatch, List.find?_cons_of_pos (by simpa using hc), hrest]
  · have hfit : ¬ (heap x).Fits addr size := by
      unfold Dev.Covers at hc
      unfold Dev.Fits
      omega
    rw [if_neg hfit, dispatch, dispatch, List.find?_cons_of_neg (by simpa using hc)]

namespace PciSys.Platform

variable {ι : Type} {arch : Arch} {s : PciSys ι}

theorem window (h : s.Platform arch) {io : Bool} {x : Node ι} (hx : x ∈ platformNodes arch io) :
    (s.heap x).Window := by
  obtain ⟨hb, hl⟩ := h.windows io x hx
  obtain ⟨hpos, hend⟩ := nodeWindow_bounds hx
  exact ⟨by rw [hl]; exact hpos, by rw [hb, hl]; omega⟩

/-- The node that the I/O bus finds for a port. -/
theorem busHandleIo_port (h : s.Platform arch) {fuel port size : Nat} (hf : 3 < fuel)
    (h1 : 1 ≤ size) (h2 : size ≤ 8) (hp : port + size ≤ 2 ^ 64) :
    busHandleIo fuel s.heap s.ioBus port size =
      .ok (if Arm64.com1PortBase ≤ port ∧ port + size ≤ Arm64.com1PortBase + Arm64.com1PortSize then
          some (.serialDev, port - Arm64.com1PortBase)
        else if arch = .x86 ∧ pciConfigData ≤ port ∧ port + size ≤ pciConfigData + 4 then
          some (.pciBusDev, port - pciConfigData)
        else if arch = .x86 ∧ pciConfigAddr ≤ port ∧ port + size ≤ pciConfigAddr + 4 then
          some (.pciAddrDev, port - pciConfigAddr)
        else none) := by
  have hlen : (platformNodes (ι := ι) arch true).length < fuel := by
    cases arch <;> simp only [platformNodes, List.length_cons, List.length_nil] <;> omega
  have hbus : busHandleIo fuel s.heap s.ioBus port size =
      .ok (dispatch s.heap (platformNodes arch true) port size) :=
    busHandleIo_dispatch h.ports (fun x hx => h.window hx) h1 (by omega) hlen hp
  rw [hbus]
  congr 1
  have hser : (s.heap .serialDev).base = Arm64.com1PortBase ∧
      (s.heap .serialDev).len = Arm64.com1PortSize :=
    h.windows true _ (by cases arch <;> exact List.mem_cons_self)
  cases arch with
  | arm64 =>
    rw [platformNodes, dispatch_apart (by simp) h1]
    simp [Dev.Fits, hser, dispatch]
  | x86 =>
    have hdata : (s.heap .pciBusDev).base = pciConfigData ∧ (s.heap .pciBusDev).len = 4 :=
      h.windows true _ (List.mem_of_getElem? (i := 1) rfl)
    have haddr : (s.heap .pciAddrDev).base = pciConfigAddr ∧ (s.heap .pciAddrDev).len = 4 :=
      h.windows true _ (List.mem_of_getElem? (i := 2) rfl)
    have hap : ∀ y ∈ [Node.pciBusDev, .pciAddrDev], (s.heap .serialDev).Apart (s.heap y) := by
      intro y hy
      simp only [List.mem_cons, List.not_mem_nil, or_false] at hy
      unfold Dev.Apart
      rcases hy with rfl | rfl
      · rw [hser.1, hser.2, hdata.1]
        exact .inl (by decide)
      · rw [hser.1, hser.2, haddr.1]
        exact .inl (by decide)
    have hap' : ∀ y ∈ [Node.pciAddrDev], (s.heap .pciBusDev).Apart (s.heap y) := by
      intro y hy
      rw [List.mem_singleton.mp hy, Dev.Apart, hdata.1, haddr.1, haddr.2]
      exact .inr (by decide)
    rw [platformNodes, dispatch_apart hap h1, dispatch_apart hap' h1, dispatch_apart (by simp) h1]
    simp [Dev.Fits, hser, hdata, haddr, dispatch]

end PciSys.Platform

namespace Machine

variable {ι β : Type}

/-- What is behind the ports of a platform, `v` being the latched address. -/
def portTarget (arch : Arch) (ds : List ι) (v port size : Nat) : Target ι :=
  if Arm64.com1PortBase ≤ port ∧ port + size ≤ Arm64.com1PortBase + Arm64.com1PortSize then
    .serial (port - Arm64.com1PortBase)
  else if arch = .x86 ∧ pciConfigData ≤ port ∧ port + size ≤ pciConfigData + 4 then
    .ofConfig (slotCall ds v (port - pciConfigData))
  else if arch = .x86 ∧ pciConfigAddr ≤ port ∧ port + size ≤ pciConfigAddr + 4 then
    .latch (port - pciConfigAddr)
  else .nobody

theorem Up.routeIo [DecidableEq ι] {arch : Arch} {ds : List ι} {m : Machine ι β} (h : m.Up arch ds)
    (hn : ds.length ≤ 32) {fuel port size : Nat} (hf : 32 < fuel) (h1 : 1 ≤ size) (h2 : size ≤ 8)
    (hp : port + size ≤ 2 ^ 64)
    (hl : arch = .x86 → pciConfigData ≤ port → port + size ≤ pciConfigData + 4 → m.pci.Latched) :
    m.routeIo fuel port size = .ok (portTarget arch ds m.pci.value port size) := by
  unfold Machine.routeIo portTarget
  rw [h.platform.busHandleIo_port (by omega) h1 h2 hp, ok_bind]
  split_ifs with hser hdata haddr
  · rfl
  · have hcall := pciDataIo_slots h.slots hn (hl hdata.1 hdata.2.1 hdata.2.2)
        (o := port - pciConfigData) h1 (by omega) hf
    simp only [nodeIo, hcall]
    rfl
  · rfl
  · rfl

/-- **Ports.** On both platforms, with up to 32 devices, whatever the guest has accessed and written
to configuration space and whatever the other threads have done: an access to the I/O bus reaches
the UART, the data port or the address latch when it lies in their ports, the register that the
latch names behind the data port, and nobody otherwise. Of an access to the data port this is said
once the address port has been accessed, which clears the low bits of the latch. A run ends at an
access to a BAR that its handler does not return from, and at one that walks a list of BARs which
the guest has closed to a ring. -/
theorem port_map [DecidableEq ι] (barIo : BarIo ι β) (fuel : Nat) (hf : 32 < fuel) (arch : Arch)
    (ds : List ι) (hnd : ds.Nodup) (hn : ds.length ≤ 32) (kind : ι → VirtioKind)
    (host : (d : ι) → Host (kind d).Backend) (latch : Store) (heap : Heap ι) (devs : β)
    (es : List (MachineEvent β)) :
    ∀ t ∈ Turns.turns (next barIo fuel) (boot arch ds kind host latch heap devs) es, ∀ port size :
      Nat, 1 ≤ size →
      size ≤ 8 → port + size ≤ 2 ^ 64 →
        (arch = .x86 → pciConfigData ≤ port → port + size ≤ pciConfigData + 4 → t.1.pci.Latched) →
      t.1.routeIo fuel port size = .ok (portTarget arch ds t.1.pci.value port size) := by
  intro t ht port size h1 h2 hp hl
  exact (turns_up hnd hn es t ht).routeIo hn hf h1 h2 hp hl

end Machine

/-- A block device with a disk of zeros. -/
def blkHost : Host DiskImg where
  self := 0x7f0000003000
  devCfgAddr := 0x7f0000004000
  devCfgSize := 60
  behind := fun _ _ => 0
  ram := ⟨0, fun _ => 0⟩
  backend := zeroDisk
  irqNum := 15
  self_lt := by decide
  devCfgAddr_lt := by decide

/-- A machine with a block device, which both platforms have. -/
def blkMachine (arch : Arch) : Machine Unit Unit :=
  .boot arch [()] (fun _ => .blk) (fun _ => blkHost) (fun _ => 0xFF) blankNodes ()

/-- The guest latches COMMAND of slot 0. -/
def latchCommand : GuestAccess where
  mmio := false
  addr := 0xCF8
  isWrite := true
  data := [0x04, 0x00, 0x00, 0x80]
  size_pos := by decide
  size_le := by decide
  inside := by decide

/-- It switches MEMORY on. -/
def enableMemory : GuestAccess where
  mmio := false
  addr := 0xCFC
  isWrite := true
  data := [0x02, 0x00]
  size_pos := by decide
  size_le := by decide
  inside := by decide

def noBars : BarIo Unit Unit := fun _ _ _ _ _ _ data => .ok ((), data)

theorem port_map_command :
    ∃ t ∈ Turns.turns (Machine.next noBars 33) (blkMachine .x86)
        [.access latchCommand, .access enableMemory, .others ⟨serialDevPriv, 0, []⟩ ()],
      t.1.sys.enable () false = true ∧ t.1.routeIo 33 0xCFE 2 = .ok (.config () 6) := by
  have hmap :=
    Machine.port_map noBars 33 (by decide) .x86 [()] (by decide) (by decide) (fun _ => .blk)
    (fun _ => blkHost) (fun _ => 0xFF) blankNodes ()
    [.access latchCommand, .access enableMemory, .others ⟨serialDevPriv, 0, []⟩ ()]
  refine ⟨_, List.mem_of_getElem? (i := 2) rfl, by decide +kernel, ?_⟩
  refine (hmap _ (List.mem_of_getElem? (i := 2) rfl) 0xCFE 2 (by decide) (by decide)
    (by decide) fun _ _ _ => ?_).trans ?_
  · unfold Pci.Latched
    decide +kernel
  · decide +kernel

end KvmHost
