import KvmHost.Bus

/-!
# KvmHost.Pci

PCI configuration writes (`pci.c`) and what they do to the buses.

The devices share `v->io_bus` and `v->mmio_bus`; each BAR has a node `space_dev[i]` that is
registered on one of them. The registers COMMAND (offset 4) and BAR 0 to 5 (0x10 to 0x24) act on the
buses, everything else in the 256 bytes of configuration space is plain memory. The write handler
looks at the offset a write starts at, never at the bytes it covers.
-/

namespace KvmHost

open ByteStore LinkedList

/-- The nodes of the two buses: `space_dev[bar]` of a PCI device, and the nodes the platform
registered on one of the buses before the guest runs. -/
inductive Node (ι : Type) where
  | space (d : ι) (bar : Nat)
  | other (io : Bool) (k : Nat)
deriving DecidableEq

/-- `struct pci_dev`, without the nodes, which are in the heap. -/
structure PciDev where
  hdr : Store
  barSize : Nat → Nat
  barActive : Nat → Bool
  barIsIoSpace : Nat → Bool

structure PciSys (ι : Type) where
  dev : ι → PciDev
  heap : Heap (Node ι)
  ioBus : Bus (Node ι)
  mmioBus : Bus (Node ι)

def pciCommand : Nat := 4
def pciBaseAddress0 : Nat := 0x10
def pciBaseAddress5 : Nat := 0x24
def pciRomAddress : Nat := 0x30
def pciStdNumBars : Nat := 6
def pciCfgSpaceSize : Nat := 256
-- the bit numbers of `PCI_COMMAND_IO` and `PCI_COMMAND_MEMORY`
def pciCommandIo : Nat := 0
def pciCommandMemory : Nat := 1

def pciBarOffset (bar : Nat) : Nat := pciBaseAddress0 + 4 * bar

-- `uint32_t mask = ~(dev->bar_size[bar] - 1)`
def barMask (size : Nat) : Nat := 2 ^ 32 - 1 - (size + 2 ^ 32 - 1) % 2 ^ 32

section

variable {ι : Type}

namespace PciSys

def bus (s : PciSys ι) (io : Bool) : Bus (Node ι) := if io then s.ioBus else s.mmioBus

def setBus (s : PciSys ι) (io : Bool) (hb : Heap (Node ι) × Bus (Node ι)) : PciSys ι :=
  if io then { s with heap := hb.1, ioBus := hb.2 } else { s with heap := hb.1, mmioBus := hb.2 }

/-- `space_dev[bar].base & mask` -/
def addrPart (s : PciSys ι) (d : ι) (bar : Nat) : Nat :=
  (s.heap (.space d bar)).base &&& barMask ((s.dev d).barSize bar)

/-- The bus a node belongs to: `true` for I/O. -/
def kind (s : PciSys ι) : Node ι → Bool
  | .space d bar => (s.dev d).barIsIoSpace bar
  | .other io _ => io

@[simp] theorem bus_setBus_same (s : PciSys ι) (io : Bool) (hb : Heap (Node ι) × Bus (Node ι)) :
    (s.setBus io hb).bus io = hb.2 := by
  cases io <;> rfl

@[simp] theorem bus_setBus_other (s : PciSys ι) {io io' : Bool} (h : io' ≠ io)
    (hb : Heap (Node ι) × Bus (Node ι)) : (s.setBus io hb).bus io' = s.bus io' := by
  cases io <;> cases io' <;> first | rfl | exact absurd rfl h

@[simp] theorem heap_setBus (s : PciSys ι) (io : Bool) (hb : Heap (Node ι) × Bus (Node ι)) :
    (s.setBus io hb).heap = hb.1 := by
  cases io <;> rfl

@[simp] theorem dev_setBus (s : PciSys ι) (io : Bool) (hb : Heap (Node ι) × Bus (Node ι)) :
    (s.setBus io hb).dev = s.dev := by
  cases io <;> rfl

theorem kind_setBus (s : PciSys ι) (io : Bool) (hb : Heap (Node ι) × Bus (Node ι)) :
    (s.setBus io hb).kind = s.kind := by
  funext x
  cases x with
  | other io k => rfl
  | space e bar => simp [kind]

variable [DecidableEq ι]

def setDev (s : PciSys ι) (d : ι) (v : PciDev) : PciSys ι :=
  { s with dev := Function.update s.dev d v }

def setActive (s : PciSys ι) (d : ι) (bar : Nat) (v : Bool) : PciSys ι :=
  s.setDev d { s.dev d with barActive := Function.update (s.dev d).barActive bar v }

end PciSys

variable [DecidableEq ι]

def pciActivateBar (s : PciSys ι) (d : ι) (bar : Nat) (io : Bool) : PciSys ι :=
  let s :=
    if (s.dev d).barActive bar = false ∧ s.addrPart d bar ≠ 0 then
      s.setBus io (busRegisterDev s.heap (s.bus io) (.space d bar))
    else s
  s.setActive d bar true

def pciDeactivateBar (fuel : Nat) (s : PciSys ι) (d : ι) (bar : Nat) (io : Bool) :
    Except Stop (PciSys ι) :=
  if (s.dev d).barActive bar = true ∧ s.addrPart d bar ≠ 0 then do
    let hb ← busDeregisterDev fuel s.heap (s.bus io) (.space d bar)
    return (s.setBus io hb).setActive d bar false
  else return s.setActive d bar false

/-- The body of the loop of `pci_command_bar`; `enable` gives `enable_io` and `enable_mem`. -/
def pciCommandBarBody (fuel : Nat) (d : ι) (enable : Bool → Bool) (s : PciSys ι) (i : Nat) :
    Except Stop (PciSys ι) :=
  let io := (s.dev d).barIsIoSpace i
  if enable io then .ok (pciActivateBar s d i io) else pciDeactivateBar fuel s d i io

/-- The enable bit of the COMMAND register for I/O or memory space. -/
def PciSys.enable (s : PciSys ι) (d : ι) (io : Bool) : Bool :=
  (getLE (s.dev d).hdr pciCommand 2).testBit (if io then pciCommandIo else pciCommandMemory)

def pciCommandBar (fuel : Nat) (s : PciSys ι) (d : ι) : Except Stop (PciSys ι) :=
  (List.range pciStdNumBars).foldlM (pciCommandBarBody fuel d (s.enable d)) s

def pciConfigBar (s : PciSys ι) (d : ι) (bar : Nat) : PciSys ι :=
  let dev := s.dev d
  let oldBar := getLE dev.hdr (pciBarOffset bar) 4
  let newBar := (oldBar &&& barMask (dev.barSize bar)) ||| (dev.barIsIoSpace bar).toNat
  let node := s.heap (.space d bar)
  { s.setDev d { dev with hdr := putLE dev.hdr (pciBarOffset bar) 4 newBar } with
    heap := Function.update s.heap (.space d bar) { node with base := newBar } }

def PciSys.setHdr (s : PciSys ι) (d : ι) (hdr : Store) : PciSys ι :=
  s.setDev d { s.dev d with hdr := hdr }

def pciConfigWrite (fuel : Nat) (s : PciSys ι) (d : ι) (offset : Nat) (data : List UInt8) :
    Except Stop (PciSys ι) :=
  let s := s.setHdr d (patch (s.dev d).hdr offset data)
  if offset = pciCommand then pciCommandBar fuel s d
  else if pciBaseAddress0 ≤ offset ∧ offset ≤ pciBaseAddress5 then
    .ok (pciConfigBar s d ((offset - pciBaseAddress0) / 4))
  else if offset = pciRomAddress then
    .ok (s.setHdr d (putLE (s.dev d).hdr pciRomAddress 4 0))
  else .ok s

/-- `pci_dev_init`: the device is cleared, its nodes included. -/
def pciDevInit (s : PciSys ι) (d : ι) : PciSys ι :=
  { s.setDev d
      { hdr := fun _ => 0
        barSize := fun _ => 0
        barActive := fun _ => false
        barIsIoSpace := fun _ => false } with
    heap := fun x =>
      match x with
      | .space e bar =>
        if e = d then { base := 0, len := 0, next := none } else s.heap (.space e bar)
      | .other io k => s.heap (.other io k) }

def pciSetBar (s : PciSys ι) (d : ι) (bar barSize : Nat) (isIoSpace : Bool) : PciSys ι :=
  let dev := s.dev d
  { s.setDev d
      { dev with
        hdr := putLE dev.hdr (pciBarOffset bar) 4 isIoSpace.toNat
        barSize := Function.update dev.barSize bar barSize
        barIsIoSpace := Function.update dev.barIsIoSpace bar isIoSpace } with
    heap := devInit s.heap (.space d bar) 0 barSize }

/-! ## The nodes of a bus

The two buses never share a node: a BAR is of one kind, and so is every node its pointers lead to.
This holds in every state, also when a list has become circular. -/

namespace PciSys

/-- The nodes of a bus, first to last. -/
def Nodes (s : PciSys ι) (io : Bool) (xs : List (Node ι)) : Prop := OnList s.heap (s.bus io) xs

structure KindOk (s : PciSys ι) : Prop where
  head : ∀ io x, (s.bus io).head = some x → s.kind x = io
  next : ∀ x y, s.heap.next x = some y → s.kind y = s.kind x

omit [DecidableEq ι] in
theorem KindOk.nodes {s : PciSys ι} (h : s.KindOk) {io : Bool} {xs : List (Node ι)}
    (hx : s.Nodes io xs) : ∀ x ∈ xs, s.kind x = io :=
  hx.closed (P := fun x => s.kind x = io) (fun x y hy hk => (h.next x y hy).trans hk) (h.head io)

@[simp] theorem heap_setDev (s : PciSys ι) (d : ι) (v : PciDev) : (s.setDev d v).heap = s.heap :=
  rfl
@[simp] theorem bus_setDev (s : PciSys ι) (d : ι) (v : PciDev) (io : Bool) :
    (s.setDev d v).bus io = s.bus io := rfl

/-- A change of one device that keeps the kind of its BARs. -/
theorem kind_setDev {s : PciSys ι} {d : ι} {v : PciDev}
    (h : v.barIsIoSpace = (s.dev d).barIsIoSpace) : (s.setDev d v).kind = s.kind := by
  funext x
  cases x with
  | other io k => rfl
  | space e bar =>
    by_cases he : e = d
    · subst he; simp [kind, setDev, h]
    · simp [kind, setDev, Function.update_of_ne he]

end PciSys

/-- What a turn of the loop of `pci_command_bar` does for BAR `i` of device `d`: the BAR is marked
active or not, its bus changes in one of three ways, and the other bus does not change. -/
structure BarStep (d : ι) (enable : Bool → Bool) (i : Nat) (s s' : PciSys ι) : Prop where
  dev : s'.dev = (s.setActive d i (enable ((s.dev d).barIsIoSpace i))).dev
  base : ∀ x, (s'.heap x).base = (s.heap x).base
  kindOk : s'.KindOk
  elsewhere : ∀ io xs, io ≠ (s.dev d).barIsIoSpace i → (s'.Nodes io xs ↔ s.Nodes io xs)
  added : enable ((s.dev d).barIsIoSpace i) = true → (s.dev d).barActive i = false →
    s.addrPart d i ≠ 0 → ∀ ys, s'.Nodes ((s.dev d).barIsIoSpace i) ys ↔
      ∃ xs, ys = .space d i :: xs ∧ .space d i ∉ xs ∧ s.Nodes ((s.dev d).barIsIoSpace i) xs
  removed : enable ((s.dev d).barIsIoSpace i) = false → (s.dev d).barActive i = true →
    s.addrPart d i ≠ 0 → ∀ xs, s.Nodes ((s.dev d).barIsIoSpace i) xs →
      s'.Nodes ((s.dev d).barIsIoSpace i) (xs.erase (.space d i))
  kept : ((s.dev d).barActive i = enable ((s.dev d).barIsIoSpace i) ∨ s.addrPart d i = 0) →
    ∀ xs, s'.Nodes ((s.dev d).barIsIoSpace i) xs ↔ s.Nodes ((s.dev d).barIsIoSpace i) xs

section BarStep

variable {s s' : PciSys ι} {d : ι} {enable : Bool → Bool} {i fuel : Nat}

theorem kindOk_setActive (h : s.KindOk) (v : Bool) : (s.setActive d i v).KindOk := by
  have hk : (s.setActive d i v).kind = s.kind := PciSys.kind_setDev rfl
  refine ⟨fun io x hx => ?_, fun x y hy => ?_⟩
  · rw [hk]; exact h.head io x hx
  · rw [hk]; exact h.next x y hy

omit [DecidableEq ι] in
/-- Two heaps that differ only in nodes of one kind give the other bus the same nodes. -/
theorem nodes_elsewhere {io io' : Bool} {heap : Heap (Node ι)} {bus : Bus (Node ι)} (h : s.KindOk)
    (h' : (s.setBus io (heap, bus)).KindOk) (hne : io' ≠ io)
    (hsame : ∀ x, s.kind x ≠ io → heap.next x = s.heap.next x) (xs : List (Node ι)) :
    (s.setBus io (heap, bus)).Nodes io' xs ↔ s.Nodes io' xs := by
  have hk : ∀ x, s.kind x = io' → heap.next x = s.heap.next x :=
    fun x hx => hsame x (by rw [hx]; exact hne)
  constructor
  · intro hx
    have hmem := h'.nodes hx
    rw [PciSys.kind_setBus] at hmem
    unfold PciSys.Nodes OnList at hx ⊢
    rw [PciSys.bus_setBus_other s hne, PciSys.heap_setBus] at hx
    exact hx.congr fun x hm => (hk x (hmem x hm)).symm
  · intro hx
    have hmem := h.nodes hx
    unfold PciSys.Nodes OnList at hx ⊢
    rw [PciSys.bus_setBus_other s hne, PciSys.heap_setBus]
    exact hx.congr fun x hm => hk x (hmem x hm)

/-- A turn that leaves the buses alone. -/
theorem barStep_kept (h : s.KindOk)
    (hk : (s.dev d).barActive i = enable ((s.dev d).barIsIoSpace i) ∨ s.addrPart d i = 0) :
    BarStep d enable i s (s.setActive d i (enable ((s.dev d).barIsIoSpace i))) where
  dev := rfl
  base := fun _ => rfl
  kindOk := kindOk_setActive h _
  elsewhere := fun _ _ _ => Iff.rfl
  added := fun hen hact haddr => by
    rcases hk with hk | hk
    · rw [hact, hen] at hk; cases hk
    · exact absurd hk haddr
  removed := fun hen hact haddr => by
    rcases hk with hk | hk
    · rw [hact, hen] at hk; cases hk
    · exact absurd hk haddr
  kept := fun _ _ => Iff.rfl

omit [DecidableEq ι] in
theorem kindOk_setBus (h : s.KindOk) {io : Bool} {heap : Heap (Node ι)} {bus : Bus (Node ι)}
    (hhead : ∀ y, bus.head = some y → s.kind y = io)
    (hnext : ∀ x y, heap.next x = some y → s.kind y = s.kind x) :
    (s.setBus io (heap, bus)).KindOk := by
  refine ⟨fun io' x hx => ?_, fun x y hy => ?_⟩
  · rw [PciSys.kind_setBus]
    by_cases hne : io' = io
    · subst hne
      rw [PciSys.bus_setBus_same] at hx
      exact hhead x hx
    · rw [PciSys.bus_setBus_other s hne] at hx
      exact h.head io' x hx
  · rw [PciSys.kind_setBus]
    rw [PciSys.heap_setBus] at hy
    exact hnext x y hy

/-- A pointer that is redirected to a node of the same kind. -/
theorem kind_setNext (h : s.KindOk) {a : Node ι} {v : Option (Node ι)}
    (hv : ∀ y, v = some y → s.kind y = s.kind a) :
    ∀ x y, (s.heap.setNext a v).next x = some y → s.kind y = s.kind x := by
  intro x y hy
  rw [Heap.setNext_next] at hy
  by_cases hx : x = a
  · subst hx
    rw [Function.update_self] at hy
    exact hv y hy
  · rw [Function.update_of_ne hx] at hy
    exact h.next x y hy

theorem kindOk_register (h : s.KindOk) :
    (s.setBus ((s.dev d).barIsIoSpace i) (busRegisterDev s.heap
      (s.bus ((s.dev d).barIsIoSpace i)) (.space d i))).KindOk :=
  kindOk_setBus h (fun y hy => by cases hy; rfl) (kind_setNext h (h.head _))

theorem barStep_register (h : s.KindOk) (hen : enable ((s.dev d).barIsIoSpace i) = true)
    (hact : (s.dev d).barActive i = false) (haddr : s.addrPart d i ≠ 0) :
    BarStep d enable i s
      ((s.setBus ((s.dev d).barIsIoSpace i) (busRegisterDev s.heap
        (s.bus ((s.dev d).barIsIoSpace i)) (.space d i))).setActive d i true) where
  dev := by simp [PciSys.setActive, PciSys.setDev, hen]
  base := fun x => by
    change ((s.setBus _ _).heap x).base = _
    rw [PciSys.heap_setBus]
    exact Heap.setNext_base _ _ _ _
  kindOk := kindOk_setActive (kindOk_register h) _
  elsewhere := fun io xs hne =>
    nodes_elsewhere h (kindOk_register h) hne (fun x hx => by
      rw [Heap.setNext_next]
      exact Function.update_of_ne (fun he => hx (by rw [he]; rfl)) _ _) xs
  added := fun _ _ _ ys => by
    change OnList (s.setBus _ _).heap ((s.setBus _ _).bus _) ys ↔ _
    rw [PciSys.heap_setBus, PciSys.bus_setBus_same]
    exact busRegisterDev_list
  removed := fun hen' => by rw [hen] at hen'; cases hen'
  kept := fun hk => by
    rcases hk with hk | hk
    · rw [hact, hen] at hk; cases hk
    · exact absurd hk haddr

/-- `bus_deregister_dev` writes the head of the bus or the pointer of one of its nodes, and what it
writes leads to a node of the bus again. -/
theorem busDeregisterDev_kind {io : Bool} {x : Node ι} {heap : Heap (Node ι)} {bus : Bus (Node ι)}
    (h : s.KindOk) (hd : busDeregisterDev fuel s.heap (s.bus io) x = .ok (heap, bus)) :
    (s.setBus io (heap, bus)).KindOk ∧ (∀ y, s.kind y ≠ io → heap.next y = s.heap.next y) ∧
      ∀ y, (heap y).base = (s.heap y).base := by
  unfold busDeregisterDev at hd
  cases hw : walk (s.bus io).head s.heap.next x fuel .head with
  | none => rw [hw] at hd; cases hd
  | some q =>
    have hclosed := walk_closed (p := .head) (P := fun y => s.kind y = io)
      (fun a b hab ha => (h.next a b hab).trans ha) (fun y hy => by cases hy) (h.head io) hw
    simp only [hw] at hd
    cases hl : q.load (s.bus io).head s.heap.next with
    | none =>
      simp only [hl] at hd
      cases hd
      exact ⟨kindOk_setBus h (h.head io) h.next, fun _ _ => rfl, fun _ => rfl⟩
    | some b =>
      have hb : s.kind b = io := hclosed.2 b hl
      have hnext : ∀ y, (s.heap b).next = some y → s.kind y = io :=
        fun y hy => (h.next b y hy).trans hb
      simp only [hl] at hd
      cases q with
      | head =>
        cases hd
        exact ⟨kindOk_setBus h hnext h.next, fun _ _ => rfl, fun _ => rfl⟩
      | next a =>
        have ha : s.kind a = io := hclosed.1 a rfl
        cases hd
        refine ⟨kindOk_setBus h (h.head io) (kind_setNext h fun y hy => (hnext y hy).trans ha.symm),
          fun y hy => ?_, fun y => Heap.setNext_base _ _ _ _⟩
        rw [Heap.setNext_next]
        exact Function.update_of_ne (fun he => hy (by rw [he]; exact ha)) _ _

theorem barStep_deregister {heap : Heap (Node ι)} {bus : Bus (Node ι)} (h : s.KindOk)
    (hen : enable ((s.dev d).barIsIoSpace i) = false) (hact : (s.dev d).barActive i = true)
    (haddr : s.addrPart d i ≠ 0)
    (hd : busDeregisterDev fuel s.heap (s.bus ((s.dev d).barIsIoSpace i)) (.space d i) =
      .ok (heap, bus)) :
    BarStep d enable i s
      ((s.setBus ((s.dev d).barIsIoSpace i) (heap, bus)).setActive d i false) where
  dev := by simp [PciSys.setActive, PciSys.setDev, hen]
  base := fun x => by
    change ((s.setBus _ _).heap x).base = _
    rw [PciSys.heap_setBus]
    exact (busDeregisterDev_kind h hd).2.2 x
  kindOk := kindOk_setActive (busDeregisterDev_kind h hd).1 _
  elsewhere := fun io xs hne =>
    nodes_elsewhere h (busDeregisterDev_kind h hd).1 hne (busDeregisterDev_kind h hd).2.1 xs
  added := fun hen' => by rw [hen] at hen'; cases hen'
  removed := fun _ _ _ xs hx => by
    change OnList (s.setBus _ _).heap ((s.setBus _ _).bus _) _
    rw [PciSys.heap_setBus, PciSys.bus_setBus_same]
    exact busDeregisterDev_list hx hd
  kept := fun hk => by
    rcases hk with hk | hk
    · rw [hact, hen] at hk; cases hk
    · exact absurd hk haddr

/-- One turn of the loop of `pci_command_bar`. -/
theorem pciCommandBarBody_step (h : s.KindOk)
    (hb : pciCommandBarBody fuel d enable s i = .ok s') : BarStep d enable i s s' := by
  unfold pciCommandBarBody at hb
  cases hen : enable ((s.dev d).barIsIoSpace i) with
  | true =>
    simp only [hen, if_true] at hb
    unfold pciActivateBar at hb
    by_cases hc : (s.dev d).barActive i = false ∧ s.addrPart d i ≠ 0
    · rw [if_pos hc] at hb
      cases hb
      exact barStep_register h hen hc.1 hc.2
    · rw [if_neg hc] at hb
      cases hb
      rw [← hen]
      apply barStep_kept h
      cases hact : (s.dev d).barActive i with
      | true => exact .inl hen.symm
      | false => exact .inr (Decidable.byContradiction fun ha => hc ⟨hact, ha⟩)
  | false =>
    simp only [hen, Bool.false_eq_true, if_false] at hb
    unfold pciDeactivateBar at hb
    by_cases hc : (s.dev d).barActive i = true ∧ s.addrPart d i ≠ 0
    · rw [if_pos hc] at hb
      obtain ⟨⟨heap, bus⟩, hd, hb⟩ := bind_eq_ok.mp hb
      cases hb
      exact barStep_deregister h hen hc.1 hc.2 hd
    · rw [if_neg hc] at hb
      cases hb
      rw [← hen]
      apply barStep_kept h
      cases hact : (s.dev d).barActive i with
      | false => exact .inl hen.symm
      | true => exact .inr (Decidable.byContradiction fun ha => hc ⟨hact, ha⟩)

end BarStep

end

end KvmHost
