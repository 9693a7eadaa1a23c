import KvmHost.AddressMap
import KvmHost.Lib.Nested

/-!
# KvmHost.DeviceTree

What the device tree tells an arm64 guest, and what the machine does.

`generate_fdt` writes the tree with a sequence of libfdt calls; `treeOf` is the tree that such a
sequence stands for, and `regOf` and `rangesOf` read the windows of a node as a guest does, with the
cell counts of its parent. The guest knows the machine by this tree only: it uses the UART and the
configuration space where `reg` says they are, and places BARs in the window of `ranges`.
`device_tree_right` says that the machine is there, and only there.
-/

namespace KvmHost

open ByteStore LinkedList Nested

namespace Arm64

/-! ## Reading a tree -/

/-- A name and a value. -/
abbrev FdtProp := String × List UInt8

abbrev FdtForest := Forest String FdtProp

/-- A string as a property holds it. -/
def text (s : String) : List UInt8 := s.toUTF8.toList ++ [0]

/-- What a call adds to the structure of the tree. -/
def FdtCall.token : FdtCall → Option (Token String FdtProp)
  | .beginNode name => some (.opening name)
  | .endNode => some .closing
  | .propertyCell name v => some (.leaf (name, fdt32 v))
  | .propertyU64 name v => some (.leaf (name, fdt64 v))
  | .propertyString name v => some (.leaf (name, text v))
  | .property name bytes => some (.leaf (name, bytes))
  | _ => none

/-- The tokens up to `fdt_finish`. -/
def fdtTokens : List FdtCall → Option (List (Token String FdtProp))
  | [] => none
  | c :: cs =>
    match c with
    | .finish =>
      match cs with
      | [] => some []
      | _ :: _ => none
    | _ => do
      let t ← c.token
      let ts ← fdtTokens cs
      return t :: ts

def treeOf : List FdtCall → Option FdtForest
  | .create _ :: .finishReservemap :: cs => (fdtTokens cs).bind parse
  | _ => none

/-- A number in the byte order of the tree. -/
def beNat (bs : List UInt8) : Nat := leNat bs.reverse

/-- Numbers of so many cells each, one after the other. -/
def fields : List Nat → List UInt8 → List Nat
  | [], _ => []
  | w :: ws, bs => beNat (bs.take (4 * w)) :: fields ws (bs.drop (4 * w))

/-- `n` rows of such numbers. -/
def rows (ws : List Nat) : Nat → List UInt8 → List (List Nat)
  | 0, _ => []
  | n + 1, bs => fields ws bs :: rows ws n (bs.drop (4 * ws.foldl (· + ·) 0))

def table (ws : List Nat) (bs : List UInt8) : List (List Nat) :=
  rows ws (bs.length / (4 * ws.foldl (· + ·) 0)) bs

def prop (key : String) (f : FdtForest) : Option (List UInt8) :=
  f.pick fun p => if p.1 = key then some p.2 else none

def cell (key : String) (f : FdtForest) : Option Nat := (prop key f).map beNat

/-- `reg` of a node below the root: an address and a size for each window. -/
def regOf (tree : FdtForest) (name : String) : Option (List (List Nat)) := do
  let root ← tree.child ""
  let node ← root.child name
  return table [← cell "#address-cells" root, ← cell "#size-cells" root] (← prop "reg" node)

/-- `ranges` of the PCI host: the kind of space, the address on the bus, the address for the CPU,
the size. -/
def rangesOf (tree : FdtForest) : Option (List (List Nat)) := do
  let root ← tree.child ""
  let pci ← root.child "pci"
  return table [1, (← cell "#address-cells" pci) - 1, ← cell "#address-cells" root,
    ← cell "#size-cells" pci]
    (← prop "ranges" pci)

/-! ## The tree of the machine -/

def leaves (ps : List FdtProp) (rest : FdtForest) : FdtForest := ps.foldr .leaf rest

def initrdProps (v : ArmVm) : List FdtProp :=
  if 0 < v.initrdsz then
    [("linux,initrd-start", fdt64 armInitrdBase),
      ("linux,initrd-end", fdt64 ((armInitrdBase + v.initrdsz) % 2 ^ 64))]
  else []

def guestTree (v : ArmVm) (mpidr : Nat) : FdtForest :=
  .node ""
    (leaves [("#address-cells", fdt32 2), ("#size-cells", fdt32 2),
        ("interrupt-parent", fdt32 fdtPhandleGic), ("compatible", text "linux,dummy-virt")] <|
      .node "chosen"
        (leaves ([("bootargs", text kernelOpts), ("stdout-path", text "/uart")] ++ initrdProps v)
          .nil) <|
      .node "memory"
        (leaves [("device_type", text "memory"), ("reg", fdt64 ramBase ++ fdt64 ramSize)] .nil) <|
      .node "cpus"
        (leaves [("#address-cells", fdt32 1), ("#size-cells", fdt32 0)] <|
          .node "cpu"
            (leaves [("reg", fdt32 (mpidr % 2 ^ 32)), ("device_type", text "cpu"),
              ("compatible", text "arm,arm-v8")] .nil)
            .nil) <|
      .node "timer"
        (leaves [("compatible", text "arm,armv8-timer"), ("interrupts", timerIrq),
          ("always-on", [])] .nil) <|
      .node "intr"
        (leaves
          [("compatible", text (if v.gicType = .v3 then "arm,gic-v3" else "arm,cortex-a15-gic")),
            ("#interrupt-cells", fdt32 3), ("interrupt-controller", []),
            ("reg", fdt64 armGicDistBase ++ fdt64 armGicDistSize ++ fdt64 armGicRedistCpuiBase ++
              fdt64 armGicRedistCpuiSize),
            ("phandle", fdt32 fdtPhandleGic)] .nil) <|
      .node "uart"
        (leaves [("compatible", text "ns16550a"), ("clock-frequency", fdt32 1843200),
          ("reg", fdt64 (armIoportBase + com1PortBase) ++ fdt64 com1PortSize),
          ("interrupts", fdt32 armFdtIrqTypeSpi ++ fdt32 serialIrq ++
            fdt32 armFdtIrqLevelTrigger)] .nil) <|
      .node "pci"
        (leaves [("device_type", text "pci"), ("#address-cells", fdt32 3),
          ("#size-cells", fdt32 2), ("#interrupt-cells", fdt32 1),
          ("compatible", text "pci-host-cam-generic"), ("dma-coherent", []),
          ("bus-range", fdt32 0 ++ fdt32 0), ("reg", fdt64 armPciCfgBase ++ fdt64 armPciCfgSize),
          ("ranges", fdt32 fdtPciMmioSpace ++ fdt64 armPciMmioBase ++ fdt64 armPciMmioBase ++
            fdt64 armPciMmioSize),
          ("interrupt-map", fdt32 (v.virtioBlkBase &&& (2 ^ 64 - 1 - 2 ^ 31)) ++ fdt64 0 ++
            fdt32 1 ++ fdt32 fdtPhandleGic ++ fdt32 armFdtIrqTypeSpi ++ fdt32 virtioBlkIrq ++
            fdt32 armFdtIrqEdgeTrigger)] .nil) .nil)
    .nil

/-- `generate_fdt` spells the tree. -/
theorem treeOf_calls (v : ArmVm) (mpidr : Nat) :
    treeOf (fdtHead v ++ fdtTail v mpidr) = some (guestTree v mpidr) := by
  have htokens : treeOf (fdtHead v ++ fdtTail v mpidr) = parse (guestTree v mpidr).spell := by
    unfold guestTree fdtHead chosenInitrd initrdProps
    by_cases h : 0 < v.initrdsz
    · rw [if_pos h, if_pos h]
      rfl
    · rw [if_neg h, if_neg h]
      rfl
  rw [htokens, parse_spell]

/-- The windows that the tree names. -/
theorem guestTree_windows (v : ArmVm) (mpidr : Nat) :
    regOf (guestTree v mpidr) "memory" = some [[ramBase, ramSize]] ∧
    regOf (guestTree v mpidr) "intr" =
      some [[armGicDistBase, armGicDistSize], [armGicRedistCpuiBase, armGicRedistCpuiSize]] ∧
    regOf (guestTree v mpidr) "uart" = some [[armIoportBase + com1PortBase, com1PortSize]] ∧
    regOf (guestTree v mpidr) "pci" = some [[armPciCfgBase, armPciCfgSize]] ∧
    rangesOf (guestTree v mpidr) =
      some [[fdtPciMmioSpace, armPciMmioBase, armPciMmioBase, armPciMmioSize]] := by
  refine ⟨rfl, rfl, rfl, rfl, rfl⟩

end Arm64

open Arm64

/-! ## The machine behind it -/

/-- The access lies in the window. -/
def LiesIn (w : Span) (addr size : Nat) : Prop := w.lo ≤ addr ∧ addr + size ≤ w.lo + w.len

section

variable {ι : Type}

/-- The guest has placed the BARs that decode in the window, apart from each other. -/
structure Guided (mmio : Span) (ds : List ι) (file : ι → Store) : Prop where
  inside : ∀ d ∈ ds, Claims (file d) → LiesIn mmio (bar0 (file d)) barWindow
  bars : ∀ d ∈ ds, ∀ e ∈ ds, d ≠ e → Claims (file d) → Claims (file e) →
    bar0 (file d) + barWindow ≤ bar0 (file e) ∨ bar0 (file e) + barWindow ≤ bar0 (file d)

def pciMmio : Span := ⟨armPciMmioBase, armPciMmioSize⟩

variable {ds : List ι} {file : ι → Store} {addr size : Nat}

theorem Guided.placed (h : Guided pciMmio ds file) : Placed .arm64 ds file := by
  refine ⟨h.bars, fun d hd hc x hx => .inr ?_⟩
  have hlo : armPciMmioBase ≤ bar0 (file d) := (h.inside d hd hc).1
  simp only [platformNodes, List.mem_cons, List.not_mem_nil, or_false] at hx
  rcases hx with rfl | rfl
  · exact hlo
  · have hend : armIoportBase + armIoportSize ≤ armPciMmioBase := by decide
    exact Nat.le_trans hend hlo

/-- A BAR takes no access outside of the window. -/
theorem Guided.barAt_none (h : Guided pciMmio ds file) (h1 : 1 ≤ size)
    (hout : addr + size ≤ armPciMmioBase ∨ ramBase ≤ addr) : barAt ds file addr size = none := by
  rw [barAt, List.find?_eq_none]
  intro d hd hc
  obtain ⟨hcl, hlo, hhi⟩ := of_decide_eq_true hc
  obtain ⟨hin, hend⟩ := h.inside d hd hcl
  have htop : pciMmio.lo + pciMmio.len = ramBase := by decide
  have hlow : pciMmio.lo = armPciMmioBase := rfl
  omega

theorem Guided.target_outside (h : Guided pciMmio ds file) (h1 : 1 ≤ size)
    (hout : addr + size ≤ armPciMmioBase ∨ ramBase ≤ addr) :
    mmioTarget .arm64 ds file addr size = platformTarget .arm64 ds addr size := by
  rw [mmioTarget, h.barAt_none h1 hout]

theorem platformTarget_nobody (hio : ¬ addr + size ≤ armIoportSize)
    (hcfg : ¬ (armPciCfgBase ≤ addr ∧ addr + size ≤ armPciCfgBase + armPciCfgSize)) :
    platformTarget .arm64 ds addr size = .nobody := by
  rw [platformTarget, if_pos rfl, if_neg hio, if_neg hcfg]

theorem platformTarget_uart (h : LiesIn ⟨armIoportBase + com1PortBase, com1PortSize⟩ addr size) :
    platformTarget .arm64 ds addr size = .serial (addr - (armIoportBase + com1PortBase)) := by
  obtain ⟨hlo, hhi⟩ := h
  have hport : addr + size ≤ armIoportSize := Nat.le_trans hhi (by decide)
  simp only [armIoportBase, Nat.zero_add] at hlo hhi ⊢
  rw [platformTarget, if_pos rfl, if_pos hport, Machine.portTarget, if_pos ⟨hlo, hhi⟩]

theorem platformTarget_config (h : LiesIn ⟨armPciCfgBase, armPciCfgSize⟩ addr size)
    (h1 : 1 ≤ size) :
    platformTarget .arm64 ds addr size = .ofConfig (windowCall ds (addr - armPciCfgBase) size) := by
  have hio : ¬ addr + size ≤ armIoportSize := by
    have hlo : armPciCfgBase ≤ addr := h.1
    unfold armPciCfgBase at hlo
    unfold armIoportSize
    omega
  have hin : armPciCfgBase ≤ addr ∧ addr + size ≤ armPciCfgBase + armPciCfgSize := h
  rw [platformTarget, if_pos rfl, if_neg hio, if_pos hin]

/-- **The device tree.** For every machine that `generate_fdt` describes, after any run whose
configuration writes are orderly and in place: as long as the guest keeps to the tree, which means
that it places BARs in the window of `ranges` and apart from each other, an access in `reg` of the
UART reaches the UART, one in `reg` of the PCI host the configuration space of the slot, one in the
window of `ranges` the BAR that was placed there, at the offsets from the addresses in the tree; and
what the tree says is memory or the interrupt controller, which KVM handles, reaches no device. A
run ends at an access to a BAR that its handler does not return from. -/
theorem device_tree_right [DecidableEq ι] {β : Type} (v : ArmVm) (mpidr : Nat) (barIo : BarIo ι β)
    (fuel : Nat) (hf : 34 < fuel) (ds : List ι) (hnd : ds.Nodup) (hn : ds.length ≤ 32)
    (kind : ι → VirtioKind) (host : (d : ι) → Host (kind d).Backend) (latch : Store) (heap : Heap ι)
    (devs : β) (es : List (MachineEvent β))
    (htidy : ∀ t ∈ Turns.turns (Machine.next barIo fuel)
      (.boot .arm64 ds kind host latch heap devs) es, Machine.Tidy fuel t) :
    ∃ tree mem dist redist uart cfg mmio, treeOf (fdtHead v ++ fdtTail v mpidr) = some tree ∧
      regOf tree "memory" = some [[mem.lo, mem.len]] ∧
      regOf tree "intr" = some [[dist.lo, dist.len], [redist.lo, redist.len]] ∧
      regOf tree "uart" = some [[uart.lo, uart.len]] ∧ regOf tree "pci" = some [[cfg.lo, cfg.len]] ∧
      rangesOf tree = some [[fdtPciMmioSpace, mmio.lo, mmio.lo, mmio.len]] ∧
      ∀ t ∈ Turns.turns (Machine.next barIo fuel) (.boot .arm64 ds kind host latch heap devs) es,
        Guided mmio ds t.1.sys.file → ∀ addr size, 1 ≤ size → size ≤ 8 →
          (LiesIn uart addr size → t.1.routeMmio fuel addr size = .ok (.serial (addr - uart.lo))) ∧
          (LiesIn cfg addr size → t.1.routeMmio fuel addr size =
            .ok (.ofConfig (windowCall ds (addr - cfg.lo) size))) ∧
          (LiesIn mmio addr size → t.1.routeMmio fuel addr size =
            .ok (((barAt ds t.1.sys.file addr size).map fun d =>
              .bar d 0 (addr - bar0 (t.1.sys.file d))).getD .nobody)) ∧
          (LiesIn mem addr size ∨ LiesIn dist addr size ∨ LiesIn redist addr size →
            t.1.routeMmio fuel addr size = .ok .nobody) := by
  obtain ⟨hmem, hintr, huart, hpci, hranges⟩ := guestTree_windows v mpidr
  refine ⟨guestTree v mpidr, ⟨ramBase, ramSize⟩, ⟨armGicDistBase, armGicDistSize⟩,
    ⟨armGicRedistCpuiBase, armGicRedistCpuiSize⟩, ⟨armIoportBase + com1PortBase, com1PortSize⟩,
    ⟨armPciCfgBase, armPciCfgSize⟩, pciMmio, treeOf_calls v mpidr, hmem, hintr, huart, hpci,
    hranges, ?_⟩
  intro t ht hg addr size h1 h2
  have hroute : addr + size ≤ 2 ^ 64 →
      t.1.routeMmio fuel addr size = .ok (mmioTarget .arm64 ds t.1.sys.file addr size) := fun ha =>
    (Machine.turns_up hnd hn es t ht).routeMmio
      (turns_mapped hnd htidy t ht) hnd hn hg.placed hf h1 h2 ha
  refine ⟨fun h => ?_, fun h => ?_, fun h => ?_, fun h => ?_⟩
  · have hend : addr + size ≤ armPciMmioBase := Nat.le_trans h.2 (by decide)
    rw [hroute (Nat.le_trans hend (by decide)), hg.target_outside h1 (.inl hend),
      platformTarget_uart h]
  · have hend : addr + size ≤ armPciMmioBase := h.2
    rw [hroute (Nat.le_trans hend (by decide)), hg.target_outside h1 (.inl hend),
      platformTarget_config h h1]
  · have hend : addr + size ≤ ramBase := Nat.le_trans h.2 (by decide)
    have hlo : armPciMmioBase ≤ addr := h.1
    have hnone : platformTarget .arm64 ds addr size = .nobody := by
      refine platformTarget_nobody ?_ ?_
      · unfold armPciMmioBase armPciCfgBase at hlo
        unfold armIoportSize
        omega
      · unfold armPciMmioBase at hlo
        omega
    rw [hroute (Nat.le_trans hend (by decide)), mmioTarget, hnone]
    cases barAt ds t.1.sys.file addr size with
    | none => rfl
    | some d => rfl
  · have hout : (addr + size ≤ armPciMmioBase ∨ ramBase ≤ addr) ∧ addr + size ≤ 2 ^ 64 ∧
        ¬ addr + size ≤ armIoportSize ∧
          ¬ (armPciCfgBase ≤ addr ∧ addr + size ≤ armPciCfgBase + armPciCfgSize) := by
      have hbounds : armPciCfgBase + armPciCfgSize = armPciMmioBase ∧ armPciMmioBase ≤ ramBase ∧
          ramBase + ramSize ≤ 2 ^ 64 ∧ armGicRedistCpuiBase + armGicRedistCpuiSize ≤ armPciCfgBase ∧
          armGicDistBase + armGicDistSize = armGicRedistCpuiBase ∧
            armIoportSize ≤ armGicDistBase := by decide
      simp only [LiesIn] at h
      omega
    rw [hroute hout.2.1, hg.target_outside h1 hout.1, platformTarget_nobody hout.2.2.1 hout.2.2.2]

end

/-- A machine without an initrd. -/
def plainVm : ArmVm := ⟨fun _ => 0, 0, 0, .v3, 0⟩

theorem device_tree_right_placed :
    ∃ t ∈ Turns.turns (Machine.next noBars 35) (blkMachine .arm64) placing,
      t.1.routeMmio 35 0x4001003C 2 = .ok (.bar () 0 0x3C) ∧
        t.1.routeMmio 35 0x3FD 1 = .ok (.serial 5) := by
  obtain ⟨tree, mem, dist, redist, uart, cfg, mmio, htree, -, -, huart, -, hranges, hall⟩ :=
    device_tree_right plainVm 0 noBars 35 (by decide) [()] (by decide) (by decide) (fun _ => .blk)
      (fun _ => blkHost)
      (fun _ => 0xFF) blankNodes () placing placing_tidy
  rw [treeOf_calls] at htree
  cases htree
  obtain ⟨-, -, huart', -, hranges'⟩ := guestTree_windows plainVm 0
  have hu : uart = ⟨0x3f8, 8⟩ := by
    rw [huart'] at huart
    cases uart
    simpa [armIoportBase, com1PortBase, com1PortSize, eq_comm] using huart
  have hm : mmio = pciMmio := by
    rw [hranges'] at hranges
    cases mmio
    simpa [pciMmio, eq_comm] using hranges
  subst hu hm
  refine ⟨_, List.mem_of_getElem? (i := 2) rfl, ?_⟩
  have hat := hall _ (List.mem_of_getElem? (i := 2) rfl)
    ⟨fun d _ _ => by cases d; exact ⟨by
      decide +kernel, by decide +kernel⟩, fun _ _ _ _ hne => absurd rfl hne⟩
  refine ⟨((hat 0x4001003C 2 (by decide) (by decide)).2.2.1 ⟨by decide, by decide⟩).trans
    (by decide +kernel), ?_⟩
  exact (hat 0x3FD 1 (by decide) (by decide)).1 ⟨by decide, by decide⟩

end KvmHost
