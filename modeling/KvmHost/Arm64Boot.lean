import KvmHost.BootFile

/-!
# KvmHost.Arm64Boot

Loading a kernel, an initrd and the device tree on arm64.

The memory map of `vm-arch.h` gives each of the three a region of its own. `vm_arch_load_image`
compares the offset the kernel asks for, plus its size, with the size of the region; the sums are of
64-bit numbers and may wrap. `vm_arch_load_initrd` compares nothing. The device tree is written by
libfdt, which is not part of the repository: a `Libfdt` says of each call what it returns and which
bytes of the buffer given to `fdt_create` it stores, and may be anything that stays in that buffer.

`kernelRight_iff` and `initrdRight_iff` say for which files the two loaders put things where they
belong or refuse them. What they have placed is laid out (`bootLaid`), and writing the device tree
keeps it so (`BootLaid.generateFdt`).
-/

namespace KvmHost

open ByteStore

/-- Prints its text and returns -1. -/
def throwErr (_text : String) : Int := -1

namespace Arm64

/-! ## The memory map -/

def ramBase : Nat := 2 ^ 31

def armIoportBase : Nat := 0
def armGicDistBase : Nat := 0x100000
-- `KVM_VGIC_V3_DIST_SIZE` and `KVM_VGIC_V3_REDIST_SIZE`
def armGicDistSize : Nat := 0x10000
def armGicRedistCpuiBase : Nat := armGicDistBase + armGicDistSize
def armGicRedistCpuiSize : Nat := 0x20000

def armPciCfgBase : Nat := 0x40000000
def armPciCfgSize : Nat := 2 ^ 16
def armPciMmioBase : Nat := armPciCfgBase + armPciCfgSize
def armPciMmioSize : Nat := ramBase - armPciMmioBase

def armKernelBase : Nat := ramBase
def armKernelSize : Nat := 0x8000000
def armInitrdBase : Nat := armKernelBase + armKernelSize
def armInitrdSize : Nat := 0x8000000
def armFdtBase : Nat := armInitrdBase + armInitrdSize
def fdtMaxSize : Nat := 2 ^ 21

/-! ## The machine -/

inductive GicType where
  | v2
  | v3
deriving DecidableEq

/-- Guest memory and `vm_arch_priv_t`, with the address of the disk's PCI configuration space. -/
structure ArmVm where
  mem : Store
  entry : Nat
  initrdsz : Nat
  gicType : GicType
  virtioBlkBase : Nat

def ArmVm.ram (v : ArmVm) : Ram := ⟨ramBase, v.mem⟩

/-! ## `vm_arch_load_image` and `vm_arch_load_initrd` -/

-- `arm64_kernel_header_t`
def textOffsetOff : Nat := 8
def imageSizeOff : Nat := 16
def magicOff : Nat := 56

-- `offset`; an `image_size` of 0 is that of an old kernel, whose `text_offset` says nothing
def imageOffset (data : BootFile) (imageSize : Nat) : Except Stop Nat :=
  if imageSize = 0 then .ok 0x80000 else data.load textOffsetOff 8

def vmArchLoadImage (v : ArmVm) (data : BootFile) : Except Stop (Int × ArmVm) := do
  let magic ← data.load magicOff 4
  if magic ≠ 0x644d5241 then return (throwErr "Invalid kernel image\n", v)
  let imageSize ← data.load imageSizeOff 8
  let offset ← imageOffset data imageSize
  if (offset + data.size) % 2 ^ 64 ≥ armKernelSize ∨
      (offset + imageSize) % 2 ^ 64 ≥ armKernelSize then
    return (throwErr "Image size too large\n", v)
  let dest := vmGuestToHost v.ram ((armKernelBase + offset) % 2 ^ 64)
  let bytes ← data.read 0 data.size
  let ram ← v.ram.write dest bytes
  return (0, { v with mem := ram.bytes, entry := (armKernelBase + offset) % 2 ^ 64 })

def vmArchLoadInitrd (v : ArmVm) (data : BootFile) : Except Stop (Int × ArmVm) := do
  let dest := vmGuestToHost v.ram armInitrdBase
  let bytes ← data.read 0 data.size
  let ram ← v.ram.write dest bytes
  return (0, { v with mem := ram.bytes, initrdsz := data.size })

/-! ## `generate_fdt` -/

inductive FdtCall where
  | create (bufsize : Nat)
  | finishReservemap
  | beginNode (name : String)
  | propertyCell (name : String) (value : Nat)
  | propertyU64 (name : String) (value : Nat)
  | propertyString (name value : String)
  | property (name : String) (value : List UInt8)
  | endNode
  | finish
deriving DecidableEq

/-- What each call does with the buffer: its return value, and the bytes it stores. -/
structure Libfdt where
  act : FdtCall → Store → Int × List (Fin fdtMaxSize × UInt8)

/-- The bytes from `fdt` on. -/
def bufferAt (ram : Ram) : Ptr → Store
  | none => fun _ => 0
  | some a => fun k => ram.bytes (a + k)

def storeBytes (fdt : Ptr) : List (Fin fdtMaxSize × UInt8) → Ram → Except Stop Ram
  | [], ram => .ok ram
  | (k, b) :: stores, ram => do
    let ram ← ram.write (fdt.plus k) [b]
    storeBytes fdt stores ram

/-- A sequence of `__FDT`. -/
def Libfdt.run (lib : Libfdt) (fdt : Ptr) : List FdtCall → Ram → Except Stop (Int × Ram)
  | [], ram => .ok (0, ram)
  | call :: calls, ram => do
    let (ret, stores) := lib.act call (bufferAt ram fdt)
    let ram ← storeBytes fdt stores ram
    if 0 ≤ ret then lib.run fdt calls ram
    else return (throwErr "Failed to create device tree:\n %s\n %s\n", ram)

-- `cpu_to_fdt32` and `cpu_to_fdt64`
def fdt32 (v : Nat) : List UInt8 := (toLE 4 v).reverse
def fdt64 (v : Nat) : List UInt8 := (toLE 8 v).reverse

def fdtPhandleGic : Nat := 1
def fdtPciMmioSpace : Nat := 0x02000000
def armFdtIrqTypeSpi : Nat := 0
def armFdtIrqEdgeTrigger : Nat := 1
def armFdtIrqLevelTrigger : Nat := 4
def serialIrq : Nat := 0
def virtioBlkIrq : Nat := 1
def com1PortBase : Nat := 0x03f8
def com1PortSize : Nat := 8
def armMpidrBitmask : Nat := 0xFF00FFFFFF

def kernelOpts : String := "console=ttyS0"

def chosenInitrd (v : ArmVm) : List FdtCall :=
  if 0 < v.initrdsz then
    [.propertyU64 "linux,initrd-start" armInitrdBase,
      .propertyU64 "linux,initrd-end" ((armInitrdBase + v.initrdsz) % 2 ^ 64)]
  else []

/-- The calls up to the one that needs the MPIDR. -/
def fdtHead (v : ArmVm) : List FdtCall :=
  [.create fdtMaxSize, .finishReservemap,
    .beginNode "", .propertyCell "#address-cells" 2, .propertyCell "#size-cells" 2,
    .propertyCell "interrupt-parent" fdtPhandleGic,
    .propertyString "compatible" "linux,dummy-virt",
    .beginNode "chosen", .propertyString "bootargs" kernelOpts,
    .propertyString "stdout-path" "/uart"] ++
  chosenInitrd v ++
  [.endNode,
    .beginNode "memory", .propertyString "device_type" "memory",
    .property "reg" (fdt64 ramBase ++ fdt64 ramSize), .endNode,
    .beginNode "cpus", .propertyCell "#address-cells" 1, .propertyCell "#size-cells" 0,
    .beginNode "cpu"]

def timerIrq : List UInt8 :=
  [13, 14, 11, 10].flatMap fun irq => fdt32 1 ++ fdt32 irq ++ fdt32 0xf08

def fdtTail (v : ArmVm) (mpidr : Nat) : List FdtCall :=
  [.propertyCell "reg" (mpidr % 2 ^ 32), .propertyString "device_type" "cpu",
    .propertyString "compatible" "arm,arm-v8", .endNode, .endNode,
    .beginNode "timer", .propertyString "compatible" "arm,armv8-timer",
    .property "interrupts" timerIrq, .property "always-on" [], .endNode,
    .beginNode "intr",
    .propertyString "compatible" (if v.gicType = .v3 then "arm,gic-v3" else "arm,cortex-a15-gic"),
    .propertyCell "#interrupt-cells" 3, .property "interrupt-controller" [],
    .property "reg" (fdt64 armGicDistBase ++ fdt64 armGicDistSize ++ fdt64 armGicRedistCpuiBase ++
      fdt64 armGicRedistCpuiSize),
    .propertyCell "phandle" fdtPhandleGic, .endNode,
    .beginNode "uart", .propertyString "compatible" "ns16550a",
    .propertyCell "clock-frequency" 1843200,
    .property "reg" (fdt64 (armIoportBase + com1PortBase) ++ fdt64 com1PortSize),
    .property "interrupts" (fdt32 armFdtIrqTypeSpi ++ fdt32 serialIrq ++
      fdt32 armFdtIrqLevelTrigger), .endNode,
    .beginNode "pci", .propertyString "device_type" "pci",
    .propertyCell "#address-cells" 3, .propertyCell "#size-cells" 2,
    .propertyCell "#interrupt-cells" 1, .propertyString "compatible" "pci-host-cam-generic",
    .property "dma-coherent" [], .property "bus-range" (fdt32 0 ++ fdt32 0),
    .property "reg" (fdt64 armPciCfgBase ++ fdt64 armPciCfgSize),
    .property "ranges" (fdt32 fdtPciMmioSpace ++ fdt64 armPciMmioBase ++ fdt64 armPciMmioBase ++
      fdt64 armPciMmioSize),
    .property "interrupt-map" (fdt32 (v.virtioBlkBase &&& (2 ^ 64 - 1 - 2 ^ 31)) ++ fdt64 0 ++
      fdt32 1 ++ fdt32 fdtPhandleGic ++ fdt32 armFdtIrqTypeSpi ++ fdt32 virtioBlkIrq ++
      fdt32 armFdtIrqEdgeTrigger), .endNode,
    .endNode, .finish]

/-- `generate_fdt`; `mpidr` is what the register reads, `none` if the ioctl fails. -/
def generateFdt (lib : Libfdt) (mpidr : Option Nat) (v : ArmVm) : Except Stop (Int × ArmVm) := do
  let fdt := vmGuestToHost v.ram armFdtBase
  let (ret, ram) ← lib.run fdt (fdtHead v) v.ram
  if ret < 0 then return (ret, { v with mem := ram.bytes })
  match mpidr with
  | none => return (throwErr "Failed to get MPIDR register\n", { v with mem := ram.bytes })
  | some reg =>
    let (ret, ram) ← lib.run fdt (fdtTail v (reg &&& armMpidrBitmask)) ram
    return (ret, { v with mem := ram.bytes })

/-- A loader has accepted and placed its file, or rejected it with everything as it was. -/
def PlacedOrRefused (v : ArmVm) (Placed : ArmVm → Prop) (load : Except Stop (Int × ArmVm)) : Prop :=
  ∃ ret v', load = .ok (ret, v') ∧ ((ret = 0 ∧ Placed v') ∨ (ret ≠ 0 ∧ v' = v))

theorem PlacedOrRefused.placed {v v' : ArmVm} {Placed : ArmVm → Prop}
    {load : Except Stop (Int × ArmVm)} (h : PlacedOrRefused v Placed load)
    (hload : load = .ok (0, v')) : Placed v' := by
  obtain ⟨ret, w, hret, hcases⟩ := h
  rw [hload] at hret
  cases hret
  obtain ⟨-, hp⟩ | ⟨hne, -⟩ := hcases
  · exact hp
  · exact absurd rfl hne

/-! ## The kernel -/

def imageMagic (data : BootFile) : Nat := getLE data.bytes magicOff 4
def imageSize (data : BootFile) : Nat := getLE data.bytes imageSizeOff 8

/-- Where the kernel wants to be, from the start of its region. -/
def loadOffset (data : BootFile) : Nat :=
  if imageSize data = 0 then 0x80000 else getLE data.bytes textOffsetOff 8

/-- The copied bytes and the declared extent lie in the kernel's region, and nothing else has
changed. -/
structure KernelPlaced (v : ArmVm) (data : BootFile) (v' : ArmVm) : Prop where
  low : armKernelBase ≤ v'.entry
  copied : v'.entry + data.size ≤ armKernelBase + armKernelSize
  extent : v'.entry + imageSize data ≤ armKernelBase + armKernelSize
  bytes : slice v'.mem (v'.entry - ramBase) data.size = slice data.bytes 0 data.size
  frame : ∀ p, ¬ Span.Has ⟨v'.entry - ramBase, data.size⟩ p → v'.mem p = v.mem p
  rest : v' = { v with mem := v'.mem, entry := v'.entry }

def KernelRight (v : ArmVm) (data : BootFile) : Prop :=
  PlacedOrRefused v (KernelPlaced v data) (vmArchLoadImage v data)

/-- What the two comparisons of the loader let through. -/
def SumsPass (data : BootFile) : Prop :=
  (loadOffset data + data.size) % 2 ^ 64 < armKernelSize ∧
    (loadOffset data + imageSize data) % 2 ^ 64 < armKernelSize

/-- The file is not empty, and a kernel that is let through is not so because a sum has wrapped. -/
structure KernelSound (data : BootFile) : Prop where
  nonempty : 0 < data.size
  noWrap : imageMagic data = 0x644d5241 → SumsPass data →
    loadOffset data + data.size < 2 ^ 64 ∧ loadOffset data + imageSize data < 2 ^ 64

section Kernel

variable {v : ArmVm} {data : BootFile}

theorem vmArchLoadImage_invalid (h : 0 < data.size) (hmagic : imageMagic data ≠ 0x644d5241) :
    vmArchLoadImage v data = .ok (-1, v) := by
  have hfield : data.load magicOff 4 = .ok (imageMagic data) := BootFile.load_first h (by decide)
  rw [vmArchLoadImage, hfield, ok_bind, if_pos hmagic]
  rfl

/-- The call on a file with the magic number, from its comparisons on. -/
theorem vmArchLoadImage_eq (h : 0 < data.size) (hmagic : imageMagic data = 0x644d5241) :
    vmArchLoadImage v data =
      if (loadOffset data + data.size) % 2 ^ 64 ≥ armKernelSize ∨
          (loadOffset data + imageSize data) % 2 ^ 64 ≥ armKernelSize then
        .ok (-1, v)
      else do
        let ram ← v.ram.write (vmGuestToHost v.ram ((armKernelBase + loadOffset data) % 2 ^ 64))
          (slice data.bytes 0 data.size)
        return (0, { v with
          mem := ram.bytes
          entry := (armKernelBase + loadOffset data) % 2 ^ 64 }) := by
  have hoffset : imageOffset data (imageSize data) = .ok (loadOffset data) := by
    unfold imageOffset loadOffset
    split
    · rfl
    · exact BootFile.load_first h (by decide)
  have hfirst : data.load magicOff 4 = .ok (imageMagic data) := BootFile.load_first h (by decide)
  have hfield : data.load imageSizeOff 8 = .ok (imageSize data) := BootFile.load_first h (by decide)
  rw [vmArchLoadImage, hfirst, ok_bind, if_neg (fun hne => hne hmagic), hfield, ok_bind, hoffset,
    ok_bind, BootFile.read_all, ok_bind]
  rfl

theorem vmArchLoadImage_large (h : 0 < data.size) (hmagic : imageMagic data = 0x644d5241)
    (hsums : ¬ SumsPass data) :
    vmArchLoadImage v data = .ok (-1, v) := by
  rw [vmArchLoadImage_eq h hmagic, if_pos]
  unfold SumsPass at hsums
  omega

theorem vmArchLoadImage_pass (h : 0 < data.size) (hmagic : imageMagic data = 0x644d5241)
    (hsums : SumsPass data) :
    vmArchLoadImage v data = do
      let ram ← v.ram.write (vmGuestToHost v.ram ((armKernelBase + loadOffset data) % 2 ^ 64))
        (slice data.bytes 0 data.size)
      return (0, { v with
        mem := ram.bytes
        entry := (armKernelBase + loadOffset data) % 2 ^ 64 }) := by
  rw [vmArchLoadImage_eq h hmagic, if_neg]
  unfold SumsPass at hsums
  omega

theorem loadOffset_lt (data : BootFile) : loadOffset data < 2 ^ 64 := by
  unfold loadOffset
  split
  · decide
  · exact getLE_lt data.bytes textOffsetOff 8

theorem guestToHost_ram (v : ArmVm) (k : Nat) : vmGuestToHost v.ram (ramBase + k) = some k := by
  have hlow : ¬ ramBase + k < v.ram.base := Nat.not_lt_of_le (Nat.le_add_right ramBase k)
  have hhost : ramBase + k - v.ram.base = k := Nat.add_sub_cancel_left ramBase k
  rw [vmGuestToHost, if_neg hlow, hhost]

/-- A copy into guest memory. -/
theorem write_ram (v : ArmVm) {k : Nat} {bs : List UInt8} (h : k + bs.length ≤ ramSize) :
    v.ram.write (vmGuestToHost v.ram (ramBase + k)) bs = .ok ⟨ramBase, patch v.mem k bs⟩ := by
  rw [guestToHost_ram, Ram.write_ok h]
  rfl

/-- A kernel that is let through is copied to where it wants to be. -/
theorem vmArchLoadImage_copies (v : ArmVm) (h : 0 < data.size)
    (hmagic : imageMagic data = 0x644d5241) (hsums : SumsPass data)
    (hlt : loadOffset data + data.size < armKernelSize) :
    vmArchLoadImage v data = .ok (0, { v with
      mem := patch v.mem (loadOffset data) (slice data.bytes 0 data.size)
      entry := ramBase + loadOffset data }) := by
  have hentry : (armKernelBase + loadOffset data) % 2 ^ 64 = ramBase + loadOffset data := by
    refine Nat.mod_eq_of_lt ?_
    simp only [armKernelSize] at hlt
    simp only [armKernelBase, ramBase]
    omega
  have hroom : armKernelSize ≤ ramSize := by decide
  rw [vmArchLoadImage_pass h hmagic hsums, hentry, write_ram v (by rw [slice_length]; omega),
    ok_bind]
  simp only [pure, Except.pure]

/-- A sum with the size of the file that has wrapped: the destination is NULL or far behind guest
memory. -/
theorem vmArchLoadImage_wraps (h : 0 < data.size) (hmagic : imageMagic data = 0x644d5241)
    (hsums : SumsPass data) (hsize : 2 ^ 64 ≤ loadOffset data + data.size) (r : Int × ArmVm) :
    vmArchLoadImage v data ≠ .ok r := by
  intro hload
  have hlt := data.size_lt
  have hoff := loadOffset_lt data
  rw [vmArchLoadImage_pass h hmagic hsums] at hload
  obtain ⟨ram, hwrite, -⟩ := bind_eq_ok.mp hload
  have hne : slice data.bytes 0 data.size ≠ [] := by
    intro hnil
    have hlen := congrArg List.length hnil
    rw [slice_length, List.length_nil] at hlen
    omega
  unfold vmGuestToHost at hwrite
  split at hwrite
  · rw [Ram.write, if_neg hne] at hwrite
    cases hwrite
  · rename_i hhigh
    have hend := (Ram.write_inv hwrite).2 hne
    rw [slice_length] at hend
    simp only [ArmVm.ram, ramSize, armKernelBase, ramBase] at hend hhigh
    omega

theorem kernelPlaced_iff (v : ArmVm) {off : Nat} (hlt : off + data.size < armKernelSize) :
    KernelPlaced v data
      { v with
        mem := patch v.mem off (slice data.bytes 0 data.size)
        entry := ramBase + off } ↔
      off + imageSize data ≤ armKernelSize := by
  have hhost : ramBase + off - ramBase = off := Nat.add_sub_cancel_left ramBase off
  constructor
  · intro hp
    have hextent : ramBase + off + imageSize data ≤ ramBase + armKernelSize := hp.extent
    omega
  · intro hextent
    refine ⟨Nat.le_add_right ramBase off, ?_, ?_, ?_, ?_, rfl⟩
    · show ramBase + off + data.size ≤ ramBase + armKernelSize
      omega
    · show ramBase + off + imageSize data ≤ ramBase + armKernelSize
      omega
    · show slice (patch v.mem off (slice data.bytes 0 data.size))
        (ramBase + off - ramBase) data.size = _
      rw [hhost]
      exact slice_copy v.mem data.bytes 0 off data.size
    · intro p hp
      have hout : ¬ Span.Has ⟨ramBase + off - ramBase, data.size⟩ p := hp
      rw [hhost] at hout
      exact patch_slice_out hout

/-- A kernel that is let through and copied: what is left to ask is that its extent has not
wrapped. -/
theorem kernelRight_copied (v : ArmVm) (h : 0 < data.size) (hmagic : imageMagic data = 0x644d5241)
    (hsums : SumsPass data) (hsize : loadOffset data + data.size < 2 ^ 64) :
    KernelRight v data ↔ loadOffset data + imageSize data < 2 ^ 64 := by
  have hlt : loadOffset data + data.size < armKernelSize := by
    have hpass := hsums.1
    rwa [Nat.mod_eq_of_lt hsize] at hpass
  have hload := vmArchLoadImage_copies v h hmagic hsums hlt
  have hplaced := kernelPlaced_iff v hlt
  constructor
  · intro hright
    have hextent := hplaced.mp (hright.placed hload)
    exact Nat.lt_of_le_of_lt hextent (by decide)
  · intro hextent
    have hpass := hsums.2
    rw [Nat.mod_eq_of_lt hextent] at hpass
    exact ⟨0, _, hload, .inl ⟨rfl, hplaced.mpr (Nat.le_of_lt hpass)⟩⟩

/-- **The kernel** is placed or rejected exactly when it is sound. -/
theorem kernelRight_iff (v : ArmVm) (data : BootFile) : KernelRight v data ↔ KernelSound data := by
  rcases Nat.eq_zero_or_pos data.size with h0 | h
  · constructor
    · rintro ⟨ret, v', hload, -⟩
      rw [vmArchLoadImage, BootFile.load_empty h0 (by decide)] at hload
      cases hload
    · intro hs
      exact absurd hs.nonempty (by omega)
  by_cases hmagic : imageMagic data = 0x644d5241
  · by_cases hsums : SumsPass data
    · by_cases hsize : loadOffset data + data.size < 2 ^ 64
      · rw [kernelRight_copied v h hmagic hsums hsize]
        exact ⟨fun hextent => ⟨h, fun _ _ => ⟨hsize, hextent⟩⟩,
          fun hs => (hs.noWrap hmagic hsums).2⟩
      · constructor
        · rintro ⟨ret, v', hload, -⟩
          exact absurd hload (vmArchLoadImage_wraps h hmagic hsums (by omega) _)
        · intro hs
          exact absurd (hs.noWrap hmagic hsums).1 hsize
    · refine iff_of_true ?_ ⟨h, fun _ hpass => absurd hpass hsums⟩
      exact ⟨-1, v, vmArchLoadImage_large h hmagic hsums, .inr ⟨by decide, rfl⟩⟩
  · refine iff_of_true ?_ ⟨h, fun hm => absurd hm hmagic⟩
    exact ⟨-1, v, vmArchLoadImage_invalid h hmagic, .inr ⟨by decide, rfl⟩⟩

end Kernel

/-! ## The initrd -/

structure InitrdPlaced (v : ArmVm) (data : BootFile) (v' : ArmVm) : Prop where
  inside : armInitrdBase + data.size ≤ armInitrdBase + armInitrdSize
  size : v'.initrdsz = data.size
  bytes : slice v'.mem (armInitrdBase - ramBase) data.size = slice data.bytes 0 data.size
  frame : ∀ p, ¬ Span.Has ⟨armInitrdBase - ramBase, data.size⟩ p → v'.mem p = v.mem p
  rest : v' = { v with mem := v'.mem, initrdsz := v'.initrdsz }

def InitrdRight (v : ArmVm) (data : BootFile) : Prop :=
  PlacedOrRefused v (InitrdPlaced v data) (vmArchLoadInitrd v data)

theorem vmArchLoadInitrd_ok (v : ArmVm) {data : BootFile}
    (h : armKernelSize + data.size ≤ ramSize) :
    vmArchLoadInitrd v data = .ok (0, { v with
      mem := patch v.mem armKernelSize (slice data.bytes 0 data.size)
      initrdsz := data.size }) := by
  have hbase : armInitrdBase = ramBase + armKernelSize := rfl
  rw [vmArchLoadInitrd, hbase, BootFile.read_all, ok_bind,
    write_ram v (by rw [slice_length]; exact h), ok_bind]
  simp only [pure, Except.pure]

/-- The loader refuses nothing. -/
theorem vmArchLoadInitrd_ret {v v' : ArmVm} {data : BootFile} {ret : Int}
    (h : vmArchLoadInitrd v data = .ok (ret, v')) : ret = 0 := by
  obtain ⟨bytes, -, h⟩ := bind_eq_ok.mp h
  obtain ⟨ram, -, h⟩ := bind_eq_ok.mp h
  cases h
  rfl

/-- **The initrd** is placed exactly when it fits its region. -/
theorem initrdRight_iff (v : ArmVm) (data : BootFile) :
    InitrdRight v data ↔ data.size ≤ armInitrdSize := by
  constructor
  · rintro ⟨ret, v', h, ⟨-, hp⟩ | ⟨hne, -⟩⟩
    · have hinside := hp.inside
      omega
    · exact absurd (vmArchLoadInitrd_ret h) hne
  · intro hle
    have hroom : armKernelSize + armInitrdSize ≤ ramSize := by decide
    have hhost : armInitrdBase - ramBase = armKernelSize := by decide
    refine ⟨0, _, vmArchLoadInitrd_ok v (by omega), .inl ⟨rfl, by omega, rfl, ?_, ?_, rfl⟩⟩
    · rw [hhost]
      exact slice_copy v.mem data.bytes 0 armKernelSize data.size
    · intro p hp
      rw [hhost] at hp
      exact patch_slice_out hp

/-! ## The device tree -/

theorem storeBytes_changed {a : Nat} (ha : a + fdtMaxSize ≤ ramSize)
    (stores : List (Fin fdtMaxSize × UInt8)) :
    ∀ ram : Ram, ∃ ram', storeBytes (some a) stores ram = .ok ram' ∧
      Ram.Changed (some a) fdtMaxSize ram ram' := by
  induction stores with
  | nil =>
    intro ram
    exact ⟨ram, rfl, .refl⟩
  | cons x stores ih =>
    intro ram
    obtain ⟨k, b⟩ := x
    have hk := k.isLt
    have hptr : Ptr.plus (some a) k = some (a + k) := plus_ram (by omega)
    have hwrite : ram.write (some (a + k)) [b] =
        .ok { ram with bytes := patch ram.bytes (a + k) [b] } :=
      Ram.write_ok (by rw [List.length_singleton]; omega)
    obtain ⟨ram', hrest, hchanged⟩ := ih { ram with bytes := patch ram.bytes (a + k) [b] }
    refine ⟨ram', ?_, ?_, ?_⟩
    · rw [storeBytes, hptr, hwrite, ok_bind, hrest]
    · exact hchanged.base
    · intro x hx
      refine (hchanged.frame x hx).trans (patch_out fun hin => hx ⟨a, rfl, ?_⟩)
      simp only [Span.Has, List.length_singleton] at hin ⊢
      omega

theorem run_changed (lib : Libfdt) {a : Nat} (ha : a + fdtMaxSize ≤ ramSize)
    (calls : List FdtCall) :
    ∀ ram : Ram, ∃ ret ram', lib.run (some a) calls ram = .ok (ret, ram') ∧
      Ram.Changed (some a) fdtMaxSize ram ram' := by
  induction calls with
  | nil =>
    intro ram
    exact ⟨0, ram, rfl, .refl⟩
  | cons call calls ih =>
    intro ram
    obtain ⟨ram₁, hstore, hchanged⟩ :=
      storeBytes_changed ha (lib.act call (bufferAt ram (some a))).2 ram
    by_cases hret : 0 ≤ (lib.act call (bufferAt ram (some a))).1
    · obtain ⟨ret, ram', hrun, hchanged'⟩ := ih ram₁
      refine ⟨ret, ram', ?_, hchanged.trans hchanged'⟩
      simp only [Libfdt.run, hstore, ok_bind, if_pos hret, hrun]
    · refine ⟨-1, ram₁, ?_, hchanged⟩
      simp only [Libfdt.run, hstore, ok_bind, if_neg hret]
      rfl

/-- **The device tree** is written inside its region, whatever libfdt does there. -/
theorem generateFdt_frame (lib : Libfdt) (mpidr : Option Nat) (v : ArmVm) :
    ∃ ret v', generateFdt lib mpidr v = .ok (ret, v') ∧ v' = { v with mem := v'.mem } ∧
      ∀ p, ¬ Span.Has ⟨armFdtBase - ramBase, fdtMaxSize⟩ p → v'.mem p = v.mem p := by
  have hfdt : vmGuestToHost v.ram armFdtBase = some (armFdtBase - ramBase) :=
    guestToHost_ram v (armFdtBase - ramBase)
  have hroom : armFdtBase - ramBase + fdtMaxSize ≤ ramSize := by decide
  have hframe : ∀ {ram ram' : Ram}, Ram.Changed (some (armFdtBase - ramBase)) fdtMaxSize ram ram' →
      ∀ p, ¬ Span.Has ⟨armFdtBase - ramBase, fdtMaxSize⟩ p → ram'.bytes p = ram.bytes p := by
    intro ram ram' hc p hp
    refine hc.frame p ?_
    rintro ⟨a, ha, hin⟩
    rw [← Option.some.inj ha] at hin
    exact hp hin
  obtain ⟨ret, ram₁, hhead, hchanged⟩ := run_changed lib hroom (fdtHead v) v.ram
  rw [generateFdt, hfdt, hhead, ok_bind]
  by_cases hret : ret < 0
  · refine ⟨ret, { v with mem := ram₁.bytes }, ?_, rfl, hframe hchanged⟩
    simp only [if_pos hret]
    rfl
  · simp only [if_neg hret]
    cases mpidr with
    | none => exact ⟨_, { v with mem := ram₁.bytes }, rfl, rfl, hframe hchanged⟩
    | some reg =>
      obtain ⟨ret', ram₂, htail, hchanged'⟩ :=
        run_changed lib hroom (fdtTail v (reg &&& armMpidrBitmask)) ram₁
      refine ⟨ret', { v with mem := ram₂.bytes }, ?_, rfl, hframe (hchanged.trans hchanged')⟩
      simp only [htail, ok_bind]
      rfl

/-! ## The layout -/

def kernelSpan (v : ArmVm) (kernel : BootFile) : Span :=
  ⟨v.entry, max kernel.size (imageSize kernel)⟩
def initrdSpan (v : ArmVm) : Span := ⟨armInitrdBase, v.initrdsz⟩
def fdtSpan : Span := ⟨armFdtBase, fdtMaxSize⟩

def InRam (s : Span) : Prop := ramBase ≤ s.lo ∧ s.lo + s.len ≤ ramBase + ramSize

/-- Kernel, initrd and device tree have each their own part of guest memory, and the first two are
as in their files. -/
structure BootLaid (v : ArmVm) (kernel initrd : BootFile) : Prop where
  kernelInitrd : (kernelSpan v kernel).Apart (initrdSpan v)
  kernelFdt : (kernelSpan v kernel).Apart fdtSpan
  initrdFdt : (initrdSpan v).Apart fdtSpan
  inRam : InRam (kernelSpan v kernel) ∧ InRam (initrdSpan v) ∧ InRam fdtSpan
  initrdSize : v.initrdsz = initrd.size
  kernelBytes : slice v.mem (v.entry - ramBase) kernel.size = slice kernel.bytes 0 kernel.size
  initrdBytes : slice v.mem (armInitrdBase - ramBase) initrd.size = slice initrd.bytes 0 initrd.size

/-- What the two loaders place is laid out. -/
theorem bootLaid {v v₁ v₂ : ArmVm} {kernel initrd : BootFile} (hk : KernelPlaced v kernel v₁)
    (hi : InitrdPlaced v₁ initrd v₂) : BootLaid v₂ kernel initrd := by
  have hentry : v₂.entry = v₁.entry := by rw [hi.rest]
  have hkernelEnd : v₂.entry + max kernel.size (imageSize kernel) ≤ armInitrdBase := by
    have hbase : armInitrdBase = armKernelBase + armKernelSize := rfl
    have hcopied := hk.copied
    have hextent := hk.extent
    omega
  have hinitrdEnd : armInitrdBase + v₂.initrdsz ≤ armFdtBase := by
    rw [hi.size]
    exact hi.inside
  have hlow : ramBase ≤ v₂.entry := by
    rw [hentry]
    exact hk.low
  have hinitrd : armInitrdBase ≤ armFdtBase := by decide
  have hroom : armFdtBase + fdtMaxSize ≤ ramBase + ramSize := by decide
  refine ⟨?_, ?_, ?_, ⟨⟨hlow, ?_⟩, ⟨?_, ?_⟩, ⟨?_, hroom⟩⟩, hi.size, ?_, hi.bytes⟩
  · exact Span.apart_of_le hkernelEnd
  · exact Span.apart_of_le (Nat.le_trans hkernelEnd hinitrd)
  · exact Span.apart_of_le hinitrdEnd
  · exact Nat.le_trans hkernelEnd (by decide)
  · exact (by decide : ramBase ≤ armInitrdBase)
  · exact Nat.le_trans hinitrdEnd (by decide)
  · exact (by decide : ramBase ≤ armFdtBase)
  · rw [hentry, slice_frame hi.frame, hk.bytes]
    refine Span.apart_of_le ?_
    simp only
    omega

/-- Writing the device tree leaves the layout as it is. -/
theorem BootLaid.generateFdt {v : ArmVm} {kernel initrd : BootFile} (h : BootLaid v kernel initrd)
    (lib : Libfdt) (mpidr : Option Nat) :
    ∃ ret v', Arm64.generateFdt lib mpidr v = .ok (ret, v') ∧ BootLaid v' kernel initrd := by
  obtain ⟨ret, v', hgen, hrest, hframe⟩ := generateFdt_frame lib mpidr v
  have hentry : v'.entry = v.entry := by rw [hrest]
  have hsize : v'.initrdsz = v.initrdsz := by rw [hrest]
  have hkspan : kernelSpan v' kernel = kernelSpan v kernel := by rw [kernelSpan, kernelSpan, hentry]
  have hispan : initrdSpan v' = initrdSpan v := by rw [initrdSpan, initrdSpan, hsize]
  refine ⟨ret, v', hgen, ?_, ?_, ?_, ?_, hsize.trans h.initrdSize, ?_, ?_⟩
  · rw [hkspan, hispan]
    exact h.kernelInitrd
  · rw [hkspan]
    exact h.kernelFdt
  · rw [hispan]
    exact h.initrdFdt
  · rw [hkspan, hispan]
    exact h.inRam
  · rw [hentry, slice_frame hframe, h.kernelBytes]
    have hapart := h.kernelFdt
    have hlow := h.inRam.1.1
    simp only [kernelSpan, fdtSpan, Span.Apart] at hapart hlow ⊢
    have hfdt : ramBase ≤ armFdtBase := by decide
    omega
  · rw [slice_frame hframe, h.initrdBytes]
    have hapart := h.initrdFdt
    simp only [initrdSpan, fdtSpan, Span.Apart, h.initrdSize] at hapart ⊢
    have hfdt : ramBase ≤ armFdtBase := by decide
    have hinitrd : ramBase ≤ armInitrdBase := by decide
    omega

/-- An initrd that leaves its region is copied over the place of the device tree. -/
theorem vmArchLoadInitrd_over (v : ArmVm) {data : BootFile} (h : armInitrdSize < data.size)
    (hroom : armKernelSize + data.size ≤ ramSize) :
    ∃ v', vmArchLoadInitrd v data = .ok (0, v') ∧ ¬ (initrdSpan v').Apart fdtSpan ∧
      v'.mem (armFdtBase - ramBase) = data.bytes armInitrdSize := by
  refine ⟨_, vmArchLoadInitrd_ok v hroom, ?_, ?_⟩
  · have hfdt : armFdtBase = armInitrdBase + armInitrdSize := rfl
    simp only [Span.Apart, initrdSpan, fdtSpan, hfdt, fdtMaxSize]
    omega
  · have hhost : armFdtBase - ramBase = armKernelSize + armInitrdSize := by decide
    have hbyte := patch_slice_in v.mem data.bytes 0 armKernelSize h
    rw [Nat.zero_add] at hbyte
    rw [hhost]
    exact hbyte

/-- Each loader places its file or refuses it, and what both have placed is laid out, also once the
device tree is there. -/
structure LayoutRight (v : ArmVm) (kernel initrd : BootFile) : Prop where
  kernelRight : KernelRight v kernel
  initrdRight : ∀ w, InitrdRight w initrd
  laid : ∀ v₁ v₂, vmArchLoadImage v kernel = .ok (0, v₁) →
    vmArchLoadInitrd v₁ initrd = .ok (0, v₂) →
    BootLaid v₂ kernel initrd ∧
    ∀ lib mpidr, ∃ ret v₃, generateFdt lib mpidr v₂ = .ok (ret, v₃) ∧ BootLaid v₃ kernel initrd

end Arm64

open Arm64

/-- **The arm64 boot layout.** Kernel and initrd are put inside their regions or refused, and stay
apart from each other and from the device tree, exactly for an initrd that fits its region and a
kernel whose sums do not wrap. -/
theorem arm64_boot_layout (v : ArmVm) (kernel initrd : BootFile) :
    LayoutRight v kernel initrd ↔ KernelSound kernel ∧ initrd.size ≤ armInitrdSize := by
  constructor
  · intro h
    exact ⟨(kernelRight_iff v kernel).mp h.kernelRight,
      (initrdRight_iff v initrd).mp (h.initrdRight v)⟩
  · rintro ⟨hsound, hsize⟩
    have hkernel := (kernelRight_iff v kernel).mpr hsound
    have hright : ∀ w, InitrdRight w initrd := fun w => (initrdRight_iff w initrd).mpr hsize
    refine ⟨hkernel, hright, fun v₁ v₂ hload hinitrd => ?_⟩
    have hlaid := bootLaid (hkernel.placed hload) ((hright v₁).placed hinitrd)
    exact ⟨hlaid, hlaid.generateFdt⟩

namespace Arm64

/-! ## Files that break it -/

def headerBytes (textOffset imageSize : Nat) : Store :=
  putLE (putLE (putLE (fun _ => 0) textOffsetOff 8 textOffset) imageSizeOff 8 imageSize) magicOff 4
    0x644d5241

theorem headerBytes_zeros (textOffset imageSize p : Nat) (hp : 64 ≤ p) :
    headerBytes textOffset imageSize p = 0 := by
  have hout : ∀ {a n}, a + n ≤ 64 → ¬ Span.Has ⟨a, n⟩ p := fun h => Span.not_has_of_end hp h
  unfold headerBytes
  rw [putLE_out (hout (by decide)), putLE_out (hout (by decide)), putLE_out (hout (by decide))]

/-- A header with zeros behind it. -/
def bareKernel (textOffset imageSize size : Nat) (hlow : 64 ≤ size) (hlt : size < 2 ^ 63) :
    BootFile :=
  ⟨size, headerBytes textOffset imageSize, hlt,
    fun p hp => headerBytes_zeros textOffset imageSize p (Nat.le_trans hlow hp)⟩

section BareKernel

variable (textOffset size₀ size : Nat) (hlow : 64 ≤ size) (hlt : size < 2 ^ 63)

theorem imageMagic_bareKernel :
    imageMagic (bareKernel textOffset size₀ size hlow hlt) = 0x644d5241 :=
  getLE_putLE_same _ magicOff 4 0x644d5241

theorem imageSize_bareKernel :
    imageSize (bareKernel textOffset size₀ size hlow hlt) = size₀ % 2 ^ 64 := by
  show getLE (headerBytes textOffset size₀) imageSizeOff 8 = _
  unfold headerBytes
  rw [getLE_putLE_apart (by decide), getLE_putLE_same]
  rfl

theorem loadOffset_bareKernel (h : size₀ % 2 ^ 64 ≠ 0) :
    loadOffset (bareKernel textOffset size₀ size hlow hlt) = textOffset % 2 ^ 64 := by
  rw [loadOffset, imageSize_bareKernel, if_neg h]
  show getLE (headerBytes textOffset size₀) textOffsetOff 8 = _
  unfold headerBytes
  rw [getLE_putLE_apart (by decide), getLE_putLE_apart (by decide), getLE_putLE_same]
  rfl

end BareKernel

def blankVm : ArmVm := ⟨fun _ => 0, 0, 0, .v3, 0⟩

/-- Its declared extent ends far behind the region; the sum wraps to 0x70000. -/
def vastKernel : BootFile := bareKernel 0x80000 (2 ^ 64 - 0x10000) 64 (by decide) (by decide)

theorem vastKernel_magic : imageMagic vastKernel = 0x644d5241 := imageMagic_bareKernel _ _ _ _ _
theorem vastKernel_size : imageSize vastKernel = 2 ^ 64 - 0x10000 := imageSize_bareKernel _ _ _ _ _
theorem vastKernel_offset : loadOffset vastKernel = 0x80000 :=
  loadOffset_bareKernel _ _ _ _ _ (by decide)

theorem vastKernel_sums : SumsPass vastKernel := by
  rw [SumsPass, vastKernel_size, vastKernel_offset]
  decide

/-- It wants to be 1000 bytes below the region. -/
def lowKernel : BootFile := bareKernel (2 ^ 64 - 1000) 0x1000 2000 (by decide) (by decide)

theorem lowKernel_magic : imageMagic lowKernel = 0x644d5241 := imageMagic_bareKernel _ _ _ _ _
theorem lowKernel_offset : loadOffset lowKernel = 2 ^ 64 - 1000 :=
  loadOffset_bareKernel _ _ _ _ _ (by decide)

theorem lowKernel_sums : SumsPass lowKernel := by
  have hsize : imageSize lowKernel = 0x1000 := imageSize_bareKernel _ _ _ _ _
  rw [SumsPass, hsize, lowKernel_offset]
  decide

/-- One byte more than the region has. -/
def wideInitrd : BootFile :=
  ⟨armInitrdSize + 1, fun p => if p < armInitrdSize + 1 then 0xff else 0, by decide,
    fun _ hp => if_neg (Nat.not_lt_of_le hp)⟩

end Arm64

/-- A kernel is accepted though its extent leaves the region, another is copied to NULL instead of
being refused, an empty one is read all the same, and an initrd is copied over the place of the
device tree. -/
theorem arm64_boot_layout_broken :
    ((∃ v', vmArchLoadImage blankVm vastKernel = .ok (0, v') ∧
        armKernelBase + armKernelSize < v'.entry + imageSize vastKernel) ∧
      ∀ initrd, ¬ LayoutRight blankVm vastKernel initrd) ∧
    (vmArchLoadImage blankVm lowKernel = .error .null ∧ ∀ initrd,
      ¬ LayoutRight blankVm lowKernel initrd) ∧
    (vmArchLoadImage blankVm (zeroFile 0 (by decide)) = .error .smash ∧
      ∀ initrd, ¬ LayoutRight blankVm (zeroFile 0 (by decide)) initrd) ∧
    ((∃ v', vmArchLoadInitrd blankVm wideInitrd = .ok (0, v') ∧ ¬ (initrdSpan v').Apart fdtSpan ∧
        v'.mem (armFdtBase - ramBase) = 0xff) ∧
      ∀ kernel, ¬ LayoutRight blankVm kernel wideInitrd) := by
  refine ⟨⟨?_, fun initrd h => ?_⟩, ⟨?_, fun initrd h => ?_⟩, ⟨?_, fun initrd h => ?_⟩,
    ⟨?_, fun kernel h => ?_⟩⟩
  · refine ⟨_, vmArchLoadImage_copies blankVm (by decide) vastKernel_magic vastKernel_sums ?_, ?_⟩
    · rw [vastKernel_offset]
      decide
    · show armKernelBase + armKernelSize < ramBase + loadOffset vastKernel + imageSize vastKernel
      rw [vastKernel_offset, vastKernel_size]
      decide
  · have hwrap :=
      (((kernelRight_iff _ _).mp h.kernelRight).noWrap vastKernel_magic vastKernel_sums).2
    rw [vastKernel_offset, vastKernel_size] at hwrap
    exact absurd hwrap (by decide)
  · have hdest : vmGuestToHost blankVm.ram ((armKernelBase + loadOffset lowKernel) % 2 ^ 64) =
        none := by
      rw [lowKernel_offset]
      decide
    rw [vmArchLoadImage_pass (by decide) lowKernel_magic lowKernel_sums, hdest]
    rfl
  · have hwrap := (((kernelRight_iff _ _).mp h.kernelRight).noWrap lowKernel_magic lowKernel_sums).1
    rw [lowKernel_offset] at hwrap
    exact absurd hwrap (by decide)
  · rw [vmArchLoadImage, BootFile.load_empty rfl (by decide)]
    rfl
  · exact absurd ((kernelRight_iff _ _).mp h.kernelRight).nonempty (by decide)
  · have hlarge : armInitrdSize < wideInitrd.size := by decide
    obtain ⟨v', hload, hapart, hbyte⟩ := vmArchLoadInitrd_over blankVm hlarge (by decide)
    refine ⟨v', hload, hapart, hbyte.trans ?_⟩
    show (if armInitrdSize < armInitrdSize + 1 then (0xff : UInt8) else 0) = 0xff
    exact if_pos (Nat.lt_succ_self armInitrdSize)
  · exact absurd ((initrdRight_iff blankVm wideInitrd).mp (h.initrdRight blankVm)) (by decide)

end KvmHost
