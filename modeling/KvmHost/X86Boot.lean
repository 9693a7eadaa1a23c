import KvmHost.BootFile
import KvmHost.Lib.Masks
import Mathlib.Data.Nat.Find

/-!
# KvmHost.X86Boot

Loading a kernel and an initrd on x86-64.

`vm_arch_load_image` copies the setup header of the kernel file into `boot_params` and the rest of
the file to 1 MiB; `vm_arch_load_initrd` takes `initrd_addr_max` from that header and looks for a
place, one megabyte down at a time. The search stops at the first address it likes:
`initrdSearch_eq` says that this is the greatest one, and `initrdAt` is the address in closed form.
`initrd_placement` says when the place it finds is a good one.
-/

namespace KvmHost

open ByteStore

def Ram.memset (ram : Ram) (p : Ptr) (n : Nat) : Except Stop Ram := ram.write p (List.replicate n 0)

/-! ## `vm_arch_load_image` -/

-- where `boot`, `cmdline` and `kernel` point, from `v->mem`
def bootAt : Nat := 0x10000
def cmdlineAt : Nat := 0x20000
def kernelAt : Nat := 0x100000

/-! `struct boot_params` and its `hdr` -/

def bootParamsSize : Nat := 4096
def e820EntriesOff : Nat := 0x1e8
def hdrOff : Nat := 0x1f1
def setupHeaderSize : Nat := 123
def e820TableOff : Nat := 0x2d0

def setupSectsOff : Nat := 0x1f1
def vidModeOff : Nat := 0x1fa
def typeOfLoaderOff : Nat := 0x210
def loadflagsOff : Nat := 0x211
def ramdiskImageOff : Nat := 0x218
def ramdiskSizeOff : Nat := 0x21c
def heapEndPtrOff : Nat := 0x224
def extLoaderVerOff : Nat := 0x226
def cmdLinePtrOff : Nat := 0x228
def initrdAddrMaxOff : Nat := 0x22c
def cmdlineSizeOff : Nat := 0x238

-- `CAN_USE_HEAP | 0x01 | KEEP_SEGMENTS`
def loadFlags : Nat := 0x80 ||| 0x01 ||| 0x40

-- `KERNEL_OPTS` with its NUL: "console=ttyS0 pci=conf1"
def kernelOpts : List UInt8 :=
  [99, 111, 110, 115, 111, 108, 101, 61, 116, 116, 121, 83, 48, 32, 112, 99, 105, 61, 99, 111, 110,
    102, 49, 0]

def isaStartAddress : Nat := 0xa0000
def isaEndAddress : Nat := 0x100000
def e820Ram : Nat := 1

/-- `struct boot_e820_entry` -/
def e820Entry (addr size type : Nat) : List UInt8 := toLE 8 addr ++ toLE 8 size ++ toLE 4 type

-- the zeroed `boot_params` with the setup header of the file
def loadSetupHeader (ram : Ram) (data : BootFile) : Except Stop Ram := do
  let ram ← ram.memset (some bootAt) bootParamsSize
  let hdr ← data.read hdrOff setupHeaderSize
  ram.write (some (bootAt + hdrOff)) hdr

def setHeaderFields (ram : Ram) : Except Stop Ram := do
  let ram ← ram.store (some (bootAt + vidModeOff)) 2 0xFFFF
  let ram ← ram.store (some (bootAt + typeOfLoaderOff)) 1 0xFF
  let loadflags ← ram.load (some (bootAt + loadflagsOff)) 1
  let ram ← ram.store (some (bootAt + loadflagsOff)) 1 (loadflags ||| loadFlags)
  let ram ← ram.store (some (bootAt + heapEndPtrOff)) 2 0xFE00
  let ram ← ram.store (some (bootAt + extLoaderVerOff)) 1 0x0
  ram.store (some (bootAt + cmdLinePtrOff)) 4 0x20000

def loadCmdline (ram : Ram) : Except Stop Ram := do
  let cmdlineSize ← ram.load (some (bootAt + cmdlineSizeOff)) 4
  let ram ← ram.memset (some cmdlineAt) cmdlineSize
  ram.write (some cmdlineAt) kernelOpts

def loadKernel (ram : Ram) (data : BootFile) (setupsz : Nat) : Except Stop Ram := do
  let kernel ← data.read setupsz (sizeSub data.size setupsz)
  ram.write (some kernelAt) kernel

def setE820 (ram : Ram) : Except Stop Ram := do
  let ram ← ram.write (some (bootAt + e820TableOff)) (e820Entry 0x0 (isaStartAddress - 1) e820Ram)
  let ram ← ram.write (some (bootAt + e820TableOff + 20))
    (e820Entry isaEndAddress (ramSize - isaEndAddress) e820Ram)
  ram.store (some (bootAt + e820EntriesOff)) 1 2

def vmArchLoadImage (ram : Ram) (data : BootFile) : Except Stop (Int × Ram) := do
  let ram ← loadSetupHeader ram data
  let setupSectors ← ram.load (some (bootAt + setupSectsOff)) 1
  let setupsz := (setupSectors + 1) * 512
  let ram ← setHeaderFields ram
  let ram ← loadCmdline ram
  let ram ← loadKernel ram data setupsz
  let ram ← setE820 ram
  return (0, ram)

/-! ## `vm_arch_load_initrd` -/

-- the step of the search, and the least address
def mib : Nat := 0x100000

/-- The search loop: `some` address, or `none` for the error. -/
def initrdSearch (datasz : Nat) : Nat → Nat → Except Stop (Option Nat)
  | 0, _ => .error .fuel
  | fuel + 1, addr =>
    if addr < 0x100000 then .ok none
    else if addr < sizeSub ramSize datasz then .ok (some addr)
    else initrdSearch datasz fuel (addr - 0x100000)

-- what follows the loop
def placeInitrd (ram : Ram) (data : BootFile) (addr : Nat) : Except Stop (Int × Ram) := do
  let ram ← ram.memset (some addr) data.size
  let bytes ← data.read 0 data.size
  let ram ← ram.write (some addr) bytes
  let ram ← ram.store (some (bootAt + ramdiskImageOff)) 4 addr
  let ram ← ram.store (some (bootAt + ramdiskSizeOff)) 4 data.size
  return (0, ram)

def vmArchLoadInitrd (fuel : Nat) (ram : Ram) (data : BootFile) : Except Stop (Int × Ram) := do
  let initrdAddrMax ← ram.load (some (bootAt + initrdAddrMaxOff)) 4
  match ← initrdSearch data.size fuel (initrdAddrMax &&& 0xFFF00000) with
  | none => return (-1, ram)
  | some addr => placeInitrd ram data addr

/-- `vm_load_initrd`, of a file that cannot be opened or of one that can. -/
def vmLoadInitrd (fuel : Nat) (ram : Ram) : Option BootFile → Except Stop (Int × Ram)
  | none => .ok (1, ram)
  | some data => vmArchLoadInitrd fuel ram data

/-! ## Where the search ends -/

/-- **The search** finds the greatest megabyte below `RAM_SIZE - datasz`, or none but 0. -/
theorem initrdSearch_eq (datasz : Nat) {i fuel : Nat} (h : i < fuel) :
    initrdSearch datasz fuel (i * mib) =
      .ok (if Nat.findGreatest (fun j => j * mib < sizeSub ramSize datasz) i * mib < mib then none
        else some (Nat.findGreatest (fun j => j * mib < sizeSub ramSize datasz) i * mib)) := by
  induction i generalizing fuel with
  | zero =>
    obtain ⟨fuel, rfl⟩ := Nat.exists_eq_add_of_lt h
    rw [Nat.findGreatest_zero, if_pos (by decide)]
    rfl
  | succ i ih =>
    obtain ⟨fuel, rfl⟩ := Nat.exists_eq_succ_of_ne_zero (Nat.ne_of_gt (Nat.zero_lt_of_lt h))
    have hlow : ¬ (i + 1) * mib < 0x100000 := by
      unfold mib
      omega
    rw [initrdSearch, if_neg hlow]
    by_cases hp : (i + 1) * mib < sizeSub ramSize datasz
    · rw [if_pos hp, Nat.findGreatest_eq (P := fun j => j * mib < sizeSub ramSize datasz) hp,
        if_neg (show ¬ (i + 1) * mib < mib from hlow)]
    · have hdown : (i + 1) * mib - 0x100000 = i * mib := by
        unfold mib
        omega
      rw [if_neg hp, hdown, Nat.findGreatest_of_not
        (P := fun j => j * mib < sizeSub ramSize datasz) hp]
      exact ih (Nat.lt_of_succ_lt_succ h)

theorem greatest_below (lim i : Nat) :
    Nat.findGreatest (fun j => j * mib < lim) i = if lim = 0 then 0
      else min i ((lim - 1) / mib) := by
  split
  · rename_i h0
    rw [Nat.findGreatest_eq_zero_iff]
    intro j _ _
    omega
  · rename_i h0
    refine Nat.findGreatest_eq_iff.mpr ⟨Nat.min_le_left _ _, ?_, ?_⟩
    · intro _
      unfold mib
      omega
    · intro j hj hi
      unfold mib at *
      omega

/-- The address that the search gives; below `mib` it gives none. The difference `RAM_SIZE - datasz`
wraps for a file that is larger than the memory, and every address is below it. -/
def initrdAt (addrMax datasz : Nat) : Nat :=
  if datasz ≤ ramSize then min addrMax (ramSize - 1 - datasz) / mib * mib else addrMax / mib * mib

theorem greatest_initrdAt {addrMax datasz : Nat} (hmax : addrMax < 2 ^ 32)
    (hsize : datasz < 2 ^ 63) :
    Nat.findGreatest (fun j => j * mib < sizeSub ramSize datasz) (addrMax / mib) * mib =
      initrdAt addrMax datasz := by
  rw [greatest_below]
  unfold initrdAt
  by_cases hle : datasz ≤ ramSize
  · rw [sizeSub_eq hle (by decide), if_pos hle]
    split
    · have hnone : min addrMax (ramSize - 1 - datasz) = 0 := by omega
      rw [hnone]
      rfl
    · have hsub : ramSize - datasz - 1 = ramSize - 1 - datasz := by omega
      rw [hsub]
      unfold mib
      omega
  · rw [sizeSub_short (Nat.lt_of_not_le hle), if_neg hle]
    have hpos : 2 ^ 32 ≤ ramSize + 2 ^ 64 - datasz := by omega
    generalize ramSize + 2 ^ 64 - datasz = lim at hpos
    rw [if_neg (by omega)]
    unfold mib
    omega

/-- The search ends within 4096 turns. -/
theorem initrdSearch_at {addrMax datasz fuel : Nat} (hmax : addrMax < 2 ^ 32)
    (hsize : datasz < 2 ^ 63) (hfuel : 4096 ≤ fuel) :
    initrdSearch datasz fuel (addrMax &&& 0xFFF00000) =
      .ok (if initrdAt addrMax datasz < mib then none else some (initrdAt addrMax datasz)) := by
  have hones : 0xFFF00000 = 2 ^ 32 - 2 ^ 20 := by decide
  have hmask : addrMax &&& 0xFFF00000 = addrMax / mib * mib := by
    rw [hones]
    exact Masks.and_high hmax (by decide)
  have hturns : addrMax / mib < fuel := by
    unfold mib
    omega
  rw [hmask, initrdSearch_eq datasz hturns, greatest_initrdAt hmax hsize]

theorem initrdAt_aligned (addrMax datasz : Nat) : initrdAt addrMax datasz % mib = 0 := by
  unfold initrdAt
  split
  · exact Nat.mul_mod_left _ _
  · exact Nat.mul_mod_left _ _

/-- A place in memory for a file that is not larger than it. -/
theorem initrdAt_inside {addrMax datasz : Nat} (hle : datasz ≤ ramSize) :
    initrdAt addrMax datasz + datasz ≤ ramSize := by
  unfold initrdAt mib
  rw [if_pos hle]
  omega

theorem initrdAt_lt {addrMax datasz : Nat} (hmax : addrMax < 2 ^ 32) :
    initrdAt addrMax datasz < 2 ^ 32 := by
  unfold initrdAt mib
  split
  · omega
  · omega

/-! ## Memory after a load -/

theorem Ram.memset_ok {ram : Ram} {a n : Nat} (h : a + n ≤ ramSize) :
    ram.memset (some a) n = .ok { ram with bytes := patch ram.bytes a (List.replicate n 0) } :=
  Ram.write_ok (by simpa using h)

theorem Ram.memset_wild {ram : Ram} {a n : Nat} (h0 : 0 < n) (h : ramSize < a + n) :
    ram.memset (some a) n = .error .wild := by
  unfold Ram.memset Ram.write
  rw [if_neg (by simp; omega)]
  dsimp only
  rw [List.length_replicate, if_neg (by omega)]

namespace BootFile

def setupsz (data : BootFile) : Nat := (getLE data.bytes setupSectsOff 1 + 1) * 512

/-- The bytes behind the setup sectors. -/
def kernelLen (data : BootFile) : Nat := data.size - data.setupsz

def initrdAddrMax (data : BootFile) : Nat := getLE data.bytes initrdAddrMaxOff 4

end BootFile

/-- Guest memory with the kernel of a file: what `vm_arch_load_initrd` finds. -/
structure Loaded (kernel : BootFile) (ram : Ram) : Prop where
  fits : kernelAt + kernel.kernelLen ≤ ramSize
  addrMax : getLE ram.bytes (bootAt + initrdAddrMaxOff) 4 = kernel.initrdAddrMax
  bytes : slice ram.bytes kernelAt kernel.kernelLen =
    slice kernel.bytes kernel.setupsz kernel.kernelLen

section Stages

variable {ram ram' : Ram} {data : BootFile}

theorem loadSetupHeader_field (h : loadSetupHeader ram data = .ok ram') {k n : Nat}
    (hk : k + n ≤ setupHeaderSize) :
    getLE ram'.bytes (bootAt + hdrOff + k) n = getLE data.bytes (hdrOff + k) n := by
  obtain ⟨_, -, h⟩ := bind_eq_ok.mp h
  obtain ⟨hdr, hread, h⟩ := bind_eq_ok.mp h
  obtain ⟨rfl, -⟩ := BootFile.read_inv hread
  obtain ⟨rfl, -⟩ := Ram.write_inv h
  exact getLE_copy _ _ _ _ hk

theorem setHeaderFields_frame (h : setHeaderFields ram = .ok ram') {p : Nat}
    (hp : ¬ Span.Has ⟨bootAt + vidModeOff, 50⟩ p) : ram'.bytes p = ram.bytes p := by
  obtain ⟨_, h1, h⟩ := bind_eq_ok.mp h
  obtain ⟨_, h2, h⟩ := bind_eq_ok.mp h
  obtain ⟨_, -, h⟩ := bind_eq_ok.mp h
  obtain ⟨_, h3, h⟩ := bind_eq_ok.mp h
  obtain ⟨_, h4, h⟩ := bind_eq_ok.mp h
  obtain ⟨_, h5, h⟩ := bind_eq_ok.mp h
  have hout : ∀ a n, bootAt + vidModeOff ≤ a → a + n ≤ bootAt + vidModeOff + 50 →
      ¬ Span.Has ⟨a, n⟩ p := by
    intro a n hlo hend
    exact Span.not_has_of_part hp hlo hend
  rw [Ram.store_frame h (hout _ _ (by decide) (by decide)),
    Ram.store_frame h5 (hout _ _ (by decide) (by decide)),
    Ram.store_frame h4 (hout _ _ (by decide) (by decide)),
    Ram.store_frame h3 (hout _ _ (by decide) (by decide)),
    Ram.store_frame h2 (hout _ _ (by decide) (by decide)),
    Ram.store_frame h1 (hout _ _ (by decide) (by decide))]

theorem loadCmdline_frame (h : loadCmdline ram = .ok ram') {p : Nat} (hp : p < cmdlineAt) :
    ram'.bytes p = ram.bytes p := by
  obtain ⟨_, -, h⟩ := bind_eq_ok.mp h
  obtain ⟨_, h1, h⟩ := bind_eq_ok.mp h
  have hout : ∀ n, ¬ Span.Has ⟨cmdlineAt, n⟩ p := fun n hin => Nat.not_lt_of_le hin.1 hp
  rw [Ram.write_frame h (hout _), Ram.write_frame h1 (hout _)]

/-- The copy of the kernel: `datasz - setupsz` wraps for a file that is shorter than its setup
sectors, and then the copy does not return. -/
theorem loadKernel_inv (h : loadKernel ram data data.setupsz = .ok ram') :
    data.setupsz ≤ data.size ∧ kernelAt + data.kernelLen ≤ ramSize ∧
      ram'.bytes = patch ram.bytes kernelAt (slice data.bytes data.setupsz data.kernelLen) := by
  obtain ⟨kernel, hread, h⟩ := bind_eq_ok.mp h
  obtain ⟨rfl, hin⟩ := BootFile.read_inv hread
  obtain ⟨rfl, hfits⟩ := Ram.write_inv h
  have hlt := data.size_lt
  have hsetup := getLE_lt data.bytes setupSectsOff 1
  by_cases hle : data.setupsz ≤ data.size
  · rw [sizeSub_eq hle (by omega)] at hfits ⊢
    refine ⟨hle, ?_, rfl⟩
    by_cases h0 : data.kernelLen = 0
    · rw [h0]
      decide
    · have hne : slice data.bytes data.setupsz data.kernelLen ≠ [] := by
        intro hnil
        exact h0 (by rw [← slice_length data.bytes data.kernelLen data.setupsz, hnil]; rfl)
      have hend := hfits hne
      rwa [slice_length] at hend
  · have hbound : data.mapLen < data.size + 4096 := by
      unfold BootFile.mapLen BootFile.pageSize
      omega
    rw [sizeSub_short (Nat.lt_of_not_le hle)] at hin
    unfold BootFile.setupsz at hle hin
    omega

theorem setE820_frame (h : setE820 ram = .ok ram') {p : Nat}
    (htable : ¬ Span.Has ⟨bootAt + e820TableOff, 40⟩ p)
    (hentries : ¬ Span.Has ⟨bootAt + e820EntriesOff, 1⟩ p) : ram'.bytes p = ram.bytes p := by
  obtain ⟨_, h1, h⟩ := bind_eq_ok.mp h
  obtain ⟨_, h2, h⟩ := bind_eq_ok.mp h
  have hout : ∀ a n, bootAt + e820TableOff ≤ a → a + n ≤ bootAt + e820TableOff + 40 →
      ¬ Span.Has ⟨a, n⟩ p := by
    intro a n hlo hend
    exact Span.not_has_of_part htable hlo hend
  rw [Ram.store_frame h hentries, Ram.write_frame h2 (hout _ _ (by decide) (by simp [e820Entry])),
    Ram.write_frame h1 (hout _ _ (by decide) (by simp [e820Entry]))]

end Stages

/-- **A kernel that has been loaded.** -/
theorem vmArchLoadImage_loaded {ram₀ ram : Ram} {kernel : BootFile} {ret : Int}
    (h : vmArchLoadImage ram₀ kernel = .ok (ret, ram)) : Loaded kernel ram := by
  obtain ⟨r1, hheader, h⟩ := bind_eq_ok.mp h
  obtain ⟨setupSectors, hsects, h⟩ := bind_eq_ok.mp h
  obtain ⟨r2, hfields, h⟩ := bind_eq_ok.mp h
  obtain ⟨r3, hcmdline, h⟩ := bind_eq_ok.mp h
  obtain ⟨r4, hkernel, h⟩ := bind_eq_ok.mp h
  obtain ⟨r5, he820, h⟩ := bind_eq_ok.mp h
  cases h
  have hsetup : setupSectors = getLE kernel.bytes setupSectsOff 1 := by
    rw [Ram.load_ok (by decide)] at hsects
    cases hsects
    exact loadSetupHeader_field hheader (k := 0) (by decide)
  rw [hsetup] at hkernel
  obtain ⟨-, hfits, hbytes⟩ := loadKernel_inv hkernel
  refine ⟨hfits, ?_, ?_⟩
  · have hkept : ∀ i < 4, ram.bytes (bootAt + initrdAddrMaxOff + i) =
        r1.bytes (bootAt + initrdAddrMaxOff + i) := by
      intro i hi
      have hlow : bootAt + initrdAddrMaxOff + i < cmdlineAt := by
        simp only [bootAt, initrdAddrMaxOff, cmdlineAt]
        omega
      have hnot : ∀ a n, (a + n ≤ bootAt + initrdAddrMaxOff ∨ bootAt + initrdAddrMaxOff + 4 ≤ a) →
          ¬ Span.Has ⟨a, n⟩ (bootAt + initrdAddrMaxOff + i) := by
        intro a n ha hin
        have := hin.1
        have := hin.2
        dsimp only at *
        omega
      rw [setE820_frame he820 (hnot _ _ (by decide)) (hnot _ _ (by decide)), hbytes,
        patch_out (hnot _ _ (by right; decide)), loadCmdline_frame hcmdline hlow,
        setHeaderFields_frame hfields (hnot _ _ (by decide))]
    exact (getLE_congr hkept).trans (loadSetupHeader_field hheader (k := 59) (by decide))
  · have hkept : slice ram.bytes kernelAt kernel.kernelLen =
        slice r4.bytes kernelAt kernel.kernelLen := by
      refine slice_congr fun i _ => ?_
      have hhigh : kernelAt ≤ kernelAt + i := Nat.le_add_right kernelAt i
      exact setE820_frame he820 (Span.not_has_of_end hhigh (by decide))
        (Span.not_has_of_end hhigh (by decide))
    rw [hkept, hbytes]
    exact slice_copy r3.bytes kernel.bytes kernel.setupsz kernelAt kernel.kernelLen

/-- Guest memory with the file at `addr` and the record of it. -/
def initrdBytes (bytes : Store) (data : BootFile) (addr : Nat) : Store :=
  putLE (putLE (patch bytes addr (slice data.bytes 0 data.size)) (bootAt + ramdiskImageOff) 4 addr)
    (bootAt + ramdiskSizeOff) 4 data.size

theorem placeInitrd_ok {ram : Ram} {data : BootFile} {addr : Nat} (h : addr + data.size ≤ ramSize) :
    placeInitrd ram data addr = .ok (0, { ram with bytes := initrdBytes ram.bytes data addr }) := by
  unfold placeInitrd initrdBytes
  rw [Ram.memset_ok h, ok_bind, data.read_all, ok_bind,
    Ram.write_ok (by rw [slice_length]; exact h), ok_bind, Ram.store_ok (by decide), ok_bind,
    Ram.store_ok (by decide), ok_bind]
  rw [patch_patch_same _ _ (by simp)]
  rfl

theorem placeInitrd_wild {ram : Ram} {data : BootFile} {addr : Nat} (h0 : 0 < data.size)
    (h : ramSize < addr + data.size) : placeInitrd ram data addr = .error .wild := by
  unfold placeInitrd
  rw [Ram.memset_wild h0 h, error_bind]

theorem placeInitrd_ret {ram ram' : Ram} {data : BootFile} {addr : Nat} {ret : Int}
    (h : placeInitrd ram data addr = .ok (ret, ram')) : ret = 0 := by
  obtain ⟨_, -, h⟩ := bind_eq_ok.mp h
  obtain ⟨_, -, h⟩ := bind_eq_ok.mp h
  obtain ⟨_, -, h⟩ := bind_eq_ok.mp h
  obtain ⟨_, -, h⟩ := bind_eq_ok.mp h
  obtain ⟨_, -, h⟩ := bind_eq_ok.mp h
  cases h
  rfl

/-! ## Placement -/

/-- The initrd has been put at `addr`, which is where it may be. -/
structure InitrdPlaced (kernel data : BootFile) (addr : Nat) (ram : Ram) : Prop where
  aligned : addr % mib = 0
  low : mib ≤ addr
  inside : addr + data.size ≤ ramSize
  top : addr + data.size ≤ kernel.initrdAddrMax + 1
  apart : Span.Apart ⟨kernelAt, kernel.kernelLen⟩ ⟨addr, data.size⟩
  image : getLE ram.bytes (bootAt + ramdiskImageOff) 4 = addr
  size : getLE ram.bytes (bootAt + ramdiskSizeOff) 4 = data.size
  bytes : slice ram.bytes addr data.size = slice data.bytes 0 data.size
  kernel : slice ram.bytes kernelAt kernel.kernelLen =
    slice kernel.bytes kernel.setupsz kernel.kernelLen

/-- What the search does not look at: that the file is not larger than the memory, the end of the
block, and the kernel. -/
structure Roomy (kernel data : BootFile) : Prop where
  size : data.size ≤ ramSize
  top : initrdAt kernel.initrdAddrMax data.size + data.size ≤ kernel.initrdAddrMax + 1
  apart : Span.Apart ⟨kernelAt, kernel.kernelLen⟩
    ⟨initrdAt kernel.initrdAddrMax data.size, data.size⟩

section Place

variable {ram : Ram} {kernel data : BootFile} {fuel : Nat}

/-- The two ways a call of `vm_arch_load_initrd` goes. -/
theorem vmArchLoadInitrd_eq (hload : Loaded kernel ram) (data : BootFile) (hfuel : 4096 ≤ fuel) :
    vmArchLoadInitrd fuel ram data =
      if initrdAt kernel.initrdAddrMax data.size < mib then .ok (-1, ram)
      else placeInitrd ram data (initrdAt kernel.initrdAddrMax data.size) := by
  have hmax : kernel.initrdAddrMax < 2 ^ 32 := getLE_lt kernel.bytes initrdAddrMaxOff 4
  unfold vmArchLoadInitrd
  rw [Ram.load_ok (by decide), ok_bind, hload.addrMax, initrdSearch_at hmax data.size_lt hfuel,
    ok_bind]
  by_cases hlow : initrdAt kernel.initrdAddrMax data.size < mib
  · rw [if_pos hlow, if_pos hlow]
    rfl
  · rw [if_neg hlow, if_neg hlow]

/-- The record is in `boot_params`, below the block and the kernel. -/
theorem initrdBytes_high (bytes : Store) (data : BootFile) (addr : Nat) {p : Nat} (hp : mib ≤ p) :
    initrdBytes bytes data addr p = patch bytes addr (slice data.bytes 0 data.size) p := by
  have hout : ∀ {a}, a + 4 ≤ mib → ¬ Span.Has ⟨a, 4⟩ p := fun h => Span.not_has_of_end hp h
  unfold initrdBytes
  rw [putLE_out (hout (by decide)), putLE_out (hout (by decide))]

theorem initrdBytes_image (bytes : Store) (data : BootFile) (addr : Nat) :
    getLE (initrdBytes bytes data addr) (bootAt + ramdiskImageOff) 4 = addr % 2 ^ 32 :=
  (getLE_putLE_apart (by decide)).trans (getLE_putLE_same _ _ _ _)

theorem initrdBytes_size (bytes : Store) (data : BootFile) (addr : Nat) :
    getLE (initrdBytes bytes data addr) (bootAt + ramdiskSizeOff) 4 = data.size % 2 ^ 32 :=
  getLE_putLE_same _ _ _ _

/-- The place that the search gives is good exactly when there is room. -/
theorem initrdPlaced_iff (hload : Loaded kernel ram)
    (hlow : mib ≤ initrdAt kernel.initrdAddrMax data.size) :
    (∃ ram', placeInitrd ram data (initrdAt kernel.initrdAddrMax data.size) = .ok (0, ram') ∧
      InitrdPlaced kernel data (initrdAt kernel.initrdAddrMax data.size) ram') ↔
        Roomy kernel data := by
  have hmax : kernel.initrdAddrMax < 2 ^ 32 := getLE_lt kernel.bytes initrdAddrMaxOff 4
  have haligned := initrdAt_aligned kernel.initrdAddrMax data.size
  have hlt := @initrdAt_lt _ data.size hmax
  have hinside := @initrdAt_inside kernel.initrdAddrMax data.size
  generalize hat : initrdAt kernel.initrdAddrMax data.size = addr at *
  constructor
  · rintro ⟨ram', -, hp⟩
    have := hp.inside
    exact ⟨by omega, by rw [hat]; exact hp.top, by rw [hat]; exact hp.apart⟩
  · rintro ⟨hsize, htop, hapart⟩
    rw [hat] at htop hapart
    have hend := hinside hsize
    refine ⟨_, placeInitrd_ok hend, haligned, hlow, hend, htop, hapart, ?_, ?_, ?_, ?_⟩
    · exact (initrdBytes_image _ _ _).trans (Nat.mod_eq_of_lt hlt)
    · exact (initrdBytes_size _ _ _).trans (Nat.mod_eq_of_lt (Nat.lt_of_le_of_lt hsize (by decide)))
    · refine slice_congr fun i hi => ?_
      refine (initrdBytes_high _ _ _ (Nat.le_trans hlow (Nat.le_add_right _ _))).trans ?_
      exact patch_slice_in _ _ _ _ hi
    · refine Eq.trans (slice_congr fun i hi => ?_) hload.bytes
      refine (initrdBytes_high _ _ _ (Nat.le_add_right _ _)).trans (patch_slice_out ?_)
      exact hapart.not_has ⟨Nat.le_add_right _ _, Nat.add_lt_add_left hi _⟩

/-- There is room for a kernel and an initrd that leave two megabytes, under a limit that is not
below the memory's end. -/
theorem roomy_of_small (hmax : ramSize ≤ kernel.initrdAddrMax + 1)
    (hsmall : kernel.kernelLen + data.size + 2 * mib ≤ ramSize) :
    mib ≤ initrdAt kernel.initrdAddrMax data.size ∧ Roomy kernel data := by
  have hle : data.size ≤ ramSize := by omega
  have hend := @initrdAt_inside kernel.initrdAddrMax _ hle
  have habove : mib + kernel.kernelLen ≤ initrdAt kernel.initrdAddrMax data.size := by
    unfold initrdAt
    rw [if_pos hle]
    unfold mib at *
    omega
  refine ⟨by omega, hle, by omega, Span.apart_of_le habove⟩

end Place

/-- **Placing the initrd.** After a kernel has been loaded, the search for a place ends within 4096
turns. A call that fails leaves guest memory as it was. Otherwise the search has found `initrdAt`;
the file is then put there, in a good place and recorded in `boot_params`, exactly when there is
room. -/
theorem initrd_placement {ram₀ ram : Ram} {kernel : BootFile}
    (hload : vmArchLoadImage ram₀ kernel = .ok (0, ram)) {fuel : Nat} (hfuel : 4096 ≤ fuel) :
    (∀ file ret ram', vmLoadInitrd fuel ram file = .ok (ret, ram') → ret ≠ 0 → ram' = ram) ∧
    ∀ data : BootFile,
      initrdSearch data.size fuel (kernel.initrdAddrMax &&& 0xFFF00000) =
        .ok (if initrdAt kernel.initrdAddrMax data.size < mib then none
          else some (initrdAt kernel.initrdAddrMax data.size)) ∧
      (initrdAt kernel.initrdAddrMax data.size < mib →
        vmLoadInitrd fuel ram (some data) = .ok (-1, ram)) ∧
      (mib ≤ initrdAt kernel.initrdAddrMax data.size →
        ((∃ ram', vmLoadInitrd fuel ram (some data) = .ok (0, ram') ∧
          InitrdPlaced kernel data (initrdAt kernel.initrdAddrMax data.size) ram') ↔
            Roomy kernel data)) ∧
      (ramSize ≤ kernel.initrdAddrMax + 1 → kernel.kernelLen + data.size + 2 * mib ≤ ramSize →
        ∃ ram', vmLoadInitrd fuel ram (some data) = .ok (0, ram') ∧
          InitrdPlaced kernel data (initrdAt kernel.initrdAddrMax data.size) ram') := by
  have hloaded := vmArchLoadImage_loaded hload
  have hmax : kernel.initrdAddrMax < 2 ^ 32 := getLE_lt kernel.bytes initrdAddrMaxOff 4
  have hplace : ∀ data : BootFile, mib ≤ initrdAt kernel.initrdAddrMax data.size →
      ((∃ ram', vmLoadInitrd fuel ram (some data) = .ok (0, ram') ∧
        InitrdPlaced kernel data (initrdAt kernel.initrdAddrMax data.size) ram') ↔
        Roomy kernel data) := by
    intro data hlow
    rw [vmLoadInitrd, vmArchLoadInitrd_eq hloaded data hfuel, if_neg (Nat.not_lt_of_le hlow)]
    exact initrdPlaced_iff hloaded hlow
  refine ⟨?_, fun data => ⟨initrdSearch_at hmax data.size_lt hfuel, ?_, hplace data, ?_⟩⟩
  · intro file ret ram' h hret
    cases file with
    | none =>
      cases h
      rfl
    | some data =>
      rw [vmLoadInitrd, vmArchLoadInitrd_eq hloaded data hfuel] at h
      split at h
      · cases h
        rfl
      · exact absurd (placeInitrd_ret h) hret
  · intro hlow
    rw [vmLoadInitrd, vmArchLoadInitrd_eq hloaded data hfuel, if_pos hlow]
  · intro hlimit hsmall
    obtain ⟨hlow, hroomy⟩ := roomy_of_small hlimit hsmall
    exact (hplace data hlow).mpr hroomy

/-! ## A small kernel -/

def tinyKernelBytes (addrMax : Nat) : Store :=
  patch (putLE (putLE (fun _ => 0) setupSectsOff 1 1) initrdAddrMaxOff 4 addrMax) 1024
    [0x90, 0x90, 0x90, 0x90]

theorem tinyKernel_zeros (addrMax p : Nat) (hp : 1028 ≤ p) : tinyKernelBytes addrMax p = 0 := by
  have hout : ∀ {a n}, a + n ≤ 1028 → ¬ Span.Has ⟨a, n⟩ p := fun h => Span.not_has_of_end hp h
  unfold tinyKernelBytes
  rw [patch_out (hout (by decide)), putLE_out (hout (by decide)), putLE_out (hout (by decide))]

/-- One setup sector behind the boot sector, and four bytes of kernel. -/
def tinyKernel (addrMax : Nat) : BootFile :=
  ⟨1028, tinyKernelBytes addrMax, by decide, tinyKernel_zeros addrMax⟩

def emptyRam : Ram := ⟨0, fun _ => 0⟩

theorem loads_of_ret {x : Except Stop (Int × Ram)} (h : x.toOption.map Prod.fst = some 0) :
    ∃ ram, x = .ok (0, ram) := by
  cases x with
  | error e => cases h
  | ok r =>
    obtain ⟨ret, ram⟩ := r
    cases h
    exact ⟨ram, rfl⟩

theorem tinyKernel_loads : ∃ ram, vmArchLoadImage emptyRam (tinyKernel 0x7FFFFFFF) = .ok (0, ram) :=
  loads_of_ret (by decide +kernel)

/-- Three bytes end up in the last megabyte. -/
theorem initrd_placement_top :
    ∃ ram, vmArchLoadImage emptyRam (tinyKernel 0x7FFFFFFF) = .ok (0, ram) ∧
      ∃ ram', vmLoadInitrd 4096 ram (some (zeroFile 3 (by decide))) = .ok (0, ram') ∧
        InitrdPlaced (tinyKernel 0x7FFFFFFF) (zeroFile 3 (by decide)) 0x3FF00000 ram' := by
  obtain ⟨ram, hload⟩ := tinyKernel_loads
  have hat : initrdAt (tinyKernel 0x7FFFFFFF).initrdAddrMax 3 = 0x3FF00000 := by decide +kernel
  obtain ⟨ram', hcall, hplaced⟩ :=
    ((initrd_placement hload (Nat.le_refl 4096)).2 (zeroFile 3 (by decide))).2.2.2
    (by decide +kernel) (by decide +kernel)
  exact ⟨ram, hload, ram', hcall, hat ▸ hplaced⟩

theorem vmLoadInitrd_at {ram : Ram} {kernel : BootFile} (data : BootFile) {addr : Nat}
    (hload : Loaded kernel ram) (hat : initrdAt kernel.initrdAddrMax data.size = addr)
    (hlow : mib ≤ addr) :
    vmLoadInitrd 4096 ram (some data) = placeInitrd ram data addr := by
  rw [vmLoadInitrd, vmArchLoadInitrd_eq hload data (Nat.le_refl 4096), hat,
    if_neg (Nat.not_lt_of_le hlow)]

/-- 16 MiB under the limit 0x37FFFFFF end behind it. An initrd that leaves a megabyte and a byte of
the memory overwrites the kernel. One that is a byte larger than the memory is given a place above
the memory. -/
theorem initrd_misplaced :
    (∃ ram ram', vmArchLoadImage emptyRam (tinyKernel 0x37FFFFFF) = .ok (0, ram) ∧
      vmLoadInitrd 4096 ram (some (zeroFile 0x1000000 (by decide))) = .ok (0, ram') ∧
      getLE ram'.bytes (bootAt + ramdiskImageOff) 4 = 0x37F00000 ∧
      getLE ram'.bytes (bootAt + ramdiskSizeOff) 4 = 0x1000000) ∧
    ∃ ram, vmArchLoadImage emptyRam (tinyKernel 0x7FFFFFFF) = .ok (0, ram) ∧
      (∃ ram', vmLoadInitrd 4096 ram (some (zeroFile 0x3FEFFFFF (by decide))) = .ok (0, ram') ∧
        ram.bytes kernelAt = 0x90 ∧ ram'.bytes kernelAt = 0) ∧
      initrdSearch 0x40000001 4096 (0x7FFFFFFF &&& 0xFFF00000) = .ok (some 0x7FF00000) ∧
      vmLoadInitrd 4096 ram (some (zeroFile 0x40000001 (by decide))) = .error .wild := by
  refine ⟨?_, ?_⟩
  · obtain ⟨ram, hload⟩ := loads_of_ret
      (show (vmArchLoadImage emptyRam (tinyKernel 0x37FFFFFF)).toOption.map Prod.fst = some 0 by
        decide +kernel)
    have hat : initrdAt (tinyKernel 0x37FFFFFF).initrdAddrMax 0x1000000 = 0x37F00000 := by
      decide +kernel
    have hcall := vmLoadInitrd_at (zeroFile 0x1000000 (by decide))
        (vmArchLoadImage_loaded hload) hat (by decide)
    rw [placeInitrd_ok (by decide)] at hcall
    exact ⟨ram, _, hload, hcall, initrdBytes_image _ _ _, initrdBytes_size _ _ _⟩
  · obtain ⟨ram, hload⟩ := tinyKernel_loads
    have hfirst : (slice ram.bytes kernelAt 4).head? = some 0x90 := by
      have hbytes := (vmArchLoadImage_loaded hload).bytes
      have hlen : (tinyKernel 0x7FFFFFFF).kernelLen = 4 := by decide +kernel
      rw [hlen] at hbytes
      rw [hbytes]
      decide +kernel
    refine ⟨ram, hload, ?_, rfl, ?_⟩
    · have hat : initrdAt (tinyKernel 0x7FFFFFFF).initrdAddrMax 0x3FEFFFFF = kernelAt := by
        decide +kernel
      have hcall := vmLoadInitrd_at (zeroFile 0x3FEFFFFF (by decide))
          (vmArchLoadImage_loaded hload) hat (by decide)
      rw [placeInitrd_ok (by decide)] at hcall
      refine ⟨_, hcall, Option.some.inj hfirst, ?_⟩
      have hlow : mib ≤ kernelAt := by decide
      show initrdBytes ram.bytes (zeroFile 0x3FEFFFFF (by decide)) kernelAt kernelAt = 0
      rw [initrdBytes_high _ _ _ hlow]
      exact patch_slice_in _ _ _ _ (i := 0) (by decide)
    · have hat : initrdAt (tinyKernel 0x7FFFFFFF).initrdAddrMax 0x40000001 = 0x7FF00000 := by
        decide +kernel
      have hcall := vmLoadInitrd_at (zeroFile 0x40000001 (by decide))
          (vmArchLoadImage_loaded hload) hat (by decide)
      rwa [placeInitrd_wild (by decide) (by decide)] at hcall

end KvmHost
