import KvmHost.X86Boot

/-!
# KvmHost.X86Image

What `vm_arch_load_image` of x86-64 reads of the kernel file and writes to guest memory.

The function checks nothing: the lengths of its copies come from the size of the file and from two
fields of the setup header, `setup_sects` and `cmdline_size`. `imageAccesses` lists its accesses,
and `vmArchLoadImage_returns` says that it returns exactly when each of them is inside what is
mapped. A file is mapped in whole pages, so a short file may be read behind its end without a stop.
`imageBytes` is guest memory after a load, and `image_load_bounded` says for which files a load
keeps to its bounds.
-/

namespace KvmHost

open ByteStore

/-- `vm_load_image`, of a file that cannot be opened or of one that can. -/
def vmLoadImage (ram : Ram) : Option BootFile → Except Stop (Int × Ram)
  | none => .ok (1, ram)
  | some data => vmArchLoadImage ram data

/-! ## Accesses -/

inductive LoadAccess where
  | file (s : Span)
  | ram (s : Span)

/-- The access stays in the first `len` bytes of the file, or in guest memory. -/
def LoadAccess.Inside (len : Nat) : LoadAccess → Prop
  | file s => s.len = 0 ∨ s.lo + s.len ≤ len
  | ram s => s.len = 0 ∨ s.lo + s.len ≤ ramSize

def BootFile.cmdlineSize (data : BootFile) : Nat := getLE data.bytes cmdlineSizeOff 4

-- the fields of `boot` that are read or set, with their sizes
def bootFields : List (Nat × Nat) :=
  [(setupSectsOff, 1), (vidModeOff, 2), (typeOfLoaderOff, 1), (loadflagsOff, 1), (heapEndPtrOff, 2),
    (extLoaderVerOff, 1), (cmdLinePtrOff, 4), (cmdlineSizeOff, 4), (e820TableOff, 20),
    (e820TableOff + 20, 20), (e820EntriesOff, 1)]

def imageAccesses (data : BootFile) : List LoadAccess :=
  [.ram ⟨bootAt, bootParamsSize⟩, .file ⟨hdrOff, setupHeaderSize⟩,
    .ram ⟨bootAt + hdrOff, setupHeaderSize⟩, .ram ⟨cmdlineAt, data.cmdlineSize⟩,
    .ram ⟨cmdlineAt, kernelOpts.length⟩, .file ⟨data.setupsz, sizeSub data.size data.setupsz⟩,
    .ram ⟨kernelAt, sizeSub data.size data.setupsz⟩] ++
    bootFields.map fun f => .ram ⟨bootAt + f.1, f.2⟩

theorem bootFields_inside (len : Nat) :
    ∀ w ∈ bootFields.map fun f => LoadAccess.ram ⟨bootAt + f.1, f.2⟩, w.Inside len := by
  rw [List.forall_mem_map]
  intro f hf
  have hin : ∀ f ∈ bootFields, bootAt + f.1 + f.2 ≤ ramSize := by decide
  exact .inr (hin f hf)

/-- The accesses that depend on the file. -/
theorem imageAccesses_inside (data : BootFile) {len : Nat} (hlen : data.size ≤ len) :
    (∀ w ∈ imageAccesses data, w.Inside len) ↔
      hdrOff + setupHeaderSize ≤ len ∧ data.setupsz ≤ data.size ∧
      cmdlineAt + data.cmdlineSize ≤ ramSize ∧ kernelAt + data.kernelLen ≤ ramSize := by
  have hsize := data.size_lt
  have hsetup : data.setupsz ≤ 131072 := by
    have := getLE_lt data.bytes setupSectsOff 1
    unfold BootFile.setupsz
    omega
  have hconst : setupHeaderSize ≠ 0 ∧ bootAt + bootParamsSize ≤ ramSize ∧
      bootAt + hdrOff + setupHeaderSize ≤ ramSize ∧
      cmdlineAt + kernelOpts.length ≤ ramSize ∧ cmdlineAt ≤ ramSize ∧ kernelAt ≤ ramSize ∧
        ramSize < 2 ^ 31 := by decide
  obtain ⟨hhdr, hboot, hheader, hopts, hcmd, hker, hram⟩ := hconst
  unfold imageAccesses
  rw [List.forall_mem_append, and_iff_left (bootFields_inside len)]
  simp only [List.forall_mem_cons, LoadAccess.Inside]
  by_cases hle : data.setupsz ≤ data.size
  · have hsub : sizeSub data.size data.setupsz = data.kernelLen := sizeSub_eq hle (by omega)
    have hkernel : data.setupsz + data.kernelLen = data.size := Nat.add_sub_cancel' hle
    rw [hsub]
    constructor
    · rintro ⟨-, hfile, -, hcmdline, -, -, hfits, -⟩
      omega
    · rintro ⟨hfile, -, hcmdline, hfits⟩
      exact ⟨.inr hboot, .inr hfile, .inr hheader, .inr hcmdline, .inr hopts, .inr (by omega),
        .inr hfits, List.forall_mem_nil _⟩
  · -- `datasz - setupsz` has wrapped
    have hsub := sizeSub_short (Nat.lt_of_not_le hle)
    constructor
    · rintro ⟨-, -, -, -, -, -, hfits, -⟩
      omega
    · rintro ⟨-, hle', -⟩
      exact absurd hle' hle

/-! ## Guest memory after a load -/

/-- The zeroed `boot_params` at `b`, with the setup header of the file. -/
def headerCopied (m : Store) (b : Nat) (data : BootFile) : Store :=
  patch (patch m b (List.replicate bootParamsSize 0)) (b + hdrOff)
    (slice data.bytes hdrOff setupHeaderSize)

def headerFields (m : Store) (b : Nat) : Store :=
  let m := putLE m (b + vidModeOff) 2 0xFFFF
  let m := putLE m (b + typeOfLoaderOff) 1 0xFF
  let m := putLE m (b + loadflagsOff) 1 (getLE m (b + loadflagsOff) 1 ||| loadFlags)
  let m := putLE m (b + heapEndPtrOff) 2 0xFE00
  let m := putLE m (b + extLoaderVerOff) 1 0x0
  putLE m (b + cmdLinePtrOff) 4 0x20000

def cmdlineBytes (m : Store) (size : Nat) : Store :=
  patch (patch m cmdlineAt (List.replicate size 0)) cmdlineAt kernelOpts

def e820Bytes (m : Store) (b : Nat) : Store :=
  let m := patch m (b + e820TableOff) (e820Entry 0x0 (isaStartAddress - 1) e820Ram)
  let m :=
    patch m (b + (e820TableOff + 20)) (e820Entry isaEndAddress (ramSize - isaEndAddress) e820Ram)
  putLE m (b + e820EntriesOff) 1 2

def kernelBytes (m : Store) (data : BootFile) : Store :=
  patch m kernelAt (slice data.bytes data.setupsz data.kernelLen)

def imageBytes (m : Store) (data : BootFile) : Store :=
  e820Bytes
    (kernelBytes
      (cmdlineBytes (headerFields (headerCopied m bootAt data) bootAt) data.cmdlineSize) data)
    bootAt

/-- `boot_params` after a load, from its own start. -/
def bootParams (data : BootFile) : Store :=
  e820Bytes (headerFields (headerCopied (fun _ => 0) 0 data) 0) 0

section Stages

variable {ram : Ram} {data : BootFile}

theorem loadSetupHeader_ok (h : hdrOff + setupHeaderSize ≤ data.mapLen) :
    loadSetupHeader ram data = .ok { ram with bytes := headerCopied ram.bytes bootAt data } := by
  rw [loadSetupHeader, Ram.memset_ok (by decide), ok_bind, BootFile.read_ok h, ok_bind,
    Ram.write_ok (by rw [slice_length]; decide)]
  rfl

theorem setHeaderFields_ok :
    setHeaderFields ram = .ok { ram with bytes := headerFields ram.bytes bootAt } := by
  unfold setHeaderFields
  rw [Ram.store_ok (by decide), ok_bind, Ram.store_ok (by decide), ok_bind, Ram.load_ok (by decide),
    ok_bind, Ram.store_ok (by decide), ok_bind, Ram.store_ok (by decide), ok_bind,
    Ram.store_ok (by decide), ok_bind, Ram.store_ok (by decide)]
  rfl

theorem loadCmdline_ok {size : Nat} (hsize : getLE ram.bytes (bootAt + cmdlineSizeOff) 4 = size)
    (h : cmdlineAt + size ≤ ramSize) :
    loadCmdline ram = .ok { ram with bytes := cmdlineBytes ram.bytes size } := by
  rw [loadCmdline, Ram.load_ok (by decide), ok_bind, hsize, Ram.memset_ok h, ok_bind,
    Ram.write_ok (by decide)]
  rfl

theorem loadKernel_ok (hle : data.setupsz ≤ data.size) (h : kernelAt + data.kernelLen ≤ ramSize) :
    loadKernel ram data data.setupsz = .ok { ram with bytes := kernelBytes ram.bytes data } := by
  have hsize := data.size_lt
  have hsub : sizeSub data.size data.setupsz = data.kernelLen := sizeSub_eq hle (by omega)
  have hmap : data.setupsz + data.kernelLen ≤ data.mapLen := by
    have hend : data.setupsz + data.kernelLen = data.size := Nat.add_sub_cancel' hle
    rw [hend]
    exact data.size_le_mapLen
  rw [loadKernel, hsub, BootFile.read_ok hmap, ok_bind,
    Ram.write_ok (by rw [slice_length]; exact h)]
  rfl

theorem setE820_ok : setE820 ram = .ok { ram with bytes := e820Bytes ram.bytes bootAt } := by
  unfold setE820
  rw [Ram.write_ok (by decide), ok_bind, Ram.write_ok (by decide), ok_bind,
    Ram.store_ok (by decide)]
  rfl

theorem headerCopied_field (m : Store) {k n : Nat} (hk : k + n ≤ setupHeaderSize) :
    getLE (headerCopied m bootAt data) (bootAt + hdrOff + k) n = getLE data.bytes (hdrOff + k) n :=
      getLE_copy _ _ _ _ hk

theorem headerFields_out {m : Store} {p : Nat} (hp : ¬ Span.Has ⟨bootAt + vidModeOff, 50⟩ p) :
    headerFields m bootAt p = m p := by
  have h : setHeaderFields ⟨0, m⟩ = .ok ⟨0, headerFields m bootAt⟩ := setHeaderFields_ok
  exact setHeaderFields_frame h hp

theorem e820Bytes_out {m : Store} {p : Nat} (htable : ¬ Span.Has ⟨bootAt + e820TableOff, 40⟩ p)
    (hentries : ¬ Span.Has ⟨bootAt + e820EntriesOff, 1⟩ p) : e820Bytes m bootAt p = m p := by
  have h : setE820 ⟨0, m⟩ = .ok ⟨0, e820Bytes m bootAt⟩ := setE820_ok
  exact setE820_frame h htable hentries

/-- `cmdline_size` is not one of the fields that are set. -/
theorem headerFields_cmdlineSize (m : Store) :
    getLE (headerFields (headerCopied m bootAt data) bootAt) (bootAt + cmdlineSizeOff) 4 =
      data.cmdlineSize := by
  have hkept : getLE (headerFields (headerCopied m bootAt data) bootAt)
      (bootAt + cmdlineSizeOff) 4 =
      getLE (headerCopied m bootAt data) (bootAt + cmdlineSizeOff) 4 := by
    refine getLE_congr fun i _ => headerFields_out fun hin => ?_
    have hlt := hin.2
    simp only [bootAt, cmdlineSizeOff, vidModeOff] at hlt
    omega
  rw [hkept]
  exact headerCopied_field m (k := 0x47) (by decide)

theorem vmArchLoadImage_ok (hhdr : hdrOff + setupHeaderSize ≤ data.mapLen)
    (hle : data.setupsz ≤ data.size) (hcmd : cmdlineAt + data.cmdlineSize ≤ ramSize)
    (hfits : kernelAt + data.kernelLen ≤ ramSize) :
    vmArchLoadImage ram data = .ok (0, { ram with bytes := imageBytes ram.bytes data }) := by
  have hsects : getLE (headerCopied ram.bytes bootAt data) (bootAt + setupSectsOff) 1 =
      getLE data.bytes setupSectsOff 1 := headerCopied_field ram.bytes (k := 0) (by decide)
  have hsetup : (getLE data.bytes setupSectsOff 1 + 1) * 512 = data.setupsz := rfl
  have hcmdline : loadCmdline ⟨ram.base, headerFields (headerCopied ram.bytes bootAt data) bootAt⟩ =
      .ok ⟨ram.base, cmdlineBytes (headerFields (headerCopied ram.bytes bootAt data) bootAt)
      data.cmdlineSize⟩ :=
    loadCmdline_ok (headerFields_cmdlineSize ram.bytes) hcmd
  rw [vmArchLoadImage, loadSetupHeader_ok hhdr, ok_bind, Ram.load_ok (by decide), ok_bind, hsects,
    hsetup, setHeaderFields_ok, ok_bind, hcmdline, ok_bind, loadKernel_ok hle hfits, ok_bind,
    setE820_ok, ok_bind]
  rfl

/-- What a call that returns has reached for. -/
theorem vmArchLoadImage_inv {ram' : Ram} {ret : Int}
    (h : vmArchLoadImage ram data = .ok (ret, ram')) :
    ret = 0 ∧ hdrOff + setupHeaderSize ≤ data.mapLen ∧ data.setupsz ≤ data.size ∧
      cmdlineAt + data.cmdlineSize ≤ ramSize ∧ kernelAt + data.kernelLen ≤ ramSize := by
  obtain ⟨r1, hheader, h⟩ := bind_eq_ok.mp h
  have hhdr : hdrOff + setupHeaderSize ≤ data.mapLen := by
    obtain ⟨_, -, hheader⟩ := bind_eq_ok.mp hheader
    obtain ⟨hdr, hread, -⟩ := bind_eq_ok.mp hheader
    exact (BootFile.read_inv hread).2 (by decide)
  rw [loadSetupHeader_ok hhdr, Except.ok.injEq] at hheader
  subst hheader
  have hsects : getLE (headerCopied ram.bytes bootAt data) (bootAt + setupSectsOff) 1 =
      getLE data.bytes setupSectsOff 1 := headerCopied_field ram.bytes (k := 0) (by decide)
  have hsetup : (getLE data.bytes setupSectsOff 1 + 1) * 512 = data.setupsz := rfl
  rw [Ram.load_ok (by decide), ok_bind, hsects, hsetup, setHeaderFields_ok, ok_bind] at h
  obtain ⟨r2, hcmdline, h⟩ := bind_eq_ok.mp h
  obtain ⟨r3, hkernel, h⟩ := bind_eq_ok.mp h
  obtain ⟨r4, -, h⟩ := bind_eq_ok.mp h
  obtain ⟨hle, hfits, -⟩ := loadKernel_inv hkernel
  cases h
  refine ⟨rfl, hhdr, hle, ?_, hfits⟩
  rw [loadCmdline, Ram.load_ok (by decide), ok_bind, headerFields_cmdlineSize] at hcmdline
  obtain ⟨r5, hmemset, -⟩ := bind_eq_ok.mp hcmdline
  have hend := (Ram.write_inv hmemset).2
  rw [List.length_replicate] at hend
  by_cases h0 : data.cmdlineSize = 0
  · rw [h0]
    decide
  · exact hend fun hnil => h0 (by simpa using congrArg List.length hnil)

/-- **The call returns** exactly when all its accesses are inside what is mapped. -/
theorem vmArchLoadImage_returns (ram : Ram) (data : BootFile) :
    (∃ r, vmArchLoadImage ram data = .ok r) ↔ ∀ w ∈ imageAccesses data, w.Inside data.mapLen := by
  rw [imageAccesses_inside data data.size_le_mapLen]
  constructor
  · rintro ⟨⟨ret, ram'⟩, h⟩
    exact (vmArchLoadImage_inv h).2
  · rintro ⟨hhdr, hle, hcmd, hfits⟩
    exact ⟨_, vmArchLoadImage_ok hhdr hle hcmd hfits⟩

end Stages

/-! ## The three regions -/

def bootRegion : Span := ⟨bootAt, bootParamsSize⟩
def cmdlineRegion (data : BootFile) : Span := ⟨cmdlineAt, max data.cmdlineSize kernelOpts.length⟩
def kernelRegion (data : BootFile) : Span := ⟨kernelAt, data.kernelLen⟩

/-- The regions are apart, each holds what was loaded there, and the rest of guest memory is as it
was. -/
structure ImageLaid (ram : Ram) (data : BootFile) (ram' : Ram) : Prop where
  bootCmdline : bootRegion.Apart (cmdlineRegion data)
  bootKernel : bootRegion.Apart (kernelRegion data)
  cmdlineKernel : (cmdlineRegion data).Apart (kernelRegion data)
  boot : ∀ k < bootParamsSize, ram'.bytes (bootAt + k) = bootParams data k
  cmdline : ∀ i < (cmdlineRegion data).len, ram'.bytes (cmdlineAt + i) = (kernelOpts[i]?).getD 0
  kernel : slice ram'.bytes kernelAt data.kernelLen = slice data.bytes data.setupsz data.kernelLen
  frame : ∀ p, ¬ bootRegion.Has p → ¬ (cmdlineRegion data).Has p → ¬ (kernelRegion data).Has p →
    ram'.bytes p = ram.bytes p

section Laid

variable {m : Store} {data : BootFile}

theorem headerFields_move {m m' : Store} {b b' : Nat}
    (h : ∀ k < bootParamsSize, m (b + k) = m' (b' + k)) :
    ∀ k < bootParamsSize, headerFields m b (b + k) = headerFields m' b' (b' + k) := by
  intro k hk
  unfold headerFields
  have hflags : getLE (putLE (putLE m (b + vidModeOff) 2 0xFFFF) (b + typeOfLoaderOff) 1 0xFF)
      (b + loadflagsOff) 1 =
      getLE (putLE (putLE m' (b' + vidModeOff) 2 0xFFFF) (b' + typeOfLoaderOff) 1 0xFF)
        (b' + loadflagsOff) 1 := by
    refine getLE_congr fun i hi => ?_
    rw [Nat.add_assoc, Nat.add_assoc]
    refine patch_move _ _ (patch_move _ _ (h _ ?_))
    simp only [loadflagsOff, bootParamsSize]
    omega
  simp only [hflags]
  exact patch_move _ _ (patch_move _ _
    (patch_move _ _ (patch_move _ _ (patch_move _ _ (patch_move _ _ (h k hk))))))

theorem headerCopied_move (m m' : Store) (b b' : Nat) (data : BootFile) :
    ∀ k < bootParamsSize, headerCopied m b data (b + k) = headerCopied m' b' data (b' + k) := by
  intro k hk
  refine patch_move _ _ ?_
  have hzero : ∀ m b, patch m b (List.replicate bootParamsSize 0) (b + k) = 0 := by
    intro m b
    rw [patch_in _ _ _ (by rw [List.length_replicate]; exact hk), List.getElem_replicate]
  rw [hzero, hzero]

theorem e820Bytes_move {m m' : Store} {b b' k : Nat} (h : m (b + k) = m' (b' + k)) :
    e820Bytes m b (b + k) = e820Bytes m' b' (b' + k) :=
  patch_move _ _ (patch_move _ _ (patch_move _ _ h))

theorem cmdlineBytes_out {size p : Nat}
    (hp : ¬ Span.Has ⟨cmdlineAt, max size kernelOpts.length⟩ p) :
    cmdlineBytes m size p = m p := by
  simp only [Span.Has] at hp
  unfold cmdlineBytes
  rw [patch_out (by simp only [Span.Has]; omega),
    patch_out (by simp only [Span.Has, List.length_replicate]; omega)]

theorem kernelBytes_out {p : Nat} (hp : ¬ (kernelRegion data).Has p) : kernelBytes m data p = m p :=
  patch_slice_out hp

/-- Behind `boot_params` the last stage changes nothing. -/
theorem e820Bytes_high {p : Nat} (hp : ¬ bootRegion.Has p) : e820Bytes m bootAt p = m p := by
  simp only [bootRegion, Span.Has, bootAt, bootParamsSize] at hp
  refine e820Bytes_out ?_ ?_
  · simp only [Span.Has, bootAt, e820TableOff]
    omega
  · simp only [Span.Has, bootAt, e820EntriesOff]
    omega

theorem header_high {p : Nat} (hp : ¬ bootRegion.Has p) :
    headerFields (headerCopied m bootAt data) bootAt p = m p := by
  have hin : ∀ a n, bootAt ≤ a → a + n ≤ bootAt + bootParamsSize → ¬ Span.Has ⟨a, n⟩ p := by
    intro a n hlo hend
    exact Span.not_has_of_part hp hlo hend
  rw [headerFields_out (hin _ _ (by decide) (by decide)), headerCopied,
    patch_slice_out (hin _ _ (by decide) (by decide)),
    patch_out (by rw [List.length_replicate]; exact hin _ _ (by decide) (by decide))]

theorem cmdline_not_boot (i : Nat) : ¬ bootRegion.Has (cmdlineAt + i) := by
  simp only [bootRegion, Span.Has, bootAt, bootParamsSize, cmdlineAt]
  omega

theorem kernel_not_boot (i : Nat) : ¬ bootRegion.Has (kernelAt + i) := by
  simp only [bootRegion, Span.Has, bootAt, bootParamsSize, kernelAt]
  omega

theorem cmdlineBytes_in {size i : Nat} (hi : i < max size kernelOpts.length) :
    cmdlineBytes m size (cmdlineAt + i) = (kernelOpts[i]?).getD 0 := by
  unfold cmdlineBytes
  by_cases hopt : i < kernelOpts.length
  · rw [patch_in _ _ _ hopt, List.getElem?_eq_getElem hopt]
    rfl
  · rw [patch_out (by simp only [Span.Has]; omega),
      patch_in _ _ _ (by rw [List.length_replicate]; omega), List.getElem_replicate,
      List.getElem?_eq_none (by omega)]
    rfl

theorem imageBytes_laid (ram : Ram) (hapart : (cmdlineRegion data).Apart (kernelRegion data)) :
    ImageLaid ram data { ram with bytes := imageBytes ram.bytes data } where
  bootCmdline := Span.apart_of_le (show bootAt + bootParamsSize ≤ cmdlineAt by decide)
  bootKernel := Span.apart_of_le (show bootAt + bootParamsSize ≤ kernelAt by decide)
  cmdlineKernel := hapart
  boot k hk := by
    have hlow : k < 4096 := hk
    have hmoved : kernelBytes (cmdlineBytes
        (headerFields (headerCopied ram.bytes bootAt data) bootAt) data.cmdlineSize)
        data (bootAt + k) = headerFields (headerCopied (fun _ => 0) 0 data) 0 (0 + k) := by
      rw [kernelBytes_out (by simp only [kernelRegion, Span.Has, kernelAt, bootAt]; omega),
        cmdlineBytes_out (by simp only [Span.Has, cmdlineAt, bootAt]; omega)]
      exact headerFields_move (headerCopied_move ram.bytes _ bootAt 0 data) k hk
    have hparams := e820Bytes_move hmoved
    rw [Nat.zero_add] at hparams
    exact hparams
  cmdline i hi := by
    have hin : (cmdlineRegion data).Has (cmdlineAt + i) :=
      ⟨Nat.le_add_right _ _, Nat.add_lt_add_left hi _⟩
    show imageBytes ram.bytes data (cmdlineAt + i) = _
    unfold imageBytes
    rw [e820Bytes_high (cmdline_not_boot i), kernelBytes_out (hapart.not_has hin),
      cmdlineBytes_in hi]
  kernel := by
    have hslice : slice (imageBytes ram.bytes data) kernelAt data.kernelLen =
        slice
          (kernelBytes (cmdlineBytes (headerFields (headerCopied ram.bytes bootAt data) bootAt)
            data.cmdlineSize) data)
          kernelAt data.kernelLen :=
      slice_congr fun i _ => e820Bytes_high (kernel_not_boot i)
    exact hslice.trans (slice_copy _ data.bytes data.setupsz kernelAt data.kernelLen)
  frame p hboot hcmdline hkernel := by
    show imageBytes ram.bytes data p = ram.bytes p
    unfold imageBytes
    rw [e820Bytes_high hboot, kernelBytes_out hkernel, cmdlineBytes_out hcmdline, header_high hboot]

end Laid

/-! ## Files that keep a load in its bounds -/

/-- The call returns an error; or it reads the file and writes guest memory only, and lays the image
out. -/
def ImageBounded (ram : Ram) (data : BootFile) : Prop :=
  (∃ ret ram', vmArchLoadImage ram data = .ok (ret, ram') ∧ ret ≠ 0) ∨
    (∀ w ∈ imageAccesses data, w.Inside data.size) ∧
      ∃ ram', vmArchLoadImage ram data = .ok (0, ram') ∧ ImageLaid ram data ram'

/-- The file holds a whole setup header and all setup sectors, and the kernel and the command line
fit where they go. -/
structure BootFile.Proper (data : BootFile) : Prop where
  header : 620 ≤ data.size
  setup : data.setupsz ≤ data.size
  kernel : 0x100000 + data.kernelLen ≤ ramSize
  cmdline : 0x20000 + data.cmdlineSize ≤ if data.kernelLen = 0 then ramSize else 0x100000

theorem cmdlineKernel_apart (data : BootFile) :
    (cmdlineRegion data).Apart (kernelRegion data) ↔
      data.kernelLen = 0 ∨ cmdlineAt + data.cmdlineSize ≤ kernelAt := by
  have hopts : kernelOpts.length = 24 := rfl
  simp only [Span.Apart, cmdlineRegion, kernelRegion, hopts, cmdlineAt, kernelAt]
  omega

theorem imageBounded_iff (ram : Ram) (data : BootFile) : ImageBounded ram data ↔ data.Proper := by
  have hroom : kernelAt ≤ ramSize := by decide
  constructor
  · rintro (⟨ret, ram', h, hret⟩ | ⟨hin, ram', -, hlaid⟩)
    · exact absurd (vmArchLoadImage_inv h).1 hret
    · obtain ⟨hhdr, hle, hcmd, hfits⟩ := (imageAccesses_inside data (Nat.le_refl _)).mp hin
      refine ⟨hhdr, hle, hfits, ?_⟩
      have hapart := (cmdlineKernel_apart data).mp hlaid.cmdlineKernel
      split
      · exact hcmd
      · rename_i hne
        exact hapart.resolve_left hne
  · rintro ⟨hhdr, hle, hfits, hcmd⟩
    have hmap := data.size_le_mapLen
    have hcmd' : cmdlineAt + data.cmdlineSize ≤ ramSize := by
      split at hcmd
      · exact hcmd
      · exact Nat.le_trans hcmd hroom
    have hapart : data.kernelLen = 0 ∨ cmdlineAt + data.cmdlineSize ≤ kernelAt := by
      split at hcmd
      · rename_i h0
        exact .inl h0
      · exact .inr hcmd
    refine .inr ⟨(imageAccesses_inside data (Nat.le_refl _)).mpr ⟨hhdr, hle, hcmd', hfits⟩, _,
      vmArchLoadImage_ok (Nat.le_trans hhdr hmap) hle hcmd' hfits,
      imageBytes_laid ram ((cmdlineKernel_apart data).mpr hapart)⟩

/-- **Loading a kernel.** Whatever the file holds: a call returns exactly when every access is
inside what is mapped, and `vm_load_image` reports no error but that the file cannot be opened. The
load keeps to the bytes of the file and of guest memory and lays the three regions out exactly for
the files that are `Proper`. -/
theorem image_load_bounded (ram : Ram) (data : BootFile) :
    ((∃ r, vmArchLoadImage ram data = .ok r) ↔ ∀ w ∈ imageAccesses data, w.Inside data.mapLen) ∧
    (∀ file ret ram', vmLoadImage ram file = .ok (ret, ram') → ret ≠ 0 → file = none ∧ ram' = ram) ∧
    (ImageBounded ram data ↔ data.Proper) := by
  refine ⟨vmArchLoadImage_returns ram data, fun file ret ram' h hret => ?_,
    imageBounded_iff ram data⟩
  cases file with
  | none =>
    cases h
    exact ⟨rfl, rfl⟩
  | some data => exact absurd (vmArchLoadImage_inv h).1 hret

/-! ## Files that do not -/

def plainKernelBytes (setupSects cmdlineSize : Nat) : Store :=
  putLE (putLE (fun _ => 0) setupSectsOff 1 setupSects) cmdlineSizeOff 4 cmdlineSize

theorem plainKernel_zeros (setupSects cmdlineSize p : Nat) (hp : 1000 ≤ p) :
    plainKernelBytes setupSects cmdlineSize p = 0 := by
  have hout : ∀ {a n}, a + n ≤ 1000 → ¬ Span.Has ⟨a, n⟩ p := fun h => Span.not_has_of_end hp h
  unfold plainKernelBytes
  rw [putLE_out (hout (by decide)), putLE_out (hout (by decide))]

/-- 1000 bytes, with one setup sector: 24 too few. -/
def cutKernel : BootFile := ⟨1000, plainKernelBytes 1 0, by decide, plainKernel_zeros 1 0⟩

/-- One byte of kernel, and a command line of one byte more than there is room for below 1 MiB. -/
def wordyKernel : BootFile :=
  ⟨1025, plainKernelBytes 1 0xE0001,
    by decide, fun p hp => plainKernel_zeros 1 0xE0001 p (Nat.le_trans (by decide) hp)⟩

/-- A boot sector alone is read behind its end; a file that ends in its setup sectors and one as
large as guest memory stop the loader; a long command line reaches into the kernel. -/
theorem image_load_unbounded :
    (¬ ImageBounded emptyRam (zeroFile 512 (by decide)) ∧
      (∃ r, vmArchLoadImage emptyRam (zeroFile 512 (by decide)) = .ok r)) ∧
    (¬ ImageBounded emptyRam cutKernel ∧ ¬ ∃ r, vmArchLoadImage emptyRam cutKernel = .ok r) ∧
    (¬ ImageBounded emptyRam (zeroFile (2 ^ 30) (by decide)) ∧
      ¬ ∃ r, vmArchLoadImage emptyRam (zeroFile (2 ^ 30) (by decide)) = .ok r) ∧
    ¬ ImageBounded emptyRam wordyKernel ∧ (∃ r, vmArchLoadImage emptyRam wordyKernel = .ok r) := by
  have hstop : ∀ {ram data}, ¬ (data.setupsz ≤ data.size ∧ kernelAt + data.kernelLen ≤ ramSize) →
      ¬ ImageBounded ram data ∧ ¬ ∃ r, vmArchLoadImage ram data = .ok r := by
    intro ram data hn
    refine ⟨fun hb => ?_, ?_⟩
    · have hp := (imageBounded_iff ram data).mp hb
      exact hn ⟨hp.setup, hp.kernel⟩
    · rintro ⟨⟨ret, ram'⟩, h⟩
      obtain ⟨-, -, hle, -, hfits⟩ := vmArchLoadImage_inv h
      exact hn ⟨hle, hfits⟩
  refine ⟨⟨fun hb => ?_, _,
      vmArchLoadImage_ok (by decide +kernel) (by decide +kernel) (by decide +kernel)
        (by decide +kernel)⟩,
    hstop (by decide +kernel), hstop (by decide +kernel), fun hb => ?_, _,
    vmArchLoadImage_ok (by decide +kernel) (by decide +kernel) (by decide +kernel)
      (by decide +kernel)⟩
  · exact absurd ((imageBounded_iff _ _).mp hb).header (by decide)
  · exact absurd ((imageBounded_iff _ _).mp hb).cmdline (by decide +kernel)

end KvmHost
