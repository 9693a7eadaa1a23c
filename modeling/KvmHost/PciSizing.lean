import KvmHost.BusDispatch
import KvmHost.Lib.Masks
import KvmHost.PciRuns

/-!
# KvmHost.PciSizing

What the guest reads back from the BAR registers.

A guest finds the size of a BAR by writing ones and looking at the bits that stay zero, so the low
bits of a BAR register must hold its kind and nothing else, the node on the bus must be based at the
address in the other bits, and the registers of what the device does not have must read zero
(`SizesRight`). `pci_config_write` copies the bytes first and then repairs the one register the
write starts in. `bar_sizing_run` says that the registers stay right exactly as long as every write
is in place (`InPlace`): it leaves the registers it does not start in as they were, and starts in no
I/O BAR, whose base would get the kind bit as well.
-/

namespace KvmHost

open ByteStore LinkedList

section

variable {ι : Type} [DecidableEq ι]

/-! ## Devices as they are made -/

/-- The arguments of a call of `pci_set_bar`. -/
structure BarSpec where
  bar : Nat
  size : Nat
  isIo : Bool

def BarSpec.Valid (b : BarSpec) : Prop :=
  b.bar < pciStdNumBars ∧ ∃ k, 4 ≤ k ∧ k ≤ 31 ∧ b.size = 2 ^ k

/-- `pci_dev_init` and the calls of `pci_set_bar` that follow it. -/
def makeDev (s : PciSys ι) (d : ι) (bars : List BarSpec) : PciSys ι :=
  bars.foldl (fun s b => pciSetBar s d b.bar b.size b.isIo) (pciDevInit s d)

namespace PciSys

def barReg (s : PciSys ι) (d : ι) (i : Nat) : Nat := getLE (s.dev d).hdr (pciBarOffset i) 4

def romReg (s : PciSys ι) (d : ι) : Nat := getLE (s.dev d).hdr pciRomAddress 4

def barFlag (s : PciSys ι) (d : ι) (i : Nat) : Nat := ((s.dev d).barIsIoSpace i).toNat

/-- The registers of the device read as PCI sizing requires. -/
structure SizesRight (s : PciSys ι) (d : ι) : Prop where
  present : ∀ i < pciStdNumBars, (s.dev d).barSize i ≠ 0 →
    s.barReg d i % (s.dev d).barSize i = s.barFlag d i ∧
      (s.heap (.space d i)).base = s.barReg d i / (s.dev d).barSize i * (s.dev d).barSize i
  absent : ∀ i < pciStdNumBars, (s.dev d).barSize i = 0 → s.barReg d i = 0
  rom : s.romReg d = 0

/-- A BAR is absent or has a power of two of at least 16 bytes. -/
def Layout (s : PciSys ι) (d : ι) : Prop :=
  ∀ i < pciStdNumBars, ((s.dev d).barSize i = 0 ∧ (s.dev d).barIsIoSpace i = false) ∨
    ∃ k, 4 ≤ k ∧ k ≤ 31 ∧ (s.dev d).barSize i = 2 ^ k

end PciSys

section Made

variable {s : PciSys ι} {d : ι} {b : BarSpec}

@[simp] theorem dev_pciSetBar (s : PciSys ι) (d : ι) (bar size : Nat) (io : Bool) :
    (pciSetBar s d bar size io).dev d =
      { s.dev d with
        hdr := putLE (s.dev d).hdr (pciBarOffset bar) 4 io.toNat
        barSize := Function.update (s.dev d).barSize bar size
        barIsIoSpace := Function.update (s.dev d).barIsIoSpace bar io } := by
  simp [pciSetBar, PciSys.setDev]

theorem barOffset_apart {i j : Nat} (h : i ≠ j) :
    Span.Apart ⟨pciBarOffset i, 4⟩ ⟨pciBarOffset j, 4⟩ := by
  unfold Span.Apart pciBarOffset
  simp only
  omega

theorem rom_apart {i : Nat} (h : i < pciStdNumBars) :
    Span.Apart ⟨pciRomAddress, 4⟩ ⟨pciBarOffset i, 4⟩ := by
  unfold pciStdNumBars at h
  unfold Span.Apart pciBarOffset pciRomAddress pciBaseAddress0
  simp only
  omega

/-- A BAR that is set up reads as its kind, with no address. -/
theorem sizesRight_setBar (hb : b.Valid) (hl : s.Layout d) (h : s.SizesRight d) :
    (pciSetBar s d b.bar b.size b.isIo).Layout d ∧
      (pciSetBar s d b.bar b.size b.isIo).SizesRight d := by
  obtain ⟨hbar, k, hk, hk', hsize⟩ := hb
  have hpow : 16 ≤ 2 ^ k := Nat.pow_le_pow_right (n := 2) (by decide) hk
  have hflag : b.isIo.toNat < 16 := Nat.lt_of_le_of_lt (Bool.toNat_le _) (by decide)
  refine ⟨fun i hi => ?_, fun i hi hne => ?_, fun i hi h0 => ?_, ?_⟩
  · by_cases hib : i = b.bar
    · subst hib; exact .inr ⟨k, hk, hk', by simpa using hsize⟩
    · simpa [hib] using hl i hi
  · by_cases hib : i = b.bar
    · subst hib
      have hreg : (pciSetBar s d b.bar b.size b.isIo).barReg d b.bar = b.isIo.toNat := by
        simp only [PciSys.barReg, dev_pciSetBar, getLE_putLE_same]
        exact Nat.mod_eq_of_lt (by omega)
      rw [hreg]
      simp only [PciSys.barFlag, dev_pciSetBar, Function.update_self]
      rw [Nat.mod_eq_of_lt (by omega), Nat.div_eq_of_lt (by omega)]
      simp [pciSetBar, devInit]
    · simp only [PciSys.barReg, PciSys.barFlag, dev_pciSetBar, Function.update_of_ne hib] at hne ⊢
      rw [getLE_putLE_apart (barOffset_apart hib)]
      have hx : (Node.space d i : Node ι) ≠ .space d b.bar := by simp [hib]
      simp only [pciSetBar, devInit, Function.update_of_ne hx]
      exact h.present i hi hne
  · by_cases hib : i = b.bar
    · subst hib
      simp only [dev_pciSetBar, Function.update_self] at h0
      omega
    · simp only [PciSys.barReg, dev_pciSetBar, Function.update_of_ne hib] at h0 ⊢
      rw [getLE_putLE_apart (barOffset_apart hib)]
      exact h.absent i hi h0
  · simp only [PciSys.romReg, dev_pciSetBar]
    rw [getLE_putLE_apart (rom_apart hbar)]
    exact h.rom

theorem sizesRight_devInit (s : PciSys ι) (d : ι) :
    (pciDevInit s d).Layout d ∧ (pciDevInit s d).SizesRight d := by
  have hdev : (pciDevInit s d).dev d =
      ⟨fun _ => 0, fun _ => 0, fun _ => false, fun _ => false⟩ := by
    simp [pciDevInit, PciSys.setDev]
  refine ⟨fun i _ => .inl ?_, fun i _ hne => ?_, fun i _ _ => ?_, ?_⟩
  · simp [hdev]
  · simp [hdev] at hne
  · simp [PciSys.barReg, hdev, getLE, slice, leNat]
  · simp [PciSys.romReg, hdev, getLE, slice, leNat]

theorem sizesRight_makeDev (s : PciSys ι) (d : ι) {bars : List BarSpec} (hb : ∀ b ∈ bars, b.Valid) :
    (makeDev s d bars).Layout d ∧ (makeDev s d bars).SizesRight d := by
  unfold makeDev
  have h0 := sizesRight_devInit s d
  generalize pciDevInit s d = s₀ at h0
  induction bars generalizing s₀ with
  | nil => exact h0
  | cons b bars ih =>
    rw [List.forall_mem_cons] at hb
    exact ih hb.2 _ (sizesRight_setBar hb.1 h0.1 h0.2)

end Made

/-! ## One write -/

section Write

variable {s s₁ s₂ : PciSys ι} {c : ConfigStep ι} {d : ι} {fuel : Nat}

/-- Registers, sizes, kinds and bases are the same; what is enabled and on which list may differ. -/
structure SameRegs (s s' : PciSys ι) : Prop where
  hdr : ∀ e, (s'.dev e).hdr = (s.dev e).hdr
  size : ∀ e, (s'.dev e).barSize = (s.dev e).barSize
  isIo : ∀ e, (s'.dev e).barIsIoSpace = (s.dev e).barIsIoSpace
  base : ∀ x, (s'.heap x).base = (s.heap x).base

omit [DecidableEq ι] in
theorem SameRegs.trans (h₁ : SameRegs s s₁) (h₂ : SameRegs s₁ s₂) : SameRegs s s₂ where
  hdr e := (h₂.hdr e).trans (h₁.hdr e)
  size e := (h₂.size e).trans (h₁.size e)
  isIo e := (h₂.isIo e).trans (h₁.isIo e)
  base x := (h₂.base x).trans (h₁.base x)

theorem sameRegs_setActive (s : PciSys ι) (d : ι) (i : Nat) (v : Bool) :
    SameRegs s (s.setActive d i v) := by
  have hdev : ∀ e, (s.setActive d i v).dev e =
      { s.dev e with barActive := ((s.setActive d i v).dev e).barActive } := by
    intro e
    by_cases he : e = d
    · subst he; simp [PciSys.setActive, PciSys.setDev]
    · simp [PciSys.setActive, PciSys.setDev, Function.update_of_ne he]
  refine ⟨?_, ?_, ?_, fun _ => rfl⟩
  · intro e; rw [hdev e]
  · intro e; rw [hdev e]
  · intro e; rw [hdev e]

omit [DecidableEq ι] in
theorem sameRegs_setBus {io : Bool} {heap : Heap (Node ι)} {bus : Bus (Node ι)}
    (h : ∀ x, (heap x).base = (s.heap x).base) : SameRegs s (s.setBus io (heap, bus)) := by
  refine ⟨?_, ?_, ?_, ?_⟩
  · intro e; simp
  · intro e; simp
  · intro e; simp
  · intro x; simp [h x]

theorem commandBarBody_sameRegs {enable : Bool → Bool} {i : Nat}
    (h : pciCommandBarBody fuel d enable s i = .ok s₁) : SameRegs s s₁ := by
  unfold pciCommandBarBody at h
  simp only at h
  split at h
  · cases h
    unfold pciActivateBar
    refine SameRegs.trans ?_ (sameRegs_setActive _ _ _ _)
    split
    · exact sameRegs_setBus fun x => Heap.setNext_base _ _ _ _
    · exact ⟨fun _ => rfl, fun _ => rfl, fun _ => rfl, fun _ => rfl⟩
  · unfold pciDeactivateBar at h
    split at h
    · obtain ⟨hb, hd, h⟩ := bind_eq_ok.mp h
      cases h
      exact (sameRegs_setBus fun x => (busDeregisterDev_same hd x).1).trans
        (sameRegs_setActive _ _ _ _)
    · cases h
      exact sameRegs_setActive _ _ _ _

theorem commandBar_sameRegs {enable : Bool → Bool} (is : List Nat) :
    ∀ {s s₁ : PciSys ι}, is.foldlM (pciCommandBarBody fuel d enable) s = .ok s₁ →
      SameRegs s s₁ := by
  induction is with
  | nil =>
    intro s s₁ h
    cases h
    exact ⟨fun _ => rfl, fun _ => rfl, fun _ => rfl, fun _ => rfl⟩
  | cons i is ih =>
    intro s s₁ h
    rw [List.foldlM_cons] at h
    obtain ⟨s', hbody, h⟩ := bind_eq_ok.mp h
    exact (commandBarBody_sameRegs hbody).trans (ih h)

/-- The value `pci_config_bar` gives a BAR. -/
def PciSys.newBar (s : PciSys ι) (d : ι) (i : Nat) : Nat :=
  (s.barReg d i &&& barMask ((s.dev d).barSize i)) ||| s.barFlag d i

/-- The write starts in BAR `i`. -/
def ConfigWrite.StartsIn (w : ConfigWrite ι) (i : Nat) : Prop := w.IsBar ∧ w.bar = i

/-- The ways a write can go: the bytes are stored, and then the register the write starts in is seen
to. -/
theorem ConfigStep.returns_cases (hret : c.Returns) :
    (c.write.offset = pciCommand ∧ SameRegs (c.write.stored c.pre) c.post) ∨
    (c.write.IsBar ∧ c.post = pciConfigBar (c.write.stored c.pre) c.write.d c.write.bar) ∨
    (c.write.offset = pciRomAddress ∧ c.post = (c.write.stored c.pre).setHdr c.write.d
      (putLE ((c.write.stored c.pre).dev c.write.d).hdr pciRomAddress 4 0)) ∨
    (¬ c.write.IsBar ∧ c.write.offset ≠ pciRomAddress ∧ c.post = c.write.stored c.pre) := by
  unfold ConfigStep.Returns pciConfigWrite at hret
  simp only at hret
  split at hret
  · rename_i hoff
    exact .inl ⟨hoff, commandBar_sameRegs _ hret⟩
  · split at hret
    · rename_i hbar
      exact .inr (.inl ⟨hbar, (Except.ok.inj hret).symm⟩)
    · rename_i hbar
      split at hret
      · rename_i hrom
        exact .inr (.inr (.inl ⟨hrom, (Except.ok.inj hret).symm⟩))
      · rename_i hrom
        exact .inr (.inr (.inr ⟨hbar, hrom, (Except.ok.inj hret).symm⟩))

/-- What every write leaves alone: sizes and kinds, and the registers of the other devices. -/
structure Frame (s s' : PciSys ι) (d : ι) : Prop where
  size : ∀ e, (s'.dev e).barSize = (s.dev e).barSize
  isIo : ∀ e, (s'.dev e).barIsIoSpace = (s.dev e).barIsIoSpace
  hdr : ∀ e, e ≠ d → (s'.dev e).hdr = (s.dev e).hdr
  base : ∀ e i, e ≠ d → (s'.heap (.space e i)).base = (s.heap (.space e i)).base

theorem frame_setHdr (s : PciSys ι) (d : ι) (hdr : Store) : Frame s (s.setHdr d hdr) d := by
  refine ⟨?_, ?_, ?_, fun _ _ _ => rfl⟩
  · intro e; exact (sameBars_setHdr s d hdr e).size
  · intro e; exact (sameBars_setHdr s d hdr e).isIo
  · intro e he; simp [PciSys.setHdr, PciSys.setDev, Function.update_of_ne he]

omit [DecidableEq ι] in
theorem Frame.trans (h₁ : Frame s s₁ d) (h₂ : Frame s₁ s₂ d) : Frame s s₂ d where
  size e := (h₂.size e).trans (h₁.size e)
  isIo e := (h₂.isIo e).trans (h₁.isIo e)
  hdr e he := (h₂.hdr e he).trans (h₁.hdr e he)
  base e i he := (h₂.base e i he).trans (h₁.base e i he)

theorem frame_configBar (s : PciSys ι) (d : ι) (bar : Nat) : Frame s (pciConfigBar s d bar) d := by
  obtain ⟨v, hv⟩ := pciConfigBar_eq s d bar
  rw [hv]
  have hf := frame_setHdr s d (putLE (s.dev d).hdr (pciBarOffset bar) 4 v)
  refine ⟨hf.size, hf.isIo, hf.hdr, ?_⟩
  intro e i he
  have hx : (Node.space e i : Node ι) ≠ .space d bar := by simp [he]
  simp only [Function.update_of_ne hx]

theorem ConfigStep.frame (hret : c.Returns) : Frame c.pre c.post c.write.d := by
  have hst : Frame c.pre (c.write.stored c.pre) c.write.d := frame_setHdr _ _ _
  rcases c.returns_cases hret with ⟨-, h⟩ | ⟨-, h⟩ | ⟨-, h⟩ | ⟨-, -, h⟩
  · exact hst.trans ⟨h.size, h.isIo, fun e _ => h.hdr e, fun e i _ => h.base _⟩
  · rw [h]; exact hst.trans (frame_configBar _ _ _)
  · rw [h]; exact hst.trans (frame_setHdr _ _ _)
  · rw [h]; exact hst

/-- What a write does to the registers of its device: the bytes are stored, and the register it
starts in is repaired. -/
structure Written (c : ConfigStep ι) : Prop where
  kept : ∀ i < pciStdNumBars, ¬ c.write.StartsIn i →
    c.post.barReg c.write.d i = (c.write.stored c.pre).barReg c.write.d i ∧
      (c.post.heap (.space c.write.d i)).base = (c.pre.heap (.space c.write.d i)).base
  repaired : ∀ i, c.write.StartsIn i →
    c.post.barReg c.write.d i = (c.write.stored c.pre).newBar c.write.d i % 2 ^ 32 ∧
      (c.post.heap (.space c.write.d i)).base = (c.write.stored c.pre).newBar c.write.d i
  rom : c.post.romReg c.write.d =
    if c.write.offset = pciRomAddress then 0 else (c.write.stored c.pre).romReg c.write.d

omit [DecidableEq ι] in
theorem ConfigWrite.StartsIn.lt {w : ConfigWrite ι} {i : Nat} (h : w.StartsIn i) :
    i < pciStdNumBars := by
  obtain ⟨⟨h1, h2⟩, rfl⟩ := h
  simp only [pciBaseAddress0, pciBaseAddress5] at h1 h2
  simp only [ConfigWrite.bar, pciBaseAddress0, pciStdNumBars]
  omega

omit [DecidableEq ι] in
theorem ConfigWrite.IsBar.not_rom {w : ConfigWrite ι} (h : w.IsBar) : w.offset ≠ pciRomAddress := by
  have := h.2
  simp only [pciBaseAddress5] at this
  simp only [pciRomAddress]
  omega

theorem written_of_sameRegs (h : SameRegs (c.write.stored c.pre) c.post) (hbar : ¬ c.write.IsBar)
    (hrom : c.write.offset ≠ pciRomAddress) : Written c where
  kept i _ _ := by
    refine ⟨?_, h.base _⟩
    simp only [PciSys.barReg, h.hdr]
  repaired i hi := absurd hi.1 hbar
  rom := by
    rw [if_neg hrom]
    simp only [PciSys.romReg, h.hdr]

theorem written_bar (hbar : c.write.IsBar)
    (hpost : c.post = pciConfigBar (c.write.stored c.pre) c.write.d c.write.bar) : Written c := by
  have hlt : c.write.bar < pciStdNumBars := ConfigWrite.StartsIn.lt ⟨hbar, rfl⟩
  have hhdr : (c.post.dev c.write.d).hdr =
      putLE ((c.write.stored c.pre).dev c.write.d).hdr (pciBarOffset c.write.bar) 4
        ((c.write.stored c.pre).newBar c.write.d c.write.bar) := by
    rw [hpost]
    simp [pciConfigBar, PciSys.setDev, PciSys.newBar, PciSys.barReg, PciSys.barFlag]
  refine ⟨?_, ?_, ?_⟩
  · intro i _ hi
    have hne : i ≠ c.write.bar := fun he => hi ⟨hbar, he.symm⟩
    have hx : (Node.space c.write.d i : Node ι) ≠ .space c.write.d c.write.bar := by simp [hne]
    refine ⟨?_, ?_⟩
    · simp only [PciSys.barReg, hhdr]
      exact getLE_putLE_apart (barOffset_apart hne)
    · rw [hpost]
      simp only [pciConfigBar, Function.update_of_ne hx]
      rfl
  · rintro i ⟨-, rfl⟩
    refine ⟨?_, ?_⟩
    · simp only [PciSys.barReg, hhdr]
      exact getLE_putLE_same _ _ _ _
    · rw [hpost]
      simp [pciConfigBar, PciSys.newBar, PciSys.barReg, PciSys.barFlag]
  · rw [if_neg hbar.not_rom]
    simp only [PciSys.romReg, hhdr]
    exact getLE_putLE_apart (rom_apart hlt)

theorem written_rom (hrom : c.write.offset = pciRomAddress)
    (hpost : c.post = (c.write.stored c.pre).setHdr c.write.d
      (putLE ((c.write.stored c.pre).dev c.write.d).hdr pciRomAddress 4 0)) : Written c := by
  have hhdr : (c.post.dev c.write.d).hdr =
      putLE ((c.write.stored c.pre).dev c.write.d).hdr pciRomAddress 4 0 := by
    rw [hpost]; simp [PciSys.setHdr, PciSys.setDev]
  refine ⟨?_, ?_, ?_⟩
  · intro i hi _
    refine ⟨?_, ?_⟩
    · simp only [PciSys.barReg, hhdr]
      exact getLE_putLE_apart (rom_apart hi).symm
    · rw [hpost]; rfl
  · intro i hi
    exact absurd hrom hi.1.not_rom
  · rw [if_pos hrom]
    simp only [PciSys.romReg, hhdr]
    exact getLE_putLE_same _ _ _ _

theorem ConfigStep.written (hret : c.Returns) : Written c := by
  rcases c.returns_cases hret with ⟨hoff, h⟩ | ⟨hbar, h⟩ | ⟨hrom, h⟩ | ⟨hbar, hrom, h⟩
  · refine written_of_sameRegs h (fun hbar => ?_) (by rw [hoff]; decide)
    have := hbar.1
    rw [hoff] at this
    exact absurd this (by decide)
  · exact written_bar hbar h
  · exact written_rom hrom h
  · exact written_of_sameRegs (by
      rw [h]; exact ⟨fun _ => rfl, fun _ => rfl, fun _ => rfl, fun _ => rfl⟩)
      hbar hrom

end Write

/-! ## The value of a BAR -/

section Value

variable {s : PciSys ι} {d : ι} {i k : Nat}

theorem barMask_pow (hk : k ≤ 31) : barMask (2 ^ k) = 2 ^ 32 - 2 ^ k := by
  have hpos := Nat.two_pow_pos k
  have hle : 2 ^ k ≤ 2 ^ 31 := Nat.pow_le_pow_right (by decide) hk
  unfold barMask
  have he : 2 ^ k + 2 ^ 32 - 1 = 2 ^ k - 1 + 2 ^ 32 := by omega
  rw [he, Nat.add_mod_right, Nat.mod_eq_of_lt (by omega)]
  omega

omit [DecidableEq ι] in
theorem barFlag_lt (s : PciSys ι) (d : ι) (i : Nat) : s.barFlag d i ≤ 1 := Bool.toNat_le _

omit [DecidableEq ι] in
/-- The address bits of the register and the kind. -/
theorem newBar_eq (hk : 4 ≤ k) (hk' : k ≤ 31) (hsize : (s.dev d).barSize i = 2 ^ k) :
    s.newBar d i = s.barReg d i / 2 ^ k * 2 ^ k + s.barFlag d i ∧ s.newBar d i < 2 ^ 32 := by
  have hlt : s.barReg d i < 2 ^ 32 := getLE_lt _ _ _
  have hflag := barFlag_lt s d i
  have hpow : 16 ≤ 2 ^ k := Nat.pow_le_pow_right (n := 2) (by decide) hk
  have heq : s.newBar d i = s.barReg d i / 2 ^ k * 2 ^ k + s.barFlag d i := by
    unfold PciSys.newBar
    rw [hsize, barMask_pow hk', Masks.and_high hlt (by omega),
      Masks.or_low (Nat.mul_mod_left _ _) (by omega)]
  refine ⟨heq, ?_⟩
  have hor : s.newBar d i < 2 ^ 32 := by
    unfold PciSys.newBar
    exact Nat.or_lt_two_pow (Nat.and_lt_two_pow _ (by rw [hsize, barMask_pow hk']; omega))
      (by omega)
  exact hor

omit [DecidableEq ι] in
theorem newBar_absent (hsize : (s.dev d).barSize i = 0) (hio : (s.dev d).barIsIoSpace i = false) :
    s.newBar d i = 0 := by
  have hm : barMask 0 = 0 := by decide
  simp [PciSys.newBar, PciSys.barFlag, hsize, hio, hm]

end Value

/-! ## Runs of writes -/

section Runs

variable {s : PciSys ι} {c : ConfigStep ι} {d : ι}

/-- The write leaves the registers of `d` that it does not start in as they read before, and starts
in no I/O BAR. -/
def ConfigStep.InPlace (c : ConfigStep ι) (d : ι) : Prop :=
  c.write.d = d →
    (∀ i < pciStdNumBars, ¬ c.write.StartsIn i →
      (c.write.stored c.pre).barReg d i = c.pre.barReg d i) ∧
    (∀ i, c.write.StartsIn i → (c.pre.dev d).barIsIoSpace i = false) ∧
    (c.write.offset ≠ pciRomAddress → (c.write.stored c.pre).romReg d = c.pre.romReg d)

omit [DecidableEq ι] in
theorem Frame.layout {s' : PciSys ι} {e : ι} (h : Frame s s' e) (hl : s.Layout d) :
    s'.Layout d := by
  intro i hi
  rw [h.size d, h.isIo d]
  exact hl i hi

omit [DecidableEq ι] in
theorem Frame.sizesRight {s' : PciSys ι} {e : ι} (h : Frame s s' e) (he : d ≠ e) :
    s'.SizesRight d ↔ s.SizesRight d := by
  have hreg : ∀ i, s'.barReg d i = s.barReg d i := by
    intro i; simp only [PciSys.barReg, h.hdr d he]
  have hflag : ∀ i, s'.barFlag d i = s.barFlag d i := by
    intro i; simp only [PciSys.barFlag, h.isIo d]
  have hrom : s'.romReg d = s.romReg d := by simp only [PciSys.romReg, h.hdr d he]
  constructor
  · intro hs
    refine ⟨?_, ?_, ?_⟩
    · intro i hi hne
      have := hs.present i hi (by rw [h.size d]; exact hne)
      rwa [hreg, hflag, h.size d, h.base d i he] at this
    · intro i hi h0
      have := hs.absent i hi (by rw [h.size d]; exact h0)
      rwa [hreg] at this
    · rw [← hrom]; exact hs.rom
  · intro hs
    refine ⟨?_, ?_, ?_⟩
    · intro i hi hne
      rw [hreg, hflag, h.size d, h.base d i he]
      exact hs.present i hi (by rwa [h.size d] at hne)
    · intro i hi h0
      rw [hreg]
      exact hs.absent i hi (by rwa [h.size d] at h0)
    · rw [hrom]; exact hs.rom

omit [DecidableEq ι] in
/-- The register of a BAR is its base and its kind. -/
theorem PciSys.SizesRight.reg_eq (h : s.SizesRight d) {i : Nat} (hi : i < pciStdNumBars)
    (hne : (s.dev d).barSize i ≠ 0) :
    s.barReg d i = (s.heap (.space d i)).base + s.barFlag d i := by
  obtain ⟨hmod, hbase⟩ := h.present i hi hne
  rw [hbase, ← hmod]
  exact (Nat.div_add_mod' _ _).symm

omit [DecidableEq ι] in
theorem stored_flag (hret : Frame c.pre c.post c.write.d) (i : Nat) :
    c.post.barFlag c.write.d i = c.pre.barFlag c.write.d i := by
  simp only [PciSys.barFlag, hret.isIo]

theorem stored_sizes (c : ConfigStep ι) :
    ((c.write.stored c.pre).dev c.write.d).barSize = (c.pre.dev c.write.d).barSize ∧
      ((c.write.stored c.pre).dev c.write.d).barIsIoSpace = (c.pre.dev c.write.d).barIsIoSpace := by
  have h :=
    frame_setHdr c.pre c.write.d (patch (c.pre.dev c.write.d).hdr c.write.offset c.write.data)
  exact ⟨h.size _, h.isIo _⟩

/-- A register the write does not start in is right afterwards when it reads as before. -/
theorem kept_right_iff (hs : c.pre.SizesRight c.write.d) (hf : Frame c.pre c.post c.write.d)
    (hw : Written c) {i : Nat} (hi : i < pciStdNumBars) (hn : ¬ c.write.StartsIn i)
    (hne : (c.pre.dev c.write.d).barSize i ≠ 0) :
    (c.post.barReg c.write.d i % (c.post.dev c.write.d).barSize i = c.post.barFlag c.write.d i ∧
        (c.post.heap (.space c.write.d i)).base = c.post.barReg c.write.d i /
          (c.post.dev c.write.d).barSize i * (c.post.dev c.write.d).barSize i) ↔
      (c.write.stored c.pre).barReg c.write.d i = c.pre.barReg c.write.d i := by
  obtain ⟨hreg, hbase⟩ := hw.kept i hi hn
  rw [stored_flag hf, hf.size, hreg, hbase]
  constructor
  · rintro ⟨hmod, hdiv⟩
    rw [hs.reg_eq hi hne, hdiv, ← hmod]
    exact (Nat.div_add_mod' _ _).symm
  · intro heq
    rw [heq]
    exact hs.present i hi hne

/-- A BAR the write starts in is right afterwards when it is a memory BAR. -/
theorem repaired_right_iff (hl : c.pre.Layout c.write.d) (hf : Frame c.pre c.post c.write.d)
    (hw : Written c) {i : Nat} (hst : c.write.StartsIn i)
    (hne : (c.pre.dev c.write.d).barSize i ≠ 0) :
    (c.post.barReg c.write.d i % (c.post.dev c.write.d).barSize i = c.post.barFlag c.write.d i ∧
        (c.post.heap (.space c.write.d i)).base = c.post.barReg c.write.d i /
          (c.post.dev c.write.d).barSize i * (c.post.dev c.write.d).barSize i) ↔
      (c.pre.dev c.write.d).barIsIoSpace i = false := by
  obtain ⟨hreg, hbase⟩ := hw.repaired i hst
  rcases hl i hst.lt with h0 | ⟨k, hk, hk', hsize⟩
  · exact absurd h0.1 hne
  · have hpow : 16 ≤ 2 ^ k := Nat.pow_le_pow_right (n := 2) (by decide) hk
    obtain ⟨hval, hlt⟩ := newBar_eq (s := c.write.stored c.pre) (d := c.write.d) (i := i) hk hk'
      (by rw [(stored_sizes c).1]; exact hsize)
    have hflag : (c.write.stored c.pre).barFlag c.write.d i = c.pre.barFlag c.write.d i := by
      simp only [PciSys.barFlag, (stored_sizes c).2]
    have hf1 := barFlag_lt c.pre c.write.d i
    have hmod : (c.write.stored c.pre).newBar c.write.d i % 2 ^ k = c.pre.barFlag c.write.d i := by
      rw [hval, hflag, Nat.mul_add_mod', Nat.mod_eq_of_lt (by omega)]
    have hsplit := Nat.div_add_mod' ((c.write.stored c.pre).newBar c.write.d i) (2 ^ k)
    rw [stored_flag hf, hf.size, hsize, hreg, hbase, Nat.mod_eq_of_lt hlt]
    have hio : (c.pre.dev c.write.d).barIsIoSpace i = false ↔ c.pre.barFlag c.write.d i = 0 := by
      simp [PciSys.barFlag]
    rw [hio]
    constructor
    · rintro ⟨-, hdiv⟩
      omega
    · intro h0
      exact ⟨hmod, by omega⟩

theorem ConfigStep.absent_right_iff (hl : c.pre.Layout c.write.d) (hs : c.pre.SizesRight c.write.d)
    (hw : Written c) {i : Nat} (hi : i < pciStdNumBars) (h0 : (c.pre.dev c.write.d).barSize i = 0) :
    c.post.barReg c.write.d i = 0 ↔
      (¬ c.write.StartsIn i → (c.write.stored c.pre).barReg c.write.d i =
        c.pre.barReg c.write.d i) := by
  by_cases hst : c.write.StartsIn i
  · have hio : (c.pre.dev c.write.d).barIsIoSpace i = false := by
      rcases hl i hi with h | ⟨k, -, -, hsize⟩
      · exact h.2
      · exact absurd (h0.symm.trans hsize) (Nat.ne_of_lt (Nat.two_pow_pos k))
    have hnew := newBar_absent (s := c.write.stored c.pre) (d := c.write.d) (i := i)
      (by rw [(stored_sizes c).1]; exact h0) (by rw [(stored_sizes c).2]; exact hio)
    simp [(hw.repaired i hst).1, hnew, hst]
  · rw [(hw.kept i hi hst).1, hs.absent i hi h0]
    simp [hst]

/-- One write keeps the registers right exactly when it is in place. -/
theorem ConfigStep.sizesRight_iff (hl : c.pre.Layout d) (hs : c.pre.SizesRight d)
    (hret : c.Returns) :
    c.post.SizesRight d ↔ c.InPlace d := by
  have hf := c.frame hret
  by_cases hd : c.write.d = d
  · subst hd
    have hw := c.written hret
    have hio : ∀ i, c.write.StartsIn i → (c.pre.dev c.write.d).barSize i = 0 →
        (c.pre.dev c.write.d).barIsIoSpace i = false := by
      intro i hst h0
      rcases hl i hst.lt with h | ⟨k, -, -, hsize⟩
      · exact h.2
      · exact absurd (h0.symm.trans hsize) (Nat.ne_of_lt (Nat.two_pow_pos k))
    constructor
    · intro hp _
      refine ⟨?_, ?_, ?_⟩
      · intro i hi hn
        by_cases h0 : (c.pre.dev c.write.d).barSize i = 0
        · exact (c.absent_right_iff hl hs hw hi h0).mp
            (hp.absent i hi (by rw [hf.size]; exact h0)) hn
        · exact (kept_right_iff hs hf hw hi hn h0).mp (hp.present i hi (by rw [hf.size]; exact h0))
      · intro i hst
        by_cases h0 : (c.pre.dev c.write.d).barSize i = 0
        · exact hio i hst h0
        · exact (repaired_right_iff hl hf hw hst h0).mp
            (hp.present i hst.lt (by rw [hf.size]; exact h0))
      · intro hrom
        have := hp.rom
        rw [hw.rom, if_neg hrom] at this
        rw [this, hs.rom]
    · intro hin
      obtain ⟨hkept, hmem, hrom⟩ := hin rfl
      refine ⟨?_, ?_, ?_⟩
      · intro i hi hne
        rw [hf.size] at hne
        by_cases hst : c.write.StartsIn i
        · exact (repaired_right_iff hl hf hw hst hne).mpr (hmem i hst)
        · exact (kept_right_iff hs hf hw hi hst hne).mpr (hkept i hi hst)
      · intro i hi h0
        rw [hf.size] at h0
        exact (c.absent_right_iff hl hs hw hi h0).mpr (hkept i hi)
      · rw [hw.rom]
        split
        · rfl
        · rename_i hr
          rw [hrom hr, hs.rom]
  · rw [hf.sizesRight (Ne.symm hd)]
    exact ⟨fun _ h => absurd h hd, fun _ => hs⟩

/-- Ones in all the bits of a BAR read back as the mask of its size and its kind. -/
theorem ConfigStep.ones_read_back (hret : c.Returns) {i : Nat} (hi : i < pciStdNumBars)
    (hw : c.write = ⟨d, pciBarOffset i, [0xFF, 0xFF, 0xFF, 0xFF]⟩) :
    c.post.barReg d i = barMask ((c.post.dev d).barSize i) ||| c.post.barFlag d i := by
  have hd : c.write.d = d := by rw [hw]
  subst hd
  have hst : c.write.StartsIn i := by
    unfold pciStdNumBars at hi
    refine ⟨⟨?_, ?_⟩, ?_⟩
    · rw [hw]; simp only [pciBarOffset]; omega
    · rw [hw]; simp only [pciBarOffset, pciBaseAddress0, pciBaseAddress5]; omega
    · simp only [ConfigWrite.bar]
      rw [hw]
      simp only [pciBarOffset]
      omega
  have hones : (c.write.stored c.pre).barReg c.write.d i = 2 ^ 32 - 1 := by
    have hhdr : ((c.write.stored c.pre).dev c.write.d).hdr =
        patch (c.pre.dev c.write.d).hdr (pciBarOffset i) [0xFF, 0xFF, 0xFF, 0xFF] := by
      simp only [ConfigWrite.stored, PciSys.setHdr, PciSys.setDev, Function.update_self]
      rw [hw]
    simp only [PciSys.barReg, hhdr, getLE]
    rw [show (4 : Nat) = [(0xFF : UInt8), 0xFF, 0xFF, 0xFF].length from rfl, slice_patch_same]
    decide
  have hmask : barMask ((c.pre.dev c.write.d).barSize i) < 2 ^ 32 := by unfold barMask; omega
  have hflag := barFlag_lt c.pre c.write.d i
  have hf := c.frame hret
  have hnew : (c.write.stored c.pre).newBar c.write.d i =
      barMask ((c.pre.dev c.write.d).barSize i) ||| c.pre.barFlag c.write.d i := by
    rw [PciSys.newBar, hones, Nat.and_comm, Nat.and_two_pow_sub_one_eq_mod, (stored_sizes c).1,
      Nat.mod_eq_of_lt hmask]
    simp only [PciSys.barFlag, (stored_sizes c).2]
  rw [((c.written hret).repaired i hst).1, hnew, hf.size, stored_flag hf]
  exact Nat.mod_eq_of_lt (Nat.or_lt_two_pow hmask (by omega))

/-- The steps follow each other from `s` on, each of them a write that returned. -/
def Follows : PciSys ι → List (ConfigStep ι) → Prop
  | _, [] => True
  | s, c :: cs => c.pre = s ∧ c.Returns ∧ Follows c.post cs

theorem Follows.sizesRight_iff {cs : List (ConfigStep ι)} :
    ∀ {s : PciSys ι}, Follows s cs → s.Layout d → s.SizesRight d →
      ((∀ c ∈ cs, c.post.SizesRight d) ↔ ∀ c ∈ cs, c.InPlace d) := by
  induction cs with
  | nil => intro s _ _ _; simp
  | cons c cs ih =>
    rintro s ⟨rfl, hret, hrest⟩ hl hs
    have hstep := c.sizesRight_iff hl hs hret
    have hl' := (c.frame hret).layout hl
    simp only [List.forall_mem_cons]
    constructor
    · rintro ⟨h1, h2⟩
      exact ⟨hstep.mp h1, (ih hrest hl' h1).mp h2⟩
    · rintro ⟨h1, h2⟩
      have hp := hstep.mpr h1
      exact ⟨hp, (ih hrest hl' hp).mpr h2⟩

theorem Follows.returns {cs : List (ConfigStep ι)} :
    ∀ {s : PciSys ι}, Follows s cs → ∀ c ∈ cs, c.Returns := by
  induction cs with
  | nil => intro s _ c hc; cases hc
  | cons c cs ih =>
    rintro s ⟨-, hret, hrest⟩
    exact List.forall_mem_cons.mpr ⟨hret, ih hrest⟩

/-- **BAR sizing.** Over any sequence of configuration writes after a device was made, the BARs and
the ROM register read as sizing requires in every state exactly when every write to the device is in
place; and ones written to a BAR always read back as its mask and kind. -/
theorem bar_sizing_run (s : PciSys ι) (d : ι) {bars : List BarSpec} (hb : ∀ b ∈ bars, b.Valid)
    {cs : List (ConfigStep ι)} (h : Follows (makeDev s d bars) cs) :
    (makeDev s d bars).SizesRight d ∧
      ((∀ c ∈ cs, c.post.SizesRight d) ↔ ∀ c ∈ cs, c.InPlace d) ∧
      ∀ c ∈ cs, ∀ i < pciStdNumBars, c.write = ⟨d, pciBarOffset i, [0xFF, 0xFF, 0xFF, 0xFF]⟩ →
        c.post.barReg d i = barMask ((c.post.dev d).barSize i) ||| c.post.barFlag d i := by
  obtain ⟨hl, hs⟩ := sizesRight_makeDev s d hb
  refine ⟨hs, h.sizesRight_iff hl hs, ?_⟩
  intro c hc i hi hw
  exact c.ones_read_back (h.returns c hc) hi hw

end Runs

end

/-! ## One device -/

/-- The step of a write to a BAR. -/
def barStepOf (s : PciSys Unit) (w : ConfigWrite Unit) : ConfigStep Unit :=
  ⟨w, 0, s, pciConfigBar (w.stored s) () w.bar⟩

/-- The step of a write that is stored and nothing else. -/
def plainStepOf (s : PciSys Unit) (w : ConfigWrite Unit) : ConfigStep Unit := ⟨w, 0, s, w.stored s⟩

def probeBar0 : ConfigWrite Unit := ⟨(), pciBarOffset 0, [0xFF, 0xFF, 0xFF, 0xFF]⟩

theorem bar_sizing_probe :
    ∃ c : ConfigStep Unit, Follows (makeDev oneDev () [⟨0, 256, false⟩]) [c] ∧ c.write = probeBar0 ∧
      c.post.SizesRight () ∧ c.post.barReg () 0 = 0xFFFFFF00 := by
  have hrun : Follows (makeDev oneDev () [⟨0, 256, false⟩])
      [barStepOf (makeDev oneDev () [⟨0, 256, false⟩]) probeBar0] := ⟨rfl, rfl, trivial⟩
  have hval : ∀ b ∈ [(⟨0, 256, false⟩ : BarSpec)], b.Valid := by
    intro b hb
    obtain rfl := List.mem_singleton.mp hb
    exact ⟨by decide, 8, by decide, by decide, rfl⟩
  obtain ⟨-, hiff, hones⟩ := bar_sizing_run oneDev () hval hrun
  refine ⟨_, hrun, rfl, ?_, hones _ List.mem_cons_self 0 (by decide) rfl⟩
  refine hiff.mpr ?_ _ List.mem_cons_self
  intro c hc _
  obtain rfl := List.mem_singleton.mp hc
  refine ⟨?_, fun i hi => ?_, fun _ => by decide⟩
  · intro i hi hn
    have hne : i ≠ 0 := fun h0 => hn ⟨⟨by decide, by decide⟩, h0.symm⟩
    exact getLE_patch_apart (barOffset_apart hne)
  · obtain rfl : 0 = i := hi.2
    rfl

/-- Two writes that leave a BAR wrong: the base of an I/O BAR keeps the kind bit, and a byte written
at the end of BAR 5 is stored and not looked at. -/
theorem bar_writes_not_sized :
    (∃ c : ConfigStep Unit, Follows (makeDev oneDev () [⟨0, 16, true⟩]) [c] ∧
      c.write = ⟨(), pciBarOffset 0, toLE 4 0xC000⟩ ∧
      c.post.barReg () 0 = 0xC001 ∧ (c.post.heap (.space () 0)).base = 0xC001 ∧
      ¬ c.post.SizesRight ()) ∧
    ∃ c : ConfigStep Unit, Follows (makeDev oneDev () [⟨5, 256, false⟩]) [c] ∧
      c.write = ⟨(), 0x27, [0xFE]⟩ ∧
      c.post.barReg () 5 = 0xFE000000 ∧ (c.post.heap (.space () 5)).base = 0 ∧
      ¬ c.post.SizesRight () := by
  refine ⟨⟨barStepOf _ ⟨(), pciBarOffset 0, toLE 4 0xC000⟩, ⟨rfl, rfl, trivial⟩, rfl, ?_, ?_,
    fun h => ?_⟩, ⟨plainStepOf _ ⟨(), 0x27, [0xFE]⟩, ⟨rfl, rfl, trivial⟩, rfl, ?_, ?_, fun h => ?_⟩⟩
  · decide +kernel
  · decide +kernel
  · have := (h.present 0 (by decide) (by decide +kernel)).2
    revert this
    decide +kernel
  · decide +kernel
  · decide +kernel
  · have := (h.present 5 (by decide) (by decide +kernel)).2
    revert this
    decide +kernel

end KvmHost
