import KvmHost.AddressMap

/-!
# KvmHost.ConfigSpace

Configuration space as a driver uses it, on either platform.

What it is meant to be is a file of bytes for each device, in which some bytes are fixed
(`writable`): the low byte of BAR 0, whose window has 256 bytes, the BARs that are not there, and
the ROM address. `fileAccess` is an access to that file, and total. A driver has two ways to it: the
latch and the data port on x86, the window of the platform on arm64 (`Machine.configAccess`). For
accesses inside one register that respect the registers with side effects (`Sane`), both give the
driver the transcript of the file, however long it goes on, and leave the headers as the file has
them; on arm64 as long as no BAR that decodes lies over the windows of the platform.
-/

namespace KvmHost

open ByteStore LinkedList

/-! ## The file -/

/-- The bits of a byte that can be written. -/
def writable (p : Nat) : UInt8 :=
  if p = pciBarOffset 0 ∨ (pciBarOffset 1 ≤ p ∧ p < pciBarOffset 6) ∨
    (pciRomAddress ≤ p ∧ p < pciRomAddress + 4) then 0
  else 0xFF

def fileWrite (hdr : Store) (off : Nat) (data : List UInt8) : Store := fun p =>
  if Span.Has ⟨off, data.length⟩ p then patch hdr off data p &&& writable p else hdr p

/-- What is fixed is zero. -/
def Wired (hdr : Store) : Prop := ∀ p, writable p = 0 → hdr p = 0

/-- An access of a driver: `data.length` bytes of one register, at byte `off` of the device in slot
`slot`. -/
structure ConfigAccess where
  slot : Nat
  off : Nat
  isWrite : Bool
  data : List UInt8
  slot_lt : slot < 32
  off_lt : off < pciCfgSpaceSize
  size_pos : 1 ≤ data.length
  inRegister : off % 4 + data.length ≤ 4

section

variable {ι : Type} [DecidableEq ι]

def fileAccess (ds : List ι) (file : ι → Store) (c : ConfigAccess) : (ι → Store) × List UInt8 :=
  match ds[c.slot]? with
  | none => (file, c.data)
  | some d =>
    if c.isWrite then (Function.update file d (fileWrite (file d) c.off c.data), c.data)
    else (file, slice (file d) c.off c.data.length)

/-- COMMAND, the last BAR and the ROM address are written from their first byte on, and BARs while
MEMORY is off. -/
def ConfigAccess.Sane (ds : List ι) (file : ι → Store) (c : ConfigAccess) : Prop :=
  c.isWrite = true →
    c.off ∉ [pciCommand + 1, pciBaseAddress5 + 1, pciBaseAddress5 + 2, pciBaseAddress5 + 3,
      pciRomAddress + 1, pciRomAddress + 2, pciRomAddress + 3] ∧
    (pciBaseAddress0 ≤ c.off → c.off ≤ pciBaseAddress5 → ∀ d, ds[c.slot]? = some d →
      (getLE (file d) pciCommand 2).testBit pciCommandMemory = false)

end

/-! ## Bytes -/

theorem and_full (b : UInt8) : b &&& 0xFF = b := by
  apply UInt8.toBitVec_inj.mp
  exact BitVec.and_allOnes

theorem fileWrite_byte {hdr : Store} {off p : Nat} {data : List UInt8} (h : writable p = 0xFF) :
    fileWrite hdr off data p = patch hdr off data p := by
  unfold fileWrite
  split
  · rw [h, and_full]
  · rename_i hp
    exact (patch_out hp).symm

theorem fileWrite_full {hdr : Store} {off : Nat} {data : List UInt8}
    (h : ∀ p, Span.Has ⟨off, data.length⟩ p → writable p = 0xFF) :
    fileWrite hdr off data = patch hdr off data := by
  funext p
  by_cases hp : Span.Has ⟨off, data.length⟩ p
  · exact fileWrite_byte (h p hp)
  · rw [fileWrite, if_neg hp, patch_out hp]

theorem Wired.write {hdr : Store} (h : Wired hdr) (off : Nat) (data : List UInt8) :
    Wired (fileWrite hdr off data) := by
  intro p hp
  unfold fileWrite
  split
  · rw [hp]
    exact UInt8.and_zero
  · exact h p hp

/-- A write that is followed by a repair of the register it is in. -/
theorem fileWrite_repair {hdr : Store} (h : Wired hdr) {off a v : Nat} {data : List UInt8}
    (hlo : a ≤ off) (hhi : off + data.length ≤ a + 4)
    (hbytes : ∀ i < 4, (writable (a + i) = 0 ∧ UInt8.ofNat (v / 256 ^ i) = 0) ∨
      (writable (a + i) = 0xFF ∧ UInt8.ofNat (v / 256 ^ i) = patch hdr off data (a + i))) :
    putLE (patch hdr off data) a 4 v = fileWrite hdr off data := by
  funext p
  by_cases hp : Span.Has ⟨a, 4⟩ p
  · obtain ⟨i, rfl⟩ := Nat.exists_eq_add_of_le hp.1
    have hi : i < 4 := Nat.lt_of_add_lt_add_left hp.2
    show putLE (patch hdr off data) a 4 v (a + i) = fileWrite hdr off data (a + i)
    rw [putLE_in _ _ _ hi]
    rcases hbytes i hi with ⟨hw, hv⟩ | ⟨hw, hv⟩
    · rw [hv, h.write off data _ hw]
    · rw [hv, fileWrite_byte hw]
  · have hout : ¬ Span.Has ⟨off, data.length⟩ p := Span.not_has_of_part hp hlo hhi
    rw [putLE_out hp, patch_out hout, fileWrite, if_neg hout]

section

variable {ι : Type} [DecidableEq ι] {arch : Arch} {ds : List ι} {s : PciSys ι} {c : ConfigStep ι}

theorem hdr_configBar (s : PciSys ι) (d : ι) (bar : Nat) :
    ((pciConfigBar s d bar).dev d).hdr =
      putLE (s.dev d).hdr (pciBarOffset bar) 4 (s.newBar d bar) := by
  simp [pciConfigBar, PciSys.setDev, PciSys.newBar, PciSys.barReg, PciSys.barFlag]

theorem hdr_stored (w : ConfigWrite ι) (s : PciSys ι) :
    ((w.stored s).dev w.d).hdr = patch (s.dev w.d).hdr w.offset w.data := by
  simp [ConfigWrite.stored, PciSys.setHdr, PciSys.setDev]

omit [DecidableEq ι] in
/-- The bytes that `pci_config_bar` leaves in a BAR. -/
theorem newBar_bytes {d : ι} {bar : Nat} (hbar : bar < pciStdNumBars)
    (hmem : (s.dev d).barIsIoSpace bar = false) (h0 : bar = 0 → (s.dev d).barSize bar = barWindow)
    (hne : bar ≠ 0 → (s.dev d).barSize bar = 0) :
    ∀ i < 4,
      (writable (pciBarOffset bar + i) = 0 ∧ UInt8.ofNat (s.newBar d bar / 256 ^ i) = 0) ∨
      (writable (pciBarOffset bar + i) = 0xFF ∧
        UInt8.ofNat (s.newBar d bar / 256 ^ i) = (s.dev d).hdr (pciBarOffset bar + i)) := by
  intro i hi
  by_cases hb : bar = 0
  · subst hb
    have hflag : s.barFlag d 0 = 0 := by
      unfold PciSys.barFlag
      rw [hmem]
      rfl
    have hnew := (newBar_eq (k := 8) (by decide) (by decide) (h0 rfl)).1
    rw [hflag, Nat.add_zero] at hnew
    rw [hnew, show (2 : Nat) ^ 8 = 256 from rfl]
    cases i with
    | zero =>
      refine .inl ⟨rfl, ?_⟩
      apply UInt8.toNat_inj.mp
      rw [UInt8.toNat_ofNat', Nat.pow_zero, Nat.div_one]
      exact Nat.mul_mod_left _ _
    | succ i =>
      have hw : ∀ j < 4, j ≠ 0 → writable (pciBarOffset 0 + j) = 0xFF := by decide
      refine .inr ⟨hw _ hi (Nat.succ_ne_zero i), ?_⟩
      rw [← byte_getLE (s.dev d).hdr (pciBarOffset 0) hi]
      congr 1
      rw [Nat.pow_succ', ← Nat.div_div_eq_div_mul, ← Nat.div_div_eq_div_mul,
        Nat.mul_div_cancel _ (by decide)]
      rfl
  · have hnew := newBar_absent (hne hb) hmem
    have hw : ∀ b < pciStdNumBars, b ≠ 0 → ∀ j < 4, writable (pciBarOffset b + j) = 0 := by decide
    rw [hnew, Nat.zero_div]
    exact .inl ⟨hw bar hbar hb i hi, rfl⟩

/-- What `pci_config_write` makes of a sane write. -/
theorem ConfigStep.file_eq (h : c.pre.Mapped arch ds) (hret : c.Returns) (hd : c.write.d ∈ ds)
    (hw : Wired (c.pre.file c.write.d)) (hreg : c.write.offset % 4 + c.write.data.length ≤ 4)
    (hoff : c.write.offset ∉ [pciCommand + 1, pciBaseAddress5 + 1, pciBaseAddress5 + 2,
      pciBaseAddress5 + 3, pciRomAddress + 1, pciRomAddress + 2, pciRomAddress + 3]) :
    c.post.file = Function.update c.pre.file c.write.d
      (fileWrite (c.pre.file c.write.d) c.write.offset c.write.data) := by
  funext e
  by_cases he : e = c.write.d
  swap
  · rw [Function.update_of_ne he]
    exact (c.frame hret).hdr e he
  subst he
  rw [Function.update_self]
  show (c.post.dev c.write.d).hdr = fileWrite (c.pre.dev c.write.d).hdr c.write.offset c.write.data
  simp only [List.mem_cons, List.not_mem_nil, or_false, not_or, pciCommand, pciBaseAddress5,
    pciRomAddress] at hoff
  rcases c.returns_cases hret with ⟨hcmd, hsame⟩ | ⟨hbar, hpost⟩ | ⟨hrom, hpost⟩ | ⟨hbar, hrom,
    hpost⟩
  · rw [hsame.hdr, hdr_stored, fileWrite_full]
    intro p hp
    have hlo := hp.1
    have hhi := hp.2
    have hall : ∀ q < 8, writable q = 0xFF := by decide
    simp only [hcmd, pciCommand] at hlo hhi hreg
    exact hall p (by omega)
  · have hlt : c.write.bar < pciStdNumBars := ConfigWrite.StartsIn.lt ⟨hbar, rfl⟩
    obtain ⟨hlo, hhi⟩ := hbar
    have hst := plainWrite_stored c.write c.pre
    have hbytes := newBar_bytes (s := c.write.stored c.pre) (d := c.write.d) hlt
      (by rw [(hst.bars _).isIo]; exact h.platform.memory _ _)
      (fun h0 => by rw [(hst.bars _).size, h0]; exact (h.devices.present _ hd).1)
      (fun h0 => by rw [(hst.bars _).size]; exact h.devices.absent _ _ hlt fun hc => h0 hc.2)
    rw [hdr_stored] at hbytes
    rw [hpost, hdr_configBar, hdr_stored]
    have hat : pciBarOffset c.write.bar ≤ c.write.offset ∧
        c.write.offset < pciBarOffset c.write.bar + 4 ∧
        pciBarOffset c.write.bar % 4 = 0 := by
      unfold pciBarOffset ConfigWrite.bar pciBaseAddress0 at *
      omega
    exact fileWrite_repair hw hat.1 (by omega) hbytes
  · rw [hpost]
    have hhdr : (((c.write.stored c.pre).setHdr c.write.d
        (putLE ((c.write.stored c.pre).dev c.write.d).hdr pciRomAddress 4 0)).dev c.write.d).hdr =
        putLE (patch (c.pre.dev c.write.d).hdr c.write.offset c.write.data) pciRomAddress 4 0 := by
      rw [← hdr_stored]
      simp [PciSys.setHdr, PciSys.setDev]
    rw [hhdr]
    have hall : ∀ i < 4, writable (pciRomAddress + i) = 0 := by decide
    refine fileWrite_repair hw (by omega) ?_ fun i hi => .inl ⟨hall i hi, ?_⟩
    · simp only [hrom, pciRomAddress] at hreg ⊢
      omega
    · rw [Nat.zero_div]
      rfl
  · rw [hpost, hdr_stored, fileWrite_full]
    intro p hp
    obtain ⟨hlo, hhi⟩ := hp
    unfold ConfigWrite.IsBar pciBaseAddress0 pciBaseAddress5 at hbar
    unfold pciRomAddress at hrom
    unfold writable pciBarOffset pciBaseAddress0 pciRomAddress
    refine if_neg ?_
    simp only at hlo hhi
    omega

theorem ConfigStep.sane_tidy (h : c.pre.Platform arch)
    (hreg : c.write.offset % 4 + c.write.data.length ≤ 4)
    (hoff : c.write.offset ∉ [pciCommand + 1, pciBaseAddress5 + 1, pciBaseAddress5 + 2,
      pciBaseAddress5 + 3, pciRomAddress + 1, pciRomAddress + 2, pciRomAddress + 3])
    (hen : c.write.IsBar → c.pre.enable c.write.d false = false) :
    c.Orderly ∧ ∀ d, c.InPlace d := by
  simp only [List.mem_cons, List.not_mem_nil, or_false, not_or, pciCommand, pciBaseAddress5,
    pciRomAddress] at hoff
  by_cases hcmd : c.write.offset = pciCommand
  · exact c.command_tidy hcmd (by omega)
  · by_cases hbar : c.write.IsBar
    · refine c.bar_tidy (fun i => h.memory _ i) (hen hbar) hbar ?_
      obtain ⟨hlo, -⟩ := hbar
      unfold pciBarOffset ConfigWrite.bar pciBaseAddress0 at *
      omega
    · unfold ConfigWrite.IsBar pciBaseAddress0 pciBaseAddress5 at hbar
      unfold pciCommand at hcmd
      refine c.plain_tidy hbar ?_ (fun i hi => ?_) fun hrom => ?_
      · simp only [Span.Apart, pciCommand]
        omega
      · simp only [Span.Apart, pciBarOffset, pciBaseAddress0, pciStdNumBars] at hi ⊢
        omega
      · unfold pciRomAddress at hrom
        simp only [Span.Apart, pciRomAddress]
        omega

/-- The buses are short, so `pci_command_bar` ends. -/
theorem PciSys.Mapped.write_returns (h : s.Mapped arch ds) (hnd : ds.Nodup) {fuel : Nat}
    (hf : ds.length + 3 < fuel) (w : ConfigWrite ι) :
    ∃ s', pciConfigWrite fuel s w.d w.offset w.data = .ok s' := by
  unfold pciConfigWrite
  simp only
  split
  · have hst := plainWrite_stored w s
    refine command_total (s := w.stored s) _ _ _ (hst.kindOk h.platform.kindOk) fun io _ => ?_
    cases io with
    | true =>
      refine ⟨_, (hst.nodes _ _).mpr h.platform.ports, ?_⟩
      cases arch <;> simp only [platformNodes, List.length_cons, List.length_nil] <;> omega
    | false =>
      obtain ⟨xs, hx, -⟩ := h.agrees.lists false
      exact ⟨xs, (hst.nodes _ _).mpr hx, Nat.lt_of_le_of_lt (h.nodes_length hnd hx) (by omega)⟩
  · split
    · exact ⟨_, rfl⟩
    · split
      · exact ⟨_, rfl⟩
      · exact ⟨_, rfl⟩

end

/-! ## The two ways to it -/

namespace ConfigAccess

variable (c : ConfigAccess)

def addr : Nat := 2048 * c.slot + c.off

theorem addr_lt : c.addr + c.data.length ≤ pciMmioSize := by
  have hs := c.slot_lt
  have ho := c.off_lt
  have hr := c.inRegister
  unfold pciCfgSpaceSize at ho
  unfold addr pciMmioSize
  omega

theorem latch_ok :
    1 ≤ (toLE 4 (latchValue c.addr)).length ∧ (toLE 4 (latchValue c.addr)).length ≤ 8 ∧
    pciConfigAddr + (toLE 4 (latchValue c.addr)).length ≤ 2 ^ 64 := by
  rw [toLE_length]
  decide

theorem data_ok :
    1 ≤ c.data.length ∧ c.data.length ≤ 8 ∧ pciConfigData + c.off % 4 + c.data.length ≤ 2 ^ 64 := by
  have hr := c.inRegister
  refine ⟨c.size_pos, by omega, ?_⟩
  unfold pciConfigData
  omega

theorem window_ok :
    1 ≤ c.data.length ∧ c.data.length ≤ 8 ∧
      Arm64.armPciCfgBase + c.addr + c.data.length ≤ 2 ^ 64 := by
  have ha := c.addr_lt
  have hr := c.inRegister
  refine ⟨c.size_pos, by omega, ?_⟩
  unfold pciMmioSize at ha
  unfold Arm64.armPciCfgBase
  omega

/-- The register is latched, with the enable bit. -/
def latch : GuestAccess := .of false pciConfigAddr true (toLE 4 (latchValue c.addr)) c.latch_ok

def dataPort : GuestAccess := .of false (pciConfigData + c.off % 4) c.isWrite c.data c.data_ok

def window : GuestAccess := .of true (Arm64.armPciCfgBase + c.addr) c.isWrite c.data c.window_ok

end ConfigAccess

namespace Machine

variable {ι β : Type} [DecidableEq ι] (barIo : BarIo ι β) (fuel : Nat)

def configAccess (arch : Arch) (m : Machine ι β) (c : ConfigAccess) :
    Except Stop (Machine ι β × List UInt8) :=
  match arch with
  | .x86 => do
    let (m, _) ← m.access barIo fuel c.latch
    m.access barIo fuel c.dataPort
  | .arm64 => m.access barIo fuel c.window

/-- A driver at work: the machine afterwards, and what each access gave. -/
def configAccesses (arch : Arch) (m : Machine ι β) :
    List ConfigAccess → Except Stop (Machine ι β × List (List UInt8))
  | [] => .ok (m, [])
  | c :: cs => do
    let (m, data) ← m.configAccess barIo fuel arch c
    let (m, rest) ← configAccesses arch m cs
    return (m, data :: rest)

variable {barIo : BarIo ι β} {fuel : Nat} {arch : Arch} {ds : List ι} {m : Machine ι β}

omit [DecidableEq ι] in
/-- The latch names the device of the slot and the byte. -/
theorem slotCall_latch (c : ConfigAccess) :
    slotCall ds (latchValue c.addr) (c.off % 4) = ds[c.slot]?.map fun d => (d, c.off) := by
  have hs := c.slot_lt
  have ho := c.off_lt
  have ha := c.addr_lt
  have hpos := c.size_pos
  have hv : latchValue c.addr = 2 ^ 31 + c.addr / 4 * 4 := latchValue_eq (by omega)
  unfold pciCfgSpaceSize at ho
  unfold ConfigAccess.addr at *
  have hen : PciConfigAddress.enableBit (latchValue (2048 * c.slot + c.off)) = 1 ∧
      PciConfigAddress.reserved (latchValue (2048 * c.slot + c.off)) = 0 ∧
      PciConfigAddress.busNum (latchValue (2048 * c.slot + c.off)) = 0 ∧
      PciConfigAddress.funcNum (latchValue (2048 * c.slot + c.off)) = 0 := by
    unfold PciConfigAddress.enableBit PciConfigAddress.reserved PciConfigAddress.busNum
      PciConfigAddress.funcNum
    omega
  have hdev : PciConfigAddress.devNum (latchValue (2048 * c.slot + c.off)) = c.slot := by
    unfold PciConfigAddress.devNum
    omega
  have hreg : 4 * PciConfigAddress.regNum (latchValue (2048 * c.slot + c.off)) + c.off % 4 =
      c.off := by
    unfold PciConfigAddress.regNum
    omega
  rw [slotCall, if_pos hen, hdev, hreg]

omit [DecidableEq ι] in
theorem windowCall_addr (c : ConfigAccess) :
    windowCall ds c.addr c.data.length = ds[c.slot]?.map fun d => (d, c.off) := by
  have ho := c.off_lt
  have hr := c.inRegister
  unfold pciCfgSpaceSize at ho
  have hmod : c.addr % 2048 = c.off := by
    unfold ConfigAccess.addr
    omega
  have hdiv : c.addr / 2048 = c.slot := by
    unfold ConfigAccess.addr
    omega
  rw [windowCall, hmod, hdiv, if_pos (by unfold pciCfgSpaceSize; omega)]

theorem access_latch (h : m.Up .x86 ds) (hn : ds.length ≤ 32) (hf : 32 < fuel) (c : ConfigAccess) :
    m.access barIo fuel c.latch =
      .ok ({ m with pci := (pciAddressIo m.pci (toLE 4 (latchValue c.addr)) true 0).2 },
        toLE 4 (latchValue c.addr)) := by
  have hport : m.routeIo fuel pciConfigAddr 4 =
      .ok (portTarget .x86 ds m.pci.value pciConfigAddr 4) :=
    h.routeIo hn hf (by decide) (by decide) (by decide) fun _ hle => absurd hle (by decide)
  have hroute : m.route fuel c.latch = .ok (.latch 0) := by
    show m.routeIo fuel pciConfigAddr (toLE 4 (latchValue c.addr)).length = _
    rw [toLE_length, hport]
    rfl
  rw [access, hroute]
  rfl

theorem route_dataPort (h : m.Up .x86 ds) (hn : ds.length ≤ 32) (hf : 32 < fuel)
    (hl : m.pci.Latched) (c : ConfigAccess) (hv : m.pci.value = latchValue c.addr) :
    m.route fuel c.dataPort = .ok (.ofConfig (ds[c.slot]?.map fun d => (d, c.off))) := by
  have hr := c.inRegister
  have hpos := c.size_pos
  have hport : m.routeIo fuel (pciConfigData + c.off % 4) c.data.length =
      .ok (portTarget .x86 ds m.pci.value (pciConfigData + c.off % 4) c.data.length) :=
    h.routeIo hn hf hpos (by omega) c.data_ok.2.2 fun _ _ _ => hl
  show m.routeIo fuel (pciConfigData + c.off % 4) c.data.length = _
  have hout : ¬ (Arm64.com1PortBase ≤ pciConfigData + c.off % 4 ∧
      pciConfigData + c.off % 4 + c.data.length ≤ Arm64.com1PortBase + Arm64.com1PortSize) := by
    unfold Arm64.com1PortBase Arm64.com1PortSize pciConfigData
    omega
  rw [hport, hv, portTarget, if_neg hout, if_pos ⟨rfl, by omega, by omega⟩, Nat.add_sub_cancel_left,
    slotCall_latch]

theorem route_window (h : m.Up .arm64 ds) (hm : m.sys.Mapped .arm64 ds) (hnd : ds.Nodup)
    (hn : ds.length ≤ 32) (hp : Placed .arm64 ds m.sys.file) (hf : 34 < fuel) (c : ConfigAccess) :
    m.route fuel c.window = .ok (.ofConfig (ds[c.slot]?.map fun d => (d, c.off))) := by
  have ha := c.addr_lt
  have hpos := c.size_pos
  have hok := c.window_ok
  have hmmio : m.routeMmio fuel (Arm64.armPciCfgBase + c.addr) c.data.length =
      .ok (mmioTarget .arm64 ds m.sys.file (Arm64.armPciCfgBase + c.addr) c.data.length) :=
    h.routeMmio hm hnd hn hp hf hok.1 hok.2.1 hok.2.2
  have hbar : barAt ds m.sys.file (Arm64.armPciCfgBase + c.addr) c.data.length = none := by
    -- no BAR reaches into the window of the platform
    rw [barAt, List.find?_eq_none]
    intro d hd hc
    obtain ⟨hcl, hlo, hhi⟩ := of_decide_eq_true hc
    have hap : bar0 (m.sys.file d) + barWindow ≤ Arm64.armPciCfgBase ∨
        Arm64.armPciCfgBase + Arm64.armPciCfgSize ≤ bar0 (m.sys.file d) :=
      hp.platform d hd hcl .pciMmioDev (List.mem_of_getElem? (i := 0) rfl)
    unfold Arm64.armPciCfgSize at hap
    unfold pciMmioSize at ha
    omega
  have hio : ¬ Arm64.armPciCfgBase + c.addr + c.data.length ≤ Arm64.armIoportSize := by
    unfold Arm64.armPciCfgBase Arm64.armIoportSize
    omega
  have hin : Arm64.armPciCfgBase ≤ Arm64.armPciCfgBase + c.addr ∧
      Arm64.armPciCfgBase + c.addr + c.data.length ≤ Arm64.armPciCfgBase + Arm64.armPciCfgSize := by
    unfold pciMmioSize at ha
    unfold Arm64.armPciCfgSize
    omega
  show m.routeMmio fuel (Arm64.armPciCfgBase + c.addr) c.data.length = _
  rw [hmmio, mmioTarget, hbar]
  simp only [platformTarget, if_true, if_neg hio, if_pos hin, Nat.add_sub_cancel_left,
    windowCall_addr]

/-- Both ways end at the byte; on x86 the latch has been set before. -/
theorem configAccess_eq (barIo : BarIo ι β) (h : m.Up arch ds) (hm : m.sys.Mapped arch ds)
    (hnd : ds.Nodup) (hn : ds.length ≤ 32) (hp : arch = .arm64 → Placed arch ds m.sys.file)
    (hf : 35 < fuel) (c : ConfigAccess) :
    ∃ pci, Slots ds pci ∧ m.configAccess barIo fuel arch c =
      act barIo fuel { m with pci }
        (.ofConfig (ds[c.slot]?.map fun d => (d, c.off))) c.isWrite c.data := by
  cases arch with
  | x86 =>
    have ha := c.addr_lt
    have hpos := c.size_pos
    have hlt : c.addr < pciMmioSize := by omega
    have hle : leNat (toLE 4 (latchValue c.addr)) = latchValue c.addr := by
      rw [leNat_toLE, latchValue_eq hlt, Nat.mod_eq_of_lt]
      unfold pciMmioSize at hlt
      omega
    have hval := value_latch m.pci
        (w := ⟨pciConfigAddr, true, toLE 4 (latchValue c.addr), by simp, by simp⟩) hlt
      (toLE_length _ _) hle
    have hslots := slots_addressIo h.slots (toLE 4 (latchValue c.addr)) true 0
    have hlatched := latched_addressIo m.pci (toLE 4 (latchValue c.addr)) true 0
    have hup : Up .x86 ds
        { m with pci := (pciAddressIo m.pci (toLE 4 (latchValue c.addr)) true 0).2 } :=
      ⟨h.platform, hslots⟩
    refine ⟨_, hslots, ?_⟩
    rw [configAccess, access_latch h hn (by omega), ok_bind]
    simp only
    rw [access, route_dataPort hup hn (by omega) hlatched c hval, ok_bind]
    rfl
  | arm64 =>
    refine ⟨m.pci, h.slots, ?_⟩
    rw [configAccess, access, route_window h hm hnd hn (hp rfl) (by omega) c, ok_bind]
    rfl

end Machine

/-! ## Transcripts -/

theorem getLE_zero_byte {hdr : Store} {a n i : Nat} (h : getLE hdr a n = 0) (hi : i < n) :
    hdr (a + i) = 0 := by
  rw [← byte_getLE hdr a hi, h, Nat.zero_div]
  rfl

section

variable {ι β : Type} [DecidableEq ι] {arch : Arch} {ds : List ι}

omit [DecidableEq ι] in
/-- Registers that are right have their fixed bytes at zero. -/
theorem PciSys.Mapped.wired {s : PciSys ι} (h : s.Mapped arch ds) {d : ι} (hd : d ∈ ds) :
    Wired (s.file d) := by
  intro p hp
  have hsize := (h.devices.present d hd).1
  have hzero : p = pciBarOffset 0 ∨ (pciBarOffset 1 ≤ p ∧ p < pciBarOffset 6) ∨
      (pciRomAddress ≤ p ∧ p < pciRomAddress + 4) := by
    by_contra hc
    rw [writable, if_neg hc] at hp
    exact absurd hp (by decide)
  rcases hzero with rfl | ⟨hlo, hhi⟩ | ⟨hlo, hhi⟩
  · have hmod := ((h.devices.regs d).present 0 (by decide) (by rw [hsize]; decide)).1
    have hbyte : UInt8.ofNat (s.barReg d 0 / 256 ^ 0) = (s.dev d).hdr (pciBarOffset 0 + 0) :=
      byte_getLE (s.dev d).hdr (pciBarOffset 0) (by decide)
    rw [hsize, PciSys.barFlag, h.platform.memory] at hmod
    show (s.dev d).hdr (pciBarOffset 0 + 0) = 0
    rw [← hbyte]
    apply UInt8.toNat_inj.mp
    rw [UInt8.toNat_ofNat', Nat.pow_zero, Nat.div_one]
    exact hmod
  · unfold pciBarOffset pciBaseAddress0 at hlo hhi
    obtain ⟨bar, i, hbar, hi, rfl⟩ :
        ∃ bar i, (1 ≤ bar ∧ bar < pciStdNumBars) ∧ i < 4 ∧ p = pciBarOffset bar + i := by
      refine ⟨(p - 16) / 4, (p - 16) % 4, ?_, Nat.mod_lt _ (by decide), ?_⟩
      · unfold pciStdNumBars
        omega
      · unfold pciBarOffset pciBaseAddress0
        omega
    have hreg := (h.devices.regs d).absent bar hbar.2 (h.devices.absent d bar hbar.2 (by omega))
    exact getLE_zero_byte hreg hi
  · obtain ⟨i, rfl⟩ := Nat.exists_eq_add_of_le hlo
    exact getLE_zero_byte (h.devices.regs d).rom (by omega)

/-- A driver at work on the file. -/
def fileAccesses (ds : List ι) (file : ι → Store) :
    List ConfigAccess → (ι → Store) × List (List UInt8)
  | [] => (file, [])
  | c :: cs =>
    let first := fileAccess ds file c
    let rest := fileAccesses ds first.1 cs
    (rest.1, first.2 :: rest.2)

/-- Every access is sane and, on arm64, is made while no BAR that decodes overlaps another or one of
the windows of the platform: the configuration space is behind one of these. -/
def Proper (arch : Arch) (ds : List ι) : (ι → Store) → List ConfigAccess → Prop
  | _, [] => True
  | file, c :: cs =>
    c.Sane ds file ∧ (arch = .arm64 → Placed arch ds file) ∧
      Proper arch ds (fileAccess ds file c).1 cs

namespace Machine

variable {barIo : BarIo ι β} {fuel : Nat} {m : Machine ι β}

/-- One access: it returns what the file gives, and the headers are those of the file. -/
theorem configAccess_file (barIo : BarIo ι β) (h : m.Up arch ds) (hm : m.sys.Mapped arch ds)
    (hnd : ds.Nodup) (hn : ds.length ≤ 32) (hf : 35 < fuel) {c : ConfigAccess}
    (hs : c.Sane ds m.sys.file) (hp : arch = .arm64 → Placed arch ds m.sys.file) :
    ∃ m', m.configAccess barIo fuel arch c = .ok (m', (fileAccess ds m.sys.file c).2) ∧
      m'.sys.file = (fileAccess ds m.sys.file c).1 ∧ m'.Up arch ds ∧ m'.sys.Mapped arch ds := by
  obtain ⟨pci, hslots, heq⟩ := configAccess_eq barIo h hm hnd hn hp hf c
  rw [heq]
  unfold fileAccess
  cases hd : ds[c.slot]? with
  | none => exact ⟨{ m with pci }, rfl, rfl, ⟨h.platform, hslots⟩, hm⟩
  | some d =>
    have hmem : d ∈ ds := List.mem_of_getElem? hd
    cases hwr : c.isWrite with
    | false => exact ⟨{ m with pci }, rfl, rfl, ⟨h.platform, hslots⟩, hm⟩
    | true =>
      obtain ⟨hoff, hen⟩ := hs hwr
      obtain ⟨sys, hret⟩ :=
        hm.write_returns hnd (show ds.length + 3 < fuel by omega) ⟨d, c.off, c.data⟩
      let step : ConfigStep ι := ⟨⟨d, c.off, c.data⟩, fuel, m.sys, sys⟩
      have hstep : step.Returns := hret
      have htidy := step.sane_tidy h.platform c.inRegister hoff fun hbar => hen hbar.1 hbar.2 d hd
      refine ⟨{ m with pci, sys }, ?_, step.file_eq hm hstep hmem (hm.wired hmem) c.inRegister hoff,
        ?_, ?_⟩
      · simp only [Option.map_some, Target.ofConfig, act, if_true]
        rw [hret]
        rfl
      · exact ⟨h.platform.config hstep, hslots⟩
      · exact hm.config hstep htidy.1 htidy.2

theorem configAccesses_file (hnd : ds.Nodup) (hn : ds.length ≤ 32) (hf : 35 < fuel)
    (cs : List ConfigAccess) :
    ∀ {m : Machine ι β}, m.Up arch ds → m.sys.Mapped arch ds → Proper arch ds m.sys.file cs →
      ∃ m', m.configAccesses barIo fuel arch cs = .ok (m', (fileAccesses ds m.sys.file cs).2) ∧
        m'.sys.file = (fileAccesses ds m.sys.file cs).1 := by
  induction cs with
  | nil =>
    intro m _ _ _
    exact ⟨m, rfl, rfl⟩
  | cons c cs ih =>
    intro m h hm hp
    obtain ⟨hs, hplaced, hrest⟩ := hp
    obtain ⟨m₁, hacc, hfile, hup, hmap⟩ := configAccess_file barIo h hm hnd hn hf hs hplaced
    rw [← hfile] at hrest
    obtain ⟨m₂, haccs, hfile₂⟩ := ih hup hmap hrest
    refine ⟨m₂, ?_, ?_⟩
    · rw [configAccesses, hacc, ok_bind]
      simp only
      rw [haccs, ok_bind, fileAccesses, hfile]
      rfl
    · rw [hfile₂, hfile]
      rfl

end Machine

/-- **Configuration space.** On both platforms, from every state of a run whose configuration writes
are orderly and in place: any sequence of sane accesses returns, gives the driver the transcript
that the file of bytes gives, and leaves the headers as it leaves the file. On arm64 this takes that
at every access the BARs that decode are apart from each other and from the windows of the platform
(`Placed`, part of `Proper`); on x86, where configuration space is behind ports, BARs may be
anywhere. The transcript does not depend on the platform. -/
theorem config_space_transcript (barIo : BarIo ι β) (fuel : Nat) (hf : 35 < fuel) (arch : Arch)
    (ds : List ι) (hnd : ds.Nodup) (hn : ds.length ≤ 32) (kind : ι → VirtioKind)
    (host : (d : ι) → Host (kind d).Backend) (latch : Store) (heap : Heap ι) (devs : β)
    (es : List (MachineEvent β))
    (htidy : ∀ t ∈ Turns.turns (Machine.next barIo fuel)
      (.boot arch ds kind host latch heap devs) es, Machine.Tidy fuel t) :
    ∀ t ∈ Turns.turns (Machine.next barIo fuel) (.boot arch ds kind host latch heap devs) es,
      ∀ cs, Proper arch ds t.1.sys.file cs →
        ∃ m', t.1.configAccesses barIo fuel arch cs =
          .ok (m', (fileAccesses ds t.1.sys.file cs).2) ∧
          m'.sys.file = (fileAccesses ds t.1.sys.file cs).1 := by
  intro t ht cs hp
  exact Machine.configAccesses_file hnd hn hf cs (Machine.turns_up hnd hn es t ht)
    (turns_mapped hnd htidy t ht) hp

end

/-- All ones to BAR 0 of slot 0. -/
def probeOnes : ConfigAccess where
  slot := 0
  off := 0x10
  isWrite := true
  data := [0xFF, 0xFF, 0xFF, 0xFF]
  slot_lt := by decide
  off_lt := by decide
  size_pos := by decide
  inRegister := by decide

def probeRead : ConfigAccess := { probeOnes with isWrite := false }

/-- A driver finds the size of BAR 0. -/
theorem config_space_probe :
    ∃ m', (blkMachine .x86).configAccesses noBars 36 .x86 [probeOnes, probeRead] =
      .ok (m', [[0xFF, 0xFF, 0xFF, 0xFF], [0x00, 0xFF, 0xFF, 0xFF]]) := by
  have htidy : ∀ t ∈ Turns.turns (Machine.next noBars 36) (blkMachine .x86)
      [.others ⟨serialDevPriv, 0, []⟩ ()],
      Machine.Tidy 36 t := by
    refine Turns.turns_next rfl (fun c hc => ?_) fun _ h => by cases h
    obtain ⟨a, ha, -⟩ := hc.access
    cases ha
  have hproper : Proper .x86 [()] (blkMachine .x86).sys.file [probeOnes, probeRead] := by
    refine ⟨fun _ => ⟨by decide, fun _ _ d _ => ?_⟩, fun h => (by cases h), ?_⟩
    · cases d
      decide +kernel
    · exact ⟨fun h => absurd h (by decide), fun h => (by cases h), trivial⟩
  obtain ⟨m', hm, -⟩ := config_space_transcript noBars 36 (by decide) .x86 [()] (by decide)
      (by decide) (fun _ => .blk)
    (fun _ => blkHost) (fun _ => 0xFF) blankNodes () _ htidy _
      (List.mem_of_getElem? (i := 0) rfl) _ hproper
  exact ⟨m', hm⟩

end KvmHost
