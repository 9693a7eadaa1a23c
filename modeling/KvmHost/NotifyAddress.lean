import KvmHost.BarAccess
import KvmHost.EventSuppression
import KvmHost.PciSizing

/-!
# KvmHost.NotifyAddress

The addresses that are registered for queue notifications.

`enable_vq` computes an address from the notify capability, a BAR dword and the queue's
`notify_off`, and registers it once. The capability and the dword are bytes of the configuration
space and `notify_off` is a register of BAR 0, so the guest can change all of them, and it can move
BAR 0 after the registration. `VirtioSys` joins a virtio device with its configuration space;
`notify_addresses` gives conditions on the guest under which every registration is where the device
decodes.
-/

namespace KvmHost

open ByteStore Turns

namespace VirtioKind

-- `notify_off_multiplier` as the devices are created
def multiplier : VirtioKind → Nat
  | blk => 0
  | net => notifyOffset

end VirtioKind

/-- A virtio device and the PCI devices, of which it is one. -/
structure VirtioSys (k : VirtioKind) (ι : Type) where
  pci : PciSys ι
  dev : VirtioPciDev k.Backend

inductive GuestEvent (ι : Type) where
  | config (w : ConfigWrite ι) (fuel : Nat)
  /-- what happens to the device otherwise: its header changes by configuration writes only -/
  | device (ev : Event) (h : ∀ hdr, ev ≠ .header hdr)

section

variable {k : VirtioKind} {ι : Type}

/-- The base of BAR 0, where the bus finds it. -/
def VirtioSys.base (s : VirtioSys k ι) (d : ι) : Nat := (s.pci.heap (.space d 0)).base

/-- Every registration is the notification address of its queue, and lies in the window of BAR 0. -/
def VirtioSys.Registered (d : ι) (s : VirtioSys k ι) : Prop :=
  ∀ e ∈ s.dev.enables, e.addr = s.base d + notifyData + e.queue * k.multiplier ∧
    s.base d ≤ e.addr ∧ e.addr + e.len ≤ s.base d + barWindow

/-- The access runs the body of `enable_vq` for queue `q`. -/
structure Access.Enables {β : Type} (a : Access) (dev : VirtioPciDev β) (q : Nat) : Prop where
  write : a.isWrite = true
  offset : a.offset = qEnable
  value : (a.copied dev).queueEnable ≠ 0
  select : q = (a.copied dev).queueSelect
  lt : q < dev.numVq
  idle : (dev.vq q).enable = 0
  live : dev.vqDevPtr q = dev.self

variable (k) in
/-- The fields that `enable_vq` reads of the header, and `notify_off`, are those of queue `q` with
BAR 0 at `base`. -/
structure SoundHeader (base : Nat) (hdr : Store) (q notifyOff : Nat) : Prop where
  bar : getLE hdr (notifyCap + 4) 1 = 0
  dword : getLE hdr (pciBarOffset 0) 4 = base
  offset : getLE hdr (notifyCap + 8) 4 = notifyData
  multiplier : getLE hdr (notifyCap + 16) 4 = k.multiplier
  notifyOff : k.multiplier ≠ 0 → notifyOff = q
  fits : notifyData + q * k.multiplier + k.notifyLen hdr ≤ barWindow

variable [DecidableEq ι]

namespace VirtioSys

variable (d : ι)

def next (s : VirtioSys k ι) : GuestEvent ι → Option (VirtioSys k ι)
  | .config w fuel =>
    match pciConfigWrite fuel s.pci w.d w.offset w.data with
    | .ok pci => some ⟨pci, { s.dev with hdr := (pci.dev d).hdr }⟩
    | .error _ => none
  | .device ev _ => (k.next s.dev ev).map fun dev => ⟨s.pci, dev⟩

/-- `virtio_pci_init`: the device is given its BAR and its header. -/
def create (pci : PciSys ι) (host : Host k.Backend) : VirtioSys k ι :=
  let dev := k.initPci host
  ⟨(pciSetBar (pciDevInit pci d) d 0 barWindow false).setHdr d dev.hdr, dev⟩

/-- The header access of the turn, if it makes one, is inside the header, and every registration it
leaves is right. -/
def InWindow (t : VirtioSys k ι × GuestEvent ι) : Prop :=
  (∀ ev h, t.2 = .device ev h → (k.step t.1.dev ev).stop ≠ some .header) ∧
    ∀ s', t.1.next d t.2 = some s' → s'.Registered d

/-- A write to BAR 0 stays in the data of the device, and one that enables a queue finds a sound
header. Once a queue has been registered, what is written to the BAR 0 dword is the base it has. -/
def Steady (t : VirtioSys k ι × GuestEvent ι) : Prop :=
  match t.2 with
  | .config w _ => w.d = d → t.1.dev.enables ≠ [] → w.StartsIn 0 →
    (w.stored t.1.pci).newBar d 0 = t.1.base d
  | .device (.access a _ _) _ => a.isWrite = true → a.Lands t.1.dev ∧
    ∀ q, a.Enables t.1.dev q →
      SoundHeader k (t.1.base d) t.1.dev.hdr q (t.1.dev.vq q).notifyOff
  | .device _ _ => True

/-- A write that stays in the data of the device, leaves the notify capability and `notify_off`
alone, does not run into BAR 0 from the bytes below it and does not start in BAR 0 once a queue has
been registered. -/
def Tame (t : VirtioSys k ι × GuestEvent ι) : Prop :=
  match t.2 with
  | .config w _ => w.d = d →
    Span.Apart ⟨notifyCap + 4, 16⟩ ⟨w.offset, w.data.length⟩ ∧
      (w.StartsIn 0 ∨ Span.Apart ⟨pciBarOffset 0, 4⟩ ⟨w.offset, w.data.length⟩) ∧
      (t.1.dev.enables ≠ [] → ¬ w.StartsIn 0)
  | .device (.access a _ _) _ => a.isWrite = true →
    a.Lands t.1.dev ∧ Span.Apart ⟨30, 2⟩ ⟨a.offset, a.size⟩
  | .device _ _ => True

omit [DecidableEq ι] in
instance (w : ConfigWrite ι) (i : Nat) : Decidable (w.StartsIn i) :=
  inferInstanceAs (Decidable ((_ ∧ _) ∧ _))

omit [DecidableEq ι] in
instance (s : VirtioSys k ι) : Decidable (s.Registered d) :=
  inferInstanceAs (Decidable (∀ e ∈ _, _))

instance : (t : VirtioSys k ι × GuestEvent ι) → Decidable (Tame d t)
  | (_, .config _ _) => inferInstanceAs (Decidable (_ → _ ∧ (_ ∨ _) ∧ (_ → ¬ _)))
  | (_, .device (.access _ _ _) _) => inferInstanceAs (Decidable (_ → _ ∧ _))
  | (_, .device (.handle _ _ _) _) => inferInstanceAs (Decidable True)
  | (_, .device (.getAvail _) _) => inferInstanceAs (Decidable True)
  | (_, .device (.memory _) _) => inferInstanceAs (Decidable True)
  | (_, .device (.header _) _) => inferInstanceAs (Decidable True)

end VirtioSys

/-! ## What enables a queue -/

section Enables

variable {dev : VirtioPciDev k.Backend} {a : Access} {q fuel : Nat} {req : Store}

theorem mapped_notifyOff {β : Type} (dev : VirtioPciDev β) (q : Nat) :
    (dev.mapped q).notifyOff = (dev.vq q).notifyOff :=
  mapped_field dev q (by decide)

/-- A write to `queue_enable`. -/
theorem step_writeEnable (hw : a.isWrite = true) (hoff : a.offset = qEnable)
    (hval : (a.copied dev).queueEnable ≠ 0) :
    k.step dev (.access a fuel req) =
      .after [⟨.config, a.offset, a.size⟩]
        (virtioPciEnableVirtq (k.ops fuel req) (a.copied dev)) := by
  have hlt : a.offset < devCfgOffset := by
    rw [hoff]
    decide
  rw [VirtioKind.step, spaceIo_register _ _ hw hlt, hoff]
  exact congrArg _ (if_pos hval)

variable (fuel req) in
/-- What the body of `enable_vq` does: it registers an address, or reads past the header. -/
theorem Access.Enables.outcome (h : a.Enables dev q) :
    (pciBarOffset (getLE dev.hdr (notifyCap + 4) 1) + 4 ≤ pciCfgSpaceSize ∧
      (k.step dev (.access a fuel req)).stop = none ∧
      ∃ info, (k.step dev (.access a fuel req)).dev.enables = dev.enables ++ [⟨q,
        getLE dev.hdr (pciBarOffset (getLE dev.hdr (notifyCap + 4) 1)) 4 +
          (getLE dev.hdr (notifyCap + 8) 4 +
            getLE dev.hdr (notifyCap + 16) 4 * (dev.vq q).notifyOff) % 2 ^ 32,
        k.notifyLen dev.hdr, dev.ram, info⟩]) ∨
    (pciCfgSpaceSize < pciBarOffset (getLE dev.hdr (notifyCap + 4) 1) + 4 ∧
      (k.step dev (.access a fuel req)).stop = some .header) := by
  obtain ⟨hw, hoff, hval, rfl, hlt, hidle, hlive⟩ := h
  have hlt' : (a.copied dev).queueSelect < (a.copied dev).numVq := by
    rw [copied_numVq]
    exact hlt
  rw [step_writeEnable hw hoff hval]
  unfold virtioPciEnableVirtq
  dsimp only
  rw [if_pos hlt', VirtioKind.enableVq_notifyLen, enableVq_runs _ (by rw [copied_vq]; exact hidle)
    (by rw [copied_vqDevPtr, copied_self]; exact hlive)]
  unfold virtioPciGetNotifyAddr
  simp only [copied_hdr, mapped_notifyOff]
  by_cases hin : pciBarOffset (getLE dev.hdr (notifyCap + 4) 1) + 4 ≤ pciCfgSpaceSize
  · rw [if_pos hin]
    refine .inl ⟨hin, rfl, ((a.copied dev).mapped (a.copied dev).queueSelect).info, ?_⟩
    rw [← copied_enables a dev, ← copied_ram a dev]
    simp only [copied_vq]
    rfl
  · rw [if_neg hin]
    exact .inr ⟨Nat.lt_of_not_le hin, rfl⟩

theorem handleAvail_header (ops : Nat → VirtqOps k.Backend) (dev : VirtioPciDev k.Backend)
    (q : Nat) :
    (handleAvail ops dev q).stop ≠ some .header := by
  unfold handleAvail
  split
  · split
    · simp [Outcome.failed]
    · split
      · simp [Outcome.done]
      · simp [Outcome.failed]
  · simp [Outcome.failed]

/-- `enable_vq` that does not run its body makes no header access and registers nothing. -/
theorem enableVq_skips {β : Type} {dev : VirtioPciDev β} (len : VirtioPciDev β → Nat)
    (h : ¬ ((dev.vq q).enable = 0 ∧ dev.vqDevPtr q = dev.self)) :
    (Outcome.of dev (enableVq len dev q)).stop ≠ some .header ∧
      (Outcome.of dev (enableVq len dev q)).dev = dev := by
  by_cases hidle : (dev.vq q).enable = 0
  · rw [enableVq_dangling len hidle fun hlive => h ⟨hidle, hlive⟩]
    exact ⟨by simp [Outcome.of, Outcome.failed], rfl⟩
  · rw [enableVq_again len hidle]
    exact ⟨by simp [Outcome.of, Outcome.done], rfl⟩

variable (fuel req) in
/-- A write to `queue_enable` that does not run the body of `enable_vq`. -/
theorem writeEnable_skips (hw : a.isWrite = true) (hoff : a.offset = qEnable)
    (hno : ∀ q, ¬ a.Enables dev q) :
    (writeRegister (k.ops fuel req) (a.copied dev) qEnable a.data).stop ≠ some .header ∧
      (writeRegister (k.ops fuel req) (a.copied dev) qEnable a.data).dev = a.copied dev := by
  simp only [writeRegister, qEnable]
  split
  · rename_i hval
    unfold virtioPciEnableVirtq
    dsimp only
    split
    · rename_i hlt
      rw [VirtioKind.enableVq_notifyLen]
      refine enableVq_skips _ ?_
      rintro ⟨hidle, hlive⟩
      rw [copied_vq] at hidle
      rw [copied_vqDevPtr, copied_self] at hlive
      rw [copied_numVq] at hlt
      exact hno _ ⟨hw, hoff, hval, rfl, hlt, hidle, hlive⟩
    · exact ⟨by simp [Outcome.failed], rfl⟩
  · unfold virtioPciDisableVirtq
    dsimp only
    split
    · exact ⟨by simp [Outcome.done], rfl⟩
    · exact ⟨by simp [Outcome.failed], rfl⟩

/-- A register write other than to `queue_enable` makes no header access. -/
theorem writeRegister_header {offset : Nat} (hne : offset ≠ qEnable) (dev : VirtioPciDev k.Backend)
    (data : List UInt8) :
    (writeRegister (k.ops fuel req) dev offset data).stop ≠ some .header := by
  rcases offset_cases offset with hp | rfl | rfl | ⟨hoth, hreg | rfl | hplain⟩
  · obtain ⟨dev', h, -⟩ := writeRegister_plain (k.ops fuel req) dev data hp
    rw [h]
    simp [Outcome.done]
  · simp only [writeRegister, qSelect, virtioPciSelectVirtq]
    split
    · split
      · simp [Outcome.after, Outcome.done]
      · simp [Outcome.after, Outcome.failed]
    · simp [Outcome.done]
  · exact absurd rfl hne
  · rw [writeRegister_other hoth, writeOther_queueReg hreg]
    split
    · split
      · simp [Outcome.after, Outcome.done]
      · simp [Outcome.after, Outcome.failed]
    · simp [Outcome.done]
  · rw [writeRegister_other hoth, writeOther_notify]
    exact handleAvail_header _ dev dev.vqn
  · rw [writeRegister_other hoth, writeOther_plain hplain]
    simp [Outcome.done]

/-- **Only an access that enables a queue** makes a header access or registers an address. -/
theorem step_skips (dev : VirtioPciDev k.Backend) (ev : Event)
    (hno : ∀ a fuel req q, ev = .access a fuel req → ¬ a.Enables dev q) :
    (k.step dev ev).stop ≠ some .header ∧ (k.step dev ev).dev.enables = dev.enables := by
  have henables : (∀ a fuel req, ev = .access a fuel req → a.isWrite = true → a.offset ≠ qEnable) →
      (k.step dev ev).dev.enables = dev.enables := by
    intro hoff
    cases k.step_vq dev ev with
    | same _ he => exact he
    | enable addr len hw hqe => exact absurd hqe (hoff _ _ _ rfl hw)
    | write _ _ _ _ _ _ he => exact he
    | move _ _ _ he => exact he
  cases ev with
  | access a fuel req =>
    by_cases hqe : a.isWrite = true ∧ a.offset = qEnable
    · have hlt : a.offset < devCfgOffset := by
        rw [hqe.2]
        decide
      obtain ⟨hstop, hdev⟩ := writeEnable_skips fuel req hqe.1 hqe.2 fun q => hno a fuel req q rfl
      rw [VirtioKind.step, spaceIo_register _ _ hqe.1 hlt, hqe.2]
      refine ⟨hstop, ?_⟩
      show (writeRegister (k.ops fuel req) (a.copied dev) qEnable a.data).dev.enables = _
      rw [hdev, copied_enables]
    · refine ⟨?_, henables ?_⟩
      · rw [VirtioKind.step]
        rcases access_cases a with ⟨hw, hlt⟩ | ⟨hr, hlt⟩ | hge
        · rw [spaceIo_register _ _ hw hlt]
          exact writeRegister_header (fun hoff => hqe ⟨hw, hoff⟩) _ _
        · rw [spaceIo_read _ _ hr hlt]
          simp [Outcome.after, Outcome.done]
        · rcases spaceIo_devCfg_stop (k.ops fuel req) dev hge with hs | hs | hs
          all_goals
            rw [hs]
            simp
      · intro b _ _ he hw hoff
        cases he
        exact hqe ⟨hw, hoff⟩
  | handle q fuel req =>
    refine ⟨?_, henables (by simp)⟩
    simp only [VirtioKind.step]
    split
    · exact handleAvail_header _ dev q
    · simp [Outcome.done]
  | getAvail q =>
    refine ⟨?_, henables (by simp)⟩
    simp only [VirtioKind.step]
    split
    · split
      · simp [Outcome.done]
      · simp [Outcome.failed]
    · simp [Outcome.done]
  | memory m => exact ⟨by simp [VirtioKind.step, Outcome.done], henables (by simp)⟩
  | header h => exact ⟨by simp [VirtioKind.step, Outcome.done], henables (by simp)⟩

end Enables

/-! ## Headers as they are created and written -/

theorem virtioPciHdr_field (deviceId cls irqLine : Nat) {a n : Nat}
    (hid : Span.Apart ⟨a, n⟩ ⟨0x02, 2⟩) (hcls : Span.Apart ⟨a, n⟩ ⟨0x08, 4⟩)
    (hirq : Span.Apart ⟨a, n⟩ ⟨0x3c, 1⟩) :
    getLE (virtioPciHdr deviceId cls irqLine) a n = getLE (virtioPciHdr 0 0 0) a n := by
  unfold virtioPciHdr
  simp only [getLE_putLE_apart hid, getLE_putLE_apart hcls, getLE_putLE_apart hirq]

namespace VirtioKind

/-- The header of a new device is that of `virtio_pci_init`, but for the multiplier and the length
of the device configuration. -/
theorem initPci_field (host : Host k.Backend) {a n : Nat} (hid : Span.Apart ⟨a, n⟩ ⟨0x02, 2⟩)
    (hcls : Span.Apart ⟨a, n⟩ ⟨0x08, 4⟩) (hirq : Span.Apart ⟨a, n⟩ ⟨0x3c, 1⟩)
    (hmul : Span.Apart ⟨a, n⟩ ⟨notifyCap + 16, 4⟩) (hlen : Span.Apart ⟨a, n⟩ ⟨devCfgCap + 12, 4⟩) :
    getLE (k.initPci host).hdr a n = getLE (virtioPciHdr 0 0 0) a n := by
  cases k with
  | blk => exact (getLE_putLE_apart hlen).trans (virtioPciHdr_field _ _ _ hid hcls hirq)
  | net =>
    refine (getLE_putLE_apart hlen).trans ?_
    exact (getLE_putLE_apart hmul).trans (virtioPciHdr_field _ _ _ hid hcls hirq)

theorem initPci_multiplier (host : Host k.Backend) :
    getLE (k.initPci host).hdr (notifyCap + 16) 4 = k.multiplier := by
  cases k with
  | blk =>
    refine (getLE_putLE_apart (by decide)).trans ?_
    refine (virtioPciHdr_field _ _ _ (by decide) (by decide) (by decide)).trans ?_
    decide +kernel
  | net =>
    refine (getLE_putLE_apart (by decide)).trans ?_
    exact getLE_putLE_same _ _ _ _

end VirtioKind

omit [DecidableEq ι] in
theorem newBar_lt (pci : PciSys ι) (d : ι) (i : Nat) : pci.newBar d i < 2 ^ 32 := by
  refine Nat.or_lt_two_pow (Nat.lt_of_le_of_lt Nat.and_le_left (getLE_lt _ _ _)) ?_
  unfold PciSys.barFlag
  cases (pci.dev d).barIsIoSpace i with
  | false => decide
  | true => decide

/-- A configuration write stores its bytes; of those above the registers it changes no others. -/
theorem configWrite_cap {c : ConfigStep ι} (hret : c.Returns) {p : Nat}
    (hp : Span.Has ⟨notifyCap + 4, 16⟩ p) :
    (c.post.dev c.write.d).hdr p =
      patch (c.pre.dev c.write.d).hdr c.write.offset c.write.data p := by
  have hstored : ((c.write.stored c.pre).dev c.write.d).hdr =
      patch (c.pre.dev c.write.d).hdr c.write.offset c.write.data := by
    simp [ConfigWrite.stored, PciSys.setHdr, PciSys.setDev]
  have hput : ∀ (pci : PciSys ι) (a v : Nat), a + 4 ≤ notifyCap →
      ((pci.setHdr c.write.d (putLE ((c.write.stored c.pre).dev c.write.d).hdr a 4 v)).dev
        c.write.d).hdr p =
        patch (c.pre.dev c.write.d).hdr c.write.offset c.write.data p := by
    intro pci a v ha
    rw [← hstored]
    simp only [PciSys.setHdr, PciSys.setDev, Function.update_self]
    refine putLE_out fun hin => ?_
    have := hp.1
    have := hin.2
    dsimp only at *
    omega
  rcases c.returns_cases hret with ⟨-, h⟩ | ⟨hbar, h⟩ | ⟨-, h⟩ | ⟨-, -, h⟩
  · rw [h.hdr, hstored]
  · have hlt : c.write.bar < pciStdNumBars := ConfigWrite.StartsIn.lt ⟨hbar, rfl⟩
    obtain ⟨v, hv⟩ := pciConfigBar_eq (c.write.stored c.pre) c.write.d c.write.bar
    rw [h, hv]
    have hcap : notifyCap = 0x50 := by decide
    refine hput (c.write.stored c.pre) _ v ?_
    simp only [pciBarOffset, pciBaseAddress0, pciStdNumBars] at *
    omega
  · rw [h]
    exact hput (c.write.stored c.pre) _ 0 (by decide)
  · rw [h, hstored]

/-- An event of the device leaves its header alone. -/
theorem step_hdr (dev : VirtioPciDev k.Backend) {ev : Event} (h : ∀ hdr, ev ≠ .header hdr) :
    (k.step dev ev).dev.hdr = dev.hdr := by
  rcases k.step_fixed dev ev with
    hf | ⟨a, fuel, req, devCfg, peeks, -, -, hdev, -⟩ | ⟨hdr, he, -⟩
  · rw [hf.hdr]
    cases ev with
    | access a fuel req => exact copied_hdr a dev
    | handle q fuel req => rfl
    | getAvail q => rfl
    | memory m => rfl
    | header hdr => rfl
  · rw [hdev]
  · exact absurd he (h hdr)

/-- `notify_off` changes only by a write that covers it. -/
theorem step_notifyOff (dev : VirtioPciDev k.Backend) {ev : Event} (q : Nat)
    (h : ∀ a fuel req, ev = .access a fuel req → a.isWrite = true →
      Span.Apart ⟨30, 2⟩ ⟨a.offset, a.size⟩) :
    ((k.step dev ev).dev.vq q).notifyOff = (dev.vq q).notifyOff := by
  have hupdate : ∀ {i : Nat} {vq : Virtq}, vq.notifyOff = (dev.vq i).notifyOff →
      (Function.update dev.vq i vq q).notifyOff = (dev.vq q).notifyOff := by
    intro i vq hvq
    by_cases hi : q = i
    · rw [hi, Function.update_self]
      exact hvq
    · rw [Function.update_of_ne hi]
  cases k.step_vq dev ev with
  | same hvq _ => rw [hvq]
  | @enable a fuel req _ i addr len hw hoff _ _ _ _ hvq _ =>
    rw [hvq]
    exact hupdate (mapped_notifyOff dev i)
  | @write a fuel req _ i hw hreg _ _ _ hvq _ =>
    rw [hvq]
    refine hupdate ?_
    have hap := h a fuel req rfl hw
    have hge := hreg.1
    refine getLE_patch_apart ?_
    simp only [Span.Apart, Access.size, qSize] at *
    omega
  | move _ hm hvq _ =>
    rw [hvq]
    refine hupdate ?_
    rw [Virtq.notifyOff, hm.info]
    rfl

/-! ## Turns -/

omit [DecidableEq ι] in
/-- The address that `enable_vq` computes from a sound header. -/
theorem SoundHeader.addr {base q notifyOff : Nat} {hdr : Store}
    (h : SoundHeader k base hdr q notifyOff) :
    getLE hdr (pciBarOffset (getLE hdr (notifyCap + 4) 1)) 4 +
        (getLE hdr (notifyCap + 8) 4 + getLE hdr (notifyCap + 16) 4 * notifyOff) % 2 ^ 32 =
      base + notifyData + q * k.multiplier := by
  have hprod : k.multiplier * notifyOff = q * k.multiplier := by
    by_cases hzero : k.multiplier = 0
    · rw [hzero, Nat.zero_mul, Nat.mul_zero]
    · rw [h.notifyOff hzero, Nat.mul_comm]
  have hfits := h.fits
  rw [h.bar, h.dword, h.offset, h.multiplier, hprod,
    Nat.mod_eq_of_lt (by unfold barWindow at hfits; omega)]
  omega

namespace VirtioSys

variable {d : ι} {s : VirtioSys k ι} {ev : GuestEvent ι}

omit [DecidableEq ι] in
/-- A turn that registers nothing. -/
theorem registered_same (s' : VirtioSys k ι) (hs : s.Registered d)
    (henables : s'.dev.enables = s.dev.enables)
    (hbase : s.dev.enables ≠ [] → s'.base d = s.base d) : s'.Registered d := by
  intro e he
  rw [henables] at he
  rw [hbase (List.ne_nil_of_mem he)]
  exact hs e he

omit [DecidableEq ι] in
/-- A turn that adds the registration of queue `q`. -/
theorem registered_added (s' : VirtioSys k ι) {q addr len : Nat} {ram : Ram} {info : Store}
    (hs : s.Registered d) (hbase : s'.base d = s.base d)
    (henables : s'.dev.enables = s.dev.enables ++ [⟨q, addr, len, ram, info⟩])
    (haddr : addr = s.base d + notifyData + q * k.multiplier)
    (hfits : notifyData + q * k.multiplier + len ≤ barWindow) : s'.Registered d := by
  unfold Registered at hs ⊢
  rw [henables, hbase, List.forall_mem_append, List.forall_mem_singleton]
  dsimp only
  exact ⟨hs, haddr, by omega, by omega⟩

theorem next_device {ev : Event} {h : ∀ hdr, ev ≠ .header hdr} {s' : VirtioSys k ι} :
    s.next d (.device ev h) = some s' ↔
      (k.step s.dev ev).stop = none ∧ s' = ⟨s.pci, (k.step s.dev ev).dev⟩ := by
  constructor
  · intro hn
    obtain ⟨dev, hdev, rfl⟩ := Option.map_eq_some_iff.mp hn
    unfold VirtioKind.next at hdev
    split at hdev
    · rename_i hstop
      cases hdev
      exact ⟨hstop, rfl⟩
    · cases hdev
  · rintro ⟨hstop, rfl⟩
    simp only [next, VirtioKind.next, hstop, Option.map_some]

theorem next_config {w : ConfigWrite ι} {fuel : Nat} {s' : VirtioSys k ι} :
    s.next d (.config w fuel) = some s' ↔
      ∃ pci, pciConfigWrite fuel s.pci w.d w.offset w.data = .ok pci ∧
        s' = ⟨pci, { s.dev with hdr := (pci.dev d).hdr }⟩ := by
  cases hpci : pciConfigWrite fuel s.pci w.d w.offset w.data with
  | ok pci => simp [next, hpci, eq_comm]
  | error e => simp [next, hpci]

/-- A turn that enables a queue. -/
theorem inWindow_enables (hs : s.Registered d) {a : Access} {fuel q : Nat} {req : Store}
    {h : ∀ hdr, Event.access a fuel req ≠ .header hdr} (hen : a.Enables s.dev q)
    (hsound : SoundHeader k (s.base d) s.dev.hdr q (s.dev.vq q).notifyOff) :
    InWindow d (s, .device (.access a fuel req) h) := by
  rcases hen.outcome fuel req with ⟨-, hstop, info, henables⟩ | ⟨hout, -⟩
  · refine ⟨?_, ?_⟩
    · intro ev' h' he
      cases he
      rw [hstop]
      simp
    · intro s' hs'
      obtain ⟨-, rfl⟩ := next_device.mp hs'
      exact registered_added _ hs rfl henables hsound.addr hsound.fits
  · rw [hsound.bar] at hout
    exact absurd hout (by decide)

/-- One steady turn leaves the registrations right. -/
theorem inWindow_of_steady (hs : s.Registered d) (hsteady : Steady d (s, ev)) :
    InWindow d (s, ev) := by
  cases ev with
  | config w fuel =>
    refine ⟨by simp, fun s' hs' => ?_⟩
    obtain ⟨pci, hpci, rfl⟩ := next_config.mp hs'
    have hret : (⟨w, fuel, s.pci, pci⟩ : ConfigStep ι).Returns := hpci
    refine registered_same _ hs rfl fun hne => ?_
    by_cases hd : w.d = d
    · obtain rfl := hd
      by_cases hst : w.StartsIn 0
      · exact ((ConfigStep.written hret).repaired 0 hst).2.trans (hsteady rfl hne hst)
      · exact ((ConfigStep.written hret).kept 0 (by decide) hst).2
    · exact (ConfigStep.frame hret).base d 0 (Ne.symm hd)
  | device ev h =>
    by_cases hen : ∃ a fuel req q, ev = .access a fuel req ∧ a.Enables s.dev q
    · obtain ⟨a, fuel, req, q, rfl, hen⟩ := hen
      exact inWindow_enables hs hen ((hsteady hen.write).2 q hen)
    · obtain ⟨hstop, henables⟩ :=
        step_skips s.dev ev fun a fuel req q he hq => hen ⟨a, fuel, req, q, he, hq⟩
      refine ⟨?_, ?_⟩
      · intro ev' h' he
        cases he
        exact hstop
      · intro s' hs'
        obtain ⟨-, rfl⟩ := next_device.mp hs'
        exact registered_same _ hs henables fun _ => rfl

/-! ## Headers that are left alone -/

/-- The notify capability and `notify_off` are as the device was created, and the BAR 0 dword is the
base. -/
structure Kept (d : ι) (host : Host k.Backend) (s : VirtioSys k ι) : Prop where
  hdr : s.dev.hdr = (s.pci.dev d).hdr
  cap : ∀ p, Span.Has ⟨notifyCap + 4, 16⟩ p → s.dev.hdr p = (k.initPci host).hdr p
  bar : s.pci.barReg d 0 = s.base d
  numVq : s.dev.numVq = k.numVirtq
  notifyOff : ∀ q < k.numVirtq, (s.dev.vq q).notifyOff = k.notifyOffs q

theorem create_kept (d : ι) (pci : PciSys ι) (host : Host k.Backend) :
    (create d pci host).Kept d host := by
  have hbase : (create d pci host).base d = 0 := by
    simp [create, base, pciSetBar, devInit, PciSys.setHdr, PciSys.setDev]
  have hhdr : (create d pci host).dev.hdr = ((create d pci host).pci.dev d).hdr := by
    simp [create, PciSys.setHdr, PciSys.setDev]
  refine ⟨hhdr, fun _ _ => rfl, ?_, ?_, ?_⟩
  · rw [hbase, PciSys.barReg, ← hhdr]
    refine (k.initPci_field host (by decide) (by decide) (by decide) (by decide) (by decide)).trans
      ?_
    decide +kernel
  · cases k with
    | blk => rfl
    | net => rfl
  · intro q hq
    have hlt : k.notifyOffs q < 2 ^ 16 := by
      cases k with
      | blk => exact Nat.two_pow_pos 16
      | net =>
        have h2 : q < virtioNetVirtqNum := hq
        simp only [virtioNetVirtqNum] at h2
        simp only [VirtioKind.notifyOffs]
        omega
    have hvq : ((k.initPci host).vq q).info = (newVirtq host.self (k.notifyOffs q)).info := by
      cases k with
      | blk => rfl
      | net => rfl
    show ((k.initPci host).vq q).notifyOff = _
    rw [Virtq.notifyOff, hvq]
    exact (newVirtq_holds host.self k.notifyOffs q .notifyOff).trans (Nat.mod_eq_of_lt hlt)

omit [DecidableEq ι] in
/-- Fields of the notify capability. -/
theorem Kept.field {host : Host k.Backend} (hk : s.Kept d host) {i n : Nat}
    (h : 4 ≤ i ∧ i + n ≤ 20) :
    getLE s.dev.hdr (notifyCap + i) n = getLE (k.initPci host).hdr (notifyCap + i) n :=
  getLE_congr fun j hj => hk.cap _ (by
    constructor
    · dsimp only
      omega
    · dsimp only
      omega)

omit [DecidableEq ι] in
/-- The fields up to the multiplier are those of `virtio_pci_init`. -/
theorem Kept.made {host : Host k.Backend} (hk : s.Kept d host) {i n : Nat}
    (h : 4 ≤ i ∧ i + n ≤ 16) :
    getLE s.dev.hdr (notifyCap + i) n = getLE (virtioPciHdr 0 0 0) (notifyCap + i) n := by
  have hcap : notifyCap = 0x50 := by decide
  have hdevCfg : devCfgCap = 0x74 := by decide
  refine (hk.field (by omega)).trans (k.initPci_field host ?_ ?_ ?_ ?_ ?_)
  all_goals
    unfold Span.Apart
    dsimp only
    omega

omit [DecidableEq ι] in
/-- **A kept header gives every queue its address.** -/
theorem Kept.sound {host : Host k.Backend} (hk : s.Kept d host) {q : Nat} (hq : q < k.numVirtq) :
    SoundHeader k (s.base d) s.dev.hdr q (s.dev.vq q).notifyOff := by
  have hbar : getLE s.dev.hdr (notifyCap + 4) 1 = 0 :=
    (hk.made (by decide)).trans (by decide +kernel)
  have hoffset : getLE s.dev.hdr (notifyCap + 8) 4 = notifyData :=
    (hk.made (by decide)).trans (by decide +kernel)
  have hlen : getLE s.dev.hdr (notifyCap + 12) 4 = 4 :=
    (hk.made (by decide)).trans (by decide +kernel)
  have hmul : getLE s.dev.hdr (notifyCap + 16) 4 = k.multiplier :=
    (hk.field (by decide)).trans (k.initPci_multiplier host)
  have hdword : getLE s.dev.hdr (pciBarOffset 0) 4 = s.base d := by
    rw [hk.hdr]
    exact hk.bar
  refine ⟨hbar, hdword, hoffset, hmul, ?_, ?_⟩
  · intro hne
    rw [hk.notifyOff q hq]
    cases k with
    | blk => exact absurd rfl hne
    | net => rfl
  · cases k with
    | blk =>
      rw [VirtioKind.notifyLen, hlen]
      simp only [VirtioKind.multiplier, Nat.mul_zero]
      decide
    | net =>
      have h2 : q < virtioNetVirtqNum := hq
      simp only [virtioNetVirtqNum] at h2
      simp only [VirtioKind.multiplier, VirtioKind.notifyLen, notifyOffset, notifyData, barWindow]
      omega

/-- A configuration write that is tame. -/
theorem Kept.config {host : Host k.Backend} (hk : s.Kept d host) {w : ConfigWrite ι} {fuel : Nat}
    (ht : Tame d (s, .config w fuel)) {s' : VirtioSys k ι}
    (hn : s.next d (.config w fuel) = some s') :
    s'.Kept d host := by
  obtain ⟨pci, hpci, rfl⟩ := next_config.mp hn
  have hret : (⟨w, fuel, s.pci, pci⟩ : ConfigStep ι).Returns := hpci
  by_cases hd : w.d = d
  · obtain rfl := hd
    obtain ⟨hcap, hbar, -⟩ := ht rfl
    have hwritten := ConfigStep.written hret
    refine ⟨rfl, ?_, ?_, hk.numVq, hk.notifyOff⟩
    · intro p hp
      refine (configWrite_cap hret hp).trans ?_
      rw [patch_out (hcap.not_has hp)]
      show (s.pci.dev w.d).hdr p = _
      rw [← hk.hdr]
      exact hk.cap p hp
    · by_cases hst : w.StartsIn 0
      · obtain ⟨hreg, hbase⟩ := hwritten.repaired 0 hst
        exact hreg.trans ((Nat.mod_eq_of_lt (newBar_lt _ _ _)).trans hbase.symm)
      · obtain ⟨hreg, hbase⟩ := hwritten.kept 0 (by decide) hst
        refine hreg.trans (Eq.trans ?_ hbase.symm)
        refine Eq.trans ?_ hk.bar
        simp only [PciSys.barReg, ConfigWrite.stored, PciSys.setHdr, PciSys.setDev,
          Function.update_self]
        exact getLE_patch_apart (hbar.resolve_left hst)
  · have hframe := ConfigStep.frame hret
    have hsame : (pci.dev d).hdr = (s.pci.dev d).hdr := hframe.hdr d (Ne.symm hd)
    refine ⟨rfl, ?_, ?_, hk.numVq, hk.notifyOff⟩
    · intro p hp
      show (pci.dev d).hdr p = _
      rw [hsame, ← hk.hdr]
      exact hk.cap p hp
    · show getLE (pci.dev d).hdr (pciBarOffset 0) 4 = (pci.heap (.space d 0)).base
      rw [hsame, hframe.base d 0 (Ne.symm hd)]
      exact hk.bar

/-- A turn of the device that is tame. -/
theorem Kept.device {host : Host k.Backend} (hk : s.Kept d host) {ev : Event}
    {h : ∀ hdr, ev ≠ .header hdr} (ht : Tame d (s, .device ev h)) {s' : VirtioSys k ι}
    (hn : s.next d (.device ev h) = some s') :
    s'.Kept d host := by
  obtain ⟨-, rfl⟩ := next_device.mp hn
  have hhdr := step_hdr s.dev h
  refine ⟨hhdr.trans hk.hdr, ?_, hk.bar, ?_, ?_⟩
  · intro p hp
    rw [hhdr]
    exact hk.cap p hp
  · exact VirtioKind.step_host.1.trans hk.numVq
  · intro q hq
    refine (step_notifyOff s.dev q ?_).trans (hk.notifyOff q hq)
    rintro a fuel req rfl hw
    exact (ht hw).2

theorem Kept.next {host : Host k.Backend} (hk : s.Kept d host) (ht : Tame d (s, ev))
    {s' : VirtioSys k ι} (hn : s.next d ev = some s') : s'.Kept d host := by
  cases ev with
  | config w fuel => exact hk.config ht hn
  | device ev h => exact hk.device ht hn

/-- A tame turn from a kept state is steady. -/
theorem Kept.steady {host : Host k.Backend} (hk : s.Kept d host) (ht : Tame d (s, ev)) :
    Steady d (s, ev) := by
  cases ev with
  | config w fuel => exact fun hd hne hst => absurd hst ((ht hd).2.2 hne)
  | device ev h =>
    cases ev with
    | access a fuel req =>
      intro hw
      refine ⟨(ht hw).1, fun q hen => hk.sound ?_⟩
      rw [← hk.numVq]
      exact hen.lt
    | handle q fuel req => trivial
    | getAvail q => trivial
    | memory m => trivial
    | header hdr => exact absurd rfl (h hdr)

theorem create_registered (d : ι) (pci : PciSys ι) (host : Host k.Backend) :
    (create d pci host).Registered d := by
  have hnil : (create d pci host).dev.enables = [] := by
    cases k with
    | blk => rfl
    | net => rfl
  intro e he
  rw [hnil] at he
  cases he

end VirtioSys

variable (k) in
/-- **Notification addresses.** Over any history of a device from its creation in which every queue
is enabled with a sound header and BAR 0 is not moved after that, the header accesses are inside the
header and the registrations are the queues' addresses in the window of BAR 0. A guest that leaves
the notify capability, `notify_off` and the place of BAR 0 alone keeps to this. In both cases its
writes stay in the data of the device, where the model follows them. -/
theorem notify_addresses (pci : PciSys ι) (d : ι) (host : Host k.Backend)
    (evs : List (GuestEvent ι)) :
    ((∀ t ∈ turns (VirtioSys.next d) (VirtioSys.create d pci host) evs, VirtioSys.Steady d t) →
      ∀ t ∈ turns (VirtioSys.next d) (VirtioSys.create d pci host) evs,
        VirtioSys.InWindow d t) ∧
    ((∀ t ∈ turns (VirtioSys.next d) (VirtioSys.create d pci host) evs, VirtioSys.Tame d t) →
      ∀ t ∈ turns (VirtioSys.next d) (VirtioSys.create d pci host) evs,
        VirtioSys.Steady d t ∧ VirtioSys.InWindow d t) := by
  have hright : (∀ t ∈ turns (VirtioSys.next d) (VirtioSys.create d pci host) evs,
      VirtioSys.Steady d t) →
      ∀ t ∈ turns (VirtioSys.next d) (VirtioSys.create d pci host) evs,
        VirtioSys.InWindow d t := by
    intro hsteady t ht
    refine VirtioSys.inWindow_of_steady ?_ (hsteady t ht)
    refine turns_invariant (I := VirtioSys.Registered d) (fun s ev s' hs hst hn => ?_)
      (VirtioSys.create_registered d pci host) hsteady t ht
    exact (VirtioSys.inWindow_of_steady hs hst).2 s' hn
  refine ⟨hright, fun htame => ?_⟩
  have hsteady : ∀ t ∈ turns (VirtioSys.next d) (VirtioSys.create d pci host) evs,
      VirtioSys.Steady d t := by
    intro t ht
    have hkept := turns_invariant (I := VirtioSys.Kept d host)
      (fun s ev s' hk ht hn => hk.next ht hn) (VirtioSys.create_kept d pci host) htame t ht
    exact hkept.steady (htame t ht)
  exact fun t ht => ⟨hsteady t ht, hright hsteady t ht⟩

end

/-! ## Histories of the network device -/

def netSys : VirtioSys .net Unit := VirtioSys.create () oneDev netHost

def netTurns (evs : List (GuestEvent Unit)) : List (VirtioSys .net Unit × GuestEvent Unit) :=
  turns (VirtioSys.next ()) netSys evs

/-- The registrations, as `vm_ioeventfd_register` gets them: queue, address and length. -/
def VirtioSys.ioevents {k : VirtioKind} (s : VirtioSys k Unit) : List (Nat × Nat × Nat) :=
  s.dev.enables.map fun e => (e.queue, e.addr, e.len)

def placeBar0 (v : Nat) : GuestEvent Unit := .config (writeBar0 v) 1

def enableBar0 : GuestEvent Unit := .config (writeCommand 2) 1

theorem barWrite_not_header {offset : Nat} {data : List UInt8}
    {h : 1 ≤ data.length ∧ data.length ≤ 8 ∧ offset + data.length ≤ barWindow} (hdr : Store) :
    barWrite offset data h ≠ .header hdr := by
  simp [barWrite]

def selectTx : GuestEvent Unit := .device selectQueue1 barWrite_not_header
def enableQueue : GuestEvent Unit := .device setQueueEnable barWrite_not_header
-- `notify_off` of the selected queue
def setNotifyOff100 : GuestEvent Unit :=
  .device (barWrite 30 [100, 0] (by decide)) barWrite_not_header

/-- Queue 1 is enabled in a BAR 0 that has been placed. -/
def enableTx : List (GuestEvent Unit) := [placeBar0 0xFE000000, selectTx, enableQueue, enableBar0]

theorem notify_addresses_queue1 :
    (∃ t ∈ netTurns enableTx, t.1.ioevents = [(1, 0xFE00003E, 2)]) ∧
      ∀ t ∈ netTurns enableTx, VirtioSys.Steady () t ∧ VirtioSys.InWindow () t :=
  ⟨by decide +kernel, (notify_addresses .net oneDev () netHost enableTx).2 (by decide +kernel)⟩

/-- A capability that names BAR 60 is read past the header; `notify_off` 100 is an address behind
the window; and a BAR 0 that moves leaves its registration behind. -/
theorem notify_address_by_guest :
    (∃ t ∈ netTurns [.config ⟨(), notifyCap + 4, [60]⟩ 1, enableQueue], ¬ VirtioSys.InWindow () t) ∧
    (∃ t ∈ netTurns [placeBar0 0xFE000000, setNotifyOff100, enableQueue, enableBar0],
      t.1.base () = 0xFE000000 ∧ t.1.ioevents = [(0, 0xFE000104, 2)] ∧ ¬ t.1.Registered ()) ∧
    ∃ t ∈ netTurns [placeBar0 0xFE000000, enableQueue, placeBar0 0xFD000000, enableBar0],
      t.1.base () = 0xFD000000 ∧ t.1.ioevents = [(0, 0xFE00003C, 2)] ∧ ¬ t.1.Registered () := by
  refine ⟨?_, by decide +kernel, by decide +kernel⟩
  have hstop : (netSys.next () (.config ⟨(), notifyCap + 4, [60]⟩ 1)).map
      (fun s => (VirtioKind.net.step s.dev setQueueEnable).stop) = some (some .header) := by
        decide +kernel
  obtain ⟨s, hn, hs⟩ := Option.map_eq_some_iff.mp hstop
  refine ⟨(s, enableQueue), ?_, fun hin => hin.1 setQueueEnable barWrite_not_header rfl hs⟩
  simp [netTurns, turns, hn]

end KvmHost
