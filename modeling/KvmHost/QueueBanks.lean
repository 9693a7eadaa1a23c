import KvmHost.Lib.Banks
import KvmHost.VirtioRuns

/-!
# KvmHost.QueueBanks

The queue registers of the common configuration, one bank of them for each queue.

The window at offsets 24 to 55 of `virtio_pci_common_cfg` shows the registers of the selected queue,
whose values are kept in its `virtq_info`. `virtio_pci_space_write` stores a write to the window in
both places, and a write of `queue_select` copies the `virtq_info` of the new queue over the window.
`queue_banks_run` says that the window and the queues are banked registers (`Lib.Banks`) for any
number of queues, as long as accesses are to whole registers.

The second and third address registers are called `queue_avail` and `queue_used` in the window and
are at the places of `device_addr` and `driver_addr` in `virtq_info`, in this order.
-/

namespace KvmHost

open ByteStore

/-! ## Registers -/

/-- The registers of a queue, with an address in two halves. -/
inductive QReg where
  | size
  | msixVector
  | notifyOff
  | descLo
  | descHi
  | availLo
  | availHi
  | usedLo
  | usedHi
deriving DecidableEq

namespace QReg

-- `VIRTIO_PCI_COMMON_Q_*`
def offset : QReg → Nat
  | size => 24
  | msixVector => 26
  | notifyOff => 30
  | descLo => 32
  | descHi => 36
  | availLo => 40
  | availHi => 44
  | usedLo => 48
  | usedHi => 52

def width : QReg → Nat
  | size => 2
  | msixVector => 2
  | notifyOff => 2
  | _ => 4

theorem bounds (r : QReg) : qSize ≤ r.offset ∧ r.offset + r.width ≤ isrCap := by
  cases r <;> decide

theorem apart {r r' : QReg} (h : r ≠ r') :
    r.offset + r.width ≤ r'.offset ∨ r'.offset + r'.width ≤ r.offset := by
  cases r <;> cases r' <;> first | exact absurd rfl h | decide

theorem off_enable (r : QReg) : r.offset + r.width ≤ qEnable ∨ qEnable + 2 ≤ r.offset := by
  cases r <;> decide

end QReg

/-- The 64-bit address registers. -/
inductive AddrReg where
  | desc
  | avail
  | used
deriving DecidableEq

def AddrReg.lo : AddrReg → QReg
  | desc => .descLo
  | avail => .availLo
  | used => .usedLo

def AddrReg.hi : AddrReg → QReg
  | desc => .descHi
  | avail => .availHi
  | used => .usedHi

/-- The registers of the common configuration that a driver writes. -/
inductive CommonReg where
  | deviceFeatureSelect
  | deviceFeature
  | guestFeatureSelect
  | guestFeature
  | msixConfig
  | deviceStatus
  | configGeneration
  | queueSelect
  | queueEnable
  | queue (r : QReg)
  /-- both halves at once -/
  | queueAddr (a : AddrReg)
deriving DecidableEq

namespace CommonReg

def offset : CommonReg → Nat
  | deviceFeatureSelect => 0
  | deviceFeature => 4
  | guestFeatureSelect => 8
  | guestFeature => 12
  | msixConfig => 16
  | deviceStatus => 20
  | configGeneration => 21
  | queueSelect => qSelect
  | queueEnable => qEnable
  | queue r => r.offset
  | queueAddr a => a.lo.offset

def width : CommonReg → Nat
  | deviceStatus => 1
  | configGeneration => 1
  | msixConfig => 2
  | queueSelect => 2
  | queueEnable => 2
  | queue r => r.width
  | queueAddr _ => 8
  | _ => 4

theorem width_pos (r : CommonReg) : 1 ≤ r.width := by
  cases r with
  | queue r => cases r <;> decide
  | queueAddr a => exact Nat.le_add_left 1 7
  | _ => decide

theorem width_le (r : CommonReg) : r.width ≤ 8 := by
  cases r with
  | queue r => cases r <;> decide
  | queueAddr a => exact Nat.le_refl 8
  | _ => decide

theorem end_le (r : CommonReg) : r.offset + r.width ≤ isrCap := by
  cases r with
  | queue r => exact r.bounds.2
  | queueAddr a => cases a <;> decide
  | _ => decide

/-- What a write of `v` sets the registers of the selected queue to. -/
def sets (v : Nat) : CommonReg → QReg → Option Nat
  | queue r', r => if r = r' then some (v % 256 ^ r.width) else none
  | queueAddr a, r =>
    if r = a.lo then some (v % 2 ^ 32)
    else if r = a.hi then some (v / 2 ^ 32 % 2 ^ 32)
    else none
  | _, _ => none

end CommonReg

/-- An access to the common configuration: a read of any bytes of it, or a write of one register. -/
inductive RegAccess where
  | read (offset size : Nat) (size_pos : 1 ≤ size) (size_le : size ≤ 8)
      (inside : offset + size ≤ isrCap)
  | write (reg : CommonReg) (value : Nat)

namespace RegAccess

def access : RegAccess → Access
  | .read offset size size_pos size_le inside =>
    { isWrite := false
      offset := offset
      data := List.replicate size 0
      size_pos := (List.length_replicate (n := size) (a := (0 : UInt8))).symm ▸ size_pos
      size_le := (List.length_replicate (n := size) (a := (0 : UInt8))).symm ▸ size_le
      window := (List.length_replicate (n := size) (a := (0 : UInt8))).symm ▸
        Nat.le_trans inside (of_decide_eq_true rfl) }
  | .write reg value =>
    { isWrite := true
      offset := reg.offset
      data := toLE reg.width value
      size_pos := (toLE_length reg.width value).symm ▸ reg.width_pos
      size_le := (toLE_length reg.width value).symm ▸ reg.width_le
      window := (toLE_length reg.width value).symm ▸
        Nat.le_trans reg.end_le (of_decide_eq_true rfl) }

/-- What the access is to banked registers. -/
def action : RegAccess → Banks.Action Nat QReg Nat
  | .read .. => ⟨none, fun _ => none⟩
  | .write reg value => ⟨if reg = .queueSelect then some (value % 2 ^ 16) else none, reg.sets value⟩

/-- `queue_enable` is written only as 1 and only while a queue of the device is selected. -/
def EnableOk (n sel : Nat) : RegAccess → Prop
  | .write .queueEnable value => value = 1 ∧ sel < n
  | _ => True

end RegAccess

/-- `EnableOk` for every access of a sequence that starts with queue `sel` selected. -/
def EnablesOk (n : Nat) : Nat → List RegAccess → Prop
  | _, [] => True
  | sel, a :: as => a.EnableOk n sel ∧ EnablesOk n (a.action.select.getD sel) as

section

variable {β : Type}

def Outcome.result (o : Outcome β) : Except PciStop (VirtioPciDev β) :=
  match o.stop with
  | none => .ok o.dev
  | some e => .error e

@[simp] theorem result_done (dev : VirtioPciDev β) : (Outcome.done dev).result = .ok dev := rfl
@[simp] theorem result_after (cs : List Copy) (o : Outcome β) : (o.after cs).result = o.result :=
  rfl

def regStep (ops : Nat → VirtqOps β) (dev : VirtioPciDev β) (a : RegAccess) :
    Except PciStop (VirtioPciDev β) :=
  (virtioPciSpaceIo ops dev a.access).result

def regRun (ops : Nat → VirtqOps β) (dev : VirtioPciDev β) (as : List RegAccess) :
    Except PciStop (VirtioPciDev β) :=
  as.foldlM (regStep ops) dev

/-! ## Registers in a store -/

/-- The store has the registers of a queue, the window starting at `base`. -/
def Holds (m : Store) (base : Nat) (val : QReg → Nat) : Prop :=
  ∀ r : QReg, getLE m (r.offset - base) r.width = val r

variable {m : Store} {base : Nat} {val : QReg → Nat}

theorem Holds.patch_apart {a : Nat} {bs : List UInt8} (h : Holds m base val)
    (ha : ∀ r : QReg, Span.Apart ⟨r.offset - base, r.width⟩ ⟨a, bs.length⟩) :
    Holds (patch m a bs) base val := by
  intro r
  rw [getLE_patch_apart (ha r)]
  exact h r

theorem Holds.put (h : Holds m base val) (hb : base ≤ qSize) (r : QReg) (v : Nat) :
    Holds (putLE m (r.offset - base) r.width v) base
      (Function.update val r (v % 256 ^ r.width)) := by
  intro r'
  by_cases hr : r' = r
  · subst hr
    rw [getLE_putLE_same, Function.update_self]
  · have hap := QReg.apart hr
    have h1 := r.bounds.1
    have h2 := r'.bounds.1
    rw [getLE_putLE_apart, Function.update_of_ne hr]
    · exact h r'
    · simp only [Span.Apart]
      omega

/-- A write to the window, wherever the window is kept. -/
theorem Holds.write (h : Holds m base val) (hb : base ≤ qSize) {reg : CommonReg} (v : Nat)
    (hreg : (∃ r, reg = .queue r) ∨ ∃ a, reg = .queueAddr a) :
    Holds (patch m (reg.offset - base) (toLE reg.width v)) base fun r =>
      (reg.sets v r).getD (val r) := by
  rcases hreg with ⟨r, rfl⟩ | ⟨a, rfl⟩
  · have hput := h.put hb r v
    intro r'
    refine (hput r').trans ?_
    by_cases hr : r' = r
    · subst hr; simp [CommonReg.sets]
    · simp [CommonReg.sets, hr]
  · have hput := (h.put hb a.lo v).put hb a.hi (v / 2 ^ 32)
    have hlo : a.lo.width = 4 := by cases a <;> rfl
    have hhi : a.hi.width = 4 ∧ a.hi.offset = a.lo.offset + 4 := by cases a <;> exact ⟨rfl, rfl⟩
    have hne : a.lo ≠ a.hi := by cases a <;> decide
    have h1 := a.lo.bounds.1
    have hoff : a.hi.offset - base = a.lo.offset - base + 4 := by omega
    have hsplit : patch m (a.lo.offset - base) (toLE 8 v) =
        putLE (putLE m (a.lo.offset - base) 4 v) (a.lo.offset - base + 4) 4 (v / 2 ^ 32) :=
      putLE_add m (a.lo.offset - base) 4 4 v
    rw [hlo, hhi.1, hoff, ← hsplit] at hput
    intro r'
    refine (hput r').trans ?_
    by_cases hr : r' = a.lo
    · subst hr; simp [CommonReg.sets, hne]
    · by_cases hr' : r' = a.hi
      · subst hr'; simp [CommonReg.sets, hr]
      · simp [CommonReg.sets, hr, hr']

/-- The window after the `virtq_info` of a queue was copied over it. -/
theorem Holds.copy {info : Store} (h : Holds info qSize val) (m : Store) :
    Holds (patch m qSize (slice info 0 virtqInfoSize)) 0 val := by
  intro r
  have hb := r.bounds
  simp only [qSize, isrCap] at hb
  have hcopy : getLE (patch m qSize (slice info 0 virtqInfoSize))
      (qSize + (r.offset - qSize)) r.width =
      getLE info (0 + (r.offset - qSize)) r.width :=
    getLE_copy m info 0 qSize (by simp only [qSize, virtqInfoSize]; omega)
  have he : qSize + (r.offset - qSize) = r.offset - 0 := by simp only [qSize]; omega
  rw [he, Nat.zero_add] at hcopy
  exact hcopy.trans (h r)

/-! ## One access -/

/-- The device has `n` queues whose `virtq_info` is the state `b` of their banks, and once a queue
was selected (`shown`) the window is the bank of a queue of the device. -/
structure Shows (n : Nat) (shown : Prop) (b : Banks.State Nat QReg Nat) (dev : VirtioPciDev β) :
    Prop where
  numVq : dev.numVq = n
  numQueues : dev.numQueues = n
  select : dev.queueSelect = b.sel
  info : ∀ q < n, Holds (dev.vq q).info qSize (b.val q)
  self : ∀ q < n, dev.vqDevPtr q = dev.self
  notifyBar : getLE dev.hdr (notifyCap + 4) 1 = 0
  window : shown → b.sel < n → Holds dev.config 0 (b.val b.sel)

section Step

variable {n : Nat} {shown : Prop} {b : Banks.State Nat QReg Nat} {dev dev' : VirtioPciDev β}
  {ops : Nat → VirtqOps β}

/-- A change of registers before `queue_select` other than `num_queues`. -/
theorem Shows.low (h : Shows n shown b dev) (hn : dev'.numVq = dev.numVq) (hvq : dev'.vq = dev.vq)
    (hself : dev'.self = dev.self) (hhdr : dev'.hdr = dev.hdr)
    (hcfg : ∀ p, (18 ≤ p ∧ p < 20) ∨ qSelect ≤ p → dev'.config p = dev.config p) :
    Shows n shown b dev' where
  numVq := hn.trans h.numVq
  numQueues := by
    refine (getLE_congr ?_).trans h.numQueues
    intro i hi
    exact hcfg _ (.inl ⟨by omega, by omega⟩)
  select := by
    refine (getLE_congr ?_).trans h.select
    intro i hi
    exact hcfg _ (.inr (by omega))
  info q hq := by rw [hvq]; exact h.info q hq
  self q hq := by
    unfold VirtioPciDev.vqDevPtr
    rw [hvq, hself]
    exact h.self q hq
  notifyBar := by rw [hhdr]; exact h.notifyBar
  window hs hlt := by
    intro r
    refine (getLE_congr ?_).trans (h.window hs hlt r)
    intro i hi
    have hb := r.bounds.1
    simp only [qSize] at hb
    exact hcfg _ (.inr (by simp only [qSelect]; omega))

theorem patch_low {c : Store} {a p : Nat} {bs : List UInt8}
    (ha : a + bs.length ≤ 18 ∨ (20 ≤ a ∧ a + bs.length ≤ qSelect))
    (hp : (18 ≤ p ∧ p < 20) ∨ qSelect ≤ p) : patch c a bs p = c p := by
  refine patch_out ?_
  simp only [Span.Has, qSelect] at *
  omega

/-- A write copies into the window and then acts on the register. -/
theorem regStep_write (reg : CommonReg) (v : Nat) :
    regStep ops dev (.write reg v) =
      (writeRegister ops (dev.setConfig (patch dev.config reg.offset (toLE reg.width v))) reg.offset
        (toLE reg.width v)).result := by
  have hlt : reg.offset < devCfgOffset := by
    have h1 := reg.width_pos
    have h2 := reg.end_le
    simp only [devCfgOffset, isrCap] at *
    omega
  simp [regStep, RegAccess.access, virtioPciSpaceIo, virtioPciSpaceWrite, if_pos hlt]

/-- The registers before `queue_select`: nothing but the features and their window is touched. -/
theorem writeRegister_low (ops : Nat → VirtqOps β) (dev : VirtioPciDev β) {offset : Nat}
    (data : List UInt8) (h : offset < qSelect) :
    ∃ dev', writeRegister ops dev offset data = .done dev' ∧ dev'.numVq = dev.numVq ∧
      dev'.vq = dev.vq ∧ dev'.self = dev.self ∧ dev'.hdr = dev.hdr ∧
      ∀ p, 8 ≤ p → dev'.config p = dev.config p := by
  by_cases h0 : offset = 0
  · subst h0
    refine ⟨_, rfl, rfl, rfl, rfl, rfl, ?_⟩
    intro p hp
    exact putLE_out (by simp only [Span.Has]; omega)
  · by_cases h8 : offset = 8
    · subst h8
      refine ⟨_, rfl, ?_⟩
      unfold virtioPciWriteGuestFeature
      split <;> exact ⟨rfl, rfl, rfl, rfl, fun _ _ => rfl⟩
    · by_cases h20 : offset = 20
      · subst h20
        refine ⟨_, rfl, ?_⟩
        unfold virtioPciWriteStatus virtioPciReset
        split <;> exact ⟨rfl, rfl, rfl, rfl, fun _ _ => rfl⟩
      · simp only [qSelect] at h
        refine ⟨dev, ?_, rfl, rfl, rfl, rfl, fun _ _ => rfl⟩
        rw [writeRegister_other (by simp only [qSelect, qEnable]; omega),
          writeOther_plain (by simp only [qSize, qUsedhi, notifyData]; omega)]

/-- A register before `queue_select`. -/
theorem regStep_low (h : Shows n shown b dev) {reg : CommonReg}
    (hreg : reg.offset + reg.width ≤ 18 ∨ (20 ≤ reg.offset ∧ reg.offset + reg.width ≤ qSelect))
    (v : Nat) :
    ∃ dev', regStep ops dev (.write reg v) = .ok dev' ∧ Shows n shown b dev' := by
  have hpos := reg.width_pos
  have hlt : reg.offset < qSelect := by simp only [qSelect] at *; omega
  obtain ⟨dev', hw, hn, hvq, hself, hhdr, hcfg⟩ := writeRegister_low ops
    (dev.setConfig (patch dev.config reg.offset (toLE reg.width v))) (toLE reg.width v) hlt
  refine ⟨dev', by rw [regStep_write, hw]; rfl, h.low hn hvq hself hhdr ?_⟩
  intro p hp
  refine (hcfg p (by simp only [qSelect] at hp; omega)).trans (patch_low ?_ hp)
  rw [toLE_length]
  exact hreg

/-- Selecting a queue shows its bank. -/
theorem regStep_select (ops : Nat → VirtqOps β) (h : Shows n shown b dev) (v : Nat) :
    ∃ dev', regStep ops dev (.write .queueSelect v) = .ok dev' ∧
      Shows n True ⟨v % 2 ^ 16, b.val⟩ dev' := by
  have hsel : (dev.setConfig (putLE dev.config qSelect 2 v)).queueSelect = v % 2 ^ 16 :=
    getLE_putLE_same _ _ _ _
  have hnum : (dev.setConfig (putLE dev.config qSelect 2 v)).numQueues = n :=
    (getLE_putLE_apart (by decide)).trans h.numQueues
  have hstep : regStep ops dev (.write .queueSelect v) =
      (virtioPciSelectVirtq (dev.setConfig (putLE dev.config qSelect 2 v))).result :=
        regStep_write _ _
  rw [hstep]
  unfold virtioPciSelectVirtq
  simp only [hsel, hnum]
  by_cases hq : v % 2 ^ 16 < n
  · have hvq : v % 2 ^ 16 < (dev.setConfig (putLE dev.config qSelect 2 v)).numVq := by
      show _ < dev.numVq
      rw [h.numVq]; exact hq
    rw [if_pos hq, if_pos hvq]
    refine ⟨_, rfl, h.numVq, ?_, ?_, h.info, h.self, h.notifyBar, ?_⟩
    · exact (getLE_patch_apart (by simp [Span.Apart, qSize])).trans hnum
    · exact (getLE_patch_apart (by simp [Span.Apart, qSize, qSelect])).trans hsel
    · intro _ _
      exact (h.info _ hq).copy _
  · rw [if_neg hq]
    refine ⟨_, rfl, h.numVq, ?_, ?_, h.info, h.self, h.notifyBar, fun _ hlt => absurd hlt hq⟩
    · exact (getLE_putLE_apart (by simp [Span.Apart, qSize])).trans hnum
    · exact (getLE_putLE_apart (by simp [Span.Apart, qSize, qSelect])).trans hsel

/-- A queue that is not enabled is, while the notify capability names BAR 0. -/
theorem enableVq_body (len : VirtioPciDev β → Nat) {q : Nat} (hself : dev.vqDevPtr q = dev.self)
    (hbar : getLE dev.hdr (notifyCap + 4) 1 = 0) (hen : (dev.vq q).enable = 0) :
    ∃ addr, enableVq len dev q = .ok (dev.enabled q addr (len dev)) := by
  rw [enableVq_runs len hen hself]
  unfold virtioPciGetNotifyAddr
  simp only [hbar]
  rw [if_pos (by decide)]
  exact ⟨_, rfl⟩

theorem enableVq_ok (len : VirtioPciDev β → Nat) {q : Nat} (hself : dev.vqDevPtr q = dev.self)
    (hbar : getLE dev.hdr (notifyCap + 4) 1 = 0) :
    enableVq len dev q = .ok dev ∨
      ∃ addr, enableVq len dev q = .ok (dev.enabled q addr (len dev)) := by
  by_cases hen : (dev.vq q).enable = 0
  · exact .inr (enableVq_body len hself hbar hen)
  · exact .inl (enableVq_again len hen)

theorem Holds.enable {vq : Virtq} {val : QReg → Nat} (h : Holds vq.info qSize val) :
    Holds (putLE vq.info 4 2 1) qSize val := by
  refine h.patch_apart ?_
  intro r
  have h1 := r.off_enable
  have h2 := r.bounds.1
  simp only [Span.Apart, toLE_length, qSize, qEnable] at *
  omega

theorem setVq_self (dev : VirtioPciDev β) (q : Nat) (vq : Virtq) : (dev.setVq q vq).vq q = vq :=
  Function.update_self ..

theorem setVq_other {q q' : Nat} (h : q' ≠ q) (vq : Virtq) : (dev.setVq q vq).vq q' = dev.vq q' :=
  Function.update_of_ne h ..

theorem setVq_info {vq' : Virtq} {sel : Nat} {val val' : Nat → QReg → Nat}
    (h : ∀ q < n, Holds (dev.vq q).info qSize (val q)) (hother : ∀ q, q ≠ sel → val' q = val q)
    (hsel : sel < n → Holds vq'.info qSize (val' sel)) :
    ∀ q < n, Holds ((dev.setVq sel vq').vq q).info qSize (val' q) := by
  intro q hq
  by_cases hqs : q = sel
  · subst hqs
    rw [setVq_self]
    exact hsel hq
  · rw [setVq_other hqs, hother q hqs]
    exact h q hq

theorem setVq_devPtr {vq' : Virtq} {sel : Nat} (h : ∀ q < n, dev.vqDevPtr q = dev.self)
    (hsel : getLE vq'.info virtqInfoSize 8 = dev.vqDevPtr sel) :
    ∀ q < n, (dev.setVq sel vq').vqDevPtr q = dev.self := by
  intro q hq
  refine Eq.trans ?_ (h q hq)
  unfold VirtioPciDev.vqDevPtr
  by_cases hqs : q = sel
  · subst hqs
    rw [setVq_self]
    exact hsel
  · rw [setVq_other hqs]

/-- A write to `queue_enable` acts on the state after its copy. -/
theorem regStep_queueEnable (ops : Nat → VirtqOps β) (dev : VirtioPciDev β) (v : Nat) :
    regStep ops dev (.write .queueEnable v) =
      (if v % 2 ^ 16 ≠ 0 then virtioPciEnableVirtq ops
        (dev.setConfig (putLE dev.config qEnable 2 v))
        else virtioPciDisableVirtq (dev.setConfig (putLE dev.config qEnable 2 v))).result := by
  have hval : (dev.setConfig (putLE dev.config qEnable 2 v)).queueEnable = v % 2 ^ 16 :=
    getLE_putLE_same _ _ _ _
  rw [← hval]
  exact regStep_write _ _

theorem Shows.enableReg (h : Shows n shown b dev) (v : Nat) :
    Shows n shown b (dev.setConfig (putLE dev.config qEnable 2 v)) := by
  refine ⟨h.numVq, ?_, ?_, h.info, h.self, h.notifyBar, fun hs hlt => ?_⟩
  · exact (getLE_putLE_apart (by decide)).trans h.numQueues
  · exact (getLE_putLE_apart (by decide)).trans h.select
  · refine (h.window hs hlt).patch_apart ?_
    intro r
    have h1 := r.off_enable
    simp only [Span.Apart, toLE_length, qEnable] at *
    omega

theorem Shows.enabled (h : Shows n shown b dev) (addr len : Nat) :
    Shows n shown b (dev.enabled b.sel addr len) := by
  refine ⟨h.numVq, h.numQueues, h.select, ?_, ?_, h.notifyBar, h.window⟩
  · exact setVq_info h.info (fun _ _ => rfl) fun hlt => (h.info _ hlt).enable
  · exact setVq_devPtr h.self (getLE_putLE_apart (by decide))

/-- Enabling a queue changes no register but `queue_enable`. -/
theorem regStep_enable (hops : ∀ q, ∃ len, (ops q).enableVq = enableVq len)
    (h : Shows n shown b dev) (hq : b.sel < n) :
    ∃ dev', regStep ops dev (.write .queueEnable 1) = .ok dev' ∧ Shows n shown b dev' := by
  obtain ⟨len, hlen⟩ := hops b.sel
  have h₁ := h.enableReg 1
  rw [regStep_queueEnable, if_pos (by decide)]
  generalize dev.setConfig (putLE dev.config qEnable 2 1) = dev₁ at h₁
  unfold virtioPciEnableVirtq
  simp only [h₁.select, h₁.numVq, if_pos hq, hlen]
  rcases enableVq_ok len (h₁.self _ hq) h₁.notifyBar with he | ⟨addr, he⟩
  · rw [he]
    exact ⟨dev₁, rfl, h₁⟩
  · rw [he]
    exact ⟨dev₁.enabled b.sel addr (len dev₁), rfl, h₁.enabled addr (len dev₁)⟩

/-- A queue register: the write goes to the window and to the bank of the selected queue. -/
theorem regStep_queue (ops : Nat → VirtqOps β) (h : Shows n shown b dev) {reg : CommonReg} (v : Nat)
    (hreg : (∃ r, reg = .queue r) ∨ ∃ a, reg = .queueAddr a) :
    ∃ dev', regStep ops dev (.write reg v) = .ok dev' ∧
      Shows n shown (b.step ⟨none, reg.sets v⟩) dev' := by
  have hoff : QueueReg reg.offset ∧ reg.offset ≠ 0 ∧ reg.offset ≠ 8 ∧ reg.offset ≠ 20 ∧
      reg.offset ≠ qSelect ∧ reg.offset ≠ qEnable := by
    rcases hreg with ⟨r, rfl⟩ | ⟨a, rfl⟩
    · cases r <;> decide
    · cases a <;> decide
  have hend := reg.end_le
  have hlo := hoff.1.1
  simp only [qSize, isrCap] at hlo hend
  have hval : (b.step ⟨none, reg.sets v⟩).val b.sel = fun r =>
      (reg.sets v r).getD (b.val b.sel r) := by
    funext r
    exact Banks.step_val_self b _ r
  have hother : ∀ q, q ≠ b.sel → (b.step ⟨none, reg.sets v⟩).val q = b.val q := by
    intro q hq
    exact Banks.step_val_other b _ hq
  obtain ⟨dev₁, hdev₁⟩ : ∃ d, d = dev.setConfig (patch dev.config reg.offset (toLE reg.width v)) :=
    ⟨_, rfl⟩
  have hnumVq : dev₁.numVq = n := by rw [hdev₁]; exact h.numVq
  have hnum : dev₁.numQueues = n := by
    rw [hdev₁]
    refine (getLE_patch_apart ?_).trans h.numQueues
    simp only [Span.Apart, toLE_length]
    omega
  have hsel : dev₁.queueSelect = b.sel := by
    rw [hdev₁]
    refine (getLE_patch_apart ?_).trans h.select
    simp only [Span.Apart, toLE_length, qSelect]
    omega
  have hinfo : ∀ q < n, Holds (dev₁.vq q).info qSize (b.val q) := by rw [hdev₁]; exact h.info
  have hself : ∀ q < n, dev₁.vqDevPtr q = dev₁.self := by rw [hdev₁]; exact h.self
  have hbar : getLE dev₁.hdr (notifyCap + 4) 1 = 0 := by rw [hdev₁]; exact h.notifyBar
  have hwin : shown → b.sel < n → Holds dev₁.config 0 ((b.step ⟨none, reg.sets v⟩).val b.sel) := by
    intro hs hlt
    rw [hdev₁, hval]
    exact (h.window hs hlt).write (Nat.zero_le _) v hreg
  rw [regStep_write, ← hdev₁, writeRegister_other hoff.2, writeOther_queueReg hoff.1, hsel, hnum,
    hnumVq]
  by_cases hq : b.sel < n
  · rw [if_pos hq, if_pos hq]
    refine ⟨dev₁.setVq b.sel (dev₁.written b.sel reg.offset (toLE reg.width v)), rfl, hnumVq, hnum,
      hsel, ?_, ?_, hbar, hwin⟩
    · refine setVq_info hinfo hother fun hlt => ?_
      rw [hval]
      exact (hinfo _ hlt).write (Nat.le_refl _) v hreg
    · refine setVq_devPtr hself (getLE_patch_apart ?_)
      simp only [Span.Apart, toLE_length, virtqInfoSize, qSize]
      omega
  · rw [if_neg hq]
    refine ⟨dev₁, rfl, hnumVq, hnum, hsel, ?_, hself, hbar, hwin⟩
    intro q hqn
    rw [hother q fun hqs => hq (hqs ▸ hqn)]
    exact hinfo q hqn

theorem regStep_read (offset size : Nat) (h₁ : 1 ≤ size) (h₂ : size ≤ 8)
    (h₃ : offset + size ≤ isrCap) :
    regStep ops dev (.read offset size h₁ h₂ h₃) = .ok dev := by
  have hlt : offset < devCfgOffset := by simp only [isrCap, devCfgOffset] at *; omega
  have hne : offset ≠ isrCap := by omega
  unfold regStep
  rw [spaceIo_read _ _ rfl hlt, result_after, result_done]
  exact congrArg _ (if_neg hne)

theorem Shows.mono {shown' : Prop} (h : Shows n shown b dev) (hs : shown' → shown) :
    Shows n shown' b dev :=
  ⟨h.numVq, h.numQueues, h.select, h.info, h.self, h.notifyBar, fun hs' => h.window (hs hs')⟩

/-- One access does to the registers what it does to the banks. -/
theorem regStep_shows (hops : ∀ q, ∃ len, (ops q).enableVq = enableVq len) (h : Shows n shown b dev)
    {a : RegAccess} (ha : a.EnableOk n b.sel) :
    ∃ dev', regStep ops dev a = .ok dev' ∧
      Shows n (shown ∨ a.action.select.isSome) (b.step a.action) dev' := by
  -- the registers that are no queue's leave the banks alone
  have idle : ∀ {reg : CommonReg} {v : Nat}, reg ≠ .queueSelect → reg.sets v = (fun _ => none) →
      (∃ dev', regStep ops dev (.write reg v) = .ok dev' ∧ Shows n shown b dev') →
      ∃ dev', regStep ops dev (.write reg v) = .ok dev' ∧
        Shows n (shown ∨ (RegAccess.write reg v).action.select.isSome)
          (b.step (RegAccess.write reg v).action) dev' := by
    rintro reg v hne hsets ⟨dev', hstep, hs⟩
    refine ⟨dev', hstep, ?_⟩
    simp only [RegAccess.action, if_neg hne, hsets, Banks.step_idle]
    exact hs.mono fun hs => hs.resolve_right (by simp)
  cases a with
  | read offset size h₁ h₂ h₃ =>
    refine ⟨dev, regStep_read offset size h₁ h₂ h₃, ?_⟩
    simp only [RegAccess.action, Banks.step_idle]
    exact h.mono fun hs => hs.resolve_right (by simp)
  | write reg v =>
    cases reg with
    | queueSelect =>
      obtain ⟨dev', hstep, hs⟩ := regStep_select ops h v
      refine ⟨dev', hstep, ?_⟩
      have hb : b.step (RegAccess.write .queueSelect v).action = ⟨v % 2 ^ 16, b.val⟩ := by
        have hidle := congrArg Banks.State.val (Banks.step_idle b)
        simp only [RegAccess.action, if_true]
        exact congrArg (Banks.State.mk _) hidle
      rw [hb]
      exact hs.mono fun _ => trivial
    | queueEnable =>
      obtain ⟨rfl, hq⟩ := ha
      exact idle (by decide) rfl (regStep_enable hops h hq)
    | queue r =>
      obtain ⟨dev', hstep, hs⟩ := regStep_queue ops h v (.inl ⟨r, rfl⟩)
      refine ⟨dev', hstep, ?_⟩
      simp only [RegAccess.action, if_neg (by simp : CommonReg.queue r ≠ .queueSelect)]
      exact hs.mono fun hs => hs.resolve_right (by simp)
    | queueAddr a =>
      obtain ⟨dev', hstep, hs⟩ := regStep_queue ops h v (.inr ⟨a, rfl⟩)
      refine ⟨dev', hstep, ?_⟩
      simp only [RegAccess.action, if_neg (by simp : CommonReg.queueAddr a ≠ .queueSelect)]
      exact hs.mono fun hs => hs.resolve_right (by simp)
    | deviceFeatureSelect => exact idle (by decide) rfl (regStep_low h (.inl (by decide)) v)
    | deviceFeature => exact idle (by decide) rfl (regStep_low h (.inl (by decide)) v)
    | guestFeatureSelect => exact idle (by decide) rfl (regStep_low h (.inl (by decide)) v)
    | guestFeature => exact idle (by decide) rfl (regStep_low h (.inl (by decide)) v)
    | msixConfig => exact idle (by decide) rfl (regStep_low h (.inl (by decide)) v)
    | deviceStatus => exact idle (by decide) rfl (regStep_low h (.inr (by decide)) v)
    | configGeneration => exact idle (by decide) rfl (regStep_low h (.inr (by decide)) v)

theorem regRun_shows (hops : ∀ q, ∃ len, (ops q).enableVq = enableVq len) (as : List RegAccess) :
    ∀ {shown : Prop} {b : Banks.State Nat QReg Nat} {dev : VirtioPciDev β}, Shows n shown b dev →
      EnablesOk n b.sel as →
      ∃ dev', regRun ops dev as = .ok dev' ∧
        Shows n (shown ∨ ∃ a ∈ as, a.action.select.isSome)
          (b.run (as.map RegAccess.action)) dev' := by
  induction as with
  | nil =>
    intro shown b dev h _
    exact ⟨dev, rfl, h.mono fun hs => hs.resolve_right (by simp)⟩
  | cons a as ih =>
    intro shown b dev h hok
    obtain ⟨dev₁, hstep, h₁⟩ := regStep_shows hops h hok.1
    obtain ⟨dev', hrun, h'⟩ := ih h₁ hok.2
    refine ⟨dev', ?_, h'.mono ?_⟩
    · unfold regRun
      rw [List.foldlM_cons, hstep]
      exact hrun
    · rintro (hs | ⟨c, hc, hsel⟩)
      · exact .inl (.inl hs)
      · rcases List.mem_cons.mp hc with rfl | hc
        · exact .inl (.inr hsel)
        · exact .inr ⟨c, hc, hsel⟩

end Step

/-! ## From creation on -/

/-- The registers of queue `q` as the device is created. -/
def initReg (notifyOff : Nat → Nat) (q : Nat) : QReg → Nat
  | .size => virtqSize
  | .notifyOff => notifyOff q % 2 ^ 16
  | _ => 0

theorem newVirtq_holds (self : Nat) (notifyOff : Nat → Nat) (q : Nat) :
    Holds (newVirtq self (notifyOff q)).info qSize (initReg notifyOff q) := by
  have hz : ∀ a k, getLE (fun _ => 0) a k = 0 := by
    intro a k
    induction k generalizing a with
    | zero => rfl
    | succ k ih =>
      have := ih (a + 1)
      simp only [getLE] at this
      simp [getLE, slice, leNat, this]
  intro r
  have hb := r.bounds
  have hinfo : (newVirtq self (notifyOff q)).info =
      putLE (putLE (putLE (putLE (fun _ => 0) 6 2 (notifyOff q)) 0 2 virtqSize) 4 2 0) virtqInfoSize
        8 self :=
    rfl
  rw [hinfo, getLE_putLE_apart (by
    simp only [Span.Apart, qSize, isrCap, virtqInfoSize] at *; omega)]
  rw [getLE_putLE_apart (by
    have := r.off_enable
    simp only [Span.Apart, qSize, qEnable] at *
    omega)]
  cases r with
  | size => exact getLE_putLE_same _ _ _ _
  | notifyOff =>
    rw [getLE_putLE_apart (by decide)]
    exact getLE_putLE_same _ _ _ _
  | _ =>
    rw [getLE_putLE_apart (by decide), getLE_putLE_apart (by decide), hz]
    rfl

theorem initPci_shows (host : Host β) {hdr : Store} (devCfg : Store) (notifyOff : Nat → Nat)
    {n : Nat} (feature : Nat) (hn : n < 2 ^ 16) (hbar : getLE hdr (notifyCap + 4) 1 = 0) :
    Shows n False ⟨0, initReg notifyOff⟩ (virtioInitPci host hdr devCfg notifyOff n feature) where
  numVq := rfl
  numQueues := (getLE_putLE_same _ _ _ _).trans (Nat.mod_eq_of_lt hn)
  select := by
    refine (getLE_putLE_apart (by decide)).trans ((getLE_putLE_apart (by decide)).trans ?_)
    rfl
  info q _ := newVirtq_holds host.self notifyOff q
  self q _ := (getLE_putLE_same _ _ _ _).trans (Nat.mod_eq_of_lt host.self_lt)
  notifyBar := (getLE_putLE_apart (by decide)).trans hbar
  window hs := hs.elim

/-- The queue written last to `queue_select`. -/
def lastSelect (as : List RegAccess) : Option Nat := Banks.lastSelected (as.map RegAccess.action)

theorem exists_select {as : List RegAccess} {q : Nat} (h : lastSelect as = some q) :
    ∃ a ∈ as, a.action.select.isSome := by
  obtain ⟨c, hc, hsel⟩ := Banks.exists_select h
  obtain ⟨a, ha, rfl⟩ := List.mem_map.mp hc
  exact ⟨a, ha, hsel⟩

/-- The value of a register of queue `q` after the accesses `as`: what was written to it last while
`q` was selected, or its initial value. -/
def bankValue (notifyOff : Nat → Nat) (as : List RegAccess) (q : Nat) (r : QReg) : Nat :=
  (Banks.lastWritten q r 0 (as.map RegAccess.action)).getD (initReg notifyOff q r)

/-- **Queue registers are banked.** For any number of queues, any sequence of whole-register
accesses to the common configuration returns; `vq[q].info` then has in every register of every queue
the value written last while the queue was selected, and so has the window for the queue that was
selected last. -/
theorem queue_banks_run {ops : Nat → VirtqOps β}
    (hops : ∀ q, ∃ len, (ops q).enableVq = enableVq len) (host : Host β) (hdr devCfg : Store)
    (notifyOff : Nat → Nat) (n feature : Nat) (hn : n < 2 ^ 16)
    (hbar : getLE hdr (notifyCap + 4) 1 = 0) (as : List RegAccess) (has : EnablesOk n 0 as) :
    ∃ dev, regRun ops (virtioInitPci host hdr devCfg notifyOff n feature) as = .ok dev ∧
      (∀ q < n, (dev.vq q).size = bankValue notifyOff as q .size ∧
        (dev.vq q).msixVector = bankValue notifyOff as q .msixVector ∧
        (dev.vq q).notifyOff = bankValue notifyOff as q .notifyOff ∧
        (dev.vq q).descAddr =
          bankValue notifyOff as q .descLo + 2 ^ 32 * bankValue notifyOff as q .descHi ∧
        (dev.vq q).deviceAddr =
          bankValue notifyOff as q .availLo + 2 ^ 32 * bankValue notifyOff as q .availHi ∧
        (dev.vq q).driverAddr =
          bankValue notifyOff as q .usedLo + 2 ^ 32 * bankValue notifyOff as q .usedHi) ∧
      ∀ q < n, lastSelect as = some q →
        ∀ r : QReg, leNat (virtioPciSpaceRead dev r.offset r.width).1 =
          bankValue notifyOff as q r := by
  obtain ⟨dev, hrun, h⟩ := regRun_shows hops as
    (initPci_shows host devCfg notifyOff feature hn hbar) has
  have hval : ∀ q r, ((⟨0, initReg notifyOff⟩ : Banks.State Nat QReg Nat).run
      (as.map RegAccess.action)).val q r = bankValue notifyOff as q r := by
    intro q r
    exact Banks.run_val _ _ _ _
  refine ⟨dev, hrun, ?_, ?_⟩
  · intro q hq
    have hi : ∀ r : QReg, getLE (dev.vq q).info (r.offset - qSize) r.width =
        bankValue notifyOff as q r := by
      intro r
      rw [← hval]
      exact h.info q hq r
    refine ⟨hi .size, hi .msixVector, hi .notifyOff, ?_, ?_, ?_⟩
    · rw [← hi .descLo, ← hi .descHi]; exact getLE_add _ 8 4 4
    · rw [← hi .availLo, ← hi .availHi]; exact getLE_add _ 16 4 4
    · rw [← hi .usedLo, ← hi .usedHi]; exact getLE_add _ 24 4 4
  · intro q hq hsel r
    have hb : ((⟨0, initReg notifyOff⟩ : Banks.State Nat QReg Nat).run
        (as.map RegAccess.action)).sel = q := by
      rw [Banks.run_sel, show Banks.lastSelected (as.map RegAccess.action) = some q from hsel,
        Option.getD_some]
    have hw := h.window (.inr (exists_select hsel)) (by rw [hb]; exact hq) r
    rw [hb, hval] at hw
    rw [← hw]
    have hlt : r.offset < devCfgOffset := by
      have := r.bounds.2
      simp only [isrCap] at this
      simp only [devCfgOffset]
      omega
    simp only [virtioPciSpaceRead, if_pos hlt]
    rfl

end

/-- The queue address of both queues of the network device, that of queue 0 high half first. -/
def twoRings : List RegAccess :=
  [.write .queueSelect 1, .write (.queue .descLo) 0x11000, .write .queueSelect 0,
    .write (.queue .descHi) 1, .write (.queue .descLo) 0x22000, .write .queueEnable 1,
    .write .queueSelect 1]

theorem queue_banks_run_net :
    ∃ dev, regRun (VirtioKind.net.ops 0 fun _ => 0)
      (virtioInitPci netHost (virtioPciHdr 0x1041 0x020000 15)
        (fun _ => 0) (fun i => i) virtioNetVirtqNum 22) twoRings = .ok dev ∧
      (dev.vq 0).descAddr = 0x100022000 ∧ (dev.vq 1).descAddr = 0x11000 ∧ (dev.vq 1).notifyOff = 1 ∧
      leNat (virtioPciSpaceRead dev 32 4).1 = 0x11000 := by
  obtain ⟨dev, hrun, hinfo, hshow⟩ :=
    queue_banks_run (VirtioKind.enableVq_eq .net 0 fun _ => 0) netHost
    (virtioPciHdr 0x1041 0x020000 15) (fun _ => 0) (fun i => i) virtioNetVirtqNum 22
    (by decide) (by decide +kernel) twoRings
    ⟨trivial, trivial, trivial, trivial, trivial, ⟨rfl, by decide⟩, trivial, trivial⟩
  obtain ⟨-, -, -, h0, -⟩ := hinfo 0 (by decide)
  obtain ⟨-, -, hoff, h1, -⟩ := hinfo 1 (by decide)
  refine ⟨dev, hrun, h0, h1, hoff, ?_⟩
  exact hshow 1 (by decide) rfl .descLo

end KvmHost
