import KvmHost.DmaRanges
import KvmHost.QueueBanks
import KvmHost.QueueEnable

/-!
# KvmHost.EventSuppression

Which structure in guest memory decides whether the driver is interrupted.

A driver that wants no interrupts says so in its event suppression structure, whose address it
writes to `queue_avail`; the structure at the address in `queue_used` is the device's. `QueueSpec`
follows the registers and what they were as each queue was enabled, over runs of register accesses,
handler calls and changes of guest memory. The second and third address of `struct virtq_info` have
their names the other way round, so `guest_event` points to the structure of `queue_used`: that is
the one `virtq_handle_avail` tests, and the one the device writes flags into.
-/

namespace KvmHost

open ByteStore Turns

/-! ## `RAM_BASE` never changes -/

theorem Ram.write_base {ram ram' : Ram} {p : Ptr} {bs : List UInt8}
    (h : ram.write p bs = .ok ram') :
    ram'.base = ram.base := (Ram.write_changed h (Nat.le_refl _)).base

theorem setDescLen_base {ram ram' : Ram} {desc : Ptr} {v : Nat}
    (h : setDescLen ram desc v = .ok ram') :
    ram'.base = ram.base := by
  unfold setDescLen Ram.store at h
  exact Ram.write_base h

theorem xorDescUsed_base {ram ram' : Ram} {desc : Ptr} (h : xorDescUsed ram desc = .ok ram') :
    ram'.base = ram.base := by
  obtain ⟨flags, -, h⟩ := bind_eq_ok.mp h
  exact Ram.write_base h

namespace VqDev

variable {β : Type} {d d' : VqDev β}

theorem markUsed_base {desc : Ptr} (h : d.markUsed desc = .ok d') : d'.ram.base = d.ram.base := by
  obtain ⟨ram, hram, h⟩ := bind_eq_ok.mp h
  cases desc with
  | none => cases h; exact xorDescUsed_base hram
  | some a => cases h; exact xorDescUsed_base hram

end VqDev

section Net

variable {dev dev' : VirtioNetDev}

theorem disableGuestEvent_base (h : disableGuestEvent dev = .ok dev') :
    dev'.ram.base = dev.ram.base := by
  obtain ⟨ram, hram, h⟩ := bind_eq_ok.mp h
  cases h
  exact Ram.write_base hram

theorem Tap.read_base {tap tap' : Tap} {ram ram' : Ram} {data : Ptr} {size : Nat} {r : Option Nat}
    (h : tap.read ram data size = .ok (r, ram', tap')) : ram'.base = ram.base := by
  rcases Tap.read_cases h with ⟨-, -, rfl⟩ | ⟨bs, -, -, hwrite⟩
  · rfl
  · exact Ram.write_base hwrite

theorem virtioNetCompleteRequestRx_base (h : virtioNetCompleteRequestRx dev = .ok dev') :
    dev'.ram.base = dev.ram.base := by
  obtain ⟨⟨p, d₁⟩, hget, h⟩ := bind_eq_ok.mp h
  rw [← VqDev.getAvail_ram hget]
  cases p with
  | none => exact disableGuestEvent_base h
  | some a =>
    obtain ⟨addr, -, h⟩ := bind_eq_ok.mp h
    obtain ⟨ram₁, h₁, h⟩ := bind_eq_ok.mp h
    obtain ⟨ram₂, h₂, h⟩ := bind_eq_ok.mp h
    obtain ⟨len, -, h⟩ := bind_eq_ok.mp h
    obtain ⟨⟨r, ram₃, tap⟩, h₃, h⟩ := bind_eq_ok.mp h
    have hbase : ram₃.base = d₁.ram.base :=
      (Tap.read_base h₃).trans ((Ram.write_base h₂).trans (Ram.write_base h₁))
    rw [← hbase]
    cases r with
    | none => exact disableGuestEvent_base h
    | some n =>
      obtain ⟨ram₄, h₄, h⟩ := bind_eq_ok.mp h
      obtain ⟨d₂, hmark, h⟩ := bind_eq_ok.mp h
      have hused := VqDev.markUsed_base hmark
      cases h
      exact hused.trans (setDescLen_base h₄)

theorem virtioNetCompleteRequestTx_base (h : virtioNetCompleteRequestTx dev = .ok dev') :
    dev'.ram.base = dev.ram.base := by
  obtain ⟨⟨p, d₁⟩, hget, h⟩ := bind_eq_ok.mp h
  rw [← VqDev.getAvail_ram hget]
  cases p with
  | none => exact disableGuestEvent_base h
  | some a =>
    obtain ⟨addr, -, h⟩ := bind_eq_ok.mp h
    obtain ⟨len, -, h⟩ := bind_eq_ok.mp h
    split at h
    · exact disableGuestEvent_base h
    · obtain ⟨⟨r, tap⟩, -, h⟩ := bind_eq_ok.mp h
      cases r with
      | none =>
        have hbase := disableGuestEvent_base h
        exact hbase
      | some n =>
        obtain ⟨d₂, hmark, h⟩ := bind_eq_ok.mp h
        have hused := VqDev.markUsed_base hmark
        cases h
        exact hused

end Net

section Blk

variable {dev dev' : VirtioBlkDev} {req req' : Store} {desc : Ptr} {status : Nat} {flow : Blk.Flow}

namespace Blk

theorem transfer_base (h : transfer dev req = .ok (desc, status, dev', req')) :
    dev'.ram.base = dev.ram.base := by
  obtain ⟨a, d₁, addr, len, -, -, -, hchanged⟩ := transfer_mem h
  exact hchanged.base

theorem finish_base {head : Ptr} (h : finish dev head desc status = .ok (flow, dev')) :
    dev'.ram.base = dev.ram.base := by
  obtain ⟨next, -, h⟩ := bind_eq_ok.mp h
  cases next with
  | false => cases h; rfl
  | true =>
    obtain ⟨⟨p, d₁⟩, hget, h⟩ := bind_eq_ok.mp h
    rw [← VqDev.getAvail_ram hget]
    obtain ⟨addr, -, h⟩ := bind_eq_ok.mp h
    obtain ⟨ram₁, h₁, h⟩ := bind_eq_ok.mp h
    obtain ⟨d₂, hmark, h⟩ := bind_eq_ok.mp h
    obtain ⟨ram₂, h₂, h⟩ := bind_eq_ok.mp h
    have hused := VqDev.markUsed_base hmark
    cases h
    exact (setDescLen_base h₂).trans (hused.trans (Ram.write_base h₁))

theorem round_base (h : round dev req = .ok (flow, dev', req')) : dev'.ram.base = dev.ram.base := by
  rcases round_inv h with ⟨-, -, rfl⟩ | ⟨head, d₁, req₁, hget, -, hcases⟩
  · rfl
  · rw [← VqDev.getAvail_ram hget]
    rcases hcases with ⟨-, -, -, rfl⟩ | ⟨-, -, desc, status, d₂, req₂, htr, hfin⟩ | ⟨-, hfin⟩
    · rfl
    · exact (finish_base hfin).trans (transfer_base htr)
    · exact finish_base hfin

end Blk

theorem virtioBlkCompleteRequest_base : ∀ {fuel : Nat} {dev : VirtioBlkDev} {req : Store},
    virtioBlkCompleteRequest fuel dev req = .ok dev' → dev'.ram.base = dev.ram.base := by
  intro fuel
  induction fuel with
  | zero => intro dev req h; cases h
  | succ fuel ih =>
    intro dev req h
    obtain ⟨⟨flow, d₁, req₁⟩, hround, h⟩ := bind_eq_ok.mp h
    have hbase := Blk.round_base hround
    cases flow with
    | loop => exact (ih h).trans hbase
    | ret => cases h; exact hbase

end Blk

namespace VirtioKind

variable {k : VirtioKind} {fuel : Nat} {req : Store} {q : Nat} {d d' : VqDev k.Backend}

theorem completeRequest_base (h : (k.ops fuel req q).completeRequest d = .ok d') :
    d'.ram.base = d.ram.base := by
  cases k with
  | blk => exact virtioBlkCompleteRequest_base h
  | net =>
    simp only [ops, virtioNetOps] at h
    split at h
    · exact virtioNetCompleteRequestRx_base h
    · exact virtioNetCompleteRequestTx_base h

theorem virtqHandleAvail_base
    (h : virtqHandleAvail (k.ops fuel req q).completeRequest (k.ops fuel req q).notifyUsed d =
      .ok d') :
    d'.ram.base = d.ram.base := by
  unfold virtqHandleAvail at h
  split at h
  · cases h; rfl
  · obtain ⟨d₁, hcr, h⟩ := bind_eq_ok.mp h
    obtain ⟨flags, -, h⟩ := bind_eq_ok.mp h
    rw [← completeRequest_base hcr]
    split at h
    · rw [notifyUsed_eq] at h
      cases h
      rfl
    · cases h
      rfl

end VirtioKind

/-! ## The registers as each queue was enabled -/

inductive QueueEvent where
  | reg (a : RegAccess)
  /-- `virtq_handle_avail` of queue `q` -/
  | call (q fuel : Nat) (req : Store)
  /-- the thread of queue `q` writes `VRING_PACKED_EVENT_FLAG_ENABLE` -/
  | arm (q : Nat)
  | memory (m : Store)

def QueueEvent.dma : QueueEvent → DmaEvent
  | reg a => .event (.access a.access 0 fun _ => 0)
  | call q fuel req => .event (.handle q fuel req)
  | arm q => .arm q
  | memory m => .event (.memory m)

structure QueueSpec where
  bank : Banks.State Nat QReg Nat
  /-- the registers of a queue that was enabled, as they were then -/
  enabled : Nat → Option (QReg → Nat)

/-- A queue is enabled once, by a write to `queue_enable` that is not 0 modulo the width of the
register. -/
def QueueSpec.step (s : QueueSpec) : QueueEvent → QueueSpec
  | .reg (.write .queueEnable v) =>
    if v % 2 ^ 16 ≠ 0 ∧ s.enabled s.bank.sel = none then
      { s with enabled := Function.update s.enabled s.bank.sel (some (s.bank.val s.bank.sel)) }
    else s
  | .reg a => { s with bank := s.bank.step a.action }
  | _ => s

/-- The address in a pair of registers. -/
def areaAddr (regs : QReg → Nat) (a : AddrReg) : Nat := regs a.lo + 2 ^ 32 * regs a.hi

/-- The flags of the event suppression structure at a guest address. -/
def eventFlagsAt (ram : Ram) (guest : Nat) : Except Stop Nat :=
  ram.load ((vmGuestToHost ram guest).plus 2) 2

namespace VirtioKind

def numVirtq : VirtioKind → Nat
  | blk => virtioBlkVirtqNum
  | net => virtioNetVirtqNum

def notifyOffs : VirtioKind → Nat → Nat
  | blk => fun _ => 0
  | net => fun i => i

def specRun (k : VirtioKind) (evs : List QueueEvent) : QueueSpec :=
  evs.foldl QueueSpec.step ⟨⟨0, initReg k.notifyOffs⟩, fun _ => none⟩

/-- The device after the events, if it gets there. -/
def queueRun (k : VirtioKind) (host : Host k.Backend) (evs : List QueueEvent) :
    Option (VirtioPciDev k.Backend) :=
  (evs.map QueueEvent.dma).foldlM k.dmaNext (k.initPci host)

end VirtioKind

/-- A queue that was enabled with the registers `regs`, or was not. -/
def QueueOk (base : Nat) : Option (QReg → Nat) → Virtq → Prop
  | none, vq => vq.enable = 0
  | some regs, vq =>
    vq.enable ≠ 0 ∧ vq.guestEvent = vmGuestToHost ⟨base, fun _ => 0⟩ (areaAddr regs .used)

/-- The device has the state `s` of the specification, and its memory begins at guest address
`base`. -/
structure Configured (n base : Nat) (s : QueueSpec) {β : Type} (dev : VirtioPciDev β) : Prop where
  shows : Shows n False s.bank dev
  ramBase : dev.ram.base = base
  queues : ∀ q < n, QueueOk base (s.enabled q) (dev.vq q)

theorem vmGuestToHost_congr {ram ram' : Ram} (h : ram.base = ram'.base) (guest : Nat) :
    vmGuestToHost ram guest = vmGuestToHost ram' guest := by
  unfold vmGuestToHost
  rw [h]

theorem QueueOk.moved {base : Nat} {regs : Option (QReg → Nat)} {vq vq' : Virtq}
    (h : QueueOk base regs vq) (hm : vq.Moved vq') : QueueOk base regs vq' := by
  cases regs with
  | none =>
    show getLE vq'.info 4 2 = 0
    rw [hm.info]
    exact h
  | some regs =>
    refine ⟨?_, hm.guestEvent.trans h.2⟩
    show getLE vq'.info 4 2 ≠ 0
    rw [hm.info]
    exact h.1

theorem QueueOk.written {base : Nat} {regs : Option (QReg → Nat)} {β : Type} {dev : VirtioPciDev β}
    {q : Nat} (h : QueueOk base regs (dev.vq q)) {reg : CommonReg} (v : Nat)
    (hreg : (∃ r, reg = .queue r) ∨ ∃ a, reg = .queueAddr a) :
    QueueOk base regs (dev.written q reg.offset (toLE reg.width v)) := by
  have hen : (dev.written q reg.offset (toLE reg.width v)).enable = (dev.vq q).enable := by
    refine getLE_patch_apart ?_
    rw [toLE_length]
    rcases hreg with ⟨r, rfl⟩ | ⟨a, rfl⟩
    · cases r <;> decide
    · cases a <;> decide
  cases regs with
  | none => exact hen.trans h
  | some regs => exact ⟨by rw [hen]; exact h.1, h.2⟩

theorem CommonReg.eq_queueEnable {reg : CommonReg} (h : reg.offset = qEnable) :
    reg = .queueEnable := by
  cases reg with
  | queueEnable => rfl
  | queue r => cases r <;> cases h
  | queueAddr a => cases a <;> cases h
  | _ => cases h

theorem CommonReg.isQueue {reg : CommonReg} (h : QueueReg reg.offset) :
    (∃ r, reg = .queue r) ∨ ∃ a, reg = .queueAddr a := by
  cases reg with
  | queue r => exact .inl ⟨r, rfl⟩
  | queueAddr a => exact .inr ⟨a, rfl⟩
  | _ => exact absurd h (by decide)

section

variable {β : Type} {dev : VirtioPciDev β} {n : Nat} {shown : Prop} {b : Banks.State Nat QReg Nat}

/-- What a handler leaves behind shows the same registers. -/
theorem Shows.putVqDev (h : Shows n shown b dev) {q : Nat} {d : VqDev β}
    (hinfo : d.vq.info = (dev.vq q).info) :
    Shows n shown b (dev.putVqDev q d) where
  numVq := h.numVq
  numQueues := (getLE_putLE_apart (by decide)).trans h.numQueues
  select := (getLE_putLE_apart (by decide)).trans h.select
  info p hp := by
    have : ((dev.putVqDev q d).vq p).info = (dev.vq p).info := by
      by_cases hpq : p = q
      · subst hpq
        exact (congrArg Virtq.info (setVq_self dev p d.vq)).trans hinfo
      · exact congrArg Virtq.info (setVq_other hpq d.vq)
    rw [this]
    exact h.info p hp
  self := setVq_devPtr h.self (congrArg (getLE · virtqInfoSize 8) hinfo)
  notifyBar := h.notifyBar
  window hs hlt := by
    refine (h.window hs hlt).patch_apart ?_
    intro r
    have := r.bounds.2
    simp only [Span.Apart, toLE_length, Nat.sub_zero]
    exact .inr (.inr (.inl this))

end

/-! ## One event -/

namespace VirtioKind

variable {k : VirtioKind} {dev dev' : VirtioPciDev k.Backend} {s : QueueSpec} {base fuel : Nat}
  {req : Store}

theorem regStep_dev {a : RegAccess} (h : regStep (k.ops fuel req) dev a = .ok dev') :
    (k.step dev (.access a.access fuel req)).dev = dev' := by
  unfold regStep Outcome.result at h
  split at h
  · cases h; rfl
  · cases h

theorem dmaNext_inv {ev : DmaEvent} (h : k.dmaNext dev ev = some dev') :
    (k.dmaStep dev ev).stop = none ∧ (k.dmaStep dev ev).dev = dev' := by
  unfold dmaNext at h
  split at h
  · rename_i hstop
    cases h
    exact ⟨hstop, rfl⟩
  · cases h

theorem dmaNext_reg {a : RegAccess} (h : k.dmaNext dev (QueueEvent.reg a).dma = some dev') :
    regStep (k.ops 0 fun _ => 0) dev a = .ok dev' := by
  obtain ⟨hstop, hdev⟩ := dmaNext_inv h
  have hstop : (virtioPciSpaceIo (k.ops 0 fun _ => 0) dev a.access).stop = none := hstop
  unfold regStep Outcome.result
  rw [hstop]
  exact congrArg _ hdev

/-- Register writes other than a notification leave guest memory alone. -/
theorem writeRegister_ram {offset : Nat} (h : offset ≠ notifyData) (data : List UInt8) :
    (writeRegister (k.ops fuel req) dev offset data).dev.ram = dev.ram := by
  rcases offset_cases offset with (rfl | rfl | rfl) | rfl | rfl | ⟨hoth, hreg | rfl | hplain⟩
  · rfl
  · simp only [writeRegister, virtioPciWriteGuestFeature]
    split <;> rfl
  · simp only [writeRegister, virtioPciWriteStatus, virtioPciReset]
    split <;> rfl
  · simp only [writeRegister, qSelect]
    obtain ⟨bs, -, h | h⟩ := virtioPciSelectVirtq_dev dev
    · rw [h]
    · rw [h]; rfl
  · simp only [writeRegister, qEnable]
    split
    · rcases virtioPciEnableVirtq_cases fuel req dev with ⟨h, -⟩ | ⟨addr, len, -, -, h⟩
      · rw [h]
      · rw [h]; rfl
    · unfold virtioPciDisableVirtq
      dsimp only
      split <;> rfl
  · rw [writeRegister_other hoth, writeOther_queueReg hreg]
    split
    · split <;> rfl
    · rfl
  · exact absurd rfl h
  · rw [writeRegister_other hoth, writeOther_plain hplain]
    rfl

theorem regStep_ram {a : RegAccess} (h : regStep (k.ops fuel req) dev a = .ok dev') :
    dev'.ram = dev.ram := by
  cases a with
  | read offset size h₁ h₂ h₃ =>
    rw [regStep_read] at h
    cases h
    rfl
  | write reg v =>
    have hne : reg.offset ≠ notifyData := by
      have h₁ := reg.width_pos
      have h₂ := reg.end_le
      unfold isrCap at h₂
      unfold notifyData
      omega
    rw [regStep_write] at h
    have hram : (writeRegister (k.ops fuel req)
        (dev.setConfig (patch dev.config reg.offset (toLE reg.width v))) reg.offset
        (toLE reg.width v)).dev.ram = dev.ram :=
      writeRegister_ram hne _
    unfold Outcome.result at h
    split at h
    · cases h; exact hram
    · cases h

/-- A register other than `queue_enable`. -/
theorem configured_write (h : Configured k.numVirtq base s dev) {reg : CommonReg}
    (hreg : reg ≠ .queueEnable) {v : Nat}
    (hs : regStep (k.ops fuel req) dev (.write reg v) = .ok dev') :
    Configured k.numVirtq base { s with bank := s.bank.step (RegAccess.write reg v).action }
      dev' := by
  obtain ⟨dev₁, hs₁, hshows⟩ := regStep_shows (a := .write reg v) (k.enableVq_eq fuel req) h.shows
    (by cases reg <;> trivial)
  rw [hs] at hs₁
  cases hs₁
  refine ⟨hshows.mono False.elim, by rw [regStep_ram hs]; exact h.ramBase, ?_⟩
  intro q hq
  have hcase := k.step_vq dev (.access (RegAccess.write reg v).access fuel req)
  rw [regStep_dev hs] at hcase
  cases hcase with
  | same hvq _ =>
    rw [hvq]
    exact h.queues q hq
  | enable addr len _ hoff _ _ _ _ _ _ => exact absurd (CommonReg.eq_queueEnable hoff) hreg
  | @write _ _ _ _ q' _ hqreg _ _ _ hvq _ =>
    rw [hvq]
    by_cases hqq : q = q'
    · subst hqq
      rw [Function.update_self]
      exact (h.queues q hq).written v (CommonReg.isQueue hqreg)
    · rw [Function.update_of_ne hqq]
      exact h.queues q hq
  | @move _ _ q' vq _ hm hvq _ =>
    rw [hvq]
    by_cases hqq : q = q'
    · subst hqq
      rw [Function.update_self]
      exact (h.queues q hq).moved hm
    · rw [Function.update_of_ne hqq]
      exact h.queues q hq

theorem configured_enabled (h : Configured k.numVirtq base s dev) (hsel : s.bank.sel < k.numVirtq)
    (addr len : Nat) :
    Configured k.numVirtq base
      { s with enabled := Function.update s.enabled s.bank.sel (some (s.bank.val s.bank.sel)) }
      (dev.enabled s.bank.sel addr len) := by
  refine ⟨h.shows.enabled addr len, h.ramBase, ?_⟩
  intro q hq
  by_cases hqq : q = s.bank.sel
  · subst hqq
    have hvq : (dev.enabled s.bank.sel addr len).vq s.bank.sel = dev.mapped s.bank.sel :=
      setVq_self ..
    have hinfo := h.shows.info s.bank.sel hsel
    have haddr : (dev.vq s.bank.sel).driverAddr = areaAddr (s.bank.val s.bank.sel) .used := by
      show getLE _ 24 8 = s.bank.val s.bank.sel .usedLo + 2 ^ 32 * s.bank.val s.bank.sel .usedHi
      rw [← hinfo .usedLo, ← hinfo .usedHi]
      exact getLE_add _ 24 4 4
    rw [hvq]
    simp only [Function.update_self]
    refine ⟨by rw [mapped_enable]; decide, ?_⟩
    rw [← haddr]
    exact vmGuestToHost_congr h.ramBase _
  · have hvq : (dev.enabled s.bank.sel addr len).vq q = dev.vq q := setVq_other hqq _
    rw [hvq]
    simp only [Function.update_of_ne hqq]
    exact h.queues q hq

/-- A write to `queue_enable`, of any value. -/
theorem configured_enable (h : Configured k.numVirtq base s dev) {v : Nat}
    (hs : regStep (k.ops fuel req) dev (.write .queueEnable v) = .ok dev') :
    Configured k.numVirtq base (s.step (.reg (.write .queueEnable v))) dev' := by
  have h₁ : Configured k.numVirtq base s (dev.setConfig (putLE dev.config qEnable 2 v)) :=
    ⟨h.shows.enableReg v, h.ramBase, h.queues⟩
  rw [regStep_queueEnable] at hs
  generalize dev.setConfig (putLE dev.config qEnable 2 v) = dev₁ at hs h₁
  by_cases hsel : s.bank.sel < k.numVirtq
  · by_cases hv : v % 2 ^ 16 ≠ 0
    · obtain ⟨len, hlen⟩ := k.enableVq_eq fuel req s.bank.sel
      rw [if_pos hv] at hs
      simp only [virtioPciEnableVirtq, h₁.shows.select, h₁.shows.numVq, if_pos hsel, hlen] at hs
      have hq := h₁.queues _ hsel
      cases hen : s.enabled s.bank.sel with
      | none =>
        rw [hen] at hq
        obtain ⟨addr, hbody⟩ := enableVq_body len (h₁.shows.self _ hsel) h₁.shows.notifyBar hq
        rw [hbody] at hs
        cases hs
        simp only [QueueSpec.step, if_pos (And.intro hv hen)]
        exact configured_enabled h₁ hsel addr (len dev₁)
      | some regs =>
        rw [hen] at hq
        rw [enableVq_again len hq.1] at hs
        cases hs
        rw [QueueSpec.step, if_neg fun hc => by rw [hen] at hc; cases hc.2]
        exact h₁
    · rw [if_neg hv] at hs
      simp only [virtioPciDisableVirtq, h₁.shows.select, h₁.shows.numVq, if_pos hsel] at hs
      cases hs
      rw [QueueSpec.step, if_neg fun hc => hv hc.1]
      exact h₁
  · exfalso
    split at hs
    · simp only [virtioPciEnableVirtq, h₁.shows.select, h₁.shows.numVq, if_neg hsel] at hs
      cases hs
    · simp only [virtioPciDisableVirtq, h₁.shows.select, h₁.shows.numVq, if_neg hsel] at hs
      cases hs

theorem configured_put (h : Configured k.numVirtq base s dev) {q : Nat} {d : VqDev k.Backend}
    (hm : (dev.vq q).Moved d.vq) (hbase : d.ram.base = dev.ram.base) :
    Configured k.numVirtq base s (dev.putVqDev q d) := by
  refine ⟨h.shows.putVqDev hm.info, hbase.trans h.ramBase, ?_⟩
  intro p hp
  by_cases hpq : p = q
  · subst hpq
    have hvq : (dev.putVqDev p d).vq p = d.vq := setVq_self ..
    rw [hvq]
    exact (h.queues p hp).moved hm
  · have hvq : (dev.putVqDev q d).vq p = dev.vq p := setVq_other hpq _
    rw [hvq]
    exact h.queues p hp

/-- A call of the handler that returned. -/
theorem handleAvail_ok {q : Nat} (h : (handleAvail (k.ops fuel req) dev q).stop = none) :
    ∃ d, virtqHandleAvail (k.ops fuel req q).completeRequest (k.ops fuel req q).notifyUsed
      (dev.vqDev q) = .ok d ∧ (handleAvail (k.ops fuel req) dev q).dev = dev.putVqDev q d := by
  unfold handleAvail at h ⊢
  by_cases hq : q < dev.numVq
  · simp only [if_pos hq] at h ⊢
    split at h
    · cases h
    · rename_i hptr
      rw [if_neg hptr]
      split at h
      · rename_i d hd
        rw [hd]
        exact ⟨d, rfl, rfl⟩
      · cases h
  · rw [if_neg hq] at h
    cases h

theorem configured_call (h : Configured k.numVirtq base s dev) {q : Nat}
    (hs : (k.step dev (.handle q fuel req)).stop = none) :
    Configured k.numVirtq base s (k.step dev (.handle q fuel req)).dev := by
  simp only [step] at hs ⊢
  by_cases hq : q < dev.numVq
  · rw [if_pos hq] at hs ⊢
    obtain ⟨d, hd, hdev⟩ := handleAvail_ok hs
    rw [hdev]
    exact configured_put h (virtqHandleAvail_moved hd) (virtqHandleAvail_base hd)
  · rw [if_neg hq]
    exact h

theorem configured_arm (h : Configured k.numVirtq base s dev) (q : Nat) :
    Configured k.numVirtq base s (k.dmaStep dev (.arm q)).dev := by
  simp only [dmaStep]
  split
  · split
    · rename_i d hd
      obtain ⟨ram, hram, hd⟩ := bind_eq_ok.mp hd
      cases hd
      exact configured_put h (.refl _) (Ram.write_base hram)
    · exact h
  · exact h

/-- One event takes the device and the specification to states that agree again. -/
theorem configured_step (h : Configured k.numVirtq base s dev) {ev : QueueEvent}
    (hs : k.dmaNext dev ev.dma = some dev') : Configured k.numVirtq base (s.step ev) dev' := by
  cases ev with
  | reg a =>
    have hreg := dmaNext_reg hs
    cases a with
    | read offset size h₁ h₂ h₃ =>
      rw [regStep_read] at hreg
      cases hreg
      simp only [QueueSpec.step, RegAccess.action, Banks.step_idle]
      exact h
    | write reg v =>
      by_cases hen : reg = .queueEnable
      · subst hen
        exact configured_enable h hreg
      · have hspec : s.step (.reg (.write reg v)) =
            { s with bank := s.bank.step (RegAccess.write reg v).action } := by
          cases reg <;> first | rfl | exact absurd rfl hen
        rw [hspec]
        exact configured_write h hen hreg
  | call q fuel req =>
    obtain ⟨hstop, rfl⟩ := dmaNext_inv hs
    exact configured_call h hstop
  | arm q =>
    obtain ⟨-, rfl⟩ := dmaNext_inv hs
    exact configured_arm h q
  | memory m =>
    cases hs
    exact ⟨h.shows.low rfl rfl rfl rfl fun _ _ => rfl, h.ramBase, h.queues⟩

theorem configured_run (evs : List QueueEvent) : ∀ {dev : VirtioPciDev k.Backend} {s : QueueSpec},
    Configured k.numVirtq base s dev → (evs.map QueueEvent.dma).foldlM k.dmaNext dev = some dev' →
      Configured k.numVirtq base (evs.foldl QueueSpec.step s) dev' := by
  induction evs with
  | nil =>
    intro dev s h hrun
    cases hrun
    exact h
  | cons ev evs ih =>
    intro dev s h hrun
    rw [List.map_cons, List.foldlM_cons] at hrun
    obtain ⟨dev₁, hstep, hrest⟩ := Option.bind_eq_some_iff.mp hrun
    exact ih (configured_step h hstep) hrest

theorem hdr_notifyBar (deviceId cls irqLine : Nat) :
    getLE (virtioPciHdr deviceId cls irqLine) (notifyCap + 4) 1 = 0 := by
  unfold virtioPciHdr
  rw [getLE_putLE_apart (by decide), getLE_putLE_apart (by decide), getLE_putLE_apart (by decide)]
  decide +kernel

theorem initPci_configured (host : Host k.Backend) :
    Configured k.numVirtq host.ram.base ⟨⟨0, initReg k.notifyOffs⟩, fun _ => none⟩
      (k.initPci host) := by
  have hidle : ∀ q, ((k.initPci host).vq q).enable = 0 := by
    intro q
    cases initPci_ready host q with
    | idle h0 _ _ _ => exact h0
    | live r _ hruns _ _ _ =>
      have hnil : (k.initPci host).runsOf q = [] := by cases k <;> rfl
      rw [hnil] at hruns
      cases hruns
  refine ⟨?_, by cases k <;> rfl, fun q _ => hidle q⟩
  cases k with
  | blk => exact initPci_shows host _ _ _ (by decide) (hdr_notifyBar 0x1042 0x018000 host.irqNum)
  | net =>
    refine initPci_shows host _ _ _ (by decide) ?_
    exact (getLE_putLE_apart (by decide)).trans (hdr_notifyBar 0x1041 0x020000 host.irqNum)

end VirtioKind

/-! ## Interrupts -/

section

variable {β : Type}

/-- The call, which left `complete_request` with `d₁`, invoked `notify_used`. -/
def Notified (d₁ : VqDev β) (call : Except Stop (VqDev β)) : Prop :=
  ∃ d₂, call = .ok d₂ ∧ d₂.trace = d₁.trace ++ [.notify]

/-- Write the flags of the event suppression structure at a guest address. -/
def storeEventFlags (d : VqDev β) (guest v : Nat) : Except Stop (VqDev β) := do
  let ram ← d.ram.store ((vmGuestToHost d.ram guest).plus 2) 2 v
  return { d with ram := ram }

theorem notified_iff {d d₁ : VqDev β} {cr : VqDev β → Except Stop (VqDev β)} (hen : d.vq.enable ≠ 0)
    (hcr : cr d = .ok d₁) :
    Notified d₁ (virtqHandleAvail cr writeIrqfd d) ↔
      d₁.ram.load (d₁.vq.guestEvent.plus 2) 2 = .ok vringPackedEventFlagEnable := by
  unfold virtqHandleAvail
  rw [if_neg hen, hcr, ok_bind]
  cases d₁.ram.load (d₁.vq.guestEvent.plus 2) 2 with
  | error e =>
    constructor
    · rintro ⟨d₂, h, -⟩
      cases h
    · intro h
      cases h
  | ok flags =>
    rw [ok_bind]
    by_cases hf : flags = vringPackedEventFlagEnable
    · rw [if_pos hf, hf]
      exact ⟨fun _ => rfl, fun _ => ⟨_, rfl, rfl⟩⟩
    · rw [if_neg hf]
      constructor
      · rintro ⟨d₂, h, htrace⟩
        cases h
        exact absurd htrace (by simp)
      · intro h
        cases h
        exact absurd rfl hf

end

/-- **Interrupts follow the structure at `queue_used`.** In every state that register accesses,
handler calls and changes of guest memory lead to, a call of `virtq_handle_avail` for an enabled
queue invokes `notify_used` iff the flags of the structure at the address that `queue_used` held as
the queue was enabled are `VRING_PACKED_EVENT_FLAG_ENABLE`. These are the flags that the driver set
at the address in `queue_avail` iff the two structures agree. All event flags that the device writes
go to the structure at `queue_used`. -/
theorem interrupt_suppression (k : VirtioKind) (host : Host k.Backend) (evs : List QueueEvent)
    {dev : VirtioPciDev k.Backend} (hrun : k.queueRun host evs = some dev) {q : Nat}
    (hq : q < k.numVirtq) {regs : QReg → Nat} (hen : (k.specRun evs).enabled q = some regs) :
    (∀ fuel req d₁, (k.ops fuel req q).completeRequest (dev.vqDev q) = .ok d₁ →
      (Notified d₁ (virtqHandleAvail (k.ops fuel req q).completeRequest
        (k.ops fuel req q).notifyUsed (dev.vqDev q)) ↔
        eventFlagsAt d₁.ram (areaAddr regs .used) = .ok vringPackedEventFlagEnable) ∧
      ((Notified d₁ (virtqHandleAvail (k.ops fuel req q).completeRequest
        (k.ops fuel req q).notifyUsed (dev.vqDev q)) ↔
          eventFlagsAt d₁.ram (areaAddr regs .avail) = .ok vringPackedEventFlagEnable) ↔
        (eventFlagsAt d₁.ram (areaAddr regs .avail) = .ok vringPackedEventFlagEnable ↔
          eventFlagsAt d₁.ram (areaAddr regs .used) = .ok vringPackedEventFlagEnable))) ∧
    (∀ d : VirtioNetDev, (dev.vq q).Moved d.vq → d.ram.base = dev.ram.base →
      disableGuestEvent d = storeEventFlags d (areaAddr regs .used) vringPackedEventFlagDisable ∧
      enableGuestEvent d = storeEventFlags d (areaAddr regs .used) vringPackedEventFlagEnable) := by
  have hconf := VirtioKind.configured_run evs (VirtioKind.initPci_configured host) hrun
  have hqueue := hconf.queues q hq
  rw [show (evs.foldl QueueSpec.step _).enabled q = some regs from hen] at hqueue
  -- `guest_event` as long as the queue only moves its cursor
  have hevent : ∀ (vq : Virtq) (ram : Ram), (dev.vq q).Moved vq → ram.base = dev.ram.base →
      vq.guestEvent = vmGuestToHost ram (areaAddr regs .used) := by
    intro vq ram hm hbase
    rw [hm.guestEvent, hqueue.2]
    exact (vmGuestToHost_congr (hbase.trans hconf.ramBase) _).symm
  refine ⟨?_, ?_⟩
  · intro fuel req d₁ hcr
    have hiff : Notified d₁ (virtqHandleAvail (k.ops fuel req q).completeRequest
        (k.ops fuel req q).notifyUsed (dev.vqDev q)) ↔
        eventFlagsAt d₁.ram (areaAddr regs .used) = .ok vringPackedEventFlagEnable := by
      rw [k.notifyUsed_eq, notified_iff hqueue.1 hcr,
        hevent d₁.vq d₁.ram (VirtioKind.completeRequest_moved hcr)
        (VirtioKind.completeRequest_base hcr)]
      rfl
    refine ⟨hiff, ?_⟩
    rw [hiff]
    exact ⟨fun h => h.symm, fun h => h.symm⟩
  · intro d hm hbase
    unfold disableGuestEvent enableGuestEvent storeEventFlags
    rw [hevent d.vq d.ram hm hbase]
    exact ⟨rfl, rfl⟩

/-! A driver that asked for no interrupts: the ring of queue 1 is at 0x1000, its structure at 0x2000
and the device's at 0x3000. -/

def quietMem : Store :=
  putLE (putDesc (fun _ => 0) 0x1000 ⟨0x4000, 12, 0, 2 ^ vringPackedDescFAvail⟩) 0x2002 2
    vringPackedEventFlagDisable

def quietDriver : List QueueEvent :=
  [.reg (.write .queueSelect 1), .reg (.write (.queueAddr .desc) 0x1000),
    .reg (.write (.queueAddr .avail) 0x2000), .reg (.write (.queueAddr .used) 0x3000),
    .reg (.write .queueEnable 1), .memory quietMem]

theorem quiet_driver_interrupted :
    ∃ dev regs d₁ d₂, VirtioKind.net.queueRun netHost quietDriver = some dev ∧
      (VirtioKind.net.specRun quietDriver).enabled 1 = some regs ∧ areaAddr regs .avail = 0x2000 ∧
      virtioNetCompleteRequestTx (dev.vqDev 1) = .ok d₁ ∧
      virtqHandleAvail virtioNetCompleteRequestTx writeIrqfd (dev.vqDev 1) = .ok d₂ ∧
      eventFlagsAt d₁.ram 0x2000 = .ok vringPackedEventFlagDisable ∧
        d₂.trace = d₁.trace ++ [.notify] :=
  ⟨_, _, _, _, rfl, rfl, rfl, rfl, rfl, by decide +kernel, by decide +kernel⟩

theorem interrupt_suppression_quiet :
    ∃ dev regs d₁, VirtioKind.net.queueRun netHost quietDriver = some dev ∧
      (VirtioKind.net.specRun quietDriver).enabled 1 = some regs ∧
      virtioNetCompleteRequestTx (dev.vqDev 1) = .ok d₁ ∧
        eventFlagsAt d₁.ram (areaAddr regs .used) = .ok 0 ∧
      Notified d₁ (virtqHandleAvail virtioNetCompleteRequestTx writeIrqfd (dev.vqDev 1)) := by
  obtain ⟨dev, hrun⟩ := Option.isSome_iff_exists.mp
    (show (VirtioKind.net.queueRun netHost quietDriver).isSome = true from rfl)
  obtain ⟨regs, hregs⟩ := Option.isSome_iff_exists.mp
    (show ((VirtioKind.net.specRun quietDriver).enabled 1).isSome = true from rfl)
  obtain ⟨hcall, -⟩ :=
    interrupt_suppression .net netHost quietDriver hrun (q := 1) (by decide) hregs
  cases hrun
  cases hregs
  exact ⟨_, _, _, rfl, rfl, rfl,
    by decide +kernel, (hcall 0 (fun _ => 0) _ rfl).1.mpr (by decide +kernel)⟩

end KvmHost
