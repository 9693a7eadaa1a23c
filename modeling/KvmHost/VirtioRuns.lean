import KvmHost.Lib.Turns
import KvmHost.VirtioPci

/-!
# KvmHost.VirtioRuns

A virtio device over time: guest accesses to its BAR 0, its queue threads, and the guest rewriting
its memory and the PCI header.

The results about runs all rest on what one event can do, which is said here once. `Fixed` is what
no event changes beyond the copy an access begins with, `VqStep` is what can happen to the queues:
nothing, an `enable_vq` body, bytes written into a `virtq_info`, or a handler that moves a cursor.
-/

namespace KvmHost

open ByteStore Turns

inductive Event where
  /-- `fuel` and `req` are for the handler, if the access notifies a queue -/
  | access (a : Access) (fuel : Nat) (req : Store)
  /-- the thread of queue `q` calls `virtq_handle_avail` -/
  | handle (q fuel : Nat) (req : Store)
  | getAvail (q : Nat)
  | memory (m : Store)
  | header (h : Store)

section

variable {β : Type}

/-- The state after the copy into the registers that a write begins with. -/
def Access.copied (a : Access) (dev : VirtioPciDev β) : VirtioPciDev β :=
  if a.isWrite ∧ a.offset < devCfgOffset then dev.setConfig (patch dev.config a.offset a.data)
    else dev

section Copied

variable (a : Access) (dev : VirtioPciDev β)

@[simp] theorem copied_vq : (a.copied dev).vq = dev.vq := by unfold Access.copied; split <;> rfl
@[simp] theorem copied_enables : (a.copied dev).enables = dev.enables := by
  unfold Access.copied; split <;> rfl
@[simp] theorem copied_numVq : (a.copied dev).numVq = dev.numVq := by
  unfold Access.copied; split <;> rfl
@[simp] theorem copied_ram : (a.copied dev).ram = dev.ram := by unfold Access.copied; split <;> rfl
@[simp] theorem copied_hdr : (a.copied dev).hdr = dev.hdr := by unfold Access.copied; split <;> rfl
@[simp] theorem copied_devCfg : (a.copied dev).devCfg = dev.devCfg := by
  unfold Access.copied; split <;> rfl
@[simp] theorem copied_devCfgAddr : (a.copied dev).devCfgAddr = dev.devCfgAddr := by
  unfold Access.copied; split <;> rfl
@[simp] theorem copied_devCfgSize : (a.copied dev).devCfgSize = dev.devCfgSize := by
  unfold Access.copied; split <;> rfl
@[simp] theorem copied_self : (a.copied dev).self = dev.self := by
  unfold Access.copied; split <;> rfl
@[simp] theorem copied_vqDevPtr (q : Nat) : (a.copied dev).vqDevPtr q = dev.vqDevPtr q := by
  unfold VirtioPciDev.vqDevPtr; rw [copied_vq]

end Copied

def Event.copied : Event → VirtioPciDev β → VirtioPciDev β
  | .access a _ _, dev => a.copied dev
  | _, dev => dev

/-- The offsets at which the `default` case finds a queue register. -/
def QueueReg (offset : Nat) : Prop := qSize ≤ offset ∧ offset ≤ qUsedhi ∧ offset ≠ qEnable

instance (offset : Nat) : Decidable (QueueReg offset) := inferInstanceAs (Decidable (_ ∧ _))

/-- A write that stays in the data of the device: the queues it is about exist, and it ends within
the `virtq_info` or, through a `dev_cfg` that is intact, within the device configuration it starts
in. -/
structure Access.Lands (a : Access) (dev : VirtioPciDev β) : Prop where
  select : a.offset = qSelect → (a.copied dev).queueSelect < (a.copied dev).numQueues →
    (a.copied dev).queueSelect < dev.numVq
  queueReg : QueueReg a.offset → (a.copied dev).queueSelect < (a.copied dev).numQueues →
    (a.copied dev).queueSelect < dev.numVq ∧ a.offset - qSize + a.size ≤ virtqInfoSize
  enable : a.offset = qEnable → (a.copied dev).queueSelect < dev.numVq
  notify : a.offset = notifyData → (a.copied dev).vqn < dev.numVq
  devCfg : devCfgOffset ≤ a.offset → dev.devCfgPtr = dev.devCfgAddr ∧
    a.offset - devCfgOffset + a.size ≤ dev.devCfgSize

instance (a : Access) (dev : VirtioPciDev β) : Decidable (a.Lands dev) :=
  decidable_of_iff
    ((a.offset = qSelect → (a.copied dev).queueSelect < (a.copied dev).numQueues →
        (a.copied dev).queueSelect < dev.numVq) ∧
      (QueueReg a.offset → (a.copied dev).queueSelect < (a.copied dev).numQueues →
        (a.copied dev).queueSelect < dev.numVq ∧ a.offset - qSize + a.size ≤ virtqInfoSize) ∧
      (a.offset = qEnable → (a.copied dev).queueSelect < dev.numVq) ∧
      (a.offset = notifyData → (a.copied dev).vqn < dev.numVq) ∧
      (devCfgOffset ≤ a.offset → dev.devCfgPtr = dev.devCfgAddr ∧
        a.offset - devCfgOffset + a.size ≤ dev.devCfgSize))
    ⟨fun ⟨hs, hq, he, hn, hd⟩ => ⟨hs, hq, he, hn, hd⟩, fun h => ⟨h.1, h.2, h.3, h.4, h.5⟩⟩

end

namespace VirtioKind

variable (k : VirtioKind)

def step (dev : VirtioPciDev k.Backend) : Event → Outcome k.Backend
  | .access a fuel req => virtioPciSpaceIo (k.ops fuel req) dev a
  -- only the queues of the device have a thread
  | .handle q fuel req => if q < dev.numVq then handleAvail (k.ops fuel req) dev q else .done dev
  | .getAvail q =>
    if q < dev.numVq then
      match (dev.vqDev q).getAvail with
      | .ok (_, d) => .done (dev.putVqDev q d)
      | .error e => .failed (.handler e) dev
    else .done dev
  | .memory m => .done { dev with ram := { dev.ram with bytes := m } }
  | .header h => .done { dev with hdr := h }

/-- The state after the event, if it does not stop. A run ends at an event that does: at accesses
past guest memory, past `dev->vq` or the device configuration and through pointers that the guest
has overwritten. The program comes back from most of these; what is said of runs is said up to
there. -/
def next (dev : VirtioPciDev k.Backend) (ev : Event) : Option (VirtioPciDev k.Backend) :=
  match (k.step dev ev).stop with
  | none => some (k.step dev ev).dev
  | some _ => none

/-- The turns of a device from its creation on. -/
def run (host : Host k.Backend) (evs : List Event) : List (VirtioPciDev k.Backend × Event) :=
  turns k.next (k.initPci host) evs

variable {k}

theorem next_eq {dev dev' : VirtioPciDev k.Backend} {ev : Event} (h : k.next dev ev = some dev') :
    (k.step dev ev).dev = dev' := by
  unfold next at h
  split at h
  · cases h; rfl
  · cases h

end VirtioKind

/-! ## What an event leaves alone -/

section

variable {β : Type}

/-- `dev'` has the host data of `dev`, and its registers outside `device_feature`, the registers of
the selected queue and the ISR. -/
structure Fixed (dev dev' : VirtioPciDev β) : Prop where
  hdr : dev'.hdr = dev.hdr
  numVq : dev'.numVq = dev.numVq
  devCfg : dev'.devCfg = dev.devCfg
  devCfgAddr : dev'.devCfgAddr = dev.devCfgAddr
  self : dev'.self = dev.self
  config : ∀ p, (8 ≤ p ∧ p < qSize) ∨ notifyData ≤ p → dev'.config p = dev.config p

theorem Fixed.refl (dev : VirtioPciDev β) : Fixed dev dev :=
  ⟨rfl, rfl, rfl, rfl, rfl, fun _ _ => rfl⟩

theorem Fixed.setConfig (dev : VirtioPciDev β) {a : Nat} {bs : List UInt8}
    (h : (a + bs.length ≤ 8) ∨ (qSize ≤ a ∧ a + bs.length ≤ notifyData)) :
    Fixed dev (dev.setConfig (patch dev.config a bs)) where
  hdr := rfl
  numVq := rfl
  devCfg := rfl
  devCfgAddr := rfl
  self := rfl
  config := fun p hp => patch_out (by unfold qSize notifyData at *; simp only [Span.Has]; omega)

theorem Fixed.putVqDev (dev : VirtioPciDev β) (q : Nat) (d : VqDev β) :
    Fixed dev (dev.putVqDev q d) where
  hdr := rfl
  numVq := rfl
  devCfg := rfl
  devCfgAddr := rfl
  self := rfl
  config := fun p hp =>
    putLE_out (by unfold qSize notifyData at hp; unfold isrCap; simp only [Span.Has]; omega)

theorem Fixed.numQueues {dev dev' : VirtioPciDev β} (h : Fixed dev dev') :
    dev'.numQueues = dev.numQueues :=
  getLE_congr fun i hi => h.config _ (.inl ⟨by omega, by unfold qSize; omega⟩)

/-- The call reached for an element past the end of `dev->vq`. -/
def Outcome.PastEnd (o : Outcome β) : Prop := ∃ i, o.stop = some (.noQueue i)

@[simp] theorem pastEnd_done (dev : VirtioPciDev β) : ¬ (Outcome.done dev).PastEnd :=
  fun ⟨i, h⟩ => by cases h

@[simp] theorem pastEnd_failed (e : PciStop) (dev : VirtioPciDev β) :
    (Outcome.failed e dev).PastEnd ↔ ∃ i, e = .noQueue i := by
  simp [Outcome.PastEnd, Outcome.failed]

@[simp] theorem pastEnd_after (cs : List Copy) (o : Outcome β) :
    (o.after cs).PastEnd ↔ o.PastEnd := Iff.rfl

/-! ## What an event does to the queues -/

/-- The queue as the body of `enable_vq` leaves it. -/
def VirtioPciDev.mapped (dev : VirtioPciDev β) (q : Nat) : Virtq :=
  { dev.vq q with
    info := putLE (dev.vq q).info 4 2 1
    descRing := vmGuestToHost dev.ram (dev.vq q).descAddr
    deviceEvent := vmGuestToHost dev.ram (dev.vq q).deviceAddr
    guestEvent := vmGuestToHost dev.ram (dev.vq q).driverAddr }

/-- The device after the body of `enable_vq` ran for queue `q`. -/
def VirtioPciDev.enabled (dev : VirtioPciDev β) (q addr len : Nat) : VirtioPciDev β :=
  { dev.setVq q (dev.mapped q) with
    enables := dev.enables ++ [⟨q, addr, len, dev.ram, (dev.mapped q).info⟩] }

/-- The queue after `data` was written at `offset` of the window. -/
def VirtioPciDev.written (dev : VirtioPciDev β) (q offset : Nat) (data : List UInt8) : Virtq :=
  { dev.vq q with info := patch (dev.vq q).info (offset - qSize) data }

inductive VqStep (dev : VirtioPciDev β) : Event → VirtioPciDev β → Prop where
  | same {ev : Event} {dev' : VirtioPciDev β} :
      dev'.vq = dev.vq → dev'.enables = dev.enables → VqStep dev ev dev'
  | enable {a : Access} {fuel : Nat} {req : Store} {dev' : VirtioPciDev β} {q : Nat}
      (addr len : Nat) :
      a.isWrite → a.offset = qEnable → (a.copied dev).queueEnable ≠ 0 →
      q = (a.copied dev).queueSelect → q < dev.numVq → (dev.vq q).enable = 0 →
      dev'.vq = (dev.enabled q addr len).vq → dev'.enables = (dev.enabled q addr len).enables →
      VqStep dev (.access a fuel req) dev'
  | write {a : Access} {fuel : Nat} {req : Store} {dev' : VirtioPciDev β} {q : Nat} :
      a.isWrite → QueueReg a.offset → q = (a.copied dev).queueSelect →
      q < (a.copied dev).numQueues → q < dev.numVq →
      dev'.vq = Function.update dev.vq q (dev.written q a.offset a.data) →
      dev'.enables = dev.enables → VqStep dev (.access a fuel req) dev'
  | move {ev : Event} {dev' : VirtioPciDev β} {q : Nat} {vq : Virtq} :
      q < dev.numVq → (dev.vq q).Moved vq → dev'.vq = Function.update dev.vq q vq →
      dev'.enables = dev.enables → VqStep dev ev dev'

theorem enableVq_again {dev : VirtioPciDev β} (len : VirtioPciDev β → Nat) {q : Nat}
    (hen : (dev.vq q).enable ≠ 0) :
    enableVq len dev q = .ok dev := by
  unfold enableVq
  rw [if_pos hen]

theorem enableVq_dangling {dev : VirtioPciDev β} (len : VirtioPciDev β → Nat) {q : Nat}
    (hidle : (dev.vq q).enable = 0) (hdead : dev.vqDevPtr q ≠ dev.self) :
    enableVq len dev q = .error .dangling := by
  unfold enableVq
  rw [if_neg fun h => h hidle, if_pos hdead]

/-- The body of `enable_vq` runs for a queue that is not enabled. -/
theorem enableVq_runs {dev : VirtioPciDev β} (len : VirtioPciDev β → Nat) {q : Nat}
    (hidle : (dev.vq q).enable = 0) (hlive : dev.vqDevPtr q = dev.self) :
    enableVq len dev q =
      (virtioPciGetNotifyAddr dev (dev.mapped q) >>= fun addr =>
        .ok (dev.enabled q addr (len dev))) := by
  unfold enableVq
  rw [if_neg fun h => h hidle, if_neg fun h => h hlive]
  rfl

/-- `enable_vq` does nothing, runs its body, or stops at a pointer. -/
theorem enableVq_cases (len : VirtioPciDev β → Nat) (dev : VirtioPciDev β) (q : Nat) :
    enableVq len dev q = .ok dev ∨
    (∃ e, enableVq len dev q = .error e ∧ ∀ i, e ≠ .noQueue i) ∨
    ∃ addr, (dev.vq q).enable = 0 ∧ enableVq len dev q = .ok (dev.enabled q addr (len dev)) := by
  by_cases hidle : (dev.vq q).enable = 0
  · by_cases hlive : dev.vqDevPtr q = dev.self
    · rw [enableVq_runs len hidle hlive]
      unfold virtioPciGetNotifyAddr
      dsimp only
      split
      · exact .inr (.inr ⟨_, hidle, rfl⟩)
      · exact .inr (.inl ⟨_, rfl, fun i hi => by cases hi⟩)
    · exact .inr (.inl ⟨_, enableVq_dangling len hidle hlive, fun i hi => by cases hi⟩)
  · exact .inl (enableVq_again len hidle)

end

namespace VirtioKind

variable {k : VirtioKind} {dev dev' : VirtioPciDev k.Backend} {fuel : Nat} {req : Store}

/-- The length that `enable_vq` registers. -/
def notifyLen : VirtioKind → Store → Nat
  | blk, hdr => getLE hdr (notifyCap + 12) 4
  | net, _ => notifyOffset

theorem enableVq_notifyLen (k : VirtioKind) (fuel : Nat) (req : Store) (q : Nat) :
    (k.ops fuel req q).enableVq = enableVq fun dev => k.notifyLen dev.hdr := by
  cases k with
  | blk => rfl
  | net =>
    simp only [ops, virtioNetOps]
    split
    · rfl
    · rfl

theorem enableVq_eq (k : VirtioKind) (fuel : Nat) (req : Store) (q : Nat) :
    ∃ len, (k.ops fuel req q).enableVq = enableVq len :=
  ⟨_, enableVq_notifyLen k fuel req q⟩

theorem completeRequest_moved {q : Nat} {d d' : VqDev k.Backend}
    (h : (k.ops fuel req q).completeRequest d = .ok d') : d.vq.Moved d'.vq := by
  cases k with
  | blk => exact virtioBlkCompleteRequest_moved h
  | net =>
    simp only [ops, virtioNetOps] at h
    split at h
    · exact virtioNetCompleteRequestRx_moved h
    · exact virtioNetCompleteRequestTx_moved h

theorem notifyUsed_eq (k : VirtioKind) (fuel : Nat) (req : Store) (q : Nat) :
    (k.ops fuel req q).notifyUsed = writeIrqfd := by
  cases k with
  | blk => rfl
  | net =>
    simp only [ops, virtioNetOps]
    split
    · rfl
    · rfl

theorem notifyUsed_vq {q : Nat} {d d' : VqDev k.Backend}
    (h : (k.ops fuel req q).notifyUsed d = .ok d') : d'.vq = d.vq := by
  rw [notifyUsed_eq] at h
  cases h
  rfl

theorem virtqHandleAvail_moved {q : Nat} {d d' : VqDev k.Backend}
    (h : virtqHandleAvail (k.ops fuel req q).completeRequest (k.ops fuel req q).notifyUsed d =
      .ok d') :
    d.vq.Moved d'.vq := by
  unfold virtqHandleAvail at h
  split at h
  · cases h; exact .refl _
  · obtain ⟨d₁, hcr, h⟩ := bind_eq_ok.mp h
    obtain ⟨flags, -, h⟩ := bind_eq_ok.mp h
    split at h
    · rw [notifyUsed_vq h]; exact completeRequest_moved hcr
    · cases h; exact completeRequest_moved hcr

variable (fuel req) in
/-- A handler runs and moves the cursor of its queue, or the device is as before. -/
theorem handleAvail_cases (dev : VirtioPciDev k.Backend) (q : Nat) :
    ((handleAvail (k.ops fuel req) dev q).dev = dev ∧
      ((handleAvail (k.ops fuel req) dev q).PastEnd ↔ dev.numVq ≤ q)) ∨
    ∃ d, q < dev.numVq ∧ (dev.vq q).Moved d.vq ∧
      handleAvail (k.ops fuel req) dev q = .done (dev.putVqDev q d) := by
  unfold handleAvail
  by_cases hq : q < dev.numVq
  · have hle : ¬ dev.numVq ≤ q := Nat.not_le_of_lt hq
    rw [if_pos hq]
    split
    · exact .inl ⟨rfl, by simp [hle]⟩
    · split
      · rename_i d hd
        exact .inr ⟨d, hq, virtqHandleAvail_moved hd, rfl⟩
      · exact .inl ⟨rfl, by simp [hle]⟩
  · rw [if_neg hq]
    exact .inl ⟨rfl, by simp [Nat.le_of_not_lt hq]⟩

end VirtioKind

section

variable {β : Type} {ops : Nat → VirtqOps β} {dev : VirtioPciDev β} {offset : Nat}
  {data : List UInt8}

theorem writeRegister_other
    (h : offset ≠ 0 ∧ offset ≠ 8 ∧ offset ≠ 20 ∧ offset ≠ qSelect ∧ offset ≠ qEnable) :
    writeRegister ops dev offset data = writeOther ops dev offset data := by
  unfold writeRegister
  split
  · exact absurd rfl h.1
  · exact absurd rfl h.2.1
  · exact absurd rfl h.2.2.1
  · exact absurd rfl h.2.2.2.1
  · exact absurd rfl h.2.2.2.2
  · rfl

/-- The registers with a case of their own, the queue registers, the notify register, and the
others. -/
theorem offset_cases (offset : Nat) :
    (offset = 0 ∨ offset = 8 ∨ offset = 20) ∨ offset = qSelect ∨ offset = qEnable ∨
    (offset ≠ 0 ∧ offset ≠ 8 ∧ offset ≠ 20 ∧ offset ≠ qSelect ∧ offset ≠ qEnable) ∧
      (QueueReg offset ∨ offset = notifyData ∨
        ¬ (qSize ≤ offset ∧ offset ≤ qUsedhi) ∧ offset ≠ notifyData) := by
  unfold QueueReg qSelect qEnable qSize qUsedhi notifyData
  omega

theorem writeOther_queueReg (h : QueueReg offset) :
    writeOther ops dev offset data =
      if dev.queueSelect < dev.numQueues then
        .after [⟨.info dev.queueSelect, offset - qSize, data.length⟩] <|
          if dev.queueSelect < dev.numVq then
            .done (dev.setVq dev.queueSelect (dev.written dev.queueSelect offset data))
          else .failed (.noQueue dev.queueSelect) dev
      else .done dev := by
  unfold writeOther
  rw [if_pos ⟨h.1, h.2.1⟩]
  rfl

theorem writeOther_notify : writeOther ops dev notifyData data = handleAvail ops dev dev.vqn := by
  unfold writeOther
  rw [if_neg (by decide), if_pos rfl]

theorem writeOther_plain (h : ¬ (qSize ≤ offset ∧ offset ≤ qUsedhi) ∧ offset ≠ notifyData) :
    writeOther ops dev offset data = .done dev := by
  unfold writeOther
  rw [if_neg h.1, if_neg h.2]

variable (ops dev data) in
/-- The three registers whose case changes nothing but a feature register. -/
theorem writeRegister_plain (h : offset = 0 ∨ offset = 8 ∨ offset = 20) :
    ∃ dev', writeRegister ops dev offset data = .done dev' ∧ Fixed dev dev' ∧ dev'.vq = dev.vq ∧
      dev'.enables = dev.enables := by
  rcases h with rfl | rfl | rfl
  · exact ⟨_, rfl, .setConfig dev (.inl (by simp)), rfl, rfl⟩
  · refine ⟨_, rfl, ?_, ?_, ?_⟩
    · unfold virtioPciWriteGuestFeature
      split <;> exact ⟨rfl, rfl, rfl, rfl, rfl, fun _ _ => rfl⟩
    · unfold virtioPciWriteGuestFeature
      split <;> rfl
    · unfold virtioPciWriteGuestFeature
      split <;> rfl
  · have hst : virtioPciWriteStatus dev = dev := by
      unfold virtioPciWriteStatus virtioPciReset
      split <;> rfl
    exact ⟨dev, congrArg Outcome.done hst, .refl dev, rfl, rfl⟩

theorem virtioPciSelectVirtq_dev (dev : VirtioPciDev β) :
    ∃ bs, bs.length ≤ virtqInfoSize ∧
      ((virtioPciSelectVirtq dev).dev = dev ∨
        (virtioPciSelectVirtq dev).dev = dev.setConfig (patch dev.config qSize bs)) := by
  unfold virtioPciSelectVirtq
  dsimp only
  split
  · split
    · exact ⟨_, Nat.le_of_eq (slice_length _ _ _), .inr rfl⟩
    · exact ⟨[], by decide, .inl rfl⟩
  · exact ⟨toLE 2 0, by decide, .inr rfl⟩

end

namespace VirtioKind

variable {k : VirtioKind} {dev : VirtioPciDev k.Backend} {fuel : Nat} {req : Store}

variable (fuel req) in
theorem virtioPciEnableVirtq_cases (dev : VirtioPciDev k.Backend) :
    ((virtioPciEnableVirtq (k.ops fuel req) dev).dev = dev ∧
      ((virtioPciEnableVirtq (k.ops fuel req) dev).PastEnd ↔ dev.numVq ≤ dev.queueSelect)) ∨
    ∃ addr len, dev.queueSelect < dev.numVq ∧ (dev.vq dev.queueSelect).enable = 0 ∧
      virtioPciEnableVirtq (k.ops fuel req) dev = .done (dev.enabled dev.queueSelect addr len) := by
  obtain ⟨len, hlen⟩ := enableVq_eq k fuel req dev.queueSelect
  unfold virtioPciEnableVirtq
  dsimp only
  by_cases hq : dev.queueSelect < dev.numVq
  · have hle : ¬ dev.numVq ≤ dev.queueSelect := Nat.not_le_of_lt hq
    rw [if_pos hq, hlen]
    rcases enableVq_cases len dev dev.queueSelect with h | ⟨e, h, he⟩ | ⟨addr, hen, h⟩
    · rw [h]
      exact .inl ⟨rfl, by simp [Outcome.of, hle]⟩
    · rw [h]
      exact .inl ⟨rfl, by simp [Outcome.of, hle, he]⟩
    · rw [h]
      exact .inr ⟨addr, len dev, hq, hen, rfl⟩
  · rw [if_neg hq]
    exact .inl ⟨rfl, by simp [Nat.le_of_not_lt hq]⟩

/-- Beyond its copy, a register write leaves alone what `Fixed` says. -/
theorem writeRegister_fixed (dev : VirtioPciDev k.Backend) (offset : Nat) (data : List UInt8) :
    Fixed dev (writeRegister (k.ops fuel req) dev offset data).dev := by
  rcases offset_cases offset with hp | rfl | rfl | ⟨hoth, hreg | rfl | hplain⟩
  · obtain ⟨dev', h, hfix, -⟩ := writeRegister_plain (k.ops fuel req) dev data hp
    rw [h]
    exact hfix
  · obtain ⟨bs, hbs, h | h⟩ := virtioPciSelectVirtq_dev dev
    · rw [show (writeRegister (k.ops fuel req) dev qSelect data).dev = dev from h]
      exact .refl dev
    · rw [show (writeRegister (k.ops fuel req) dev qSelect data).dev = _ from h]
      refine .setConfig dev (.inr ⟨Nat.le_refl _, ?_⟩)
      unfold virtqInfoSize at hbs
      unfold qSize notifyData
      omega
  · simp only [writeRegister, qEnable]
    split
    · rcases virtioPciEnableVirtq_cases fuel req dev with ⟨h, -⟩ | ⟨addr, len, -, -, h⟩
      · rw [h]; exact .refl dev
      · rw [h]; exact ⟨rfl, rfl, rfl, rfl, rfl, fun _ _ => rfl⟩
    · unfold virtioPciDisableVirtq
      dsimp only
      split <;> exact .refl dev
  · rw [writeRegister_other hoth, writeOther_queueReg hreg]
    split
    · split
      · exact ⟨rfl, rfl, rfl, rfl, rfl, fun _ _ => rfl⟩
      · exact .refl dev
    · exact .refl dev
  · rw [writeRegister_other hoth, writeOther_notify]
    rcases handleAvail_cases fuel req dev dev.vqn with ⟨h, -⟩ | ⟨d, -, -, h⟩
    · rw [h]; exact .refl dev
    · rw [h]; exact .putVqDev dev dev.vqn d
  · rw [writeRegister_other hoth, writeOther_plain hplain]
    exact .refl dev

/-- `dev'` has the memory, the ring events and the interrupt status of `dev`. -/
structure Quiet (dev dev' : VirtioPciDev k.Backend) : Prop where
  ram : dev'.ram = dev.ram
  trace : dev'.trace = dev.trace
  isr : dev'.isrStatus = dev.isrStatus

theorem Quiet.refl (dev : VirtioPciDev k.Backend) : Quiet dev dev := ⟨rfl, rfl, rfl⟩

/-- Stores outside the interrupt status. -/
theorem Quiet.setConfig (dev : VirtioPciDev k.Backend) {a : Nat} {bs : List UInt8}
    (h : a + bs.length ≤ isrCap ∨ notifyData ≤ a) :
    Quiet dev (dev.setConfig (patch dev.config a bs)) where
  ram := rfl
  trace := rfl
  isr := getLE_patch_apart (by unfold isrCap notifyData at *; simp only [Span.Apart]; omega)

/-- Beyond its copy, a register write that notifies no queue does nothing to memory or to the
interrupt status. -/
theorem writeRegister_quiet (dev : VirtioPciDev k.Backend) {offset : Nat} (data : List UInt8)
    (hne : offset ≠ notifyData) :
    Quiet dev (writeRegister (k.ops fuel req) dev offset data).dev := by
  rcases offset_cases offset with (rfl | rfl | rfl) | rfl | rfl | ⟨hoth, hreg | hnot | hplain⟩
  · exact .setConfig dev (.inl (by rw [toLE_length]; decide))
  · simp only [writeRegister, virtioPciWriteGuestFeature]
    split <;> exact ⟨rfl, rfl, rfl⟩
  · simp only [writeRegister, virtioPciWriteStatus]
    split <;> exact .refl dev
  · obtain ⟨bs, hbs, h | h⟩ := virtioPciSelectVirtq_dev dev
    · rw [show (writeRegister (k.ops fuel req) dev qSelect data).dev = dev from h]
      exact .refl dev
    · rw [show (writeRegister (k.ops fuel req) dev qSelect data).dev = _ from h]
      exact .setConfig dev (.inl (by unfold qSize isrCap virtqInfoSize at *; omega))
  · simp only [writeRegister, qEnable]
    split
    · rcases virtioPciEnableVirtq_cases fuel req dev with ⟨h, -⟩ | ⟨addr, len, -, -, h⟩
      · rw [h]; exact .refl dev
      · rw [h]; exact ⟨rfl, rfl, rfl⟩
    · unfold virtioPciDisableVirtq
      dsimp only
      split <;> exact .refl dev
  · rw [writeRegister_other hoth, writeOther_queueReg hreg]
    split
    · split
      · exact ⟨rfl, rfl, rfl⟩
      · exact .refl dev
    · exact .refl dev
  · exact absurd hnot hne
  · rw [writeRegister_other hoth, writeOther_plain hplain]
    exact .refl dev

theorem writeRegister_notify (dev : VirtioPciDev k.Backend) (data : List UInt8) :
    writeRegister (k.ops fuel req) dev notifyData data =
      handleAvail (k.ops fuel req) dev dev.vqn := by
  rw [writeRegister_other (by decide), writeOther_notify]

/-- What a register write does to the queues. -/
theorem writeRegister_vq {a : Access} (hw : a.isWrite = true) :
    VqStep dev (.access a fuel req)
      (writeRegister (k.ops fuel req) (a.copied dev) a.offset a.data).dev := by
  have hsame : VqStep dev (.access a fuel req) (a.copied dev) :=
    .same (copied_vq a dev) (copied_enables a dev)
  rcases offset_cases a.offset with hp | hsel | hqe | ⟨hoth, hreg | hnot | hplain⟩
  · obtain ⟨dev', h, -, hv, he⟩ := writeRegister_plain (k.ops fuel req) (a.copied dev) a.data hp
    rw [h]
    exact .same (hv.trans (copied_vq a dev)) (he.trans (copied_enables a dev))
  · obtain ⟨bs, -, h⟩ := virtioPciSelectVirtq_dev (a.copied dev)
    have hcase : writeRegister (k.ops fuel req) (a.copied dev) a.offset a.data =
        virtioPciSelectVirtq (a.copied dev) := by rw [hsel]; rfl
    rw [hcase]
    rcases h with h | h
    · rw [h]; exact hsame
    · rw [h]; exact .same (copied_vq a dev) (copied_enables a dev)
  · have hcase : writeRegister (k.ops fuel req) (a.copied dev) a.offset a.data =
        if (a.copied dev).queueEnable ≠ 0 then virtioPciEnableVirtq (k.ops fuel req) (a.copied dev)
        else virtioPciDisableVirtq (a.copied dev) := by rw [hqe]; rfl
    rw [hcase]
    split
    · rename_i hval
      rcases virtioPciEnableVirtq_cases fuel req (a.copied dev) with ⟨h, -⟩ | ⟨addr, len, hq, h0, h⟩
      · rw [h]; exact hsame
      · rw [h]
        simp only [copied_numVq, copied_vq] at hq h0
        refine .enable addr len hw hqe hval rfl hq h0 ?_ ?_
        · simp [Outcome.done, VirtioPciDev.enabled, VirtioPciDev.setVq, VirtioPciDev.mapped]
        · simp [Outcome.done, VirtioPciDev.enabled, VirtioPciDev.mapped]
    · unfold virtioPciDisableVirtq
      dsimp only
      split <;> exact hsame
  · rw [writeRegister_other hoth, writeOther_queueReg hreg]
    split
    · rename_i hsel
      split
      · rename_i hq
        rw [copied_numVq] at hq
        refine .write hw hreg rfl hsel hq ?_ (copied_enables a dev)
        simp [Outcome.after, Outcome.done, VirtioPciDev.setVq, VirtioPciDev.written]
      · exact hsame
    · exact hsame
  · rw [hnot] at hoth ⊢
    rw [writeRegister_other hoth, writeOther_notify]
    rcases handleAvail_cases fuel req (a.copied dev) (a.copied dev).vqn with ⟨h, -⟩ | ⟨d, hq, hm, h⟩
    · rw [h]; exact hsame
    · rw [h]
      simp only [copied_numVq, copied_vq] at hq hm
      refine .move hq hm ?_ (copied_enables a dev)
      simp [Outcome.done, VirtioPciDev.putVqDev, VirtioPciDev.setVq]
  · rw [writeRegister_other hoth, writeOther_plain hplain]
    exact hsame

end VirtioKind

section

variable {β : Type} (ops : Nat → VirtqOps β) (dev : VirtioPciDev β) {a : Access}

theorem spaceIo_register (hw : a.isWrite = true) (hlt : a.offset < devCfgOffset) :
    virtioPciSpaceIo ops dev a =
      .after [⟨.config, a.offset, a.size⟩] (writeRegister ops (a.copied dev) a.offset a.data) := by
  unfold virtioPciSpaceIo virtioPciSpaceWrite
  rw [if_pos hw, if_pos hlt, Access.copied, if_pos ⟨hw, hlt⟩]
  rfl

theorem spaceIo_read (hr : a.isWrite = false) (hlt : a.offset < devCfgOffset) :
    virtioPciSpaceIo ops dev a = .after [⟨.config, a.offset, a.size⟩]
      (.done (if a.offset = isrCap then dev.setConfig (putLE dev.config isrCap 4 0) else dev)) := by
  unfold virtioPciSpaceIo virtioPciSpaceRead
  rw [if_neg (by simp [hr]), if_pos hlt]

/-- An access to the device configuration is one copy. It leaves the model where `dev_cfg` has been
overwritten, and where it writes past the end. -/
theorem spaceIo_devCfg (hge : devCfgOffset ≤ a.offset) :
    (virtioPciSpaceIo ops dev a).copies =
      [⟨if dev.devCfgPtr = dev.devCfgAddr then .devCfg else .stray, a.offset - devCfgOffset,
        a.size⟩] ∧
    (virtioPciSpaceIo ops dev a).stop =
      if dev.devCfgPtr ≠ dev.devCfgAddr then some .dangling
      else if a.isWrite = true ∧ dev.devCfgSize < a.offset - devCfgOffset + a.size then some .smash
      else none := by
  have hlt : ¬ a.offset < devCfgOffset := Nat.not_lt_of_le hge
  unfold virtioPciSpaceIo virtioPciSpaceWrite virtioPciSpaceRead devCfgCopy
  simp only [if_neg hlt]
  by_cases hptr : dev.devCfgPtr = dev.devCfgAddr
  · simp only [hptr, ne_eq, not_true_eq_false, if_false, if_true]
    cases a.isWrite with
    | false => exact ⟨rfl, rfl⟩
    | true =>
      by_cases hend : a.offset - devCfgOffset + a.data.length ≤ dev.devCfgSize
      · have hin : ¬ (true = true ∧ dev.devCfgSize < a.offset - devCfgOffset + a.size) :=
          fun h => Nat.not_lt_of_le hend h.2
        rw [if_neg hin, if_pos rfl, if_pos hend]
        exact ⟨rfl, rfl⟩
      · have hout : true = true ∧ dev.devCfgSize < a.offset - devCfgOffset + a.size :=
          ⟨rfl, Nat.lt_of_not_le hend⟩
        rw [if_pos hout, if_pos rfl, if_neg hend]
        exact ⟨rfl, rfl⟩
  · simp only [ne_eq, hptr, not_false_eq_true, if_true, if_false]
    split <;> exact ⟨rfl, rfl⟩

theorem spaceIo_devCfg_stop (hge : devCfgOffset ≤ a.offset) :
    (virtioPciSpaceIo ops dev a).stop = none ∨
      (virtioPciSpaceIo ops dev a).stop = some .dangling ∨
      (virtioPciSpaceIo ops dev a).stop = some .smash := by
  rw [(spaceIo_devCfg ops dev hge).2]
  split
  · exact .inr (.inl rfl)
  · split
    · exact .inr (.inr rfl)
    · exact .inl rfl

/-- What an access to the device configuration can change. -/
theorem spaceIo_devCfg_dev (hge : devCfgOffset ≤ a.offset) :
    ∃ devCfg peeks,
      (virtioPciSpaceIo ops dev a).dev = { dev with devCfg := devCfg, peeks := peeks } ∧
        ∀ p, ¬ (Span.Has ⟨a.offset - devCfgOffset, a.size⟩ p ∧ p < dev.devCfgSize) →
          devCfg p = dev.devCfg p := by
  have hlt : ¬ a.offset < devCfgOffset := Nat.not_lt_of_le hge
  have hsame : ∃ devCfg peeks, dev = { dev with devCfg := devCfg, peeks := peeks } ∧
      ∀ p, ¬ (Span.Has ⟨a.offset - devCfgOffset, a.size⟩ p ∧ p < dev.devCfgSize) →
        devCfg p = dev.devCfg p := ⟨dev.devCfg, dev.peeks, rfl, fun _ _ => rfl⟩
  unfold virtioPciSpaceIo virtioPciSpaceWrite virtioPciSpaceRead devCfgCopy
  simp only [if_neg hlt]
  by_cases hptr : dev.devCfgPtr = dev.devCfgAddr
  · simp only [ne_eq, hptr, not_true_eq_false, if_false]
    cases a.isWrite with
    | false =>
      rw [if_neg Bool.false_ne_true]
      by_cases hend : a.offset - devCfgOffset + a.size ≤ dev.devCfgSize
      · rw [if_pos hend]
        exact hsame
      · rw [if_neg hend]
        exact ⟨dev.devCfg, dev.peeks + 1, rfl, fun _ _ => rfl⟩
    | true =>
      rw [if_pos rfl]
      by_cases hend : a.offset - devCfgOffset + a.data.length ≤ dev.devCfgSize
      · rw [if_pos hend]
        refine ⟨_, dev.peeks, rfl, fun p hp => patch_out fun hin => hp ⟨hin, ?_⟩⟩
        simp only [Span.Has] at hin
        omega
      · rw [if_neg hend]
        exact hsame
  · simp only [ne_eq, hptr, not_false_eq_true, if_true]
    split <;> exact hsame

/-- The three kinds of access. -/
theorem access_cases (a : Access) :
    (a.isWrite = true ∧ a.offset < devCfgOffset) ∨ (a.isWrite = false ∧ a.offset < devCfgOffset) ∨
      devCfgOffset ≤ a.offset := by
  by_cases hlt : a.offset < devCfgOffset
  · cases hw : a.isWrite with
    | true => exact .inl ⟨rfl, hlt⟩
    | false => exact .inr (.inl ⟨rfl, hlt⟩)
  · exact .inr (.inr (Nat.le_of_not_lt hlt))

end

namespace VirtioKind

variable (k : VirtioKind)

/-- **What an event does to the queues.** -/
theorem step_vq (dev : VirtioPciDev k.Backend) (ev : Event) :
    VqStep dev ev (k.step dev ev).dev := by
  cases ev with
  | access a fuel req =>
    rcases access_cases a with ⟨hw, hlt⟩ | ⟨hr, hlt⟩ | hge
    · rw [step, spaceIo_register _ _ hw hlt]
      exact writeRegister_vq hw
    · rw [step, spaceIo_read _ _ hr hlt]
      simp only [Outcome.after, Outcome.done]
      split <;> exact .same rfl rfl
    · obtain ⟨devCfg, peeks, h, -⟩ := spaceIo_devCfg_dev (k.ops fuel req) dev hge
      rw [step, h]
      exact .same rfl rfl
  | handle q fuel req =>
    simp only [step]
    split
    · rcases handleAvail_cases fuel req dev q with ⟨h, -⟩ | ⟨d, hq, hm, h⟩
      · rw [h]; exact .same rfl rfl
      · rw [h]; exact .move hq hm rfl rfl
    · exact .same rfl rfl
  | getAvail q =>
    simp only [step]
    split
    · rename_i hq
      split
      · rename_i d hd
        exact .move hq (VqDev.getAvail_moved hd) rfl rfl
      · exact .same rfl rfl
    · exact .same rfl rfl
  | memory m => exact .same rfl rfl
  | header h => exact .same rfl rfl

/-- **What an event leaves alone**: beyond the copy of a register write, all that `Fixed` says,
except for the device configuration and the header where they are what is written. -/
theorem step_fixed (dev : VirtioPciDev k.Backend) (ev : Event) :
    Fixed (ev.copied dev) (k.step dev ev).dev ∨
    (∃ a fuel req devCfg peeks, ev = .access a fuel req ∧ devCfgOffset ≤ a.offset ∧
      (k.step dev ev).dev = { dev with devCfg := devCfg, peeks := peeks } ∧
      ∀ p, ¬ (Span.Has ⟨a.offset - devCfgOffset, a.size⟩ p ∧ p < dev.devCfgSize) →
        devCfg p = dev.devCfg p) ∨
    ∃ h, ev = .header h ∧ (k.step dev ev).dev = { dev with hdr := h } := by
  cases ev with
  | access a fuel req =>
    rcases access_cases a with ⟨hw, hlt⟩ | ⟨hr, hlt⟩ | hge
    · rw [step, spaceIo_register _ _ hw hlt]
      exact .inl (writeRegister_fixed (a.copied dev) a.offset a.data)
    · have hcopied : a.copied dev = dev := if_neg (by simp [hr])
      rw [step, spaceIo_read _ _ hr hlt, Event.copied, hcopied]
      refine .inl ?_
      simp only [Outcome.after, Outcome.done]
      split
      · exact .setConfig dev (.inr (by simp [qSize, isrCap, notifyData]))
      · exact .refl dev
    · obtain ⟨devCfg, peeks, h⟩ := spaceIo_devCfg_dev (k.ops fuel req) dev hge
      exact .inr (.inl ⟨a, fuel, req, devCfg, peeks, rfl, hge, h⟩)
  | handle q fuel req =>
    refine .inl ?_
    simp only [step, Event.copied]
    split
    · rcases handleAvail_cases fuel req dev q with ⟨h, -⟩ | ⟨d, -, -, h⟩
      · rw [h]; exact .refl dev
      · rw [h]; exact .putVqDev dev q d
    · exact .refl dev
  | getAvail q =>
    refine .inl ?_
    simp only [step, Event.copied]
    split
    · split
      · exact .putVqDev dev q _
      · exact .refl dev
    · exact .refl dev
  | memory m => exact .inl ⟨rfl, rfl, rfl, rfl, rfl, fun _ _ => rfl⟩
  | header h => exact .inr (.inr ⟨h, rfl, rfl⟩)

end VirtioKind

/-! ## A network device -/

def netHost : Host Tap where
  self := 0x7f0000001000
  devCfgAddr := 0x7f0000002000
  devCfgSize := 24
  behind := fun _ _ => 0
  ram := ⟨0, fun _ => 0⟩
  backend :=
    { frames := fun _ => none, reads := 0, accepts := fun _ => true, writes := 0, sent := [] }
  irqNum := 14
  self_lt := by decide
  devCfgAddr_lt := by decide

def barWrite (offset : Nat) (data : List UInt8)
    (h : 1 ≤ data.length ∧ data.length ≤ 8 ∧ offset + data.length ≤ barWindow) : Event :=
  .access ⟨true, offset, data, h.1, h.2.1, h.2.2⟩ 0 (fun _ => 0)

def selectQueue1 : Event := barWrite qSelect [1, 0] (by decide)
def setQueueEnable : Event := barWrite qEnable [1, 0] (by decide)

end KvmHost
