import KvmHost.VirtioRuns

/-!
# KvmHost.IsrStatus

The interrupt status register of a virtio device.

The handlers set `isr_status` with every buffer they mark used, whichever queue it is of and whether
they write the interrupt's eventfd or not, and a read of the register clears it. So the driver can
tell from the register alone whether there is something to look for: `isr_status_run` says that a
read gives 1 iff a buffer has been marked used since the last one, as long as the guest does not
write to the register (the copy of `virtio_pci_space_write` would let it).

Marked buffers are counted in the trace of ring events. `Marks` is what a handler does to the count
and to the register; it is shown function by function and carried over the loop of
`virtio_blk_complete_request`.
-/

namespace KvmHost

open ByteStore Turns

def RingEvent.isUsed : RingEvent → Bool
  | .used _ => true
  | _ => false

def usedCount (trace : List RingEvent) : Nat := trace.countP RingEvent.isUsed

@[simp] theorem usedCount_append (xs ys : List RingEvent) :
    usedCount (xs ++ ys) = usedCount xs + usedCount ys :=
  List.countP_append

@[simp] theorem usedCount_take (a : Nat) : usedCount [.take a] = 0 := rfl
@[simp] theorem usedCount_used (a : Nat) : usedCount [.used a] = 1 := rfl
@[simp] theorem usedCount_notify : usedCount [.notify] = 0 := rfl

/-- What a device has to say about used buffers: the register, and how many it has marked. -/
structure Reported where
  isr : Nat
  used : Nat

/-- From `s` on some buffers have been marked used, and then the register is raised. -/
structure Reported.Raised (s s' : Reported) : Prop where
  le : s.used ≤ s'.used
  isr : s'.isr = if s.used < s'.used then s.isr ||| virtioPciIsrQueue else s.isr

namespace Reported.Raised

variable {s s' s'' : Reported}

theorem of_eq (h : s' = s) : s.Raised s' := by
  subst h
  exact ⟨Nat.le_refl _, by rw [if_neg (Nat.lt_irrefl _)]⟩

theorem trans (h : s.Raised s') (h' : s'.Raised s'') : s.Raised s'' := by
  have hle := h.le
  have hle' := h'.le
  refine ⟨Nat.le_trans hle hle', ?_⟩
  rw [h'.isr, h.isr]
  by_cases hlt : s.used < s'.used
  · rw [if_pos hlt, if_pos (show s.used < s''.used by omega), Nat.or_assoc, Nat.or_self, ite_self]
  · rw [if_neg hlt, show s.used = s'.used by omega]

end Reported.Raised

/-! ## Handlers -/

section Handlers

variable {β : Type} {d d' d'' : VqDev β}

namespace VqDev

def reported (d : VqDev β) : Reported := ⟨d.isrStatus, usedCount d.trace⟩

/-- What a handler that gets from `d` to `d'` does to the register. -/
def Marks (d d' : VqDev β) : Prop := d.reported.Raised d'.reported

theorem Marks.same (ht : usedCount d'.trace = usedCount d.trace) (hi : d'.isrStatus = d.isrStatus) :
    d.Marks d' :=
  .of_eq (by rw [reported, reported, ht, hi])

theorem Marks.trans (h : d.Marks d') (h' : d'.Marks d'') : d.Marks d'' := Reported.Raised.trans h h'

theorem getAvail_marks {desc : Ptr} (h : d.getAvail = .ok (desc, d')) : d.Marks d' := by
  rcases getAvail_inv h with ⟨-, rfl⟩ | ⟨a, vq, -, -, rfl⟩
  · exact .same rfl rfl
  · exact .same (by simp) rfl

/-- `markUsed` comes with `raiseIsr`, with stores to guest memory between the two. -/
theorem markUsed_marks {desc : Ptr} (ram : Ram) (h : d.markUsed desc = .ok d') :
    d.Marks { d' with ram }.raiseIsr := by
  cases desc with
  | none =>
    obtain ⟨ram, hram, -⟩ := bind_eq_ok.mp h
    cases hram
  | some a =>
    obtain ⟨ram, -, rfl⟩ := markUsed_inv h
    exact ⟨by simp [reported, raiseIsr], by simp [reported, raiseIsr]⟩

end VqDev

end Handlers

namespace Blk

variable {dev dev' : VirtioBlkDev} {req req' : Store} {desc : Ptr} {status : Nat} {flow : Flow}

theorem virtioBlkRead_marks {data : Ptr} {offset : Int} {size : Nat} {r : Option Nat}
    (h : virtioBlkRead dev data offset size = .ok (r, dev')) : dev.Marks dev' := by
  obtain ⟨⟨r', ram, img⟩, -, h⟩ := bind_eq_ok.mp h
  cases h
  exact .same rfl rfl

theorem virtioBlkWrite_marks {data : Ptr} {offset : Int} {size : Nat} {r : Option Nat}
    (h : virtioBlkWrite dev data offset size = .ok (r, dev')) : dev.Marks dev' := by
  obtain ⟨⟨r', img⟩, -, h⟩ := bind_eq_ok.mp h
  cases h
  exact .same rfl rfl

theorem transfer_marks (h : transfer dev req = .ok (desc, status, dev', req')) :
    dev.Marks dev' := by
  obtain ⟨⟨p, d₁⟩, hget, h⟩ := bind_eq_ok.mp h
  obtain ⟨len, -, h⟩ := bind_eq_ok.mp h
  obtain ⟨addr, -, h⟩ := bind_eq_ok.mp h
  refine (VqDev.getAvail_marks hget).trans ?_
  simp only at h
  split at h
  · obtain ⟨⟨r, d₂⟩, hio, h⟩ := bind_eq_ok.mp h
    cases h
    exact virtioBlkRead_marks hio
  · obtain ⟨⟨r, d₂⟩, hio, h⟩ := bind_eq_ok.mp h
    cases h
    exact virtioBlkWrite_marks hio

theorem finish_marks {head : Ptr} (h : finish dev head desc status = .ok (flow, dev')) :
    dev.Marks dev' := by
  obtain ⟨next, -, h⟩ := bind_eq_ok.mp h
  split at h
  · obtain ⟨⟨p, d₁⟩, hget, h⟩ := bind_eq_ok.mp h
    obtain ⟨addr, -, h⟩ := bind_eq_ok.mp h
    obtain ⟨ram, -, h⟩ := bind_eq_ok.mp h
    obtain ⟨d₂, hmark, h⟩ := bind_eq_ok.mp h
    obtain ⟨ram', -, h⟩ := bind_eq_ok.mp h
    cases h
    have hstore : d₁.Marks { d₁ with ram } := .same rfl rfl
    exact ((VqDev.getAvail_marks hget).trans hstore).trans (VqDev.markUsed_marks ram' hmark)
  · cases h
    exact .same rfl rfl

theorem round_marks (h : round dev req = .ok (flow, dev', req')) : dev.Marks dev' := by
  rcases round_inv h with ⟨-, -, rfl⟩ | ⟨head, d₁, req₁, hget, -, h⟩
  · exact .same rfl rfl
  · refine (VqDev.getAvail_marks hget).trans ?_
    rcases h with ⟨-, -, -, rfl⟩ | ⟨-, -, desc, status, d₂, req₂, htr, hfin⟩ | ⟨-, hfin⟩
    · exact .same rfl rfl
    · exact (transfer_marks htr).trans (finish_marks hfin)
    · exact finish_marks hfin

end Blk

theorem virtioBlkCompleteRequest_marks {dev' : VirtioBlkDev} :
    ∀ {fuel : Nat} {dev : VirtioBlkDev} {req : Store},
    virtioBlkCompleteRequest fuel dev req = .ok dev' → dev.Marks dev' := by
  intro fuel
  induction fuel with
  | zero => intro dev req h; cases h
  | succ fuel ih =>
    intro dev req h
    obtain ⟨⟨flow, d₁, req₁⟩, hround, h⟩ := bind_eq_ok.mp h
    cases flow with
    | loop => exact (Blk.round_marks hround).trans (ih h)
    | ret =>
      cases h
      exact Blk.round_marks hround

section Net

variable {dev dev' : VirtioNetDev}

theorem disableGuestEvent_marks (h : disableGuestEvent dev = .ok dev') : dev.Marks dev' := by
  obtain ⟨ram, -, h⟩ := bind_eq_ok.mp h
  cases h
  exact .same rfl rfl

theorem virtioNetCompleteRequestRx_marks (h : virtioNetCompleteRequestRx dev = .ok dev') :
    dev.Marks dev' := by
  obtain ⟨⟨desc, d₁⟩, hget, h⟩ := bind_eq_ok.mp h
  refine (VqDev.getAvail_marks hget).trans ?_
  simp only at h
  split at h
  · exact disableGuestEvent_marks h
  · obtain ⟨addr, -, h⟩ := bind_eq_ok.mp h
    obtain ⟨ram₁, -, h⟩ := bind_eq_ok.mp h
    obtain ⟨ram₂, -, h⟩ := bind_eq_ok.mp h
    obtain ⟨len, -, h⟩ := bind_eq_ok.mp h
    obtain ⟨⟨r, ram₃, tap⟩, -, h⟩ := bind_eq_ok.mp h
    cases r with
    | none =>
      have hread : d₁.Marks { d₁ with ram := ram₃, backend := tap } := .same rfl rfl
      exact hread.trans (disableGuestEvent_marks h)
    | some n =>
      obtain ⟨ram₄, -, h⟩ := bind_eq_ok.mp h
      obtain ⟨d₂, hmark, h⟩ := bind_eq_ok.mp h
      cases h
      have hlen : d₁.Marks { d₁ with ram := ram₄, backend := tap } := .same rfl rfl
      exact hlen.trans (VqDev.markUsed_marks d₂.ram hmark)

theorem virtioNetCompleteRequestTx_marks (h : virtioNetCompleteRequestTx dev = .ok dev') :
    dev.Marks dev' := by
  obtain ⟨⟨desc, d₁⟩, hget, h⟩ := bind_eq_ok.mp h
  refine (VqDev.getAvail_marks hget).trans ?_
  simp only at h
  split at h
  · exact disableGuestEvent_marks h
  · obtain ⟨addr, -, h⟩ := bind_eq_ok.mp h
    obtain ⟨len, -, h⟩ := bind_eq_ok.mp h
    split at h
    · exact disableGuestEvent_marks h
    · obtain ⟨⟨r, tap⟩, -, h⟩ := bind_eq_ok.mp h
      have hwrite : d₁.Marks { d₁ with backend := tap } := .same rfl rfl
      refine hwrite.trans ?_
      cases r with
      | none => exact disableGuestEvent_marks h
      | some n =>
        obtain ⟨d₂, hmark, h⟩ := bind_eq_ok.mp h
        cases h
        exact VqDev.markUsed_marks d₂.ram hmark

end Net

namespace VirtioKind

variable {k : VirtioKind} {fuel : Nat} {req : Store} {q : Nat} {d d' : VqDev k.Backend}

theorem completeRequest_marks (h : (k.ops fuel req q).completeRequest d = .ok d') : d.Marks d' := by
  cases k with
  | blk => exact virtioBlkCompleteRequest_marks h
  | net =>
    simp only [VirtioKind.ops, virtioNetOps] at h
    split at h
    · exact virtioNetCompleteRequestRx_marks h
    · exact virtioNetCompleteRequestTx_marks h

theorem virtqHandleAvail_marks
    (h : virtqHandleAvail (k.ops fuel req q).completeRequest (k.ops fuel req q).notifyUsed d =
      .ok d') :
    d.Marks d' := by
  unfold virtqHandleAvail at h
  split at h
  · cases h
    exact .same rfl rfl
  · obtain ⟨d₁, hreq, h⟩ := bind_eq_ok.mp h
    obtain ⟨flags, -, h⟩ := bind_eq_ok.mp h
    refine (completeRequest_marks hreq).trans ?_
    split at h
    · rw [notifyUsed_eq] at h
      cases h
      exact .same (by simp) rfl
    · cases h
      exact .same rfl rfl

end VirtioKind

/-! ## The device -/

section Device

variable {β : Type}

def VirtioPciDev.reported (dev : VirtioPciDev β) : Reported := ⟨dev.isrStatus, usedCount dev.trace⟩

theorem isrStatus_lt (dev : VirtioPciDev β) : dev.isrStatus < 2 ^ 32 := getLE_lt dev.config isrCap 4

/-- The register has room for what a handler leaves. -/
theorem putVqDev_raised (dev : VirtioPciDev β) (q : Nat) {d : VqDev β} (h : (dev.vqDev q).Marks d) :
    dev.reported.Raised (dev.putVqDev q d).reported := by
  have hisr : d.isrStatus = _ := h.isr
  have hlt : d.isrStatus < 2 ^ 32 := by
    rw [hisr]
    split
    · exact Nat.or_lt_two_pow (isrStatus_lt dev) (by decide)
    · exact isrStatus_lt dev
  have hput : (dev.putVqDev q d).reported = d.reported := by
    have hget : (dev.putVqDev q d).isrStatus = d.isrStatus :=
      (getLE_putLE_same dev.config isrCap 4 d.isrStatus).trans (Nat.mod_eq_of_lt hlt)
    rw [VirtioPciDev.reported, hget]
    rfl
  rw [hput]
  exact h

end Device

/-- A read of the interrupt status register. -/
def Event.readsIsr : Event → Bool
  | .access a _ _ => !a.isWrite && a.offset == isrCap
  | _ => false

/-- A write whose copy gets to the interrupt status register. -/
def Event.writesIsr : Event → Bool
  | .access a _ _ =>
    a.isWrite && decide (a.offset < notifyData) && decide (isrCap < a.offset + a.size)
  | _ => false

namespace VirtioKind

variable {k : VirtioKind} {fuel : Nat} {req : Store}

theorem handleAvail_raised (dev : VirtioPciDev k.Backend) (q : Nat) :
    dev.reported.Raised (handleAvail (k.ops fuel req) dev q).dev.reported := by
  unfold handleAvail
  split
  · split
    · exact .of_eq rfl
    · split
      · rename_i d hd
        exact putVqDev_raised dev q (virtqHandleAvail_marks hd)
      · exact .of_eq rfl
  · exact .of_eq rfl

theorem Quiet.raised {dev dev' : VirtioPciDev k.Backend} (h : Quiet dev dev') :
    dev.reported.Raised dev'.reported :=
  .of_eq (by rw [VirtioPciDev.reported, VirtioPciDev.reported, h.trace, h.isr])

theorem writeRegister_raised (dev : VirtioPciDev k.Backend) (offset : Nat) (data : List UInt8) :
    dev.reported.Raised (writeRegister (k.ops fuel req) dev offset data).dev.reported := by
  by_cases hnot : offset = notifyData
  · subst hnot
    rw [writeRegister_notify]
    exact handleAvail_raised dev dev.vqn
  · exact (writeRegister_quiet dev data hnot).raised

/-- A read clears the register. -/
theorem step_read (dev : VirtioPciDev k.Backend) {ev : Event} (hread : ev.readsIsr = true) :
    (k.step dev ev).dev.reported = ⟨0, usedCount dev.trace⟩ := by
  cases ev with
  | access a fuel req =>
    simp only [Event.readsIsr, Bool.and_eq_true, Bool.not_eq_true', beq_iff_eq] at hread
    obtain ⟨hr, hisr⟩ := hread
    rw [step, spaceIo_read _ _ hr (by rw [hisr]; decide), if_pos hisr]
    have hzero : (dev.setConfig (putLE dev.config isrCap 4 0)).isrStatus = 0 :=
      getLE_putLE_same dev.config isrCap 4 0
    exact congrArg (Reported.mk · _) hzero
  | handle | getAvail | memory | header => cases hread

/-- No other event does. -/
theorem step_raised (dev : VirtioPciDev k.Backend) {ev : Event} (hkeep : ev.writesIsr = false)
    (hread : ev.readsIsr = false) : dev.reported.Raised (k.step dev ev).dev.reported := by
  cases ev with
  | access a fuel req =>
    rcases access_cases a with ⟨hw, hlt⟩ | ⟨hr, hlt⟩ | hge
    · have hout : a.offset + a.data.length ≤ isrCap ∨ notifyData ≤ a.offset := by
        simp only [Event.writesIsr, hw, Bool.true_and, Bool.and_eq_false_iff,
          decide_eq_false_iff_not] at hkeep
        unfold Access.size at hkeep
        omega
      have hcopied : Quiet dev (a.copied dev) := by
        rw [Access.copied, if_pos ⟨hw, hlt⟩]
        exact .setConfig dev hout
      rw [step, spaceIo_register _ _ hw hlt]
      exact hcopied.raised.trans (writeRegister_raised (a.copied dev) a.offset a.data)
    · have hisr : a.offset ≠ isrCap := by simpa [Event.readsIsr, hr] using hread
      rw [step, spaceIo_read _ _ hr hlt, if_neg hisr]
      exact .of_eq rfl
    · obtain ⟨devCfg, peeks, h, -⟩ := spaceIo_devCfg_dev (k.ops fuel req) dev hge
      rw [step, h]
      exact .of_eq rfl
  | handle q fuel req =>
    simp only [step]
    split
    · exact handleAvail_raised dev q
    · exact .of_eq rfl
  | getAvail q =>
    simp only [step]
    split
    · split
      · rename_i d hd
        exact putVqDev_raised dev q (VqDev.getAvail_marks hd)
      · exact .of_eq rfl
    · exact .of_eq rfl
  | memory m => exact .of_eq rfl
  | header h => exact .of_eq rfl

/-! ## Runs -/

/-- A device, with what the driver knows from the register: how many buffers had been marked used
when it last read it. -/
structure Watched (k : VirtioKind) where
  dev : VirtioPciDev k.Backend
  seen : Nat

namespace Watched

def next (w : Watched k) (ev : Event) : Option (Watched k) :=
  (k.next w.dev ev).map fun dev => ⟨dev, if ev.readsIsr then usedCount w.dev.trace else w.seen⟩

/-- Buffers the driver has not been told of. -/
def News (w : Watched k) : Prop := w.seen < usedCount w.dev.trace

instance (w : Watched k) : Decidable w.News := inferInstanceAs (Decidable (_ < _))

structure Told (w : Watched k) : Prop where
  le : w.seen ≤ usedCount w.dev.trace
  isr : w.dev.isrStatus = if w.News then virtioPciIsrQueue else 0

theorem Told.next {w w' : Watched k} {ev : Event} (h : w.Told) (hkeep : ev.writesIsr = false)
    (hn : w.next ev = some w') : w'.Told := by
  obtain ⟨dev', hdev, rfl⟩ := Option.map_eq_some_iff.mp hn
  cases hread : ev.readsIsr with
  | true =>
    have hstep := step_read w.dev hread
    rw [next_eq hdev] at hstep
    have hisr : dev'.isrStatus = 0 := congrArg Reported.isr hstep
    have hused : usedCount dev'.trace = usedCount w.dev.trace := congrArg Reported.used hstep
    exact ⟨Nat.le_of_eq hused.symm, by rw [hisr, if_neg (by simp [News, hused])]⟩
  | false =>
    have hstep := step_raised w.dev hkeep hread
    rw [next_eq hdev] at hstep
    have hle : usedCount w.dev.trace ≤ usedCount dev'.trace := hstep.le
    have hisr : dev'.isrStatus =
        if usedCount w.dev.trace < usedCount dev'.trace then w.dev.isrStatus ||| virtioPciIsrQueue
        else w.dev.isrStatus := hstep.isr
    have hold := h.le
    refine ⟨Nat.le_trans hold hle, ?_⟩
    simp only [News, Bool.false_eq_true, if_false]
    by_cases hmore : usedCount w.dev.trace < usedCount dev'.trace
    · -- raised now, whatever it was
      rw [hisr, h.isr, if_pos hmore, if_pos (show w.seen < usedCount dev'.trace by omega)]
      split <;> rfl
    · rw [hisr, h.isr, if_neg hmore, show usedCount dev'.trace = usedCount w.dev.trace by omega]
      rfl

theorem turns_told (host : Host k.Backend) {evs : List Event}
    (hkeep : ∀ ev ∈ evs, ev.writesIsr = false) :
    ∀ t ∈ turns Watched.next ⟨k.initPci host, 0⟩ evs, t.1.Told := by
  have hinit : Told (⟨k.initPci host, 0⟩ : Watched k) := by
    cases k with
    | blk => exact ⟨Nat.le_refl _, rfl⟩
    | net => exact ⟨Nat.le_refl _, rfl⟩
  exact turns_invariant (P := fun t => t.2.writesIsr = false)
    (fun w ev w' h hp hn => h.next hp hn) hinit
    fun t ht => hkeep t.2 (turns_event ht)

end Watched

-- what the buffer of a read holds before does not matter
def readIsr : Event :=
  .access ⟨false, isrCap, [0xff], by decide, by decide, by decide⟩ 0 (fun _ => 0)

/-- **The interrupt status.** As long as the guest writes no byte of the register, it reads as 1 iff
the device has marked a buffer used since the last read, of whichever queue, and as 0 otherwise.
Accesses and handler calls are single steps here; in the program
`isr_status |= VIRTIO_PCI_ISR_QUEUE` of a queue thread and the read that clears the register can
overlap. A run ends at an access or a call that stops, and nothing is said of the register after
that. -/
theorem isr_status_run (host : Host k.Backend) {evs : List Event}
    (hkeep : ∀ ev ∈ evs, ev.writesIsr = false) {w : Watched k} {ev : Event}
    (ht : (w, ev) ∈ turns Watched.next ⟨k.initPci host, 0⟩ evs) {n : Nat} (hn : 0 < n) :
    (virtioPciSpaceRead w.dev isrCap n).1[0]? = some (if w.News then 1 else 0) := by
  have htold := Watched.turns_told host hkeep _ ht
  have hbyte : w.dev.config isrCap = UInt8.ofNat w.dev.isrStatus := by
    have hget := byte_getLE w.dev.config isrCap (n := 4) (i := 0) (by decide)
    rw [Nat.pow_zero, Nat.div_one] at hget
    exact hget.symm
  have hread : (virtioPciSpaceRead w.dev isrCap n).1[0]? = some (w.dev.config isrCap) := by
    rw [virtioPciSpaceRead, if_pos (by decide), slice_getElem?, if_pos hn]
    rfl
  rw [hread, hbyte, htold.isr]
  split <;> rfl

/-- The driver enables the transmit queue, makes a buffer of 26 bytes available at guest address 0,
where queue 1 has its ring by default, and reads the register twice after the thread has sent it. -/
def sendAndRead : List Event :=
  [selectQueue1, setQueueEnable, .memory (putLE (putLE (fun _ => 0) 8 4 26) 14 2 0x80),
    .handle 1 0 (fun _ => 0), readIsr, readIsr]

theorem isr_status_run_twice :
    ∃ w w' : Watched .net, (w, readIsr) ∈ turns Watched.next
      ⟨VirtioKind.net.initPci netHost, 0⟩ sendAndRead ∧
      (w', readIsr) ∈ turns Watched.next ⟨VirtioKind.net.initPci netHost, 0⟩ sendAndRead ∧
      (virtioPciSpaceRead w.dev isrCap 1).1[0]? = some 1 ∧
        (virtioPciSpaceRead w'.dev isrCap 1).1[0]? = some 0 := by
  have hkeep : ∀ ev ∈ sendAndRead, ev.writesIsr = false := by decide +kernel
  refine ⟨_, _, List.mem_of_getElem? (i := 4) rfl, List.mem_of_getElem? (i := 5) rfl, ?_, ?_⟩
  · rw [isr_status_run (k := .net) netHost hkeep (List.mem_of_getElem? (i := 4) rfl) Nat.one_pos]
    decide +kernel
  · rw [isr_status_run (k := .net) netHost hkeep (List.mem_of_getElem? (i := 5) rfl) Nat.one_pos]
    decide +kernel

end VirtioKind

end KvmHost
