import KvmHost.Lib.Cells
import KvmHost.SerialRuns

/-!
# KvmHost.SerialRegs

The registers of the serial port as the guest sees them.

Offsets 0 and 1 stand for two registers each, and DLAB, a bit of LCR, says which. `UartCell` names
the registers one by one; `writeCell` and `readCell` say which one an access means. The cells as a
plain register file (`Cells.run`) are an abstraction of the device: a step of the guest writes at
most the cell it means, and a step of the worker writes none.
-/

namespace KvmHost

inductive UartCell where
  | thr
  | dll
  | ier
  | dlm
  | fcr
  | lcr
  | mcr
  | scr
deriving DecidableEq

def dlabSet (lcr : UInt8) : Bool := decide (lcr &&& uartLcrDlab ≠ 0)

/-- The cell that a write at `offset` means. -/
def writeCell (dlab : Bool) (offset : Nat) : Option UartCell :=
  match uartReg offset with
  | some .rx => some (if dlab then .dll else .thr)
  | some .ier => some (if dlab then .dlm else .ier)
  | some .iir => some .fcr
  | some .lcr => some .lcr
  | some .mcr => some .mcr
  | some .scr => some .scr
  | _ => none

/-- The cell that a read at `offset` means, if it means one. -/
def readCell (dlab : Bool) (offset : Nat) : Option UartCell :=
  match uartReg offset with
  | some .rx => if dlab then some .dll else none
  | some .ier => some (if dlab then .dlm else .ier)
  | some .lcr => some .lcr
  | some .mcr => some .mcr
  | some .scr => some .scr
  | _ => none

def uartWrites (f : UartCell → UInt8) : SerialEvent → UartCell → Option UInt8
  | .guest true offset data, c =>
    if writeCell (dlabSet (f .lcr)) (offset % 2 ^ 16) = some c then some data else none
  | _, _ => none

/-- The cells of a new device. -/
def uartInit : UartCell → UInt8
  | .mcr => uartMcrOut2
  | _ => 0

/-- The bytes written to cell `c`, in order. -/
def uartWritten (c : UartCell) (es : List SerialEvent) : List UInt8 :=
  Cells.written uartWrites c uartInit es

/-- What was written to `c` last, or what it held at first. -/
def uartLast (c : UartCell) (es : List SerialEvent) : UInt8 :=
  ((uartWritten c es).getLast?).getD (uartInit c)

/-- The cells of the device; what was transmitted is on standard output. -/
def SerialDev.cells (dev : SerialDev) : UartCell → UInt8
  | .thr => (dev.out.getLast?).getD 0
  | .dll => dev.priv.dll
  | .ier => dev.priv.ier
  | .dlm => dev.priv.dlm
  | .fcr => dev.priv.fcr
  | .lcr => dev.priv.lcr
  | .mcr => dev.priv.mcr
  | .scr => dev.priv.scr

/-- What a read at `offset` leaves in `data`. -/
def SerialSys.reads (s : SerialSys) (offset : Nat) (data : UInt8) : UInt8 :=
  (serialIn s.dev (offset % 2 ^ 16) data).data

/-! ## Steps -/

/-- `dev'` has the registers of `dev` but for those of the receiver and the interrupt. -/
structure SerialDev.SameRegs (dev dev' : SerialDev) : Prop where
  cells : dev'.cells = dev.cells
  out : dev'.out = dev.out
  msr : dev'.priv.msr = dev.priv.msr

theorem sameRegs_refl (dev : SerialDev) : dev.SameRegs dev := ⟨rfl, rfl, rfl⟩

theorem sameRegs_updateIrq (dev : SerialDev) : dev.SameRegs (serialUpdateIrq dev) := by
  refine ⟨?_, rfl, rfl⟩
  funext c
  cases c <;> rfl

/-- A change of `rx_buf` and `LSR`. -/
theorem sameRegs_receiver (dev : SerialDev) (rxBuf : Fifo) (lsr : UInt8) :
    dev.SameRegs { dev with priv := { dev.priv with rxBuf := rxBuf, lsr := lsr } } := by
  refine ⟨?_, rfl, rfl⟩
  funext c
  cases c <;> rfl

theorem SerialDev.SameRegs.trans {dev dev' dev'' : SerialDev} (h : dev.SameRegs dev')
    (h' : dev'.SameRegs dev'') :
    dev.SameRegs dev'' :=
  ⟨h'.cells.trans h.cells, h'.out.trans h.out, h'.msr.trans h.msr⟩

theorem sameRegs_inRx (dev : SerialDev) (data : UInt8) :
    dev.SameRegs (serialInRx dev data).dev := by
  unfold serialInRx
  cases fifoGet dev.priv.rxBuf with
  | mk value rxBuf =>
    simp only
    split
    · exact (sameRegs_receiver dev rxBuf _).trans (sameRegs_updateIrq _)
    · exact sameRegs_receiver dev rxBuf dev.priv.lsr

theorem sameRegs_in (dev : SerialDev) (offset : Nat) (data : UInt8) :
    dev.SameRegs (serialIn dev offset data).dev := by
  by_cases h : uartReg offset = some .rx ∧ dev.priv.dlab = false
  · have hin : serialIn dev offset data = serialInRx dev data := by simp [serialIn, h.1, h.2]
    rw [hin]
    exact sameRegs_inRx dev data
  · rw [(SerialSys.serialIn_other data h).1]
    exact sameRegs_refl dev

namespace SerialSys

variable {s s' : SerialSys}

theorem sameRegs_consoleByte (c : UInt8) : s.dev.SameRegs (s.consoleByte c).dev := by
  unfold consoleByte
  split
  · exact sameRegs_refl _
  · split
    · exact sameRegs_refl _
    · split
      · exact sameRegs_refl _
      · exact sameRegs_receiver _ _ _

theorem sameRegs_worker {host : Bool} (h : s.workerStep host = some s') :
    s.dev.SameRegs s'.dev := by
  rcases workerStep_cases h with ⟨w, -, rfl⟩ | ⟨-, c, input, -, rfl⟩ | ⟨-, rfl⟩
  · exact sameRegs_refl _
  · exact sameRegs_consoleByte (s := { s with input := input, consumed := s.consumed ++ [c] }) c
  · exact sameRegs_updateIrq _

end SerialSys

/-- The effect of an access that means cell `c` of the device. -/
structure SerialDev.Sets (dev dev' : SerialDev) (c : Option UartCell) (data : UInt8) : Prop where
  cells : ∀ r, dev'.cells r = if c = some r then data else dev.cells r
  out : dev'.out = if c = some .thr then dev.out ++ [data] else dev.out
  msr : dev'.priv.msr = dev.priv.msr

theorem serialOut_sets (dev : SerialDev) (offset : Nat) (data : UInt8) :
    dev.Sets (serialOut dev offset data) (writeCell dev.priv.dlab offset) data := by
  unfold serialOut writeCell
  cases uartReg offset with
  | none => exact ⟨fun _ => rfl, rfl, rfl⟩
  | some reg =>
    cases reg with
    | rx =>
      cases dev.priv.dlab with
      | true =>
        refine ⟨fun r => ?_, rfl, rfl⟩
        cases r <;> rfl
      | false =>
        refine ⟨fun r => ?_, rfl, rfl⟩
        cases r with
        | thr => simp [SerialDev.cells, serialUpdateIrq]
        | _ => rfl
    | ier =>
      cases dev.priv.dlab with
      | true =>
        refine ⟨fun r => ?_, rfl, rfl⟩
        cases r <;> rfl
      | false =>
        refine ⟨fun r => ?_, rfl, rfl⟩
        cases r <;> rfl
    | lsr => exact ⟨fun _ => rfl, rfl, rfl⟩
    | msr => exact ⟨fun _ => rfl, rfl, rfl⟩
    | _ =>
      refine ⟨fun r => ?_, rfl, rfl⟩
      cases r <;> rfl

namespace SerialSys

variable {s s' : SerialSys} {es : List SerialEvent}

/-- The part of the state that the register file is about, and what an event does to it. -/
structure Tracks (s : SerialSys) (f : UartCell → UInt8) (out : List UInt8) : Prop where
  cells : s.dev.cells = f
  out : s.dev.out = out
  msr : s.dev.priv.msr = uartMsrDcd ||| uartMsrDsr ||| uartMsrCts

theorem tracks_same {f : UartCell → UInt8} {out : List UInt8} {e : SerialEvent} (h : s.Tracks f out)
    (hs : s.dev.SameRegs s'.dev) (he : ∀ c, uartWrites f e c = none) :
    s'.Tracks (Cells.step uartWrites f e) (out ++ (uartWrites f e .thr).toList) := by
  refine ⟨?_, ?_, hs.msr.trans h.msr⟩
  · rw [Cells.step_idle he, hs.cells, h.cells]
  · rw [he, hs.out, h.out]
    exact (List.append_nil out).symm

theorem tracks_write {f : UartCell → UInt8} {out : List UInt8} {offset : Nat} {data : UInt8}
    (h : s.Tracks f out) (hs : s'.dev = serialOut s.dev (offset % 2 ^ 16) data) :
    s'.Tracks (Cells.step uartWrites f (.guest true offset data))
      (out ++ (uartWrites f (.guest true offset data) .thr).toList) := by
  have hdlab : dlabSet (f .lcr) = s.dev.priv.dlab := by rw [← h.cells]; rfl
  obtain ⟨hcells, hout, hmsr⟩ := serialOut_sets s.dev (offset % 2 ^ 16) data
  refine ⟨?_, ?_, by rw [hs, hmsr]; exact h.msr⟩
  · funext c
    rw [hs, hcells, Cells.step, uartWrites, hdlab, h.cells]
    split <;> rfl
  · rw [hs, hout, uartWrites, hdlab, h.out]
    split
    · rfl
    · exact (List.append_nil out).symm

theorem step_tracks {f : UartCell → UInt8} {out : List UInt8} {e : SerialEvent} (h : s.Tracks f out)
    (hs : s.step e = some s') :
    s'.Tracks (Cells.step uartWrites f e) (out ++ (uartWrites f e .thr).toList) := by
  unfold step at hs
  split at hs
  · cases hs
  · cases e with
    | arrive c =>
      cases hs
      exact tracks_same h (sameRegs_refl _) fun _ => rfl
    | stop =>
      cases hs
      exact tracks_same h (sameRegs_refl _) fun _ => rfl
    | worker host => exact tracks_same h (sameRegs_worker hs) fun _ => rfl
    | guest isWrite offset data =>
      simp only [serialHandleIo, serialOp] at hs
      split at hs
      · cases hs
      · cases isWrite with
        | true =>
          cases hs
          exact tracks_write h rfl
        | false =>
          cases hs
          exact tracks_same h (sameRegs_in _ _ _) fun _ => rfl

theorem run_tracks (es : List SerialEvent) :
    ∀ {s s' : SerialSys} {f : UartCell → UInt8} {out : List UInt8},
    s.Tracks f out → s.run es = some s' →
      s'.Tracks (Cells.run uartWrites f es) (out ++ Cells.written uartWrites .thr f es) := by
  induction es with
  | nil =>
    intro s s' f out h hrun
    cases hrun
    rw [Cells.written, List.append_nil]
    exact h
  | cons e es ih =>
    intro s s' f out h hrun
    rw [run, List.foldlM_cons] at hrun
    obtain ⟨s₁, hstep, hrest⟩ := Option.bind_eq_some_iff.mp hrun
    have := ih (step_tracks h hstep) hrest
    rw [List.append_assoc] at this
    exact this

theorem init_tracks : init.Tracks uartInit [] := by
  refine ⟨?_, rfl, rfl⟩
  funext c
  cases c <;> rfl

/-- The cell a read means is what the read leaves. -/
theorem reads_cell {offset : Nat} {c : UartCell}
    (h : readCell s.dev.priv.dlab (offset % 2 ^ 16) = some c) (data : UInt8) :
    s.reads offset data = s.dev.cells c := by
  unfold readCell at h
  unfold reads serialIn
  cases hreg : uartReg (offset % 2 ^ 16) with
  | none =>
    rw [hreg] at h
    cases h
  | some reg =>
    rw [hreg] at h
    cases reg with
    | rx =>
      cases hd : s.dev.priv.dlab with
      | true =>
        rw [hd] at h
        cases h
        rfl
      | false =>
        rw [hd] at h
        cases h
    | ier =>
      cases hd : s.dev.priv.dlab with
      | true =>
        rw [hd] at h
        cases h
        rfl
      | false =>
        rw [hd] at h
        cases h
        rfl
    | iir => cases h
    | lsr => cases h
    | msr => cases h
    | _ =>
      cases h
      rfl

/-- An access under DLAB stays away from the receiver, from standard output and from `IER`. -/
theorem dlab_quiet {isWrite : Bool} {offset : Nat} {data : UInt8} (hd : s.dev.priv.dlab = true)
    (hs : s.step (.guest isWrite offset data) = some s') :
    s'.dev.priv.rxBuf = s.dev.priv.rxBuf ∧ s'.obtained = s.obtained ∧ s'.dev.out = s.dev.out ∧
      s'.dev.priv.ier = s.dev.priv.ier := by
  unfold step at hs
  split at hs
  · cases hs
  · simp only [serialHandleIo, serialOp] at hs
    split at hs
    · cases hs
    · cases isWrite with
      | true =>
        cases hs
        unfold serialOut
        rw [hd]
        cases uartReg (offset % 2 ^ 16) with
        | none => exact ⟨rfl, rfl, rfl, rfl⟩
        | some reg => cases reg <;> exact ⟨rfl, rfl, rfl, rfl⟩
      | false =>
        cases hs
        have hdev : (serialIn s.dev (offset % 2 ^ 16) data).dev = s.dev :=
          (serialIn_other data (by simp [hd])).1
        have hobt : s.obtains (offset % 2 ^ 16) = false := by simp [obtains, hd]
        exact ⟨congrArg (·.priv.rxBuf) hdev, if_neg (by rw [hobt]; decide), congrArg (·.out) hdev,
          congrArg (·.priv.ier) hdev⟩

/-- **UART register file.** After any run a read of a register returns what was written to it last,
with DLAB as LCR was written last; standard output is what was written to THR; MSR never changes;
and under DLAB an access leaves the receiver, standard output and `IER` as they are. -/
theorem uart_register_file (h : init.run es = some s) :
    (∀ offset c, readCell (dlabSet (uartLast .lcr es)) (offset % 2 ^ 16) = some c →
      ∀ data, s.reads offset data = uartLast c es) ∧
    s.dev.out = uartWritten .thr es ∧
    (∀ offset data, uartReg (offset % 2 ^ 16) = some .msr →
      s.reads offset data = uartMsrDcd ||| uartMsrDsr ||| uartMsrCts) ∧
    (dlabSet (uartLast .lcr es) = true →
      ∀ isWrite offset data s', s.step (.guest isWrite offset data) = some s' →
      s'.dev.priv.rxBuf = s.dev.priv.rxBuf ∧ s'.obtained = s.obtained ∧ s'.dev.out = s.dev.out ∧
        s'.dev.priv.ier = s.dev.priv.ier) := by
  have htracks := run_tracks es init_tracks h
  have hcell : ∀ c, s.dev.cells c = uartLast c es := by
    intro c
    rw [htracks.cells, Cells.run_val]
    rfl
  have hdlab : s.dev.priv.dlab = dlabSet (uartLast .lcr es) := by
    rw [← hcell]
    rfl
  refine ⟨?_, htracks.out, ?_, ?_⟩
  · intro offset c hc data
    rw [reads_cell (by rw [hdlab]; exact hc) data, hcell]
  · intro offset data hreg
    rw [reads, serialIn, hreg]
    exact htracks.msr
  · intro hd isWrite offset data s' hs
    exact dlab_quiet (hdlab.trans hd) hs

/-- The divisor under DLAB, then a byte of output and the receive interrupt. -/
def setBaud : List SerialEvent :=
  [.guest true 3 0x80, .guest true 0 0x0c, .guest true 1 0x01, .worker false, .guest true 3 0x03,
    .guest true 0 0x41, .guest true 1 0x05, .guest true 6 0x00, .guest true 3 0x83]

theorem uart_register_file_baud :
    ∃ s, init.run setBaud = some s ∧ s.reads 0 0 = 0x0c ∧ s.reads 1 0 = 0x01 ∧ s.reads 3 0 = 0x83 ∧
      s.dev.out = [0x41] ∧ s.reads 6 0 = 0xb0 := by
  have hrun : (init.run setBaud).isSome = true := by decide +kernel
  obtain ⟨s, hs⟩ := Option.isSome_iff_exists.mp hrun
  obtain ⟨hread, hout, hmsr, -⟩ := uart_register_file hs
  refine ⟨s, hs, ?_, ?_, ?_, ?_, ?_⟩
  · exact (hread 0 .dll (by decide) 0).trans (by decide)
  · exact (hread 1 .dlm (by decide) 0).trans (by decide)
  · exact (hread 3 .lcr (by decide) 0).trans (by decide)
  · exact hout.trans (by decide)
  · exact (hmsr 6 0 (by decide)).trans (by decide)

end SerialSys

end KvmHost
