import KvmHost.Serial

/-!
# KvmHost.SerialRuns

What holds of the serial port however the guest's accesses, the worker's steps and the arrival of
input interleave.

`Inv s xs` ties everything together, `xs` being the bytes in `rx_buf`: `LSR` says whether there are
any; the IRQ line and `IIR` are in step with `IER` and `xs`, except while the worker is between its
first put and `serial_update_irq`; what was read from the host, filtered, is what the guest got
followed by `xs`; and a worker that waits unsignalled has more than half of `rx_buf` in front of it.
`step_inv` says that every step keeps it. The three theorems about runs are parts of it.
-/

namespace KvmHost

/-! ## The escape filter -/

/-- The bytes that pass: an unescaped 0x01 is dropped and escapes the next byte, and an escaped `x`
ends the input. -/
def escapeFilter : Bool → List UInt8 → List UInt8
  | _, [] => []
  | true, c :: cs => if c = terminalExitChar then [] else c :: escapeFilter false cs
  | false, c :: cs =>
    if c = terminalEscapeChar then escapeFilter true cs else c :: escapeFilter false cs

/-- Whether the byte after these is escaped; `none` if the input has ended. -/
def escapeState : Bool → List UInt8 → Option Bool
  | escaped, [] => some escaped
  | true, c :: cs => if c = terminalExitChar then none else escapeState false cs
  | false, c :: cs => if c = terminalEscapeChar then escapeState true cs else escapeState false cs

theorem escapeFilter_append (cs ds : List UInt8) : ∀ e : Bool,
    escapeFilter e (cs ++ ds) =
      escapeFilter e cs ++ (match escapeState e cs with
        | none => []
        | some e' => escapeFilter e' ds) := by
  induction cs with
  | nil =>
    intro e
    cases e <;> rfl
  | cons c cs ih =>
    intro e
    cases e with
    | false =>
      simp only [List.cons_append, escapeFilter, escapeState]
      split
      · exact ih true
      · rw [ih false, List.cons_append]
    | true =>
      simp only [List.cons_append, escapeFilter, escapeState]
      split
      · rfl
      · rw [ih false, List.cons_append]

theorem escapeState_append (cs ds : List UInt8) : ∀ e : Bool,
    escapeState e (cs ++ ds) = (escapeState e cs).bind fun e' => escapeState e' ds := by
  induction cs with
  | nil =>
    intro e
    cases e <;> rfl
  | cons c cs ih =>
    intro e
    cases e with
    | false =>
      simp only [List.cons_append, escapeState]
      split
      · exact ih true
      · exact ih false
    | true =>
      simp only [List.cons_append, escapeState]
      split
      · rfl
      · exact ih false

/-- One more byte. -/
theorem escape_snoc {cs : List UInt8} {e e' : Bool} (h : escapeState e cs = some e') (c : UInt8) :
    escapeFilter e (cs ++ [c]) = escapeFilter e cs ++ escapeFilter e' [c] ∧
      escapeState e (cs ++ [c]) = escapeState e' [c] := by
  rw [escapeFilter_append, escapeState_append, h]
  exact ⟨rfl, rfl⟩

theorem escapeFilter_mono (cs ds : List UInt8) (e : Bool) :
    escapeFilter e cs <+: escapeFilter e (cs ++ ds) := by
  rw [escapeFilter_append]
  exact List.prefix_append _ _

/-! ## The invariant -/

/-- `LSR` while `xs` is queued. -/
def lsrOf (xs : List UInt8) : UInt8 :=
  if xs = [] then uartLsrTemt ||| uartLsrThre else uartLsrTemt ||| uartLsrThre ||| uartLsrDr

/-- The interrupt that `IER` selects while `xs` is queued. -/
def irqOf (ier : UInt8) (xs : List UInt8) : UInt8 :=
  if ier &&& uartIerRdi ≠ 0 ∧ xs ≠ [] then uartIirRdi
  else if ier &&& uartIerThri ≠ 0 then uartIirThri
  else uartIirNoInt

/-- `IIR` and the IRQ line are in step with `IER` and `xs`. -/
structure SerialDev.InStep (dev : SerialDev) (xs : List UInt8) : Prop where
  iir : dev.priv.iir ||| 0xc0 = irqOf dev.priv.ier xs ||| 0xc0
  level : dev.level = if irqOf dev.priv.ier xs = uartIirNoInt then 0 else 1

/-- Between the first put of `serial_console` and `serial_update_irq`. -/
def Worker.inPass : Worker → Bool
  | .console => true
  | .read => true
  | .updateIrq => true
  | .exited => true
  | _ => false

structure SerialSys.Inv (s : SerialSys) (xs : List UInt8) : Prop where
  fifo : FifoHolds s.dev.priv.rxBuf xs
  lsr : s.dev.priv.lsr = lsrOf xs
  irq : s.worker.inPass = false → s.dev.InStep xs
  stream : escapeFilter false s.consumed = s.obtained ++ xs
  escaped : s.worker ≠ .exited → escapeState false s.consumed = some s.escaped
  ended : s.worker = .exited → escapeState false s.consumed = none
  waiting : s.worker = .waiting false → fifoLen / 2 < xs.length
  room : s.worker = .read → xs.length < fifoLen

theorem lsrOf_dr (xs : List UInt8) : lsrOf xs &&& uartLsrDr ≠ 0 ↔ xs ≠ [] := by
  unfold lsrOf
  split
  · rename_i h
    simp only [h, ne_eq, not_true_eq_false, iff_false]
    decide
  · rename_i h
    simp only [ne_eq, h, not_false_eq_true, iff_true]
    decide

theorem lsrOf_tx (xs : List UInt8) :
    lsrOf xs &&& uartLsrTemt ≠ 0 ∧ lsrOf xs &&& uartLsrThre ≠ 0 ∧
      lsrOf xs ||| (uartLsrTemt ||| uartLsrThre) = lsrOf xs := by
  unfold lsrOf
  split <;> decide

theorem lsrOf_clear (xs : List UInt8) : lsrOf xs &&& ~~~uartLsrDr = lsrOf [] := by
  unfold lsrOf
  split <;> decide

theorem lsrOf_set (xs : List UInt8) (c : UInt8) : lsrOf xs ||| uartLsrDr = lsrOf (xs ++ [c]) := by
  have hne : xs ++ [c] ≠ [] := by simp
  unfold lsrOf
  rw [if_neg hne]
  split <;> decide

theorem irqOf_congr {xs ys : List UInt8} (h : xs = [] ↔ ys = []) (ier : UInt8) :
    irqOf ier xs = irqOf ier ys := by
  simp only [irqOf, ne_eq, h]

theorem lsrOf_congr {xs ys : List UInt8} (h : xs = [] ↔ ys = []) : lsrOf xs = lsrOf ys := by
  simp only [lsrOf, h]

theorem SerialDev.InStep.congr {dev : SerialDev} {xs ys : List UInt8} (hd : dev.InStep xs)
    (h : xs = [] ↔ ys = []) :
    dev.InStep ys := by
  constructor
  · rw [hd.iir, irqOf_congr h]
  · rw [hd.level, irqOf_congr h]

/-- `serial_update_irq` brings the line in step. -/
theorem serialUpdateIrq_inStep {dev : SerialDev} {xs : List UInt8} (h : dev.priv.lsr = lsrOf xs) :
    (serialUpdateIrq dev).InStep xs := by
  have hiir : (if dev.priv.ier &&& uartIerRdi ≠ 0 ∧ dev.priv.lsr &&& uartLsrDr ≠ 0 then uartIirRdi
      else if dev.priv.ier &&& uartIerThri ≠ 0 ∧ dev.priv.lsr &&& uartLsrTemt ≠ 0 then uartIirThri
      else uartIirNoInt) = irqOf dev.priv.ier xs := by
    rw [h, irqOf]
    simp only [lsrOf_dr, and_iff_left (lsrOf_tx xs).1]
  constructor
  · simp only [serialUpdateIrq, hiir]
    rw [UInt8.or_assoc, UInt8.or_self]
  · simp only [serialUpdateIrq, hiir]

@[simp] theorem serialUpdateIrq_rxBuf (dev : SerialDev) :
    (serialUpdateIrq dev).priv.rxBuf = dev.priv.rxBuf := rfl
@[simp] theorem serialUpdateIrq_lsr (dev : SerialDev) :
    (serialUpdateIrq dev).priv.lsr = dev.priv.lsr := rfl
@[simp] theorem serialUpdateIrq_lcr (dev : SerialDev) :
    (serialUpdateIrq dev).priv.lcr = dev.priv.lcr := rfl

namespace SerialSys

variable {s s' : SerialSys} {xs : List UInt8}

theorem init_inv : init.Inv [] where
  fifo := Circular.holds_nil (by decide) _
  lsr := by decide
  irq _ := ⟨by decide, by decide⟩
  stream := rfl
  escaped _ := rfl
  ended h := by cases h
  waiting h := by cases h
  room h := by cases h

/-- A step of the worker that touches nothing but its place. -/
theorem Inv.move (h : s.Inv xs) {w : Worker} (hpass : w.inPass = false → s.worker.inPass = false)
    (hexit : s.worker ≠ .exited) (hwait : w = .waiting false → fifoLen / 2 < xs.length)
    (hexit' : w ≠ .exited) (hroom : w = .read → xs.length < fifoLen) :
    Inv { s with worker := w } xs :=
  ⟨h.fifo, h.lsr, fun hw => h.irq (hpass hw), h.stream, fun _ => h.escaped hexit,
    fun hw => absurd hw hexit', hwait, hroom⟩

/-- In the middle of a pass the line may lag behind. -/
theorem Inv.ofPass (hw : s.worker = .console ∨ s.worker = .exited)
    (hf : FifoHolds s.dev.priv.rxBuf xs) (hl : s.dev.priv.lsr = lsrOf xs)
    (hs : escapeFilter false s.consumed = s.obtained ++ xs)
    (he : s.worker ≠ .exited → escapeState false s.consumed = some s.escaped)
    (hend : s.worker = .exited → escapeState false s.consumed = none) : s.Inv xs := by
  refine ⟨hf, hl, ?_, hs, he, hend, ?_, ?_⟩
  all_goals
    intro h
    rcases hw with hw | hw <;> rw [hw] at h <;> cases h

/-- A change of the device that leaves `rx_buf` and `LSR` as they are. -/
theorem Inv.setDev (h : s.Inv xs) {dev : SerialDev} (hrx : dev.priv.rxBuf = s.dev.priv.rxBuf)
    (hlsr : dev.priv.lsr = s.dev.priv.lsr) (hirq : s.worker.inPass = false → dev.InStep xs) :
    Inv { s with dev := dev } xs :=
  ⟨hrx ▸ h.fifo, hlsr.trans h.lsr, hirq, h.stream, h.escaped, h.ended, h.waiting, h.room⟩

theorem inPass_of_unlocked {w : Worker} (h : w.hasLock = false) : w.inPass = false := by
  cases w <;> first | rfl | cases h

/-! ## Accesses of the guest -/

/-- Whatever is left in `rx_buf` by a read of RX, `LSR` and the line follow it. -/
theorem serialInRx_dev {dev : SerialDev} (data : UInt8) {rxBuf : Fifo} {value : Option UInt8}
    {ys xs : List UInt8} (hget : fifoGet dev.priv.rxBuf = (value, rxBuf)) (hf : FifoHolds rxBuf xs)
    (hlsr : dev.priv.lsr = lsrOf ys) (hirq : dev.InStep ys) (hne : xs ≠ [] → ys ≠ []) :
    (serialInRx dev data).data = value.getD data ∧
      (serialInRx dev data).dev.priv.rxBuf = rxBuf ∧ (serialInRx dev data).dev.priv.lsr = lsrOf xs ∧
      (serialInRx dev data).dev.InStep xs ∧
      (serialInRx dev data).signal = decide (xs.length = fifoLen / 2) := by
  unfold serialInRx
  simp only [hget, fifoCapacity_eq hf]
  by_cases hx : xs = []
  · have hcleared : dev.priv.lsr &&& ~~~uartLsrDr = lsrOf xs := by rw [hlsr, lsrOf_clear, hx]
    rw [if_pos ((fifoIsEmpty_iff hf).mpr hx)]
    exact ⟨trivial, rfl, hcleared, serialUpdateIrq_inStep hcleared, trivial⟩
  · have hsame : ys = [] ↔ xs = [] := iff_of_false (hne hx) hx
    rw [if_neg fun he => hx ((fifoIsEmpty_iff hf).mp he)]
    exact ⟨trivial, rfl, hlsr.trans (lsrOf_congr hsame),
      ⟨(hirq.congr hsame).iir, (hirq.congr hsame).level⟩, trivial⟩

theorem signal_waiting {w : Worker} {b : Bool} (h : (if b then w.signal else w) = .waiting false) :
    b = false ∧ w = .waiting false := by
  cases b with
  | false => exact ⟨rfl, h⟩
  | true => cases w <;> cases h

theorem signal_inPass (w : Worker) : w.signal.inPass = w.inPass := by
  cases w <;> rfl

theorem ne_of_not_inPass {w : Worker} (h : w.inPass = false) : w ≠ .read ∧ w ≠ .exited := by
  constructor
  · rintro rfl
    cases h
  · rintro rfl
    cases h

/-- A read of RX with DLAB clear takes the first queued byte, if there is one. -/
theorem rx_inv (h : s.Inv xs) (hlock : s.worker.hasLock = false) (hexit : s.worker ≠ .exited)
    (data : UInt8) :
    Inv
      { s with
        dev := (serialInRx s.dev data).dev
        worker := if (serialInRx s.dev data).signal then s.worker.signal else s.worker
        obtained :=
          if s.dev.priv.lsr &&& uartLsrDr ≠ 0 then s.obtained ++ [(serialInRx s.dev data).data]
            else s.obtained }
      xs.tail := by
  have hirq := h.irq (inPass_of_unlocked hlock)
  have hpass : ∀ b : Bool, (if b then s.worker.signal else s.worker).inPass = false := by
    intro b
    cases b with
    | false => exact inPass_of_unlocked hlock
    | true => exact (signal_inPass s.worker).trans (inPass_of_unlocked hlock)
  have hread := fun b => (ne_of_not_inPass (hpass b)).1
  have hgone := fun b => (ne_of_not_inPass (hpass b)).2
  have hesc := h.escaped hexit
  rw [h.lsr]
  cases xs with
  | nil =>
    obtain ⟨-, hrx, hlsr, hin, hsig⟩ := serialInRx_dev data (fifoGet_nil h.fifo) h.fifo h.lsr hirq
      fun hne => hne
    refine ⟨by
      rw [hrx]; exact h.fifo, hlsr, fun _ => hin, ?_, fun _ => hesc, fun hw => absurd hw (hgone _),
      ?_, fun hw => absurd hw (hread _)⟩
    · rw [if_neg fun hdr => (lsrOf_dr []).mp hdr rfl]
      exact h.stream
    · intro hw
      exact absurd (h.waiting (signal_waiting hw).2) (by decide)
  | cons x xs =>
    obtain ⟨rxBuf, hget, hf⟩ := fifoGet_cons h.fifo
    obtain ⟨hdata, hrx, hlsr, hin, hsig⟩ := serialInRx_dev data hget hf h.lsr hirq
      fun _ => List.cons_ne_nil x xs
    refine ⟨by rw [hrx]; exact hf, hlsr, fun _ => hin, ?_, fun _ => hesc,
      fun hw => absurd hw (hgone _), ?_, fun hw => absurd hw (hread _)⟩
    · rw [if_pos ((lsrOf_dr (x :: xs)).mpr (List.cons_ne_nil x xs)), hdata]
      simpa using h.stream
    · intro hw
      -- the occupancy passes through every value, so it cannot miss the one that signals
      obtain ⟨hs, hwait⟩ := signal_waiting hw
      have hlt := h.waiting hwait
      rw [hsig] at hs
      have hne := of_decide_eq_false hs
      simp only [List.length_cons] at hlt
      show fifoLen / 2 < xs.length
      omega

/-- The other reads change nothing. -/
theorem serialIn_other {dev : SerialDev} {offset : Nat} (data : UInt8)
    (h : ¬ (uartReg offset = some .rx ∧ dev.priv.dlab = false)) :
    (serialIn dev offset data).dev = dev ∧ (serialIn dev offset data).signal = false := by
  unfold serialIn
  split
  · rename_i hreg
    have hdlab : dev.priv.dlab = true := by
      by_contra hd
      exact h ⟨hreg, by simpa using hd⟩
    rw [if_pos hdlab]
    exact ⟨rfl, rfl⟩
  · split <;> exact ⟨rfl, rfl⟩
  all_goals exact ⟨rfl, rfl⟩

theorem serialOut_inv (h : s.Inv xs) (offset : Nat) (data : UInt8) :
    Inv { s with dev := serialOut s.dev offset data } xs := by
  unfold serialOut
  have hsame : ∀ dev : SerialDev, dev.priv.iir = s.dev.priv.iir → dev.priv.ier = s.dev.priv.ier →
      dev.level = s.dev.level → s.worker.inPass = false → dev.InStep xs := by
    intro dev h1 h2 h3 hpass
    have hirq := h.irq hpass
    exact ⟨by rw [h1, h2]; exact hirq.iir, by rw [h2, h3]; exact hirq.level⟩
  cases hreg : uartReg offset with
  | none => exact h.setDev rfl rfl h.irq
  | some r =>
    cases r with
    | rx =>
      simp only
      by_cases hd : s.dev.priv.dlab
      · rw [if_pos hd]
        exact h.setDev rfl rfl (hsame _ rfl rfl rfl)
      · rw [if_neg hd]
        have hl : s.dev.priv.lsr ||| (uartLsrTemt ||| uartLsrThre) = s.dev.priv.lsr := by
          rw [h.lsr]
          exact (lsrOf_tx xs).2.2
        exact h.setDev rfl hl fun _ => serialUpdateIrq_inStep (hl.trans h.lsr)
    | ier =>
      simp only
      by_cases hd : s.dev.priv.dlab
      · rw [if_pos hd]
        exact h.setDev rfl rfl (hsame _ rfl rfl rfl)
      · rw [if_neg hd]
        exact h.setDev rfl rfl fun _ => serialUpdateIrq_inStep h.lsr
    | iir => exact h.setDev rfl rfl (hsame _ rfl rfl rfl)
    | lcr => exact h.setDev rfl rfl (hsame _ rfl rfl rfl)
    | mcr => exact h.setDev rfl rfl (hsame _ rfl rfl rfl)
    | lsr => exact h.setDev rfl rfl h.irq
    | msr => exact h.setDev rfl rfl h.irq
    | scr => exact h.setDev rfl rfl (hsame _ rfl rfl rfl)

theorem serialOp_rx (offset : Nat) (data : UInt8) (hreg : uartReg offset = some .rx)
    (hd : s.dev.priv.dlab = false) (hlock : s.worker.hasLock = false) :
    s.serialOp false offset data =
      some
        { s with
          dev := (serialInRx s.dev data).dev
          worker := if (serialInRx s.dev data).signal then s.worker.signal else s.worker
          obtained :=
            if s.dev.priv.lsr &&& uartLsrDr ≠ 0 then s.obtained ++ [(serialInRx s.dev data).data]
            else s.obtained } := by
  have hin : serialIn s.dev offset data = serialInRx s.dev data := by
    simp [serialIn, hreg, hd]
  simp [serialOp, hin, hlock, obtains, hreg, hd]

theorem serialOp_inv (h : s.Inv xs) (hexit : s.worker ≠ .exited) {isWrite : Bool} {offset : Nat}
    {data : UInt8} (hio : s.serialOp isWrite offset data = some s') : ∃ ys, s'.Inv ys := by
  cases isWrite with
  | true =>
    simp only [serialOp, if_true] at hio
    split at hio
    · cases hio
    · cases hio
      exact ⟨xs, serialOut_inv h _ data⟩
  | false =>
    by_cases hrx : uartReg offset = some .rx ∧ s.dev.priv.dlab = false
    · have hlock : s.worker.hasLock = false := by
        by_contra hl
        simp [serialOp, SerialDevPriv.locks, hrx.1, hrx.2, hl] at hio
      rw [serialOp_rx offset data hrx.1 hrx.2 hlock] at hio
      cases hio
      exact ⟨xs.tail, rx_inv h hlock hexit data⟩
    · obtain ⟨hdev, hsig⟩ := serialIn_other data hrx
      have hob : s.obtains offset = false := by
        by_contra ho
        simp only [obtains, Bool.not_eq_false, Bool.and_eq_true, decide_eq_true_eq,
          Bool.not_eq_true'] at ho
        exact hrx ho.1
      simp only [serialOp, hdev, hsig, hob, Bool.false_eq_true, if_false] at hio
      split at hio
      · cases hio
      · cases hio
        exact ⟨xs, h⟩

/-! ## Steps of the worker -/

theorem consoleByte_put {c : UInt8} {rxBuf : Fifo} (hx : ¬ (s.escaped ∧ c = terminalExitChar))
    (ha : ¬ (¬ s.escaped ∧ c = terminalEscapeChar))
    (hput : fifoPut s.dev.priv.rxBuf c = (true, rxBuf)) :
    s.consoleByte c =
      { s with
        escaped := false
        dev := { s.dev with
          priv := { s.dev.priv with rxBuf := rxBuf, lsr := s.dev.priv.lsr ||| uartLsrDr } }
        worker := .console } := by
  unfold consoleByte
  rw [if_neg hx, if_neg ha, hput]

theorem escape_passes {e : Bool} {c : UInt8} (hx : ¬ (e ∧ c = terminalExitChar))
    (ha : ¬ (¬ e ∧ c = terminalEscapeChar)) :
    escapeFilter e [c] = [c] ∧ escapeState e [c] = some false := by
  cases e with
  | false =>
    have hc : c ≠ terminalEscapeChar := by simpa using ha
    simp [escapeFilter, escapeState, hc]
  | true =>
    have hc : c ≠ terminalExitChar := by simpa using hx
    simp [escapeFilter, escapeState, hc]

/-- A byte that was read, `s.consumed` ending with it, goes through the filter into `rx_buf`. -/
theorem consoleByte_inv {c : UInt8} (hf : FifoHolds s.dev.priv.rxBuf xs)
    (hlsr : s.dev.priv.lsr = lsrOf xs) (hroom : xs.length < fifoLen)
    (hfilter : escapeFilter false s.consumed = s.obtained ++ xs ++ escapeFilter s.escaped [c])
    (hstate : escapeState false s.consumed = escapeState s.escaped [c]) :
    ∃ ys, (s.consoleByte c).Inv ys := by
  by_cases hx : s.escaped ∧ c = terminalExitChar
  · have hend : s.consoleByte c = { s with worker := .exited } := if_pos hx
    have he : escapeFilter s.escaped [c] = [] ∧ escapeState s.escaped [c] = none := by
      simp [hx.1, hx.2, escapeFilter, escapeState]
    rw [he.1, List.append_nil] at hfilter
    rw [hend]
    exact ⟨xs, .ofPass (.inr rfl) hf hlsr hfilter (fun hne => absurd rfl hne) fun _ =>
      hstate.trans he.2⟩
  · by_cases ha : ¬ s.escaped ∧ c = terminalEscapeChar
    · have hesc : s.consoleByte c = { s with escaped := true, worker := .console } :=
        (if_neg hx).trans (if_pos ha)
      have he : escapeFilter s.escaped [c] = [] ∧ escapeState s.escaped [c] = some true := by
        simp [ha.1, ha.2, escapeFilter, escapeState]
      rw [he.1, List.append_nil] at hfilter
      rw [he.2] at hstate
      rw [hesc]
      exact ⟨xs, .ofPass (.inl rfl) hf hlsr hfilter (fun _ => hstate) fun hw => by cases hw⟩
    · obtain ⟨rxBuf, hput, hf'⟩ := fifoPut_ok hf hroom c
      obtain ⟨hpass, hnext⟩ := escape_passes hx ha
      rw [hpass, List.append_assoc] at hfilter
      rw [hnext] at hstate
      rw [consoleByte_put hx ha hput]
      refine ⟨xs ++ [c], .ofPass (.inl rfl) hf' ?_ hfilter (fun _ => hstate) fun hw => by cases hw⟩
      rw [← lsrOf_set, ← hlsr]

/-- The worker may go to `w` without touching anything. -/
structure MovesTo (s : SerialSys) (w : Worker) : Prop where
  alive : s.worker ≠ .exited
  goesOn : w ≠ .exited
  pass : w.inPass = false → s.worker.inPass = false
  full : w = .waiting false → fifoIsFull s.dev.priv.rxBuf = true
  room : w = .read → ¬ fifoIsFull s.dev.priv.rxBuf = true

/-- What a step of the worker can do. -/
theorem workerStep_cases {host : Bool} (hs : s.workerStep host = some s') :
    (∃ w, s.MovesTo w ∧ s' = { s with worker := w }) ∨
    (s.worker = .read ∧ ∃ c input, s.input = c :: input ∧
      s' = { s with input := input, consumed := s.consumed ++ [c] }.consoleByte c) ∨
    (s.worker = .updateIrq ∧ s' = { s with dev := serialUpdateIrq s.dev, worker := .unlock }) := by
  unfold workerStep at hs
  cases hw : s.worker with
  | loop =>
    simp only [hw, Option.some.injEq] at hs
    refine .inl ⟨_, ?_, hs.symm⟩
    split <;> constructor <;> simp [hw, Worker.inPass]
  | poll =>
    simp only [hw, Option.some.injEq] at hs
    refine .inl ⟨_, ?_, hs.symm⟩
    split <;> constructor <;> simp [hw, Worker.inPass]
  | lock =>
    simp only [hw, Option.some.injEq] at hs
    refine .inl ⟨_, ?_, hs.symm⟩
    constructor <;> simp [hw, Worker.inPass]
  | test =>
    simp only [hw, Option.some.injEq] at hs
    refine .inl ⟨_, ?_, hs.symm⟩
    split
    · rename_i hfull
      constructor <;> simp [hw, hfull, Worker.inPass]
    · constructor <;> simp [hw, Worker.inPass]
  | waiting signalled =>
    simp only [hw] at hs
    split at hs
    · refine .inl ⟨_, ?_, (Option.some.inj hs).symm⟩
      constructor <;> simp [hw, Worker.inPass]
    · cases hs
  | relock =>
    simp only [hw, Option.some.injEq] at hs
    refine .inl ⟨_, ?_, hs.symm⟩
    constructor <;> simp [hw, Worker.inPass]
  | console =>
    simp only [hw, Option.some.injEq] at hs
    refine .inl ⟨_, ?_, hs.symm⟩
    split
    · rename_i hroom
      constructor <;> simp [hw, hroom.1, Worker.inPass]
    · constructor <;> simp [hw, Worker.inPass]
  | read =>
    simp only [hw] at hs
    split at hs
    · rename_i c input hin
      exact .inr (.inl ⟨rfl, c, input, hin, (Option.some.inj hs).symm⟩)
    · refine .inl ⟨_, ?_, (Option.some.inj hs).symm⟩
      constructor <;> simp [hw, Worker.inPass]
  | updateIrq =>
    simp only [hw, Option.some.injEq] at hs
    exact .inr (.inr ⟨rfl, hs.symm⟩)
  | unlock =>
    simp only [hw, Option.some.injEq] at hs
    refine .inl ⟨_, ?_, hs.symm⟩
    constructor <;> simp [hw, Worker.inPass]
  | returned => simp only [hw] at hs; cases hs
  | exited => simp only [hw] at hs; cases hs

theorem workerStep_inv (h : s.Inv xs) {host : Bool} (hs : s.workerStep host = some s') :
    ∃ ys, s'.Inv ys := by
  rcases workerStep_cases hs with ⟨w, hm, rfl⟩ | ⟨hw, c, input, -, rfl⟩ | ⟨hw, rfl⟩
  · refine ⟨xs, h.move hm.pass hm.alive ?_ hm.goesOn ?_⟩
    · intro hwait
      rw [(fifoIsFull_iff h.fifo).mp (hm.full hwait)]
      decide
    · intro hread
      have hle := h.fifo.le
      have hne : xs.length ≠ fifoLen := fun he => hm.room hread ((fifoIsFull_iff h.fifo).mpr he)
      omega
  · obtain ⟨hfilter, hstate⟩ := escape_snoc (h.escaped (by rw [hw]; decide)) c
    rw [h.stream] at hfilter
    exact consoleByte_inv h.fifo h.lsr (h.room hw) hfilter hstate
  · refine ⟨xs, h.fifo, h.lsr, fun _ => serialUpdateIrq_inStep h.lsr, h.stream, ?_, ?_, ?_, ?_⟩
    · intro _
      exact h.escaped (by rw [hw]; decide)
    all_goals
      intro hw
      cases hw

/-! ## Runs -/

theorem step_inv (h : s.Inv xs) {e : SerialEvent} (hs : s.step e = some s') : ∃ ys, s'.Inv ys := by
  unfold step at hs
  split at hs
  · cases hs
  · rename_i hexit
    cases e with
    | arrive c =>
      cases hs
      exact ⟨xs, h.fifo, h.lsr, h.irq, h.stream, h.escaped, h.ended, h.waiting, h.room⟩
    | guest isWrite offset data => exact serialOp_inv h hexit hs
    | worker host => exact workerStep_inv h hs
    | stop =>
      cases hs
      exact ⟨xs, h.fifo, h.lsr, h.irq, h.stream, h.escaped, h.ended, h.waiting, h.room⟩

theorem run_inv {es : List SerialEvent} : ∀ {s : SerialSys} {xs : List UInt8}, s.Inv xs →
    s.run es = some s' → ∃ ys, s'.Inv ys := by
  induction es with
  | nil =>
    intro s xs h hrun
    cases hrun
    exact ⟨xs, h⟩
  | cons e es ih =>
    intro s xs h hrun
    obtain ⟨s₁, hs, hrest⟩ := Option.bind_eq_some_iff.mp hrun
    obtain ⟨ys, h₁⟩ := step_inv h hs
    exact ih h₁ hrest

/-- The input that arrives. -/
def arrivals : List SerialEvent → List UInt8
  | [] => []
  | .arrive c :: es => c :: arrivals es
  | _ :: es => arrivals es

theorem consoleByte_input (s : SerialSys) (c : UInt8) :
    (s.consoleByte c).input = s.input ∧ (s.consoleByte c).consumed = s.consumed := by
  unfold consoleByte
  split
  · exact ⟨rfl, rfl⟩
  · split
    · exact ⟨rfl, rfl⟩
    · split <;> exact ⟨rfl, rfl⟩

theorem serialOp_input {isWrite : Bool} {offset : Nat} {data : UInt8}
    (hio : s.serialOp isWrite offset data = some s') :
    s'.input = s.input ∧ s'.consumed = s.consumed := by
  unfold serialOp at hio
  split at hio
  · cases hio
  · split at hio <;> cases hio <;> exact ⟨rfl, rfl⟩

/-- Input is taken in order and none of it is put back. -/
theorem step_input {e : SerialEvent} (hs : s.step e = some s') :
    s'.consumed ++ s'.input = s.consumed ++ s.input ++ arrivals [e] := by
  unfold step at hs
  split at hs
  · cases hs
  · cases e with
    | arrive c =>
      cases hs
      simp [arrivals]
    | guest isWrite offset data =>
      obtain ⟨hin, hcon⟩ := serialOp_input hs
      simp [hin, hcon, arrivals]
    | worker host =>
      rcases workerStep_cases hs with ⟨w, -, rfl⟩ | ⟨-, c, input, hin, rfl⟩ | ⟨-, rfl⟩
      · simp [arrivals]
      · obtain ⟨h1, h2⟩ :=
          consoleByte_input { s with input := input, consumed := s.consumed ++ [c] } c
        rw [h1, h2, hin]
        simp [arrivals]
      · simp [arrivals]
    | stop =>
      cases hs
      simp [arrivals]

theorem arrivals_cons (e : SerialEvent) (es : List SerialEvent) :
    arrivals (e :: es) = arrivals [e] ++ arrivals es := by
  cases e <;> rfl

theorem run_input {es : List SerialEvent} : ∀ {s : SerialSys}, s.run es = some s' →
    s'.consumed ++ s'.input = s.consumed ++ s.input ++ arrivals es := by
  induction es with
  | nil =>
    intro s hrun
    cases hrun
    simp [arrivals]
  | cons e es ih =>
    intro s hrun
    obtain ⟨s₁, hs, hrest⟩ := Option.bind_eq_some_iff.mp hrun
    rw [ih hrest, step_input hs, arrivals_cons e es, List.append_assoc]

/-- **The serial input stream.** What the guest obtained is what it was sent, in order: the filtered
bytes read so far are what the guest obtained followed by the content of `rx_buf`, so it obtained a
prefix of the filtered input, whatever arrives later. The process has ended exactly if the bytes
read end with an escaped `x`. -/
theorem serial_input_stream {es : List SerialEvent} (h : init.run es = some s) :
    s.consumed ++ s.input = arrivals es ∧
      (∃ xs, FifoHolds s.dev.priv.rxBuf xs ∧ escapeFilter false s.consumed = s.obtained ++ xs) ∧
      (∀ later, s.obtained <+: escapeFilter false (arrivals es ++ later)) ∧
      (s.worker = .exited ↔ escapeState false s.consumed = none) := by
  obtain ⟨xs, hinv⟩ := run_inv init_inv h
  have hinput : s.consumed ++ s.input = arrivals es := run_input h
  refine ⟨hinput, ⟨xs, hinv.fifo, hinv.stream⟩, ?_, ?_⟩
  · intro later
    rw [← hinput, List.append_assoc]
    have hpre : s.obtained <+: escapeFilter false s.consumed := ⟨xs, hinv.stream.symm⟩
    exact hpre.trans (escapeFilter_mono _ _ _)
  · refine ⟨hinv.ended, ?_⟩
    intro hnone
    by_contra hne
    rw [hinv.escaped hne] at hnone
    cases hnone

/-- `A`, an escaped 0x01 and a pass of the worker, then a read of RX. -/
def typedInput : List SerialEvent :=
  [.arrive 0x41, .arrive 0x01, .arrive 0x01] ++ List.replicate 14 (.worker true) ++
    [.guest false 0 0]

theorem serial_input_stream_typed :
    ∃ s, init.run typedInput = some s ∧ s.obtained = [0x41] ∧
      s.obtained <+: escapeFilter false [0x41, 0x01, 0x01, 0x42] ∧
      ∃ xs, FifoHolds s.dev.priv.rxBuf xs ∧ [0x41, 0x01] = s.obtained ++ xs := by
  have hrun : (init.run typedInput).map (fun s => (s.obtained, s.consumed)) =
      some ([0x41], [0x41, 0x01, 0x01]) := by decide +kernel
  obtain ⟨s, hs, hval⟩ := Option.map_eq_some_iff.mp hrun
  simp only [Prod.mk.injEq] at hval
  obtain ⟨-, ⟨xs, hf, hx⟩, hpre, -⟩ := serial_input_stream hs
  refine ⟨s, hs, hval.1, hpre [0x42], xs, hf, ?_⟩
  rw [← hx, hval.2]
  decide

/-- **UART interrupt coherence.** Whenever the lock is free, `LSR`, `IIR` and the IRQ line agree
with `IER` and `rx_buf`. -/
theorem uart_irq_coherent {es : List SerialEvent} (h : init.run es = some s)
    (hlock : s.worker.hasLock = false) :
    (s.dev.priv.lsr &&& uartLsrDr ≠ 0 ↔ fifoIsEmpty s.dev.priv.rxBuf = false) ∧
      s.dev.priv.lsr &&& uartLsrTemt ≠ 0 ∧ s.dev.priv.lsr &&& uartLsrThre ≠ 0 ∧
      (s.dev.level =
        if (s.dev.priv.ier &&& uartIerRdi ≠ 0 ∧ fifoIsEmpty s.dev.priv.rxBuf = false) ∨
          s.dev.priv.ier &&& uartIerThri ≠ 0 then 1 else 0) ∧
      ∀ data, (serialIn s.dev 2 data).data =
        0xc0 ||| (if s.dev.priv.ier &&& uartIerRdi ≠ 0 ∧ fifoIsEmpty s.dev.priv.rxBuf = false then
          uartIirRdi
          else if s.dev.priv.ier &&& uartIerThri ≠ 0 then uartIirThri else uartIirNoInt) := by
  obtain ⟨xs, hinv⟩ := run_inv init_inv h
  have hirq := hinv.irq (inPass_of_unlocked hlock)
  have hempty : fifoIsEmpty s.dev.priv.rxBuf = false ↔ xs ≠ [] := by
    rw [ne_eq, ← fifoIsEmpty_iff hinv.fifo, Bool.not_eq_true]
  rw [hinv.lsr]
  simp only [hempty]
  refine ⟨lsrOf_dr xs, (lsrOf_tx xs).1, (lsrOf_tx xs).2.1, ?_, ?_⟩
  · rw [hirq.level, irqOf]
    by_cases hr : s.dev.priv.ier &&& uartIerRdi ≠ 0 ∧ xs ≠ []
    · rw [if_pos hr, if_neg (by decide)]
      exact (if_pos (.inl hr)).symm
    · by_cases ht : s.dev.priv.ier &&& uartIerThri ≠ 0
      · rw [if_neg hr, if_pos ht, if_neg (by decide)]
        exact (if_pos (.inr ht)).symm
      · rw [if_neg hr, if_neg ht, if_pos rfl]
        exact (if_neg (not_or.mpr ⟨hr, ht⟩)).symm
  · intro data
    show s.dev.priv.iir ||| 0xc0 = _
    rw [hirq.iir, UInt8.or_comm]
    rfl

/-- Receive interrupts enabled, then a byte. -/
def receiveOne : List SerialEvent :=
  [.guest true 1 uartIerRdi, .arrive 0x41] ++ List.replicate 10 (.worker true)

theorem uart_irq_coherent_receive :
    ∃ s, init.run receiveOne = some s ∧ s.worker.hasLock = false ∧ s.dev.level = 1 ∧
      (serialIn s.dev 2 0).data = 0xc4 := by
  have hrun : (init.run receiveOne).map
      (fun s => (s.worker, s.dev.priv.ier, fifoIsEmpty s.dev.priv.rxBuf)) =
      some (.loop, uartIerRdi, false) := by decide +kernel
  obtain ⟨s, hs, hval⟩ := Option.map_eq_some_iff.mp hrun
  simp only [Prod.mk.injEq] at hval
  obtain ⟨hw, hier, hne⟩ := hval
  have hlock : s.worker.hasLock = false := by rw [hw]; rfl
  obtain ⟨-, -, -, hlevel, hiir⟩ := uart_irq_coherent hs hlock
  rw [hier, hne] at hlevel hiir
  exact ⟨s, hs, hlock, hlevel.trans (by decide), (hiir 0).trans (by decide)⟩

/-! ## Draining `rx_buf` -/

theorem serialInRx_dlab (dev : SerialDev) (data : UInt8) :
    (serialInRx dev data).dev.priv.dlab = dev.priv.dlab := by
  unfold serialInRx
  simp only
  split <;> rfl

/-- A read of RX while the worker waits. -/
theorem drain_step (h : s.Inv xs) {b : Bool} (hw : s.worker = .waiting b)
    (hd : s.dev.priv.dlab = false) (data : UInt8) :
    ∃ s' b', s.step (.guest false 0 data) = some s' ∧ s'.Inv xs.tail ∧ s'.worker = .waiting b' ∧
      s'.dev.priv.dlab = false := by
  have hlock : s.worker.hasLock = false := by rw [hw]; rfl
  have hexit : s.worker ≠ .exited := by rw [hw]; simp
  have hop := serialOp_rx 0 data rfl hd hlock
  have hstep : s.step (.guest false 0 data) = s.serialOp false 0 data := if_neg hexit
  refine ⟨_, b || (serialInRx s.dev data).signal, hstep.trans hop, rx_inv h hlock hexit data, ?_,
    ?_⟩
  · simp only [hw]
    cases (serialInRx s.dev data).signal with
    | false => rw [Bool.or_false]; rfl
    | true => rw [Bool.or_true]; rfl
  · exact (serialInRx_dlab s.dev data).trans hd

theorem drain_run (ds : List UInt8) :
    ∀ {s : SerialSys} {xs : List UInt8} {b : Bool}, s.Inv xs →
    s.worker = .waiting b → s.dev.priv.dlab = false →
    ∃ s' b', s.run (ds.map (.guest false 0)) = some s' ∧ s'.Inv (xs.drop ds.length) ∧
      s'.worker = .waiting b' := by
  induction ds with
  | nil =>
    intro s xs b h hw _
    exact ⟨s, b, rfl, h, hw⟩
  | cons d ds ih =>
    intro s xs b h hw hd
    obtain ⟨s₁, b₁, hs, h₁, hw₁, hd₁⟩ := drain_step h hw hd d
    obtain ⟨s', b', hrun, h', hw'⟩ := ih h₁ hw₁ hd₁
    refine ⟨s', b', ?_, ?_, hw'⟩
    · unfold run
      rw [List.map_cons, List.foldlM_cons, hs]
      exact hrun
    · rw [List.drop_tail] at h'
      exact h'

/-- **No lost wake-up.** While the worker waits on the condition variable with no signal sent to it,
`rx_buf` is more than half full; and reads of RX that bring it down to half or below release the
worker. -/
theorem serial_no_lost_wakeup {es : List SerialEvent} (h : init.run es = some s)
    (hw : s.worker = .waiting false) :
    fifoLen / 2 < fifoCapacity s.dev.priv.rxBuf ∧
      ∀ ds : List UInt8, s.dev.priv.dlab = false →
        fifoCapacity s.dev.priv.rxBuf ≤ ds.length + fifoLen / 2 →
        ∃ s', s.run (ds.map (.guest false 0)) = some s' ∧ s'.worker = .waiting true ∧
          s'.workerStep false = some { s' with worker := .relock } := by
  obtain ⟨xs, hinv⟩ := run_inv init_inv h
  rw [fifoCapacity_eq hinv.fifo]
  refine ⟨hinv.waiting hw, ?_⟩
  intro ds hd hlen
  obtain ⟨s', b, hrun, h', hw'⟩ := drain_run ds hinv hw hd
  have hb : b = true := by
    by_contra hb
    have hfalse : b = false := by simpa using hb
    have := h'.waiting (hfalse ▸ hw')
    rw [List.length_drop] at this
    omega
  subst hb
  refine ⟨s', hrun, hw', ?_⟩
  unfold workerStep
  rw [hw']
  rfl

/-- 65 bytes, of which 64 fill `rx_buf`, and a worker that comes back for the last one. -/
def fullInput : List SerialEvent :=
  List.replicate 65 (.arrive 0x61) ++ List.replicate 139 (.worker true)

theorem serial_no_lost_wakeup_full :
    ∃ s, init.run fullInput = some s ∧ s.worker = .waiting false ∧
      32 < fifoCapacity s.dev.priv.rxBuf ∧
      ∃ s', s.run ((List.replicate 32 0).map (.guest false 0)) = some s' ∧
        s'.worker = .waiting true := by
  have hrun : (init.run fullInput).map
      (fun s => (s.worker, fifoCapacity s.dev.priv.rxBuf, s.dev.priv.dlab)) =
      some (.waiting false, 64, false) := by decide +kernel
  obtain ⟨s, hs, hval⟩ := Option.map_eq_some_iff.mp hrun
  simp only [Prod.mk.injEq] at hval
  obtain ⟨hw, hcap, hd⟩ := hval
  obtain ⟨hlt, hdrain⟩ := serial_no_lost_wakeup hs hw
  obtain ⟨s', hrun', hw', -⟩ := hdrain (List.replicate 32 0) hd (by rw [hcap]; decide)
  exact ⟨s, hs, hw, hlt, s', hrun', hw'⟩

end SerialSys
end KvmHost
