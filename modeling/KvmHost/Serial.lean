import KvmHost.Fifo

/-!
# KvmHost.Serial

The serial port of `serial.c`: its registers, the guest's accesses to them, and the worker thread
that moves bytes of the host's input into `rx_buf`.

The guest has one thread, so there are two: the worker, and whoever makes the guest's accesses.
`Worker` is the place of the worker in `serial_thread` and `serial_console`. It is the only one that
holds the lock over more than one step: an access that takes the lock is one step, possible while
the worker does not hold it, and the others are possible at any time. What the host decides is part
of the event: the answer of `poll`, whether `read` fails, and a spurious return of
`pthread_cond_wait`.

`consumed` and `obtained` are not in the source. The first is what was read from the host, the
second what the guest got from reads of RX with DLAB clear while `LSR.DR` was set.
-/

namespace KvmHost

-- linux/serial_reg.h
def uartIerRdi : UInt8 := 0x01
def uartIerThri : UInt8 := 0x02
def uartIirNoInt : UInt8 := 0x01
def uartIirThri : UInt8 := 0x02
def uartIirRdi : UInt8 := 0x04
def uartLcrDlab : UInt8 := 0x80
def uartMcrOut2 : UInt8 := 0x08
def uartLsrDr : UInt8 := 0x01
def uartLsrThre : UInt8 := 0x20
def uartLsrTemt : UInt8 := 0x40
def uartMsrCts : UInt8 := 0x10
def uartMsrDsr : UInt8 := 0x20
def uartMsrDcd : UInt8 := 0x80

/-- The registers by offset; 0 is TX and 2 is FCR in a write. -/
inductive UartReg where
  | rx
  | ier
  | iir
  | lcr
  | mcr
  | lsr
  | msr
  | scr
deriving DecidableEq

def uartReg : Nat → Option UartReg
  | 0 => some .rx
  | 1 => some .ier
  | 2 => some .iir
  | 3 => some .lcr
  | 4 => some .mcr
  | 5 => some .lsr
  | 6 => some .msr
  | 7 => some .scr
  | _ => none

structure SerialDevPriv where
  dll : UInt8
  dlm : UInt8
  iir : UInt8
  ier : UInt8
  fcr : UInt8
  lcr : UInt8
  mcr : UInt8
  lsr : UInt8
  msr : UInt8
  scr : UInt8
  rxBuf : Fifo

/-- The device with what it has done outside: the level last passed to `vm_irq_line`, and standard
output. -/
structure SerialDev where
  priv : SerialDevPriv
  level : Nat
  out : List UInt8

def serialDevPriv : SerialDevPriv where
  dll := 0
  dlm := 0
  iir := uartIirNoInt
  ier := 0
  fcr := 0
  lcr := 0
  mcr := uartMcrOut2
  lsr := uartLsrTemt ||| uartLsrThre
  msr := uartMsrDcd ||| uartMsrDsr ||| uartMsrCts
  scr := 0
  rxBuf := ⟨fun _ => 0, 0, 0⟩

def SerialDevPriv.dlab (priv : SerialDevPriv) : Bool := decide (priv.lcr &&& uartLcrDlab ≠ 0)

def serialUpdateIrq (dev : SerialDev) : SerialDev :=
  let iir :=
    if dev.priv.ier &&& uartIerRdi ≠ 0 ∧ dev.priv.lsr &&& uartLsrDr ≠ 0 then uartIirRdi
    else if dev.priv.ier &&& uartIerThri ≠ 0 ∧ dev.priv.lsr &&& uartLsrTemt ≠ 0 then uartIirThri
    else uartIirNoInt
  { dev with
    priv := { dev.priv with iir := iir ||| 0xc0 }
    level := if iir = uartIirNoInt then 0 else 1 }

/-! ## Accesses of the guest -/

/-- What a read leaves: the byte of `data`, the device, and whether the condition variable was
signalled. -/
structure SerialInResult where
  data : UInt8
  dev : SerialDev
  signal : Bool

/-- RX with DLAB clear, under the lock. -/
def serialInRx (dev : SerialDev) (data : UInt8) : SerialInResult :=
  let (value, rxBuf) := fifoGet dev.priv.rxBuf
  let dev := { dev with priv := { dev.priv with rxBuf := rxBuf } }
  let dev :=
    if fifoIsEmpty rxBuf then
      serialUpdateIrq { dev with priv := { dev.priv with lsr := dev.priv.lsr &&& ~~~uartLsrDr } }
    else dev
  ⟨value.getD data, dev, decide (fifoCapacity rxBuf = fifoLen / 2)⟩

def serialIn (dev : SerialDev) (offset : Nat) (data : UInt8) : SerialInResult :=
  match uartReg offset with
  | some .rx => if dev.priv.dlab then ⟨dev.priv.dll, dev, false⟩ else serialInRx dev data
  | some .ier => if dev.priv.dlab then ⟨dev.priv.dlm, dev, false⟩ else ⟨dev.priv.ier, dev, false⟩
  -- 0xc0 stands for FIFO enabled
  | some .iir => ⟨dev.priv.iir ||| 0xc0, dev, false⟩
  | some .lcr => ⟨dev.priv.lcr, dev, false⟩
  | some .mcr => ⟨dev.priv.mcr, dev, false⟩
  | some .lsr => ⟨dev.priv.lsr, dev, false⟩
  | some .msr => ⟨dev.priv.msr, dev, false⟩
  | some .scr => ⟨dev.priv.scr, dev, false⟩
  | none => ⟨data, dev, false⟩

def serialOut (dev : SerialDev) (offset : Nat) (data : UInt8) : SerialDev :=
  match uartReg offset with
  | some .rx =>
    if dev.priv.dlab then { dev with priv := { dev.priv with dll := data } }
    else
      serialUpdateIrq
        { dev with
          priv := { dev.priv with lsr := dev.priv.lsr ||| (uartLsrTemt ||| uartLsrThre) }
          out := dev.out ++ [data] }
  | some .ier =>
    if dev.priv.dlab then { dev with priv := { dev.priv with dlm := data } }
    else serialUpdateIrq { dev with priv := { dev.priv with ier := data } }
  | some .iir => { dev with priv := { dev.priv with fcr := data } }
  | some .lcr => { dev with priv := { dev.priv with lcr := data } }
  | some .mcr => { dev with priv := { dev.priv with mcr := data } }
  | some .lsr => dev
  | some .msr => dev
  | some .scr => { dev with priv := { dev.priv with scr := data } }
  | none => dev

/-- The access takes the lock. -/
def SerialDevPriv.locks (priv : SerialDevPriv) (isWrite : Bool) (offset : Nat) : Bool :=
  match uartReg offset with
  | some .rx => !priv.dlab
  | some .ier => isWrite && !priv.dlab
  | _ => false

/-! ## The worker -/

/-- Where the worker is. -/
inductive Worker where
  /-- at the condition of the loop in `serial_thread` -/
  | loop
  | poll
  | lock
  /-- has the lock and is about to test `rx_buf` -/
  | test
  /-- in `pthread_cond_wait`, signalled or not -/
  | waiting (signalled : Bool)
  /-- woken, and waiting for the lock -/
  | relock
  /-- at the condition of the loop in `serial_console` -/
  | console
  | read
  | updateIrq
  | unlock
  | returned
  /-- `exit(0)` -/
  | exited
deriving DecidableEq

namespace Worker

def hasLock : Worker → Bool
  | test => true
  | console => true
  | read => true
  | updateIrq => true
  | unlock => true
  -- `exit` does not give it back
  | exited => true
  | _ => false

-- `pthread_cond_signal`
def signal : Worker → Worker
  | waiting _ => waiting true
  | w => w

end Worker

def terminalEscapeChar : UInt8 := 0x01
def terminalExitChar : UInt8 := 0x78

structure SerialSys where
  dev : SerialDev
  /-- the static of `serial_console` -/
  escaped : Bool
  worker : Worker
  threadStop : Bool
  /-- arrived and not yet read -/
  input : List UInt8
  consumed : List UInt8
  obtained : List UInt8

namespace SerialSys

def init : SerialSys where
  dev := ⟨serialDevPriv, 0, []⟩
  escaped := false
  worker := .loop
  threadStop := false
  input := []
  consumed := []
  obtained := []

/-- The body of the loop in `serial_console`, after `read` returned `c`. -/
def consoleByte (s : SerialSys) (c : UInt8) : SerialSys :=
  if s.escaped ∧ c = terminalExitChar then { s with worker := .exited }
  else if ¬ s.escaped ∧ c = terminalEscapeChar then { s with escaped := true, worker := .console }
  else
    match fifoPut s.dev.priv.rxBuf c with
    | (false, _) => { s with escaped := false, worker := .updateIrq }
    | (true, rxBuf) =>
      { s with
        escaped := false
        dev := { s.dev with
          priv := { s.dev.priv with rxBuf := rxBuf, lsr := s.dev.priv.lsr ||| uartLsrDr } }
        worker := .console }

/-- A step of the worker; `none` if it cannot take one. -/
def workerStep (s : SerialSys) (host : Bool) : Option SerialSys :=
  match s.worker with
  | .loop => some { s with worker := if s.threadStop then .returned else .poll }
  | .poll => some { s with worker := if host then .lock else .loop }
  | .lock => some { s with worker := .test }
  | .test =>
    some { s with worker := if fifoIsFull s.dev.priv.rxBuf then .waiting false else .console }
  | .waiting signalled => if signalled ∨ host then some { s with worker := .relock } else none
  | .relock => some { s with worker := .console }
  | .console =>
    some { s with worker := if ¬ fifoIsFull s.dev.priv.rxBuf ∧ host then .read else .updateIrq }
  | .read =>
    match host, s.input with
    | true, c :: input =>
      some ({ s with input := input, consumed := s.consumed ++ [c] }.consoleByte c)
    | _, _ => some { s with worker := .updateIrq }
  | .updateIrq => some { s with dev := serialUpdateIrq s.dev, worker := .unlock }
  | .unlock => some { s with worker := .loop }
  | .returned => none
  | .exited => none

/-- The read of RX counts: DLAB is clear and `LSR.DR` set. -/
def obtains (s : SerialSys) (offset : Nat) : Bool :=
  decide (uartReg offset = some .rx) && !s.dev.priv.dlab &&
    decide (s.dev.priv.lsr &&& uartLsrDr ≠ 0)

/-- `serial_op`: `none` while it waits for the lock. -/
def serialOp (s : SerialSys) (isWrite : Bool) (offset : Nat) (data : UInt8) : Option SerialSys :=
  if s.dev.priv.locks isWrite offset ∧ s.worker.hasLock then none
  else if isWrite then some { s with dev := serialOut s.dev offset data }
  else
    let res := serialIn s.dev offset data
    some
      { s with
        dev := res.dev
        worker := if res.signal then s.worker.signal else s.worker
        obtained := if s.obtains offset then s.obtained ++ [res.data] else s.obtained }

-- `serial_in` and `serial_out` take a `uint16_t`
def serialHandleIo (s : SerialSys) (isWrite : Bool) (offset : Nat) (data : UInt8) :
    Option SerialSys :=
  s.serialOp isWrite (offset % 2 ^ 16) data

end SerialSys

inductive SerialEvent where
  /-- a byte of host input -/
  | arrive (c : UInt8)
  | guest (isWrite : Bool) (offset : Nat) (data : UInt8)
  | worker (host : Bool)
  /-- `serial_exit` -/
  | stop
deriving DecidableEq

namespace SerialSys

def step (s : SerialSys) (e : SerialEvent) : Option SerialSys :=
  if s.worker = .exited then none
  else
    match e with
    | .arrive c => some { s with input := s.input ++ [c] }
    | .guest isWrite offset data => s.serialHandleIo isWrite offset data
    | .worker host => s.workerStep host
    | .stop => some { s with threadStop := true }

def run (s : SerialSys) (es : List SerialEvent) : Option SerialSys := es.foldlM step s

end SerialSys

end KvmHost
