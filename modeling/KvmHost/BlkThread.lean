import KvmHost.BlkArray
import KvmHost.BlkBatch
import KvmHost.Lib.Doorbell
import KvmHost.Lib.Turns
import KvmHost.VirtioPci

/-!
# KvmHost.BlkThread

The two threads of the block device, the eventfd between them and the guest.

A guest write of four bytes to the notify address adds one to `ioeventfd`: four is the length that
`virtio_blk_enable_vq` registers. `virtio_blk_vq_avail_handler` blocks in `read` until the counter
is nonzero, takes it back to zero, and runs `virtq_handle_avail`. `virtio_blk_thread` polls the same
eventfd and sends SIGUSR1 to the handler's thread; no handler for that signal is installed, so it
ends the process.

A write of another length, such as two bytes with the number of the queue, is not matched by the
registration. It comes to `virtio_pci_space_write`, and `virtq_handle_avail` runs on the thread of
the vCPU, beside the handler. That thread is not a party here: everything below is about a guest
that kicks with four bytes.

`BlkSys.step` lets the guest and the two threads move in any order, one turn of the request loop at
a time.

* Whatever the guest writes to its memory, a kick is not lost: see `no_kick_lost`. The handler is
  the consumer of a `Doorbell`.
* A driver that publishes well-formed requests, at any time, has them served in order: see
  `published_served`. `Driven` keeps the driver's book beside the device.
-/

namespace KvmHost

open ByteStore Lap Turns

/-- Where the thread of `virtio_blk_vq_avail_handler` is. -/
inductive AvailHandler where
  /-- in `read(dev->ioeventfd, &n, sizeof(n))` -/
  | read
  /-- at `if (!vq->info.enable)` of `virtq_handle_avail` -/
  | enabled
  /-- at the condition of the loop of `virtio_blk_complete_request` -/
  | loop (req : Store)
  /-- at the test of `vq->guest_event->flags` -/
  | event

/-- Where `virtio_blk_thread` is. -/
inductive BlkWorker where
  | loop
  | poll
  | kill
  | returned
deriving DecidableEq, Repr

structure BlkSys where
  dev : VirtioBlkDev
  /-- the counter of the eventfd -/
  ioeventfd : Nat
  handler : AvailHandler
  worker : BlkWorker
  threadStop : Bool
  /-- SIGUSR1 has ended the process -/
  killed : Bool
  /-- the guest has kicked the queue since it last wrote its memory -/
  kicked : Bool
  /-- the last call of `virtio_blk_complete_request` that returned did so inside a chain -/
  cut : Bool

inductive BlkEvent where
  /-- the guest leaves its memory with these bytes -/
  | memory (m : Store)
  /-- the guest writes four bytes to the notify address -/
  | kick
  /-- the handler goes on; `req` is what the stack holds where the local is, at a call -/
  | handler (req : Store)
  | worker
  /-- the store to `thread_stop` in `virtio_blk_exit` -/
  | stop

namespace BlkSys

def handlerStep (s : BlkSys) (req : Store) : Option BlkSys :=
  match s.handler with
  | .read =>
    -- the eventfd blocks at zero, and `read` returns 8 otherwise
    if s.ioeventfd = 0 then none else some { s with ioeventfd := 0, handler := .enabled }
  | .enabled => some { s with handler := if s.dev.vq.enable = 0 then .read else .loop req }
  | .loop req =>
    match Blk.round s.dev req with
    | .ok (.loop, dev, req) => some { s with dev := dev, handler := .loop req }
    | .ok (.ret, dev, _) =>
      some { s with dev := dev, handler := .event, cut := dev.trace != s.dev.trace }
    | .error _ => none
  | .event =>
    match s.dev.ram.load (s.dev.vq.guestEvent.plus 2) 2 with
    | .ok flags =>
      if flags = vringPackedEventFlagEnable then
        match writeIrqfd s.dev with
        | .ok dev => some { s with dev := dev, handler := .read }
        | .error _ => none
      else some { s with handler := .read }
    | .error _ => none

def workerStep (s : BlkSys) : Option BlkSys :=
  match s.worker with
  | .loop => some { s with worker := if s.threadStop then .returned else .poll }
  | .poll => if s.ioeventfd = 0 then none else some { s with worker := .kill }
  | .kill => some { s with killed := true }
  | .returned => none

/-- One step; `none` where the party that is to move is blocked, has ended, or fails. -/
def step (s : BlkSys) (e : BlkEvent) : Option BlkSys :=
  if s.killed then none
  else
    match e with
    | .memory m =>
      some { s with dev := { s.dev with ram := { s.dev.ram with bytes := m } }, kicked := false }
    | .kick => some { s with ioeventfd := Doorbell.signal s.ioeventfd, kicked := true }
    | .handler req => s.handlerStep req
    | .worker => s.workerStep
    | .stop => some { s with threadStop := true }

def run : BlkSys → List BlkEvent → Option BlkSys
  | s, [] => some s
  | s, e :: es => (s.step e).bind fun s' => run s' es

/-- As `virtio_blk_enable_vq` leaves it: the handler is started, and the guest has not kicked the
queue yet. -/
def start (dev : VirtioBlkDev) : BlkSys where
  dev := dev
  ioeventfd := 0
  handler := .read
  worker := .loop
  threadStop := false
  killed := false
  kicked := false
  cut := false

/-! ## What a step can do -/

variable {s s' : BlkSys}

/-- The handler's steps; `dev` is the device it leaves. -/
inductive HandlerStep (s : BlkSys) (req : Store) : BlkSys → Prop where
  | wake : s.handler = .read → s.ioeventfd ≠ 0 →
      HandlerStep s req { s with ioeventfd := 0, handler := .enabled }
  | disabled : s.handler = .enabled → s.dev.vq.enable = 0 →
      HandlerStep s req { s with handler := .read }
  | call : s.handler = .enabled → s.dev.vq.enable ≠ 0 →
      HandlerStep s req { s with handler := .loop req }
  | turn {r r' : Store} {dev : VirtioBlkDev} :
      s.handler = .loop r → Blk.round s.dev r = .ok (.loop, dev, r') →
      HandlerStep s req { s with dev := dev, handler := .loop r' }
  | ret {r r' : Store} {dev : VirtioBlkDev} :
      s.handler = .loop r → Blk.round s.dev r = .ok (.ret, dev, r') →
      HandlerStep s req { s with dev := dev, handler := .event, cut := dev.trace != s.dev.trace }
  | notify {trace : List RingEvent} :
      s.handler = .event → (trace = s.dev.trace ∨ trace = s.dev.trace ++ [.notify]) →
      HandlerStep s req { s with dev := { s.dev with trace := trace }, handler := .read }

theorem handlerStep_cases {req : Store} (h : s.handlerStep req = some s') :
    HandlerStep s req s' := by
  unfold handlerStep at h
  split at h
  · rename_i hr
    split at h
    · cases h
    · cases h
      exact .wake hr ‹_›
  · rename_i hr
    cases h
    by_cases hen : s.dev.vq.enable = 0
    · rw [if_pos hen]
      exact .disabled hr hen
    · rw [if_neg hen]
      exact .call hr hen
  · rename_i r hr
    split at h
    · cases h
      exact .turn hr ‹_›
    · cases h
      exact .ret hr ‹_›
    · cases h
  · rename_i hr
    split at h
    · split at h
      · cases h
        exact .notify hr (.inr rfl)
      · cases h
        exact .notify hr (.inl rfl)
    · cases h

/-- The other parties do not touch the device, but for the guest's memory. -/
inductive Moved (s : BlkSys) : BlkEvent → BlkSys → Prop where
  | memory (m : Store) :
      Moved s (.memory m)
        { s with dev := { s.dev with ram := { s.dev.ram with bytes := m } }, kicked := false }
  | kick {k : Nat} : 0 < k → Moved s .kick { s with ioeventfd := k, kicked := true }
  | handler {req : Store} {s' : BlkSys} : HandlerStep s req s' → Moved s (.handler req) s'
  | worker {w : BlkWorker} {b : Bool} : Moved s .worker { s with worker := w, killed := b }
  | stop : Moved s .stop { s with threadStop := true }

theorem step_cases {e : BlkEvent} (h : s.step e = some s') : Moved s e s' := by
  unfold step at h
  split at h
  · cases h
  · split at h
    · cases h
      exact .memory _
    · cases h
      exact .kick (Doorbell.signal_pos _)
    · exact .handler (handlerStep_cases h)
    · unfold workerStep at h
      split at h
      · cases h
        exact .worker (s := s) (b := s.killed)
      · split at h
        · cases h
        · cases h
          exact .worker (s := s) (b := s.killed)
      · cases h
        exact .worker (s := s) (w := s.worker)
      · cases h
    · cases h
      exact .stop

/-! ## No kick is lost -/

/-- There is no descriptor to take. -/
def NoneAvail (dev : VirtioBlkDev) : Prop := dev.getAvail = .ok (none, dev)

theorem NoneAvail.retrace {dev : VirtioBlkDev} (h : NoneAvail dev) (trace : List RingEvent) :
    NoneAvail { dev with trace := trace } := by
  obtain ⟨⟨desc, vq⟩, hget, h⟩ := bind_eq_ok.mp h
  cases desc with
  | none =>
    have hvq : vq = dev.vq := by
      simp only [pure, Except.pure, Except.ok.injEq, Prod.mk.injEq, true_and] at h
      rw [← h]
    subst hvq
    exact bind_eq_ok.mpr ⟨_, hget, rfl⟩
  | some a => cases h

/-- The handler and the guest as the two sides of a doorbell: the bell is the eventfd. -/
def desk (s : BlkSys) : Doorbell.Desk (VirtioBlkDev × Bool) where
  shared := (s.dev, s.cut)
  rings := s.ioeventfd
  rung := s.kicked
  phase :=
    match s.handler with
    | .read => .waiting
    | .enabled | .loop _ => .working
    | .event => .leaving

/-- The handler found nothing to take, or gave up inside a chain. -/
def Idle (x : VirtioBlkDev × Bool) : Prop := x.2 = true ∨ NoneAvail x.1

/-- A call that returns from the body of the loop has taken a descriptor. -/
theorem ret_trace {dev dev' : VirtioBlkDev} {r r' : Store}
    (h : Blk.round dev r = .ok (.ret, dev', r')) :
    NoneAvail dev ∧ dev' = dev ∨ ∃ ev, ev ≠ [] ∧ dev'.trace = dev.trace ++ ev := by
  rcases Blk.round_inv h with ⟨hnone, -, hdev⟩ | ⟨head, d₁, req₁, hget, -, hbody⟩
  · exact .inl ⟨hnone, hdev⟩
  right
  have htake := VqDev.getAvail_trace hget
  rcases hbody with ⟨-, -, -, rfl⟩ | ⟨-, -, desc, status, d₂, req₂, htr, hfin⟩ | ⟨-, hfin⟩
  · exact ⟨_, List.cons_ne_nil _ _, htake⟩
  · obtain ⟨a, d₃, hget₂, -, -, htrace⟩ := Blk.transfer_inv htr
    rcases Blk.finish_inv hfin with ⟨-, -, rfl⟩ | ⟨-, hflow, -⟩
    · refine ⟨[.take head, .take a], List.cons_ne_nil _ _, ?_⟩
      rw [htrace, VqDev.getAvail_trace hget₂, htake, List.append_assoc]
      rfl
    · cases hflow
  · rcases Blk.finish_inv hfin with ⟨-, -, rfl⟩ | ⟨-, hflow, -⟩
    · exact ⟨_, List.cons_ne_nil _ _, htake⟩
    · cases hflow

theorem idle_of_ret {dev dev' : VirtioBlkDev} {r r' : Store}
    (h : Blk.round dev r = .ok (.ret, dev', r')) :
    Idle (dev', dev'.trace != dev.trace) := by
  rcases ret_trace h with ⟨hnone, rfl⟩ | ⟨ev, hne, htrace⟩
  · exact .inr hnone
  · left
    simp only [htrace, bne_iff_ne, ne_eq, List.append_right_eq_self]
    exact hne

theorem desk_loop (hw : s.desk.phase = .working) (dev : VirtioBlkDev) (r : Store) :
    BlkSys.desk { s with dev := dev, handler := .loop r } =
      { s.desk with shared := (dev, s.cut) } := by
  simp only [hw]
  rfl

/-- Every step is one of the doorbell, or none of its business. -/
theorem Moved.desk {e : BlkEvent} (h : Moved s e s') (hen : s.dev.vq.enable ≠ 0) :
    Doorbell.Step Idle s.desk s'.desk ∨ s'.desk = s.desk := by
  cases h with
  | memory m => exact .inl (.change _)
  | kick hk => exact .inl (.ring hk)
  | worker => exact .inr rfl
  | stop => exact .inr rfl
  | handler hstep =>
    left
    cases hstep with
    | wake hr _ => exact .wake (d := s.desk) (by simp only [BlkSys.desk, hr])
    | disabled _ hz => exact absurd hz hen
    | call hr _ =>
      have hw : s.desk.phase = .working := by simp only [BlkSys.desk, hr]
      exact desk_loop hw s.dev _ ▸ .work (d := s.desk) _ hw
    | turn hr _ =>
      have hw : s.desk.phase = .working := by simp only [BlkSys.desk, hr]
      exact desk_loop hw _ _ ▸ .work (d := s.desk) _ hw
    | ret hr hround =>
      exact .look (d := s.desk) (by simp only [BlkSys.desk, hr]) (idle_of_ret hround)
    | notify hr _ =>
      refine .leave (d := s.desk) (by simp only [BlkSys.desk, hr]) ?_
      rintro (hcut | hnone)
      · exact .inl hcut
      · exact .inr (hnone.retrace _)

theorem Moved.enable {e : BlkEvent} (h : Moved s e s') : s'.dev.vq.enable = s.dev.vq.enable := by
  cases h with
  | memory m => rfl
  | kick _ => rfl
  | worker => rfl
  | stop => rfl
  | handler hstep =>
    cases hstep with
    | wake _ _ => rfl
    | disabled _ _ => rfl
    | call _ _ => rfl
    | turn _ hround => simp only [Virtq.enable, (Blk.round_moved hround).info]
    | ret _ hround => simp only [Virtq.enable, (Blk.round_moved hround).info]
    | notify _ _ => rfl

theorem run_answered {es : List BlkEvent} : ∀ {s s' : BlkSys}, s.dev.vq.enable ≠ 0 →
    Doorbell.Answered Idle s.desk → s.run es = some s' → Doorbell.Answered Idle s'.desk := by
  induction es with
  | nil =>
    intro s s' _ h hrun
    cases hrun
    exact h
  | cons e es ih =>
    intro s s' hen h hrun
    obtain ⟨s₁, hstep, hrun⟩ := Option.bind_eq_some_iff.mp hrun
    have hmoved := step_cases hstep
    refine ih (by rw [hmoved.enable]; exact hen) ?_ hrun
    rcases hmoved.desk hen with hdesk | hsame
    · exact hdesk.answered h
    · rw [hsame]
      exact h

end BlkSys

/-- **No kick is lost.** However the guest's writes, its kicks of four bytes, the handler and the
worker interleave: when the guest has kicked the queue since its last write, the kick has been read
and the handler is back (or about to go back) to sleep, there is no descriptor left to take, unless
the last call gave up inside a chain. -/
theorem no_kick_lost {dev : VirtioBlkDev} (hen : dev.vq.enable ≠ 0) {es : List BlkEvent}
    {s : BlkSys} (hrun : (BlkSys.start dev).run es = some s) (hkicked : s.kicked = true)
    (hread : s.ioeventfd = 0) (hback : s.handler = .read ∨ s.handler = .event)
    (hcut : s.cut = false) : s.dev.getAvail = .ok (none, s.dev) := by
  have hanswered : Doorbell.Answered BlkSys.Idle s.desk :=
    BlkSys.run_answered hen (fun h => by cases h) hrun
  have hphase : s.desk.phase ≠ .working := by
    rcases hback with h | h <;> simp [BlkSys.desk, h]
  rcases hanswered hkicked hread hphase with h | h
  · rw [show s.desk.shared.2 = s.cut from rfl, hcut] at h
    cases h
  · exact h

def kickDev : VirtioBlkDev :=
  { Blk.ioDev with
    vq :=
      { Blk.ioDev.vq with
        guestEvent := some 8192
        info := putLE Blk.ioDev.vq.info 4 2 1 } }

/-- The guest publishes one request and kicks the queue; the handler wakes up, serves it, finds
nothing more, raises the interrupt and sleeps. -/
def putRun : List (BlkEvent × List Blk.Req) :=
  (.memory (Blk.ioMem 0 virtioBlkTOut 4), [Blk.ioReq virtioBlkTOut 4]) ::
    (.kick, []) :: List.replicate 5 (.handler fun _ => 0, []) ++ [(.worker, [])]

/-- The request of `putRun` is published, kicked and served, and the ring is empty again. -/
theorem no_kick_lost_put : ∃ s, (BlkSys.start kickDev).run (putRun.map (·.1)) = some s ∧
    s.dev.getAvail = .ok (none, s.dev) := by
  obtain ⟨s, hrun, hkicked, hread, hback, hcut⟩ :
      ∃ s, (BlkSys.start kickDev).run (putRun.map (·.1)) = some s ∧
      s.kicked = true ∧ s.ioeventfd = 0 ∧ s.handler = .read ∧ s.cut = false :=
        ⟨_, rfl, rfl, rfl, rfl, rfl⟩
  exact ⟨s, hrun, no_kick_lost (by decide) hrun hkicked hread (.inl hback) hcut⟩

/-! ## One turn of the loop on a batch -/

namespace Blk

section Turn

variable {dev : VirtioBlkDev} {ring n p : Nat} {r : Req} {rs : List Req}

theorem Batch.round_first (h : Batch dev ring n p (r :: rs)) (req : Store) :
    ∃ req', round dev req = .ok (.loop, r.served ring n p dev, req') :=
  round_ok dev req h.queue (h.chains (p, r) List.mem_cons_self) (h.reqOk r List.mem_cons_self)

theorem Batch.round_empty (h : Batch dev ring n p []) (req : Store) :
    round dev req = .ok (.ret, dev, req) := by
  have hnone : dev.getAvail = .ok (none, dev) := VqDev.getAvail_none h.queue h.stop
  rw [round, hnone]
  rfl

theorem ArrayRun.append {xs ys : List Io} {a b c : Store} (h : ArrayRun a xs b)
    (h' : ArrayRun b ys c) :
    ArrayRun a (xs ++ ys) c := by
  induction h with
  | done => exact h'
  | put ht hs _ ih => exact .put ht hs (ih h')
  | get ht hs hb _ ih => exact .get ht hs hb (ih h')
  | failed hs _ ih => exact .failed hs (ih h')

/-- The first request of a batch is one operation of the array. Any type but IN and OUT is
refused. -/
theorem Batch.array_first (h : Batch dev ring n p (r :: rs))
    (hall : r.IsIo → Io.MovesAll ⟨r, dev, r.served ring n p dev⟩) :
    ArrayRun dev.backend.fd.bytes [⟨r, dev, r.served ring n p dev⟩]
      (r.served ring n p dev).backend.fd.bytes := by
  have hn := h.queue.pos
  have hr := h.reqOk r List.mem_cons_self
  by_cases hio : r.IsIo
  · have hapart : r.dataSpan.Apart r.statusSpan := by
      have hp := h.apart
      rw [List.flatMap_cons, List.pairwise_append] at hp
      have hspans := hp.1
      simp only [Req.spans, if_pos hio, List.pairwise_cons, List.mem_cons, List.not_mem_nil,
        or_false, forall_eq] at hspans
      exact hspans.2.1.symm
    exact served_array hn hio hr hapart (hall hio) .done
  · refine .failed ?_ ?_
    · rw [served_status hn hr, show r.statusOf _ = virtioBlkSUnsupp from if_neg hio]
      decide
    · rw [show (r.served ring n p dev).backend = dev.backend from Req.imageOut_other hio _ _]
      exact .done

theorem layout_append (p : Nat) (rs : List Req) (r : Req) :
    layout p (rs ++ [r]) = layout p rs ++ [(p + total rs, r)] := by
  induction rs generalizing p with
  | nil => rfl
  | cons r' rs ih => simp only [List.cons_append, layout, total, ih, Nat.add_assoc]

theorem total_append (rs : List Req) (r : Req) : total (rs ++ [r]) = total rs + r.slots := by
  induction rs with
  | nil => simp [total]
  | cons r' rs ih => simp only [List.cons_append, total, ih, Nat.add_assoc]

end Turn
end Blk

/-! ## Requests published while the device runs -/

/-- What was done to the ring, without the interrupts. -/
def ringEvents (trace : List RingEvent) : List RingEvent := trace.filter (· != .notify)

theorem ringEvents_append (xs ys : List RingEvent) :
    ringEvents (xs ++ ys) = ringEvents xs ++ ringEvents ys :=
  List.filter_append ..

theorem ringEvents_req (ring n p : Nat) (r : Blk.Req) :
    ringEvents (r.events ring n p) = r.events ring n p := by
  refine List.filter_eq_self.mpr fun e he => ?_
  simp only [Blk.Req.events, List.mem_append, List.mem_map, List.mem_singleton] at he
  rcases he with ⟨j, -, rfl⟩ | rfl <;> rfl

/-- The device with the driver's book: the requests published, those of them not served yet, which
stand in the ring from position `pos` on, and those served, with the device before and after
each. -/
structure Driven where
  sys : BlkSys
  pos : Nat
  published : List Blk.Req
  pending : List Blk.Req
  served : List Blk.Io

namespace Driven

/-- A turn of the request loop is put down to the oldest request that is pending. -/
def credit (d : Driven) (sys : BlkSys) : Driven :=
  match d.sys.handler, d.pending with
  | .loop _, r :: rs =>
    { d with
      sys := sys
      pos := d.pos + r.slots
      pending := rs
      served := d.served ++ [⟨r, d.sys.dev, sys.dev⟩] }
  | _, _ => { d with sys := sys }

/-- One step, with the requests that it publishes if it is a write of guest memory. -/
def next (d : Driven) (e : BlkEvent × List Blk.Req) : Option Driven :=
  (d.sys.step e.1).map fun sys =>
    match e.1 with
    | .memory _ =>
      { d with sys := sys, published := d.published ++ e.2, pending := d.pending ++ e.2 }
    | .handler _ => d.credit sys
    | _ => { d with sys := sys }

/-- The handler alone, for `k` steps. -/
def alone (req : Store) : Nat → Driven → Option Driven
  | 0, d => some d
  | k + 1, d => (d.next (.handler req, [])).bind (alone req k)

def start (dev : VirtioBlkDev) (p : Nat) : Driven := ⟨BlkSys.start dev, p, [], [], []⟩

/-- What is asked of the driver: when it writes its memory, the requests pending and those it
publishes are a batch of well-formed requests from the device's position on. The buffers of requests
already served are its own again. -/
def Admitted (ring n : Nat) (t : Driven × (BlkEvent × List Blk.Req)) : Prop :=
  match t.2.1 with
  | .memory m =>
    Blk.Batch { t.1.sys.dev with ram := { t.1.sys.dev.ram with bytes := m } } ring n t.1.pos
      (t.1.pending ++ t.2.2)
  | _ => True

/-- The book is in step with the device. -/
structure Book (ring n p : Nat) (dev : VirtioBlkDev) (d : Driven) : Prop where
  batch : Blk.Batch d.sys.dev ring n d.pos d.pending
  pos : d.pos = p + Blk.total (d.served.map (·.req))
  order : d.published = d.served.map (·.req) ++ d.pending
  cut : d.sys.cut = false
  enable : d.sys.dev.vq.enable ≠ 0
  event : ∃ g, d.sys.dev.vq.guestEvent = some g ∧ g + 4 ≤ ramSize
  answered : Doorbell.Answered BlkSys.Idle d.sys.desk
  array : (∀ x ∈ d.served, x.req.IsIo → x.MovesAll) →
    Blk.ArrayRun dev.backend.fd.bytes d.served d.sys.dev.backend.fd.bytes
  events : ringEvents d.sys.dev.trace = ringEvents dev.trace ++
    (Blk.layout p (d.served.map (·.req))).flatMap fun x => x.2.events ring n x.1

section

variable {ring n p : Nat} {dev : VirtioBlkDev} {d d' : Driven}

theorem book_start (h : Blk.Batch dev ring n p []) (hen : dev.vq.enable ≠ 0)
    (hev : ∃ g, dev.vq.guestEvent = some g ∧ g + 4 ≤ ramSize) :
    Book ring n p dev (start dev p) where
  batch := h
  pos := rfl
  order := rfl
  cut := rfl
  enable := hen
  event := hev
  answered := fun h => by cases h
  array := fun _ => .done
  events := (List.append_nil _).symm

theorem credit_nil (hp : d.pending = []) (sys : BlkSys) : d.credit sys = { d with sys := sys } := by
  unfold credit
  rw [hp]
  split
  · rename_i hcons
    cases hcons
  · rfl

/-- A step that leaves the device as it is, but for an interrupt. -/
theorem Book.same (h : Book ring n p dev d) {sys : BlkSys} {trace : List RingEvent}
    (hdev : sys.dev = { d.sys.dev with trace := trace })
      (htrace : ringEvents trace = ringEvents d.sys.dev.trace)
    (hcut : sys.cut = d.sys.cut) (hans : Doorbell.Answered BlkSys.Idle sys.desk) :
    Book ring n p dev { d with sys := sys } where
  batch := by
    simp only [hdev]
    exact ⟨h.batch.queue, h.batch.chains, h.batch.reqOk, h.batch.apart, h.batch.stop⟩
  pos := h.pos
  order := h.order
  cut := by rw [hcut, h.cut]
  enable := by simp only [hdev]; exact h.enable
  event := by simp only [hdev]; exact h.event
  answered := hans
  array := by simp only [hdev]; exact h.array
  events := by simp only [hdev, htrace]; exact h.events

/-- A turn of the loop that goes on has served the oldest request. -/
theorem Book.turn (h : Book ring n p dev d) {dev' : VirtioBlkDev} {req req' : Store}
    (hround : Blk.round d.sys.dev req = .ok (.loop, dev', req')) :
    ∃ r rs, d.pending = r :: rs ∧ dev' = r.served ring n d.pos d.sys.dev := by
  have hb := h.batch
  cases hp : d.pending with
  | nil =>
    rw [hp] at hb
    rw [hb.round_empty req] at hround
    cases hround
  | cons r rs =>
    rw [hp] at hb
    obtain ⟨req'', hok⟩ := hb.round_first req
    rw [hok] at hround
    cases hround
    exact ⟨r, rs, rfl, rfl⟩

/-- A call returns when nothing is pending. -/
theorem Book.ret (h : Book ring n p dev d) {dev' : VirtioBlkDev} {req req' : Store}
    (hround : Blk.round d.sys.dev req = .ok (.ret, dev', req')) :
    d.pending = [] ∧ dev' = d.sys.dev := by
  have hb := h.batch
  cases hp : d.pending with
  | nil =>
    rw [hp] at hb
    rw [hb.round_empty req] at hround
    cases hround
    exact ⟨rfl, rfl⟩
  | cons r rs =>
    rw [hp] at hb
    obtain ⟨req'', hok⟩ := hb.round_first req
    rw [hok] at hround
    cases hround

/-- The book after the oldest request was served. -/
theorem Book.served (h : Book ring n p dev d) {r : Blk.Req} {rs : List Blk.Req}
    (hp : d.pending = r :: rs) {sys : BlkSys} (hdev : sys.dev = r.served ring n d.pos d.sys.dev)
    (hcut : sys.cut = d.sys.cut) (hans : Doorbell.Answered BlkSys.Idle sys.desk) :
    Book ring n p dev
      { d with
        sys := sys
        pos := d.pos + r.slots
        pending := rs
        served := d.served ++ [⟨r, d.sys.dev, sys.dev⟩] } := by
  have hb := h.batch
  rw [hp] at hb
  refine ⟨?_, ?_, ?_, ?_, ?_, ?_, hans, ?_, ?_⟩
  · simp only [hdev]
    exact hb.tail
  · simp only [List.map_append, List.map_cons, List.map_nil, Blk.total_append, h.pos, Nat.add_assoc]
  · simp only [h.order, hp, List.map_append, List.map_cons, List.map_nil, List.append_assoc,
      List.cons_append, List.nil_append]
  · rw [hcut, h.cut]
  · simp only [hdev]
    exact h.enable
  · simp only [hdev]
    exact h.event
  · intro hall
    simp only [List.forall_mem_append, List.mem_singleton, forall_eq] at hall
    simp only [hdev] at hall ⊢
    exact (h.array hall.1).append (hb.array_first hall.2)
  · simp only [List.map_append, List.map_cons, List.map_nil, Blk.layout_append, List.flatMap_append,
      List.flatMap_cons, List.flatMap_nil, List.append_nil, hdev]
    rw [← List.append_assoc, ← h.events, ← h.pos]
    simp only [Blk.Req.served, ringEvents_append, ringEvents_req]

theorem Book.step (h : Book ring n p dev d) {e : BlkEvent × List Blk.Req}
    (ha : Admitted ring n (d, e)) (hn : d.next e = some d') : Book ring n p dev d' := by
  obtain ⟨e, more⟩ := e
  obtain ⟨sys, hstep, rfl⟩ := Option.map_eq_some_iff.mp hn
  have hmoved := BlkSys.step_cases hstep
  have hans : Doorbell.Answered BlkSys.Idle sys.desk := by
    rcases hmoved.desk h.enable with hdesk | hsame
    · exact hdesk.answered h.answered
    · rw [hsame]
      exact h.answered
  cases hmoved with
  | memory m =>
    refine ⟨ha, h.pos, ?_, h.cut, h.enable, h.event, hans, h.array, h.events⟩
    simp only [h.order, List.append_assoc]
  | kick _ => exact h.same rfl rfl rfl hans
  | worker => exact h.same rfl rfl rfl hans
  | stop => exact h.same rfl rfl rfl hans
  | handler hstep =>
    cases hstep with
    | wake hr _ =>
      simp only [credit, hr]
      exact h.same rfl rfl rfl hans
    | disabled hr _ =>
      simp only [credit, hr]
      exact h.same rfl rfl rfl hans
    | call hr _ =>
      simp only [credit, hr]
      exact h.same rfl rfl rfl hans
    | turn hr hround =>
      obtain ⟨r, rs, hp, hdev⟩ := h.turn hround
      simp only [credit, hr, hp]
      exact h.served hp hdev rfl hans
    | ret hr hround =>
      obtain ⟨hp, hdev⟩ := h.ret hround
      rw [credit_nil hp]
      exact h.same hdev rfl (by simp [hdev, h.cut]) hans
    | notify hr htrace =>
      simp only [credit, hr]
      refine h.same rfl ?_ rfl hans
      rcases htrace with rfl | rfl
      · rfl
      · simp [ringEvents]

/-- The handler is held up by nothing but an eventfd at zero. -/
theorem Book.handler_blocked (h : Book ring n p dev d) (hk : d.sys.killed = false) (req : Store) :
    d.sys.step (.handler req) = none ↔ d.sys.handler = .read ∧ d.sys.ioeventfd = 0 := by
  simp only [BlkSys.step, hk, Bool.false_eq_true, if_false, BlkSys.handlerStep]
  cases hh : d.sys.handler with
  | read => simp
  | enabled => simp
  | loop r =>
    cases hp : d.pending with
    | nil =>
      have hb := h.batch
      rw [hp] at hb
      simp [hb.round_empty r]
    | cons r' rs =>
      have hb := h.batch
      rw [hp] at hb
      obtain ⟨req', hok⟩ := hb.round_first r
      simp [hok]
  | event =>
    obtain ⟨g, hg, hram⟩ := h.event
    have hload : d.sys.dev.ram.load (d.sys.dev.vq.guestEvent.plus 2) 2 =
        .ok (getLE d.sys.dev.ram.bytes (g + 2) 2) := by
      rw [hg, plus_ram (by omega)]
      exact Ram.load_ok (by omega)
    simp only [hload]
    split <;> simp [writeIrqfd]

/-- Nothing is pending when the last kick was read and the handler has looked at the ring since. -/
theorem Book.drained (h : Book ring n p dev d) (hkicked : d.sys.kicked = true)
    (hread : d.sys.ioeventfd = 0) (hback : d.sys.handler = .read ∨ d.sys.handler = .event) :
    d.pending = [] := by
  have hnone : d.sys.dev.getAvail = .ok (none, d.sys.dev) := by
    have hphase : d.sys.desk.phase ≠ .working := by
      rcases hback with h | h <;> simp [BlkSys.desk, h]
    rcases h.answered hkicked hread hphase with hcut | hnone
    · rw [show d.sys.desk.shared.2 = d.sys.cut from rfl, h.cut] at hcut
      cases hcut
    · exact hnone
  cases hp : d.pending with
  | nil => rfl
  | cons r rs =>
    have hb := h.batch
    rw [hp] at hb
    have hfirst := hb.avail (j := 0) (by have := r.slots_pos; simp only [Blk.total]; omega)
    rw [VqDev.getAvail_some hb.queue hfirst] at hnone
    cases hnone

/-! ### The handler alone -/

theorem alone_trans {req : Store} {a b : Nat} {d₂ : Driven} :
    ∀ {d : Driven}, alone req a d = some d' →
    alone req b d' = some d₂ → alone req (a + b) d = some d₂ := by
  induction a with
  | zero =>
    intro d h h'
    cases h
    rw [Nat.zero_add]
    exact h'
  | succ a ih =>
    intro d h h'
    obtain ⟨d₁, hnext, hrest⟩ := Option.bind_eq_some_iff.mp h
    rw [show a + 1 + b = (a + b) + 1 by omega, alone, hnext]
    exact ih hrest h'

/-- The handler has taken `k` steps alone and is at `h`; the book is still in step and nothing was
published. -/
structure Went (ring n p : Nat) (dev : VirtioBlkDev) (req : Store) (d : Driven) (k : Nat)
    (d' : Driven) : Prop where
  run : alone req k d = some d'
  book : Book ring n p dev d'
  killed : d'.sys.killed = false
  published : d'.published = d.published

theorem Went.trans {req : Store} {a b : Nat} {d₂ : Driven} (h : Went ring n p dev req d a d')
    (h' : Went ring n p dev req d' b d₂) : Went ring n p dev req d (a + b) d₂ where
  run := alone_trans h.run h'.run
  book := h'.book
  killed := h'.killed
  published := h'.published.trans h.published

@[simp] theorem credit_sys (d : Driven) (sys : BlkSys) : (d.credit sys).sys = sys := by
  unfold credit
  split <;> rfl

@[simp] theorem credit_published (d : Driven) (sys : BlkSys) :
    (d.credit sys).published = d.published := by
  unfold credit
  split <;> rfl

theorem credit_other (hh : ∀ r, d.sys.handler ≠ .loop r) (sys : BlkSys) :
    d.credit sys = { d with sys := sys } := by
  unfold credit
  split
  · rename_i hr _
    exact absurd hr (hh _)
  · rfl

/-- A step of the handler that is not blocked. -/
theorem Book.go (h : Book ring n p dev d) (hk : d.sys.killed = false) (req : Store)
    (hgo : ¬ (d.sys.handler = .read ∧ d.sys.ioeventfd = 0)) :
    ∃ sys, BlkSys.HandlerStep d.sys req sys ∧ Went ring n p dev req d 1 (d.credit sys) := by
  cases hs : d.sys.step (.handler req) with
  | none => exact absurd ((h.handler_blocked hk req).mp hs) hgo
  | some sys =>
    have hnext : d.next (.handler req, []) = some (d.credit sys) := by
      simp only [next, hs, Option.map_some]
    cases BlkSys.step_cases hs with
    | handler hstep =>
      have hbook := h.step (e := (.handler req, [])) trivial hnext
      refine ⟨sys, hstep, by simp only [alone, hnext,
        Option.bind_some], hbook, ?_, credit_published d sys⟩
      rw [credit_sys, ← hk]
      cases hstep <;> rfl

theorem Book.go_read (h : Book ring n p dev d) (hk : d.sys.killed = false) (req : Store)
    (hr : d.sys.handler = .read) (hfd : d.sys.ioeventfd ≠ 0) :
    ∃ d', Went ring n p dev req d 1 d' ∧ d'.sys.handler = .enabled ∧ d'.pending = d.pending := by
  obtain ⟨sys, hstep, hwent⟩ := h.go hk req (fun hb => hfd hb.2)
  refine ⟨_, hwent, ?_, ?_⟩
  · rw [credit_sys]
    cases hstep <;> simp_all
  · rw [credit_other (by simp [hr])]

theorem Book.go_enabled (h : Book ring n p dev d) (hk : d.sys.killed = false) (req : Store)
    (hr : d.sys.handler = .enabled) :
    ∃ d', Went ring n p dev req d 1 d' ∧ d'.sys.handler = .loop req ∧ d'.pending = d.pending := by
  obtain ⟨sys, hstep, hwent⟩ := h.go hk req (by simp [hr])
  have hen := h.enable
  refine ⟨_, hwent, ?_, ?_⟩
  · rw [credit_sys]
    cases hstep <;> simp_all
  · rw [credit_other (by simp [hr])]

theorem Book.go_event (h : Book ring n p dev d) (hk : d.sys.killed = false) (req : Store)
    (hr : d.sys.handler = .event) :
    ∃ d', Went ring n p dev req d 1 d' ∧ d'.sys.handler = .read ∧ d'.pending = d.pending ∧
      d'.sys.ioeventfd = d.sys.ioeventfd := by
  obtain ⟨sys, hstep, hwent⟩ := h.go hk req (by simp [hr])
  refine ⟨_, hwent, ?_, ?_, ?_⟩
  · rw [credit_sys]
    cases hstep <;> simp_all
  · rw [credit_other (by simp [hr])]
  · rw [credit_sys]
    cases hstep <;> simp_all

/-- From the loop: one turn for each pending request, and one that finds nothing. -/
theorem Book.go_loop {m : Nat} :
    ∀ {d : Driven}, Book ring n p dev d → d.sys.killed = false → ∀ (req r : Store),
    d.sys.handler = .loop r → d.pending.length = m →
    ∃ d', Went ring n p dev req d (m + 1) d' ∧ d'.sys.handler = .event ∧ d'.pending = [] := by
  induction m with
  | zero =>
    intro d h hk req r hr hm
    have hp := List.eq_nil_of_length_eq_zero hm
    obtain ⟨sys, hstep, hwent⟩ := h.go hk req (by simp [hr])
    refine ⟨_, hwent, ?_, ?_⟩
    · rw [credit_sys]
      cases hstep with
      | turn _ hround =>
        obtain ⟨r', rs, hcons, -⟩ := h.turn hround
        rw [hp] at hcons
        cases hcons
      | ret _ _ => rfl
      | _ hr' => rw [hr] at hr'; cases hr'
    · rw [credit_nil hp]
      exact hp
  | succ m ih =>
    intro d h hk req r hr hm
    obtain ⟨r', rs, hp⟩ : ∃ r' rs, d.pending = r' :: rs := List.exists_cons_of_length_eq_add_one hm
    obtain ⟨sys, hstep, hwent⟩ := h.go hk req (by simp [hr])
    have hcredit : (d.credit sys).pending = rs := by simp only [credit, hr, hp]
    have hloop : ∃ r'', (d.credit sys).sys.handler = .loop r'' := by
      rw [credit_sys]
      cases hstep with
      | turn _ _ => exact ⟨_, rfl⟩
      | ret _ hround =>
        rw [(h.ret hround).1] at hp
        cases hp
      | _ hr' => rw [hr] at hr'; cases hr'
    obtain ⟨r'', hr''⟩ := hloop
    obtain ⟨d', hwent', hevent, hnil⟩ := ih hwent.book hwent.killed req r'' hr''
      (by rw [hcredit]; rw [hp, List.length_cons] at hm; omega)
    refine ⟨d', ?_, hevent, hnil⟩
    rw [show m + 1 + 1 = 1 + (m + 1) by omega]
    exact hwent.trans hwent'

/-- The handler is through: it sleeps, and nothing is pending. -/
def Through (ring n p : Nat) (dev : VirtioBlkDev) (req : Store) (d : Driven) (k : Nat) : Prop :=
  ∃ d', Went ring n p dev req d k d' ∧ d'.sys.handler = .read ∧ d'.pending = []

theorem Went.through {req : Store} {a b : Nat} (h : Went ring n p dev req d a d')
    (h' : Through ring n p dev req d' b) : Through ring n p dev req d (a + b) := by
  obtain ⟨d₂, hwent, hr, hp⟩ := h'
  exact ⟨d₂, h.trans hwent, hr, hp⟩

theorem Book.through_loop (h : Book ring n p dev d) (hk : d.sys.killed = false) (req : Store)
    {r : Store} (hr : d.sys.handler = .loop r) :
    Through ring n p dev req d (d.pending.length + 1 + 1) := by
  obtain ⟨d₁, hwent, hevent, hnil⟩ := h.go_loop hk req r hr rfl
  obtain ⟨d₂, hwent₂, hread, hsame, -⟩ := hwent.book.go_event hwent.killed req hevent
  exact hwent.through ⟨d₂, hwent₂, hread, hsame.trans hnil⟩

theorem Book.through_enabled (h : Book ring n p dev d) (hk : d.sys.killed = false) (req : Store)
    (hr : d.sys.handler = .enabled) :
    Through ring n p dev req d (1 + (d.pending.length + 1 + 1)) := by
  obtain ⟨d₁, hwent, hloop, hsame⟩ := h.go_enabled hk req hr
  rw [← hsame]
  exact hwent.through (hwent.book.through_loop hwent.killed req hloop)

theorem Book.through_read (h : Book ring n p dev d) (hk : d.sys.killed = false) (req : Store)
    (hr : d.sys.handler = .read) (hfd : d.sys.ioeventfd ≠ 0) :
    Through ring n p dev req d (1 + (1 + (d.pending.length + 1 + 1))) := by
  obtain ⟨d₁, hwent, hen, hsame⟩ := h.go_read hk req hr hfd
  rw [← hsame]
  exact hwent.through (hwent.book.through_enabled hwent.killed req hen)

/-- A kick that was not read yet gets everything served, wherever the handler is. -/
theorem Book.through (h : Book ring n p dev d) (hk : d.sys.killed = false) (req : Store)
    (hfd : d.sys.ioeventfd ≠ 0) : ∃ k ≤ d.pending.length + 5, Through ring n p dev req d k := by
  cases hr : d.sys.handler with
  | read => exact ⟨_, by omega, h.through_read hk req hr hfd⟩
  | enabled => exact ⟨_, by omega, h.through_enabled hk req hr⟩
  | loop r => exact ⟨_, by omega, h.through_loop hk req hr⟩
  | event =>
    obtain ⟨d₁, hwent, hread, hsame, hfd₁⟩ := h.go_event hk req hr
    refine ⟨_, ?_, hwent.through
      (hwent.book.through_read hwent.killed req hread (by rw [hfd₁]; exact hfd))⟩
    rw [hsame]
    omega

end

end Driven

/-- **Published requests are served.** A driver publishes batches of well-formed requests, at any
time, also while the device is at work, and kicks the queue with writes of four bytes, so that no
vCPU runs the request loop. However its writes and kicks, the handler and the worker interleave, in
every state of the run:

* the handler can go on, unless it sleeps on an eventfd that is at zero;
* the ring was worked on request by request, in the order of publication, each head marked used
  once, behind its chain;
* the image is that of a byte array on which the served requests were carried out one by one, if
  each backend call that does not fail moves the whole buffer;
* every request published is served once the kick that followed the last write has been read and the
  handler is through. -/
theorem published_served {dev : VirtioBlkDev} {ring n p : Nat} (h : Blk.Batch dev ring n p [])
    (hen : dev.vq.enable ≠ 0) (hev : ∃ g, dev.vq.guestEvent = some g ∧ g + 4 ≤ ramSize)
    {es : List (BlkEvent × List Blk.Req)}
    (hes : ∀ t ∈ turns Driven.next (Driven.start dev p) es, Driven.Admitted ring n t) :
    ∀ t ∈ turns Driven.next (Driven.start dev p) es,
      (t.1.sys.killed = false → ∀ req, t.1.sys.step (.handler req) = none ↔
        t.1.sys.handler = .read ∧ t.1.sys.ioeventfd = 0) ∧
      ringEvents t.1.sys.dev.trace = ringEvents dev.trace ++
        (Blk.layout p (t.1.served.map (·.req))).flatMap (fun x => x.2.events ring n x.1) ∧
      ((∀ x ∈ t.1.served, x.req.IsIo → x.MovesAll) →
        Blk.ArrayRun dev.backend.fd.bytes t.1.served t.1.sys.dev.backend.fd.bytes) ∧
      (t.1.sys.kicked = true → t.1.sys.ioeventfd = 0 →
        t.1.sys.handler = .read ∨ t.1.sys.handler = .event →
        t.1.served.map (·.req) = t.1.published) := by
  intro t ht
  have hbook : Driven.Book ring n p dev t.1 :=
    turns_invariant (fun _ _ _ hs ha hn => hs.step ha hn) (Driven.book_start h hen hev) hes t ht
  refine ⟨fun hk req => hbook.handler_blocked hk req, hbook.events, hbook.array,
    fun hkicked hread hback => ?_⟩
  rw [hbook.order, hbook.drained hkicked hread hback, List.append_nil]

theorem kickDev_queue : QueueAt kickDev.vq 0 8 0 :=
  ⟨rfl, rfl, by decide, by decide, rfl⟩

theorem kickDev_empty : Blk.Batch kickDev 0 8 0 [] :=
  ⟨kickDev_queue, fun _ h => (by cases h), fun _ h => (by cases h), .nil, rfl⟩

theorem putRun_batch :
    Blk.Batch
      { kickDev with ram := { kickDev.ram with bytes := Blk.ioMem 0 virtioBlkTOut 4 } } 0 8 0
      [Blk.ioReq virtioBlkTOut 4] := by
  refine ⟨kickDev_queue, ?_, ?_, by decide, by decide +kernel⟩
  · intro x hx
    cases List.mem_singleton.mp hx
    decide +kernel
  · intro x hx
    cases List.mem_singleton.mp hx
    decide

theorem putRun_admitted :
    ∀ t ∈ turns Driven.next (Driven.start kickDev 0) putRun, Driven.Admitted 0 8 t := by
  intro t ht
  rcases List.mem_cons.mp ht with rfl | ht
  · exact putRun_batch
  · have hev : t.2 ∈ putRun.tail := turns_event ht
    have : t.2.1 = .kick ∨ t.2.1 = .handler (fun _ => 0) ∨ t.2.1 = .worker := by
      simp [putRun] at hev
      rcases hev with h | h | h <;> simp [h]
    rcases this with h | h | h <;> simp [Driven.Admitted, h]

theorem published_served_put :
    ∃ t ∈ turns Driven.next (Driven.start kickDev 0) putRun, t.1.published.length = 1 ∧
    t.1.served.map (·.req) = t.1.published := by
  obtain ⟨t, ht, hlen, hkicked, hread, hback⟩ :
      ∃ t ∈ turns Driven.next (Driven.start kickDev 0) putRun,
      t.1.published.length = 1 ∧ t.1.sys.kicked = true ∧ t.1.sys.ioeventfd = 0 ∧
        t.1.sys.handler = .read :=
    ⟨_, List.mem_of_getElem? (i := 7) rfl, rfl, rfl, rfl, rfl⟩
  have hserved := published_served kickDev_empty (by decide) ⟨8192, rfl, by decide⟩
    putRun_admitted t ht
  exact ⟨t, ht, hlen, hserved.2.2.2 hkicked hread (.inl hback)⟩

/-- **A kick gets everything served.** In every state of such a run in which a kick, a write of four
bytes to the notify address, is still to be read, the handler needs at most five steps more than
there are requests pending to serve all that were published and go back to sleep, if it is left
alone for so long. -/
theorem kick_serves_all {dev : VirtioBlkDev} {ring n p : Nat} (h : Blk.Batch dev ring n p [])
    (hen : dev.vq.enable ≠ 0) (hev : ∃ g, dev.vq.guestEvent = some g ∧ g + 4 ≤ ramSize)
    {es : List (BlkEvent × List Blk.Req)}
    (hes : ∀ t ∈ turns Driven.next (Driven.start dev p) es, Driven.Admitted ring n t) :
    ∀ t ∈ turns Driven.next (Driven.start dev p) es, t.1.sys.killed = false →
      t.1.sys.ioeventfd ≠ 0 → ∀ req,
      ∃ k ≤ t.1.pending.length + 5, ∃ d',
        Driven.alone req k t.1 = some d' ∧ d'.sys.handler = .read ∧
        d'.served.map (·.req) = t.1.published := by
  intro t ht hk hfd req
  have hbook : Driven.Book ring n p dev t.1 :=
    turns_invariant (fun _ _ _ hs ha hn => hs.step ha hn) (Driven.book_start h hen hev) hes t ht
  obtain ⟨k, hle, d', hwent, hread, hnil⟩ := hbook.through hk req hfd
  refine ⟨k, hle, d', hwent.run, hread, ?_⟩
  rw [← hwent.published, hwent.book.order, hnil, List.append_nil]

theorem kick_serves_all_put :
    ∃ t ∈ turns Driven.next (Driven.start kickDev 0) putRun, t.1.published.length = 1 ∧
    t.1.served = [] ∧ ∃ k ≤ 6, ∃ d',
      Driven.alone (fun _ => 0) k t.1 = some d' ∧ d'.sys.handler = .read ∧
      d'.served.map (·.req) = t.1.published := by
  obtain ⟨t, ht, hlen, hnone, hp, hk, hfd⟩ :
      ∃ t ∈ turns Driven.next (Driven.start kickDev 0) putRun,
      t.1.published.length = 1 ∧ t.1.served = [] ∧ t.1.pending.length = 1 ∧ t.1.sys.killed = false ∧
        t.1.sys.ioeventfd ≠ 0 :=
    ⟨_, List.mem_of_getElem? (i := 2) rfl, rfl, rfl, rfl, rfl, by decide⟩
  refine ⟨t, ht, hlen, hnone, ?_⟩
  have := kick_serves_all kickDev_empty (by decide)
      ⟨8192, rfl, by decide⟩ putRun_admitted t ht hk hfd fun _ => 0
  rwa [hp] at this

end KvmHost
