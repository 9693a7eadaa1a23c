import KvmHost.Lib.Doorbell
import KvmHost.Lib.Turns
import KvmHost.NetBuffers
import KvmHost.VirtioPci

/-!
# KvmHost.NetThreads

The two threads of the network device, `virtio_net_vq_avail_handler_rx` and
`virtio_net_vq_avail_handler_tx`.

Each thread passes through the same positions: it tests `thread_stop`, writes ENABLE to the queue's
event flags, polls, and runs `virtq_handle_avail`, which ends with a test of those flags. The
receive thread polls the tap, the transmit thread the tap and `tx_ioeventfd`. No one reads an
eventfd of this device, so a counter that was raised stays raised.

* `used_signalled`: however the two threads and the guest interleave, every buffer marked used is
  followed by its interrupt and there is no other, as long as the guest leaves the flags alone while
  a thread is between writing and testing them.
* `one_kick_sends_all`: one kick lets the transmit thread send all that is posted, then and later.
-/

namespace KvmHost

open ByteStore Lap Turns

/-- Where a queue's thread is. -/
inductive NetThread where
  /-- at `while (!__atomic_load_n(&thread_stop, ..))` -/
  | loop
  /-- at `vq->guest_event->flags = VRING_PACKED_EVENT_FLAG_ENABLE` -/
  | arm
  /-- in `poll` -/
  | poll
  /-- at `if (!vq->info.enable)` of `virtq_handle_avail` -/
  | enabled
  /-- at `virtq_complete_request` -/
  | complete
  /-- at the test of `vq->guest_event->flags` -/
  | event
  | returned
deriving DecidableEq, Repr

/-- The thread has written the flags and has not tested them yet. -/
def NetThread.armed : NetThread → Bool
  | poll | enabled | complete | event => true
  | loop | arm | returned => false

structure NetThreads where
  net : NetSys
  thread : NetQueue → NetThread
  /-- the counters of `rx_ioeventfd` and `tx_ioeventfd` -/
  ioeventfd : NetQueue → Nat
  threadStop : Bool

inductive NetThreadsEvent where
  /-- the guest leaves its memory with these bytes -/
  | memory (m : Store)
  | kick (q : NetQueue)
  /-- the thread of `q` goes on; `tap` is whether `poll` reports the tap as ready -/
  | thread (q : NetQueue) (tap : Bool)
  /-- the store to `thread_stop` in `virtio_net_exit` -/
  | stop

namespace NetThreads

def go (s : NetThreads) (q : NetQueue) (t : NetThread) : NetThreads :=
  { s with thread := Function.update s.thread q t }

def put (s : NetThreads) (q : NetQueue) (d : VirtioNetDev) (t : NetThread) : NetThreads :=
  { s.go q t with net := s.net.put q d }

/-- `virtio_net_virtq_available_rx` and `virtio_net_virtq_available_tx`, when `poll` returns. -/
def virtqAvailable (s : NetThreads) (q : NetQueue) (tap : Bool) : Bool :=
  match q with
  | .rx => tap
  | .tx => s.ioeventfd .tx != 0 && tap

def threadStep (s : NetThreads) (q : NetQueue) (tap : Bool) : Option NetThreads :=
  match s.thread q with
  | .loop => some (s.go q (if s.threadStop then .returned else .arm))
  | .arm =>
    match enableGuestEvent (s.net.dev q) with
    | .ok d => some (s.put q d .poll)
    | .error _ => none
  | .poll => some (s.go q (if s.virtqAvailable q tap then .enabled else .loop))
  | .enabled => some (s.go q (if (s.net.vq q).enable = 0 then .loop else .complete))
  | .complete =>
    match q.call (s.net.dev q) with
    | .ok d => some (s.put q d .event)
    | .error _ => none
  | .event =>
    match s.net.ram.load ((s.net.vq q).guestEvent.plus 2) 2 with
    | .ok flags =>
      if flags = vringPackedEventFlagEnable then
        match writeIrqfd (s.net.dev q) with
        | .ok d => some (s.put q d .loop)
        | .error _ => none
      else some (s.go q .loop)
    | .error _ => none
  | .returned => none

/-- One step; `none` where a thread has returned or fails. -/
def step (s : NetThreads) : NetThreadsEvent → Option NetThreads
  | .memory m => some { s with net := { s.net with ram := { s.net.ram with bytes := m } } }
  | .kick q =>
    some { s with ioeventfd := Function.update s.ioeventfd q (Doorbell.signal (s.ioeventfd q)) }
  | .thread q tap => s.threadStep q tap
  | .stop => some { s with threadStop := true }

/-- As `virtio_net_enable_vq_rx` and `virtio_net_enable_vq_tx` leave it. -/
def start (net : NetSys) : NetThreads where
  net := net
  thread := fun _ => .loop
  ioeventfd := fun _ => 0
  threadStop := false

end NetThreads

/-! ## What a call does to guest memory -/

section Outcome

variable {dev dev' : VirtioNetDev} {ring n g : Nat} {q : NetQueue}

/-- The buffer of the descriptor at `a`. -/
def Ram.bufSpan (ram : Ram) (a : Nat) : Span := ⟨ram.bufAt a, (descAt ram.bytes a).len⟩

/-- The three ways a call returns: nothing to take, a buffer taken and given up, a buffer marked
used. -/
inductive CallOutcome (dev : VirtioNetDev) (ring n g : Nat) (dev' : VirtioNetDev) : Prop where
  | idle : dev'.trace = dev.trace →
      dev'.ram.bytes = putLE dev.ram.bytes (g + 2) 2 vringPackedEventFlagDisable →
        CallOutcome dev ring n g dev'
  | failed {a : Nat} {d₁ : VirtioNetDev} {m : Store} : dev.getAvail = .ok (some a, d₁) →
      dev'.trace = dev.trace ++ [.take a] →
        (∀ x, ¬ (dev.ram.bufSpan a).Has x → m x = dev.ram.bytes x) →
      dev'.ram.bytes = putLE m (g + 2) 2 vringPackedEventFlagDisable → CallOutcome dev ring n g dev'
  | done {a : Nat} {d₁ : VirtioNetDev} : dev.getAvail = .ok (some a, d₁) →
      dev'.trace = dev.trace ++ [.take a, .used a] →
      (∀ x, ¬ (dev.ram.bufSpan a).Has x → ¬ Span.Has ⟨ring, 16 * n⟩ x →
        dev'.ram.bytes x = dev.ram.bytes x) →
      CallOutcome dev ring n g dev'

theorem disableGuestEvent_bytes (hg : dev.vq.guestEvent = some g) (hin : g + 4 ≤ ramSize)
    (h : disableGuestEvent dev = .ok dev') :
    dev'.ram.bytes = putLE dev.ram.bytes (g + 2) 2 vringPackedEventFlagDisable ∧
      dev'.trace = dev.trace := by
  have hplus : Ptr.plus (some g) 2 = some (g + 2) := plus_ram (by omega)
  unfold disableGuestEvent at h
  rw [hg, hplus, Ram.store_ok (by omega), ok_bind] at h
  cases h
  exact ⟨rfl, rfl⟩

/-- The device after the thread has written ENABLE. -/
def armedDev (dev : VirtioNetDev) (g : Nat) : VirtioNetDev :=
  { dev with
    ram :=
      { dev.ram with
        bytes := putLE dev.ram.bytes (g + 2) 2 vringPackedEventFlagEnable } }

theorem enableGuestEvent_ok (hg : dev.vq.guestEvent = some g) (hin : g + 4 ≤ ramSize) :
    enableGuestEvent dev = .ok (armedDev dev g) := by
  have hplus : Ptr.plus (some g) 2 = some (g + 2) := plus_ram (by omega)
  unfold enableGuestEvent
  rw [hg, hplus, Ram.store_ok (by omega)]
  rfl

theorem slot_in_ring (h : RingOf dev.vq ring n) {a : Nat} {d₁ : VirtioNetDev}
    (hget : dev.getAvail = .ok (some a, d₁)) {x : Nat} (hx : ¬ Span.Has ⟨ring, 16 * n⟩ x) :
    ¬ Span.Has ⟨a, 16⟩ x := by
  obtain ⟨ha, -⟩ := VqDev.getAvail_slot h hget
  have hidx := h.idx
  simp only [Span.Has] at hx ⊢
  omega

theorem rx_outcome (hp : Posted dev ring n virtioHeaderLen) (hg : dev.vq.guestEvent = some g)
    (hin : g + 4 ≤ ramSize) (h : virtioNetCompleteRequestRx dev = .ok dev') :
    CallOutcome dev ring n g dev' := by
  rcases getAvail_cases hp.ringOf with hget | ⟨a, d₁, hget⟩
  · rw [rx_null hget] at h
    obtain ⟨hbytes, htrace⟩ := disableGuestEvent_bytes hg hin h
    exact .idle htrace hbytes
  · have hb := hp.buffer a d₁ hget
    obtain ⟨-, -, htr, hev⟩ := getAvail_same hget
    rw [rx_taken hp hget] at h
    cases hret : dev.backend.returns ((descAt dev.ram.bytes a).len - virtioHeaderLen) with
    | none =>
      rw [hret] at h
      obtain ⟨hbytes, htrace⟩ := disableGuestEvent_bytes (g := g) (by rw [← hg, ← hev]; rfl) hin h
      refine .failed hget (htrace.trans htr) (fun x hx => patch_out ?_) hbytes
      have hleast := hb.least
      have hlen : virtioNetHdr.length = virtioHeaderLen := rfl
      simp only [Ram.bufSpan, Span.Has, hlen] at hx ⊢
      omega
    | some bs =>
      rw [hret] at h
      cases h
      refine .done hget rfl fun x hx hring => ?_
      have hslot := slot_in_ring hp.ringOf hget hring
      have hleast := hb.least
      have hfits := Tap.returns_length hret
      have hlen : (virtioNetHdr ++ bs).length = virtioHeaderLen + bs.length := by
        rw [List.length_append]
        rfl
      simp only [Ram.bufSpan, Span.Has] at hx hslot
      simp only [rxDone, rxMem]
      rw [putLE_out (by simp only [Span.Has]; omega), putLE_out (by simp only [Span.Has]; omega),
        patch_out (by simp only [Span.Has, hlen]; omega)]

theorem tx_outcome (hp : Posted dev ring n 0) (hg : dev.vq.guestEvent = some g)
    (hin : g + 4 ≤ ramSize) (h : virtioNetCompleteRequestTx dev = .ok dev') :
    CallOutcome dev ring n g dev' := by
  rcases getAvail_cases hp.ringOf with hget | ⟨a, d₁, hget⟩
  · rw [tx_null hget] at h
    obtain ⟨hbytes, htrace⟩ := disableGuestEvent_bytes hg hin h
    exact .idle htrace hbytes
  · obtain ⟨hram, -, htr, hev⟩ := getAvail_same hget
    rw [tx_taken hp hget] at h
    split at h
    · obtain ⟨hbytes, htrace⟩ := disableGuestEvent_bytes (hev.trans hg) hin h
      refine .failed hget (htrace.trans htr) (fun x _ => ?_) hbytes
      rw [hram]
    · split at h
      · cases h
        refine .done hget rfl fun x _ hring => ?_
        have hslot := slot_in_ring hp.ringOf hget hring
        exact putLE_out (by simp only [Span.Has] at hslot ⊢; omega)
      · obtain ⟨hbytes, htrace⟩ := disableGuestEvent_bytes (g := g) (by rw [← hg, ← hev]) hin h
        refine .failed hget (htrace.trans htr) (fun x _ => ?_) hbytes
        rw [hram]

theorem call_outcome (hp : Posted dev ring n q.least) (hg : dev.vq.guestEvent = some g)
    (hin : g + 4 ≤ ramSize) (h : q.call dev = .ok dev') : CallOutcome dev ring n g dev' := by
  cases q with
  | rx => exact rx_outcome hp hg hin h
  | tx => exact tx_outcome hp hg hin h

theorem call_moved (h : q.call dev = .ok dev') : dev.vq.Moved dev'.vq := by
  cases q with
  | rx => exact virtioNetCompleteRequestRx_moved h
  | tx => exact virtioNetCompleteRequestTx_moved h

/-- A call touches the buffer it takes, the ring and its own event flags. -/
theorem CallOutcome.frame (h : CallOutcome dev ring n g dev') {s : Span}
    (hbuf : ∀ a d₁, dev.getAvail = .ok (some a, d₁) → (dev.ram.bufSpan a).Apart s)
    (hring : Span.Apart ⟨ring, 16 * n⟩ s) (hev : Span.Apart ⟨g + 2, 2⟩ s) {x : Nat} (hx : s.Has x) :
    dev'.ram.bytes x = dev.ram.bytes x := by
  have hflags : ∀ m : Store, putLE m (g + 2) 2 vringPackedEventFlagDisable x = m x :=
    fun m => putLE_out (hev.symm.not_has hx)
  cases h with
  | idle _ hbytes => rw [hbytes, hflags]
  | failed hget _ hm hbytes => rw [hbytes, hflags, hm x ((hbuf _ _ hget).symm.not_has hx)]
  | done hget _ hsame => exact hsame x ((hbuf _ _ hget).symm.not_has hx) (hring.symm.not_has hx)

end Outcome

/-! ## Every used buffer has its interrupt -/

/-- Each `used` is followed by `notify`, and there is no other `notify`. -/
def paired : List RingEvent → Bool
  | [] => true
  | .take _ :: es => paired es
  | .used _ :: .notify :: es => paired es
  | _ => false

theorem paired_append {xs : List RingEvent} (h : paired xs = true) (ys : List RingEvent) :
    paired (xs ++ ys) = paired ys := by
  fun_induction paired xs with
  | case1 => rfl
  | case2 a es ih => exact ih h
  | case3 a es ih => exact ih h
  | case4 => cases h

/-- The flags word of the event area at `g`. -/
def eventFlags (m : Store) (g : Nat) : Nat := getLE m (g + 2) 2

/-- Where the driver put the rings and the event areas of the two queues. -/
structure NetLayout (ring n g : NetQueue → Nat) : Prop where
  inRam : ∀ q, g q + 4 ≤ ramSize
  events : ∀ q q', q ≠ q' → Span.Apart ⟨g q + 2, 2⟩ ⟨g q' + 2, 2⟩
  rings : ∀ q q', Span.Apart ⟨ring q, 16 * n q⟩ ⟨g q' + 2, 2⟩

namespace NetThreads

/-- What is asked of the driver: it does not write the flags of a queue whose thread is between
writing and testing them. At a call the ring is in guest memory, and the buffer under the cursor, if
there is one, is in guest memory and clear of the ring and of the flags of both queues; a receive
buffer has at least 12 bytes. -/
def Mannered (ring n g : NetQueue → Nat) (t : NetThreads × NetThreadsEvent) : Prop :=
  match t.2 with
  | .memory m =>
    ∀ q, (t.1.thread q).armed = true → eventFlags m (g q) = eventFlags t.1.net.ram.bytes (g q)
  | .thread q _ => t.1.thread q = .complete → Posted (t.1.net.dev q) (ring q) (n q) q.least ∧
      ∀ a d₁, (t.1.net.dev q).getAvail = .ok (some a, d₁) →
        ∀ q', (t.1.net.ram.bufSpan a).Apart ⟨g q' + 2, 2⟩
  | _ => True

/-- What queue `q` has done to its ring, for where its thread is and what the flags say. -/
def Settled (trace : List RingEvent) (t : NetThread) (flags : Nat) : Prop :=
  match t with
  | .event =>
    (flags = vringPackedEventFlagEnable ∧ ∃ es a, trace = es ++ [.used a] ∧ paired es = true) ∨
      (flags = vringPackedEventFlagDisable ∧ paired trace = true)
  | .poll | .enabled | .complete => flags = vringPackedEventFlagEnable ∧ paired trace = true
  | .loop | .arm | .returned => paired trace = true

structure Signalled (g : NetQueue → Nat) (s : NetThreads) : Prop where
  event : ∀ q, (s.net.vq q).guestEvent = some (g q)
  settled : ∀ q, Settled (s.net.trace q) (s.thread q) (eventFlags s.net.ram.bytes (g q))

section

variable {ring n g : NetQueue → Nat} {s s' : NetThreads} {q : NetQueue}

theorem settled_flags {trace : List RingEvent} {t : NetThread} {f f' : Nat} (h : Settled trace t f)
    (hf : t.armed = true → f' = f) : Settled trace t f' := by
  cases t <;> simp only [NetThread.armed, Settled, forall_const, Bool.false_eq_true, false_implies]
    at hf h ⊢
  all_goals first | exact h | (rw [hf]; exact h)

/-- A step of the thread of `q` that leaves the flags of the other queue alone. -/
theorem Signalled.put (h : Signalled g s) {d : VirtioNetDev} {t : NetThread}
    (hev : d.vq.guestEvent = (s.net.vq q).guestEvent)
    (hother : ∀ q', q' ≠ q → eventFlags d.ram.bytes (g q') = eventFlags s.net.ram.bytes (g q'))
    (hself : Settled d.trace t (eventFlags d.ram.bytes (g q))) : Signalled g (s.put q d t) := by
  refine ⟨fun q' => ?_, fun q' => ?_⟩
  · by_cases hq : q' = q
    · subst hq
      simp only [NetThreads.put, NetSys.put, Function.update_self, hev, h.event]
    · simp only [NetThreads.put, NetSys.put, Function.update_of_ne hq, h.event]
  · by_cases hq : q' = q
    · subst hq
      simp only [NetThreads.put, NetThreads.go, NetSys.put, Function.update_self]
      exact hself
    · simp only [NetThreads.put, NetThreads.go, NetSys.put, Function.update_of_ne hq, hother q' hq]
      exact h.settled q'

theorem Signalled.go (h : Signalled g s) {t : NetThread}
    (hself : Settled (s.net.trace q) t (eventFlags s.net.ram.bytes (g q))) :
    Signalled g (s.go q t) := by
  refine ⟨h.event, fun q' => ?_⟩
  by_cases hq : q' = q
  · subst hq
    simp only [NetThreads.go, Function.update_self]
    exact hself
  · simp only [NetThreads.go, Function.update_of_ne hq]
    exact h.settled q'

theorem eventFlags_put (m : Store) (g v : Nat) (hv : v < 2 ^ 16) :
    eventFlags (putLE m (g + 2) 2 v) g = v := by
  unfold eventFlags
  rw [getLE_putLE_same]
  exact Nat.mod_eq_of_lt hv

theorem eventFlags_apart {m : Store} {g g' v : Nat} (h : Span.Apart ⟨g + 2, 2⟩ ⟨g' + 2, 2⟩) :
    eventFlags (putLE m (g + 2) 2 v) g' = eventFlags m g' :=
  getLE_putLE_apart h.symm

theorem Signalled.arm (hl : NetLayout ring n g) (h : Signalled g s) {d : VirtioNetDev}
    (hr : s.thread q = .arm) (harm : enableGuestEvent (s.net.dev q) = .ok d) :
    Signalled g (s.put q d .poll) := by
  have hset := h.settled q
  rw [hr] at hset
  have hok : enableGuestEvent (s.net.dev q) = .ok (armedDev (s.net.dev q) (g q)) :=
    enableGuestEvent_ok (h.event q) (hl.inRam q)
  rw [hok] at harm
  cases harm
  refine h.put rfl (fun q' hq => eventFlags_apart (hl.events q q' (Ne.symm hq))) ⟨?_, hset⟩
  exact eventFlags_put _ _ _ (by decide)

/-- A call that marks a buffer used leaves the flags as its thread wrote them, any other one turns
them off. -/
theorem Signalled.complete (hl : NetLayout ring n g) (h : Signalled g s) {d : VirtioNetDev}
    (hr : s.thread q = .complete) (hp : Posted (s.net.dev q) (ring q) (n q) q.least)
    (hbuf : ∀ a d₁, (s.net.dev q).getAvail = .ok (some a, d₁) →
      ∀ q', (s.net.ram.bufSpan a).Apart ⟨g q' + 2, 2⟩)
    (hcall : q.call (s.net.dev q) = .ok d) : Signalled g (s.put q d .event) := by
  have hset := h.settled q
  rw [hr] at hset
  obtain ⟨hflags, hpaired⟩ := hset
  have hout : CallOutcome (s.net.dev q) (ring q) (n q) (g q) d :=
    call_outcome hp (h.event q) (hl.inRam q) hcall
  refine h.put (call_moved hcall).guestEvent ?_ ?_
  · intro q' hq
    exact getLE_congr fun i hi =>
      hout.frame (s := ⟨g q' + 2, 2⟩) (fun a d₁ hget => hbuf a d₁ hget q')
      (hl.rings q q') (hl.events q q' (Ne.symm hq)) (by simp only [Span.Has]; omega)
  · cases hout with
    | idle htrace hbytes =>
      right
      rw [hbytes, htrace]
      exact ⟨eventFlags_put _ _ _ (by decide), hpaired⟩
    | failed hget htrace _ hbytes =>
      right
      rw [hbytes, htrace]
      refine ⟨eventFlags_put _ _ _ (by decide), ?_⟩
      exact paired_append hpaired _
    | @done a d₁ hget htrace hsame =>
      left
      refine ⟨?_, (s.net.trace q) ++ [.take a], a, ?_, paired_append hpaired _⟩
      · rw [← hflags]
        refine getLE_congr fun i hi => hsame _ ?_ ?_
        · exact ((hbuf a d₁ hget q).symm).not_has (by simp only [Span.Has]; omega)
        · exact ((hl.rings q q).symm).not_has (by simp only [Span.Has]; omega)
      · rw [htrace, List.append_assoc]
        rfl

theorem Signalled.event_test (hl : NetLayout ring n g) (h : Signalled g s) {flags : Nat}
    (hr : s.thread q = .event)
    (hload : s.net.ram.load ((s.net.vq q).guestEvent.plus 2) 2 = .ok flags) :
    (flags = vringPackedEventFlagEnable →
      Signalled g (s.put q { s.net.dev q with trace := s.net.trace q ++ [.notify] } .loop)) ∧
    (flags ≠ vringPackedEventFlagEnable → Signalled g (s.go q .loop)) := by
  have hset := h.settled q
  rw [hr] at hset
  have hin := hl.inRam q
  have hflags : flags = eventFlags s.net.ram.bytes (g q) := by
    rw [h.event q, plus_ram (by omega), Ram.load_ok (by omega)] at hload
    cases hload
    rfl
  refine ⟨fun hen => ?_, fun hdis => ?_⟩
  · rcases hset with ⟨-, es, a, htrace, hpaired⟩ | ⟨hoff, -⟩
    · refine h.put rfl (fun _ _ => rfl) ?_
      show paired (s.net.trace q ++ [.notify]) = true
      rw [htrace, List.append_assoc, paired_append hpaired]
      rfl
    · rw [← hflags, hen] at hoff
      cases hoff
  · rcases hset with ⟨hon, -⟩ | ⟨-, hpaired⟩
    · exact absurd (hflags.trans hon) hdis
    · exact h.go hpaired

theorem Signalled.threadStep (hl : NetLayout ring n g) (h : Signalled g s) {tap : Bool}
    (hm : Mannered ring n g (s, .thread q tap)) (hn : s.threadStep q tap = some s') :
    Signalled g s' := by
  have hset := h.settled q
  unfold NetThreads.threadStep at hn
  split at hn
  · rename_i hr
    cases hn
    rw [hr] at hset
    refine h.go ?_
    split <;> exact hset
  · rename_i hr
    split at hn
    · cases hn
      exact h.arm hl hr ‹_›
    · cases hn
  · rename_i hr
    cases hn
    rw [hr] at hset
    refine h.go ?_
    split
    · exact hset
    · exact hset.2
  · rename_i hr
    cases hn
    rw [hr] at hset
    refine h.go ?_
    split
    · exact hset.2
    · exact hset
  · rename_i hr
    obtain ⟨hp, hbuf⟩ := hm hr
    split at hn
    · cases hn
      exact h.complete hl hr hp hbuf ‹_›
    · cases hn
  · rename_i hr
    split at hn
    · rename_i flags hload
      obtain ⟨hon, hoff⟩ := h.event_test hl hr hload
      split at hn
      · cases hn
        exact hon ‹_›
      · cases hn
        exact hoff ‹_›
    · cases hn
  · cases hn

theorem Signalled.step (hl : NetLayout ring n g) (h : Signalled g s) {e : NetThreadsEvent}
    (hm : Mannered ring n g (s, e)) (hn : s.step e = some s') : Signalled g s' := by
  cases e with
  | memory m =>
    cases hn
    exact ⟨h.event, fun q => settled_flags (h.settled q) (hm q)⟩
  | kick q =>
    cases hn
    exact ⟨h.event, h.settled⟩
  | thread q tap => exact h.threadStep hl hm hn
  | stop =>
    cases hn
    exact ⟨h.event, h.settled⟩

end

end NetThreads

/-- **Every used buffer has its interrupt.** However the two threads, the guest's writes and its
kicks interleave, in every state of a run with a mannered driver and for both queues: each buffer
marked used is followed by its own interrupt, but for one that the thread is about to test the flags
for, and no other interrupt is raised. The driver is mannered: its buffers are in guest memory,
clear of the ring and of the flags, receive buffers have room for the header of 12 bytes, and it
leaves the flags alone while they are tested. A call of `virtio_net_complete_request_rx` or `_tx` is
one step. -/
theorem used_signalled {ring n g : NetQueue → Nat} (hl : NetLayout ring n g) {net : NetSys}
    (hev : ∀ q, (net.vq q).guestEvent = some (g q)) (hnew : ∀ q, net.trace q = [])
    {es : List NetThreadsEvent}
    (hes : ∀ t ∈ turns NetThreads.step (NetThreads.start net) es, NetThreads.Mannered ring n g t) :
    ∀ t ∈ turns NetThreads.step (NetThreads.start net) es, ∀ q,
      paired (t.1.net.trace q) = true ∨
        t.1.thread q = .event ∧ ∃ es a, t.1.net.trace q = es ++ [.used a] ∧ paired es = true := by
  intro t ht q
  have hstart : NetThreads.Signalled g (NetThreads.start net) := by
    refine ⟨hev, fun q => ?_⟩
    show paired (net.trace q) = true
    rw [hnew]
    rfl
  have h : NetThreads.Signalled g t.1 :=
    turns_invariant (fun _ _ _ hs hm hn => hs.step hl hm hn) hstart hes t ht
  have hset := h.settled q
  cases hr : t.1.thread q <;> rw [hr] at hset
  case event =>
    rcases hset with ⟨-, hused⟩ | ⟨-, hpaired⟩
    · exact .inr ⟨rfl, hused⟩
    · exact .inl hpaired
  case loop | arm | returned => exact .inl hset
  case poll | enabled | complete => exact .inl hset.2

/-- The two queues of `echoSys`, enabled. -/
def threadNet : NetSys :=
  { echoSys with
    vq := fun q => { echoSys.vq q with info := putLE (echoSys.vq q).info 4 2 1 } }

/-- The receive thread passes once: it takes a frame and raises the interrupt. -/
theorem used_signalled_rx :
    ∃ t ∈ turns NetThreads.step (NetThreads.start threadNet) (List.replicate 7 (.thread .rx true)),
      t.1.net.trace .rx = [.take 0, .used 0, .notify] ∧ paired (t.1.net.trace .rx) = true := by
  have hl : NetLayout (fun q => if q = .rx then 0 else 512) (fun _ => 2)
      (fun q => if q = .rx then 36 else 548) := by
    refine ⟨?_, ?_, ?_⟩
    · intro q; cases q <;> decide
    · intro q q' hne; cases q <;> cases q' <;> first | exact absurd rfl hne | decide
    · intro q q'; cases q <;> cases q' <;> decide
  have hes : ∀ t ∈ turns NetThreads.step (NetThreads.start threadNet)
      (List.replicate 7 (.thread .rx true)),
      NetThreads.Mannered (fun q => if q = .rx then 0 else 512) (fun _ => 2)
        (fun q => if q = .rx then 36 else 548) t := by
    refine turns_next rfl (fun h => absurd h (by decide)) ?_
    refine turns_next rfl (fun h => absurd h (by decide)) ?_
    refine turns_next rfl (fun h => absurd h (by decide)) ?_
    refine turns_next rfl (fun h => absurd h (by decide)) ?_
    refine turns_next rfl (fun _ => ⟨?_, ?_⟩) ?_
    · exact posted_of_cursor ⟨rfl, by decide +kernel, by decide, by decide⟩
        ⟨by decide +kernel, by decide +kernel, by decide +kernel, by decide +kernel⟩
    · intro a d₁ hget q'
      have ha : a = 0 + 16 * 0 :=
        (VqDev.getAvail_slot (n := 2) ⟨rfl, by decide +kernel, by decide, by decide⟩ hget).1
      cases ha
      cases q' <;> decide +kernel
    refine turns_next rfl (fun h => absurd h (by decide)) ?_
    refine turns_next rfl (fun h => absurd h (by decide)) ?_
    intro t ht; cases ht
  obtain ⟨t, ht, htrace⟩ : ∃ t ∈ turns NetThreads.step (NetThreads.start threadNet)
      (List.replicate 7 (.thread .rx true)),
      t.1.net.trace .rx = [.take 0, .used 0, .notify] := ⟨_, List.mem_of_getElem? (i := 6) rfl, rfl⟩
  refine ⟨t, ht, htrace, ?_⟩
  rcases used_signalled hl (fun q => by cases q <;> rfl)
    (fun _ => rfl) hes t ht .rx with h | ⟨-, es, a, h, -⟩
  · exact h
  · rw [htrace] at h
    have hlast := congrArg List.getLast? h
    simp at hlast

/-! ## One kick is enough -/

namespace NetThreads

/-- The thread of `q` alone, for `k` steps, the tap being ready. -/
def alone (q : NetQueue) : Nat → NetThreads → Option NetThreads
  | 0, s => some s
  | k + 1, s => (s.step (.thread q true)).bind (alone q k)

theorem alone_add (q : NetQueue) (a b : Nat) :
    ∀ s : NetThreads, alone q (a + b) s = (alone q a s).bind (alone q b) := by
  induction a with
  | zero =>
    intro s
    rw [Nat.zero_add]
    rfl
  | succ a ih =>
    intro s
    rw [show a + 1 + b = (a + b) + 1 by omega, alone, alone]
    cases s.step (.thread q true) with
    | none => rfl
    | some s' => exact ih s'

section

variable (s : NetThreads) (q : NetQueue) (d : VirtioNetDev) (t : NetThread)

@[simp] theorem go_net : (s.go q t).net = s.net := rfl
@[simp] theorem go_thread : (s.go q t).thread q = t := Function.update_self ..
@[simp] theorem go_ioeventfd : (s.go q t).ioeventfd = s.ioeventfd := rfl
@[simp] theorem go_threadStop : (s.go q t).threadStop = s.threadStop := rfl
@[simp] theorem put_dev : (s.put q d t).net.dev q = d := by
  simp only [put, NetSys.put, NetSys.dev, Function.update_self]
@[simp] theorem put_vq : (s.put q d t).net.vq q = d.vq := by
  simp only [put, NetSys.put, Function.update_self]
@[simp] theorem put_trace : (s.put q d t).net.trace q = d.trace := by
  simp only [put, NetSys.put, Function.update_self]
@[simp] theorem put_ram : (s.put q d t).net.ram = d.ram := rfl
@[simp] theorem put_tap : (s.put q d t).net.tap = d.backend := rfl
@[simp] theorem put_thread : (s.put q d t).thread q = t := Function.update_self ..
@[simp] theorem put_ioeventfd : (s.put q d t).ioeventfd = s.ioeventfd := rfl
@[simp] theorem put_threadStop : (s.put q d t).threadStop = s.threadStop := rfl

end

section

variable {s s' : NetThreads} {q : NetQueue} {d : VirtioNetDev}

theorem alone_step (h : s.step (.thread q true) = some s') (k : Nat) :
    alone q (k + 1) s = alone q k s' := by
  rw [alone, h]
  rfl

theorem step_loop (hr : s.thread q = .loop) (hrun : s.threadStop = false) :
    s.step (.thread q true) = some (s.go q .arm) := by
  simp [step, threadStep, hr, hrun]

theorem step_arm (hr : s.thread q = .arm) (harm : enableGuestEvent (s.net.dev q) = .ok d) :
    s.step (.thread q true) = some (s.put q d .poll) := by
  simp [step, threadStep, hr, harm]

theorem step_poll (hr : s.thread q = .poll) (hready : s.virtqAvailable q true = true) :
    s.step (.thread q true) = some (s.go q .enabled) := by
  simp [step, threadStep, hr, hready]

theorem step_enabled (hr : s.thread q = .enabled) (hen : (s.net.vq q).enable ≠ 0) :
    s.step (.thread q true) = some (s.go q .complete) := by
  simp [step, threadStep, hr, hen]

theorem step_complete (hr : s.thread q = .complete) (hcall : q.call (s.net.dev q) = .ok d) :
    s.step (.thread q true) = some (s.put q d .event) := by
  simp [step, threadStep, hr, hcall]

end

section Counter

variable {s s' : NetThreads}

theorem step_ioeventfd {e : NetThreadsEvent} (h : s.step e = some s') (q : NetQueue) :
    s.ioeventfd q ≤ s'.ioeventfd q := by
  cases e with
  | memory m =>
    cases h
    exact Nat.le_refl _
  | kick q' =>
    cases h
    by_cases hq : q = q'
    · subst hq
      simp only [Function.update_self]
      exact Doorbell.le_signal _
    · simp only [Function.update_of_ne hq]
      exact Nat.le_refl _
  | thread q' tap =>
    -- no thread reads an eventfd
    have hsame : s'.ioeventfd = s.ioeventfd := by
      simp only [step, threadStep] at h
      split at h
      case h_5 | h_2 =>
        split at h
        · cases h; rfl
        · cases h
      case h_6 =>
        split at h
        · split at h
          · cases h; rfl
          · cases h; rfl
        · cases h
      all_goals
        cases h
        try rfl
    exact Nat.le_of_eq (congrFun hsame.symm q)
  | stop =>
    cases h
    exact Nat.le_refl _

/-- A counter never falls: a queue that was kicked once stays kicked. -/
theorem ioeventfd_run (s : NetThreads) (es : List NetThreadsEvent) (q : NetQueue) :
    ∀ t ∈ turns NetThreads.step s es, s.ioeventfd q ≤ t.1.ioeventfd q := by
  refine turns_invariant (I := fun s' : NetThreads => s.ioeventfd q ≤ s'.ioeventfd q)
    (P := fun _ => True) ?_
    (Nat.le_refl _) fun _ _ => trivial
  intro s₁ e s₂ hle _ hn
  exact Nat.le_trans hle (step_ioeventfd hn q)

end Counter

/-- The transmit thread is at the head of its loop and the queue has been kicked, at any time before
(`ioeventfd_run`). -/
structure TxReady (s : NetThreads) : Prop where
  thread : s.thread .tx = .loop
  running : s.threadStop = false
  kicked : s.ioeventfd .tx ≠ 0
  enable : (s.net.vq .tx).enable ≠ 0

/-- What a transmit pass does to the ring for a buffer: an interrupt follows if it is marked
used. -/
def txSignals (part : Nat × List UInt8) : List RingEvent :=
  txEvents part ++ if part.2.length < virtioHeaderLen then [] else [.notify]

section Pass

variable {s : NetThreads} {ring n p k g : Nat}

/-- Writing the flags leaves the buffers posted. -/
theorem armed_posted {dev : VirtioNetDev} (h : TxPosted dev ring n p k g) :
    TxPosted (armedDev dev g) ring n p k g ∧
      txParts (armedDev dev g).ram ring n p k = txParts dev.ram ring n p k := by
  have hn := h.queue.pos
  have hdesc : ∀ q, descAt (armedDev dev g).ram.bytes (slotAt ring n q) =
      descAt dev.ram.bytes (slotAt ring n q) := by
    intro q
    refine descAt_congr fun x hx => putLE_out ?_
    exact h.eventRing.not_has (slotAt_in_ring hn q hx)
  have hbuf : ∀ q, (armedDev dev g).ram.bufAt (slotAt ring n q) =
      dev.ram.bufAt (slotAt ring n q) := by
    intro q
    unfold Ram.bufAt
    rw [hdesc]
    rfl
  refine ⟨⟨h.queue, h.size, ?_, ?_, h.event, h.eventIn, h.eventRing, ?_, h.accepts⟩, ?_⟩
  · intro q hle hlt
    rw [hdesc]
    exact h.avail q hle hlt
  · intro q hle hlt
    obtain ⟨habove, hin, hleast, hoff⟩ := h.buffer q hle hlt
    refine ⟨?_, ?_, ?_, ?_⟩
    · rw [hdesc]; exact habove
    · rw [hdesc, hbuf]; exact hin
    · rw [hdesc]; exact hleast
    · rw [hdesc, hbuf]; exact hoff
  · intro q hle hlt
    rw [hdesc, hbuf]
    exact h.eventBuffer q hle hlt
  · refine List.map_congr_left fun q hq => ?_
    rw [List.mem_range'_1] at hq
    unfold txPart
    dsimp only
    rw [hdesc, hbuf]
    exact congrArg _ (slice_patch_apart (by rw [toLE_length]; exact h.eventBuffer q hq.1 hq.2))

/-- The flags a transmit call leaves when they were ENABLE. -/
theorem tx_flags {dev dev₁ : VirtioNetDev} (h : TxPosted dev ring n p (k + 1) g)
    (hon : eventFlags dev.ram.bytes g = vringPackedEventFlagEnable)
    (hcall : virtioNetCompleteRequestTx dev = .ok dev₁)
    (htrace : dev₁.trace = dev.trace ++ txEvents (txPart dev.ram ring n p)) :
    eventFlags dev₁.ram.bytes g = if (txPart dev.ram ring n p).2.length < virtioHeaderLen then
      vringPackedEventFlagDisable else vringPackedEventFlagEnable := by
  have hget := VqDev.getAvail_some h.queue (h.avail p (Nat.le_refl p) (by omega))
  have hbuffer := h.eventBuffer p (Nat.le_refl p) (by omega)
  unfold txEvents at htrace
  cases tx_outcome h.posted h.event h.eventIn hcall with
  | idle hsame _ =>
    rw [hsame] at htrace
    split at htrace <;> simp at htrace
  | failed _ hfail _ hbytes =>
    rw [hfail] at htrace
    split at htrace
    · rw [if_pos ‹_›, hbytes]
      exact eventFlags_put _ _ _ (by decide)
    · simp at htrace
  | done hget' hdone hsame =>
    rw [hget] at hget'
    cases hget'
    rw [hdone] at htrace
    split at htrace
    · simp at htrace
    · rw [if_neg ‹_›, ← hon]
      refine getLE_congr fun i hi => hsame _ ?_ ?_
      · exact hbuffer.symm.not_has (by simp only [Span.Has]; omega)
      · exact h.eventRing.symm.not_has (by simp only [Span.Has]; omega)

/-- Where the transmit thread is when it comes to test the flags. -/
def txTested (s : NetThreads) (g : Nat) (dev₁ : VirtioNetDev) : NetThreads :=
  ((((s.go .tx .arm).put .tx (armedDev (s.net.dev .tx) g) .poll).go .tx .enabled).go .tx
    .complete).put .tx dev₁ .event

theorem alone_tested (hr : TxReady s) (hev : (s.net.vq .tx).guestEvent = some g)
    (hin : g + 4 ≤ ramSize) {dev₁ : VirtioNetDev}
    (hcall : virtioNetCompleteRequestTx (armedDev (s.net.dev .tx) g) = .ok dev₁) :
    alone .tx 5 s = some (txTested s g dev₁) := by
  have harm : enableGuestEvent (s.net.dev .tx) = .ok (armedDev (s.net.dev .tx) g) :=
    enableGuestEvent_ok hev hin
  rw [alone_step (step_loop hr.thread hr.running), alone_step (step_arm (go_thread ..) harm),
    alone_step (step_poll (put_thread ..) (by simp [virtqAvailable, hr.kicked])),
    alone_step (step_enabled (go_thread ..) (by rw [go_net, put_vq]; exact hr.enable)),
    alone_step (step_complete (go_thread ..) (by rw [go_net, go_net, put_dev]; exact hcall))]
  rfl

/-- The test of the flags, and the interrupt. -/
theorem step_tested {dev₁ : VirtioNetDev} (hev : dev₁.vq.guestEvent = some g)
    (hin : g + 4 ≤ ramSize) :
    (txTested s g dev₁).step (.thread .tx true) = some
      (if eventFlags dev₁.ram.bytes g = vringPackedEventFlagEnable then
        (txTested s g dev₁).put .tx { dev₁ with trace := dev₁.trace ++ [.notify] } .loop
      else (txTested s g dev₁).go .tx .loop) := by
  have hload : dev₁.ram.load (dev₁.vq.guestEvent.plus 2) 2 = .ok (eventFlags dev₁.ram.bytes g) := by
    rw [hev, plus_ram (by omega)]
    exact Ram.load_ok (by omega)
  simp only [step, threadStep, txTested, put_thread, put_ram, put_vq, hload, put_dev, writeIrqfd]
  split <;> rfl

/-- The flags are written, one descriptor is handled and the interrupt is raised if it was marked
used. -/
theorem tx_pass (hr : TxReady s) (h : TxPosted (s.net.dev .tx) ring n p (k + 1) g) :
    ∃ s', alone .tx 6 s = some s' ∧ TxReady s' ∧ TxPosted (s'.net.dev .tx) ring n (p + 1) k g ∧
      txParts s'.net.ram ring n (p + 1) k = txParts s.net.ram ring n (p + 1) k ∧
      s'.net.tap.sent = s.net.tap.sent ++ (txFrame (txPart s.net.ram ring n p)).toList ∧
      s'.net.trace .tx = s.net.trace .tx ++ txSignals (txPart s.net.ram ring n p) := by
  obtain ⟨h₀, hparts⟩ := armed_posted h
  rw [txParts_succ, txParts_succ, List.cons.injEq] at hparts
  obtain ⟨dev₁, hcall, h₁, hrest, hsent, htrace⟩ := tx_step h₀
  have hflags := tx_flags h₀ (eventFlags_put _ _ _ (by decide)) hcall htrace
  rw [hparts.1] at hsent htrace hflags
  have hsent : dev₁.backend.sent = s.net.tap.sent ++ (txFrame (txPart s.net.ram ring n p)).toList :=
    hsent
  have htrace : dev₁.trace = s.net.trace .tx ++ txEvents (txPart s.net.ram ring n p) := htrace
  have hrest : txParts dev₁.ram ring n (p + 1) k = txParts s.net.ram ring n (p + 1) k :=
    hrest.trans hparts.2
  have hen₁ : dev₁.vq.enable ≠ 0 := by
    rw [Virtq.enable, (virtioNetCompleteRequestTx_moved hcall).info]
    exact hr.enable
  have hfive := alone_tested hr h.event h.eventIn hcall
  have hlast := step_tested (s := s) h₁.event h.eventIn
  have hsix : ∀ {s'}, (txTested s g dev₁).step (.thread .tx true) = some s' →
      alone .tx 6 s = some s' := by
    intro s' hstep
    rw [alone_add .tx 5 1 s, hfive, Option.bind_some, alone_step hstep]
    rfl
  unfold txSignals
  by_cases hshort : (txPart s.net.ram ring n p).2.length < virtioHeaderLen
  · have hoff : eventFlags dev₁.ram.bytes g = vringPackedEventFlagDisable :=
      hflags.trans (if_pos hshort)
    rw [hoff, if_neg (by decide)] at hlast
    rw [if_pos hshort, List.append_nil]
    refine ⟨_, hsix hlast, ⟨go_thread .., hr.running, hr.kicked, ?_⟩, ?_, hrest, hsent, ?_⟩
    · rw [go_net, txTested, put_vq]
      exact hen₁
    · rw [go_net, txTested, put_dev]
      exact h₁
    · rw [go_net, txTested, put_trace]
      exact htrace
  · have hon : eventFlags dev₁.ram.bytes g = vringPackedEventFlagEnable :=
      hflags.trans (if_neg hshort)
    rw [hon, if_pos rfl] at hlast
    rw [if_neg hshort]
    refine ⟨_, hsix hlast, ⟨put_thread .., hr.running, hr.kicked, ?_⟩, ?_, hrest, hsent, ?_⟩
    · rw [put_vq]
      exact hen₁
    · rw [put_dev]
      exact ⟨h₁.queue, h₁.size, h₁.avail, h₁.buffer, h₁.event, h₁.eventIn, h₁.eventRing,
        h₁.eventBuffer, h₁.accepts⟩
    · rw [put_trace, htrace, List.append_assoc]

end Pass

end NetThreads

/-- **One kick is enough.** The transmit queue was kicked once, at any time before, and the counter
has not fallen since (`NetThreads.ioeventfd_run`). With `k` buffers posted that are in guest memory,
clear of the ring and of the event flags, and a tap that takes every frame, `k` passes of its thread
send the frames of the buffers, in ring order; each buffer that holds a header is marked used and
has its interrupt, and the thread is ready for what is posted next. -/
theorem one_kick_sends_all {ring n p k g : Nat} :
    ∀ {s : NetThreads}, s.TxReady →
    TxPosted (s.net.dev .tx) ring n p k g →
    ∃ s', NetThreads.alone .tx (6 * k) s = some s' ∧ s'.TxReady ∧
      s'.net.tap.sent = s.net.tap.sent ++ (txParts s.net.ram ring n p k).filterMap txFrame ∧
      s'.net.trace .tx = s.net.trace .tx ++
        (txParts s.net.ram ring n p k).flatMap NetThreads.txSignals := by
  induction k generalizing p with
  | zero =>
    intro s hr h
    refine ⟨s, rfl, hr, ?_, ?_⟩ <;> simp [txParts]
  | succ k ih =>
    intro s hr h
    obtain ⟨s₁, hrun₁, hr₁, h₁, hparts, hsent₁, htrace₁⟩ := NetThreads.tx_pass hr h
    obtain ⟨s', hrun, hr', hsent, htrace⟩ := ih hr₁ h₁
    refine ⟨s', ?_, hr', ?_, ?_⟩
    · rw [show 6 * (k + 1) = 6 + 6 * k by omega, NetThreads.alone_add, hrun₁]
      exact hrun
    · rw [hsent, hparts, hsent₁, txParts_succ, List.filterMap_cons]
      cases txFrame (txPart s.net.ram ring n p) <;> simp
    · rw [htrace, hparts, htrace₁, txParts_succ, List.flatMap_cons, List.append_assoc]

theorem one_kick_sends_all_echo :
    ∃ s', NetThreads.alone .tx 6 { NetThreads.start threadNet with ioeventfd := fun _ => 1 } =
      some s' ∧
      s'.net.tap.sent = [List.replicate 14 0] ∧
        s'.net.trace .tx = [.take 512, .used 512, .notify] := by
  have hposted : TxPosted (threadNet.dev .tx) 512 2 0 1 548 := by
    refine ⟨⟨rfl, by decide +kernel, by decide, by decide, rfl⟩,
      by decide, ?_, ?_, rfl, by decide, by decide, ?_, fun _ => rfl⟩
    · intro q hle hlt
      obtain rfl : q = 0 := by omega
      decide +kernel
    · intro q hle hlt
      obtain rfl : q = 0 := by omega
      exact ⟨by decide +kernel, by decide +kernel, by decide +kernel, by decide +kernel⟩
    · intro q hle hlt
      obtain rfl : q = 0 := by omega
      decide +kernel
  obtain ⟨s', hrun, -, hsent, htrace⟩ := one_kick_sends_all (k := 1)
    (s := { NetThreads.start threadNet with ioeventfd := fun _ => 1 })
      ⟨rfl, rfl, by decide, by decide +kernel⟩ hposted
  refine ⟨s', hrun, hsent.trans ?_, htrace.trans ?_⟩
  · decide +kernel
  · decide +kernel

end KvmHost
