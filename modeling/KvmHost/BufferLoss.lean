import KvmHost.BlkHostile
import KvmHost.VirtioNet

/-!
# KvmHost.BufferLoss

Which calls of the request handlers lose a buffer.

`virtq_get_avail` moves the cursor before anything is known about the request, and the handlers
return early when a tap call fails, when a transmit buffer is too short, and when a block chain ends
before its status descriptor. The descriptors taken up to then are behind the cursor and their head
is not marked used.

A call is judged by what it does to the ring: `settled` reads the events in order and asks that
every chain that is begun is closed by marking its head used. `no_buffer_lost_iff` says of any run
of calls, with the guest free to rewrite its memory between them, that no call leaves a hole exactly
when each call meets the condition of its handler. For the block device that condition looks at NEXT
where the source does, after the data has been moved; `linked_ring` brings it back to the ring as
the driver wrote it.
-/

namespace KvmHost

open ByteStore Lap Stops

/-- Read the events of a call; the first argument is the head of the chain that is being taken. At
the end no chain may be open. -/
def settled : Option Nat → List RingEvent → Bool
  | none, [] => true
  | some _, [] => false
  | none, .take a :: ev => settled (some a) ev
  | some h, .take _ :: ev => settled (some h) ev
  | none, .used _ :: _ => false
  | some h, .used a :: ev => a == h && settled none ev
  | o, .notify :: ev => settled o ev

theorem settled_append {ev₁ ev₂ : List RingEvent} :
    ∀ {o : Option Nat}, settled o ev₁ = true → settled none ev₂ = true →
      settled o (ev₁ ++ ev₂) = true := by
  induction ev₁ with
  | nil =>
    intro o h₁ h₂
    cases o with
    | none => exact h₂
    | some h => cases h₁
  | cons e ev ih =>
    intro o h₁ h₂
    cases e with
    | take a =>
      cases o with
      | none => exact ih h₁ h₂
      | some h => exact ih h₁ h₂
    | used a =>
      cases o with
      | none => cases h₁
      | some h =>
        simp only [settled, List.cons_append, Bool.and_eq_true] at h₁ ⊢
        exact ⟨h₁.1, ih h₁.2 h₂⟩
    | notify =>
      cases o with
      | none => exact ih h₁ h₂
      | some h => exact ih h₁ h₂

/-! ## The conditions -/

/-- The tap has a frame for this call, if it takes a descriptor, and `len`, as it is once the header
is written, has room for the header. -/
def rxCompletes (dev : VirtioNetDev) : Prop :=
  ∀ a d₁, dev.getAvail = .ok (some a, d₁) → virtioHeaderLen ≤ dev.ram.lenAfterHeader a ∧
    (dev.backend.frames dev.backend.reads).isSome = true

/-- The buffer of this call, if there is one, holds a header, and the tap takes the frame. -/
def txCompletes (dev : VirtioNetDev) : Prop :=
  ∀ a d₁ len, dev.getAvail = .ok (some a, d₁) → descLen dev.ram (some a) = .ok len →
    virtioHeaderLen ≤ len ∧ dev.backend.accepts dev.backend.writes = true

namespace Blk

/-- The chain under the cursor, if there is one, goes on far enough: the head has NEXT, and so has
the data descriptor of an IN or OUT request, as it is in memory once the data is moved. -/
def LinkedRound (dev : VirtioBlkDev) (req : Store) : Prop :=
  ∀ head d₁ req₁, dev.getAvail = .ok (some head, d₁) → copyHeader d₁ (some head) req = .ok req₁ →
    virtqCheckNext d₁.ram (some head) = .ok true ∧
    (IsIoType req₁ → ∀ desc status d₂ req₂, transfer d₁ req₁ = .ok (desc, status, d₂, req₂) →
      virtqCheckNext d₂.ram desc = .ok true)

/-- Every chain that a call meets goes on far enough. -/
def Linked : Nat → VirtioBlkDev → Store → Prop
  | 0, _, _ => True
  | fuel + 1, dev, req =>
    LinkedRound dev req ∧
      ∀ dev' req', round dev req = .ok (.loop, dev', req') → Linked fuel dev' req'

/-- A turn of the loop either closes the chain it begins and goes on, or ends the call: at an empty
ring, or with a chain left open that is not linked far enough. -/
theorem round_events {dev dev' : VirtioBlkDev} {req req' : Store} {flow : Flow}
    (h : round dev req = .ok (flow, dev', req')) :
    ∃ ev, dev'.trace = dev.trace ++ ev ∧
      ((flow = .loop ∧ LinkedRound dev req ∧
          ∀ rest, settled none (ev ++ rest) = settled none rest) ∨
       (flow = .ret ∧ (settled none ev = true ↔ LinkedRound dev req))) := by
  rcases round_inv h with ⟨hget, rfl, rfl⟩ | ⟨head, d₁, req₁, hget, hcopy, hcases⟩
  · refine ⟨[], by simp, .inr ⟨rfl, ?_⟩⟩
    refine ⟨fun _ a d₁ req₁ hget' _ => ?_, fun _ => rfl⟩
    rw [hget] at hget'
    cases hget'
  · -- the header is fixed, so the condition speaks of this header only
    have hlink : LinkedRound dev req ↔ virtqCheckNext d₁.ram (some head) = .ok true ∧
        (IsIoType req₁ → ∀ desc status d₂ req₂, transfer d₁ req₁ = .ok (desc, status, d₂, req₂) →
          virtqCheckNext d₂.ram desc = .ok true) := by
      refine ⟨fun hl => hl head d₁ req₁ hget hcopy, fun hl a d req hget' hcopy' => ?_⟩
      rw [hget] at hget'
      cases hget'
      rw [hcopy] at hcopy'
      cases hcopy'
      exact hl
    have hd₁ := VqDev.getAvail_trace hget
    rcases hcases with ⟨hio, hnext, rfl, rfl⟩ | ⟨hio, hnext, desc, status, d₂, req₂, htr, hfin⟩ |
      ⟨hio, hfin⟩
    · refine ⟨[.take head], hd₁, .inr ⟨rfl, ?_⟩⟩
      rw [hlink, hnext]
      simp [settled]
    · obtain ⟨a, d₁', hget₂, rfl, -, htr₂⟩ := transfer_inv htr
      have hd₂ : d₂.trace = dev.trace ++ [.take head, .take a] := by
        rw [htr₂, VqDev.getAvail_trace hget₂, hd₁, List.append_assoc]; rfl
      have hlink₂ : LinkedRound dev req ↔ virtqCheckNext d₂.ram (some a) = .ok true := by
        rw [hlink, hnext]
        refine ⟨fun hl => hl.2 hio _ _ _ _ htr, fun hl => ⟨rfl, fun _ desc st d r htr' => ?_⟩⟩
        rw [htr] at htr'
        cases htr'
        exact hl
      rcases finish_inv hfin with ⟨hck, rfl, rfl⟩ | ⟨hck, rfl, b, d₃, hget₃, -, htr₃⟩
      · refine ⟨[.take head, .take a], hd₂, .inr ⟨rfl, ?_⟩⟩
        rw [hlink₂, hck]
        simp [settled]
      · refine ⟨[.take head, .take a, .take b, .used head], ?_, .inl ⟨rfl, hlink₂.mpr hck, ?_⟩⟩
        · rw [htr₃, VqDev.getAvail_trace hget₃, hd₂, List.append_assoc, List.append_assoc]; rfl
        · intro rest; simp [settled]
    · rcases finish_inv hfin with ⟨hck, rfl, rfl⟩ | ⟨hck, rfl, b, d₃, hget₃, -, htr₃⟩
      · refine ⟨[.take head], hd₁, .inr ⟨rfl, ?_⟩⟩
        rw [hlink, hck]
        simp [settled]
      · have hl := hlink.mpr ⟨hck, fun hc => absurd hc hio⟩
        refine ⟨[.take head, .take b, .used head], ?_, .inl ⟨rfl, hl, ?_⟩⟩
        · rw [htr₃, VqDev.getAvail_trace hget₃, hd₁, List.append_assoc, List.append_assoc]; rfl
        · intro rest; simp [settled]

theorem complete_request_events {dev' : VirtioBlkDev} :
    ∀ {fuel : Nat} {dev : VirtioBlkDev} {req : Store},
      virtioBlkCompleteRequest fuel dev req = .ok dev' →
      ∃ ev, dev'.trace = dev.trace ++ ev ∧ (settled none ev = true ↔ Linked fuel dev req) := by
  intro fuel
  induction fuel with
  | zero => intro dev req h; cases h
  | succ fuel ih =>
    intro dev req h
    obtain ⟨⟨flow, d₁, req₁⟩, hround, h⟩ := bind_eq_ok.mp h
    obtain ⟨ev, hev, ⟨rfl, hlink, hclosed⟩ | ⟨rfl, hiff⟩⟩ := round_events hround
    · obtain ⟨ev', hev', hiff⟩ := ih h
      refine ⟨ev ++ ev', by rw [hev', hev, List.append_assoc], ?_⟩
      rw [hclosed, hiff]
      refine ⟨fun hl => ⟨hlink, fun d r hr => ?_⟩, fun hl => hl.2 _ _ hround⟩
      rw [hround] at hr
      cases hr
      exact hl
    · cases h
      refine ⟨ev, hev, hiff.trans ⟨fun hl => ⟨hl, fun d r hr => ?_⟩, fun hl => hl.1⟩⟩
      rw [hround] at hr
      cases hr

theorem linked_iff (fuel : Nat) : ∀ (dev : VirtioBlkDev) (req : Store),
    Linked fuel dev req ↔ ∀ t ∈ heads fuel dev req, LinkedRound t.1 t.2 := by
  induction fuel with
  | zero =>
    intro dev req
    simp [Linked, heads]
  | succ fuel ih =>
    intro dev req
    rw [Linked, heads, List.forall_mem_cons]
    refine and_congr_right fun _ => ?_
    cases round dev req with
    | error e => simp
    | ok x =>
      obtain ⟨flow, d', req'⟩ := x
      cases flow with
      | ret => simp
      | loop =>
        rw [follow_ok, ← ih]
        exact ⟨fun h => h d' req' rfl, fun h d r he => by cases he; exact h⟩

/-- The chain at position `p` of the ring, if there is one, goes on as far as its request needs. -/
def linkedAt (ring n : Nat) (ram : Ram) (p : Nat) (req : Store) : Bool :=
  !availAt ring n ram p ||
    nextAt ring n ram p &&
      (!decide (IsIoType (headerAt ring n ram p req)) || nextAt ring n ram (p + 1))

/-- For a request whose data is clear of the ring, the data descriptor is as the driver wrote it. -/
theorem linkedRound_iff {dev : VirtioBlkDev} {req : Store} {ring n p : Nat}
    (hq : QueueAt dev.vq ring n p) (hb : BuffersAt ring n dev.ram p req)
    (hc : chainedAt ring n dev.ram p req = true) :
    LinkedRound dev req ↔ linkedAt ring n dev.ram p req = true := by
  unfold LinkedRound linkedAt
  cases ha : availAt ring n dev.ram p with
  | false =>
    rw [VqDev.getAvail_none hq ha]
    simp
  | true =>
    simp only [chainedAt, ha, Bool.not_true, Bool.false_or, Bool.and_eq_true,
      decide_eq_true_eq] at hc
    obtain ⟨hlen, hc⟩ := hc
    have hcopy := copyHeader_at req hq (hb ha).1
    rw [if_pos hlen] at hcopy
    -- the turn takes this head and copies this header
    have hone : (∀ head d₁ req₁, dev.getAvail = .ok (some head, d₁) →
        copyHeader d₁ (some head) req = .ok req₁ →
        virtqCheckNext d₁.ram (some head) = .ok true ∧
        (IsIoType req₁ → ∀ desc status d₂ req₂,
          transfer d₁ req₁ = .ok (desc, status, d₂, req₂) →
            virtqCheckNext d₂.ram desc = .ok true)) ↔
        nextAt ring n dev.ram p = true ∧
        (IsIoType (headerAt ring n dev.ram p req) → ∀ desc status d₂ req₂,
          transfer (dev.took ring n p) (headerAt ring n dev.ram p req) =
              .ok (desc, status, d₂, req₂) →
            virtqCheckNext d₂.ram desc = .ok true) := by
      have hck : virtqCheckNext (dev.took ring n p).ram (some (slotAt ring n p)) =
        .ok (nextAt ring n dev.ram p) := virtqCheckNext_ok (hq.slot_le p)
      rw [VqDev.getAvail_some hq ha]
      constructor
      · intro h
        obtain ⟨hn, hio⟩ := h _ _ _ rfl hcopy
        rw [hck] at hn
        exact ⟨Except.ok.inj hn, hio⟩
      · rintro ⟨hn, hio⟩ head d₁ req₁ hget hcopy'
        cases hget
        rw [hcopy] at hcopy'
        cases hcopy'
        rw [hck, hn]
        exact ⟨rfl, hio⟩
    rw [hone]
    simp only [Bool.not_true, Bool.false_or, Bool.and_eq_true, Bool.or_eq_true,
      Bool.not_eq_true', decide_eq_false_iff_not]
    refine and_congr_right fun hn => ?_
    by_cases hio : IsIoType (headerAt ring n dev.ram p req)
    · have ha₁ : availAt ring n dev.ram (p + 1) = true := by
        simp only [hn, Bool.not_true, Bool.false_or, Bool.and_eq_true] at hc
        exact hc.1
      obtain ⟨⟨hdata, hoff⟩, -⟩ := ((hb ha).2 hn ha₁).1 hio
      obtain ⟨status, d₂, req', htr, hq₂, -, hdesc⟩ :=
        transfer_at (dev.took ring n p) (headerAt ring n dev.ram p req)
          (hq.at (p + 1)) ha₁ hdata hoff
      have hck : virtqCheckNext d₂.ram (some (slotAt ring n (p + 1))) =
          .ok (nextAt ring n dev.ram (p + 1)) := by
        rw [virtqCheckNext_ok (hq.slot_le _), hdesc]
        rfl
      rw [htr]
      simp only [hio, true_implies, not_true_eq_false, false_or]
      constructor
      · intro h
        have hnext := h _ _ _ _ rfl
        rw [hck] at hnext
        exact Except.ok.inj hnext
      · intro hn₁ desc st d r he
        cases he
        rw [hck, hn₁]
    · simp [hio]

/-- **Chains as the driver wrote them.** On rings whose requests are chained, with their buffers in
guest memory and the data clear of the ring, a call completes every chain exactly when each chain it
comes to has NEXT on its head, and for IN and OUT on its data descriptor. -/
theorem linked_ring {dev : VirtioBlkDev} {ring n : Nat} (h : RingOf dev.vq ring n) (fuel : Nat)
    (req : Store) (hb : ∀ t ∈ heads fuel dev req, BuffersIn ring n t.1 t.2)
    (hc : ∀ t ∈ heads fuel dev req, chained ring n t.1 t.2 = true) :
    Linked fuel dev req ↔
      ∀ t ∈ heads fuel dev req, linkedAt ring n t.1.ram (t.1.vq.cursor.pos n) t.2 = true := by
  rw [linked_iff]
  exact forall₂_congr fun t ht =>
    linkedRound_iff (heads_ring fuel h t ht).queueAt (hb t ht) (hc t ht)

end Blk

/-! ## Runs of calls on one queue -/

inductive QueueKind where
  | blk
  | rx
  | tx

namespace QueueKind

def Backend : QueueKind → Type
  | blk => DiskImg
  | rx => Tap
  | tx => Tap

/-- One call of the queue's `complete_request`; `fuel` and `req` matter to the block device only. -/
def call : (k : QueueKind) → Nat → Store → VqDev k.Backend → Except Stop (VqDev k.Backend)
  | blk, fuel, req, dev => virtioBlkCompleteRequest fuel dev req
  | rx, _, _, dev => virtioNetCompleteRequestRx dev
  | tx, _, _, dev => virtioNetCompleteRequestTx dev

/-- The condition under which a call completes every buffer it takes. -/
def Completes : (k : QueueKind) → Nat → Store → VqDev k.Backend → Prop
  | blk, fuel, req, dev => Blk.Linked fuel dev req
  | rx, _, _, dev => rxCompletes dev
  | tx, _, _, dev => txCompletes dev

end QueueKind

/-- A call that returned, with the states before and after. -/
structure Call (k : QueueKind) where
  fuel : Nat
  req : Store
  pre : VqDev k.Backend
  post : VqDev k.Backend

/-- Every position the call moved the cursor past belongs to a chain whose head it marked used. -/
def Call.Whole {k : QueueKind} (c : Call k) : Prop :=
  ∃ ev, c.post.trace = c.pre.trace ++ ev ∧ settled none ev = true

def Call.Completes {k : QueueKind} (c : Call k) : Prop := k.Completes c.fuel c.req c.pre

/-- Calls one after the other; between two calls the guest may rewrite all of its memory. -/
inductive CallRun (k : QueueKind) : VqDev k.Backend → List (Call k) → VqDev k.Backend → Prop where
  | done {d : VqDev k.Backend} : CallRun k d [] d
  | call {d pre d₁ d₂ : VqDev k.Backend} {fuel : Nat} {req m : Store} {cs : List (Call k)} :
      pre = { d with ram := { d.ram with bytes := m } } → k.call fuel req pre = .ok d₁ →
      CallRun k d₁ cs d₂ → CallRun k d (⟨fuel, req, pre, d₁⟩ :: cs) d₂

theorem rx_events {dev dev' : VirtioNetDev} (h : virtioNetCompleteRequestRx dev = .ok dev') :
    ∃ ev, dev'.trace = dev.trace ++ ev ∧ (settled none ev = true ↔ rxCompletes dev) := by
  rcases virtioNetCompleteRequestRx_inv h with ⟨hget, -, htr⟩ | ⟨a, d₁, hget, -, htr⟩
  · refine ⟨[], by rw [htr, List.append_nil], fun _ a d₁ hget' => ?_, fun _ => rfl⟩
    rw [hget] at hget'
    cases hget'
  · refine ⟨_, by rw [htr, VqDev.getAvail_trace hget, List.append_assoc], ?_⟩
    have hiff : rxCompletes dev ↔ virtioHeaderLen ≤ dev.ram.lenAfterHeader a ∧
        (dev.backend.frames dev.backend.reads).isSome = true := by
      refine ⟨fun hc => hc a d₁ hget, fun hc a' d' hget' => ?_⟩
      rw [hget] at hget'
      cases hget'
      exact hc
    rw [hiff]
    by_cases hc : virtioHeaderLen ≤ dev.ram.lenAfterHeader a ∧
        (dev.backend.frames dev.backend.reads).isSome = true
    · rw [if_pos hc]; simp [settled, hc]
    · rw [if_neg hc]; simp [settled, hc]

theorem tx_events {dev dev' : VirtioNetDev} (h : virtioNetCompleteRequestTx dev = .ok dev') :
    ∃ ev, dev'.trace = dev.trace ++ ev ∧ (settled none ev = true ↔ txCompletes dev) := by
  rcases virtioNetCompleteRequestTx_inv h with ⟨hget, -, htr⟩ | ⟨a, d₁, len, hget, hlen, -, htr⟩
  · refine ⟨[], by rw [htr, List.append_nil], fun _ a d₁ len hget' _ => ?_, fun _ => rfl⟩
    rw [hget] at hget'
    cases hget'
  · refine ⟨_, by rw [htr, VqDev.getAvail_trace hget, List.append_assoc], ?_⟩
    have hiff : txCompletes dev ↔
        virtioHeaderLen ≤ len ∧ dev.backend.accepts dev.backend.writes = true := by
      refine ⟨fun hc => hc a d₁ len hget hlen, fun hc a' d' len' hget' hlen' => ?_⟩
      rw [hget] at hget'
      cases hget'
      rw [hlen] at hlen'
      cases hlen'
      exact hc
    rw [hiff]
    by_cases hc : virtioHeaderLen ≤ len ∧ dev.backend.accepts dev.backend.writes = true
    · rw [if_pos hc]; simp [settled, hc]
    · rw [if_neg hc]; simp [settled, hc]

/-- One call, of any of the three handlers. -/
theorem call_events {k : QueueKind} {fuel : Nat} {req : Store} {pre post : VqDev k.Backend}
    (h : k.call fuel req pre = .ok post) :
    ∃ ev, post.trace = pre.trace ++ ev ∧ (settled none ev = true ↔ k.Completes fuel req pre) := by
  cases k with
  | blk => exact Blk.complete_request_events h
  | rx => exact rx_events h
  | tx => exact tx_events h

theorem Call.whole_iff {k : QueueKind} {c : Call k} (h : k.call c.fuel c.req c.pre = .ok c.post) :
    c.Whole ↔ c.Completes := by
  obtain ⟨ev, hev, hiff⟩ := call_events h
  refine ⟨fun ⟨ev', hev', hs⟩ => ?_, fun hc => ⟨ev, hev, hiff.mpr hc⟩⟩
  rw [hev] at hev'
  rw [List.append_cancel_left hev'] at hiff
  exact hiff.mp hs

/-- **No consumed buffer is lost** in a run exactly when every call of it meets its handler's
condition; the events of the whole run are then settled. -/
theorem no_buffer_lost_iff {k : QueueKind} {d d' : VqDev k.Backend} {cs : List (Call k)}
    (h : CallRun k d cs d') :
    ((∀ c ∈ cs, c.Whole) ↔ ∀ c ∈ cs, c.Completes) ∧
      ((∀ c ∈ cs, c.Completes) → ∃ ev, d'.trace = d.trace ++ ev ∧ settled none ev = true) := by
  induction h with
  | done => exact ⟨by simp, fun _ => ⟨[], by simp, rfl⟩⟩
  | @call d pre d₁ d₂ fuel req m cs hpre hcall _ ih =>
    have hone := Call.whole_iff (c := ⟨fuel, req, pre, d₁⟩) hcall
    constructor
    · simp only [List.forall_mem_cons, hone, ih.1]
    · intro hall
      rw [List.forall_mem_cons] at hall
      obtain ⟨ev₁, hev₁, hs₁⟩ := hone.mpr hall.1
      obtain ⟨ev₂, hev₂, hs₂⟩ := ih.2 hall.2
      refine ⟨ev₁ ++ ev₂, ?_, settled_append hs₁ hs₂⟩
      rw [hev₂, hev₁, hpre, List.append_assoc]

/-! ## A receive call that finds no frame -/

/-- One 64-byte receive buffer, available in slot 0 of a ring of two; the tap has what `frame`
says. -/
def rxDev (frame : Option (List UInt8)) : VirtioNetDev where
  vq :=
    { descRing := some 0
      deviceEvent := some 32
      guestEvent := some 36
      info := putLE (fun _ => 0) 0 2 2
      nextAvailIdx := 0
      usedWrapCount := true }
  ram := ⟨0, putDesc (fun _ => 0) 0 ⟨64, 64, 0, 128⟩⟩
  isrStatus := 0
  backend :=
    { frames := fun _ => frame, reads := 0, accepts := fun _ => true, writes := 0, sent := [] }
  trace := []

theorem rxDev_run (frame : Option (List UInt8)) (trace : List RingEvent)
    (h : (virtioNetCompleteRequestRx (rxDev frame)).toOption.map (·.trace) = some trace) :
    ∃ post, CallRun .rx (rxDev frame) [⟨0, fun _ => 0, rxDev frame, post⟩] post ∧
      post.trace = trace := by
  cases hcall : virtioNetCompleteRequestRx (rxDev frame) with
  | error e => rw [hcall] at h; cases h
  | ok post =>
    rw [hcall] at h
    exact ⟨post, .call (m := (rxDev frame).ram.bytes) rfl hcall .done, by cases h; rfl⟩

/-- A buffer is lost when the tap read fails: the cursor is past it and its head is not used. -/
theorem rx_eagain_loses_buffer :
    ∃ post, CallRun .rx (rxDev none) [⟨0, fun _ => 0, rxDev none, post⟩] post ∧
      ¬ (⟨0, fun _ => 0, rxDev none, post⟩ : Call .rx).Whole := by
  obtain ⟨post, hrun, htr⟩ := rxDev_run none [.take 0] (by decide +kernel)
  refine ⟨post, hrun, fun ⟨ev, hev, hs⟩ => ?_⟩
  rw [htr] at hev
  have hev' : [RingEvent.take 0] = ev := by simpa [rxDev] using hev
  rw [← hev'] at hs
  cases hs

theorem no_buffer_lost_rx :
    ∃ post, CallRun .rx (rxDev (some shortFrame))
      [⟨0, fun _ => 0, rxDev (some shortFrame), post⟩] post ∧
      ∀ c ∈ [(⟨0, fun _ => 0, rxDev (some shortFrame), post⟩ : Call .rx)], c.Whole := by
  obtain ⟨post, hrun, -⟩ :=
    rxDev_run (some shortFrame) [.take 0, .used 0] (by decide +kernel)
  refine ⟨post, hrun, (no_buffer_lost_iff hrun).1.mpr ?_⟩
  intro c hc
  rw [List.mem_singleton] at hc
  subst hc
  intro a d₁ hget
  have hring : RingOf (rxDev (some shortFrame)).vq 0 2 :=
    ⟨rfl, by decide +kernel, by decide, by decide⟩
  obtain ⟨rfl, -⟩ := VqDev.getAvail_slot hring hget
  have hroom : virtioHeaderLen ≤ (rxDev (some shortFrame)).ram.lenAfterHeader 0 := by decide +kernel
  exact ⟨hroom, rfl⟩

end KvmHost
