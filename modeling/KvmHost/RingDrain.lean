import KvmHost.BlkHostile
import KvmHost.BlkRequest

/-!
# KvmHost.RingDrain

Rings that nobody refills while they are drained.

`Drain` is a run of calls of `virtq_get_avail` that all return a descriptor, with whatever happens
between them as long as it leaves the AVAIL bits of the ring alone. The calls pass the slots one
after the other, and a slot is not taken twice: one lap later its AVAIL bit is the same and the wrap
bit is not. So a run has at most as many calls as the ring has slots (`Drained.length_le`), and a
turn of the request loop that goes on is such a run (`Blk.round_drain`).

The loop writes to guest memory itself, where the guest's descriptors say. `LeftAlone` is about
these writes: a request whose data buffer is the ring refills it, and the loop then need not end.
-/

namespace KvmHost

open ByteStore Lap Stops

/-! ## Rings that keep their AVAIL bits -/

def availBit (m : Store) (a : Nat) : Bool := (descAt m a).flags.testBit vringPackedDescFAvail

/-- The `n` descriptors at `ring` have the same AVAIL bits in `m` and `m'`. -/
def SameAvail (ring n : Nat) (m m' : Store) : Prop :=
  ∀ i < n, availBit m' (ring + 16 * i) = availBit m (ring + 16 * i)

instance (ring n : Nat) (m m' : Store) : Decidable (SameAvail ring n m m') :=
  inferInstanceAs (Decidable (∀ _ < _, _))

/-- The ring in `m'` is that in `m`, apart from the USED bits of the descriptors `taken`. -/
def UsedToggled (ring n : Nat) (taken : List Nat) (m m' : Store) : Prop :=
  ∀ i < n, descAt m' (ring + 16 * i) = descAt m (ring + 16 * i) ∨
    (ring + 16 * i ∈ taken ∧ descAt m' (ring + 16 * i) =
      { descAt m (ring + 16 * i) with
        flags := (descAt m (ring + 16 * i)).flags ^^^ 2 ^ vringPackedDescFUsed })

section

variable {ring n p : Nat} {m m' m'' : Store}

theorem SameAvail.refl : SameAvail ring n m m := fun _ _ => rfl

theorem SameAvail.symm (h : SameAvail ring n m m') : SameAvail ring n m' m :=
  fun i hi => (h i hi).symm

theorem SameAvail.trans (h : SameAvail ring n m m') (h' : SameAvail ring n m' m'') :
    SameAvail ring n m m'' :=
  fun i hi => (h' i hi).trans (h i hi)

theorem SameAvail.slot (h : SameAvail ring n m m') (hn : 0 < n) (p : Nat) :
    availBit m' (slotAt ring n p) = availBit m (slotAt ring n p) := h (p % n) (Nat.mod_lt p hn)

theorem UsedToggled.sameAvail {taken : List Nat} (h : UsedToggled ring n taken m m') :
    SameAvail ring n m m' := by
  intro i hi
  unfold availBit
  rcases h i hi with he | ⟨-, he⟩
  · rw [he]
  · rw [he]
    show Nat.testBit (_ ^^^ 2 ^ vringPackedDescFUsed) _ = _
    rw [Nat.testBit_xor, Nat.testBit_two_pow_of_ne (by decide), Bool.xor_false]

end

/-! ## Runs of calls -/

/-- A call that returned a descriptor, and whether it flipped the wrap bit. -/
structure Taken where
  desc : Nat
  flipped : Bool

inductive Drain {β : Type} (ring n : Nat) : VqDev β → List Taken → VqDev β → Prop where
  | nil {d : VqDev β} : Drain ring n d [] d
  | call {d d₁ d₂ d₃ : VqDev β} {ts : List Taken} {a : Nat} :
      Drain ring n d ts d₁ → d₁.getAvail = .ok (some a, d₂) →
      d₃.vq = d₂.vq → SameAvail ring n d₂.ram.bytes d₃.ram.bytes →
      Drain ring n d (ts ++ [⟨a, d₂.vq.usedWrapCount != d₁.vq.usedWrapCount⟩]) d₃

/-- What holds after the calls `ts`, from a queue at position `p`. -/
structure Drained {β : Type} (ring n p : Nat) (d : VqDev β) (ts : List Taken) (d' : VqDev β) :
    Prop where
  queue : QueueAt d'.vq ring n (p + ts.length)
  same : SameAvail ring n d.ram.bytes d'.ram.bytes
  avail : ∀ j < ts.length, availBit d.ram.bytes (slotAt ring n (p + j)) = wrapAt n (p + j)
  slots : ts.map Taken.desc = (List.range ts.length).map fun j => slotAt ring n (p + j)
  flips : p / n + ts.countP Taken.flipped = (p + ts.length) / n

section

variable {β : Type} {d d' d'' : VqDev β} {ring n p a : Nat} {ts us : List Taken}

theorem VqDev.getAvail_availBit (h : QueueAt d.vq ring n p) (hget : d.getAvail = .ok (some a, d')) :
    availBit d.ram.bytes (slotAt ring n p) = wrapAt n p := by
  cases ha : availFor (wrapAt n p) (descAt d.ram.bytes (slotAt ring n p)).flags with
  | true =>
    simp only [availFor, Bool.and_eq_true, beq_iff_eq] at ha
    exact ha.1
  | false =>
    rw [VqDev.getAvail_none h ha] at hget
    cases hget

theorem Drain.trans (h : Drain ring n d ts d') (h' : Drain ring n d' us d'') :
    Drain ring n d (ts ++ us) d'' := by
  induction h' with
  | nil =>
    rw [List.append_nil]
    exact h
  | call _ hget hvq hsame ih =>
    rw [← List.append_assoc]
    exact .call ih hget hvq hsame

theorem Drain.drained (h0 : QueueAt d.vq ring n p) (h : Drain ring n d ts d') :
    Drained ring n p d ts d' := by
  induction h with
  | nil => exact ⟨h0, .refl, fun j hj => absurd hj (Nat.not_lt_zero j), rfl, rfl⟩
  | @call d₁ d₂ d₃ ts a _ hget hvq hsame ih =>
    obtain ⟨hqueue, hsame₁, havail, hslots, hflips⟩ := ih
    have hbit := VqDev.getAvail_availBit hqueue hget
    obtain ⟨rfl, rfl⟩ := VqDev.getAvail_next hqueue hget
    have hwrap : d₁.vq.usedWrapCount = wrapAt n (p + ts.length) :=
      congrArg Cursor.wrap hqueue.cursor
    have hlen : p + (ts.length + 1) = p + ts.length + 1 := rfl
    refine ⟨?_, hsame₁.trans hsame, ?_, ?_, ?_⟩
    · rw [hvq, List.length_append]
      exact hqueue.at _
    · intro j hj
      rw [List.length_append] at hj
      rcases Nat.lt_or_eq_of_le (Nat.le_of_lt_succ hj) with hlt | rfl
      · exact havail j hlt
      · rw [← hsame₁.slot h0.pos]
        exact hbit
    · rw [List.map_append, hslots, List.length_append, List.length_singleton, List.range_succ,
        List.map_append]
      rfl
    · rw [List.countP_append, List.length_append, List.length_singleton, hlen, succ_div_flips,
        ← hflips, hwrap]
      simp only [List.countP_singleton, VqDev.took_vq, Nat.add_assoc]
      rfl

/-- A slot is not taken twice. -/
theorem Drained.length_le (h : Drained ring n p d ts d') : ts.length ≤ n := by
  refine Nat.le_of_not_lt fun hlt => ?_
  have hn := h.queue.pos
  have hfirst := h.avail 0 (by omega)
  have hlap := h.avail n hlt
  rw [slotAt_add_lap, wrapAt_add_lap hn] at hlap
  rw [Nat.add_zero, hlap] at hfirst
  simp at hfirst

/-- After a lap the slot under the cursor is the first one taken. -/
theorem Drained.getAvail_lap (h : Drained ring n p d ts d') (hlen : ts.length = n) :
    d'.getAvail = .ok (none, d') := by
  have hn := h.queue.pos
  have hq := h.queue
  rw [hlen] at hq
  refine VqDev.getAvail_none hq ?_
  have hbit : availBit d'.ram.bytes (slotAt ring n (p + n)) = wrapAt n p := by
    rw [h.same.slot hn, slotAt_add_lap]
    exact h.avail 0 (by omega)
  unfold availBit at hbit
  simp [availFor, hbit, wrapAt_add_lap hn]

end

/-! ## The request loop -/

namespace Blk

/-- Guest memory after the data of a turn has been transferred, and after the turn. -/
def turnMems (dev : VirtioBlkDev) (req : Store) : List Store :=
  (follow dev.getAvail fun p =>
    follow (copyHeader p.2 p.1 req) fun req =>
      if IsIoType req then
        follow (virtqCheckNext p.2.ram p.1) fun next =>
          if next then follow (transfer p.2 req) fun r => [r.2.2.1.ram.bytes] else []
      else []) ++
    follow (round dev req) fun r => [r.2.1.ram.bytes]

/-- What the turns of a call write changes no AVAIL bit of the ring. -/
def LeftAlone (ring n fuel : Nat) (dev : VirtioBlkDev) (req : Store) : Prop :=
  ∀ t ∈ heads fuel dev req, ∀ m ∈ turnMems t.1 t.2, SameAvail ring n t.1.ram.bytes m

instance (ring n fuel : Nat) (dev : VirtioBlkDev) (req : Store) :
    Decidable (LeftAlone ring n fuel dev req) :=
  inferInstanceAs (Decidable (∀ _ ∈ _, _))

section

variable {dev dev' : VirtioBlkDev} {req req' : Store} {ring n : Nat}

theorem finish_drain {head status : Nat} {desc : Ptr}
    (h : finish dev (some head) desc status = .ok (.loop, dev'))
    (hsame : SameAvail ring n dev.ram.bytes dev'.ram.bytes) : ∃ t, Drain ring n dev [t] dev' := by
  rcases finish_inv h with ⟨-, hflow, -⟩ | ⟨-, -, a, d₁, hget, hvq, -⟩
  · cases hflow
  · rw [← VqDev.getAvail_ram hget] at hsame
    exact ⟨_, .call .nil hget hvq hsame⟩

/-- A turn that goes on has taken descriptors. -/
theorem round_drain (h : round dev req = .ok (.loop, dev', req'))
    (hleft : ∀ m ∈ turnMems dev req, SameAvail ring n dev.ram.bytes m) :
    ∃ t ts, Drain ring n dev (t :: ts) dev' := by
  unfold turnMems at hleft
  rw [List.forall_mem_append, h, follow_ok, List.forall_mem_singleton] at hleft
  obtain ⟨hdata, hturn⟩ := hleft
  rcases round_inv h with ⟨-, hflow, -⟩ | ⟨head, d₁, req₁, hget, hcopy, hcases⟩
  · cases hflow
  · have hram := VqDev.getAvail_ram hget
    have hhead : Drain ring n dev _ d₁ := .call .nil hget rfl .refl
    rw [← hram] at hdata hturn
    rw [hget, follow_ok, hcopy, follow_ok] at hdata
    rcases hcases with ⟨-, -, hflow, -⟩ | ⟨hio, hnext, desc, status, d₂, req₂, htr, hfin⟩ | ⟨-,
      hfin⟩
    · cases hflow
    · rw [if_pos hio, hnext, follow_ok, if_pos rfl, htr, follow_ok, List.forall_mem_singleton]
        at hdata
      obtain ⟨a, d₃, hget₂, -, hvq, -⟩ := transfer_inv htr
      obtain ⟨t, hstatus⟩ := finish_drain hfin (hdata.symm.trans hturn)
      rw [← VqDev.getAvail_ram hget₂] at hdata
      have hrest : Drain ring n d₁ _ d₂ := .call .nil hget₂ hvq hdata
      exact ⟨_, _, hhead.trans (hrest.trans hstatus)⟩
    · obtain ⟨t, hstatus⟩ := finish_drain hfin hturn
      exact ⟨_, _, hhead.trans hstatus⟩

theorem round_ne_fuel : round dev req ≠ .error .fuel := by
  have havoids : Avoids (· = .fuel) (round dev req) :=
    round_avoids (by decide) (by decide) fun hs => absurd hs (by decide)
  exact fun h => havoids _ h rfl

/-- Each turn takes a descriptor, so the descriptors taken and the fuel left together do not get
fewer. -/
theorem drain_ends (fuel : Nat) :
    ∀ {d dev : VirtioBlkDev} {req : Store} {ts : List Taken}, RingOf d.vq ring n →
    Drain ring n d ts dev → n < ts.length + fuel → LeftAlone ring n fuel dev req →
    virtioBlkCompleteRequest fuel dev req ≠ .error .fuel := by
  induction fuel with
  | zero =>
    intro d dev req ts h hdrain hlt _
    exact absurd (hdrain.drained h.queueAt).length_le (by omega)
  | succ fuel ih =>
    intro d dev req ts h hdrain hlt hleft hcall
    unfold LeftAlone at hleft
    simp only [heads, List.forall_mem_cons] at hleft
    obtain ⟨hturn, hrest⟩ := hleft
    simp only [virtioBlkCompleteRequest] at hcall
    cases hr : round dev req with
    | error e =>
      rw [hr] at hcall
      cases hcall
      exact round_ne_fuel hr
    | ok x =>
      obtain ⟨flow, d', req'⟩ := x
      rw [hr, ok_bind] at hcall
      cases flow with
      | ret => cases hcall
      | loop =>
        rw [hr, follow_ok] at hrest
        obtain ⟨t, us, hturns⟩ := round_drain hr hturn
        refine ih h (hdrain.trans hturns) ?_ hrest hcall
        rw [List.length_append, List.length_cons]
        omega

end

/-! ## Buffers off the ring -/

/-- The ring in `m'` is that in `m`, apart from USED bits and lengths that were set to 0. -/
def RingKept (ring n : Nat) (m m' : Store) : Prop :=
  ∀ i < n, (descAt m' (ring + 16 * i)).addr = (descAt m (ring + 16 * i)).addr ∧
    (descAt m' (ring + 16 * i)).len ≤ (descAt m (ring + 16 * i)).len ∧
    availBit m' (ring + 16 * i) = availBit m (ring + 16 * i)

/-- No descriptor of the ring has the ring in its buffer. A status byte is stored whatever the
length. -/
def BuffersOff (ring n : Nat) (ram : Ram) : Prop :=
  ∀ i < n, ∀ b, vmGuestToHost ram (descAt ram.bytes (ring + 16 * i)).addr = some b →
    Span.Apart ⟨b, max (descAt ram.bytes (ring + 16 * i)).len 1⟩ ⟨ring, 16 * n⟩

section

variable {ram ram' : Ram} {m m' m'' : Store} {dev dev' : VirtioBlkDev} {req req' : Store}
  {desc : Ptr} {ring n i a : Nat}

theorem RingKept.sameAvail (h : RingKept ring n m m') : SameAvail ring n m m' :=
  fun i hi => (h i hi).2.2

theorem RingKept.trans (h : RingKept ring n m m') (h' : RingKept ring n m' m'') :
    RingKept ring n m m'' := by
  intro i hi
  obtain ⟨haddr, hlen, havail⟩ := h i hi
  obtain ⟨haddr', hlen', havail'⟩ := h' i hi
  exact ⟨haddr'.trans haddr, Nat.le_trans hlen' hlen, havail'.trans havail⟩

theorem RingKept.of_bytes (h : ∀ x, Span.Has ⟨ring, 16 * n⟩ x → m' x = m x) :
    RingKept ring n m m' := by
  intro i hi
  have hdesc : descAt m' (ring + 16 * i) = descAt m (ring + 16 * i) := by
    refine descAt_congr fun x hx => h x ?_
    simp only [Span.Has] at hx ⊢
    omega
  unfold availBit
  rw [hdesc]
  exact ⟨rfl, Nat.le_refl _, rfl⟩

theorem BuffersOff.kept (h : BuffersOff ring n ram) (hk : RingKept ring n ram.bytes ram'.bytes)
    (hbase : ram'.base = ram.base) : BuffersOff ring n ram' := by
  intro i hi b hb
  obtain ⟨haddr, hlen, -⟩ := hk i hi
  unfold vmGuestToHost at hb
  rw [haddr, hbase] at hb
  have hoff := h i hi b hb
  simp only [Span.Apart] at hoff ⊢
  omega

/-- Writes to the buffer of a descriptor of the ring. -/
theorem BuffersOff.changed (h : BuffersOff ring n ram) (hi : i < n) {addr len : Nat}
    (haddr : (descAt ram.bytes (ring + 16 * i)).addr = addr)
    (hlen : len ≤ max (descAt ram.bytes (ring + 16 * i)).len 1)
    (hc : Ram.Changed (vmGuestToHost ram addr) len ram ram') :
    RingKept ring n ram.bytes ram'.bytes := by
  refine RingKept.of_bytes fun x hx => hc.frame x ?_
  rintro ⟨b, hb, hx'⟩
  rw [← haddr] at hb
  have hoff := h i hi b hb
  simp only [Span.Apart, Span.Has] at hoff hx hx'
  omega

theorem transfer_kept {status : Nat} (h : RingOf dev.vq ring n) (hoff : BuffersOff ring n dev.ram)
    (htr : transfer dev req = .ok (desc, status, dev', req')) :
    RingKept ring n dev.ram.bytes dev'.ram.bytes ∧ dev'.ram.base = dev.ram.base := by
  obtain ⟨a, d₁, addr, len, hget, haddr, hlen, hchanged⟩ := transfer_mem htr
  obtain ⟨rfl, -⟩ := VqDev.getAvail_slot h hget
  rw [descAddr_ok (h.slot_le h.idx), Except.ok.injEq] at haddr
  rw [descLen_ok (h.slot_le h.idx), Except.ok.injEq] at hlen
  refine ⟨hoff.changed h.idx haddr ?_ hchanged, hchanged.base⟩
  rw [hlen]
  exact Nat.le_max_left _ _

/-- Marking a descriptor of the ring used. -/
theorem mark_kept (hring : ring + 16 * n ≤ ramSize) (hi : i < n) {ram₂ : Ram}
    (hxor : xorDescUsed ram (some (ring + 16 * i)) = .ok ram₂)
    (hlen : setDescLen ram₂ (some (ring + 16 * i)) 0 = .ok ram') :
    RingKept ring n ram.bytes ram'.bytes ∧ ram'.base = ram.base := by
  have hin : ring + 16 * i + 16 ≤ ramSize := by omega
  rw [xorDescUsed_ok hin, Except.ok.injEq] at hxor
  subst hxor
  rw [setDescLen_ok hin, Except.ok.injEq] at hlen
  subst hlen
  refine ⟨fun j hj => ?_, rfl⟩
  by_cases hji : j = i
  · subst hji
    unfold availBit
    rw [descAt_putLen, descAt_xorUsed]
    refine ⟨rfl, Nat.zero_le _, ?_⟩
    show Nat.testBit (_ ^^^ 2 ^ vringPackedDescFUsed) _ = _
    rw [Nat.testBit_xor, Nat.testBit_two_pow_of_ne (by decide), Bool.xor_false]
  · have hdesc : ∀ m v k l, k + l ≤ 16 →
        descAt (putLE m (ring + 16 * i + k) l v) (ring + 16 * j) = descAt m (ring + 16 * j) := by
      intro m v k l hk
      refine descAt_patch_apart ?_
      simp only [Span.Apart, toLE_length]
      omega
    unfold availBit
    rw [hdesc _ _ 8 4 (by decide), hdesc _ _ 14 2 (by decide)]
    exact ⟨rfl, Nat.le_refl _, rfl⟩

theorem finish_kept {status : Nat} (h : RingOf dev.vq ring n) (hoff : BuffersOff ring n dev.ram)
    (hi : i < n) (hfin : finish dev (some (ring + 16 * i)) desc status = .ok (.loop, dev')) :
    RingKept ring n dev.ram.bytes dev'.ram.bytes ∧ dev'.ram.base = dev.ram.base := by
  obtain ⟨a, d₁, addr, ram₁, ram₂, hget, haddr, hstatus, hxor, hlen⟩ := finish_mem hfin
  obtain ⟨rfl, -⟩ := VqDev.getAvail_slot h hget
  rw [descAddr_ok (h.slot_le h.idx), Except.ok.injEq] at haddr
  have hchanged := Ram.write_changed hstatus (Nat.le_of_eq (toLE_length 1 status))
  have hbyte := hoff.changed h.idx haddr (Nat.le_max_right _ _) hchanged
  obtain ⟨hmark, hbase⟩ := mark_kept h.inRam hi hxor hlen
  exact ⟨hbyte.trans hmark, hbase.trans hchanged.base⟩

theorem finish_any_kept {status : Nat} {flow : Flow} (h : RingOf dev.vq ring n)
    (hoff : BuffersOff ring n dev.ram) (hi : i < n)
    (hfin : finish dev (some (ring + 16 * i)) desc status = .ok (flow, dev')) :
    RingKept ring n dev.ram.bytes dev'.ram.bytes ∧ dev'.ram.base = dev.ram.base := by
  cases flow with
  | loop => exact finish_kept h hoff hi hfin
  | ret =>
    rcases finish_inv hfin with ⟨-, -, rfl⟩ | ⟨-, hflow, -⟩
    · exact ⟨.of_bytes fun _ _ => rfl, rfl⟩
    · cases hflow

theorem round_kept {flow : Flow} (h : RingOf dev.vq ring n) (hoff : BuffersOff ring n dev.ram)
    (hr : round dev req = .ok (flow, dev', req')) :
    RingKept ring n dev.ram.bytes dev'.ram.bytes ∧ dev'.ram.base = dev.ram.base := by
  rcases round_inv hr with ⟨-, -, rfl⟩ | ⟨head, d₁, req₁, hget, -, hcases⟩
  · exact ⟨.of_bytes fun _ _ => rfl, rfl⟩
  · obtain ⟨rfl, hring⟩ := VqDev.getAvail_slot h hget
    rw [← VqDev.getAvail_ram hget] at hoff ⊢
    rcases hcases with ⟨-, -, -, rfl⟩ | ⟨-, -, desc, status, d₂, req₂, htr, hfin⟩ | ⟨-, hfin⟩
    · exact ⟨.of_bytes fun _ _ => rfl, rfl⟩
    · obtain ⟨hkept, hbase⟩ := transfer_kept hring hoff htr
      obtain ⟨a, d₃, hget₂, -, hvq, -⟩ := transfer_inv htr
      have hring₂ := (VqDev.getAvail_slot hring hget₂).2
      rw [← hvq] at hring₂
      obtain ⟨hkept', hbase'⟩ := finish_any_kept hring₂ (hoff.kept hkept hbase) h.idx hfin
      exact ⟨hkept.trans hkept', hbase'.trans hbase⟩
    · exact finish_any_kept hring hoff h.idx hfin

theorem turnMems_kept (h : RingOf dev.vq ring n) (hoff : BuffersOff ring n dev.ram) :
    ∀ m ∈ turnMems dev req, RingKept ring n dev.ram.bytes m := by
  unfold turnMems
  rw [List.forall_mem_append]
  constructor
  · cases hget : dev.getAvail with
    | error e => exact fun m hm => by cases hm
    | ok p =>
      obtain ⟨desc, d₁⟩ := p
      rw [follow_ok]
      cases hcopy : copyHeader d₁ desc req with
      | error e => exact fun m hm => by cases hm
      | ok req₁ =>
        rw [follow_ok]
        split
        · cases desc with
          | none => cases hcopy
          | some head =>
            have hring := (VqDev.getAvail_slot h hget).2
            rw [← VqDev.getAvail_ram hget] at hoff ⊢
            cases virtqCheckNext d₁.ram (some head) with
            | error e => exact fun m hm => by cases hm
            | ok next =>
              rw [follow_ok]
              split
              · cases htr : transfer d₁ req₁ with
                | error e => exact fun m hm => by cases hm
                | ok r =>
                  rw [follow_ok, List.forall_mem_singleton]
                  exact (transfer_kept hring hoff htr).1
              · exact fun m hm => by cases hm
        · exact fun m hm => by cases hm
  · cases hr : round dev req with
    | error e => exact fun m hm => by cases hm
    | ok x =>
      rw [follow_ok, List.forall_mem_singleton]
      exact (round_kept h hoff hr).1

/-- Buffers off the ring leave the ring alone, turn after turn. -/
theorem BuffersOff.leftAlone (fuel : Nat) :
    ∀ {dev : VirtioBlkDev} {req : Store}, RingOf dev.vq ring n →
    BuffersOff ring n dev.ram → LeftAlone ring n fuel dev req := by
  unfold LeftAlone
  induction fuel with
  | zero =>
    intro dev req _ _ t ht
    cases ht
  | succ fuel ih =>
    intro dev req h hoff
    rw [heads, List.forall_mem_cons]
    refine ⟨fun m hm => (turnMems_kept h hoff m hm).sameAvail, ?_⟩
    cases hr : round dev req with
    | error e => exact fun t ht => by cases ht
    | ok x =>
      obtain ⟨flow, d', req'⟩ := x
      obtain ⟨hkept, hbase⟩ := round_kept h hoff hr
      cases flow with
      | ret => exact fun t ht => by cases ht
      | loop => exact ih (round_ring h hr) (hoff.kept hkept hbase)

end

end Blk

theorem slotAt_pos {vq : Virtq} {ring n : Nat} (j : Nat) :
    slotAt ring n (vq.cursor.pos n + j) = ring + 16 * ((vq.nextAvailIdx + j) % n) := by
  unfold slotAt Cursor.pos Virtq.cursor
  split
  · rfl
  · rw [Nat.add_assoc, Nat.add_mod_left]

theorem laps_pos {vq : Virtq} {ring n : Nat} (h : RingOf vq ring n) (k : Nat) :
    (vq.cursor.pos n + k) / n = vq.cursor.pos n / n + (vq.nextAvailIdx + k) / n := by
  have hn : 0 < n := Nat.zero_lt_of_lt h.idx
  have hidx : vq.nextAvailIdx / n = 0 := Nat.div_eq_of_lt h.idx
  unfold Cursor.pos Virtq.cursor
  split
  · simp only [hidx, Nat.zero_add]
  · simp only
    rw [Nat.add_assoc, Nat.add_div_left _ hn, Nat.add_div_left _ hn, hidx]
    omega

/-- **A ring that nobody refills is drained in one lap.** For every ring in guest memory of any
device, whatever it holds and wherever the cursor is: of calls of `virtq_get_avail` between which no
AVAIL bit of the ring changes (toggling USED changes none), at most `n` return a descriptor; each
returns the slot under the index, which goes on by one modulo `n`, and the wrap bit flips at each
passing of the end. The request loop of the block device ends on the ring if nothing it writes
itself changes an AVAIL bit, and nothing does if the buffers of the ring's descriptors lie off the
ring. -/
theorem frozen_ring_drained (ring n : Nat) :
    (∀ taken m m', UsedToggled ring n taken m m' → SameAvail ring n m m') ∧
    (∀ {β : Type} (d : VqDev β), RingOf d.vq ring n → ∀ ts d', Drain ring n d ts d' →
      ts.length ≤ n ∧
      ts.map Taken.desc =
        (List.range ts.length).map (fun j => ring + 16 * ((d.vq.nextAvailIdx + j) % n)) ∧
      d'.vq.nextAvailIdx = (d.vq.nextAvailIdx + ts.length) % n ∧
      ts.countP Taken.flipped = (d.vq.nextAvailIdx + ts.length) / n ∧
      (∃ x, d'.getAvail = .ok x) ∧ (ts.length = n → d'.getAvail = .ok (none, d'))) ∧
    (∀ dev : VirtioBlkDev, RingOf dev.vq ring n →
      (∀ req fuel, n < fuel → Blk.LeftAlone ring n fuel dev req →
        virtioBlkCompleteRequest fuel dev req ≠ .error .fuel) ∧
      (Blk.BuffersOff ring n dev.ram → ∀ req fuel, Blk.LeftAlone ring n fuel dev req)) := by
  refine ⟨fun taken m m' hm => hm.sameAvail, ?_, ?_⟩
  · intro β d h ts d' hdrain
    have hd := hdrain.drained h.queueAt
    refine ⟨hd.length_le, ?_, ?_, ?_, ⟨_, VqDev.getAvail_eq hd.queue.ringOf⟩, hd.getAvail_lap⟩
    · rw [hd.slots]
      exact List.map_congr_left fun j _ => slotAt_pos j
    · have hidx : d'.vq.nextAvailIdx = (d.vq.cursor.pos n + ts.length) % n :=
        congrArg Cursor.idx hd.queue.cursor
      have hslot : slotAt ring n (d.vq.cursor.pos n + ts.length) = _ := slotAt_pos ts.length
      unfold slotAt at hslot
      omega
    · have hflips := hd.flips
      rw [laps_pos h] at hflips
      omega
  · intro dev h
    refine ⟨fun req fuel hfuel hleft => ?_, fun hoff req fuel => hoff.leftAlone fuel h⟩
    exact Blk.drain_ends fuel h .nil (by simpa using hfuel) hleft

theorem frozen_ring_drained_whole :
    RingOf (ringDev wholeChain).vq 0x1000 4 ∧
      Blk.LeftAlone 0x1000 4 5 (ringDev wholeChain) (fun _ => 0) ∧
      virtioBlkCompleteRequest 5 (ringDev wholeChain) (fun _ => 0) ≠ .error .fuel := by
  have hleft : Blk.LeftAlone 0x1000 4 5 (ringDev wholeChain) (fun _ => 0) := by decide +kernel
  obtain ⟨-, -, hloop⟩ := frozen_ring_drained 0x1000 4
  exact ⟨ringDev_ring _, hleft,
    (hloop (ringDev wholeChain) (ringDev_ring _)).1 _ 5 (by decide) hleft⟩

/-! ## A ring that refills itself

Six slots at 0x1000, used by two requests of three descriptors in turn. Each reads 48 bytes of the
disk into the other half of the ring: the next request, with the AVAIL and USED bits for the wrap
bit it will be taken with. There are four requests, for two laps; request `k` reads sector `k`,
which holds the chain of the request after it. -/

namespace Blk

def refillReq (k : Nat) : Req :=
  ⟨virtioBlkTIn, k, 0x4000 + 16 * k, 0x1000 + 48 * ((k + 1) % 2), 48, 0x6000⟩

/-- AVAIL for the first lap, USED for the second. -/
def refillFlags (k : Nat) : Nat :=
  if k < 2 then 2 ^ vringPackedDescFAvail else 2 ^ vringPackedDescFUsed

def refillDesc (k j : Nat) : VringPackedDesc :=
  if j = 0 then ⟨(refillReq k).header, 16, 0, refillFlags k + 1⟩
  else if j = 1 then ⟨(refillReq k).data, 48, 0, refillFlags k + 1⟩
  else ⟨(refillReq k).status, 1, 0, refillFlags k⟩

def putChain (m : Store) (a k : Nat) : Store :=
  putDesc (putDesc (putDesc m a (refillDesc k 0)) (a + 16) (refillDesc k 1)) (a + 32)
    (refillDesc k 2)

def refillDisk : Store := fun p =>
  if p < 2048 then putChain (fun _ => 0) (512 * (p / 512)) ((p / 512 + 1) % 4) p else 0

theorem refillDisk_hole (p : Nat) (h : 2048 ≤ p) : refillDisk p = 0 := if_neg (by omega)

/-- The first request in the ring, and the sector numbers of the four headers. -/
def refillMem : Store :=
  putLE (putLE (putLE (putChain (fun _ => 0) 0x1000 0) 0x4018 8 1) 0x4028 8 2) 0x4038 8 3

def refillDev : VirtioBlkDev where
  vq := ⟨some 0x1000, none, none, putLE (fun _ => 0) 0 2 6, 0, true⟩
  ram := ⟨0, refillMem⟩
  isrStatus := 0
  backend := diskimgInit
    ⟨refillDisk, 2048, 0, fun _ => .count 48, 0, offMax, refillDisk_hole, by decide, Nat.le_refl _⟩
  trace := []

/-- The device when the loop comes to its head for the `r`-th time. -/
structure Refilled (r : Nat) (dev : VirtioBlkDev) : Prop where
  queue : QueueAt dev.vq 0x1000 6 (3 * r)
  base : dev.ram.base = 0
  chain : ∀ j < 3, descAt dev.ram.bytes (0x1000 + 48 * (r % 2) + 16 * j) = refillDesc (r % 4) j
  headers : ∀ k < 4, getLE dev.ram.bytes (0x4000 + 16 * k) 4 = 0 ∧
    getLE dev.ram.bytes (0x4000 + 16 * k + 8) 8 = k
  disk : dev.backend.fd.bytes = refillDisk
  len : dev.backend.fd.len = 2048
  env : ∀ i, dev.backend.fd.env i = .count 48

theorem slotAt_half (r : Nat) {j : Nat} (hj : j < 3) :
    slotAt 0x1000 6 (3 * r + j) = 0x1000 + 48 * (r % 2) + 16 * j := by
  unfold slotAt
  omega

theorem wrapAt_half (r : Nat) {j : Nat} (hj : j < 3) :
    wrapAt 6 (3 * r + j) = decide (r % 4 < 2) := by
  unfold wrapAt
  rw [show (3 * r + j) / 6 = r / 2 by omega, Bool.beq_eq_decide_eq]
  exact decide_eq_decide.mpr (by omega)

theorem refillDesc_avail :
    ∀ k < 4, ∀ j < 3, availFor (decide (k < 2)) (refillDesc k j).flags = true := by decide

theorem refillDesc_next :
    ∀ k < 4, ∀ j < 3, (refillDesc k j).flags.testBit vringDescFNext = decide (j + 1 < 3) := by
      decide

theorem refillDisk_chain :
    ∀ k < 4, ∀ j < 3, descAt refillDisk (512 * k + 16 * j) = refillDesc ((k + 1) % 4) j := by
  decide +kernel

variable {r : Nat} {dev : VirtioBlkDev} {req : Store}

theorem Refilled.chainAt (h : Refilled r dev) :
    ChainAt dev.ram.base dev.ram.bytes 0x1000 6 (3 * r) (refillReq (r % 4)) := by
  have hk : r % 4 < 4 := Nat.mod_lt r (by decide)
  have hslot : ∀ j < 3, descAt dev.ram.bytes (slotAt 0x1000 6 (3 * r + j)) =
      refillDesc (r % 4) j := by
    intro j hj
    rw [slotAt_half r hj]
    exact h.chain j hj
  have hhead : descAt dev.ram.bytes (slotAt 0x1000 6 (3 * r)) = refillDesc (r % 4) 0 :=
    hslot 0 (by decide)
  have hdata := hslot 1 (by decide)
  have hstatus := hslot 2 (by decide)
  obtain ⟨htype, hsector⟩ := h.headers (r % 4) hk
  refine ⟨?_, ?_, ?_, ?_, htype, hsector, ?_, ?_, ?_⟩
  · intro j hj
    rw [hslot j hj, wrapAt_half r hj]
    exact refillDesc_avail _ hk j hj
  · intro j hj
    rw [hslot j hj]
    exact refillDesc_next _ hk j hj
  · rw [hhead, h.base, Nat.zero_add]
    rfl
  · rw [hhead]
    rfl
  · intro _
    rw [hdata, h.base, Nat.zero_add]
    rfl
  · intro _
    rw [hdata]
    rfl
  · rw [h.base, Nat.zero_add]
    exact congrArg VringPackedDesc.addr hstatus

theorem refillReq_out {m : Store} {f : File} {a : Nat}
    (ha : a < 0x1000 + 48 * ((r + 1) % 2) ∨ 0x1000 + 48 * ((r + 1) % 2) + 48 ≤ a) :
    (refillReq (r % 4)).dataOut m f a = m a := by
  refine Req.dataOut_out ?_
  simp only [Req.dataSpan, refillReq, Span.Has]
  omega

/-- The data of a request is the chain of the next one. -/
theorem Refilled.data (h : Refilled r dev) {j : Nat} (hj : j < 3) :
    descAt ((refillReq (r % 4)).dataOut dev.ram.bytes dev.backend.fd)
      (0x1000 + 48 * ((r + 1) % 2) + 16 * j) =
      refillDesc ((r + 1) % 4) j := by
  have hdata : (refillReq (r % 4)).data = 0x1000 + 48 * ((r + 1) % 2) := by
    simp only [refillReq]
    omega
  have hmoved : (IoRes.count 48).moved (refillReq (r % 4)).asked = 48 := rfl
  have hin : (refillReq (r % 4)).type = virtioBlkTIn := rfl
  unfold Req.dataOut
  rw [if_pos hin, h.env, hmoved, hdata, h.disk, descAt_copy _ _ _ _ (by omega)]
  have hoff : (refillReq (r % 4)).offset = 512 * (r % 4) := Nat.mul_comm _ _
  have hnext : (r % 4 + 1) % 4 = (r + 1) % 4 := by omega
  rw [hoff, refillDisk_chain _ (Nat.mod_lt r (by decide)) j hj, hnext]

/-- A turn serves the request, though its data is written into the ring. -/
theorem Refilled.serves (h : Refilled r dev) (req : Store) :
    ∃ req', Blk.round dev req = .ok
      (.loop, (refillReq (r % 4)).served 0x1000 6 (3 * r) dev, req') := by
  have hc := h.chainAt
  have hram : ∀ s ∈ (refillReq (r % 4)).spans, s.lo + s.len ≤ ramSize := by
    unfold ramSize
    simp only [Req.spans, refillReq, Req.IsIo, true_or, if_true, List.forall_mem_cons,
      Req.headerSpan, Req.statusSpan, Req.dataSpan]
    refine ⟨by omega, by omega, by omega, fun s hs => by cases hs⟩
  have himg : (refillReq (r % 4)).offset + (refillReq (r % 4)).dataLen ≤ dev.backend.fd.len := by
    rw [h.len]
    simp only [Req.offset, refillReq]
    omega
  have hself : ∀ j, 0 < j → j < 3 →
      descAt ((refillReq (r % 4)).dataOut dev.ram.bytes dev.backend.fd)
        (slotAt 0x1000 6 (3 * r + j)) =
        descAt dev.ram.bytes (slotAt 0x1000 6 (3 * r + j)) := by
    intro j _ hj
    rw [slotAt_half r hj]
    refine descAt_congr fun a ha => refillReq_out ?_
    simp only [Span.Has] at ha
    omega
  obtain ⟨req', hbody⟩ := body_chain req h.queue hc (.inl rfl) hram himg hself
  exact ⟨req', (round_took req h.queue (hc.avail 0 (Req.slots_pos _))).trans hbody⟩

/-- Serving it makes the next one available. -/
theorem Refilled.next (h : Refilled r dev) :
    Refilled (r + 1) ((refillReq (r % 4)).served 0x1000 6 (3 * r) dev) := by
  have hhead : slotAt 0x1000 6 (3 * r) = 0x1000 + 48 * (r % 2) := slotAt_half r (by decide : 0 < 3)
  have hother : ∀ a, (a < 0x1000 + 48 * (r % 2) ∨ 0x1000 + 48 * (r % 2) + 16 ≤ a) → a ≠ 0x6000 →
      ((refillReq (r % 4)).served 0x1000 6 (3 * r) dev).ram.bytes a =
        (refillReq (r % 4)).dataOut dev.ram.bytes dev.backend.fd a := by
    intro a ha hst
    refine finishMem_out ?_ ?_
    · rw [hhead]
      simp only [Span.Has]
      omega
    · simp only [Span.Has, refillReq]
      omega
  refine ⟨h.queue.at (3 * (r + 1)), h.base, ?_, ?_, h.disk, h.len, h.env⟩
  · intro j hj
    rw [← h.data hj]
    refine descAt_congr fun a ha => hother a ?_ ?_
    · simp only [Span.Has] at ha
      omega
    · simp only [Span.Has] at ha
      omega
  · intro k hk
    obtain ⟨htype, hsector⟩ := h.headers k hk
    have hkeep : ∀ a, 0x4000 ≤ a → a < 0x4040 →
        ((refillReq (r % 4)).served 0x1000 6 (3 * r) dev).ram.bytes a = dev.ram.bytes a := by
      intro a hlo hhi
      rw [hother a (by omega) (by omega), refillReq_out (by omega)]
    constructor
    · exact (getLE_congr fun i hi => hkeep (0x4000 + 16 * k + i) (by omega) (by omega)).trans htype
    · exact (getLE_congr fun i hi => hkeep (0x4000 + 16 * k + 8 + i) (by omega) (by omega)).trans
        hsector

theorem Refilled.spins (fuel : Nat) :
    ∀ {r : Nat} {dev : VirtioBlkDev} {req : Store}, Refilled r dev →
    virtioBlkCompleteRequest fuel dev req = .error .fuel := by
  induction fuel with
  | zero =>
    intro r dev req _
    rfl
  | succ fuel ih =>
    intro r dev req h
    obtain ⟨req', hround⟩ := h.serves req
    simp only [virtioBlkCompleteRequest, hround, ok_bind]
    exact ih h.next

theorem refillDev_refilled : Refilled 0 refillDev where
  queue := ⟨rfl, rfl, by decide, by decide, rfl⟩
  base := rfl
  chain := by decide +kernel
  headers := by decide +kernel
  disk := rfl
  len := rfl
  env := fun _ => rfl

end Blk

/-- The request loop does not end on the ring that refills itself, which the guest leaves alone. -/
theorem refilled_ring_never_drained :
    RingOf Blk.refillDev.vq 0x1000 6 ∧ ∀ fuel,
      virtioBlkCompleteRequest fuel Blk.refillDev (fun _ => 0) = .error .fuel :=
  ⟨Blk.refillDev_refilled.queue.ringOf, fun fuel => Blk.refillDev_refilled.spins fuel⟩

end KvmHost
