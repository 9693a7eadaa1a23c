import KvmHost.VirtioRuns

/-!
# KvmHost.QueueEnable

Which queues are enabled, over runs of a virtio device.

`vq.info.enable` is the flag that the `enable_vq` functions test and set, and it is also two bytes
of an image that the guest writes: any write that starts at another queue register and covers offset
28 or 29 of the window reaches it without the body of `enable_vq`. The size of the ring is in the
same image and can change while the queue is in use. `enabled_queues_run` says what holds of the
enabled queues as long as the writes do neither and stay in the data of the device.
-/

namespace KvmHost

open ByteStore Turns

namespace EnableRun

/-- The size of the ring that was enabled. -/
def size (r : EnableRun) : Nat := getLE r.info 0 2

end EnableRun

/-- The queue's pointers are those that the body of `enable_vq` mapped from the configured
addresses. -/
structure Virtq.MappedBy (vq : Virtq) (r : EnableRun) : Prop where
  descRing : vq.descRing = vmGuestToHost r.ram (getLE r.info 8 8)
  deviceEvent : vq.deviceEvent = vmGuestToHost r.ram (getLE r.info 16 8)
  guestEvent : vq.guestEvent = vmGuestToHost r.ram (getLE r.info 24 8)

section

variable {β : Type}

/-- The runs of the body of `enable_vq` for queue `q`. -/
def VirtioPciDev.runsOf (dev : VirtioPciDev β) (q : Nat) : List EnableRun :=
  dev.enables.filter fun r => r.queue = q

/-- If the queue is enabled, `enable_vq` ran for it, once, and the cursor is in the ring: in the one
that was enabled, and below the present size. -/
def VirtioPciDev.EnabledOk (dev : VirtioPciDev β) (q : Nat) : Prop :=
  (dev.vq q).enable ≠ 0 → ∃ r, dev.runsOf q = [r] ∧ (dev.vq q).MappedBy r ∧
    (dev.vq q).nextAvailIdx < (dev.vq q).size ∧ (dev.vq q).nextAvailIdx < r.size

/-- What carries the induction: a queue that is not enabled is as it was created. -/
inductive Ready (dev : VirtioPciDev β) (q : Nat) : Prop where
  | idle : (dev.vq q).enable = 0 → dev.runsOf q = [] → (dev.vq q).descRing = none →
      (dev.vq q).nextAvailIdx = 0 → Ready dev q
  | live (r : EnableRun) : (dev.vq q).enable ≠ 0 → dev.runsOf q = [r] → (dev.vq q).MappedBy r →
      (dev.vq q).nextAvailIdx < (dev.vq q).size → (dev.vq q).size = r.size → Ready dev q

theorem Ready.enabledOk {dev : VirtioPciDev β} {q : Nat} (h : Ready dev q) : dev.EnabledOk q := by
  intro hen
  cases h with
  | idle h0 _ _ _ => exact absurd h0 hen
  | live r _ hr hm hi hs => exact ⟨r, hr, hm, hi, by rw [← hs]; exact hi⟩

theorem Ready.congr {dev dev' : VirtioPciDev β} {q : Nat} (h : Ready dev q)
    (hvq : dev'.vq q = dev.vq q) (hruns : dev'.runsOf q = dev.runsOf q) : Ready dev' q := by
  cases h with
  | idle h0 hr hp hi =>
    rw [← hvq] at h0 hp hi
    exact .idle h0 (hruns.trans hr) hp hi
  | live r h0 hr hm hi hs =>
    rw [← hvq] at h0 hm hi hs
    exact .live r h0 (hruns.trans hr) hm hi hs

end

namespace VirtioKind

variable (k : VirtioKind)

/-- A write stays in the data of the device. One into the registers of a queue leaves its `enable`
alone, and its size once it is enabled; and no queue of size 0 is enabled. -/
def KeepsEnabled (t : VirtioPciDev k.Backend × Event) : Prop :=
  match t.2 with
  | .access a _ _ => a.isWrite = true → a.Lands t.1 ∧
    (QueueReg a.offset → (a.copied t.1).queueSelect < (a.copied t.1).numQueues →
      (t.1.written (a.copied t.1).queueSelect a.offset a.data).enable =
          (t.1.vq (a.copied t.1).queueSelect).enable ∧
        ((t.1.vq (a.copied t.1).queueSelect).enable ≠ 0 →
          (t.1.written (a.copied t.1).queueSelect a.offset a.data).size =
            (t.1.vq (a.copied t.1).queueSelect).size)) ∧
    (a.offset = qEnable → (a.copied t.1).queueEnable ≠ 0 →
      (t.1.vq (a.copied t.1).queueSelect).size ≠ 0)
  | _ => True

instance (t : VirtioPciDev k.Backend × Event) : Decidable (k.KeepsEnabled t) :=
  match t with
  | (_, .access _ _ _) => inferInstanceAs (Decidable (_ → _ ∧ _ ∧ _))
  | (_, .handle _ _ _) => .isTrue trivial
  | (_, .getAvail _) => .isTrue trivial
  | (_, .memory _) => .isTrue trivial
  | (_, .header _) => .isTrue trivial

end VirtioKind

/-! ## One event -/

section

variable {β : Type} {dev dev' : VirtioPciDev β} {q q' : Nat}

theorem runsOf_enabled (dev : VirtioPciDev β) (q addr len : Nat) :
    (dev.enabled q addr len).runsOf q =
      dev.runsOf q ++ [⟨q, addr, len, dev.ram, (dev.mapped q).info⟩] := by
  simp [VirtioPciDev.runsOf, VirtioPciDev.enabled, List.filter_append]

theorem runsOf_enabled_other (dev : VirtioPciDev β) (addr len : Nat) (h : q ≠ q') :
    (dev.enabled q' addr len).runsOf q = dev.runsOf q := by
  simp [VirtioPciDev.runsOf, VirtioPciDev.enabled, List.filter_append, Ne.symm h]

/-- The body of `enable_vq` writes `enable` and no other field of `virtq_info`. -/
theorem mapped_field (dev : VirtioPciDev β) (q : Nat) {a n : Nat} (h : Span.Apart ⟨a, n⟩ ⟨4, 2⟩) :
    getLE (dev.mapped q).info a n = getLE (dev.vq q).info a n :=
  getLE_putLE_apart h

theorem mapped_enable (dev : VirtioPciDev β) (q : Nat) : (dev.mapped q).enable = 1 :=
  getLE_putLE_same (dev.vq q).info 4 2 1

theorem mapped_size (dev : VirtioPciDev β) (q : Nat) : (dev.mapped q).size = (dev.vq q).size :=
  mapped_field dev q (by decide)

theorem mapped_mappedBy (dev : VirtioPciDev β) (q addr len : Nat) :
    (dev.mapped q).MappedBy ⟨q, addr, len, dev.ram, (dev.mapped q).info⟩ where
  descRing := by rw [mapped_field dev q (by decide)]; rfl
  deviceEvent := by rw [mapped_field dev q (by decide)]; rfl
  guestEvent := by rw [mapped_field dev q (by decide)]; rfl

/-- The body of `enable_vq` brings a queue of nonzero size from idle to live. -/
theorem ready_enabled (h : Ready dev q) (h0 : (dev.vq q).enable = 0) (hsize : (dev.vq q).size ≠ 0)
    (addr len : Nat) : Ready (dev.enabled q addr len) q := by
  have hvq : (dev.enabled q addr len).vq q = dev.mapped q := Function.update_self _ _ _
  cases h with
  | live r hen _ _ _ _ => exact absurd h0 hen
  | idle _ hruns _ hidx =>
    refine .live ⟨q, addr, len, dev.ram, (dev.mapped q).info⟩ ?_ ?_ ?_ ?_ ?_
    · rw [hvq, mapped_enable]; decide
    · rw [runsOf_enabled, hruns]; rfl
    · rw [hvq]; exact mapped_mappedBy dev q addr len
    · have hzero : (dev.mapped q).nextAvailIdx = 0 := hidx
      rw [hvq, mapped_size, hzero]
      exact Nat.pos_of_ne_zero hsize
    · rw [hvq]; rfl

/-- A write that keeps `enable`, and the size of an enabled queue. -/
theorem ready_written {offset : Nat} {data : List UInt8} (h : Ready dev q)
    (hvq : dev'.vq q = dev.written q offset data) (hruns : dev'.runsOf q = dev.runsOf q)
    (hen : (dev.written q offset data).enable = (dev.vq q).enable)
    (hsize : (dev.vq q).enable ≠ 0 → (dev.written q offset data).size = (dev.vq q).size) :
    Ready dev' q := by
  cases h with
  | idle h0 hr hp hi =>
    refine .idle ?_ (hruns.trans hr) ?_ ?_
    · rw [hvq, hen]; exact h0
    · rw [hvq]; exact hp
    · rw [hvq]; exact hi
  | live r h0 hr hm hi hs =>
    refine .live r ?_ (hruns.trans hr) ?_ ?_ ?_
    · rw [hvq, hen]; exact h0
    · rw [hvq]; exact ⟨hm.descRing, hm.deviceEvent, hm.guestEvent⟩
    · rw [hvq, hsize h0]; exact hi
    · rw [hvq, hsize h0]; exact hs

theorem ready_moved {vq : Virtq} (h : Ready dev q) (hm : (dev.vq q).Moved vq) (hvq : dev'.vq q = vq)
    (hruns : dev'.runsOf q = dev.runsOf q) : Ready dev' q := by
  cases h with
  | idle h0 hr hp hi =>
    rw [hm.null hp] at hvq
    exact Ready.congr (.idle h0 hr hp hi) hvq hruns
  | live r h0 hr hmap hi hs =>
    have hsize : vq.size = (dev.vq q).size := by unfold Virtq.size; rw [hm.info]
    refine .live r ?_ (hruns.trans hr) ?_ ?_ ?_
    · rw [hvq]; unfold Virtq.enable; rw [hm.info]; exact h0
    · rw [hvq]
      exact ⟨hm.descRing.trans hmap.descRing, hm.deviceEvent.trans hmap.deviceEvent,
        hm.guestEvent.trans hmap.guestEvent⟩
    · rw [hvq, hsize]; exact hm.idx hi
    · rw [hvq, hsize]; exact hs

end

namespace VirtioKind

variable {k : VirtioKind} {dev : VirtioPciDev k.Backend} {ev : Event}

theorem step_ready (hc : k.KeepsEnabled (dev, ev)) {q : Nat} (h : Ready dev q) :
    Ready (k.step dev ev).dev q := by
  have hcase := k.step_vq dev ev
  generalize (k.step dev ev).dev = dev' at hcase
  cases hcase with
  | same hvq hen => exact h.congr (by rw [hvq]) (by unfold VirtioPciDev.runsOf; rw [hen])
  | @enable a fuel req _ q' addr len hw hoff hval hsel hq h0 hvq hen =>
    have hsize : (dev.vq q').size ≠ 0 := by
      rw [hsel]
      exact (hc hw).2.2 hoff hval
    have hruns : ∀ p, dev'.runsOf p = (dev.enabled q' addr len).runsOf p := fun p => by
      unfold VirtioPciDev.runsOf; rw [hen]
    by_cases hqq : q = q'
    · subst hqq
      exact (ready_enabled h h0 hsize addr len).congr (by rw [hvq]) (hruns q)
    · refine h.congr ?_ ((hruns q).trans (runsOf_enabled_other dev addr len hqq))
      rw [hvq]
      exact Function.update_of_ne hqq _ _
  | @write a fuel req _ q' hw hreg hsel hlt hq hvq hen =>
    have hruns : dev'.runsOf q = dev.runsOf q := by unfold VirtioPciDev.runsOf; rw [hen]
    by_cases hqq : q = q'
    · subst hqq
      rw [hsel] at hq hlt hvq h ⊢
      obtain ⟨hkeep, hsize⟩ := (hc hw).2.1 hreg hlt
      exact ready_written h (by rw [hvq, Function.update_self])
        (by rw [← hsel]; exact hruns) hkeep hsize
    · exact h.congr (by rw [hvq, Function.update_of_ne hqq]) hruns
  | @move _ _ q' vq hq hm hvq hen =>
    have hruns : dev'.runsOf q = dev.runsOf q := by unfold VirtioPciDev.runsOf; rw [hen]
    by_cases hqq : q = q'
    · subst hqq
      exact ready_moved h hm (by rw [hvq, Function.update_self]) hruns
    · exact h.congr (by rw [hvq, Function.update_of_ne hqq]) hruns

theorem initPci_ready (host : Host k.Backend) (q : Nat) : Ready (k.initPci host) q := by
  have hnew : ∀ self off, (newVirtq self off).enable = 0 := fun self off => by
    have : getLE (putLE (virtqInit ⟨none, none, none, putLE (fun _ => 0) 6 2 off, 0, false⟩).info
        virtqInfoSize 8 self) 4 2 = 0 := by
      rw [getLE_putLE_apart (by simp [Span.Apart, virtqInfoSize])]
      exact getLE_putLE_same _ 4 2 0
    exact this
  cases k with
  | blk => exact .idle (hnew _ _) rfl rfl rfl
  | net => exact .idle (hnew _ _) rfl rfl rfl

end VirtioKind

/-- **Enabled queues.** Over any run of a device from its creation whose writes stay in the data of
the device and keep `enable` and the size of the enabled queues, every queue that is enabled was
enabled by one run of `enable_vq` and has its cursor in the ring of that run. A run ends where a
handler leaves guest memory; nothing is said of the device after that. -/
theorem enabled_queues_run (k : VirtioKind) (host : Host k.Backend) (evs : List Event)
    (hkeep : ∀ t ∈ k.run host evs, k.KeepsEnabled t) :
    ∀ t ∈ k.run host evs, ∀ q, t.1.EnabledOk q ∧
      ∀ dev', k.next t.1 t.2 = some dev' → dev'.EnabledOk q := by
  have hready : ∀ t ∈ k.run host evs, ∀ q, Ready t.1 q := by
    refine turns_invariant (I := fun dev => ∀ q, Ready dev q) ?_ (k.initPci_ready host) hkeep
    intro dev ev dev' hi hc hnext q
    rw [← VirtioKind.next_eq hnext]
    exact VirtioKind.step_ready hc (hi q)
  intro t ht q
  refine ⟨(hready t ht q).enabledOk, fun dev' hnext => ?_⟩
  rw [← VirtioKind.next_eq hnext]
  exact (VirtioKind.step_ready (hkeep t ht) (hready t ht q)).enabledOk

/-- Four bytes at the MSI-X vector register of queue 0: the upper two are `queue_enable`. -/
theorem msix_write_enables :
    ∃ t ∈ VirtioKind.net.run netHost [barWrite 26 [0xff, 0xff, 1, 0] (by decide)],
      ((VirtioKind.net.step t.1 t.2).dev.vq 0).enable = 1 ∧
      ((VirtioKind.net.step t.1 t.2).dev.vq 0).descRing = none ∧
      ¬ (VirtioKind.net.step t.1 t.2).dev.EnabledOk 0 := by
  refine ⟨_, List.mem_cons_self, by decide +kernel, by decide +kernel, fun h => ?_⟩
  obtain ⟨r, hr, -⟩ := h (by decide +kernel)
  have hlen := congrArg List.length hr
  rw [List.length_singleton] at hlen
  exact absurd hlen (by decide +kernel)

/-- Queue 1 is selected, enabled and looked at. -/
def enableQueue1 : List Event :=
  [selectQueue1, setQueueEnable, .getAvail 1]

theorem enabled_queues_queue1 :
    (∃ t ∈ VirtioKind.net.run netHost enableQueue1, (t.1.vq 1).enable = 1) ∧
      ∀ t ∈ VirtioKind.net.run netHost enableQueue1, ∀ q, t.1.EnabledOk q ∧
        ∀ dev', VirtioKind.net.next t.1 t.2 = some dev' → dev'.EnabledOk q :=
  ⟨by decide +kernel, enabled_queues_run .net netHost enableQueue1 (by decide +kernel)⟩

end KvmHost
