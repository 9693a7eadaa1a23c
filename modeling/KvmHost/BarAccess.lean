import KvmHost.VirtioRuns

/-!
# KvmHost.BarAccess

Where the copies of a BAR access go, and which elements of `dev->vq` it touches.

The source compares the offset an access starts at with the ends of three regions and never looks at
its width, so an access can leave the region it starts in: from the registers into the pointer
`dev_cfg`, from a `virtq_info` into the pointer `dev` of its queue, and past the end of the device
configuration. `bar_access_confined` gives the condition under which none of the copies of a run
leaves its region.

The queue array is indexed by `queue_select` and by the notify register. Where the source compares
the index at all, it compares it with the register `num_queues`, which the guest can write.
`queue_indices_run` says which writes keep every index in range.
-/

namespace KvmHost

open ByteStore Turns

section

variable {β : Type}

/-- The copy stays inside one of the parts of the device that the guest may see. -/
def Copy.Inside (dev : VirtioPciDev β) (c : Copy) : Prop :=
  match c.region with
  | .config => c.start + c.len ≤ devCfgOffset
  | .info q => q = dev.queueSelect ∧ q < dev.numVq ∧ c.start + c.len ≤ virtqInfoSize
  | .devCfg => c.start + c.len ≤ dev.devCfgLength ∧ c.start + c.len ≤ dev.devCfgSize
  | .stray => False

/-- The access ends in the region it starts in, and the queue it selects exists. -/
structure Access.Within (a : Access) (dev : VirtioPciDev β) : Prop where
  register : a.offset < devCfgOffset → a.offset + a.size ≤ devCfgOffset
  select : a.isWrite = true → a.offset = qSelect →
    (a.copied dev).queueSelect < (a.copied dev).numQueues → (a.copied dev).queueSelect < dev.numVq
  queueReg : a.isWrite = true → QueueReg a.offset →
    (a.copied dev).queueSelect < (a.copied dev).numQueues →
    (a.copied dev).queueSelect < dev.numVq ∧ a.offset - qSize + a.size ≤ virtqInfoSize
  -- the length is in the header, where the guest can write it
  devCfg : devCfgOffset ≤ a.offset → a.offset - devCfgOffset + a.size ≤ dev.devCfgLength ∧
    a.offset - devCfgOffset + a.size ≤ dev.devCfgSize

/-- The two pointers next to the guest's regions, and what follows the device configuration, are as
before. -/
structure Guarded (dev dev' : VirtioPciDev β) : Prop where
  devCfgPtr : dev'.devCfgPtr = dev.devCfgPtr
  vqDevPtr : ∀ q, dev'.vqDevPtr q = dev.vqDevPtr q
  devCfg : ∀ p, dev.devCfgLength ≤ p ∨ dev.devCfgSize ≤ p → dev'.devCfg p = dev.devCfg p

end

namespace VirtioKind

variable (k : VirtioKind)

/-- Every byte that the access of this turn copies lies in one of the regions. -/
def Confined (t : VirtioPciDev k.Backend × Event) : Prop :=
  match t.2 with
  | .access a _ _ => ∀ c ∈ (k.step t.1 t.2).copies, c.Inside (a.copied t.1)
  | _ => True

def Within (t : VirtioPciDev k.Backend × Event) : Prop :=
  match t.2 with
  | .access a _ _ => a.Within t.1
  | _ => True

/-- The turn reaches for an element past the end of `dev->vq`. -/
def OutOfRange (t : VirtioPciDev k.Backend × Event) : Prop :=
  (k.step t.1 t.2).PastEnd

/-- A write that covers a byte of the register `num_queues` leaves no more in it than the device has
queues. -/
def KeepsCount (t : VirtioPciDev k.Backend × Event) : Prop :=
  match t.2 with
  | .access a _ _ => ¬ Span.Apart ⟨18, 2⟩ ⟨a.offset, a.size⟩ → (a.copied t.1).numQueues ≤ t.1.numVq
  | _ => True

/-- A write of `queue_enable` or of the notify register is about a queue of the device. -/
def NamesQueue (t : VirtioPciDev k.Backend × Event) : Prop :=
  match t.2 with
  | .access a _ _ => a.isWrite = true →
    (a.offset = qEnable → (a.copied t.1).queueSelect < t.1.numVq) ∧
      (a.offset = notifyData → (a.copied t.1).vqn < t.1.numVq)
  | _ => True

instance (t : VirtioPciDev k.Backend × Event) : Decidable (k.KeepsCount t) :=
  match t with
  | (_, .access _ _ _) => inferInstanceAs (Decidable (_ → _))
  | (_, .handle _ _ _) => .isTrue trivial
  | (_, .getAvail _) => .isTrue trivial
  | (_, .memory _) => .isTrue trivial
  | (_, .header _) => .isTrue trivial

instance (t : VirtioPciDev k.Backend × Event) : Decidable (k.NamesQueue t) :=
  match t with
  | (_, .access _ _ _) => inferInstanceAs (Decidable (_ → _ ∧ _))
  | (_, .handle _ _ _) => .isTrue trivial
  | (_, .getAvail _) => .isTrue trivial
  | (_, .memory _) => .isTrue trivial
  | (_, .header _) => .isTrue trivial

end VirtioKind

/-! ## The copies of an access -/

section

variable {β : Type} {ops : Nat → VirtqOps β} {dev : VirtioPciDev β} {a : Access}

theorem handleAvail_copies (q : Nat) : (handleAvail ops dev q).copies = [] := by
  unfold handleAvail
  split
  · split
    · rfl
    · split <;> rfl
  · rfl

theorem writeRegister_copies (offset : Nat) (data : List UInt8) :
    (writeRegister ops dev offset data).copies =
      if dev.queueSelect < dev.numQueues then
        if offset = qSelect then
          [⟨.info dev.queueSelect, 0, virtqInfoSize⟩, ⟨.config, qSize, virtqInfoSize⟩]
        else if QueueReg offset then [⟨.info dev.queueSelect, offset - qSize, data.length⟩] else []
      else [] := by
  rcases offset_cases offset with hp | rfl | rfl | ⟨hoth, hreg | rfl | hplain⟩
  · obtain ⟨dev', h, -⟩ := writeRegister_plain ops dev data hp
    rw [h, if_neg (show offset ≠ qSelect by unfold qSelect; omega),
      if_neg (show ¬ QueueReg offset by unfold QueueReg qSize; omega), ite_self]
    rfl
  · simp only [writeRegister, qSelect, virtioPciSelectVirtq]
    split
    · split <;> rfl
    · rfl
  · rw [if_neg (show qEnable ≠ qSelect by decide), if_neg (show ¬ QueueReg qEnable by decide),
      ite_self]
    simp only [writeRegister, qEnable]
    split
    · unfold virtioPciEnableVirtq
      dsimp only
      split
      · cases (ops dev.queueSelect).enableVq dev dev.queueSelect <;> rfl
      · rfl
    · unfold virtioPciDisableVirtq
      dsimp only
      split <;> rfl
  · rw [writeRegister_other hoth, writeOther_queueReg hreg, if_neg hoth.2.2.2.1, if_pos hreg]
    split
    · split <;> rfl
    · rfl
  · rw [writeRegister_other hoth, writeOther_notify, handleAvail_copies,
      if_neg (show notifyData ≠ qSelect by decide), if_neg (show ¬ QueueReg notifyData by decide),
      ite_self]
  · rw [writeRegister_other hoth, writeOther_plain hplain, if_neg hoth.2.2.2.1,
      if_neg (show ¬ QueueReg offset from fun h => hplain.1 ⟨h.1, h.2.1⟩), ite_self]
    rfl

theorem register_write_confined (hw : a.isWrite = true) (hlt : a.offset < devCfgOffset) :
    (∀ c ∈ (virtioPciSpaceIo ops dev a).copies, c.Inside (a.copied dev)) ↔ a.Within dev := by
  have hge : ¬ devCfgOffset ≤ a.offset := Nat.not_le_of_lt hlt
  rw [spaceIo_register _ _ hw hlt]
  simp only [Outcome.after, List.singleton_append, List.forall_mem_cons, writeRegister_copies]
  constructor
  · rintro ⟨hreg, hrest⟩
    refine ⟨fun _ => hreg, fun _ hsel hlt' => ?_, fun _ hqr hlt' => ?_, fun h => absurd h hge⟩
    · rw [if_pos hlt', if_pos hsel] at hrest
      have := (hrest _ List.mem_cons_self).2.1
      rwa [copied_numVq] at this
    · have hne : a.offset ≠ qSelect := by
        have := hqr.1
        unfold qSize at this; unfold qSelect; omega
      rw [if_pos hlt', if_neg hne, if_pos hqr] at hrest
      have := (hrest _ List.mem_cons_self).2
      rwa [copied_numVq] at this
  · intro h
    refine ⟨h.register hlt, ?_⟩
    split
    · rename_i hsel
      split
      · rename_i hq
        have := h.select hw hq hsel
        simp only [List.forall_mem_cons]
        exact ⟨⟨rfl, by rwa [copied_numVq], Nat.le_refl _⟩,
          show qSize + virtqInfoSize ≤ devCfgOffset by decide, List.forall_mem_nil _⟩
      · split
        · rename_i hqr
          have := h.queueReg hw hqr hsel
          simp only [List.forall_mem_cons]
          exact ⟨⟨rfl, by rw [copied_numVq]; exact this.1, this.2⟩, List.forall_mem_nil _⟩
        · exact List.forall_mem_nil _
    · exact List.forall_mem_nil _

theorem register_read_confined (hr : a.isWrite = false) (hlt : a.offset < devCfgOffset) :
    (∀ c ∈ (virtioPciSpaceIo ops dev a).copies, c.Inside (a.copied dev)) ↔ a.Within dev := by
  have hge : ¬ devCfgOffset ≤ a.offset := Nat.not_le_of_lt hlt
  have hnw : a.isWrite ≠ true := by rw [hr]; decide
  rw [spaceIo_read _ _ hr hlt]
  simp only [Outcome.after, Outcome.done, List.append_nil, List.forall_mem_cons]
  constructor
  · intro h
    exact ⟨fun _ => h.1, fun hc => absurd hc hnw, fun hc => absurd hc hnw, fun hc => absurd hc hge⟩
  · intro h
    exact ⟨h.register hlt, List.forall_mem_nil _⟩

theorem devCfg_confined (hptr : dev.devCfgPtr = dev.devCfgAddr) (hge : devCfgOffset ≤ a.offset) :
    (∀ c ∈ (virtioPciSpaceIo ops dev a).copies, c.Inside (a.copied dev)) ↔ a.Within dev := by
  have hlt : ¬ a.offset < devCfgOffset := Nat.not_lt_of_le hge
  have hlen : (a.copied dev).devCfgLength = dev.devCfgLength := by
    unfold VirtioPciDev.devCfgLength; rw [copied_hdr]
  rw [(spaceIo_devCfg ops dev hge).1, if_pos hptr]
  simp only [List.forall_mem_cons, Copy.Inside, hlen, copied_devCfgSize]
  constructor
  · rintro ⟨hin, -⟩
    refine ⟨fun hc => absurd hc hlt, fun _ hc => ?_, fun _ hc => ?_, fun _ => hin⟩
    · unfold devCfgOffset at hge; unfold qSelect at hc; omega
    · have := hc.2.1
      unfold devCfgOffset at hge; unfold qUsedhi at this; omega
  · intro h
    exact ⟨h.devCfg hge, List.forall_mem_nil _⟩

/-- An access copies inside its regions exactly when it is `Within` them, while `dev_cfg` is
intact. -/
theorem access_confined_iff (hptr : dev.devCfgPtr = dev.devCfgAddr) :
    (∀ c ∈ (virtioPciSpaceIo ops dev a).copies, c.Inside (a.copied dev)) ↔ a.Within dev := by
  rcases access_cases a with ⟨hw, hlt⟩ | ⟨hr, hlt⟩ | hge
  · exact register_write_confined hw hlt
  · exact register_read_confined hr hlt
  · exact devCfg_confined hptr hge

end

/-! ## Confinement -/

namespace VirtioKind

variable {k : VirtioKind} {dev : VirtioPciDev k.Backend} {ev : Event}

/-- A turn within its regions leaves the pointers `vq[q].dev` alone. -/
theorem step_vqDevPtr (hw : k.Within (dev, ev)) (q : Nat) :
    (k.step dev ev).dev.vqDevPtr q = dev.vqDevPtr q := by
  unfold VirtioPciDev.vqDevPtr
  have hcase := k.step_vq dev ev
  generalize (k.step dev ev).dev = dev' at hcase ⊢
  have hupd : ∀ {q' : Nat} {vq : Virtq}, dev'.vq = Function.update dev.vq q' vq →
      getLE vq.info virtqInfoSize 8 = getLE (dev.vq q').info virtqInfoSize 8 →
      getLE (dev'.vq q).info virtqInfoSize 8 = getLE (dev.vq q).info virtqInfoSize 8 := by
    intro q' vq hvq hinfo
    rw [hvq]
    by_cases hq : q = q'
    · subst hq; rw [Function.update_self]; exact hinfo
    · rw [Function.update_of_ne hq]
  cases hcase with
  | same hvq _ => rw [hvq]
  | enable addr len _ _ _ _ _ _ hvq _ =>
    exact hupd hvq (getLE_putLE_apart (by simp [Span.Apart, virtqInfoSize]))
  | write hwr hreg hq hsel _ hvq _ =>
    have hin := (hw.queueReg hwr hreg (by rw [← hq]; exact hsel)).2
    exact hupd hvq (getLE_patch_apart (.inr (.inr (.inr hin))))
  | move _ hm hvq _ => exact hupd hvq (by rw [hm.info])

theorem Within.devCfgPtr_copied (hw : k.Within (dev, ev)) :
    (ev.copied dev).devCfgPtr = dev.devCfgPtr := by
  cases ev with
  | access a fuel req =>
    simp only [Event.copied]
    unfold Access.copied
    split
    · rename_i h
      exact getLE_patch_apart (.inr (.inr (.inr (hw.register h.2))))
    · rfl
  | handle q fuel req => rfl
  | getAvail q => rfl
  | memory m => rfl
  | header h => rfl

/-- The elements of `dev->vq` and the address of the device configuration never change. -/
theorem step_host : (k.step dev ev).dev.numVq = dev.numVq ∧
    (k.step dev ev).dev.devCfgAddr = dev.devCfgAddr := by
  have hcopied : (ev.copied dev).numVq = dev.numVq ∧
      (ev.copied dev).devCfgAddr = dev.devCfgAddr := by
    cases ev with
    | access a fuel req => exact ⟨copied_numVq a dev, copied_devCfgAddr a dev⟩
    | handle q fuel req => exact ⟨rfl, rfl⟩
    | getAvail q => exact ⟨rfl, rfl⟩
    | memory m => exact ⟨rfl, rfl⟩
    | header h => exact ⟨rfl, rfl⟩
  rcases k.step_fixed dev ev with hf | ⟨a, fuel, req, devCfg, peeks, -, -, h, -⟩ | ⟨h', -, h⟩
  · exact ⟨hf.numVq.trans hcopied.1, hf.devCfgAddr.trans hcopied.2⟩
  · rw [h]; exact ⟨rfl, rfl⟩
  · rw [h]; exact ⟨rfl, rfl⟩

/-- A turn within its regions changes no byte next to them. -/
theorem step_guarded (hw : k.Within (dev, ev)) : Guarded dev (k.step dev ev).dev := by
  refine ⟨?_, step_vqDevPtr hw, ?_⟩
  · rcases k.step_fixed dev ev with
      hf | ⟨a, fuel, req, devCfg, peeks, -, -, h, -⟩ | ⟨h', -, h⟩
    · rw [← hw.devCfgPtr_copied]
      exact getLE_congr fun i hi => hf.config _ (.inr (by unfold notifyData devCfgOffset; omega))
    · rw [h]; rfl
    · rw [h]; rfl
  · intro p hp
    rcases k.step_fixed dev ev with
      hf | ⟨a, fuel, req, devCfg, peeks, rfl, hge, h, hsame⟩ | ⟨h', -, h⟩
    · rw [hf.devCfg]
      cases ev with
      | access a fuel req => rw [Event.copied, copied_devCfg]
      | handle q fuel req => rfl
      | getAvail q => rfl
      | memory m => rfl
      | header h => rfl
    · rw [h]
      refine hsame p ?_
      rintro ⟨hin, hlt⟩
      have hend : a.offset - devCfgOffset + a.size ≤ dev.devCfgLength := (hw.devCfg hge).1
      simp only [Span.Has] at hin
      omega
    · rw [h]

theorem initPci_devCfgPtr (host : Host k.Backend) :
    (k.initPci host).devCfgPtr = (k.initPci host).devCfgAddr := by
  have hput : ∀ n, getLE (putLE (putLE (fun _ => 0) devCfgOffset 8 host.devCfgAddr) 18 2 n)
      devCfgOffset 8 =
      host.devCfgAddr := by
    intro n
    rw [getLE_putLE_apart (by simp [Span.Apart, devCfgOffset]), getLE_putLE_same]
    exact Nat.mod_eq_of_lt host.devCfgAddr_lt
  cases k with
  | blk => exact hput _
  | net => exact hput _

end VirtioKind

/-- **Confinement of BAR accesses.** Over any run of a device from its creation, every byte that an
access copies lies in a region of the guest exactly as long as every access ends in the region it
starts in; and then no turn that the run goes on from changes `dev_cfg`, a queue's `dev`, or what
follows the device configuration. A run ends where a turn leaves the model (`PciStop`). -/
theorem bar_access_confined (k : VirtioKind) (host : Host k.Backend) (evs : List Event) :
    ((∀ t ∈ k.run host evs, k.Confined t) ↔ ∀ t ∈ k.run host evs, k.Within t) ∧
      ((∀ t ∈ k.run host evs, k.Within t) →
        ∀ t ∈ k.run host evs, ∀ dev', k.next t.1 t.2 = some dev' → Guarded t.1 dev') := by
  refine ⟨?_, fun hw t ht dev' hnext =>
    VirtioKind.next_eq hnext ▸ VirtioKind.step_guarded (hw t ht)⟩
  -- while the accesses are within their regions, `dev_cfg` still points to the device configuration
  refine turns_iff (I := fun dev => dev.devCfgPtr = dev.devCfgAddr) ?_ ?_ (k.initPci_devCfgPtr host)
  · intro dev ev hptr
    cases ev with
    | access a fuel req => exact access_confined_iff hptr
    | handle q fuel req => exact Iff.rfl
    | getAvail q => exact Iff.rfl
    | memory m => exact Iff.rfl
    | header h => exact Iff.rfl
  · intro dev ev dev' hptr hw hnext
    rw [← VirtioKind.next_eq hnext, (VirtioKind.step_guarded hw).devCfgPtr, VirtioKind.step_host.2]
    exact hptr

/-! ## Indices -/

namespace VirtioKind

variable {k : VirtioKind} {dev : VirtioPciDev k.Backend} {ev : Event} {fuel : Nat} {req : Store}

theorem handleAvail_pastEnd (dev : VirtioPciDev k.Backend) (q : Nat) :
    (handleAvail (k.ops fuel req) dev q).PastEnd ↔ dev.numVq ≤ q := by
  rcases handleAvail_cases fuel req dev q with ⟨-, h⟩ | ⟨d, hq, -, h⟩
  · exact h
  · rw [h]
    simp [Nat.not_le_of_lt hq]

theorem writeEnable_pastEnd (dev : VirtioPciDev k.Backend) (data : List UInt8) :
    (writeRegister (k.ops fuel req) dev qEnable data).PastEnd ↔ dev.numVq ≤ dev.queueSelect := by
  simp only [writeRegister, qEnable]
  split
  · rcases virtioPciEnableVirtq_cases fuel req dev with ⟨-, h⟩ | ⟨addr, len, hq, -, h⟩
    · exact h
    · rw [h]
      simp [Nat.not_le_of_lt hq]
  · unfold virtioPciDisableVirtq
    dsimp only
    split
    · rename_i hq
      simp [Nat.not_le_of_lt hq]
    · rename_i hq
      simp [Nat.le_of_not_lt hq]

/-- The two paths that compare `queue_select` with `num_queues` are safe while that register is
right. -/
theorem writeSelected_pastEnd {offset : Nat} (hn : dev.numQueues ≤ dev.numVq)
    (h : offset = qSelect ∨ QueueReg offset) (data : List UInt8) :
    ¬ (writeRegister (k.ops fuel req) dev offset data).PastEnd := by
  rcases h with rfl | hqr
  · simp only [writeRegister, qSelect, virtioPciSelectVirtq]
    split
    · rw [if_pos (by omega)]; simp
    · simp
  · have hoth : offset ≠ 0 ∧ offset ≠ 8 ∧ offset ≠ 20 ∧ offset ≠ qSelect ∧ offset ≠ qEnable := by
      have hlo := hqr.1
      have hne := hqr.2.2
      unfold qSize at hlo
      unfold qSelect
      omega
    rw [writeRegister_other hoth, writeOther_queueReg hqr]
    split
    · rw [if_pos (by omega)]; simp
    · simp

theorem writeRegister_pastEnd (hn : dev.numQueues ≤ dev.numVq) (offset : Nat) (data : List UInt8) :
    (writeRegister (k.ops fuel req) dev offset data).PastEnd ↔
      ¬ ((offset = qEnable → dev.queueSelect < dev.numVq) ∧
        (offset = notifyData → dev.vqn < dev.numVq)) := by
  -- off the two registers neither side holds
  have hsafe : offset ≠ qEnable → offset ≠ notifyData →
      ¬ (writeRegister (k.ops fuel req) dev offset data).PastEnd →
      ((writeRegister (k.ops fuel req) dev offset data).PastEnd ↔
        ¬ ((offset = qEnable → dev.queueSelect < dev.numVq) ∧
          (offset = notifyData → dev.vqn < dev.numVq))) := fun he hnd hno => by
    simp [he, hnd, hno]
  rcases offset_cases offset with hp | rfl | rfl | ⟨hoth, hqr | rfl | hplain⟩
  · obtain ⟨dev', h, -⟩ := writeRegister_plain (k.ops fuel req) dev data hp
    refine hsafe (by unfold qEnable; omega) (by unfold notifyData; omega) ?_
    rw [h]
    simp
  · exact hsafe (by decide) (by decide) (writeSelected_pastEnd hn (.inl rfl) data)
  · rw [writeEnable_pastEnd]
    simp [show ¬ qEnable = notifyData by decide]
  · refine hsafe hoth.2.2.2.2 ?_ (writeSelected_pastEnd hn (.inr hqr) data)
    have := hqr.2.1
    unfold qUsedhi at this; unfold notifyData; omega
  · rw [writeRegister_other hoth, writeOther_notify, handleAvail_pastEnd]
    simp [show ¬ notifyData = qEnable by decide]
  · refine hsafe hoth.2.2.2.2 hplain.2 ?_
    rw [writeRegister_other hoth, writeOther_plain hplain]
    simp

/-- While `num_queues` is right, a turn goes past the end of the array exactly when it names no
queue. -/
theorem outOfRange_iff (hn : (ev.copied dev).numQueues ≤ dev.numVq) :
    k.OutOfRange (dev, ev) ↔ ¬ k.NamesQueue (dev, ev) := by
  cases ev with
  | access a fuel req =>
    simp only [OutOfRange, NamesQueue, step]
    rcases access_cases a with ⟨hw, hlt⟩ | ⟨hr, hlt⟩ | hge
    · rw [spaceIo_register _ _ hw hlt, pastEnd_after,
        writeRegister_pastEnd (by rw [copied_numVq]; exact hn), copied_numVq]
      simp only [hw, true_implies]
    · rw [spaceIo_read _ _ hr hlt]
      simp [hr]
    · have hne : a.offset ≠ qEnable ∧ a.offset ≠ notifyData := by
        unfold devCfgOffset at hge; unfold qEnable notifyData; omega
      have hno : ¬ (virtioPciSpaceIo (k.ops fuel req) dev a).PastEnd := by
        rintro ⟨i, h⟩
        rcases spaceIo_devCfg_stop (k.ops fuel req) dev hge with hs | hs | hs
        all_goals
          rw [hs] at h
          cases h
      simp [hne, hno]
  | handle q fuel req =>
    simp only [OutOfRange, NamesQueue, step, not_true_eq_false, iff_false]
    split
    · rename_i hq
      rw [handleAvail_pastEnd]
      exact Nat.not_le_of_lt hq
    · simp
  | getAvail q =>
    simp only [OutOfRange, NamesQueue, step, not_true_eq_false, iff_false]
    split
    · split <;> simp
    · simp
  | memory m => simp [OutOfRange, NamesQueue, step]
  | header h => simp [OutOfRange, NamesQueue, step]

theorem KeepsCount.copied (hn : dev.numQueues ≤ dev.numVq) (hc : k.KeepsCount (dev, ev)) :
    (ev.copied dev).numQueues ≤ dev.numVq := by
  cases ev with
  | access a fuel req =>
    by_cases hap : Span.Apart ⟨18, 2⟩ ⟨a.offset, a.size⟩
    · have hsame : (a.copied dev).numQueues = dev.numQueues := by
        unfold Access.copied
        split
        · exact getLE_patch_apart hap
        · rfl
      rw [Event.copied, hsame]
      exact hn
    · exact hc hap
  | handle q fuel req => exact hn
  | getAvail q => exact hn
  | memory m => exact hn
  | header h => exact hn

theorem step_numQueues : (k.step dev ev).dev.numQueues = (ev.copied dev).numQueues := by
  rcases k.step_fixed dev ev with
    hf | ⟨a, fuel, req, devCfg, peeks, rfl, hge, h, -⟩ | ⟨h', rfl, h⟩
  · exact hf.numQueues
  · have hcopied : a.copied dev = dev := if_neg fun hc => Nat.not_lt_of_le hge hc.2
    rw [h, Event.copied, hcopied]
    rfl
  · rw [h]; rfl

theorem initPci_numQueues (host : Host k.Backend) :
    (k.initPci host).numQueues = (k.initPci host).numVq := by
  cases k with
  | blk => exact getLE_putLE_same _ 18 2 virtioBlkVirtqNum
  | net => exact getLE_putLE_same _ 18 2 virtioNetVirtqNum

end VirtioKind

/-- **Queue indices.** Over any run of a device from its creation in which the guest never raises
`num_queues` above the number of queues, no element past the end of `dev->vq` is touched exactly
when every write of `queue_enable` and of the notify register names a queue of the device. A run
ends where a turn leaves the model: past the end of the array or of the device configuration, at a
`dev_cfg` or `vq.dev` pointer that has been overwritten, or outside guest memory. -/
theorem queue_indices_run (k : VirtioKind) (host : Host k.Backend) (evs : List Event)
    (hcount : ∀ t ∈ k.run host evs, k.KeepsCount t) :
    (∀ t ∈ k.run host evs, ¬ k.OutOfRange t) ↔ ∀ t ∈ k.run host evs, k.NamesQueue t := by
  have hreg : ∀ t ∈ k.run host evs, t.1.numQueues ≤ t.1.numVq := by
    refine turns_invariant (I := fun dev => dev.numQueues ≤ dev.numVq) ?_
      (Nat.le_of_eq (k.initPci_numQueues host)) hcount
    intro dev ev dev' hn hc hnext
    rw [← VirtioKind.next_eq hnext, VirtioKind.step_numQueues, VirtioKind.step_host.1]
    exact hc.copied hn
  have hiff : ∀ t ∈ k.run host evs, (¬ k.OutOfRange t ↔ k.NamesQueue t) := fun t ht => by
    rw [VirtioKind.outOfRange_iff ((hcount t ht).copied (hreg t ht)), Classical.not_not]
  exact ⟨fun h t ht => (hiff t ht).mp (h t ht), fun h t ht => (hiff t ht).mpr (h t ht)⟩

/-! ## Accesses to the network device -/

/-- A write of eight bytes at the notify register reaches the pointer behind it. -/
theorem wide_notify_overwrites_devCfg :
    ∃ t ∈ VirtioKind.net.run netHost
      [barWrite notifyData [0, 0, 0, 0, 0x41, 0x41, 0x41, 0x41] (by decide)],
      ¬ VirtioKind.net.Confined t ∧
        (VirtioKind.net.step t.1 t.2).dev.devCfgPtr = 0x7f0041414141 := by
  refine ⟨_, List.mem_cons_self, fun h => ?_, by decide +kernel⟩
  have hin := h ⟨.config, notifyData, 8⟩ (by decide +kernel)
  exact absurd (show notifyData + 8 ≤ devCfgOffset from hin) (by decide)

/-- A write of `queue_select` copies 34 bytes, all of them registers or `virtq_info` of queue 1. -/
theorem bar_access_confined_select :
    ∀ t ∈ VirtioKind.net.run netHost [selectQueue1],
      VirtioKind.net.Confined t ∧
        ∃ dev', VirtioKind.net.next t.1 t.2 = some dev' ∧ Guarded t.1 dev' := by
  have hw : ∀ t ∈ VirtioKind.net.run netHost [selectQueue1],
      VirtioKind.net.Within t := by
    intro t ht
    rcases List.mem_cons.mp ht with rfl | ht
    · exact ⟨fun _ => by decide, fun _ _ _ => by decide +kernel,
        fun _ hc => absurd hc.1 (by decide), fun hc => absurd hc (by decide)⟩
    · split at ht <;> cases ht
  obtain ⟨hiff, hguard⟩ :=
    bar_access_confined .net netHost [selectQueue1]
  have hsome : ∀ t ∈ VirtioKind.net.run netHost [selectQueue1],
      (VirtioKind.net.next t.1 t.2).isSome = true := by
    decide +kernel
  intro t ht
  obtain ⟨dev', hnext⟩ := Option.isSome_iff_exists.mp (hsome t ht)
  exact ⟨hiff.mpr hw t ht, dev', hnext, hguard hw t ht dev' hnext⟩

/-- A notification for queue 5 of a device that has two. -/
theorem notify_past_queues :
    ∃ t ∈ VirtioKind.net.run netHost [barWrite notifyData [5, 0] (by decide)],
      VirtioKind.net.OutOfRange t :=
  ⟨_, List.mem_cons_self, 5, by decide +kernel⟩

/-- Queue 1 is selected, enabled and notified. -/
def useQueue1 : List Event :=
  [selectQueue1, setQueueEnable, barWrite notifyData [1, 0] (by decide)]

theorem queue_indices_queue1 :
    (VirtioKind.net.run netHost useQueue1).length = 3 ∧
      ∀ t ∈ VirtioKind.net.run netHost useQueue1, ¬ VirtioKind.net.OutOfRange t :=
  ⟨by decide +kernel,
    (queue_indices_run .net netHost useQueue1 (by decide +kernel)).mpr (by decide +kernel)⟩

end KvmHost
