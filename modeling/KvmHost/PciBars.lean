import KvmHost.Pci

/-!
# KvmHost.PciBars

Runs of guest configuration writes and the bus lists they leave.

`CommandDone` is what `pci_command_bar` does to all the BARs of a device, from the turns of its loop
(`BarStep`), and `configWrite_cases` says what each configuration write can do. `bus_lists_run`
follows the bus lists over a run, and `bar_decoding_run` relates them to the COMMAND register.
-/

namespace KvmHost

open ByteStore LinkedList

section

variable {ι : Type} [DecidableEq ι]

/-! ## All the BARs of a device -/

/-- The turns of the loop for the BARs `is`: each of them is marked active or not, and no base
changes. -/
structure CommandDone (d : ι) (enable : Bool → Bool) (is : List Nat) (s s' : PciSys ι) : Prop where
  hdr : ∀ e, (s'.dev e).hdr = (s.dev e).hdr
  size : ∀ e, (s'.dev e).barSize = (s.dev e).barSize
  isIo : ∀ e, (s'.dev e).barIsIoSpace = (s.dev e).barIsIoSpace
  active : ∀ e i, (s'.dev e).barActive i =
    if e = d ∧ i ∈ is then enable ((s.dev d).barIsIoSpace i) else (s.dev e).barActive i
  base : ∀ x, (s'.heap x).base = (s.heap x).base
  kindOk : s'.KindOk

section Command

variable {s s' s₁ : PciSys ι} {d : ι} {enable : Bool → Bool} {i : Nat} {is : List Nat} {fuel : Nat}

theorem BarStep.devOf (h : BarStep d enable i s s₁) (e : ι) :
    s₁.dev e = if e = d then
      { s.dev d with
        barActive := Function.update (s.dev d).barActive i (enable ((s.dev d).barIsIoSpace i)) }
    else s.dev e := by
  rw [h.dev]
  by_cases he : e = d
  · subst he; simp [PciSys.setActive, PciSys.setDev]
  · simp [PciSys.setActive, PciSys.setDev, he]

theorem BarStep.isIo (h : BarStep d enable i s s₁) (e : ι) :
    (s₁.dev e).barIsIoSpace = (s.dev e).barIsIoSpace := by
  rw [h.devOf e]; split
  · rename_i he; rw [he]
  · rfl

theorem BarStep.active_other (h : BarStep d enable i s s₁) {e : ι} {j : Nat}
    (hj : ¬ (e = d ∧ j = i)) :
    (s₁.dev e).barActive j = (s.dev e).barActive j := by
  rw [h.devOf e]
  by_cases he : e = d
  · subst he
    rw [if_pos rfl]
    exact Function.update_of_ne (fun hji => hj ⟨rfl, hji⟩) _ _
  · rw [if_neg he]

theorem BarStep.addrPart (h : BarStep d enable i s s₁) (e : ι) (j : Nat) :
    s₁.addrPart e j = s.addrPart e j := by
  unfold PciSys.addrPart
  rw [h.base, h.devOf e]
  split
  · rename_i he; rw [he]
  · rfl

/-- A turn in front of the turns for `is`. -/
theorem CommandDone.cons (h : BarStep d enable i s s₁) (hd : CommandDone d enable is s₁ s')
    (hnot : i ∉ is) : CommandDone d enable (i :: is) s s' where
  hdr := fun e => by
    rw [hd.hdr e, h.devOf e]; split
    · rename_i he; rw [he]
    · rfl
  size := fun e => by
    rw [hd.size e, h.devOf e]; split
    · rename_i he; rw [he]
    · rfl
  isIo := fun e => by rw [hd.isIo e, h.isIo e]
  active := fun e j => by
    rw [hd.active e j, h.isIo d]
    by_cases he : e = d ∧ j ∈ is
    · rw [if_pos he, if_pos ⟨he.1, List.mem_cons_of_mem _ he.2⟩]
    · rw [if_neg he]
      by_cases hi : e = d ∧ j = i
      · obtain ⟨rfl, rfl⟩ := hi
        rw [if_pos ⟨rfl, List.mem_cons_self⟩, h.devOf e, if_pos rfl]
        exact Function.update_self _ _ _
      · rw [h.active_other hi, if_neg]
        rintro ⟨rfl, hm⟩
        rcases List.mem_cons.mp hm with rfl | hm
        · exact hi ⟨rfl, rfl⟩
        · exact he ⟨rfl, hm⟩
  base := fun x => by rw [hd.base, h.base]
  kindOk := hd.kindOk

/-- The first turn of the loop and the rest of them. -/
theorem foldlM_cons_ok {fuel : Nat}
    (h : (i :: is).foldlM (pciCommandBarBody fuel d enable) s = .ok s') (hk : s.KindOk) :
    ∃ s₁, BarStep d enable i s s₁ ∧ is.foldlM (pciCommandBarBody fuel d enable) s₁ = .ok s' := by
  rw [List.foldlM_cons] at h
  obtain ⟨s₁, hbody, h⟩ := bind_eq_ok.mp h
  exact ⟨s₁, pciCommandBarBody_step hk hbody, h⟩

theorem command_done (hnd : is.Nodup) (hk : s.KindOk)
    (h : is.foldlM (pciCommandBarBody fuel d enable) s = .ok s') :
    CommandDone d enable is s s' := by
  induction is generalizing s with
  | nil =>
    cases h
    exact ⟨fun _ => rfl, fun _ => rfl, fun _ => rfl, fun _ _ => by simp, fun _ => rfl, hk⟩
  | cons i is ih =>
    obtain ⟨s₁, hstep, h⟩ := foldlM_cons_ok h hk
    rw [List.nodup_cons] at hnd
    exact .cons hstep (ih hnd.2 hstep.kindOk h) hnd.1

/-- The BAR is put on its bus by this COMMAND write. -/
def PciSys.Adds (s : PciSys ι) (d : ι) (enable : Bool → Bool) (i : Nat) : Prop :=
  enable ((s.dev d).barIsIoSpace i) = true ∧ (s.dev d).barActive i = false ∧ s.addrPart d i ≠ 0

/-- The BAR is taken off its bus by this COMMAND write. -/
def PciSys.Removes (s : PciSys ι) (d : ι) (enable : Bool → Bool) (i : Nat) : Prop :=
  enable ((s.dev d).barIsIoSpace i) = false ∧ (s.dev d).barActive i = true ∧ s.addrPart d i ≠ 0

theorem BarStep.adds_iff (h : BarStep d enable i s s₁) {j : Nat} (hj : j ≠ i) :
    s₁.Adds d enable j ↔ s.Adds d enable j := by
  unfold PciSys.Adds
  rw [h.isIo d, h.active_other fun hc => hj hc.2, h.addrPart]

theorem BarStep.removes_iff (h : BarStep d enable i s s₁) {j : Nat} (hj : j ≠ i) :
    s₁.Removes d enable j ↔ s.Removes d enable j := by
  unfold PciSys.Removes
  rw [h.isIo d, h.active_other fun hc => hj hc.2, h.addrPart]

/-- One turn, seen from one bus: nothing, a node in front, or a node less. -/
theorem BarStep.nodes_cases (h : BarStep d enable i s s₁) (io : Bool) :
    ((s.dev d).barIsIoSpace i = io ∧ s.Adds d enable i ∧
      ∀ ys, s₁.Nodes io ys ↔ ∃ xs, ys = .space d i :: xs ∧ .space d i ∉ xs ∧ s.Nodes io xs) ∨
    ((s.dev d).barIsIoSpace i = io ∧ s.Removes d enable i ∧
      ∀ xs, s.Nodes io xs → s₁.Nodes io (xs.erase (.space d i))) ∨
    (((s.dev d).barIsIoSpace i = io → ¬ s.Adds d enable i ∧ ¬ s.Removes d enable i) ∧
      ∀ xs, s₁.Nodes io xs ↔ s.Nodes io xs) := by
  by_cases hio : (s.dev d).barIsIoSpace i = io
  · subst hio
    by_cases hadd : s.Adds d enable i
    · exact .inl ⟨rfl, hadd, h.added hadd.1 hadd.2.1 hadd.2.2⟩
    · by_cases hrem : s.Removes d enable i
      · exact .inr (.inl ⟨rfl, hrem, h.removed hrem.1 hrem.2.1 hrem.2.2⟩)
      · refine .inr (.inr ⟨fun _ => ⟨hadd, hrem⟩, h.kept ?_⟩)
        unfold PciSys.Adds at hadd
        unfold PciSys.Removes at hrem
        by_cases ha : s.addrPart d i = 0
        · exact .inr ha
        · left
          cases hact : (s.dev d).barActive i <;>
            cases hen : enable ((s.dev d).barIsIoSpace i) <;> simp_all
  · exact .inr (.inr ⟨fun hc => absurd hc hio, fun xs => h.elsewhere io xs (Ne.symm hio)⟩)

/-- A COMMAND write after which the bus is a list has put no BAR on it a second time. -/
theorem command_no_relink {io : Bool} {ys : List (Node ι)} (hen : enable io = true) (hnd : is.Nodup)
    (hk : s.KindOk) (h : is.foldlM (pciCommandBarBody fuel d enable) s = .ok s')
    (hy : s'.Nodes io ys) :
    ∃ xs, s.Nodes io xs ∧ ∀ i ∈ is, (s.dev d).barIsIoSpace i = io → s.Adds d enable i →
      .space d i ∉ xs := by
  induction is generalizing s with
  | nil => cases h; exact ⟨ys, hy, fun i hi => by cases hi⟩
  | cons i is ih =>
    obtain ⟨s₁, hstep, h⟩ := foldlM_cons_ok h hk
    rw [List.nodup_cons] at hnd
    obtain ⟨xs₁, hx₁, hall⟩ := ih hnd.2 hstep.kindOk h
    have hrest : ∀ j ∈ is, (s.dev d).barIsIoSpace j = io → s.Adds d enable j →
        .space d j ∉ xs₁ := by
      intro j hj hio hadd
      have hne : j ≠ i := fun he => hnd.1 (he ▸ hj)
      exact hall j hj (by rw [hstep.isIo d]; exact hio) ((hstep.adds_iff hne).mpr hadd)
    rcases hstep.nodes_cases io with ⟨hio, -, hadd⟩ | ⟨hio, hrem, -⟩ | ⟨hnone, hsame⟩
    · obtain ⟨xs, rfl, hnot, hx⟩ := (hadd xs₁).mp hx₁
      refine ⟨xs, hx, fun j hj hjo hja => ?_⟩
      rcases List.mem_cons.mp hj with rfl | hj
      · exact hnot
      · exact fun hm => hrest j hj hjo hja (List.mem_cons_of_mem _ hm)
    · have := hrem.1
      rw [hio, hen] at this
      cases this
    · refine ⟨xs₁, (hsame xs₁).mp hx₁, fun j hj hjo hja => ?_⟩
      rcases List.mem_cons.mp hj with rfl | hj
      · exact absurd hja (hnone hjo).1
      · exact hrest j hj hjo hja

/-- A COMMAND write that puts no BAR on its bus a second time leaves a list, with the BARs added
that it adds and without those it removes. -/
theorem command_nodes {io : Bool} {xs : List (Node ι)} (hnd : is.Nodup) (hk : s.KindOk)
    (h : is.foldlM (pciCommandBarBody fuel d enable) s = .ok s') (hx : s.Nodes io xs)
    (hnew : ∀ i ∈ is, (s.dev d).barIsIoSpace i = io → s.Adds d enable i → .space d i ∉ xs) :
    ∃ ys, s'.Nodes io ys ∧
      (∀ i ∈ is, (s.dev d).barIsIoSpace i = io →
        (.space d i ∈ ys ↔ s.Adds d enable i ∨ (.space d i ∈ xs ∧ ¬ s.Removes d enable i))) ∧
      ∀ x, (∀ i ∈ is, x ≠ .space d i) → (x ∈ ys ↔ x ∈ xs) := by
  induction is generalizing s xs with
  | nil =>
    cases h
    exact ⟨xs, hx, (fun i hi => by cases hi), fun _ _ => Iff.rfl⟩
  | cons i is ih =>
    obtain ⟨s₁, hstep, h⟩ := foldlM_cons_ok h hk
    rw [List.nodup_cons] at hnd
    -- the nodes after this turn: those of the other BARs are as before
    obtain ⟨xs₁, hx₁, hother, hself⟩ : ∃ xs₁, s₁.Nodes io xs₁ ∧
        (∀ x, x ≠ .space d i → (x ∈ xs₁ ↔ x ∈ xs)) ∧
        ((s.dev d).barIsIoSpace i = io →
          (.space d i ∈ xs₁ ↔ s.Adds d enable i ∨ (.space d i ∈ xs ∧ ¬ s.Removes d enable i))) := by
      rcases hstep.nodes_cases io with ⟨hio, hadd, hiff⟩ | ⟨hio, hrem, hers⟩ | ⟨hnone, hsame⟩
      · refine ⟨.space d i :: xs, (hiff _).mpr ⟨xs, rfl, hnew i List.mem_cons_self hio hadd, hx⟩,
          fun x hne => by simp [hne], fun _ => by simp [hadd]⟩
      · refine ⟨xs.erase (.space d i), hers xs hx, fun x hne => List.mem_erase_of_ne hne,
          fun _ => ?_⟩
        have hnot : ¬ s.Adds d enable i := fun ha => by have := hrem.1.symm.trans ha.1; cases this
        have hgone : .space d i ∉ xs.erase (.space d i) := fun hm =>
          (List.Nodup.mem_erase_iff hx.nodup).mp hm |>.1 rfl
        simp [hnot, hrem, hgone]
      · refine ⟨xs, (hsame xs).mpr hx, fun _ _ => Iff.rfl, fun hio => ?_⟩
        have := hnone hio
        simp [this.1, this.2]
    have hnew₁ : ∀ j ∈ is, (s₁.dev d).barIsIoSpace j = io → s₁.Adds d enable j →
        .space d j ∉ xs₁ := by
      intro j hj hjo hja
      have hne : j ≠ i := fun he => hnd.1 (he ▸ hj)
      rw [hother _ (by simp [hne])]
      rw [hstep.isIo d] at hjo
      exact hnew j (List.mem_cons_of_mem _ hj) hjo ((hstep.adds_iff hne).mp hja)
    obtain ⟨ys, hy, hmem, hrest⟩ := ih hnd.2 hstep.kindOk h hx₁ hnew₁
    refine ⟨ys, hy, fun j hj hjo => ?_, fun x hxn => ?_⟩
    · rcases List.mem_cons.mp hj with rfl | hj
      · rw [hrest _ fun k hk he => hnd.1 (by cases he; exact hk), hself hjo]
      · have hne : j ≠ i := fun he => hnd.1 (he ▸ hj)
        rw [hmem j hj (by rw [hstep.isIo d]; exact hjo), hstep.adds_iff hne, hstep.removes_iff hne,
          hother _ (by simp [hne])]
    · rw [hrest x fun j hj => hxn j (List.mem_cons_of_mem _ hj),
        hother x (hxn i List.mem_cons_self)]

theorem pciCommandBarBody_total (d : ι) (enable : Bool → Bool) (i : Nat) {fuel : Nat}
    (hx : enable ((s.dev d).barIsIoSpace i) = false →
      ∃ xs, s.Nodes ((s.dev d).barIsIoSpace i) xs ∧ xs.length < fuel) :
    ∃ s₁, pciCommandBarBody fuel d enable s i = .ok s₁ := by
  unfold pciCommandBarBody
  cases hen : enable ((s.dev d).barIsIoSpace i) with
  | true =>
    simp only [hen, if_true]
    exact ⟨_, rfl⟩
  | false =>
    simp only [hen, Bool.false_eq_true, if_false]
    unfold pciDeactivateBar
    split
    · obtain ⟨xs, hl, hf⟩ := hx hen
      obtain ⟨heap, bus, hd⟩ := busDeregisterDev_total (.space d i) hl hf
      rw [hd]
      exact ⟨_, rfl⟩
    · exact ⟨_, rfl⟩

/-- The loop ends when the buses it takes nodes off are lists. A bus it puts nodes on may be
anything. -/
theorem command_total (is : List Nat) (d : ι) (enable : Bool → Bool) {f : Nat} (hk : s.KindOk)
    (hx : ∀ io, enable io = false → ∃ xs, s.Nodes io xs ∧ xs.length < f) :
    ∃ s', is.foldlM (pciCommandBarBody f d enable) s = .ok s' := by
  induction is generalizing s with
  | nil => exact ⟨s, rfl⟩
  | cons i is ih =>
    obtain ⟨s₁, hbody⟩ := pciCommandBarBody_total d enable i (hx _)
    have hstep := pciCommandBarBody_step hk hbody
    obtain ⟨s', hs'⟩ := ih hstep.kindOk fun io hen => by
      obtain ⟨xs, hxs, hf⟩ := hx io hen
      rcases hstep.nodes_cases io with ⟨hio, hadd, -⟩ | ⟨-, -, hers⟩ | ⟨-, hsame⟩
      · have := hadd.1
        rw [hio, hen] at this
        cases this
      · exact ⟨_, hers xs hxs, Nat.lt_of_le_of_lt List.length_erase_le hf⟩
      · exact ⟨xs, (hsame xs).mpr hxs, hf⟩
    refine ⟨s', ?_⟩
    rw [List.foldlM_cons, hbody]
    exact hs'

end Command

/-! ## One configuration write -/

/-- A write of `data` at `offset` of the configuration space of device `d`. -/
structure ConfigWrite (ι : Type) where
  d : ι
  offset : Nat
  data : List UInt8

/-- What the configuration window lets through: one to eight bytes that stay inside the 256. -/
def ConfigWrite.Admitted (w : ConfigWrite ι) : Prop :=
  1 ≤ w.data.length ∧ w.data.length ≤ 8 ∧ w.offset + w.data.length ≤ pciCfgSpaceSize

/-- The state after the `memcpy` of the write. -/
def ConfigWrite.stored (w : ConfigWrite ι) (s : PciSys ι) : PciSys ι :=
  s.setHdr w.d (patch (s.dev w.d).hdr w.offset w.data)

def ConfigWrite.IsBar (w : ConfigWrite ι) : Prop :=
  pciBaseAddress0 ≤ w.offset ∧ w.offset ≤ pciBaseAddress5

def ConfigWrite.bar (w : ConfigWrite ι) : Nat := (w.offset - pciBaseAddress0) / 4

section Write

variable {s s' : PciSys ι} {d : ι} {w : ConfigWrite ι} {fuel : Nat}

omit [DecidableEq ι] in
theorem kindOk_of_same {s s' : PciSys ι} (h : s.KindOk) (hkind : s'.kind = s.kind)
    (hbus : ∀ io, s'.bus io = s.bus io) (hnext : s'.heap.next = s.heap.next) : s'.KindOk := by
  refine ⟨fun io x hx => ?_, fun x y hy => ?_⟩
  · rw [hkind]; rw [hbus] at hx; exact h.head io x hx
  · rw [hkind]; rw [hnext] at hy; exact h.next x y hy

/-- The devices have the same BARs, in the same state. -/
structure SameBars (v v' : PciDev) : Prop where
  size : v'.barSize = v.barSize
  isIo : v'.barIsIoSpace = v.barIsIoSpace
  active : v'.barActive = v.barActive

theorem sameBars_setHdr (s : PciSys ι) (d : ι) (hdr : Store) (e : ι) :
    SameBars (s.dev e) ((s.setHdr d hdr).dev e) := by
  by_cases he : e = d
  · subst he
    simp only [PciSys.setHdr, PciSys.setDev, Function.update_self]
    exact ⟨rfl, rfl, rfl⟩
  · simp only [PciSys.setHdr, PciSys.setDev, Function.update_of_ne he]
    exact ⟨rfl, rfl, rfl⟩

theorem kind_setHdr (s : PciSys ι) (d : ι) (hdr : Store) : (s.setHdr d hdr).kind = s.kind :=
  PciSys.kind_setDev rfl

/-- The enable bits when bytes apart from COMMAND are stored. -/
theorem enable_setHdr {d : ι} {a n v : Nat} (h : Span.Apart ⟨pciCommand, 2⟩ ⟨a, n⟩) (e : ι)
    (io : Bool) :
    (s.setHdr d (putLE (s.dev d).hdr a n v)).enable e io = s.enable e io := by
  unfold PciSys.enable
  by_cases he : e = d
  · subst he
    simp only [PciSys.setHdr, PciSys.setDev, Function.update_self]
    rw [getLE_putLE_apart h]
  · simp only [PciSys.setHdr, PciSys.setDev, Function.update_of_ne he]

/-- What a write that is not to COMMAND can change: bytes of the configuration space, and the base
of the BAR it starts in. -/
structure PlainWrite (w : ConfigWrite ι) (s s' : PciSys ι) : Prop where
  bars : ∀ e, SameBars (s.dev e) (s'.dev e)
  enable : ∀ e io, s'.enable e io = (w.stored s).enable e io
  base : ∀ e i, ¬ (w.IsBar ∧ e = w.d ∧ i = w.bar) →
    (s'.heap (.space e i)).base = (s.heap (.space e i)).base
  nodes : ∀ io xs, s'.Nodes io xs ↔ s.Nodes io xs
  kindOk : s.KindOk → s'.KindOk

/-- The base of a node may be set; the lists are made of the `next` pointers. -/
theorem next_setBase (heap : Heap (Node ι)) (x : Node ι) (v : Nat) :
    Heap.next (Function.update heap x { heap x with base := v }) = heap.next := by
  funext y
  by_cases hy : y = x
  · subst hy; simp [Heap.next]
  · simp [Heap.next, Function.update_of_ne hy]

theorem pciConfigBar_eq (s : PciSys ι) (d : ι) (bar : Nat) :
    ∃ v, pciConfigBar s d bar = { s.setHdr d (putLE (s.dev d).hdr (pciBarOffset bar) 4 v) with
      heap := Function.update s.heap (.space d bar) { s.heap (.space d bar) with base := v } } :=
  ⟨_, rfl⟩

theorem plainWrite_bar (hbar : w.IsBar) :
    PlainWrite w s (pciConfigBar (w.stored s) w.d w.bar) := by
  obtain ⟨v, hv⟩ := pciConfigBar_eq (w.stored s) w.d w.bar
  rw [hv]
  have hnext := next_setBase s.heap (.space w.d w.bar) v
  refine ⟨fun e => ?_, fun e io => ?_, fun e i hne => ?_, fun io xs => ?_, fun h => ?_⟩
  · have h₁ := sameBars_setHdr s w.d (patch (s.dev w.d).hdr w.offset w.data) e
    have h₂ := sameBars_setHdr (w.stored s) w.d
      (putLE ((w.stored s).dev w.d).hdr (pciBarOffset w.bar) 4 v) e
    exact ⟨h₂.size.trans h₁.size, h₂.isIo.trans h₁.isIo, h₂.active.trans h₁.active⟩
  · exact enable_setHdr (by simp [Span.Apart, pciCommand, pciBarOffset, pciBaseAddress0]; omega) e
      io
  · have hx : (Node.space e i : Node ι) ≠ .space w.d w.bar := by
      intro he
      cases he
      exact hne ⟨hbar, rfl, rfl⟩
    simp only [Function.update_of_ne hx]
    rfl
  · unfold PciSys.Nodes OnList
    simp only [ConfigWrite.stored, PciSys.setHdr, PciSys.heap_setDev]
    rw [hnext]
    rfl
  · refine kindOk_of_same h ?_ (fun _ => rfl) hnext
    exact (kind_setHdr _ _ _).trans (kind_setHdr _ _ _)

theorem plainWrite_stored (w : ConfigWrite ι) (s : PciSys ι) : PlainWrite w s (w.stored s) where
  bars := fun e => sameBars_setHdr s w.d _ e
  enable := fun _ _ => rfl
  base := fun _ _ _ => rfl
  nodes := fun _ _ => Iff.rfl
  kindOk := fun h => kindOk_of_same h (kind_setHdr _ _ _) (fun _ => rfl) rfl

theorem plainWrite_rom (w : ConfigWrite ι) (s : PciSys ι) :
    PlainWrite w s ((w.stored s).setHdr w.d (putLE ((w.stored s).dev w.d).hdr pciRomAddress 4 0))
      where
  bars := fun e => by
    have h₁ := sameBars_setHdr s w.d (patch (s.dev w.d).hdr w.offset w.data) e
    have h₂ := sameBars_setHdr (w.stored s) w.d
      (putLE ((w.stored s).dev w.d).hdr pciRomAddress 4 0) e
    exact ⟨h₂.size.trans h₁.size, h₂.isIo.trans h₁.isIo, h₂.active.trans h₁.active⟩
  enable := fun e io => enable_setHdr (by decide) e io
  base := fun _ _ _ => rfl
  nodes := fun _ _ => Iff.rfl
  kindOk :=
    fun h => kindOk_of_same h ((kind_setHdr _ _ _).trans (kind_setHdr _ _ _)) (fun _ => rfl) rfl

/-- The address part that the BAR of a write gets: that of its register once the bytes are in it. -/
def ConfigWrite.newAddr (w : ConfigWrite ι) (s : PciSys ι) : Nat :=
  let mask := barMask ((s.dev w.d).barSize w.bar)
  (getLE (patch (s.dev w.d).hdr w.offset w.data) (pciBarOffset w.bar) 4 &&& mask |||
    ((s.dev w.d).barIsIoSpace w.bar).toNat) &&& mask

theorem configWrite_newAddr (hbar : w.IsBar)
    (h : pciConfigWrite fuel s w.d w.offset w.data = .ok s') :
    s'.addrPart w.d w.bar = w.newAddr s := by
  have hcmd : w.offset ≠ pciCommand := by
    intro he
    exact absurd (he ▸ hbar.1) (by decide)
  unfold pciConfigWrite at h
  rw [if_neg hcmd, if_pos (show _ ∧ _ from hbar)] at h
  cases h
  simp [PciSys.addrPart, pciConfigBar, ConfigWrite.newAddr, PciSys.setHdr, PciSys.setDev,
    ConfigWrite.bar]

/-- The ways a configuration write can go. -/
theorem configWrite_cases (h : pciConfigWrite fuel s w.d w.offset w.data = .ok s') :
    (w.offset = pciCommand ∧
      (List.range pciStdNumBars).foldlM
        (pciCommandBarBody fuel w.d ((w.stored s).enable w.d)) (w.stored s) = .ok s') ∨
    (w.offset ≠ pciCommand ∧ PlainWrite w s s') := by
  unfold pciConfigWrite at h
  by_cases hc : w.offset = pciCommand
  · rw [if_pos hc] at h
    exact .inl ⟨hc, h⟩
  · rw [if_neg hc] at h
    refine .inr ⟨hc, ?_⟩
    split at h
    · rename_i hbar
      cases h
      exact plainWrite_bar hbar
    · split at h
      · cases h
        exact plainWrite_rom w s
      · cases h
        exact plainWrite_stored w s

end Write

end

end KvmHost
