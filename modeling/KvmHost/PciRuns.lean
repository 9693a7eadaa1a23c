import KvmHost.PciBars

/-!
# KvmHost.PciRuns

The bus lists over runs of guest configuration writes.

`bar_active` says whether a BAR was enabled by the last COMMAND write, not whether its node is on
the bus: a BAR without an address is activated without being registered, and one whose address was
cleared meanwhile is deactivated without being taken off. A node that was left on the bus in this
way is put on it a second time by the next write that enables it, and the list is then circular.
`bus_lists_run` says that the lists stay lists exactly as long as no write does that,
`bar_decoding_run` that under two conditions on the writes the nodes on the buses are those that
COMMAND and the bases ask for.
-/

namespace KvmHost

open ByteStore LinkedList

section

variable {ι : Type} [DecidableEq ι]

/-- Each bus is a list that ends, with every node on it once. -/
def PciSys.WellFormed (s : PciSys ι) : Prop := ∀ io, ∃ xs, s.Nodes io xs ∧ xs.Nodup

def PciSys.OnBus (s : PciSys ι) (x : Node ι) : Prop := ∃ xs, s.Nodes (s.kind x) xs ∧ x ∈ xs

/-- A configuration write that returned, with the states before and after. -/
structure ConfigStep (ι : Type) where
  write : ConfigWrite ι
  fuel : Nat
  pre : PciSys ι
  post : PciSys ι

def ConfigStep.Returns (c : ConfigStep ι) : Prop :=
  pciConfigWrite c.fuel c.pre c.write.d c.write.offset c.write.data = .ok c.post

/-- The write enables a BAR that has an address and is not active, and whose node is on the bus all
the same. -/
def ConfigStep.Relinks (c : ConfigStep ι) : Prop :=
  c.write.offset = pciCommand ∧
    ∃ i < pciStdNumBars, (c.write.stored c.pre).Adds c.write.d
      ((c.write.stored c.pre).enable c.write.d) i ∧
      c.pre.OnBus (.space c.write.d i)

inductive ConfigRun : PciSys ι → List (ConfigStep ι) → PciSys ι → Prop where
  | done {s : PciSys ι} : ConfigRun s [] s
  | step {s s₁ s₂ : PciSys ι} {w : ConfigWrite ι} {fuel : Nat} {cs : List (ConfigStep ι)} :
      w.Admitted → (⟨w, fuel, s, s₁⟩ : ConfigStep ι).Returns → ConfigRun s₁ cs s₂ →
      ConfigRun s (⟨w, fuel, s, s₁⟩ :: cs) s₂

/-! ## The lists -/

section Lists

variable {s s' : PciSys ι} {c : ConfigStep ι} {cs : List (ConfigStep ι)}

omit [DecidableEq ι] in
theorem PciSys.Nodes.wellFormed {s : PciSys ι} (h : ∀ io, ∃ xs, s.Nodes io xs) : s.WellFormed :=
  fun io => by
    obtain ⟨xs, hx⟩ := h io
    exact ⟨xs, hx, hx.nodup⟩

theorem ConfigStep.kindOk (hk : c.pre.KindOk) (hc : c.Returns) : c.post.KindOk := by
  rcases configWrite_cases hc with ⟨-, hfold⟩ | ⟨-, hplain⟩
  · exact (command_done List.nodup_range ((plainWrite_stored c.write c.pre).kindOk hk) hfold).kindOk
  · exact hplain.kindOk hk

/-- A write keeps the lists exactly when it does not put a node on its bus a second time. -/
theorem ConfigStep.wellFormed_iff (hk : c.pre.KindOk) (hw : c.pre.WellFormed) (hc : c.Returns) :
    c.post.WellFormed ↔ ¬ c.Relinks := by
  have hst := plainWrite_stored c.write c.pre
  rcases configWrite_cases hc with ⟨hoff, hfold⟩ | ⟨hoff, hplain⟩
  · constructor
    · rintro hpost ⟨-, i, hi, hadd, xs, hx, hmem⟩
      have hio : c.pre.kind (.space c.write.d i) =
          ((c.write.stored c.pre).dev c.write.d).barIsIoSpace i :=
        congrFun (hst.bars c.write.d).isIo.symm i
      obtain ⟨ys, hy, -⟩ := hpost (c.pre.kind (.space c.write.d i))
      have hen := hadd.1
      rw [← hio] at hen
      obtain ⟨xs', hx', hnot⟩ := command_no_relink hen List.nodup_range (hst.kindOk hk) hfold hy
      rw [(hst.nodes _ _).mp hx' |>.unique hx] at hnot
      exact hnot i (List.mem_range.mpr hi) hio.symm hadd hmem
    · intro hnot
      refine PciSys.Nodes.wellFormed fun io => ?_
      obtain ⟨xs, hx, -⟩ := hw io
      obtain ⟨ys, hy, -⟩ := command_nodes List.nodup_range (hst.kindOk hk) hfold hx
        fun i hi hio hadd hmem => hnot ⟨hoff, i, List.mem_range.mp hi, hadd, xs, by
          have hkind : c.pre.kind (.space c.write.d i) = io :=
            (congrFun (hst.bars c.write.d).isIo.symm i).trans hio
          rw [hkind]
          exact ⟨hx, hmem⟩⟩
      exact ⟨ys, hy⟩
  · refine ⟨fun _ hr => hoff hr.1, fun _ => PciSys.Nodes.wellFormed fun io => ?_⟩
    obtain ⟨xs, hx, -⟩ := hw io
    exact ⟨xs, (hplain.nodes io xs).mpr hx⟩

/-- On well-formed buses every walk ends, and so does every configuration write. -/
structure PciSys.Terminates (s : PciSys ι) : Prop where
  find : ∀ io addr, ∃ fuel r, busFindDev fuel s.heap (s.bus io) addr = .ok r
  deregister : ∀ io x, ∃ fuel hb, busDeregisterDev fuel s.heap (s.bus io) x = .ok hb
  write : ∀ w : ConfigWrite ι, ∃ fuel s', pciConfigWrite fuel s w.d w.offset w.data = .ok s'

theorem PciSys.WellFormed.terminates (hk : s.KindOk) (hw : s.WellFormed) : s.Terminates where
  find := fun io addr => by
    obtain ⟨xs, hx, -⟩ := hw io
    exact ⟨_, busFindDev_total addr hx (Nat.lt_succ_self _)⟩
  deregister := fun io x => by
    obtain ⟨xs, hx, -⟩ := hw io
    obtain ⟨heap, bus, h⟩ := busDeregisterDev_total x hx (Nat.lt_succ_self _)
    exact ⟨_, (heap, bus), h⟩
  write := fun w => by
    obtain ⟨xs, hx, -⟩ := hw true
    obtain ⟨ys, hy, -⟩ := hw false
    have hst := plainWrite_stored w s
    obtain ⟨s', hs'⟩ := command_total (List.range pciStdNumBars) w.d
      ((w.stored s).enable w.d) (f := xs.length + ys.length + 1) (hst.kindOk hk)
      fun io _ => by
        cases io with
        | true => exact ⟨xs, hx, by omega⟩
        | false => exact ⟨ys, hy, by omega⟩
    refine ⟨xs.length + ys.length + 1, ?_⟩
    unfold pciConfigWrite
    by_cases hc : w.offset = pciCommand
    · rw [if_pos hc]; exact ⟨s', hs'⟩
    · rw [if_neg hc]
      split
      · exact ⟨_, rfl⟩
      · split <;> exact ⟨_, rfl⟩

/-- Bus membership by kind is kept by every run, whatever becomes of the lists. -/
theorem ConfigRun.kindOk (hk : s.KindOk) (h : ConfigRun s cs s') :
    ∀ c ∈ cs, c.post.KindOk := by
  induction h with
  | done => intro c hc; cases hc
  | @step s s₁ s₂ w fuel cs _ hret _ ih =>
    have hk₁ := ConfigStep.kindOk (c := ⟨w, fuel, s, s₁⟩) hk hret
    exact List.forall_mem_cons.mpr ⟨hk₁, ih hk₁⟩

/-- **Bus lists.** Over any run of configuration writes, from buses that are lists, they stay lists
exactly as long as no write puts a BAR's node on its bus a second time; and while they are lists,
every walk and every write ends. -/
theorem bus_lists_run (hk : s.KindOk) (hw : s.WellFormed) (h : ConfigRun s cs s') :
    ((∀ c ∈ cs, c.post.WellFormed) ↔ ∀ c ∈ cs, ¬ c.Relinks) ∧
      ∀ c ∈ cs, c.post.WellFormed → c.post.Terminates := by
  refine ⟨?_, fun c hc hwf => hwf.terminates (h.kindOk hk c hc)⟩
  induction h with
  | done => simp
  | @step s s₁ s₂ w fuel cs _ hret _ ih =>
    have hiff := ConfigStep.wellFormed_iff (c := ⟨w, fuel, s, s₁⟩) hk hw hret
    have hk₁ := ConfigStep.kindOk (c := ⟨w, fuel, s, s₁⟩) hk hret
    simp only [List.forall_mem_cons]
    by_cases hwf : s₁.WellFormed
    · rw [← hiff, ih hk₁ hwf]
    · exact ⟨fun hall => absurd hall.1 hwf, fun hall => absurd (hiff.mpr hall.1) hwf⟩

end Lists

/-! ## Decoding -/

/-- The BARs that answer are those that COMMAND enables and that have an address. -/
def PciSys.Decodes (s : PciSys ι) : Prop :=
  ∀ d, ∀ i < pciStdNumBars, (s.dev d).barSize i ≠ 0 →
    (s.OnBus (.space d i) ↔
      s.enable d ((s.dev d).barIsIoSpace i) = true ∧ s.addrPart d i ≠ 0)

/-- The state before the guest runs: the platform's nodes are on the buses, no BAR is, and COMMAND
is clear. -/
structure PciSys.Init (s : PciSys ι) : Prop where
  kindOk : s.KindOk
  platform : ∀ io, ∃ xs, s.Nodes io xs ∧ ∀ x ∈ xs, ∃ k, x = .other io k
  inactive : ∀ d i, (s.dev d).barActive i = false
  command : ∀ d io, s.enable d io = false

/-- The write reaches the enable bits only from the start of COMMAND, and it does not give an
address to an enabled BAR that has none, or take it away. -/
def ConfigStep.Orderly (c : ConfigStep ι) : Prop :=
  (c.write.offset ≠ pciCommand →
    ∀ io, (c.write.stored c.pre).enable c.write.d io = c.pre.enable c.write.d io) ∧
  (c.write.IsBar → c.pre.enable c.write.d ((c.pre.dev c.write.d).barIsIoSpace c.write.bar) = true →
    (c.write.newAddr c.pre = 0 ↔ c.pre.addrPart c.write.d c.write.bar = 0))

/-- What carries the induction: besides the nodes on the buses, `bar_active` agrees with COMMAND. -/
structure PciSys.Agrees (s : PciSys ι) : Prop where
  kindOk : s.KindOk
  lists : s.WellFormed
  active : ∀ d, ∀ i < pciStdNumBars,
    (s.dev d).barActive i = s.enable d ((s.dev d).barIsIoSpace i)
  onBus : ∀ d, ∀ i < pciStdNumBars, (s.OnBus (.space d i) ↔
    s.enable d ((s.dev d).barIsIoSpace i) = true ∧ s.addrPart d i ≠ 0)

section Decoding

variable {s s' : PciSys ι} {c : ConfigStep ι} {cs : List (ConfigStep ι)}

omit [DecidableEq ι] in
theorem PciSys.onBus_iff {s : PciSys ι} {x : Node ι} {xs : List (Node ι)}
    (hx : s.Nodes (s.kind x) xs) : s.OnBus x ↔ x ∈ xs :=
  ⟨fun ⟨ys, hy, hm⟩ => by rw [hx.unique hy]; exact hm, fun hm => ⟨xs, hx, hm⟩⟩

omit [DecidableEq ι] in
theorem PciSys.Init.agrees {s : PciSys ι} (h : s.Init) : s.Agrees where
  kindOk := h.kindOk
  lists := PciSys.Nodes.wellFormed fun io => by
    obtain ⟨xs, hx, -⟩ := h.platform io
    exact ⟨xs, hx⟩
  active := fun d i _ => by rw [h.inactive, h.command]
  onBus := fun d i _ => by
    obtain ⟨xs, hx, hplat⟩ := h.platform (s.kind (.space d i))
    rw [PciSys.onBus_iff hx, h.command]
    refine ⟨fun hm => ?_, fun hc => by cases hc.1⟩
    obtain ⟨k, hk⟩ := hplat _ hm
    cases hk

theorem CommandDone.enable_eq {d : ι} {enable : Bool → Bool} {is : List Nat}
    (h : CommandDone d enable is s s') (e : ι) (io : Bool) : s'.enable e io = s.enable e io := by
  unfold PciSys.enable; rw [h.hdr]

theorem CommandDone.addrPart_eq {d : ι} {enable : Bool → Bool} {is : List Nat}
    (h : CommandDone d enable is s s') (e : ι) (i : Nat) : s'.addrPart e i = s.addrPart e i := by
  unfold PciSys.addrPart; rw [h.base, h.size]

theorem stored_addrPart (w : ConfigWrite ι) (s : PciSys ι) (e : ι) (i : Nat) :
    (w.stored s).addrPart e i = s.addrPart e i := by
  unfold PciSys.addrPart
  rw [((plainWrite_stored w s).bars e).size]
  rfl

theorem stored_enable_other (w : ConfigWrite ι) (s : PciSys ι) {e : ι} (he : e ≠ w.d) (io : Bool) :
    (w.stored s).enable e io = s.enable e io := by
  simp only [PciSys.enable, ConfigWrite.stored, PciSys.setHdr, PciSys.setDev,
    Function.update_of_ne he]

/-- `Agrees` excludes the write that `bus_lists_run` excludes. -/
theorem PciSys.Agrees.not_relinks (h : c.pre.Agrees) : ¬ c.Relinks := by
  rintro ⟨-, i, hi, hadd, hon⟩
  have hst := plainWrite_stored c.write c.pre
  have hact := hadd.2.1
  rw [(hst.bars c.write.d).active, h.active _ i hi] at hact
  have := ((h.onBus _ i hi).mp hon).1
  rw [hact] at this
  cases this

/-- A COMMAND write brings the BARs of its device in line with the new value. -/
theorem agrees_command (h : c.pre.Agrees) (hret : c.Returns) (hoff : c.write.offset = pciCommand)
    (hfold : (List.range pciStdNumBars).foldlM
      (pciCommandBarBody c.fuel c.write.d ((c.write.stored c.pre).enable c.write.d))
      (c.write.stored c.pre) = .ok c.post) : c.post.Agrees := by
  have hst := plainWrite_stored c.write c.pre
  have hdone := command_done List.nodup_range (hst.kindOk h.kindOk) hfold
  have hisIo : ∀ e, (c.post.dev e).barIsIoSpace = (c.pre.dev e).barIsIoSpace :=
    fun e => (hdone.isIo e).trans (hst.bars e).isIo
  refine ⟨hdone.kindOk, (c.wellFormed_iff h.kindOk h.lists hret).mpr h.not_relinks, ?_, ?_⟩
  · intro e i hi
    rw [hdone.active, hdone.enable_eq, hisIo e, (hst.bars e).active]
    by_cases he : e = c.write.d
    · subst he
      rw [if_pos ⟨rfl, List.mem_range.mpr hi⟩, (hst.bars _).isIo]
    · rw [if_neg fun hc => he hc.1, stored_enable_other _ _ he]
      exact h.active e i hi
  · intro e i hi
    have hkind : c.post.kind (.space e i) = c.pre.kind (.space e i) := congrFun (hisIo e) i
    obtain ⟨xs, hx, -⟩ := h.lists (c.pre.kind (.space e i))
    have hold := h.onBus e i hi
    rw [PciSys.onBus_iff hx] at hold
    obtain ⟨ys, hy, hmem, hrest⟩ := command_nodes List.nodup_range (hst.kindOk h.kindOk) hfold hx
      fun j hj hio hadd hm => h.not_relinks ⟨hoff, j, List.mem_range.mp hj, hadd, xs, by
        have hk : c.pre.kind (.space c.write.d j) = c.pre.kind (.space e i) :=
          (congrFun (hst.bars c.write.d).isIo.symm j).trans hio
        rw [hk]
        exact ⟨hx, hm⟩⟩
    rw [← hkind] at hy
    rw [PciSys.onBus_iff hy, hdone.enable_eq, hdone.addrPart_eq, stored_addrPart, hisIo e]
    by_cases he : e = c.write.d
    · subst he
      rw [hmem i (List.mem_range.mpr hi) (congrFun (hst.bars _).isIo i), hold]
      unfold PciSys.Adds PciSys.Removes
      rw [(hst.bars _).isIo, (hst.bars _).active, stored_addrPart, h.active _ i hi]
      -- the new enable bit, the old one, and whether there is an address
      generalize (c.write.stored c.pre).enable c.write.d
        ((c.pre.dev c.write.d).barIsIoSpace i) = new
      generalize c.pre.enable c.write.d ((c.pre.dev c.write.d).barIsIoSpace i) = old
      cases new <;> cases old <;> simp
    · rw [hrest _ fun j _ hj => he (by cases hj; rfl), hold, stored_enable_other _ _ he]

/-- Every other write leaves the buses alone, so it must leave alone what they depend on. -/
theorem agrees_plain (h : c.pre.Agrees) (hret : c.Returns) (ho : c.Orderly)
    (hoff : c.write.offset ≠ pciCommand) (hp : PlainWrite c.write c.pre c.post) :
    c.post.Agrees := by
  have hen : ∀ e io, c.post.enable e io = c.pre.enable e io := by
    intro e io
    rw [hp.enable]
    by_cases he : e = c.write.d
    · subst he; exact ho.1 hoff io
    · exact stored_enable_other _ _ he io
  refine ⟨hp.kindOk h.kindOk, PciSys.Nodes.wellFormed fun io => ?_, ?_, ?_⟩
  · obtain ⟨xs, hx, -⟩ := h.lists io
    exact ⟨xs, (hp.nodes io xs).mpr hx⟩
  · intro e i hi
    rw [(hp.bars e).active, (hp.bars e).isIo, hen]
    exact h.active e i hi
  · intro e i hi
    have hon : c.post.OnBus (.space e i) ↔ c.pre.OnBus (.space e i) := by
      have hkind : c.post.kind (.space e i) = c.pre.kind (.space e i) := congrFun (hp.bars e).isIo i
      unfold PciSys.OnBus
      rw [hkind]
      exact exists_congr fun xs => and_congr (hp.nodes _ xs) Iff.rfl
    rw [hon, h.onBus e i hi, hen, (hp.bars e).isIo]
    by_cases hb : c.write.IsBar ∧ e = c.write.d ∧ i = c.write.bar
    · obtain ⟨hbar, rfl, rfl⟩ := hb
      rw [configWrite_newAddr hbar hret]
      exact and_congr_right fun hon => not_congr (ho.2 hbar hon).symm
    · unfold PciSys.addrPart
      rw [hp.base e i hb, (hp.bars e).size]

theorem ConfigStep.agrees (h : c.pre.Agrees) (hret : c.Returns) (ho : c.Orderly) :
    c.post.Agrees := by
  rcases configWrite_cases hret with ⟨hoff, hfold⟩ | ⟨hoff, hp⟩
  · exact agrees_command h hret hoff hfold
  · exact agrees_plain h hret ho hoff hp

/-- **BAR decoding follows COMMAND** in every state of a run whose writes are orderly. -/
theorem bar_decoding_run (h0 : s.Init) (h : ConfigRun s cs s') (ho : ∀ c ∈ cs, c.Orderly) :
    s'.Decodes ∧ ∀ c ∈ cs, c.post.Decodes := by
  have hrun : s.Agrees → s'.Agrees ∧ ∀ c ∈ cs, c.post.Agrees := by
    clear h0
    induction h with
    | done => exact fun ha => ⟨ha, fun c hc => by cases hc⟩
    | @step s s₁ s₂ w fuel cs _ hret _ ih =>
      intro ha
      rw [List.forall_mem_cons] at ho
      have ha₁ := ConfigStep.agrees (c := ⟨w, fuel, s, s₁⟩) ha hret ho.1
      obtain ⟨hend, hall⟩ := ih ho.2 ha₁
      exact ⟨hend, List.forall_mem_cons.mpr ⟨ha₁, hall⟩⟩
  obtain ⟨hend, hall⟩ := hrun h0.agrees
  exact ⟨fun d i hi _ => hend.onBus d i hi, fun c hc d i hi _ => (hall c hc).onBus d i hi⟩

end Decoding

/-- Writes one after the other. -/
def configWrites (fuel : Nat) (s : PciSys ι) (ws : List (ConfigWrite ι)) : Except Stop (PciSys ι) :=
  ws.foldlM (fun s w => pciConfigWrite fuel s w.d w.offset w.data) s

theorem configRun_of_writes {fuel : Nat} {s s' : PciSys ι} {ws : List (ConfigWrite ι)}
    (hadm : ∀ w ∈ ws, w.Admitted) (h : configWrites fuel s ws = .ok s') :
    ∃ cs, ConfigRun s cs s' ∧ cs.map (·.write) = ws := by
  induction ws generalizing s with
  | nil => cases h; exact ⟨[], .done, rfl⟩
  | cons w ws ih =>
    rw [configWrites, List.foldlM_cons] at h
    obtain ⟨s₁, hw, h⟩ := bind_eq_ok.mp h
    rw [List.forall_mem_cons] at hadm
    obtain ⟨cs, hrun, hcs⟩ := ih hadm.2 h
    exact ⟨⟨w, fuel, s, s₁⟩ :: cs, .step hadm.1 hw hrun, by simp [hcs]⟩

end

/-! ## One device with one memory BAR of 256 bytes -/

def oneDev : PciSys Unit where
  dev := fun _ =>
    { hdr := fun _ => 0
      barSize := fun i => if i = 0 then 256 else 0
      barActive := fun _ => false
      barIsIoSpace := fun _ => false }
  heap := fun _ => ⟨0, 256, none⟩
  ioBus := ⟨0, none⟩
  mmioBus := ⟨0, none⟩

def writeBar0 (v : Nat) : ConfigWrite Unit := ⟨(), pciBaseAddress0, toLE 4 v⟩
def writeCommand (v : Nat) : ConfigWrite Unit := ⟨(), pciCommand, toLE 2 v⟩

theorem oneDev_init : oneDev.Init where
  kindOk := ⟨fun io x hx => (by cases io <;> cases hx), fun x y hy => (by cases hy)⟩
  platform := fun io => ⟨[], by cases io <;> exact .nil, fun x hx => by cases hx⟩
  inactive := fun _ _ => rfl
  command := fun () io => by cases io <;> decide

/-- The BAR is enabled, its address cleared, the BAR disabled, programmed and enabled again. -/
def relinkWrites : List (ConfigWrite Unit) :=
  [writeBar0 0xFE000000, writeCommand 2, writeBar0 0, writeCommand 0, writeBar0 0xFE000000,
    writeCommand 2]

theorem busFindFrom_self_loop {ν : Type} {heap : Heap ν} {x : ν} {addr : Nat}
    (hnext : (heap x).next = some x) (hlow : addr < (heap x).base) :
    ∀ fuel, busFindFrom heap addr fuel (some x) = .error .fuel := by
  intro fuel
  induction fuel with
  | zero => rfl
  | succ fuel ih =>
    simp only [busFindFrom]
    rw [if_neg (by omega), hnext]
    exact ih

/-- The node then points to itself, and looking up any address below it never ends. -/
theorem relink_not_wellFormed :
    ∃ cs s', oneDev.Init ∧ ConfigRun oneDev cs s' ∧ cs.map (·.write) = relinkWrites ∧
      ¬ s'.WellFormed ∧ ∀ fuel, busFindDev fuel s'.heap (s'.bus false) 0 = .error .fuel := by
  have heval : (configWrites 2 oneDev relinkWrites).toOption.map
      (fun s => (s.mmioBus.head, (s.heap (.space () 0)).next, (s.heap (.space () 0)).base)) =
        some (some (.space () 0), some (.space () 0), 0xFE000000) := by decide +kernel
  cases hw : configWrites 2 oneDev relinkWrites with
  | error e => rw [hw] at heval; cases heval
  | ok s' =>
    rw [hw] at heval
    simp only [Except.toOption, Option.map_some, Option.some.injEq, Prod.mk.injEq] at heval
    obtain ⟨hhead, hnext, hbase⟩ := heval
    obtain ⟨cs, hrun, hcs⟩ := configRun_of_writes
      (by simp [relinkWrites, writeBar0, writeCommand, ConfigWrite.Admitted, pciBaseAddress0,
        pciCommand, pciCfgSpaceSize]) hw
    refine ⟨cs, s', oneDev_init, hrun, hcs, fun hwf => ?_, fun fuel => ?_⟩
    · obtain ⟨xs, hx, hnd⟩ := hwf false
      unfold PciSys.Nodes OnList at hx
      rw [show (s'.bus false).head = some (.space () 0) from hhead] at hx
      cases hx with
      | cons hx =>
        rw [show s'.heap.next (.space () 0) = some (.space () 0) from hnext] at hx
        cases hx with
        | cons hx => simp at hnd
    · unfold busFindDev
      rw [show (s'.bus false).head = some (.space () 0) from hhead]
      exact busFindFrom_self_loop hnext (by rw [hbase]; decide) fuel

/-- The BAR is enabled before it has an address: it is programmed and enabled, and does not
answer. -/
theorem enable_first_not_decoded :
    ∃ cs s', oneDev.Init ∧ ConfigRun oneDev cs s' ∧
      cs.map (·.write) = [writeCommand 2, writeBar0 0xFE000000] ∧ ¬ s'.Decodes := by
  have heval : (configWrites 2 oneDev [writeCommand 2, writeBar0 0xFE000000]).toOption.map
      (fun s => (s.mmioBus.head, s.enable () false, s.addrPart () 0,
        (s.dev ()).barIsIoSpace 0, (s.dev ()).barSize 0)) =
        some (none, true, 0xFE000000, false, 256) := by decide +kernel
  cases hw : configWrites 2 oneDev [writeCommand 2, writeBar0 0xFE000000] with
  | error e => rw [hw] at heval; cases heval
  | ok s' =>
    rw [hw] at heval
    simp only [Except.toOption, Option.map_some, Option.some.injEq, Prod.mk.injEq] at heval
    obtain ⟨hhead, hen, haddr, hio, hsize⟩ := heval
    obtain ⟨cs, hrun, hcs⟩ := configRun_of_writes
      (by simp [writeBar0, writeCommand, ConfigWrite.Admitted, pciBaseAddress0, pciCommand,
        pciCfgSpaceSize]) hw
    refine ⟨cs, s', oneDev_init, hrun, hcs, fun hdec => ?_⟩
    have hiff := hdec () 0 (by decide) (by rw [hsize]; decide)
    rw [hio, hen, haddr] at hiff
    obtain ⟨xs, hx, hmem⟩ := hiff.mpr ⟨rfl, by decide⟩
    unfold PciSys.Nodes OnList at hx
    rw [show s'.kind (.space () 0) = false from hio,
      show (s'.bus false).head = none from hhead] at hx
    cases hx
    cases hmem

/-- Program, then enable. -/
theorem programFirst_run :
    ∃ fuel s', ConfigRun oneDev
      [⟨writeBar0 0xFE000000, 0, oneDev, pciConfigBar ((writeBar0 0xFE000000).stored oneDev) () 0⟩,
        ⟨writeCommand 2, fuel, pciConfigBar ((writeBar0 0xFE000000).stored oneDev) () 0, s'⟩]
          s' := by
  have hret : (⟨writeBar0 0xFE000000, 0, oneDev,
      pciConfigBar ((writeBar0 0xFE000000).stored oneDev) () 0⟩ : ConfigStep Unit).Returns := rfl
  have hk := ConfigStep.kindOk oneDev_init.kindOk hret
  have hwf := (ConfigStep.wellFormed_iff oneDev_init.kindOk oneDev_init.agrees.lists hret).mpr
    oneDev_init.agrees.not_relinks
  obtain ⟨fuel, s', hs'⟩ := (hwf.terminates hk).write (writeCommand 2)
  exact ⟨fuel, s', .step ⟨by decide, by decide, by decide⟩ hret
    (.step ⟨by decide, by decide, by decide⟩ hs' .done)⟩

theorem bus_lists_programFirst :
    ∃ cs s', ConfigRun oneDev cs s' ∧ cs.map (·.write) = [writeBar0 0xFE000000, writeCommand 2] ∧
      (∀ c ∈ cs, c.post.WellFormed) ∧ ∀ c ∈ cs, c.post.Terminates := by
  obtain ⟨fuel, s', hrun⟩ := programFirst_run
  obtain ⟨hiff, hterm⟩ := bus_lists_run oneDev_init.kindOk oneDev_init.agrees.lists hrun
  have hwf := hiff.mpr fun c hc => by
    simp only [List.mem_cons, List.not_mem_nil, or_false] at hc
    rcases hc with rfl | rfl
    · exact oneDev_init.agrees.not_relinks
    · -- the memory bus is still empty
      rintro ⟨-, i, -, -, xs, hx, hmem⟩
      have hnil : xs = [] := hx.unique .nil
      rw [hnil] at hmem
      cases hmem
  exact ⟨_, s', hrun, rfl, hwf, fun c hc => hterm c hc (hwf c hc)⟩

theorem bar_decoding_programFirst :
    ∃ cs s', ConfigRun oneDev cs s' ∧ cs.map (·.write) = [writeBar0 0xFE000000, writeCommand 2] ∧
      s'.Decodes := by
  obtain ⟨fuel, s', hrun⟩ := programFirst_run
  refine ⟨_, s', hrun, rfl, (bar_decoding_run oneDev_init hrun fun c hc => ?_).1⟩
  simp only [List.mem_cons, List.not_mem_nil, or_false] at hc
  rcases hc with rfl | rfl
  · refine ⟨fun _ io => by cases io <;> decide, fun _ hen => ?_⟩
    rw [show oneDev.enable () _ = false from oneDev_init.command () _] at hen
    cases hen
  · refine ⟨fun hc => absurd rfl hc, fun hbar => ?_⟩
    exact absurd (show pciBaseAddress0 ≤ pciCommand from hbar.1) (by decide)

end KvmHost
