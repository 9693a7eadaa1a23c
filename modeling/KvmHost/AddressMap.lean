import KvmHost.Machine
import Mathlib.Data.List.Find

/-!
# KvmHost.AddressMap

The memory map of the machine, as the guest sets it up through configuration space.

A BAR is on `mmio_bus` as a node whose base is a copy of its register. In a run whose configuration
writes are orderly and in place (`PciRuns`, `PciSizing`) both are right in every state, so the
memory bus holds the windows of the platform and of the BARs that decode, and nothing else
(`Mapped`). The bus takes the first node that covers an address; when the guest has placed the
windows apart from each other (`Placed`) that is the only one, and `mmioTarget` says where an access
goes in terms of the registers the guest can read.
-/

namespace KvmHost

open ByteStore LinkedList

/-- BAR 0 of a header. -/
def bar0 (hdr : Store) : Nat := getLE hdr (pciBarOffset 0) 4

/-- BAR 0 decodes: MEMORY is on in COMMAND, and the BAR holds an address. -/
def Claims (hdr : Store) : Prop :=
  (getLE hdr pciCommand 2).testBit pciCommandMemory = true ∧ bar0 hdr ≠ 0

instance (hdr : Store) : Decidable (Claims hdr) := inferInstanceAs (Decidable (_ ∧ _))

section

variable {ι : Type}

namespace PciSys

/-- The headers, as the guest reads them. -/
def file (s : PciSys ι) (d : ι) : Store := (s.dev d).hdr

/-- The devices `ds` have BAR 0, nobody has another BAR, and all registers are right. -/
structure Devices (ds : List ι) (s : PciSys ι) : Prop where
  present : ∀ d ∈ ds, (s.dev d).barSize 0 = barWindow ∧ (s.heap (.space d 0)).len = barWindow
  absent : ∀ d, ∀ i < pciStdNumBars, ¬ (d ∈ ds ∧ i = 0) → (s.dev d).barSize i = 0
  regs : ∀ d, s.SizesRight d

/-- The memory bus holds the windows of the platform and of BARs that are right. -/
structure Mapped (arch : Arch) (ds : List ι) (s : PciSys ι) : Prop where
  agrees : s.Agrees
  platform : s.Platform arch
  others : ∀ k, s.OnBus (.other false k) ↔ .other false k ∈ platformNodes (ι := ι) arch false
  bars : ∀ d i, s.OnBus (.space d i) → i < pciStdNumBars
  devices : s.Devices ds

/-- The nodes that have a window on the memory bus. -/
def claimed (arch : Arch) (ds : List ι) (s : PciSys ι) : List (Node ι) :=
  (ds.filter fun d => Claims (s.file d)).map (.space · 0) ++ platformNodes arch false

end PciSys

/-- The guest has placed the BARs that decode apart from each other and from the platform. -/
structure Placed (arch : Arch) (ds : List ι) (file : ι → Store) : Prop where
  bars : ∀ d ∈ ds, ∀ e ∈ ds, d ≠ e → Claims (file d) → Claims (file e) →
    bar0 (file d) + barWindow ≤ bar0 (file e) ∨ bar0 (file e) + barWindow ≤ bar0 (file d)
  platform : ∀ d ∈ ds, Claims (file d) → ∀ x ∈ platformNodes (ι := ι) arch false,
    bar0 (file d) + barWindow ≤ (nodeWindow x).1 ∨
      (nodeWindow x).1 + (nodeWindow x).2 ≤ bar0 (file d)

namespace PciSys.Mapped

variable {arch : Arch} {ds : List ι} {s : PciSys ι}

theorem layout (h : s.Mapped arch ds) (d : ι) : s.Layout d := by
  intro i hi
  by_cases hd : d ∈ ds ∧ i = 0
  · obtain ⟨hd, rfl⟩ := hd
    exact .inr ⟨8, by decide, by decide, (h.devices.present d hd).1⟩
  · exact .inl ⟨h.devices.absent d i hi hd, h.platform.memory d i⟩

/-- The base of a BAR is its register, and all of it is address. -/
theorem bar_base (h : s.Mapped arch ds) {d : ι} (hd : d ∈ ds) :
    (s.heap (.space d 0)).base = bar0 (s.file d) ∧ s.addrPart d 0 = bar0 (s.file d) := by
  have hsize := (h.devices.present d hd).1
  have hflag : s.barFlag d 0 = 0 := by
    unfold PciSys.barFlag
    rw [h.platform.memory]
    rfl
  have hreg := (h.devices.regs d).reg_eq (i := 0) (by decide) (by rw [hsize]; decide)
  have hmod := ((h.devices.regs d).present 0 (by decide) (by rw [hsize]; decide)).1
  have hlt : s.barReg d 0 < 2 ^ 32 := getLE_lt _ _ _
  rw [hflag] at hreg hmod
  rw [hsize] at hmod
  have hbase : (s.heap (.space d 0)).base = s.barReg d 0 := by omega
  refine ⟨hbase, ?_⟩
  show s.addrPart d 0 = s.barReg d 0
  unfold PciSys.addrPart
  rw [hbase, hsize, show barWindow = 2 ^ 8 from rfl, barMask_pow (by decide),
    Masks.and_high hlt (by decide)]
  unfold barWindow at hmod
  omega

/-- Which BARs are on the memory bus. -/
theorem onBus_bar (h : s.Mapped arch ds) (d : ι) (i : Nat) :
    s.OnBus (.space d i) ↔ d ∈ ds ∧ i = 0 ∧ Claims (s.file d) := by
  constructor
  · intro hon
    have hi := h.bars d i hon
    obtain ⟨hen, haddr⟩ := (h.agrees.onBus d i hi).mp hon
    rw [h.platform.memory] at hen
    by_cases hd : d ∈ ds ∧ i = 0
    · obtain ⟨hd, rfl⟩ := hd
      rw [(h.bar_base hd).2] at haddr
      exact ⟨hd, rfl, hen, haddr⟩
    · -- an absent BAR has no address
      refine absurd ?_ haddr
      unfold PciSys.addrPart
      rw [h.devices.absent d i hi hd, show barMask 0 = 0 by decide, Nat.and_zero]
  · rintro ⟨hd, rfl, hen, hreg⟩
    refine (h.agrees.onBus d 0 (by decide)).mpr ⟨?_, ?_⟩
    · rw [h.platform.memory]
      exact hen
    · rw [(h.bar_base hd).2]
      exact hreg

theorem nodes_perm [DecidableEq ι] (h : s.Mapped arch ds) (hnd : ds.Nodup) {xs : List (Node ι)}
    (hx : s.Nodes false xs) :
    xs.Perm (s.claimed arch ds) := by
  have hplat : (platformNodes (ι := ι) arch false).Nodup := by
    cases arch <;> simp [platformNodes, Node.pciMmioDev, Node.iodev]
  have hcl : (s.claimed arch ds).Nodup := by
    refine List.nodup_append.mpr ⟨?_, hplat, ?_⟩
    · refine List.pairwise_map.mpr ((hnd.filter _).imp fun hne heq => hne ?_)
      cases heq
      rfl
    · rintro x hx y hp rfl
      obtain ⟨d, -, rfl⟩ := List.mem_map.mp hx
      obtain ⟨k, hk⟩ := platformNodes_other hp
      cases hk
  refine (List.perm_ext_iff_of_nodup (IsList.nodup hx) hcl).mpr fun x => ?_
  unfold PciSys.claimed
  rw [List.mem_append]
  cases x with
  | space d i =>
    have hon : s.OnBus (.space d i) ↔ .space d i ∈ xs :=
      s.onBus_iff (by rw [show s.kind (.space d i) = false from h.platform.memory d i]; exact hx)
    rw [← hon, h.onBus_bar]
    constructor
    · rintro ⟨hd, rfl, hc⟩
      exact .inl (List.mem_map.mpr ⟨d, List.mem_filter.mpr ⟨hd, by simpa using hc⟩, rfl⟩)
    · rintro (hm | hm)
      · obtain ⟨e, he, heq⟩ := List.mem_map.mp hm
        cases heq
        obtain ⟨hd, hc⟩ := List.mem_filter.mp he
        exact ⟨hd, rfl, by simpa using hc⟩
      · obtain ⟨k, hk⟩ := platformNodes_other hm
        cases hk
  | other io k =>
    have hnot : .other io k ∉ (ds.filter fun d => Claims (s.file d)).map (Node.space · 0) := by
      intro hm
      obtain ⟨d, -, hd⟩ := List.mem_map.mp hm
      cases hd
    cases io with
    | false =>
      have hon : s.OnBus (.other false k) ↔ .other false k ∈ xs := s.onBus_iff hx
      rw [← hon, h.others k]
      exact ⟨.inr, fun hm => hm.resolve_left hnot⟩
    | true =>
      constructor
      · intro hm
        exact absurd (h.platform.kindOk.nodes hx _ hm) (by simp [PciSys.kind])
      · rintro (hm | hm)
        · exact absurd hm hnot
        · obtain ⟨k', hk⟩ := platformNodes_other hm
          cases hk

theorem nodes_length [DecidableEq ι] (h : s.Mapped arch ds) (hnd : ds.Nodup) {xs : List (Node ι)}
    (hx : s.Nodes false xs) : xs.length ≤ ds.length + 2 := by
  have hfil := List.length_filter_le (fun d => decide (Claims (s.file d))) ds
  have hplat : (platformNodes (ι := ι) arch false).length ≤ 2 := by
    cases arch <;> simp [platformNodes]
  have hlen := (h.nodes_perm hnd hx).length_eq
  simp only [PciSys.claimed, List.length_append, List.length_map] at hlen
  omega

/-- What a claimed node has for a window. -/
theorem claimed_window (h : s.Mapped arch ds) {x : Node ι} (hx : x ∈ s.claimed arch ds) :
    (s.heap x).Window := by
  rcases List.mem_append.mp hx with hx | hx
  · obtain ⟨d, hd, rfl⟩ := List.mem_map.mp hx
    have hmem := (List.mem_filter.mp hd).1
    have hlt : bar0 (s.file d) < 2 ^ 32 := getLE_lt _ _ _
    have hlen := (h.devices.present d hmem).2
    have hbase := (h.bar_base hmem).1
    unfold barWindow at hlen
    exact ⟨by omega, by omega⟩
  · exact h.platform.window hx

theorem claimed_apart (h : s.Mapped arch ds) (hnd : ds.Nodup) (hp : Placed arch ds s.file) :
    (s.claimed arch ds).Pairwise fun x y => (s.heap x).Apart (s.heap y) := by
  refine List.pairwise_append.mpr ⟨?_, ?_, ?_⟩
  · refine List.pairwise_map.mpr ((hnd.filter _).imp_of_mem fun {d e} hd he hne => ?_)
    obtain ⟨hd, hcd⟩ := List.mem_filter.mp hd
    obtain ⟨he, hce⟩ := List.mem_filter.mp he
    rw [Dev.Apart, (h.bar_base hd).1, (h.bar_base he).1, (h.devices.present d hd).2,
      (h.devices.present e he).2]
    exact hp.bars d hd e he hne (by simpa using hcd) (by simpa using hce)
  · cases arch with
    | x86 => exact .nil
    | arm64 =>
      have hio : (s.heap .iodev).base = Arm64.armIoportBase ∧
          (s.heap .iodev).len = Arm64.armIoportSize :=
        h.platform.windows false _ (List.mem_of_getElem? (i := 1) rfl)
      have hcfg : (s.heap .pciMmioDev).base = Arm64.armPciCfgBase ∧
          (s.heap .pciMmioDev).len = Arm64.armPciCfgSize :=
        h.platform.windows false _ (List.mem_of_getElem? (i := 0) rfl)
      refine List.pairwise_pair.mpr ?_
      rw [Dev.Apart, hio.1, hio.2, hcfg.1]
      exact .inr (by decide)
  · intro x hx y hy
    obtain ⟨d, hd, rfl⟩ := List.mem_map.mp hx
    obtain ⟨hd, hc⟩ := List.mem_filter.mp hd
    obtain ⟨hb, hl⟩ := h.platform.windows false y hy
    rw [Dev.Apart, (h.bar_base hd).1, (h.devices.present d hd).2, hb, hl]
    exact hp.platform d hd (by simpa using hc) y hy

end PciSys.Mapped

/-- Where no two windows meet, the first node that covers an address is the only one an access can
fit in. -/
theorem dispatch_pairwise {ν : Type} {heap : Heap ν} {xs : List ν}
    (h : xs.Pairwise fun x y => (heap x).Apart (heap y)) (addr : Nat) {size : Nat} (h1 : 1 ≤ size) :
    dispatch heap xs addr size = (xs.find? fun x => (heap x).Fits addr size).map fun x =>
      (x, addr - (heap x).base) := by
  induction xs with
  | nil => rfl
  | cons x xs ih =>
    obtain ⟨hx, hrest⟩ := List.pairwise_cons.mp h
    rw [dispatch_apart hx h1, ih hrest]
    by_cases hfit : (heap x).Fits addr size
    · rw [if_pos hfit, List.find?_cons_of_pos (by simpa using hfit)]
      rfl
    · rw [if_neg hfit, List.find?_cons_of_neg (by simpa using hfit)]

section Map

variable {arch : Arch} {ds : List ι} {s : PciSys ι}

/-- The BAR whose window holds the access. -/
def barAt (ds : List ι) (file : ι → Store) (addr size : Nat) : Option ι :=
  ds.find? fun d => decide (Claims (file d) ∧ bar0 (file d) ≤ addr ∧
    addr + size ≤ bar0 (file d) + barWindow)

theorem PciSys.Mapped.find_claimed (h : s.Mapped arch ds) (addr size : Nat) :
    ((s.claimed arch ds).find? fun x => (s.heap x).Fits addr size) =
      ((barAt ds s.file addr size).map (Node.space · 0)).or
        ((platformNodes arch false).find? fun x => (s.heap x).Fits addr size) := by
  unfold PciSys.claimed barAt
  rw [List.find?_append, List.find?_map, List.find?_filter]
  congr 2
  refine List.find?_congr fun d hd => ?_
  simp only [Function.comp_apply, Dev.Fits, (h.bar_base hd).1, (h.devices.present d hd).2,
    Bool.decide_and, Bool.decide_eq_true]

theorem PciSys.Mapped.busHandleIo [DecidableEq ι] (h : s.Mapped arch ds) (hnd : ds.Nodup)
    (hp : Placed arch ds s.file) {fuel addr size : Nat} (hf : ds.length + 2 < fuel) (h1 : 1 ≤ size)
    (h2 : size ≤ 8) (ha : addr + size ≤ 2 ^ 64) :
    KvmHost.busHandleIo fuel s.heap s.mmioBus addr size =
      .ok ((((barAt ds s.file addr size).map (Node.space · 0)).or
        ((platformNodes arch false).find? fun x => (s.heap x).Fits addr size)).map
          fun x => (x, addr - (s.heap x).base)) := by
  obtain ⟨xs, hx, -⟩ := h.agrees.lists false
  have hperm := h.nodes_perm hnd hx
  have hlen : xs.length < fuel := Nat.lt_of_le_of_lt (h.nodes_length hnd hx) hf
  have hap := h.claimed_apart hnd hp
  have hap' : xs.Pairwise fun x y => (s.heap x).Apart (s.heap y) :=
    (hperm.symm.pairwise hap) fun hxy => by unfold Dev.Apart at hxy ⊢; omega
  have hbus : KvmHost.busHandleIo fuel s.heap s.mmioBus addr size =
      .ok (dispatch s.heap xs addr size) :=
    busHandleIo_dispatch hx (fun x hm => h.claimed_window (hperm.mem_iff.mp hm)) h1
      (by omega) hlen ha
  rw [hbus]
  congr 1
  unfold dispatch
  rw [find_covers_perm hperm hap' addr, ← h.find_claimed, ← dispatch_pairwise hap addr h1]
  rfl

/-! ## Behind the windows of the platform -/

/-- What byte `off` of the configuration window is: 256 bytes of configuration space every 2048
bytes. -/
def windowCall (ds : List ι) (off size : Nat) : Option (ι × Nat) :=
  if off % 2048 + size ≤ pciCfgSpaceSize then ds[off / 2048]?.map fun d => (d, off % 2048) else none

theorem pciMmioIo_slots {pci : Pci ι} (h : Slots ds pci) (hn : ds.length ≤ 32) {off size fuel : Nat}
    (h1 : 1 ≤ size) (h2 : size ≤ 8) (ho : off + size ≤ 2 ^ 64) (hf : 32 < fuel) :
    pciMmioIo fuel pci off size = .ok (windowCall ds off size) := by
  have hw : ∀ d ∈ ds.reverse, (pci.heap d).Window :=
    fun d hd => h.window hn d (List.mem_reverse.mp hd)
  unfold pciMmioIo
  rw [busHandleIo_dispatch h.list hw h1 (by omega) (by rw [List.length_reverse]; omega) ho]
  congr 1
  have hcov : ∀ i d, ds[i]? = some d →
      ((pci.heap d).Covers off ↔ i = off / 2048 ∧ off % 2048 < 256) := by
    intro i d hi
    have hl := h.len d (List.mem_of_getElem? hi)
    rw [Dev.Covers, h.base i d hi, hl, pciCfgSpaceSize]
    omega
  unfold windowCall dispatch
  cases hx : ds.reverse.find? fun d => (pci.heap d).Covers off with
  | none =>
    simp only [List.find?_eq_none, List.mem_reverse, decide_eq_true_eq] at hx
    by_cases hfit : off % 2048 + size ≤ pciCfgSpaceSize
    · rw [if_pos hfit]
      cases hd : ds[off / 2048]? with
      | none => rfl
      | some d =>
        unfold pciCfgSpaceSize at hfit
        exact absurd ((hcov _ d hd).mpr ⟨rfl, by omega⟩) (hx d (List.mem_of_getElem? hd))
    · rw [if_neg hfit]
  | some d =>
    have hc : (pci.heap d).Covers off := by simpa using List.find?_some hx
    obtain ⟨i, hi, hget⟩ :=
      List.mem_iff_getElem.mp (List.mem_reverse.mp (List.mem_of_find?_eq_some hx))
    have hd : ds[i]? = some d := by rw [List.getElem?_eq_getElem hi, hget]
    obtain ⟨rfl, hlow⟩ := (hcov i d hd).mp hc
    have hfit : (pci.heap d).Fits off size ↔ off % 2048 + size ≤ pciCfgSpaceSize := by
      rw [Dev.Fits, h.base _ d hd, h.len d (List.mem_of_getElem? hd), pciCfgSpaceSize]
      omega
    simp only [hfit, hd, Option.map_some, h.base _ d hd]
    congr 3
    omega

/-- What is behind the windows of the platform. -/
def platformTarget (arch : Arch) (ds : List ι) (addr size : Nat) : Target ι :=
  if arch = .arm64 then
    if addr + size ≤ Arm64.armIoportSize then Machine.portTarget .arm64 ds 0 addr size
    else if Arm64.armPciCfgBase ≤ addr ∧
        addr + size ≤ Arm64.armPciCfgBase + Arm64.armPciCfgSize then
      .ofConfig (windowCall ds (addr - Arm64.armPciCfgBase) size)
    else .nobody
  else .nobody

/-- Where an access to memory goes. -/
def mmioTarget (arch : Arch) (ds : List ι) (file : ι → Store) (addr size : Nat) : Target ι :=
  match barAt ds file addr size with
  | some d => .bar d 0 (addr - bar0 (file d))
  | none => platformTarget arch ds addr size

theorem Machine.Up.routeMmio [DecidableEq ι] {β : Type} {m : Machine ι β} (hup : m.Up arch ds)
    (h : m.sys.Mapped arch ds) (hnd : ds.Nodup) (hn : ds.length ≤ 32)
    (hp : Placed arch ds m.sys.file) {fuel addr size : Nat} (hf : 34 < fuel) (h1 : 1 ≤ size)
    (h2 : size ≤ 8) (ha : addr + size ≤ 2 ^ 64) :
    m.routeMmio fuel addr size = .ok (mmioTarget arch ds m.sys.file addr size) := by
  unfold Machine.routeMmio mmioTarget
  rw [h.busHandleIo hnd hp (by omega) h1 h2 ha, ok_bind]
  cases hbar : barAt ds m.sys.file addr size with
  | some d =>
    have hd : d ∈ ds := List.mem_of_find?_eq_some hbar
    simp only [Option.map_some, Option.some_or, Machine.nodeIo, (h.bar_base hd).1]
  | none =>
    simp only [Option.map_none, Option.none_or, platformTarget]
    cases arch with
    | x86 => rfl
    | arm64 =>
      have hio : (m.sys.heap .iodev).base = Arm64.armIoportBase ∧
          (m.sys.heap .iodev).len = Arm64.armIoportSize :=
        h.platform.windows false _ (List.mem_of_getElem? (i := 1) rfl)
      have hcfg : (m.sys.heap .pciMmioDev).base = Arm64.armPciCfgBase ∧
          (m.sys.heap .pciMmioDev).len = Arm64.armPciCfgSize :=
        h.platform.windows false _ (List.mem_of_getElem? (i := 0) rfl)
      rw [if_pos rfl]
      by_cases hc : (m.sys.heap .pciMmioDev).Fits addr size
      · rw [platformNodes, List.find?_cons_of_pos (by simpa using hc)]
        rw [Dev.Fits, hcfg.1, hcfg.2] at hc
        have hout : ¬ addr + size ≤ Arm64.armIoportSize := by
          unfold Arm64.armPciCfgBase at hc
          unfold Arm64.armIoportSize
          omega
        rw [if_neg hout, if_pos hc]
        simp only [Option.map_some, Machine.nodeIo, hcfg.1]
        rw [pciMmioIo_slots hup.slots hn h1 h2 (by omega) (by omega)]
        rfl
      · rw [platformNodes, List.find?_cons_of_neg (by simpa using hc)]
        rw [Dev.Fits, hcfg.1, hcfg.2] at hc
        by_cases hi : (m.sys.heap .iodev).Fits addr size
        · rw [List.find?_cons_of_pos (by simpa using hi)]
          rw [Dev.Fits, hio.1, hio.2, Arm64.armIoportBase, Nat.zero_add] at hi
          rw [if_pos hi.2]
          simp only [Option.map_some, hio.1, Arm64.armIoportBase, Nat.sub_zero]
          show m.routeIo fuel addr size = _
          rw [hup.routeIo hn (by omega) h1 h2 ha (fun h => by cases h)]
          simp [Machine.portTarget]
        · rw [List.find?_cons_of_neg (by simpa using hi)]
          rw [Dev.Fits, hio.1, hio.2, Arm64.armIoportBase, Nat.zero_add] at hi
          rw [if_neg (by omega), if_neg hc]
          rfl

end Map

/-! ## What orderly writes keep -/

section Keeps

variable [DecidableEq ι] {arch : Arch} {ds : List ι} {s : PciSys ι} {c : ConfigStep ι}

/-- A write moves the BARs of its own device on and off the memory bus, and no other node. -/
theorem ConfigStep.onBus_other (h : c.pre.Agrees)
    (hmem : ∀ d i, (c.pre.dev d).barIsIoSpace i = false) (hret : c.Returns) {x : Node ι}
    (hk : c.pre.kind x = false) (hx : ∀ i < pciStdNumBars, x ≠ .space c.write.d i) :
    c.post.OnBus x ↔ c.pre.OnBus x := by
  obtain ⟨xs, hxs, -⟩ := h.lists false
  have hk' : c.post.kind x = false := by
    cases x with
    | space d i =>
      rw [PciSys.kind, (c.frame hret).isIo]
      exact hk
    | other io k => exact hk
  have hpre : c.pre.OnBus x ↔ x ∈ xs := c.pre.onBus_iff (by rw [hk]; exact hxs)
  rcases configWrite_cases hret with ⟨hoff, hfold⟩ | ⟨-, hplain⟩
  · have hst := plainWrite_stored c.write c.pre
    have hnew : ∀ i ∈ List.range pciStdNumBars,
        ((c.write.stored c.pre).dev c.write.d).barIsIoSpace i = false →
        (c.write.stored c.pre).Adds c.write.d ((c.write.stored c.pre).enable c.write.d) i →
          .space c.write.d i ∉ xs := by
      intro i hi _ hadds hin
      refine h.not_relinks ⟨hoff, i, List.mem_range.mp hi, hadds, xs, ?_, hin⟩
      rw [PciSys.kind, hmem]
      exact hxs
    obtain ⟨ys, hys, -, hrest⟩ := command_nodes List.nodup_range (hst.kindOk h.kindOk) hfold
      ((hst.nodes _ _).mpr hxs) hnew
    have hpost : c.post.OnBus x ↔ x ∈ ys := c.post.onBus_iff (by rw [hk']; exact hys)
    rw [hpost, hpre]
    exact hrest x fun i hi => hx i (List.mem_range.mp hi)
  · have hpost : c.post.OnBus x ↔ x ∈ xs :=
      c.post.onBus_iff (by rw [hk']; exact (hplain.nodes _ _).mpr hxs)
    rw [hpost, hpre]

theorem PciSys.Devices.config (h : c.pre.Devices ds) (hl : ∀ d, c.pre.Layout d) (hret : c.Returns)
    (hin : ∀ d, c.InPlace d) : c.post.Devices ds := by
  have hf := c.frame hret
  refine ⟨fun d hd => ?_, fun d i hi hn => ?_, fun d => ?_⟩
  · rw [hf.size, c.len hret]
    exact h.present d hd
  · rw [hf.size]
    exact h.absent d i hi hn
  · exact (c.sizesRight_iff (hl d) (h.regs d) hret).mpr (hin d)

theorem PciSys.Mapped.config (h : c.pre.Mapped arch ds) (hret : c.Returns) (ho : c.Orderly)
    (hin : ∀ d, c.InPlace d) :
    c.post.Mapped arch ds where
  agrees := c.agrees h.agrees hret ho
  platform := h.platform.config hret
  others := by
    intro k
    rw [c.onBus_other h.agrees h.platform.memory hret rfl fun i _ hi => by cases hi]
    exact h.others k
  bars := by
    intro d i hon
    by_contra hi
    have hother :=
      c.onBus_other (x := .space d i) h.agrees h.platform.memory hret (h.platform.memory d i)
      fun j hj he => by cases he; exact hi hj
    exact hi (h.bars d i (hother.mp hon))
  devices := h.devices.config h.layout hret hin

end Keeps

/-! ## The machine as it starts -/

section Boot

variable [DecidableEq ι] {arch : Arch} {ds es : List ι} {s : PciSys ι}

/-- The BARs and the ROM register of a new device are zero. -/
theorem initPci_reg {k : VirtioKind} (host : Host k.Backend) :
    (∀ i < pciStdNumBars, getLE (k.initPci host).hdr (pciBarOffset i) 4 = 0) ∧
      getLE (k.initPci host).hdr pciRomAddress 4 = 0 := by
  have hblank : (∀ i < pciStdNumBars, getLE (virtioPciHdr 0 0 0) (pciBarOffset i) 4 = 0) ∧
      getLE (virtioPciHdr 0 0 0) pciRomAddress 4 = 0 := by decide +kernel
  have hap : ∀ i < pciStdNumBars,
      Span.Apart ⟨pciBarOffset i, 4⟩ ⟨0x02, 2⟩ ∧ Span.Apart ⟨pciBarOffset i, 4⟩ ⟨0x08, 4⟩ ∧
      Span.Apart ⟨pciBarOffset i, 4⟩ ⟨0x3c, 1⟩ ∧
        Span.Apart ⟨pciBarOffset i, 4⟩ ⟨notifyCap + 16, 4⟩ ∧
      Span.Apart ⟨pciBarOffset i, 4⟩ ⟨devCfgCap + 12, 4⟩ := by decide
  refine ⟨fun i hi => ?_, ?_⟩
  · obtain ⟨h₁, h₂, h₃, h₄, h₅⟩ := hap i hi
    exact (k.initPci_field host h₁ h₂ h₃ h₄ h₅).trans (hblank.1 i hi)
  · exact (k.initPci_field host (by decide) (by decide) (by decide) (by decide) (by decide)).trans
      hblank.2

theorem PciSys.Devices.create (h : s.Devices es) {d : ι} (hd : d ∉ es) {k : VirtioKind}
    (host : Host k.Backend) :
    (VirtioSys.create d s host).pci.Devices (es ++ [d]) := by
  have hhdr : ((VirtioSys.create d s host).pci.dev d).hdr = (k.initPci host).hdr := by
    simp [VirtioSys.create, PciSys.setHdr, PciSys.setDev]
  have hsize : ((VirtioSys.create d s host).pci.dev d).barSize =
      Function.update (fun _ => 0) 0 barWindow := by
    simp [VirtioSys.create, PciSys.setHdr, PciSys.setDev, pciSetBar, pciDevInit]
  have hflag : (VirtioSys.create d s host).pci.barFlag d 0 = 0 := by
    simp [VirtioSys.create, PciSys.setHdr, PciSys.setDev, pciSetBar, PciSys.barFlag]
  have hother : ∀ e, e ≠ d → (VirtioSys.create d s host).pci.dev e = s.dev e := by
    intro e he
    simp [VirtioSys.create, PciSys.setHdr, PciSys.setDev, pciSetBar, pciDevInit,
      Function.update_of_ne he]
  have hheap : ∀ e i, e ≠ d → (VirtioSys.create d s host).pci.heap (.space e i) =
      s.heap (.space e i) := by
    intro e i he
    simp [VirtioSys.create, PciSys.setHdr, PciSys.setDev, pciSetBar, pciDevInit, devInit, he]
  have hnode : (VirtioSys.create d s host).pci.heap (.space d 0) = ⟨0, barWindow, none⟩ := by
    simp [VirtioSys.create, PciSys.setHdr, PciSys.setDev, pciSetBar, devInit]
  obtain ⟨hbars, hrom⟩ := initPci_reg host
  refine ⟨fun e he => ?_, fun e i hi hn => ?_, fun e => ?_⟩
  · by_cases hed : e = d
    · subst hed
      rw [hsize, hnode]
      exact ⟨Function.update_self _ _ _, rfl⟩
    · rw [hother e hed, hheap e 0 hed]
      exact h.present e ((List.mem_append.mp he).resolve_right fun hm =>
        hed (List.mem_singleton.mp hm))
  · by_cases hed : e = d
    · subst hed
      have hi0 : i ≠ 0 := fun h0 => hn ⟨List.mem_append_right _ (List.mem_singleton.mpr rfl), h0⟩
      rw [hsize]
      exact Function.update_of_ne hi0 _ _
    · rw [hother e hed]
      exact h.absent e i hi fun hc => hn ⟨List.mem_append_left _ hc.1, hc.2⟩
  · by_cases hed : e = d
    · subst hed
      refine ⟨fun i hi hne => ?_, fun i hi _ => ?_, ?_⟩
      · have hi0 : i = 0 := by
          by_contra h0
          rw [hsize] at hne
          exact hne (Function.update_of_ne h0 _ _)
        subst hi0
        have hreg : (VirtioSys.create e s host).pci.barReg e 0 = 0 := by
          rw [PciSys.barReg, hhdr]
          exact hbars 0 hi
        rw [hreg, hflag, hnode, Nat.zero_mod, Nat.zero_div, Nat.zero_mul]
        exact ⟨rfl, rfl⟩
      · rw [PciSys.barReg, hhdr]
        exact hbars i hi
      · rw [PciSys.romReg, hhdr]
        exact hrom
    · have hs := h.regs e
      refine ⟨fun i hi hne => ?_, fun i hi h0 => ?_, ?_⟩
      · rw [hother e hed] at hne
        rw [PciSys.barReg, PciSys.barFlag, hother e hed, hheap e i hed]
        exact hs.present i hi hne
      · rw [hother e hed] at h0
        rw [PciSys.barReg, hother e hed]
        exact hs.absent i hi h0
      · rw [PciSys.romReg, hother e hed]
        exact hs.rom

theorem attach_devices {β : Type} {kind : ι → VirtioKind} {host : (d : ι) → Host (kind d).Backend}
    (ds : List ι) :
    ∀ {es : List ι} {m : Machine ι β}, m.sys.Devices es → (es ++ ds).Nodup →
      (ds.foldl (Machine.attach kind host) m).sys.Devices (es ++ ds) := by
  induction ds with
  | nil =>
    intro es m h _
    rw [List.append_nil]
    exact h
  | cons d ds ih =>
    intro es m h hnd
    have hd : d ∉ es := fun hm => (List.nodup_append.mp hnd).2.2 d hm d List.mem_cons_self rfl
    rw [List.append_cons] at hnd ⊢
    exact ih (h.create hd (host d)) hnd

omit [DecidableEq ι] in
theorem PciSys.Fresh.init (h : s.Fresh arch) : s.Init where
  kindOk := h.kindOk
  platform := fun io => ⟨_, h.nodes io, fun _ hx => platformNodes_other hx⟩
  inactive := h.inactive
  command := by
    intro d io
    rw [PciSys.enable, h.command]
    exact Nat.zero_testBit _

omit [DecidableEq ι] in
theorem PciSys.Fresh.mapped (h : s.Fresh arch) (hd : s.Devices ds) : s.Mapped arch ds where
  agrees := h.init.agrees
  platform := h.platform
  others := fun k => s.onBus_iff (h.nodes false)
  bars := by
    intro d i hon
    have hk : s.kind (.space d i) = false := h.memory d i
    have hmem := (s.onBus_iff (by rw [hk]; exact h.nodes false)).mp hon
    obtain ⟨k, hk⟩ := platformNodes_other hmem
    cases hk
  devices := hd

theorem devices_platform (arch : Arch) :
    (vmArchInitPlatformDevice arch (PciSys.blank : PciSys ι)).Devices [] := by
  have hdev : ∀ d, (vmArchInitPlatformDevice arch (PciSys.blank : PciSys ι)).dev d =
      ⟨fun _ => 0, fun _ => 0, fun _ => false, fun _ => false⟩ := by
    intro d
    cases arch <;> rfl
  refine ⟨fun d hd => (List.not_mem_nil hd).elim, fun d i _ _ => ?_,
    fun d => ⟨fun i _ hne => ?_, fun i _ _ => ?_, ?_⟩⟩
  · rw [hdev]
  · rw [hdev] at hne
    exact absurd rfl hne
  · rw [PciSys.barReg, hdev]
    rfl
  · rw [PciSys.romReg, hdev]
    rfl

end Boot

/-! ## Whole runs -/

section Runs

variable [DecidableEq ι] {β : Type} {arch : Arch} {ds : List ι} {c : ConfigStep ι}

/-- The configuration write of the turn, if it makes one, is orderly and in place. -/
def Machine.Tidy (fuel : Nat) (t : Machine ι β × MachineEvent β) : Prop :=
  ∀ c, Machine.Makes fuel t c → c.Orderly ∧ ∀ d, c.InPlace d

theorem turns_mapped {barIo : BarIo ι β} {fuel : Nat} {kind : ι → VirtioKind}
    {host : (d : ι) → Host (kind d).Backend} {latch : Store} {heap : Heap ι} {devs : β}
    {es : List (MachineEvent β)} (hnd : ds.Nodup)
    (htidy : ∀ t ∈ Turns.turns (Machine.next barIo fuel)
      (.boot arch ds kind host latch heap devs) es, Machine.Tidy fuel t) :
    ∀ t ∈ Turns.turns (Machine.next barIo fuel) (.boot arch ds kind host latch heap devs) es,
      t.1.sys.Mapped arch ds := by
  refine Turns.turns_invariant (I := fun m => m.sys.Mapped arch ds)
    (fun m e m' h ht hn => ?_) ?_ htidy
  · rcases Machine.next_cases hn with ⟨hsys, -⟩ | ⟨-, -, -, hsys, -⟩ | ⟨c, hmakes, hpost, -⟩
    · rw [hsys]
      exact h
    · rw [hsys]
      exact h
    · obtain ⟨ho, hin⟩ := ht c hmakes
      rw [← hpost]
      exact PciSys.Mapped.config (by rw [hmakes.pre]; exact h) hmakes.returns ho hin
  · have hdevs : (Machine.boot arch ds kind host latch heap devs).sys.Devices ([] ++ ds) :=
      attach_devices ds (devices_platform arch) hnd
    exact (Machine.attach_fresh ds (fresh_platform arch)).mapped hdevs

theorem stored_field (w : ConfigWrite ι) (s : PciSys ι) {a n : Nat}
    (h : Span.Apart ⟨a, n⟩ ⟨w.offset, w.data.length⟩) :
    getLE ((w.stored s).dev w.d).hdr a n = getLE (s.dev w.d).hdr a n := by
  simp only [ConfigWrite.stored, PciSys.setHdr, PciSys.setDev, Function.update_self]
  exact getLE_patch_apart h

/-- What a driver does to switch decoding on and off. -/
theorem ConfigStep.command_tidy (hoff : c.write.offset = pciCommand)
    (hlen : c.write.data.length ≤ 8) :
    c.Orderly ∧ ∀ d, c.InPlace d := by
  have hbar : ¬ c.write.IsBar := by
    rintro ⟨hlo, -⟩
    rw [hoff] at hlo
    exact absurd hlo (by decide)
  have hkept : ∀ a, pciBaseAddress0 ≤ a → getLE ((c.write.stored c.pre).dev c.write.d).hdr a 4 =
      getLE (c.pre.dev c.write.d).hdr a 4 := by
    intro a ha
    refine stored_field _ _ (Span.Apart.symm (Span.apart_of_le ?_))
    simp only [hoff, pciCommand, pciBaseAddress0] at ha ⊢
    omega
  refine ⟨⟨fun h => absurd hoff h, fun h => absurd h hbar⟩, ?_⟩
  rintro d rfl
  refine ⟨fun i _ _ => hkept _ ?_, fun i hi => absurd hi.1 hbar, fun _ => hkept _ (by decide)⟩
  unfold pciBarOffset
  omega

/-- What a driver does to size or place a BAR, with decoding off. -/
theorem ConfigStep.bar_tidy (hmem : ∀ i, (c.pre.dev c.write.d).barIsIoSpace i = false)
    (hen : c.pre.enable c.write.d false = false) (hbar : c.write.IsBar)
    (hend : c.write.offset + c.write.data.length ≤ pciBarOffset c.write.bar + 4) :
    c.Orderly ∧ ∀ d, c.InPlace d := by
  have hlo : pciBarOffset c.write.bar ≤ c.write.offset := by
    obtain ⟨hlo, -⟩ := hbar
    unfold pciBarOffset ConfigWrite.bar
    omega
  have hlt : c.write.bar < pciStdNumBars := ConfigWrite.StartsIn.lt ⟨hbar, rfl⟩
  -- what is apart from the BAR is apart from the write
  have hkept : ∀ a n, Span.Apart ⟨a, n⟩ ⟨pciBarOffset c.write.bar, 4⟩ →
      getLE ((c.write.stored c.pre).dev c.write.d).hdr a n =
        getLE (c.pre.dev c.write.d).hdr a n := by
    intro a n ha
    refine stored_field _ _ ?_
    unfold Span.Apart at ha ⊢
    simp only at ha ⊢
    omega
  refine ⟨⟨fun _ io => ?_, fun _ h => ?_⟩, ?_⟩
  · unfold PciSys.enable
    rw [hkept]
    exact Span.apart_of_le (by simp only [pciCommand, pciBarOffset, pciBaseAddress0]; omega)
  · rw [hmem, hen] at h
    cases h
  · rintro d rfl
    refine ⟨fun j _ hj => hkept _ _ (barOffset_apart fun h => hj ⟨hbar, h.symm⟩), fun j _ => hmem j,
      fun _ => hkept _ _ (rom_apart hlt)⟩

/-- What touches neither COMMAND nor a BAR, and the ROM address only from its first byte on. -/
theorem ConfigStep.plain_tidy (hbar : ¬ c.write.IsBar)
    (hcmd : Span.Apart ⟨pciCommand, 2⟩ ⟨c.write.offset, c.write.data.length⟩)
    (hbars : ∀ i < pciStdNumBars,
      Span.Apart ⟨pciBarOffset i, 4⟩ ⟨c.write.offset, c.write.data.length⟩)
    (hrom : c.write.offset ≠ pciRomAddress →
      Span.Apart ⟨pciRomAddress, 4⟩ ⟨c.write.offset, c.write.data.length⟩) :
    c.Orderly ∧ ∀ d, c.InPlace d := by
  refine ⟨⟨fun _ io => ?_, fun h => absurd h hbar⟩, ?_⟩
  · unfold PciSys.enable
    rw [stored_field _ _ hcmd]
  · rintro d rfl
    exact ⟨fun i hi _ => stored_field _ _ (hbars i hi), fun i hi => absurd hi.1 hbar,
      fun h => stored_field _ _ (hrom h)⟩

/-- **The memory map.** On both platforms, with up to 32 devices: after any run whose configuration
writes are orderly and in place, and as long as the windows are placed apart, an access to memory
goes to the BAR whose register holds an address with the access in its window, if the device's
COMMAND enables memory, at the offset from that address; else, on arm64, to the port or to the byte
of configuration space that the windows of the platform have there; and to nobody otherwise. A BAR
that holds 0 does not decode, whatever COMMAND says. A run ends at an access to a BAR that its
handler does not return from. -/
theorem address_map (barIo : BarIo ι β) (fuel : Nat) (hf : 34 < fuel) (arch : Arch) (ds : List ι)
    (hnd : ds.Nodup) (hn : ds.length ≤ 32) (kind : ι → VirtioKind)
    (host : (d : ι) → Host (kind d).Backend) (latch : Store) (heap : Heap ι) (devs : β)
    (es : List (MachineEvent β))
    (htidy : ∀ t ∈ Turns.turns (Machine.next barIo fuel)
      (.boot arch ds kind host latch heap devs) es, Machine.Tidy fuel t) :
    ∀ t ∈ Turns.turns (Machine.next barIo fuel) (.boot arch ds kind host latch heap devs) es,
      Placed arch ds t.1.sys.file → ∀ addr size, 1 ≤ size → size ≤ 8 → addr + size ≤ 2 ^ 64 →
        t.1.routeMmio fuel addr size = .ok (mmioTarget arch ds t.1.sys.file addr size) := by
  intro t ht hp addr size h1 h2 ha
  exact (Machine.turns_up hnd hn es t ht).routeMmio
    (turns_mapped hnd htidy t ht) hnd hn hp hf h1 h2 ha

end Runs

end

/-- The guest places BAR 0 of slot 0 through the configuration window. -/
def assignBar0 : GuestAccess where
  mmio := true
  addr := 0x40000010
  isWrite := true
  data := [0x00, 0x00, 0x01, 0x40]
  size_pos := by decide
  size_le := by decide
  inside := by decide

def commandMemory : GuestAccess :=
  { enableMemory with
    mmio := true
    addr := 0x40000004
    inside := by decide }

/-- The write a turn makes is the one its access is routed to. -/
theorem Machine.Makes.write {ι β : Type} [DecidableEq ι] {fuel : Nat} {m : Machine ι β}
    {a : GuestAccess} {c : ConfigStep ι} (h : Machine.Makes fuel (m, .access a) c) (d : ι)
    (off : Nat) (hr : m.route fuel a = .ok (.config d off)) : c.write = ⟨d, off, a.data⟩ := by
  obtain ⟨a', ha, -, hdata, hroute⟩ := h.access
  cases ha
  have heq := Target.config.inj (Except.ok.inj (hr.symm.trans hroute))
  cases hw : c.write
  rw [hw] at heq hdata
  rw [heq.1, heq.2, hdata]

/-- The guest places BAR 0 and switches decoding on. -/
def placing : List (MachineEvent Unit) :=
  [.access assignBar0, .access commandMemory, .others ⟨serialDevPriv, 0, []⟩ ()]

theorem placing_tidy :
    ∀ t ∈ Turns.turns (Machine.next noBars 35) (blkMachine .arm64) placing, Machine.Tidy 35 t := by
  refine Turns.turns_next rfl (fun c hc => ?_) (Turns.turns_next rfl (fun c hc => ?_)
    (Turns.turns_next rfl (fun c hc => ?_) fun _ h => by cases h))
  · have hw := hc.write () 16 (by decide +kernel)
    refine c.bar_tidy (fun i => ?_) ?_ (by rw [hw]; exact ⟨by decide, by decide⟩)
      (by rw [hw]; decide)
    · rw [hc.pre]
      exact (Machine.attach_fresh [()] (fresh_platform .arm64)).memory _ i
    · rw [hc.pre, hw]
      decide +kernel
  · have hw := hc.write () 4 (by decide +kernel)
    exact c.command_tidy (by rw [hw]; rfl) (by rw [hw]; decide)
  · obtain ⟨a, ha, -⟩ := hc.access
    cases ha

theorem address_map_placed :
    ∃ t ∈ Turns.turns (Machine.next noBars 35) (blkMachine .arm64) placing,
      t.1.routeMmio 35 0x4001003C 2 = .ok (.bar () 0 0x3C) ∧
        t.1.routeMmio 35 0x3F8 1 = .ok (.serial 0) := by
  have hmap := address_map noBars 35 (by decide) .arm64 [()] (by decide) (by decide) (fun _ => .blk)
    (fun _ => blkHost) (fun _ => 0xFF) blankNodes () _ placing_tidy
  refine ⟨_, List.mem_of_getElem? (i := 2) rfl, ?_⟩
  have hat := hmap _ (List.mem_of_getElem? (i := 2) rfl)
    ⟨fun _ _ _ _ hne => absurd rfl hne, fun () _ _ x hx => by
      have hx : x = .pciMmioDev ∨ x = .iodev := by simpa [platformNodes] using hx
      rcases hx with rfl | rfl
      · exact .inr (by decide +kernel)
      · exact .inr (by decide +kernel)⟩
  exact ⟨(hat 0x4001003C 2 (by decide) (by decide) (by decide)).trans (by decide +kernel),
    (hat 0x3F8 1 (by decide) (by decide) (by decide)).trans (by decide +kernel)⟩

end KvmHost
