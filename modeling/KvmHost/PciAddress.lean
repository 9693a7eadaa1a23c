import KvmHost.BusDispatch
import KvmHost.Lib.Masks
import KvmHost.Pci

/-!
# KvmHost.PciAddress

Configuration addressing of `pci.c`: the address latch at port 0xCF8, the data port at 0xCFC and the
memory-mapped window, all of which end in a search of `pci_bus` for the device's `config_dev`.

A port access is dispatched by the I/O bus of the platform (`arch/x86/vm.c`), on which the two PCI
nodes are registered; the serial port is elsewhere and left out. Devices are named by a type `ι`
whose elements stand for their `config_dev` nodes. What a data access does is the call it makes: the
device whose `pci_config_do_io` runs and the offset it gets. `slotCall` says what it should be in
terms of the fields of the latched address.
-/

namespace KvmHost

open ByteStore LinkedList

/-! ## The address -/

namespace PciConfigAddress

-- the fields of `union pci_config_address`, read off its `value`

def regNum (v : Nat) : Nat := v / 2 ^ 2 % 2 ^ 6
def funcNum (v : Nat) : Nat := v / 2 ^ 8 % 2 ^ 3
def devNum (v : Nat) : Nat := v / 2 ^ 11 % 2 ^ 5
def busNum (v : Nat) : Nat := v / 2 ^ 16 % 2 ^ 8
def reserved (v : Nat) : Nat := v / 2 ^ 24 % 2 ^ 7
def enableBit (v : Nat) : Nat := v / 2 ^ 31 % 2

/-- `reg_offset = 0` -/
def clearRegOffset (v : Nat) : Nat := v / 2 ^ 2 * 2 ^ 2

/-- The `value` of an address that has `dev_num` set and is otherwise zero. -/
def ofDevNum (n : Nat) : Nat := n % 2 ^ 5 * 2 ^ 11

end PciConfigAddress

open PciConfigAddress

def pciAddrEnableBit : Nat := 2 ^ 31
def pciConfigAddr : Nat := 0xCF8
def pciConfigData : Nat := 0xCFC
def pciMmioSize : Nat := 2 ^ 16

/-- `struct pci`: the bytes of `pci_addr`, and `pci_bus` with the nodes of the devices. -/
structure Pci (ι : Type) where
  pciAddr : Store
  heap : Heap ι
  pciBus : Bus ι

section

variable {ι : Type}

def Pci.value (pci : Pci ι) : Nat := getLE pci.pciAddr 0 4

/-- `pci_address_io`: the bytes that are in `data` afterwards, and the new latch. -/
def pciAddressIo (pci : Pci ι) (data : List UInt8) (isWrite : Bool) (offset : Nat) :
    List UInt8 × Pci ι :=
  let bytes := if isWrite then patch pci.pciAddr offset data else pci.pciAddr
  (if isWrite then data else slice pci.pciAddr offset data.length,
    { pci with pciAddr := putLE bytes 0 4 (clearRegOffset (getLE bytes 0 4)) })

def pciDataIo (fuel : Nat) (pci : Pci ι) (offset size : Nat) : Except Stop (Option (ι × Nat)) :=
  if enableBit pci.value = 1 then
    let addr := (pci.value ||| offset) &&& (2 ^ 64 - 1 - pciAddrEnableBit)
    busHandleIo fuel pci.heap pci.pciBus addr size
  else .ok none

def pciMmioIo (fuel : Nat) (pci : Pci ι) (offset size : Nat) : Except Stop (Option (ι × Nat)) :=
  busHandleIo fuel pci.heap pci.pciBus offset size

def pciDevRegister [DecidableEq ι] (pci : Pci ι) (dev : ι) : Pci ι :=
  let addr := ofDevNum pci.pciBus.devNum
  let heap := devInit pci.heap dev addr pciCfgSpaceSize
  let hb := busRegisterDev heap pci.pciBus dev
  { pci with heap := hb.1, pciBus := hb.2 }

/-- `pci_init`, for the members of `struct pci` above; the latch keeps what was in memory. -/
def pciInit (pciAddr : Store) (heap : Heap ι) : Pci ι := { pciAddr, heap, pciBus := busInit }

/-- The nodes `pci_init` sets up for the platform's buses. -/
inductive PciNode where
  | pciAddrDev
  | pciBusDev
  | pciMmioDev
deriving DecidableEq

def pciInitNodes (heap : Heap PciNode) : Heap PciNode :=
  let heap := devInit heap .pciAddrDev pciConfigAddr 4
  let heap := devInit heap .pciBusDev pciConfigData 4
  devInit heap .pciMmioDev 0 pciMmioSize

/-- The I/O bus as `vm_arch_init_platform_device` leaves it. -/
def ioPorts (heap : Heap PciNode) : BusSys PciNode :=
  let hb := busRegisterDev (pciInitNodes heap) busInit .pciAddrDev
  let hb := busRegisterDev hb.1 hb.2 .pciBusDev
  ⟨hb.1, hb.2⟩

/-- A guest access that lies in the address port or in the data port. -/
structure PortAccess where
  port : Nat
  isWrite : Bool
  data : List UInt8
  size_pos : 1 ≤ data.length
  within : (pciConfigAddr ≤ port ∧ port + data.length ≤ pciConfigAddr + 4) ∨
    (pciConfigData ≤ port ∧ port + data.length ≤ pciConfigData + 4)

def PortAccess.IsAddress (a : PortAccess) : Prop := a.port < pciConfigData

/-- An access to a port: the call of a configuration handler it makes, and the latch afterwards. -/
def portIo (fuel : Nat) (nodes : Heap PciNode) (pci : Pci ι) (a : PortAccess) :
    Except Stop (Option (ι × Nat) × Pci ι) := do
  match ← busHandleIo fuel (ioPorts nodes).heap (ioPorts nodes).bus a.port a.data.length with
  | some (.pciAddrDev, offset) => return (none, (pciAddressIo pci a.data a.isWrite offset).2)
  | some (.pciBusDev, offset) => return (← pciDataIo fuel pci offset a.data.length, pci)
  | some (.pciMmioDev, offset) => return (← pciMmioIo fuel pci offset a.data.length, pci)
  | none => return (none, pci)

def portsIo (fuel : Nat) (nodes : Heap PciNode) (pci : Pci ι) (as : List PortAccess) :
    Except Stop (Pci ι) :=
  as.foldlM (fun pci a => (portIo fuel nodes pci a).map Prod.snd) pci

/-- The call a latched address asks for at byte `o` of the data port, the devices being registered
in the order of `ds`. -/
def slotCall (ds : List ι) (v o : Nat) : Option (ι × Nat) :=
  if enableBit v = 1 ∧ reserved v = 0 ∧ busNum v = 0 ∧ funcNum v = 0 then
    ds[devNum v]?.map fun d => (d, 4 * regNum v + o)
  else none

/-! ## Arithmetic of the address -/

/-- The address on `pci_bus` that a data access goes to. -/
theorem data_addr {v o : Nat} (hv : v < 2 ^ 32) (h4 : v % 4 = 0) (ho : o < 4) :
    (v ||| o) &&& (2 ^ 64 - 1 - pciAddrEnableBit) = v % 2 ^ 31 + o := by
  unfold pciAddrEnableBit
  rw [Masks.or_low (k := 2) h4 ho, Masks.and_clear_top (by omega) (by decide)]
  omega

/-- An address below the enable bit is in the space of slot `i` when its upper fields say so. -/
theorem slot_covers {v o i : Nat} (h4 : v % 4 = 0) (ho : o < 4) (hi : i < 32) :
    (2048 * i ≤ v % 2 ^ 31 + o ∧ v % 2 ^ 31 + o < 2048 * i + 256) ↔
      reserved v = 0 ∧ busNum v = 0 ∧ funcNum v = 0 ∧ devNum v = i := by
  unfold reserved busNum funcNum devNum
  omega

theorem slot_offset {v o : Nat} (h4 : v % 4 = 0)
    (h : reserved v = 0 ∧ busNum v = 0 ∧ funcNum v = 0) :
    v % 2 ^ 31 + o = 2048 * devNum v + (4 * regNum v + o) := by
  unfold reserved busNum funcNum at h
  unfold devNum regNum
  omega

theorem regNum_lt (v : Nat) : regNum v < 64 := Nat.mod_lt _ (by decide)

/-! ## The devices of the bus -/

/-- The devices of `ds` are on the bus, each in the slot of its place. -/
structure Slots (ds : List ι) (pci : Pci ι) : Prop where
  list : OnList pci.heap pci.pciBus ds.reverse
  devNum : pci.pciBus.devNum = ds.length
  base : ∀ i d, ds[i]? = some d → (pci.heap d).base = 2048 * i
  len : ∀ d ∈ ds, (pci.heap d).len = pciCfgSpaceSize

theorem slots_init (latch : Store) (heap : Heap ι) : Slots [] (pciInit latch heap) :=
  ⟨.nil, rfl, fun i d h => by simp at h, fun d h => by cases h⟩

theorem slots_register [DecidableEq ι] {ds : List ι} {pci : Pci ι} (h : Slots ds pci) {d : ι}
    (hd : d ∉ ds) (hn : ds.length < 32) : Slots (ds ++ [d]) (pciDevRegister pci d) := by
  -- a node that was there is not touched, but for `next` of the new one
  have hold : ∀ e ∈ ds, ((pciDevRegister pci d).heap e).base = (pci.heap e).base ∧
      ((pciDevRegister pci d).heap e).len = (pci.heap e).len := by
    intro e he
    have hne : e ≠ d := fun heq => hd (heq ▸ he)
    simp only [pciDevRegister, busRegisterDev]
    rw [Heap.setNext_base, Heap.setNext_len, devInit, Function.update_of_ne hne]
    exact ⟨rfl, rfl⟩
  have hnew : ((pciDevRegister pci d).heap d).base = 2048 * ds.length ∧
      ((pciDevRegister pci d).heap d).len = pciCfgSpaceSize := by
    simp only [pciDevRegister, busRegisterDev]
    rw [Heap.setNext_base, Heap.setNext_len, devInit, Function.update_self]
    refine ⟨?_, rfl⟩
    show ofDevNum pci.pciBus.devNum = _
    rw [h.devNum, ofDevNum, Nat.mod_eq_of_lt (by omega)]
    omega
  refine ⟨?_, ?_, ?_, ?_⟩
  · rw [List.reverse_append]
    refine busRegisterDev_list.mpr ⟨ds.reverse, rfl, by simpa using hd, ?_⟩
    refine h.list.congr fun e he => ?_
    have hne : e ≠ d := fun heq => hd (heq ▸ List.mem_reverse.mp he)
    simp only [Heap.next, devInit, Function.update_of_ne hne]
  · show (pci.pciBus.devNum + 1) % 2 ^ 64 = _
    rw [h.devNum, List.length_append, List.length_singleton, Nat.mod_eq_of_lt (by omega)]
  · intro i e hi
    rw [List.getElem?_append] at hi
    split at hi
    · rw [(hold e (List.mem_of_getElem? hi)).1]
      exact h.base i e hi
    · rename_i hlen
      have hil : i = ds.length := by
        have := (List.getElem?_eq_some_iff.mp hi).1
        simp only [List.length_singleton] at this
        omega
      subst hil
      obtain rfl : d = e := by simpa using hi
      exact hnew.1
  · intro e he
    rcases List.mem_append.mp he with he | he
    · rw [(hold e he).2]; exact h.len e he
    · rw [List.mem_singleton.mp he]; exact hnew.2

theorem slots_foldl [DecidableEq ι] (ds : List ι) : ∀ {es : List ι} {pci : Pci ι}, Slots es pci →
    (es ++ ds).Nodup → (es ++ ds).length ≤ 32 → Slots (es ++ ds) (ds.foldl pciDevRegister pci) := by
  induction ds with
  | nil => intro es pci h _ _; simpa using h
  | cons d ds ih =>
    intro es pci h hnd hn
    have hd : d ∉ es := fun hm => (List.nodup_append.mp hnd).2.2 d hm d List.mem_cons_self rfl
    have hlen : es.length < 32 := by simp only [List.length_append, List.length_cons] at hn; omega
    have hstep := slots_register h hd hlen
    rw [List.append_cons] at hnd hn ⊢
    exact ih hstep hnd hn

theorem Slots.window {ds : List ι} {pci : Pci ι} (h : Slots ds pci) (hn : ds.length ≤ 32) :
    ∀ d ∈ ds, (pci.heap d).Window := by
  intro d hd
  obtain ⟨i, hi, rfl⟩ := List.mem_iff_getElem.mp hd
  have hb := h.base i _ (List.getElem?_eq_getElem hi)
  have hl := h.len _ hd
  unfold pciCfgSpaceSize at hl
  exact ⟨by omega, by omega⟩

/-- What `pci_bus` does with an access at the address of byte `o` of a latched register. -/
theorem slots_dispatch {ds : List ι} {pci : Pci ι} (h : Slots ds pci) (hn : ds.length ≤ 32)
    {v o size fuel : Nat} (hv : enableBit v = 1) (h4 : v % 4 = 0) (h1 : 1 ≤ size)
    (h2 : o + size ≤ 4) (hf : 32 < fuel) :
    busHandleIo fuel pci.heap pci.pciBus (v % 2 ^ 31 + o) size = .ok (slotCall ds v o) := by
  have hw : ∀ d ∈ ds.reverse, (pci.heap d).Window := fun d hd =>
    h.window hn d (List.mem_reverse.mp hd)
  have hv31 : v % 2 ^ 31 < 2 ^ 31 := Nat.mod_lt _ (by decide)
  rw [busHandleIo_dispatch h.list hw h1 (by omega) (by rw [List.length_reverse]; omega) (by omega)]
  congr 1
  -- the device of slot `i` covers the address when the upper fields say `i`
  have hcov : ∀ i d, ds[i]? = some d → ((pci.heap d).Covers (v % 2 ^ 31 + o) ↔
      reserved v = 0 ∧ busNum v = 0 ∧ funcNum v = 0 ∧ devNum v = i) := by
    intro i d hi
    have hlt := (List.getElem?_eq_some_iff.mp hi).1
    have hl := h.len d (List.mem_of_getElem? hi)
    rw [← slot_covers (o := o) h4 (by omega) (by omega : i < 32), Dev.Covers, h.base i d hi, hl,
      pciCfgSpaceSize]
  unfold slotCall dispatch
  cases hx : ds.reverse.find? fun d => (pci.heap d).Covers (v % 2 ^ 31 + o) with
  | none =>
    simp only [List.find?_eq_none, List.mem_reverse, decide_eq_true_eq] at hx
    by_cases hz : reserved v = 0 ∧ busNum v = 0 ∧ funcNum v = 0
    · rw [if_pos ⟨hv, hz⟩]
      cases hd : ds[devNum v]? with
      | none => rfl
      | some d =>
        exact absurd ((hcov _ d hd).mpr ⟨hz.1, hz.2.1, hz.2.2, rfl⟩)
          (hx d (List.mem_of_getElem? hd))
    · rw [if_neg fun hc => hz hc.2]
  | some d =>
    have hc : (pci.heap d).Covers (v % 2 ^ 31 + o) := by simpa using List.find?_some hx
    obtain ⟨i, hi, hget⟩ :=
      List.mem_iff_getElem.mp (List.mem_reverse.mp (List.mem_of_find?_eq_some hx))
    have hd : ds[i]? = some d := by rw [List.getElem?_eq_getElem hi, hget]
    obtain ⟨hr, hb, hfn, hdn⟩ := (hcov i d hd).mp hc
    have hoff := slot_offset (o := o) h4 ⟨hr, hb, hfn⟩
    have hbase := h.base i d hd
    have hreg := regNum_lt v
    have hfit : (pci.heap d).Fits (v % 2 ^ 31 + o) size := by
      unfold Dev.Fits
      rw [hbase, h.len d (List.mem_of_getElem? hd), pciCfgSpaceSize]
      omega
    rw [if_pos ⟨hv, hr, hb, hfn⟩, hdn, hd]
    simp only [if_pos hfit, Option.map_some, hbase]
    congr 2
    omega

/-! ## Port accesses -/

theorem ioPorts_list (nodes : Heap PciNode) :
    OnList (ioPorts nodes).heap (ioPorts nodes).bus [.pciBusDev, .pciAddrDev] := by
  refine busRegisterDev_list.mpr ⟨_, rfl, by decide, ?_⟩
  exact busRegisterDev_list.mpr ⟨_, rfl, by decide, .nil⟩

theorem ioPorts_addrDev (nodes : Heap PciNode) :
    ((ioPorts nodes).heap .pciAddrDev).base = pciConfigAddr ∧
      ((ioPorts nodes).heap .pciAddrDev).len = 4 := ⟨rfl, rfl⟩

theorem ioPorts_busDev (nodes : Heap PciNode) :
    ((ioPorts nodes).heap .pciBusDev).base = pciConfigData ∧
      ((ioPorts nodes).heap .pciBusDev).len = 4 := ⟨rfl, rfl⟩

/-- The I/O bus hands an access to the port it lies in, at the offset from the port's first byte. -/
theorem ioPorts_dispatch (nodes : Heap PciNode) (a : PortAccess) {fuel : Nat} (hf : 2 < fuel) :
    busHandleIo fuel (ioPorts nodes).heap (ioPorts nodes).bus a.port a.data.length =
      .ok (some (if a.port < pciConfigData then (.pciAddrDev, a.port - pciConfigAddr)
        else (.pciBusDev, a.port - pciConfigData))) := by
  obtain ⟨ha1, ha2⟩ := ioPorts_addrDev nodes
  obtain ⟨hd1, hd2⟩ := ioPorts_busDev nodes
  have hpos := a.size_pos
  have hin := a.within
  have hw : ∀ x ∈ [PciNode.pciBusDev, .pciAddrDev], ((ioPorts nodes).heap x).Window := by
    intro x hx
    simp only [List.mem_cons, List.not_mem_nil, or_false] at hx
    rcases hx with rfl | rfl
    · exact ⟨by omega, by rw [hd1, hd2]; decide⟩
    · exact ⟨by omega, by rw [ha1, ha2]; decide⟩
  unfold pciConfigAddr pciConfigData at *
  rw [busHandleIo_dispatch (ioPorts_list nodes) hw hpos (by omega) (by simpa using hf) (by omega)]
  unfold dispatch
  by_cases hp : a.port < 0xCFC
  · have hbus : ¬ ((ioPorts nodes).heap .pciBusDev).Covers a.port := by unfold Dev.Covers; omega
    have hadr : ((ioPorts nodes).heap .pciAddrDev).Covers a.port := by unfold Dev.Covers; omega
    have hfit : ((ioPorts nodes).heap .pciAddrDev).Fits a.port a.data.length := by
      unfold Dev.Fits; omega
    simp [hbus, hadr, hfit, hp, ha1]
  · have hbus : ((ioPorts nodes).heap .pciBusDev).Covers a.port := by unfold Dev.Covers; omega
    have hfit : ((ioPorts nodes).heap .pciBusDev).Fits a.port a.data.length := by
      unfold Dev.Fits; omega
    simp [hbus, hfit, hp, hd1]

theorem portIo_address (fuel : Nat) (nodes : Heap PciNode) (pci : Pci ι) {a : PortAccess}
    (ha : a.IsAddress) (hf : 2 < fuel) :
    portIo fuel nodes pci a =
      .ok (none, (pciAddressIo pci a.data a.isWrite (a.port - pciConfigAddr)).2) := by
  unfold PortAccess.IsAddress at ha
  unfold portIo
  rw [ioPorts_dispatch nodes a hf, if_pos ha, ok_bind]
  rfl

theorem portIo_data (nodes : Heap PciNode) {pci : Pci ι} {a : PortAccess} (ha : ¬ a.IsAddress)
    {fuel : Nat} (hf : 2 < fuel) {call : Option (ι × Nat)}
    (hc : pciDataIo fuel pci (a.port - pciConfigData) a.data.length = .ok call) :
    portIo fuel nodes pci a = .ok (call, pci) := by
  unfold PortAccess.IsAddress at ha
  unfold portIo
  rw [ioPorts_dispatch nodes a hf, if_neg ha, ok_bind]
  simp only [hc, ok_bind]
  rfl

/-- The low two bits of the latch are zero, as every access to the address port leaves them. -/
def Pci.Latched (pci : Pci ι) : Prop := pci.value % 4 = 0

theorem value_addressIo (pci : Pci ι) (data : List UInt8) (isWrite : Bool) (offset : Nat) :
    (pciAddressIo pci data isWrite offset).2.value =
      clearRegOffset (getLE (if isWrite then patch pci.pciAddr offset data else pci.pciAddr) 0
        4) := by
  have hlt := getLE_lt (if isWrite then patch pci.pciAddr offset data else pci.pciAddr) 0 4
  simp only [Pci.value, pciAddressIo]
  rw [getLE_putLE_same, Nat.mod_eq_of_lt]
  unfold clearRegOffset
  omega

theorem latched_addressIo (pci : Pci ι) (data : List UInt8) (isWrite : Bool) (offset : Nat) :
    (pciAddressIo pci data isWrite offset).2.Latched := by
  unfold Pci.Latched
  rw [value_addressIo]
  unfold clearRegOffset
  omega

theorem slots_addressIo {ds : List ι} {pci : Pci ι} (h : Slots ds pci) (data : List UInt8)
    (isWrite : Bool) (offset : Nat) : Slots ds (pciAddressIo pci data isWrite offset).2 :=
  ⟨h.list, h.devNum, h.base, h.len⟩

theorem pciDataIo_slots {ds : List ι} {pci : Pci ι} (h : Slots ds pci) (hn : ds.length ≤ 32)
    (hl : pci.Latched) {o size fuel : Nat} (h1 : 1 ≤ size) (h2 : o + size ≤ 4) (hf : 32 < fuel) :
    pciDataIo fuel pci o size = .ok (slotCall ds pci.value o) := by
  have hv : pci.value < 2 ^ 32 := getLE_lt _ _ _
  unfold pciDataIo
  by_cases he : enableBit pci.value = 1
  · simp only [if_pos he]
    rw [data_addr hv hl (by omega)]
    exact slots_dispatch h hn he hl h1 h2 hf
  · rw [if_neg he, slotCall, if_neg fun hc => he hc.1]

/-- A data access returns even before the latch was ever set. -/
theorem pciDataIo_total {ds : List ι} {pci : Pci ι} (h : Slots ds pci) (hn : ds.length ≤ 32)
    {o size fuel : Nat} (h1 : 1 ≤ size) (h2 : o + size ≤ 4) (hf : 32 < fuel) :
    ∃ call, pciDataIo fuel pci o size = .ok call := by
  have hw : ∀ d ∈ ds.reverse, (pci.heap d).Window := fun d hd =>
    h.window hn d (List.mem_reverse.mp hd)
  have hlen : ds.reverse.length < fuel := by rw [List.length_reverse]; omega
  unfold pciDataIo
  split
  · exact ⟨_, busHandleIo_eq h.list hw h1 (by omega) hlen⟩
  · exact ⟨none, rfl⟩

theorem PortAccess.data_bound {a : PortAccess} (ha : ¬ a.IsAddress) :
    a.port - pciConfigData + a.data.length ≤ 4 := by
  have hin := a.within
  unfold PortAccess.IsAddress at ha
  unfold pciConfigAddr pciConfigData at *
  omega

/-- One access: it returns, the devices stay where they are, and the latch is aligned once it was
accessed. -/
theorem portIo_keeps {ds : List ι} {pci : Pci ι} (h : Slots ds pci) (hn : ds.length ≤ 32)
    (nodes : Heap PciNode) (a : PortAccess) {fuel : Nat} (hf : 32 < fuel) :
    ∃ call pci', portIo fuel nodes pci a = .ok (call, pci') ∧ Slots ds pci' ∧
      (a.IsAddress ∨ pci.Latched → pci'.Latched) := by
  by_cases ha : a.IsAddress
  · exact ⟨_, _, portIo_address fuel nodes pci ha (by omega), slots_addressIo h _ _ _,
      fun _ => latched_addressIo _ _ _ _⟩
  · obtain ⟨call, hc⟩ := pciDataIo_total h hn a.size_pos (PortAccess.data_bound ha) hf
    exact ⟨call, pci, portIo_data nodes ha (by omega) hc, h, fun hl => hl.resolve_left ha⟩

theorem portsIo_keeps {ds : List ι} (hn : ds.length ≤ 32) (nodes : Heap PciNode) {fuel : Nat}
    (hf : 32 < fuel) (as : List PortAccess) : ∀ {pci : Pci ι}, Slots ds pci →
    ∃ pci', portsIo fuel nodes pci as = .ok pci' ∧ Slots ds pci' ∧
      (pci.Latched → pci'.Latched) := by
  induction as with
  | nil => intro pci h; exact ⟨pci, rfl, h, id⟩
  | cons a as ih =>
    intro pci h
    obtain ⟨call, pci₁, h₁, hs₁, hl₁⟩ := portIo_keeps h hn nodes a hf
    obtain ⟨pci', h', hs', hl'⟩ := ih hs₁
    refine ⟨pci', ?_, hs', fun hl => hl' (hl₁ (.inr hl))⟩
    unfold portsIo
    rw [List.foldlM_cons, h₁]
    exact h'

theorem slotCall_offset {ds : List ι} {v o size : Nat} (h : o + size ≤ 4) {d : ι} {off : Nat}
    (hc : slotCall ds v o = some (d, off)) : off + size ≤ pciCfgSpaceSize := by
  have hreg := regNum_lt v
  unfold slotCall at hc
  split at hc
  · obtain ⟨e, _, he⟩ := Option.map_eq_some_iff.mp hc
    obtain rfl : 4 * regNum v + o = off := congrArg Prod.snd he
    unfold pciCfgSpaceSize
    omega
  · cases hc

/-! ## The memory-mapped window -/

/-- What the guest writes to the address port for the register that holds byte `addr` of the
window. -/
def latchValue (addr : Nat) : Nat := (addr &&& (2 ^ 32 - 1 - 3)) ||| pciAddrEnableBit

theorem latchValue_eq {addr : Nat} (h : addr < pciMmioSize) :
    latchValue addr = 2 ^ 31 + addr / 4 * 4 := by
  unfold pciMmioSize at h
  have hand : addr &&& (2 ^ 32 - 1 - 3) = addr / 4 * 4 :=
    Masks.and_high (n := 32) (k := 2) (by omega) (by decide)
  unfold latchValue pciAddrEnableBit
  rw [hand, Nat.or_comm, Masks.or_low (k := 31) (by decide) (by omega)]

theorem value_latch (pci : Pci ι) {w : PortAccess} {addr : Nat} (h : addr < pciMmioSize)
    (hlen : w.data.length = 4) (hv : leNat w.data = latchValue addr) :
    (pciAddressIo pci w.data true 0).2.value = latchValue addr := by
  rw [value_addressIo]
  have hslice := slice_patch_same pci.pciAddr 0 w.data
  rw [hlen] at hslice
  simp only [if_true, getLE, hslice, hv, clearRegOffset]
  rw [latchValue_eq h]
  omega

/-- **Configuration addressing.** With up to 32 devices registered, in whatever order they were
made, after any sequence of port accesses that starts at the address port, an access at byte `o` of
the data port runs the handler that `slotCall` names and no other, inside the 256 bytes of the
device; and in every state an access to the memory-mapped window is the access to the data port
after its register was latched. -/
theorem pci_config_addressing [DecidableEq ι] (fuel : Nat) (hf : 32 < fuel) (ds : List ι)
    (hnd : ds.Nodup) (hn : ds.length ≤ 32) (latch : Store) (heap : Heap ι) (nodes : Heap PciNode)
    (as : List PortAccess) :
    ∃ pci, portsIo fuel nodes (ds.foldl pciDevRegister (pciInit latch heap)) as = .ok pci ∧
      ((∃ a ∈ as.head?, a.IsAddress) → ∀ b : PortAccess, ¬ b.IsAddress →
        portIo fuel nodes pci b = .ok (slotCall ds pci.value (b.port - pciConfigData), pci) ∧
          ∀ d off, slotCall ds pci.value (b.port - pciConfigData) = some (d, off) →
            off + b.data.length ≤ pciCfgSpaceSize) ∧
      ∀ (addr : Nat) (w b : PortAccess), addr < pciMmioSize → addr % 4 + b.data.length ≤ 4 →
        w.port = pciConfigAddr → w.isWrite = true → w.data.length = 4 →
        leNat w.data = latchValue addr → b.port = pciConfigData + addr % 4 →
        ∃ pci₁ call, portIo fuel nodes pci w = .ok (none, pci₁) ∧
          portIo fuel nodes pci₁ b = .ok (call, pci₁) ∧
          pciMmioIo fuel pci addr b.data.length = .ok call := by
  have h0 : Slots ds (ds.foldl pciDevRegister (pciInit latch heap)) :=
    slots_foldl ds (slots_init latch heap) hnd hn
  obtain ⟨pci, hp, hs, _⟩ := portsIo_keeps hn nodes hf as h0
  refine ⟨pci, hp, ?_, ?_⟩
  · rintro ⟨a, ha, haddr⟩ b hb
    -- the first access aligned the latch, and it has been aligned since
    have hl : pci.Latched := by
      cases as with
      | nil => cases ha
      | cons c as =>
        obtain rfl : c = a := Option.some.inj ha
        obtain ⟨call, pci₁, h₁, hs₁, hl₁⟩ := portIo_keeps h0 hn nodes c hf
        obtain ⟨pci₂, h₂, _, hl₂⟩ := portsIo_keeps hn nodes hf as hs₁
        unfold portsIo at hp h₂
        rw [List.foldlM_cons, h₁] at hp
        obtain rfl : pci₂ = pci := Except.ok.inj (h₂.symm.trans hp)
        exact hl₂ (hl₁ (.inl haddr))
    have hbound := PortAccess.data_bound hb
    exact ⟨portIo_data nodes hb (by omega) (pciDataIo_slots hs hn hl b.size_pos hbound hf),
      fun d off hc => slotCall_offset hbound hc⟩
  · intro addr w b haddr hcross hwp hww hwlen hwv hbp
    have hwa : w.IsAddress := by unfold PortAccess.IsAddress; rw [hwp]; decide
    have hba : ¬ b.IsAddress := by unfold PortAccess.IsAddress; omega
    have hlatch := portIo_address fuel nodes pci hwa (by omega)
    rw [hwp, hww, Nat.sub_self] at hlatch
    have hval := value_latch pci haddr hwlen hwv
    have hs₁ := slots_addressIo hs w.data true 0
    have hl₁ := latched_addressIo pci w.data true 0
    have hdata := pciDataIo_slots hs₁ hn hl₁ b.size_pos hcross hf
    refine ⟨_, slotCall ds (latchValue addr) (addr % 4), hlatch, ?_, ?_⟩
    · refine portIo_data nodes hba (by omega) ?_
      rw [hbp, Nat.add_sub_cancel_left, hdata, hval]
    · have heq := latchValue_eq haddr
      unfold pciMmioSize at haddr
      have h31 : latchValue addr % 2 ^ 31 + addr % 4 = addr := by omega
      have := slots_dispatch hs hn (v := latchValue addr) (o := addr % 4)
        (by unfold enableBit; omega) (by omega) b.size_pos hcross hf
      rwa [h31] at this

end

/-- The guest latches register 4 of slot 1. -/
def latchSlot1 : PortAccess where
  port := 0xCF8
  isWrite := true
  data := [0x10, 0x08, 0x00, 0x80]
  size_pos := by decide
  within := by decide

/-- One byte of the data port. -/
def dataByte1 : PortAccess where
  port := 0xCFD
  isWrite := false
  data := [0]
  size_pos := by decide
  within := by decide

/-- Nodes before `dev_init`. -/
def blankNodes {ν : Type} : Heap ν := fun _ => { base := 0, len := 0, next := none }

theorem pci_config_addressing_slot1 :
    ∃ pci, portsIo 33 blankNodes
        ([false, true].foldl pciDevRegister (pciInit (fun _ => 0xFF) blankNodes)) [latchSlot1] =
          .ok pci ∧
      portIo 33 blankNodes pci dataByte1 = .ok (some (true, 0x11), pci) := by
  obtain ⟨pci, hp, hdata, _⟩ := pci_config_addressing 33 (by decide) [false, true] (by decide)
    (by decide) (fun _ => 0xFF) blankNodes blankNodes [latchSlot1]
  refine ⟨pci, hp, ?_⟩
  have hio := (hdata ⟨latchSlot1, rfl, by unfold PortAccess.IsAddress; decide⟩ dataByte1
    (by unfold PortAccess.IsAddress; decide)).1
  have hl := portIo_address 33 blankNodes
    ([false, true].foldl pciDevRegister (pciInit (fun _ => 0xFF) blankNodes)) (a := latchSlot1)
    (by unfold PortAccess.IsAddress; decide) (by decide)
  unfold portsIo at hp
  rw [List.foldlM_cons, hl] at hp
  obtain rfl := Except.ok.inj hp
  have hv :=
    value_addressIo ([false, true].foldl pciDevRegister (pciInit (fun _ => 0xFF) blankNodes))
    latchSlot1.data latchSlot1.isWrite (latchSlot1.port - pciConfigAddr)
  rw [hv] at hio
  exact hio

end KvmHost
