import KvmHost.AddressMap
import KvmHost.DmaRanges

/-!
# KvmHost.Devices

The machine with its virtio devices.

`Machine` leaves open what the BARs do. Here they are those of virtio devices, which share guest
memory and whose headers are those that the configuration space has, and what the other threads do
is what they can do: the queue threads call `virtq_handle_avail` and arm their events, the guest
stores to its memory, the serial thread works on the UART.

Each device has been studied on its own, as a `VirtioSys`, with an arbitrary environment.
`device_run` says that this was no loss: what a run of the whole machine shows of a device, through
the bus dispatch, the configuration space and guest memory, is a run of the `VirtioSys` that begins
with the device's creation. It holds whatever the guest writes, with BARs on top of each other or
moved while they decode: the pointers of the buses never lead to a node that is not BAR 0 of one of
the devices (`Leads`), so the handler is only ever entered at an offset inside the window.
-/

namespace KvmHost

open ByteStore LinkedList Turns

/-! ## Where the pointers of the buses lead -/

namespace PciSys

variable {ι : Type}

/-- Every pointer of the two buses is to a node of `P`. -/
structure Leads (P : Node ι → Prop) (s : PciSys ι) : Prop where
  head : ∀ io x, (s.bus io).head = some x → P x
  next : ∀ x y, s.heap.next x = some y → P y

variable {P : Node ι → Prop} {s s' : PciSys ι}

theorem Leads.setBus (h : s.Leads P) {io : Bool} {heap : Heap (Node ι)} {bus : Bus (Node ι)}
    (hhead : ∀ x, bus.head = some x → P x) (hnext : ∀ x y, heap.next x = some y → P y) :
    (s.setBus io (heap, bus)).Leads P := by
  refine ⟨fun io' x hx => ?_, fun x y hy => ?_⟩
  · by_cases hio : io' = io
    · subst hio
      rw [bus_setBus_same] at hx
      exact hhead x hx
    · rw [bus_setBus_other _ hio] at hx
      exact h.head io' x hx
  · rw [heap_setBus] at hy
    exact hnext x y hy

variable [DecidableEq ι]

/-- A pointer that is stored is one of those that were there. -/
theorem Leads.setNext (h : s.Leads P) {x : Node ι} {v : Option (Node ι)}
    (hv : ∀ y, v = some y → P y) (z y : Node ι) (hy : (s.heap.setNext x v).next z = some y) :
    P y := by
  rw [Heap.setNext_next] at hy
  by_cases hz : z = x
  · subst hz
    rw [Function.update_self] at hy
    exact hv y hy
  · rw [Function.update_of_ne hz] at hy
    exact h.next z y hy

theorem Leads.register (h : s.Leads P) (io : Bool) {x : Node ι} (hx : P x) :
    (s.setBus io (busRegisterDev s.heap (s.bus io) x)).Leads P :=
  h.setBus (fun y hy => by cases hy; exact hx) (h.setNext (h.head io))

theorem Leads.deregister (h : s.Leads P) {io : Bool} {x : Node ι} {fuel : Nat}
    {hb : Heap (Node ι) × Bus (Node ι)} (hd : busDeregisterDev fuel s.heap (s.bus io) x = .ok hb) :
    (s.setBus io hb).Leads P := by
  unfold busDeregisterDev at hd
  split at hd
  · cases hd
  · rename_i p _
    split at hd
    · cases hd
      exact h.setBus (h.head io) h.next
    · rename_i y _
      cases p with
      | head =>
        cases hd
        exact h.setBus (h.next y) h.next
      | next z =>
        cases hd
        exact h.setBus (h.head io) (h.setNext (h.next y))

theorem Leads.commandBarBody {fuel i : Nat} {d : ι} {enable : Bool → Bool} (h : s.Leads P)
    (hp : (s.dev d).barSize i ≠ 0 → P (.space d i))
    (hb : pciCommandBarBody fuel d enable s i = .ok s') : s'.Leads P := by
  have haddr : s.addrPart d i ≠ 0 → P (.space d i) := by
    refine fun hne => hp fun h0 => hne ?_
    unfold addrPart
    rw [h0, show barMask 0 = 0 by decide, Nat.and_zero]
  unfold pciCommandBarBody at hb
  simp only at hb
  split at hb
  · cases hb
    unfold pciActivateBar
    simp only
    split
    · rename_i hact
      have hreg := h.register ((s.dev d).barIsIoSpace i) (haddr hact.2)
      exact ⟨hreg.head, hreg.next⟩
    · exact ⟨h.head, h.next⟩
  · unfold pciDeactivateBar at hb
    split at hb
    · obtain ⟨hb', hd, hb⟩ := bind_eq_ok.mp hb
      cases hb
      have hdereg := h.deregister hd
      exact ⟨hdereg.head, hdereg.next⟩
    · cases hb
      exact ⟨h.head, h.next⟩

theorem Leads.command {fuel : Nat} {d : ι} {enable : Bool → Bool} (is : List Nat) :
    ∀ {s : PciSys ι}, s.Leads P →
    (∀ i ∈ is, (s.dev d).barSize i ≠ 0 → P (.space d i)) →
    is.foldlM (pciCommandBarBody fuel d enable) s = .ok s' → s'.Leads P := by
  induction is with
  | nil =>
    intro s h _ hf
    cases hf
    exact h
  | cons i is ih =>
    intro s h hp hf
    rw [List.foldlM_cons] at hf
    obtain ⟨s₁, hbody, hf⟩ := bind_eq_ok.mp hf
    have hsize := (commandBarBody_sameRegs hbody).size d
    refine ih (h.commandBarBody (hp i List.mem_cons_self) hbody) (fun j hj hne => ?_) hf
    rw [hsize] at hne
    exact hp j (List.mem_cons_of_mem _ hj) hne

theorem Leads.config {c : ConfigStep ι} (h : c.pre.Leads P)
    (hp : ∀ i < pciStdNumBars, (c.pre.dev c.write.d).barSize i ≠ 0 → P (.space c.write.d i))
    (hret : c.Returns) :
    c.post.Leads P := by
  have hstored : (c.write.stored c.pre).Leads P := ⟨h.head, h.next⟩
  rcases c.returns_cases hret with ⟨hoff, -⟩ | ⟨-, hpost⟩ | ⟨-, hpost⟩ | ⟨-, -, hpost⟩
  · rcases configWrite_cases hret with ⟨-, hfold⟩ | ⟨hne, -⟩
    · refine hstored.command _ (fun i hi hne => ?_) hfold
      rw [(stored_sizes c).1] at hne
      exact hp i (List.mem_range.mp hi) hne
    · exact absurd hoff hne
  · rw [hpost]
    refine ⟨hstored.head, fun x y hy => hstored.next x y ?_⟩
    by_cases hx : x = .space c.write.d c.write.bar
    · subst hx
      simpa [pciConfigBar, Heap.next] using hy
    · simpa [pciConfigBar, Heap.next, Function.update_of_ne hx] using hy
  · rw [hpost]
    exact ⟨hstored.head, hstored.next⟩
  · rw [hpost]
    exact hstored

end PciSys

/-- `bus_find_dev` returns a node that a pointer leads to, and that covers the address as far as its
test can tell. -/
theorem busFindFrom_found {ν : Type} {heap : Heap ν} {P : ν → Prop}
    (hnext : ∀ x y, heap.next x = some y → P y) {addr : Nat} {x : ν} :
    ∀ {fuel : Nat} {p : Option ν}, (∀ y, p = some y → P y) →
      busFindFrom heap addr fuel p = .ok (some x) →
      P x ∧ (heap x).base ≤ addr := by
  intro fuel
  induction fuel with
  | zero => intro p _ h; cases h
  | succ fuel ih =>
    intro p hp h
    cases p with
    | none => cases h
    | some y =>
      simp only [busFindFrom] at h
      split at h
      · rename_i hcov
        cases h
        exact ⟨hp x rfl, hcov.1⟩
      · exact ih (hnext y) h

theorem busHandleIo_offset {ν : Type} {heap : Heap ν} {bus : Bus ν} {fuel addr size off : Nat}
    {x : ν} (h : busHandleIo fuel heap bus addr size = .ok (some (x, off))) : off ≤ addr := by
  obtain ⟨r, -, h⟩ := bind_eq_ok.mp h
  cases r with
  | none => cases h
  | some y =>
    simp only at h
    split at h
    · cases h
      exact Nat.sub_le _ _
    · cases h

/-- The node is BAR 0 of one of `ds`, or no BAR. -/
def Node.OfDevices {ι : Type} (ds : List ι) (x : Node ι) : Prop :=
  ∀ d i, x = .space d i → d ∈ ds ∧ i = 0

/-- What is left of `Mapped` when the guest may write to configuration space as it likes. -/
structure PciSys.Decoded {ι : Type} (ds : List ι) (s : PciSys ι) : Prop where
  leads : s.Leads (Node.OfDevices ds)
  absent : ∀ d, ∀ i < pciStdNumBars, ¬ (d ∈ ds ∧ i = 0) → (s.dev d).barSize i = 0
  len : ∀ d ∈ ds, (s.heap (.space d 0)).len = barWindow
  base : ∀ d ∈ ds, (s.heap (.space d 0)).base < 2 ^ 32

namespace PciSys.Decoded

variable {ι : Type} {ds : List ι} {s : PciSys ι}

theorem config [DecidableEq ι] {c : ConfigStep ι} (h : c.pre.Decoded ds) (hret : c.Returns) :
    c.post.Decoded ds where
  leads := by
    refine h.leads.config (fun i hi hne d j hx => ?_) hret
    cases hx
    exact not_not.mp fun hd => hne (h.absent _ i hi hd)
  absent := by
    intro d i hi hd
    rw [(c.frame hret).size d]
    exact h.absent d i hi hd
  len := by
    intro d hd
    rw [c.len hret]
    exact h.len d hd
  base := by
    intro d hd
    rcases c.returns_cases hret with ⟨-, hregs⟩ | ⟨-, hpost⟩ | ⟨-, hpost⟩ | ⟨-, -, hpost⟩
    · rw [hregs.base]
      exact h.base d hd
    · rw [hpost]
      by_cases hx : Node.space d 0 = .space c.write.d c.write.bar
      · rw [hx]
        simp only [pciConfigBar, Function.update_self]
        exact newBar_lt (c.write.stored c.pre) c.write.d c.write.bar
      · simp only [pciConfigBar, Function.update_of_ne hx]
        exact h.base d hd
    · rw [hpost]
      exact h.base d hd
    · rw [hpost]
      exact h.base d hd

/-- A BAR that the dispatch finds is one of the devices', and the access stays inside it. -/
theorem busHandleIo [DecidableEq ι] (h : s.Decoded ds) (io : Bool) {fuel addr size : Nat} {d : ι}
    {i off : Nat} (h1 : 1 ≤ size) (ha : addr + size ≤ 2 ^ 64)
    (hb : KvmHost.busHandleIo fuel s.heap (s.bus io) addr size = .ok (some (.space d i, off))) :
    d ∈ ds ∧ i = 0 ∧ off + size ≤ barWindow := by
  obtain ⟨r, hfind, hb⟩ := bind_eq_ok.mp hb
  cases r with
  | none => cases hb
  | some x =>
    simp only at hb
    split at hb
    · rename_i hlast
      cases hb
      obtain ⟨hof, hbase⟩ := busFindFrom_found h.leads.next (h.leads.head io) hfind
      obtain ⟨hd, rfl⟩ := hof d i rfl
      have hlen := h.len d hd
      have hlt := h.base d hd
      rw [hlen] at hlast
      unfold barWindow at hlast ⊢
      refine ⟨hd, rfl, ?_⟩
      omega
    · cases hb

end PciSys.Decoded

namespace Machine

variable {ι β : Type} {ds : List ι} {m : Machine ι β} {fuel : Nat}

theorem nodeIo_bar {x : Node ι} {offset size i off : Nat} {d : ι}
    (h : m.nodeIo fuel x offset size = .ok (.bar d i off)) :
    x = .space d i ∧ off = offset := by
  have hconfig : ∀ r : Except Stop (Option (ι × Nat)),
      r.map Target.ofConfig ≠ .ok (.bar d i off) := by
    intro r hr
    cases r with
    | error e => cases hr
    | ok v =>
      cases v with
      | none => cases hr
      | some p => cases hr
  unfold nodeIo at h
  split at h
  · cases h
  · exact absurd h (hconfig _)
  · exact absurd h (hconfig _)
  · cases h
  · cases h
    exact ⟨rfl, rfl⟩
  · cases h

theorem routeIo_bar [DecidableEq ι] (hs : m.sys.Decoded ds) {port size i off : Nat} {d : ι}
    (h1 : 1 ≤ size) (ha : port + size ≤ 2 ^ 64)
    (h : m.routeIo fuel port size = .ok (.bar d i off)) :
    d ∈ ds ∧ i = 0 ∧ off + size ≤ barWindow := by
  obtain ⟨r, hb, h⟩ := bind_eq_ok.mp h
  cases r with
  | none => cases h
  | some p =>
    obtain ⟨x, offset⟩ := p
    obtain ⟨rfl, rfl⟩ := nodeIo_bar h
    exact hs.busHandleIo true h1 ha hb

theorem route_bar [DecidableEq ι] (hs : m.sys.Decoded ds) {a : GuestAccess} {i off : Nat} {d : ι}
    (h : m.route fuel a = .ok (.bar d i off)) :
    d ∈ ds ∧ i = 0 ∧ off + a.data.length ≤ barWindow := by
  unfold route at h
  split at h
  · obtain ⟨r, hb, h⟩ := bind_eq_ok.mp h
    cases r with
    | none => cases h
    | some p =>
      obtain ⟨x, offset⟩ := p
      have hle : offset ≤ a.addr := busHandleIo_offset hb
      have hin := a.inside
      split at h
      · rename_i heq
        cases heq
      · rename_i heq
        cases heq
        exact routeIo_bar hs a.size_pos (show _ + a.data.length ≤ _ by omega) h
      · rename_i heq
        cases heq
        obtain ⟨rfl, rfl⟩ := nodeIo_bar h
        exact hs.busHandleIo false a.size_pos a.inside hb
  · exact routeIo_bar hs a.size_pos a.inside h

end Machine

/-! ## The devices -/

/-- The virtio devices: guest memory, which they share, what the stack holds where
`virtio_blk_complete_request` has its local, and the rest of each. -/
structure VirtioDevs {ι : Type} (kind : ι → VirtioKind) where
  bytes : Store
  stack : Store
  own : (d : ι) → VirtioPciDev (kind d).Backend

def PciStop.stop : PciStop → Stop
  | .handler e => e
  | .smash => .smash
  | _ => .wild

namespace VirtioDevs

variable {ι : Type} {kind : ι → VirtioKind}

/-- Device `d`, with the header that is in the configuration space and the memory that all share. -/
def view (v : VirtioDevs kind) (sys : PciSys ι) (d : ι) : VirtioPciDev (kind d).Backend :=
  { v.own d with
    hdr := (sys.dev d).hdr
    ram := { (v.own d).ram with bytes := v.bytes } }

theorem view_eq {v : VirtioDevs kind} {sys : PciSys ι} {d : ι} {dev : VirtioPciDev (kind d).Backend}
    (hown : v.own d = dev) (hhdr : (sys.dev d).hdr = dev.hdr) (hbytes : v.bytes = dev.ram.bytes) :
    v.view sys d = dev := by
  rw [view, hown, hhdr, hbytes]

variable [DecidableEq ι]

def put (v : VirtioDevs kind) (d : ι) (dev : VirtioPciDev (kind d).Backend) : VirtioDevs kind :=
  { v with
    bytes := dev.ram.bytes
    own := Function.update v.own d dev }

/-- `virtio_pci_space_io`, which is the `do_io` of BAR 0; the other BARs have none. -/
def barIo (reqFuel : Nat) : BarIo ι (VirtioDevs kind) := fun sys d bar v isWrite offset data =>
  if bar = 0 then
    let r :=
      if isWrite then (data, virtioPciSpaceWrite ((kind d).ops reqFuel v.stack)
        (v.view sys d) offset data)
      else virtioPciSpaceRead (v.view sys d) offset data.length
    match r.2.stop with
    | none => .ok (v.put d r.2.dev, r.1)
    | some e => .error e.stop
  else .error .null

theorem view_put_other (v : VirtioDevs kind) (sys : PciSys ι) {d e : ι} (h : d ≠ e)
    (dev : VirtioPciDev (kind e).Backend) :
    (v.put e dev).view sys d =
      { v.view sys d with ram := { (v.view sys d).ram with bytes := dev.ram.bytes } } := by
  simp only [view, put, Function.update_of_ne h]

end VirtioDevs

/-! ## The machine's events -/

inductive BoardEvent (ι : Type) where
  | access (a : GuestAccess)
  /-- the guest stores to its memory -/
  | memory (m : Store)
  /-- the thread of queue `q` of device `d` calls `virtq_handle_avail` -/
  | handle (d : ι) (q fuel : Nat) (req : Store)
  /-- that of a network queue writes `guest_event->flags` before it polls -/
  | arm (d : ι) (q : Nat)
  | uart (serial : SerialDev)
  | stack (s : Store)

abbrev Board {ι : Type} (kind : ι → VirtioKind) := Machine ι (VirtioDevs kind)

theorem access_ne_header (a : Access) (fuel : Nat) (req hdr : Store) :
    Event.access a fuel req ≠ .header hdr := nofun

theorem handle_ne_header (q fuel : Nat) (req hdr : Store) : Event.handle q fuel req ≠ .header hdr :=
  nofun

theorem memory_ne_header (m hdr : Store) : Event.memory m ≠ .header hdr := nofun

namespace Board

variable {ι : Type} [DecidableEq ι] {kind : ι → VirtioKind}

def view (b : Board kind) (d : ι) : VirtioSys (kind d) ι := ⟨b.sys, b.devs.view b.sys d⟩

/-- The event, as the buses know it. -/
def machineEvent (b : Board kind) : BoardEvent ι → Option (MachineEvent (VirtioDevs kind))
  | .access a => some (.access a)
  | .memory m => some (.others b.serial { b.devs with bytes := m })
  | .handle d q fuel req =>
    ((kind d).next (b.view d).dev (.handle q fuel req)).map fun dev =>
      .others b.serial (b.devs.put d dev)
  | .arm d q =>
    ((kind d).dmaNext (b.view d).dev (.arm q)).map fun dev => .others b.serial (b.devs.put d dev)
  | .uart serial => some (.others serial b.devs)
  | .stack s => some (.others b.serial { b.devs with stack := s })

variable (busFuel reqFuel : Nat)

def next (b : Board kind) (e : BoardEvent ι) : Option (Board kind) :=
  (b.machineEvent e).bind (Machine.next (VirtioDevs.barIo reqFuel) busFuel b)

/-- What is seen where only guest memory changes. -/
def memoryAfter (b : Board kind) (e : BoardEvent ι) : Option (GuestEvent ι) :=
  (b.next busFuel reqFuel e).map fun b' => .device (.memory b'.devs.bytes) (memory_ne_header _)

/-- What device `d` sees of an access whose handler is that of `t`. -/
def shownAccess (d : ι) (b : Board kind) (a : GuestAccess) : Target ι → Option (GuestEvent ι)
  | .config e offset => if a.isWrite then some (.config ⟨e, offset, a.data⟩ busFuel) else none
  | .bar e _ offset =>
    if e = d then
      if h : offset + a.data.length ≤ barWindow then
        some (.device (.access ⟨a.isWrite, offset, a.data, a.size_pos, a.size_le, h⟩ reqFuel
          b.devs.stack) (access_ne_header _ _ _))
      else none
    else b.memoryAfter busFuel reqFuel (.access a)
  | _ => none

/-- What device `d` sees of a turn. -/
def shown (d : ι) : Board kind × BoardEvent ι → Option (GuestEvent ι)
  | (b, .access a) => (b.route busFuel a).toOption.bind (shownAccess busFuel reqFuel d b a)
  | (_, .memory m) => some (.device (.memory m) (memory_ne_header _))
  | (b, .handle e q fuel req) =>
    if e = d then some (.device (.handle q fuel req) (handle_ne_header _ _ _))
    else b.memoryAfter busFuel reqFuel (.handle e q fuel req)
  | (b, .arm e q) => b.memoryAfter busFuel reqFuel (.arm e q)
  | (_, .uart _) => none
  | (_, .stack _) => none

/-! ## One turn -/

variable {busFuel reqFuel} {b b' : Board kind} {d : ι}

/-- An access that returns from BAR 0 is a turn of the device. -/
theorem barIo_next {sys : PciSys ι} {bar offset : Nat} {v v' : VirtioDevs kind} {isWrite : Bool}
    {data data' : List UInt8} (h1 : 1 ≤ data.length) (h8 : data.length ≤ 8)
    (hwin : offset + data.length ≤ barWindow)
    (h : VirtioDevs.barIo reqFuel sys d bar v isWrite offset data = .ok (v', data')) :
    ∃ dev, (kind d).next (v.view sys d)
      (.access ⟨isWrite, offset, data, h1, h8, hwin⟩ reqFuel v.stack) = some dev ∧
      v' = v.put d dev := by
  unfold VirtioDevs.barIo at h
  split at h
  · simp only at h
    split at h
    · rename_i hstop
      cases h
      have hnext : (kind d).next (v.view sys d)
          (.access ⟨isWrite, offset, data, h1, h8, hwin⟩ reqFuel v.stack) =
          some ((kind d).step (v.view sys d)
            (.access ⟨isWrite, offset, data, h1, h8, hwin⟩ reqFuel v.stack)).dev := by
        unfold VirtioKind.next
        split
        · rfl
        · rename_i e he
          cases isWrite <;> exact absurd (hstop.symm.trans he) nofun
      refine ⟨_, hnext, ?_⟩
      cases isWrite <;> rfl
    · cases h
  · cases h

theorem view_put {dev : VirtioPciDev (kind d).Backend} (hhdr : dev.hdr = (b.sys.dev d).hdr)
    (hsys : b'.sys = b.sys) (hdevs : b'.devs = b.devs.put d dev) : b'.view d = ⟨b.sys, dev⟩ := by
  rw [view, hsys, hdevs, VirtioDevs.view_eq (Function.update_self d dev b.devs.own) hhdr.symm rfl]

/-- The turns of a device's own handler show as they are. -/
theorem shown_own {ev : Event} (hev : ∀ hdr, ev ≠ .header hdr) {dev : VirtioPciDev (kind d).Backend}
    (h : (kind d).next (b.view d).dev ev = some dev) (hsys : b'.sys = b.sys)
    (hdevs : b'.devs = b.devs.put d dev) :
    (b.view d).next d (.device ev hev) = some (b'.view d) := by
  have hhdr : dev.hdr = (b.sys.dev d).hdr := by
    rw [← VirtioKind.next_eq h, step_hdr _ hev]
    rfl
  rw [view_put hhdr hsys hdevs, VirtioSys.next, h]
  rfl

/-- The turns of the other devices show as stores to guest memory. -/
theorem shown_other {e : ι} (hne : d ≠ e) {dev : VirtioPciDev (kind e).Backend}
    (hsys : b'.sys = b.sys) (hdevs : b'.devs = b.devs.put e dev) :
    (b.view d).next d (.device (.memory b'.devs.bytes) (memory_ne_header _)) =
      some (b'.view d) := by
  rw [view, view, hsys, hdevs, b.devs.view_put_other b.sys hne]
  rfl

omit [DecidableEq ι] in
/-- Arming the events is a store to guest memory and nothing else. -/
theorem arm_dev {k : VirtioKind} {dev dev' : VirtioPciDev k.Backend} {q : Nat}
    (h : k.dmaNext dev (.arm q) = some dev') :
    dev' = { dev with ram := { dev.ram with bytes := dev'.ram.bytes } } := by
  have hstore {d : VqDev k.Backend} (hd : enableGuestEvent (dev.vqDev q) = .ok d) :
      dev.putVqDev q d = { dev with ram := { dev.ram with bytes := d.ram.bytes } } := by
    obtain ⟨ram, hram, hd⟩ := bind_eq_ok.mp hd
    cases hd
    have hbase : ram.base = dev.ram.base := (Ram.write_changed hram (Nat.le_refl _)).base
    simp only [VirtioPciDev.putVqDev, VirtioPciDev.setVq, VirtioPciDev.vqDev,
      Function.update_eq_self, ← hbase]
    rw [VirtioPciDev.isrStatus, putLE_getLE]
  unfold VirtioKind.dmaNext VirtioKind.dmaStep at h
  split at h
  · cases h
    simp only
    split
    · split
      · rename_i d hd
        simp only [Outcome.done]
        rw [hstore hd]
      · rfl
    · rfl
  · cases h

theorem shown_arm {q : Nat} {dev : VirtioPciDev (kind d).Backend}
    (h : (kind d).dmaNext (b.view d).dev (.arm q) = some dev) (hsys : b'.sys = b.sys)
    (hdevs : b'.devs = b.devs.put d dev) :
    (b.view d).next d (.device (.memory b'.devs.bytes) (memory_ne_header _)) =
      some (b'.view d) := by
  have hdev := arm_dev h
  have hhdr : dev.hdr = (b.sys.dev d).hdr := by
    rw [hdev]
    rfl
  rw [view_put hhdr hsys hdevs, hdevs]
  exact congrArg (some ∘ VirtioSys.mk b.sys) hdev.symm

/-- **One turn** shows as a turn of the device, or does not show. -/
theorem next_shown {ds : List ι} (hs : b.sys.Decoded ds) {e : BoardEvent ι}
    (hn : b.next busFuel reqFuel e = some b') :
    (shown busFuel reqFuel d (b, e)).elim (b'.view d = b.view d) fun g =>
      (b.view d).next d g = some (b'.view d) := by
  cases e with
  | access a =>
    obtain ⟨t, data, hroute, hact⟩ := Machine.next_access hn
    rw [shown, hroute]
    show (shownAccess busFuel reqFuel d b a t).elim _ _
    cases t with
    | nobody => cases hact; rfl
    | latch off => cases hact; rfl
    | serial off => cases hact; rfl
    | config e off =>
      cases hw : a.isWrite with
      | false =>
        rw [shownAccess, hw]
        rw [hw] at hact
        cases hact
        rfl
      | true =>
        rw [shownAccess, hw]
        rw [hw] at hact
        obtain ⟨sys, hsys, hact⟩ := bind_eq_ok.mp hact
        cases hact
        exact VirtioSys.next_config.mpr ⟨sys, hsys, rfl⟩
    | bar e i off =>
      obtain ⟨⟨devs, data'⟩, hbar, hact⟩ := bind_eq_ok.mp hact
      cases hact
      obtain ⟨-, -, hwin⟩ := Machine.route_bar hs hroute
      obtain ⟨dev, hdev, hput⟩ := barIo_next a.size_pos a.size_le hwin hbar
      by_cases he : e = d
      · subst he
        rw [shownAccess, if_pos rfl, dif_pos hwin]
        exact shown_own _ hdev rfl hput
      · rw [shownAccess, if_neg he, memoryAfter, hn]
        exact shown_other (Ne.symm he) rfl hput
  | memory m =>
    cases hn
    rfl
  | handle e q fuel req =>
    obtain ⟨ev, hev, hnext⟩ := Option.bind_eq_some_iff.mp hn
    obtain ⟨dev, hdev, rfl⟩ := Option.map_eq_some_iff.mp hev
    cases hnext
    by_cases he : e = d
    · subst he
      rw [shown, if_pos rfl]
      exact shown_own _ hdev rfl rfl
    · rw [shown, if_neg he, memoryAfter, hn]
      exact shown_other (Ne.symm he) rfl rfl
  | arm e q =>
    obtain ⟨ev, hev, hnext⟩ := Option.bind_eq_some_iff.mp hn
    obtain ⟨dev, hdev, rfl⟩ := Option.map_eq_some_iff.mp hev
    cases hnext
    rw [shown, memoryAfter, hn]
    by_cases he : e = d
    · subst he
      exact shown_arm hdev rfl rfl
    · exact shown_other (Ne.symm he) rfl rfl
  | uart serial =>
    cases hn
    rfl
  | stack s =>
    cases hn
    rfl

theorem next_decoded {ds : List ι} (hs : b.sys.Decoded ds) {e : BoardEvent ι}
    (hn : b.next busFuel reqFuel e = some b') :
    b'.sys.Decoded ds := by
  obtain ⟨ev, -, hnext⟩ := Option.bind_eq_some_iff.mp hn
  rcases Machine.next_cases hnext with ⟨hsys, -⟩ | ⟨-, -, -, hsys, -⟩ | ⟨c, hmakes, hpost, -⟩
  · rw [hsys]; exact hs
  · rw [hsys]; exact hs
  · rw [← hpost]
    refine PciSys.Decoded.config ?_ hmakes.returns
    rw [hmakes.pre]
    exact hs

/-! ## Runs -/

variable {arch : Arch} {ds : List ι} {host : (d : ι) → Host (kind d).Backend}

omit [DecidableEq ι] in
theorem decoded_of_mapped {s : PciSys ι} (h : s.Fresh arch) (hm : s.Mapped arch ds) :
    s.Decoded ds where
  leads := by
    refine ⟨fun io x hx => ?_, fun x y hy => ?_⟩
    · obtain ⟨k, rfl⟩ := h.ownKind.1 io x hx
      exact nofun
    · cases x with
      | space d i => rw [h.single] at hy; cases hy
      | other io k =>
        obtain ⟨k', rfl⟩ := h.kinds io k y hy
        exact nofun
  absent := hm.devices.absent
  len d hd := (hm.devices.present d hd).2
  base d hd := by
    rw [(hm.bar_base hd).1]
    exact getLE_lt _ _ _

/-- What `virtio_pci_init` makes of a PCI device. -/
def newPciDev {k : VirtioKind} (host : Host k.Backend) : PciDev where
  hdr := (k.initPci host).hdr
  barSize i := if i = 0 then barWindow else 0
  barActive _ := false
  barIsIoSpace _ := false

omit [DecidableEq ι] in
def newNode (i : Nat) : Dev (Node ι) := ⟨0, if i = 0 then barWindow else 0, none⟩

theorem create_dev (s : PciSys ι) (d : ι) {k : VirtioKind} (host : Host k.Backend) :
    (VirtioSys.create d s host).pci.dev = Function.update s.dev d (newPciDev host) := by
  funext e
  by_cases he : e = d
  · subst he
    simp only [VirtioSys.create, PciSys.setHdr, PciSys.setDev, Function.update_self, dev_pciSetBar,
      pciDevInit]
    unfold newPciDev
    congr 1
    · funext i
      by_cases hi : i = 0
      · rw [hi, Function.update_self, if_pos rfl]
      · rw [Function.update_of_ne hi, if_neg hi]
    · exact Function.update_eq_self 0 (fun _ => false)
  · simp [VirtioSys.create, PciSys.setHdr, PciSys.setDev, pciSetBar, pciDevInit,
      Function.update_of_ne he]

theorem create_space (s : PciSys ι) (d e : ι) {k : VirtioKind} (host : Host k.Backend) (i : Nat) :
    (VirtioSys.create d s host).pci.heap (.space e i) = if e = d then newNode i
      else s.heap (.space e i) := by
  simp only [VirtioSys.create, PciSys.setHdr, PciSys.heap_setDev, pciSetBar, devInit]
  by_cases he : e = d
  · subst he
    by_cases hi : i = 0
    · subst hi
      rw [Function.update_self, if_pos rfl]
      rfl
    · rw [Function.update_of_ne (fun h => hi (by cases h; rfl))]
      simp only [pciDevInit, if_pos, newNode, if_neg hi]
  · rw [Function.update_of_ne (fun h => he (by cases h; rfl))]
    simp only [pciDevInit, if_neg he]

theorem create_other (s : PciSys ι) (d : ι) {k : VirtioKind} (host : Host k.Backend) (io : Bool)
    (j : Nat) :
    (VirtioSys.create d s host).pci.heap (.other io j) = s.heap (.other io j) := rfl

/-- The devices `ds` are as their creation left them. -/
def New (host : (d : ι) → Host (kind d).Backend) (ds : List ι) (s : PciSys ι) : Prop :=
  ∀ d ∈ ds, s.dev d = newPciDev (host d) ∧ ∀ i, s.heap (.space d i) = newNode i

theorem New.create {s : PciSys ι} (h : New host ds s) (d : ι) :
    New host (ds ++ [d]) (VirtioSys.create d s (host d)).pci := by
  intro e he
  rw [create_dev]
  by_cases hed : e = d
  · subst hed
    exact ⟨Function.update_self _ _ _, fun i => by rw [create_space, if_pos rfl]⟩
  · have hds : e ∈ ds :=
      (List.mem_append.mp he).resolve_right fun hm => hed (List.mem_singleton.mp hm)
    refine ⟨(Function.update_of_ne hed _ _).trans (h e hds).1, fun i => ?_⟩
    rw [create_space, if_neg hed]
    exact (h e hds).2 i

/-- Creating a device once more, with nothing done to it since, changes nothing. -/
theorem New.again {s : PciSys ι} (h : New host ds s) {d : ι} (hd : d ∈ ds) :
    (VirtioSys.create d s (host d)).pci = s := by
  have hdev : (VirtioSys.create d s (host d)).pci.dev = s.dev := by
    rw [create_dev, ← (h d hd).1]
    exact Function.update_eq_self d s.dev
  have hheap : (VirtioSys.create d s (host d)).pci.heap = s.heap := by
    funext x
    cases x with
    | other io j => rw [create_other]
    | space e i =>
      rw [create_space]
      by_cases he : e = d
      · rw [if_pos he, he]
        exact ((h d hd).2 i).symm
      · rw [if_neg he]
  calc (VirtioSys.create d s (host d)).pci = ⟨(VirtioSys.create d s (host d)).pci.dev,
        (VirtioSys.create d s (host d)).pci.heap, s.ioBus, s.mmioBus⟩ := rfl
    _ = s := by rw [hdev, hheap]

theorem attach_new {β : Type} (ds : List ι) : ∀ {es : List ι} {m : Machine ι β}, New host es m.sys →
    New host (es ++ ds) (ds.foldl (Machine.attach kind host) m).sys := by
  induction ds with
  | nil =>
    intro es m h
    rw [List.append_nil]
    exact h
  | cons d ds ih =>
    intro es m h
    rw [List.append_cons]
    exact ih (h.create d)

/-- The machine when `vm_run` is called: the devices are new, and share the guest memory `bytes`. -/
def boot (arch : Arch) (ds : List ι) (host : (d : ι) → Host (kind d).Backend) (latch : Store)
    (heap : Heap ι) (bytes stack : Store) : Board kind :=
  Machine.boot arch ds kind host latch heap ⟨bytes, stack, fun d => (kind d).initPci (host d)⟩

section Boot

variable {latch : Store} {heap : Heap ι} {bytes stack : Store}

omit [DecidableEq ι] in
theorem initPci_ram {k : VirtioKind} (host : Host k.Backend) : (k.initPci host).ram = host.ram := by
  cases k <;> rfl

theorem attach_devs {β : Type} (ds : List ι) :
    ∀ m : Machine ι β, (ds.foldl (Machine.attach kind host) m).devs = m.devs := by
  induction ds with
  | nil => exact fun _ => rfl
  | cons d ds ih => exact fun m => ih (m.attach kind host d)

theorem boot_devs :
    (boot arch ds host latch heap bytes stack).devs =
      ⟨bytes, stack, fun d => (kind d).initPci (host d)⟩ :=
  attach_devs ds _

theorem boot_view (hd : d ∈ ds) (hram : (host d).ram.bytes = bytes) :
    (boot arch ds host latch heap bytes stack).view d =
      VirtioSys.create d (boot arch ds host latch heap bytes stack).sys (host d) := by
  have hnew : New host ([] ++ ds) (boot arch ds host latch heap bytes stack).sys :=
    attach_new ds fun e he => absurd he List.not_mem_nil
  have hinit : ((kind d).initPci (host d)).ram = (host d).ram := initPci_ram (host d)
  have hdev : (boot arch ds host latch heap bytes stack).devs.view
      (boot arch ds host latch heap bytes stack).sys d =
      (kind d).initPci (host d) := by
    rw [boot_devs]
    refine VirtioDevs.view_eq rfl ?_ ?_
    · rw [(hnew d hd).1]
      rfl
    · rw [hinit, hram]
  calc (boot arch ds host latch heap bytes stack).view d
      = ⟨(boot arch ds host latch heap bytes stack).sys, (kind d).initPci (host d)⟩ := by
        rw [view, hdev]
    _ = ⟨(VirtioSys.create d (boot arch ds host latch heap bytes stack).sys (host d)).pci,
      (kind d).initPci (host d)⟩ := by
        rw [hnew.again hd]

theorem boot_decoded (hnd : ds.Nodup) :
    (boot arch ds host latch heap bytes stack).sys.Decoded ds := by
  have hfresh : (boot arch ds host latch heap bytes stack).sys.Fresh arch :=
    Machine.attach_fresh ds (fresh_platform arch)
  have hdevs : (boot arch ds host latch heap bytes stack).sys.Devices ([] ++ ds) :=
    attach_devices ds (devices_platform arch) hnd
  exact decoded_of_mapped hfresh (hfresh.mapped hdevs)

end Boot

/-- **The devices of the machine.** What a run of the machine shows of a device is a run of that
device from its creation on, in the environment it has been studied in. A handler call and an access
are single steps of both. Both runs end at an access or a call that stops: one that leaves guest
memory or the device configuration or follows an overwritten pointer, from which the program may
come back. -/
theorem device_run (arch : Arch) (ds : List ι) (hnd : ds.Nodup) (kind : ι → VirtioKind)
    (host : (d : ι) → Host (kind d).Backend) (latch : Store) (heap : Heap ι) (bytes stack : Store)
    (busFuel reqFuel : Nat) (d : ι) (hd : d ∈ ds) (hram : (host d).ram.bytes = bytes)
    (es : List (BoardEvent ι)) :
    turns (VirtioSys.next d)
        (VirtioSys.create d (boot arch ds host latch heap bytes stack).sys (host d))
        ((turns (Board.next busFuel reqFuel)
          (boot arch ds host latch heap bytes stack) es).filterMap (shown busFuel reqFuel d)) =
      (turns (Board.next busFuel reqFuel) (boot arch ds host latch heap bytes stack) es).filterMap
        fun t => (shown busFuel reqFuel d t).map (t.1.view d, ·) := by
  rw [← boot_view hd hram]
  exact turns_view (I := fun b : Board kind => b.sys.Decoded ds)
    (fun b e b' hb hn => next_decoded hb hn)
    (fun b e b' hb hn => next_shown hb hn) (boot_decoded hnd)

/-- A disk and a network card, as on x86. -/
def cardKind : Bool → VirtioKind
  | false => .blk
  | true => .net

def cardHost : (d : Bool) → Host (cardKind d).Backend
  | false => blkHost
  | true => netHost

def twoCards : Board cardKind :=
  boot .x86 [false, true] cardHost (fun _ => 0xFF) blankNodes (fun _ => 0) (fun _ => 0)

/-- The guest writes to I/O ports. -/
def portWrite (addr : Nat) (data : List UInt8)
    (h : 1 ≤ data.length ∧ data.length ≤ 8 ∧ addr + data.length ≤ 2 ^ 64) : GuestAccess :=
  .of false addr true data h

/-- The guest writes 1 to `queue_select` of the card whose BAR is at 0xFE000000. -/
def selectQueue : GuestAccess where
  mmio := true
  addr := 0xFE000016
  isWrite := true
  data := [0x01, 0x00]
  size_pos := by decide
  size_le := by decide
  inside := by decide

/-- The guest places BAR 0 of the network card, in slot 1, switches decoding on, and selects a
queue. -/
def selecting : List (BoardEvent Bool) :=
  [.access (portWrite 0xCF8 [0x10, 0x08, 0x00, 0x80] (by decide)),
    .access (portWrite 0xCFC [0x00, 0x00, 0x00, 0xFE] (by decide)),
    .access (portWrite 0xCF8 [0x04, 0x08, 0x00, 0x80] (by decide)),
    .access (portWrite 0xCFC [0x02, 0x00] (by decide)), .access selectQueue, .memory (fun _ => 1)]

theorem device_run_select :
    (turns (VirtioSys.next true) (VirtioSys.create true twoCards.sys (cardHost true))
        ((turns (Board.next 35 0) twoCards selecting).filterMap (shown 35 0 true))).map
          (·.1.dev.queueSelect) = [0, 0, 0, 1] ∧
    (turns (VirtioSys.next false) (VirtioSys.create false twoCards.sys (cardHost false))
        ((turns (Board.next 35 0) twoCards selecting).filterMap (shown 35 0 false))).map
          (·.1.dev.queueSelect) = [0, 0, 0, 0] := by
  have hrun := device_run .x86 [false, true] (by decide) cardKind cardHost (fun _ => 0xFF)
    blankNodes (fun _ => 0) (fun _ => 0) 35 0
  constructor
  · refine (congrArg (List.map (·.1.dev.queueSelect)) (hrun true (by decide) rfl selecting)).trans
      ?_
    decide +kernel
  · refine (congrArg (List.map (·.1.dev.queueSelect)) (hrun false (by decide) rfl selecting)).trans
      ?_
    decide +kernel

end Board

end KvmHost
