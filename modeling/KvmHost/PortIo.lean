import KvmHost.Bus
import KvmHost.Serial

/-!
# KvmHost.PortIo

Port I/O exits (`vm_handle_io` in `vm.c`).

A `KVM_EXIT_IO` is `count` accesses of `size` bytes each to one port, with the elements one after
the other in the shared page: a `rep outs` or `rep ins` is one exit. `IoMachine` is what is behind
the I/O bus; `wanted` lists the accesses of an exit, `made` those that the loop makes. The loop
moves the address and not the data, so the two agree for one element only, and `port_io_repeat`
shows that no other exit is handled right on every machine.
-/

namespace KvmHost

open ByteStore

/-- The devices on the I/O bus. -/
structure IoMachine (ν σ : Type) where
  heap : σ → Heap ν
  ioBus : σ → Bus ν
  /-- `do_io` of a node: the shared page, where `data` points in it, `is_write`, `offset` and
  `size` -/
  doIo : ν → σ → Store → Nat → Bool → Nat → Nat → Except Stop (σ × Store)

/-- `run->io`; `isOut` says that `direction` is `KVM_EXIT_IO_OUT`. -/
structure KvmRunIo where
  isOut : Bool
  size : Nat
  port : Nat
  count : Nat
  dataOffset : Nat
  size_lt : size < 2 ^ 8
  port_lt : port < 2 ^ 16

/-- An access to the I/O bus: its address, and where its bytes are in the shared page. -/
structure IoElement where
  addr : Nat
  data : Nat
deriving DecidableEq

namespace KvmRunIo

/-- The accesses that the exit stands for. -/
def wanted (run : KvmRunIo) : List IoElement :=
  (List.range run.count).map fun i => ⟨run.port, run.dataOffset + i * run.size⟩

/-- The accesses that `vm_handle_io` makes. -/
def made (run : KvmRunIo) : List IoElement :=
  (List.range run.count).map fun i => ⟨(run.port + i * run.size) % 2 ^ 64, run.dataOffset⟩

/-- Already the second address differs. -/
theorem made_addr (run : KvmRunIo)
    (h : run.made.map IoElement.addr = run.wanted.map IoElement.addr) :
    run.count ≤ 1 ∨ run.size = 0 := by
  have hport := run.port_lt
  have hsize := run.size_lt
  by_contra hn
  obtain ⟨hcount, hpos⟩ := not_or.mp hn
  have hsecond := congrArg (fun as => as[1]?) h
  simp only [made, wanted, List.getElem?_map, List.getElem?_range (Nat.lt_of_not_le hcount),
    Option.map_some, Option.some.injEq] at hsecond
  omega

theorem made_eq_wanted (run : KvmRunIo) : run.made = run.wanted ↔ run.count ≤ 1 ∨ run.size = 0 := by
  constructor
  · intro h
    exact run.made_addr (by rw [h])
  · intro h
    refine List.map_congr_left ?_
    intro i hi
    have hzero : i * run.size = 0 := by
      rcases h with h | h
      · rw [List.mem_range] at hi
        rw [show i = 0 by omega, Nat.zero_mul]
      · rw [h, Nat.mul_zero]
    have hport := run.port_lt
    rw [hzero, Nat.add_zero, Nat.add_zero, Nat.mod_eq_of_lt (by omega)]

end KvmRunIo

section

variable {ν σ : Type} (M : IoMachine ν σ) (fuel : Nat) (run : KvmRunIo)

/-- `bus_handle_io(&v->io_bus, data, is_write, addr, run->io.size)` -/
def handlePort (s : σ × Store) (a : IoElement) : Except Stop (σ × Store) := do
  match ← busHandleIo fuel (M.heap s.1) (M.ioBus s.1) a.addr run.size with
  | none => return s
  | some (x, offset) => M.doIo x s.1 s.2 a.data run.isOut offset run.size

/-- The loop of `vm_handle_io`, with `n` turns to go. -/
def vmHandleIoLoop : Nat → Nat → σ × Store → Except Stop (σ × Store)
  | 0, _, s => .ok s
  | n + 1, addr, s => do
    let s ← handlePort M fuel run s ⟨addr, run.dataOffset⟩
    vmHandleIoLoop n ((addr + run.size) % 2 ^ 64) s

def vmHandleIo (s : σ × Store) : Except Stop (σ × Store) :=
  vmHandleIoLoop M fuel run run.count run.port s

theorem vmHandleIoLoop_eq (n : Nat) :
    ∀ {addr : Nat} (s : σ × Store), addr < 2 ^ 64 →
    vmHandleIoLoop M fuel run n addr s =
      ((List.range n).map fun i =>
        (⟨(addr + i * run.size) % 2 ^ 64, run.dataOffset⟩ : IoElement)).foldlM
        (handlePort M fuel run) s := by
  induction n with
  | zero =>
    intro addr s _
    rfl
  | succ n ih =>
    intro addr s hlt
    have hfirst : (addr + 0 * run.size) % 2 ^ 64 = addr := by
      rw [Nat.zero_mul, Nat.add_zero, Nat.mod_eq_of_lt hlt]
    have hrest : ∀ i, ((addr + run.size) % 2 ^ 64 + i * run.size) % 2 ^ 64 =
        (addr + (i + 1) * run.size) % 2 ^ 64 := by
      intro i
      rw [Nat.mod_add_mod, Nat.add_mul, Nat.one_mul, Nat.add_assoc, Nat.add_comm run.size]
    rw [List.range_succ_eq_map, List.map_cons, List.foldlM_cons, hfirst, vmHandleIoLoop,
      List.map_map]
    refine bind_congr fun s₁ => ?_
    rw [ih s₁ (Nat.mod_lt _ (Nat.two_pow_pos 64))]
    simp only [hrest]
    rfl

theorem vmHandleIo_made (s : σ × Store) :
    vmHandleIo M fuel run s = run.made.foldlM (handlePort M fuel run) s :=
  vmHandleIoLoop_eq M fuel run run.count s (Nat.lt_trans run.port_lt (by decide))

end

/-! ## Every machine -/

theorem busHandleIo_found {ν : Type} {fuel : Nat} {heap : Heap ν} {bus : Bus ν} {addr size : Nat}
    {x : ν} (hfind : busFindDev fuel heap bus addr = .ok (some x))
    (hend : (addr + size + 2 ^ 64 - 1) % 2 ^ 64 ≤
      ((heap x).base + (heap x).len + 2 ^ 64 - 1) % 2 ^ 64) :
    busHandleIo fuel heap bus addr size = .ok (some (x, addr - (heap x).base)) := by
  unfold busHandleIo
  rw [hfind, ok_bind]
  simp only
  rw [if_pos hend]
  rfl

/-- One node that takes every address and writes it down. -/
def recorder : IoMachine Unit (List Nat) where
  heap _ _ := ⟨0, 0, none⟩
  ioBus _ := ⟨1, some ()⟩
  doIo _ seen page _ _ offset _ := .ok (seen ++ [offset], page)

theorem recorder_run (run : KvmRunIo) (as : List IoElement) :
    ∀ (seen : List Nat) (page : Store), (∀ a ∈ as, a.addr < 2 ^ 64) →
      as.foldlM (handlePort recorder 1 run) (seen, page) =
        .ok (seen ++ as.map IoElement.addr, page) := by
  induction as with
  | nil =>
    intro seen page _
    rw [List.map_nil, List.append_nil]
    rfl
  | cons a as ih =>
    intro seen page h
    obtain ⟨ha, has⟩ := List.forall_mem_cons.mp h
    have hstep : handlePort recorder 1 run (seen, page) a = .ok (seen ++ [a.addr], page) := by
      have hlast : a.addr ≤ (0 + 0 + 2 ^ 64 - 1) % 2 ^ 64 := by omega
      have hfind : busFindDev 1 (recorder.heap seen) (recorder.ioBus seen) a.addr = .ok (some ()) :=
        if_pos ⟨Nat.zero_le _, hlast⟩
      have hend : (a.addr + run.size + 2 ^ 64 - 1) % 2 ^ 64 ≤ (0 + 0 + 2 ^ 64 - 1) % 2 ^ 64 := by
        omega
      have hio : busHandleIo 1 (recorder.heap seen) (recorder.ioBus seen) a.addr run.size =
          .ok (some ((), a.addr)) := busHandleIo_found hfind hend
      unfold handlePort
      rw [hio]
      rfl
    rw [List.foldlM_cons, hstep]
    refine (ih (seen ++ [a.addr]) page has).trans ?_
    rw [List.append_assoc]
    rfl

/-- **Repeated port I/O.** `vm_handle_io` makes the accesses of `made`, one after the other; these
are the accesses of the exit iff there is at most one element (or they have no bytes), and only then
does every machine end as after the accesses of the exit. -/
theorem port_io_repeat (run : KvmRunIo) :
    (∀ {ν σ : Type} (M : IoMachine ν σ) (fuel : Nat) (s : σ × Store),
      vmHandleIo M fuel run s = run.made.foldlM (handlePort M fuel run) s) ∧
    (run.made = run.wanted ↔ run.count ≤ 1 ∨ run.size = 0) ∧
    ((∀ {ν σ : Type} (M : IoMachine ν σ) (fuel : Nat) (s : σ × Store),
      vmHandleIo M fuel run s = run.wanted.foldlM (handlePort M fuel run) s) ↔
        run.count ≤ 1 ∨ run.size = 0) := by
  refine ⟨fun M fuel s => vmHandleIo_made M fuel run s, run.made_eq_wanted, ?_, ?_⟩
  · intro h
    have hmade : ∀ a ∈ run.made, a.addr < 2 ^ 64 := by
      intro a ha
      obtain ⟨i, -, rfl⟩ := List.mem_map.mp ha
      exact Nat.mod_lt _ (Nat.two_pow_pos 64)
    have hwanted : ∀ a ∈ run.wanted, a.addr < 2 ^ 64 := by
      intro a ha
      obtain ⟨i, -, rfl⟩ := List.mem_map.mp ha
      exact Nat.lt_trans run.port_lt (by decide)
    have hrec := h recorder 1 ([], fun _ => 0)
    rw [vmHandleIo_made, recorder_run run run.made _ _ hmade,
      recorder_run run run.wanted _ _ hwanted] at hrec
    simp only [List.nil_append, Except.ok.injEq, Prod.mk.injEq, and_true] at hrec
    exact run.made_addr hrec
  · intro h ν σ M fuel s
    rw [vmHandleIo_made, run.made_eq_wanted.mpr h]

/-! ## The serial port -/

/-- `serial_handle_io` when nobody else has the lock. -/
def serialIo (dev : SerialDev) (page : Store) (data : Nat) (isWrite : Bool) (offset : Nat) :
    SerialDev × Store :=
  if isWrite then (serialOut dev (offset % 2 ^ 16) (page data), page)
  else
    let res := serialIn dev (offset % 2 ^ 16) (page data)
    (res.dev, patch page data [res.data])

-- `COM1_PORT_BASE` and `COM1_PORT_SIZE`
def com1 : IoMachine Unit SerialDev where
  heap _ _ := ⟨0x3f8, 8, none⟩
  ioBus _ := ⟨1, some ()⟩
  doIo _ dev page data isWrite offset _ := .ok (serialIo dev page data isWrite offset)

/-- `rep outsb` of two bytes. -/
def repOutsb : KvmRunIo := ⟨true, 1, 0x3f8, 2, 0, by decide, by decide⟩

/-- The second byte is not sent, and the first one is also written to `IER`. -/
theorem rep_outsb_misplaced :
    ∃ s₁ s₂, vmHandleIo com1 2 repOutsb
      (⟨serialDevPriv, 0, []⟩, patch (fun _ => 0) 0 [0x41, 0x42]) = .ok s₁ ∧
      repOutsb.wanted.foldlM (handlePort com1 2 repOutsb)
        (⟨serialDevPriv, 0, []⟩, patch (fun _ => 0) 0 [0x41, 0x42]) =
        .ok s₂ ∧
      s₁.1.out = [0x41] ∧ s₁.1.priv.ier = 0x41 ∧ s₂.1.out = [0x41, 0x42] ∧ s₂.1.priv.ier = 0 :=
  ⟨_, _, rfl, rfl, by decide, by decide, by decide, by decide⟩

end KvmHost
