import KvmHost.Lib.LinkedList
import KvmHost.Memory

/-!
# KvmHost.Bus

The device buses of `bus.c`: singly linked lists of address windows, headed by `struct bus`.

`struct dev` objects are named by the elements of a type `ν` and kept in a heap; a node's `owner`
and `do_io` never change after `dev_init`, so the node's name stands for them. The loops of
`bus_find_dev` and `bus_deregister_dev` have no bound in the source and run on fuel here.
-/

namespace KvmHost

open LinkedList

/-- `struct dev` -/
structure Dev (ν : Type) where
  base : Nat
  len : Nat
  next : Option ν

/-- `struct bus` -/
structure Bus (ν : Type) where
  devNum : Nat
  head : Option ν

abbrev Heap (ν : Type) := ν → Dev ν

section

variable {ν : Type} [DecidableEq ν]

def Heap.next (heap : Heap ν) : ν → Option ν := fun x => (heap x).next

def Heap.setNext (heap : Heap ν) (x : ν) (v : Option ν) : Heap ν :=
  Function.update heap x { heap x with next := v }

/-- The loop of `bus_find_dev`, at the node `p` points to. -/
def busFindFrom (heap : Heap ν) (addr : Nat) : Nat → Option ν → Except Stop (Option ν)
  | 0, _ => .error .fuel
  | fuel + 1, p =>
    match p with
    | none => .ok none
    | some x =>
      -- `uint64_t end = start + (*p)->len - 1`
      let last := ((heap x).base + (heap x).len + 2 ^ 64 - 1) % 2 ^ 64
      if addr ≥ (heap x).base ∧ addr ≤ last then .ok (some x)
      else busFindFrom heap addr fuel (heap x).next

def busFindDev (fuel : Nat) (heap : Heap ν) (bus : Bus ν) (addr : Nat) : Except Stop (Option ν) :=
  busFindFrom heap addr fuel bus.head

def busRegisterDev (heap : Heap ν) (bus : Bus ν) (dev : ν) : Heap ν × Bus ν :=
  (heap.setNext dev bus.head, { devNum := (bus.devNum + 1) % 2 ^ 64, head := some dev })

/-- `*p = v`, for a pointer `p` to the head or into a node. -/
def busStore (heap : Heap ν) (bus : Bus ν) (p : Slot ν) (v : Option ν) : Heap ν × Bus ν :=
  match p with
  | .head => (heap, { bus with head := v })
  | .next x => (heap.setNext x v, bus)

/-- `walk` is the loop `while (*p != dev && *p) p = &(*p)->next`. -/
def busDeregisterDev (fuel : Nat) (heap : Heap ν) (bus : Bus ν) (dev : ν) :
    Except Stop (Heap ν × Bus ν) :=
  match walk bus.head heap.next dev fuel .head with
  | none => .error .fuel
  | some p =>
    match p.load bus.head heap.next with
    | none => .ok (heap, bus)
    | some x => .ok (busStore heap bus p (heap x).next)

def busInit : Bus ν := { devNum := 0, head := none }

/-- `dev_init`; the node's name stands for `owner` and `do_io`. -/
def devInit (heap : Heap ν) (dev : ν) (base len : Nat) : Heap ν :=
  Function.update heap dev { base, len, next := none }

/-- The call of `do_io` that `bus_handle_io` makes: the node whose handler runs and the offset it
gets. -/
def busHandleIo (fuel : Nat) (heap : Heap ν) (bus : Bus ν) (addr size : Nat) :
    Except Stop (Option (ν × Nat)) := do
  match ← busFindDev fuel heap bus addr with
  | none => return none
  | some x =>
    -- `addr + size - 1 <= dev->base + dev->len - 1`, both sides of type `uint64_t`
    let last := ((heap x).base + (heap x).len + 2 ^ 64 - 1) % 2 ^ 64
    if (addr + size + 2 ^ 64 - 1) % 2 ^ 64 ≤ last then return some (x, addr - (heap x).base)
    else return none

/-! ## The list of a bus -/

/-- The nodes of the bus, first to last. There is no such list when the walk from the head never
ends. -/
def OnList (heap : Heap ν) (bus : Bus ν) (xs : List ν) : Prop := IsList heap.next bus.head xs

@[simp] theorem Heap.setNext_next (heap : Heap ν) (x : ν) (v : Option ν) :
    (heap.setNext x v).next = Function.update heap.next x v := by
  funext y
  by_cases h : y = x
  · subst h; simp [Heap.next, Heap.setNext]
  · simp [Heap.next, Heap.setNext, Function.update_of_ne h]

theorem Heap.setNext_base (heap : Heap ν) (x y : ν) (v : Option ν) :
    (heap.setNext x v y).base = (heap y).base := by
  by_cases h : y = x
  · subst h; simp [Heap.setNext]
  · simp [Heap.setNext, Function.update_of_ne h]

theorem Heap.setNext_len (heap : Heap ν) (x y : ν) (v : Option ν) :
    (heap.setNext x v y).len = (heap y).len := by
  by_cases h : y = x
  · subst h; simp [Heap.setNext]
  · simp [Heap.setNext, Function.update_of_ne h]

/-- Registering gives a list exactly when the node was not on it. -/
theorem busRegisterDev_list {heap : Heap ν} {bus : Bus ν} {dev : ν} {ys : List ν} :
    OnList (busRegisterDev heap bus dev).1 (busRegisterDev heap bus dev).2 ys ↔
      ∃ xs, ys = dev :: xs ∧ dev ∉ xs ∧ OnList heap bus xs := by
  unfold OnList busRegisterDev
  simp only [Heap.setNext_next]
  exact push_iff

/-- Deregistering takes the node out, if it is there. -/
theorem busDeregisterDev_list {heap heap' : Heap ν} {bus bus' : Bus ν} {dev : ν} {fuel : Nat}
    {xs : List ν} (hl : OnList heap bus xs)
    (h : busDeregisterDev fuel heap bus dev = .ok (heap', bus')) :
    OnList heap' bus' (xs.erase dev) := by
  unfold busDeregisterDev at h
  cases hw : walk bus.head heap.next dev fuel .head with
  | none => rw [hw] at h; cases h
  | some p =>
    simp only [hw] at h
    rcases walk_sound (p := .head) hl hw with ⟨hx, hq⟩ | ⟨pre, post, rfl, hx, rfl⟩
    · rw [hq] at h
      cases h
      rwa [List.erase_of_not_mem hx]
    · rw [load_after (p := .head) hl] at h
      rw [List.erase_append_right _ hx, List.erase_cons_head]
      cases hp : pre.getLast? with
      | none =>
        rw [List.getLast?_eq_none_iff] at hp
        subst hp
        cases h
        unfold OnList at hl ⊢
        generalize bus.head = hd at hl
        cases hl with
        | cons hl => exact hl
      | some b =>
        have hslot : (Slot.head : Slot ν).after pre = .next b := by unfold Slot.after; rw [hp]
        rw [hslot] at h
        cases h
        unfold OnList at hl ⊢
        rw [Heap.setNext_next]
        exact hl.unlink hp

theorem busDeregisterDev_total {heap : Heap ν} {bus : Bus ν} {xs : List ν} (dev : ν) {fuel : Nat}
    (hl : OnList heap bus xs) (hf : xs.length < fuel) :
    ∃ heap' bus', busDeregisterDev fuel heap bus dev = .ok (heap', bus') := by
  obtain ⟨q, hq⟩ := walk_total (x := dev) (p := .head) hl hf
  simp only [busDeregisterDev, hq]
  split
  · exact ⟨heap, bus, rfl⟩
  · exact ⟨_, _, rfl⟩

omit [DecidableEq ν] in
theorem busFindDev_total {heap : Heap ν} {bus : Bus ν} {xs : List ν} (addr : Nat) {fuel : Nat}
    (hl : OnList heap bus xs) (hf : xs.length < fuel) :
    ∃ r, busFindDev fuel heap bus addr = .ok r := by
  unfold OnList at hl
  unfold busFindDev
  generalize bus.head = p at hl
  induction hl generalizing fuel with
  | nil =>
    obtain ⟨fuel, rfl⟩ : ∃ k, fuel = k + 1 := ⟨fuel - 1, by omega⟩
    exact ⟨none, rfl⟩
  | @cons x xs _ ih =>
    obtain ⟨fuel, rfl⟩ : ∃ k, fuel = k + 1 := ⟨fuel - 1, by omega⟩
    rw [List.length_cons] at hf
    simp only [busFindFrom]
    split
    · exact ⟨some x, rfl⟩
    · exact ih (by omega)

end

end KvmHost
