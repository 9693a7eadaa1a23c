import Mathlib.Data.List.Pairwise
import KvmHost.Bus

/-!
# KvmHost.BusDispatch

What a bus is for: an access goes to the device that was registered last among those present whose
window holds the address, and to none if it does not fit into that window.

`present` is the abstract bus, the devices on it from the last registered to the first.
`busOps_returns` is the refinement: from an empty bus, any sequence of registrations,
deregistrations and changes of a window's base leaves the linked list of the code in the order of
`present`. `bus_dispatch_iff` then compares the handler that `bus_handle_io` runs with `dispatch`.
The bound it checks, `addr + size - 1`, is computed modulo `2 ^ 64`, so an access that runs past the
last address passes the check of every window that holds its first byte.
-/

namespace KvmHost

open LinkedList

section

variable {ν : Type}

namespace Dev

/-- The address is in the window. -/
def Covers (d : Dev ν) (addr : Nat) : Prop := d.base ≤ addr ∧ addr < d.base + d.len

/-- The whole access is in the window. -/
def Fits (d : Dev ν) (addr size : Nat) : Prop := d.base ≤ addr ∧ addr + size ≤ d.base + d.len

instance (d : Dev ν) (addr : Nat) : Decidable (d.Covers addr) := inferInstanceAs (Decidable (_ ∧ _))

instance (d : Dev ν) (addr size : Nat) : Decidable (d.Fits addr size) :=
  inferInstanceAs (Decidable (_ ∧ _))

/-- A window of the 64-bit address space. -/
structure Window (d : Dev ν) : Prop where
  len_pos : 1 ≤ d.len
  bound : d.base + d.len ≤ 2 ^ 64

def Apart (d e : Dev ν) : Prop := d.base + d.len ≤ e.base ∨ e.base + e.len ≤ d.base

theorem Window.congr {d e : Dev ν} (h : d.Window) (hb : e.base = d.base) (hl : e.len = d.len) :
    e.Window :=
  ⟨hl ▸ h.len_pos, by rw [hb, hl]; exact h.bound⟩

theorem Window.last {d : Dev ν} (h : d.Window) :
    (d.base + d.len + 2 ^ 64 - 1) % 2 ^ 64 = d.base + d.len - 1 := by
  have h1 := h.len_pos
  have h2 := h.bound
  have he : d.base + d.len + 2 ^ 64 - 1 = d.base + d.len - 1 + 2 ^ 64 := by omega
  rw [he, Nat.add_mod_right, Nat.mod_eq_of_lt (by omega)]

/-- The test of `bus_find_dev`. -/
theorem Window.covers_iff {d : Dev ν} (h : d.Window) (addr : Nat) :
    (addr ≥ d.base ∧ addr ≤ (d.base + d.len + 2 ^ 64 - 1) % 2 ^ 64) ↔ d.Covers addr := by
  have h1 := h.len_pos
  rw [h.last]
  unfold Covers
  omega

/-- The test of `bus_handle_io`: right unless the access wraps around, and then always passed. -/
theorem Window.fits_iff {d : Dev ν} (h : d.Window) {addr size : Nat} (hc : d.Covers addr)
    (h1 : 1 ≤ size) (h2 : size < 2 ^ 8) :
    (addr + size + 2 ^ 64 - 1) % 2 ^ 64 ≤ (d.base + d.len + 2 ^ 64 - 1) % 2 ^ 64 ↔
      d.Fits addr size ∨ 2 ^ 64 < addr + size := by
  have hb := h.bound
  obtain ⟨hc1, hc2⟩ := hc
  rw [h.last]
  unfold Fits
  rcases Nat.lt_or_ge (2 ^ 64) (addr + size) with hwrap | hno
  · have he : addr + size + 2 ^ 64 - 1 = (addr + size - 2 ^ 64 - 1) + 2 ^ 64 + 2 ^ 64 := by omega
    rw [he, Nat.add_mod_right, Nat.add_mod_right, Nat.mod_eq_of_lt (by omega)]
    omega
  · have he : addr + size + 2 ^ 64 - 1 = addr + size - 1 + 2 ^ 64 := by omega
    rw [he, Nat.add_mod_right, Nat.mod_eq_of_lt (by omega)]
    omega

end Dev

/-- What an access asks for, given the devices present from the last registered to the first: the
device whose handler runs and the offset it gets. -/
def dispatch (heap : Heap ν) (order : List ν) (addr size : Nat) : Option (ν × Nat) :=
  match order.find? fun x => (heap x).Covers addr with
  | none => none
  | some x => if (heap x).Fits addr size then some (x, addr - (heap x).base) else none

/-! ## The handler that runs -/

theorem busFindFrom_list {heap : Heap ν} {p : Option ν} {xs : List ν} (addr : Nat) {fuel : Nat}
    (hl : IsList heap.next p xs) (hw : ∀ x ∈ xs, (heap x).Window) (hf : xs.length < fuel) :
    busFindFrom heap addr fuel p = .ok (xs.find? fun x => (heap x).Covers addr) := by
  induction hl generalizing fuel with
  | nil =>
    obtain ⟨fuel, rfl⟩ : ∃ k, fuel = k + 1 := ⟨fuel - 1, by omega⟩
    rfl
  | @cons x xs _ ih =>
    obtain ⟨fuel, rfl⟩ : ∃ k, fuel = k + 1 := ⟨fuel - 1, by omega⟩
    rw [List.length_cons] at hf
    have hx := hw x List.mem_cons_self
    simp only [busFindFrom, hx.covers_iff]
    by_cases hc : (heap x).Covers addr
    · rw [if_pos hc, List.find?_cons_of_pos (by simpa using hc)]
    · rw [if_neg hc, List.find?_cons_of_neg (by simpa using hc)]
      exact ih (fun y hy => hw y (List.mem_cons_of_mem _ hy)) (by omega)

/-- The handler `bus_handle_io` runs is the one `dispatch` names, but an access that wraps around
goes to the first window that holds its first byte. -/
theorem busHandleIo_eq {heap : Heap ν} {bus : Bus ν} {xs : List ν} {addr size fuel : Nat}
    (hl : OnList heap bus xs) (hw : ∀ x ∈ xs, (heap x).Window) (h1 : 1 ≤ size) (h2 : size < 2 ^ 8)
    (hf : xs.length < fuel) :
    busHandleIo fuel heap bus addr size =
      .ok (match xs.find? fun x => (heap x).Covers addr with
        | none => none
        | some x =>
          if (heap x).Fits addr size ∨ 2 ^ 64 < addr + size then some (x, addr - (heap x).base)
          else none) := by
  unfold busHandleIo busFindDev
  rw [busFindFrom_list addr hl hw hf, ok_bind]
  cases hx : xs.find? fun x => (heap x).Covers addr with
  | none => rfl
  | some x =>
    have hc : (heap x).Covers addr := by simpa using List.find?_some hx
    have hfit := (hw x (List.mem_of_find?_eq_some hx)).fits_iff hc h1 h2
    by_cases h : (heap x).Fits addr size ∨ 2 ^ 64 < addr + size
    · simp only [if_pos h, if_pos (hfit.mpr h)]; rfl
    · simp only [if_neg h, if_neg (mt hfit.mp h)]; rfl

theorem busHandleIo_dispatch {heap : Heap ν} {bus : Bus ν} {xs : List ν} {addr size fuel : Nat}
    (hl : OnList heap bus xs) (hw : ∀ x ∈ xs, (heap x).Window) (h1 : 1 ≤ size) (h2 : size < 2 ^ 8)
    (hf : xs.length < fuel) (hno : addr + size ≤ 2 ^ 64) :
    busHandleIo fuel heap bus addr size = .ok (dispatch heap xs addr size) := by
  rw [busHandleIo_eq hl hw h1 h2 hf]
  simp only [or_iff_left (Nat.not_lt.mpr hno)]
  rfl

/-- The handler is the right one exactly when the access does not wrap around or meets no window. -/
theorem busHandleIo_dispatch_iff {heap : Heap ν} {bus : Bus ν} {xs : List ν} {addr size fuel : Nat}
    (hl : OnList heap bus xs) (hw : ∀ x ∈ xs, (heap x).Window) (h1 : 1 ≤ size) (h2 : size < 2 ^ 8)
    (hf : xs.length < fuel) :
    busHandleIo fuel heap bus addr size = .ok (dispatch heap xs addr size) ↔
      addr + size ≤ 2 ^ 64 ∨ ∀ x ∈ xs, ¬ (heap x).Covers addr := by
  constructor
  · intro h
    rcases Nat.lt_or_ge (2 ^ 64) (addr + size) with hwrap | hno
    · right
      rw [busHandleIo_eq hl hw h1 h2 hf] at h
      unfold dispatch at h
      cases hx : xs.find? fun x => (heap x).Covers addr with
      | none => simpa using hx
      | some x =>
        -- the code runs the handler, and the window ends at `2 ^ 64` at the latest
        have hb := (hw x (List.mem_of_find?_eq_some hx)).bound
        have hnot : ¬ (heap x).Fits addr size := by unfold Dev.Fits; omega
        simp only [hx, if_neg hnot, if_pos (Or.inr hwrap : (heap x).Fits addr size ∨ _)] at h
        cases h
    · exact .inl hno
  · rintro (hno | hnone)
    · exact busHandleIo_dispatch hl hw h1 h2 hf hno
    · have hx : (xs.find? fun x => (heap x).Covers addr) = none := by simpa using hnone
      rw [busHandleIo_eq hl hw h1 h2 hf]
      unfold dispatch
      rw [hx]

/-! ## The order of registration -/

/-- With windows apart from each other, at most one device is found, in whatever order they are
searched. -/
theorem find_covers_perm {heap : Heap ν} {xs ys : List ν} (hp : xs.Perm ys)
    (hd : xs.Pairwise fun x y => (heap x).Apart (heap y)) (addr : Nat) :
    (xs.find? fun x => (heap x).Covers addr) = ys.find? fun x => (heap x).Covers addr := by
  induction hp with
  | nil => rfl
  | cons x _ ih =>
    rw [List.pairwise_cons] at hd
    simp only [List.find?_cons, ih hd.2]
  | swap x y zs =>
    have hxy := List.rel_of_pairwise_cons hd List.mem_cons_self
    unfold Dev.Apart at hxy
    simp only [List.find?_cons]
    by_cases hx : (heap x).Covers addr
    · have hy : ¬ (heap y).Covers addr := by unfold Dev.Covers at hx ⊢; omega
      simp [hx, hy]
    · simp [hx]
  | trans h1 _ ih1 ih2 =>
    refine (ih1 hd).trans (ih2 (h1.pairwise hd fun hxy => ?_))
    unfold Dev.Apart at hxy ⊢
    omega

theorem busHandleIo_perm {heap heap' : Heap ν} {bus bus' : Bus ν} {xs ys : List ν}
    (hx : OnList heap bus xs) (hy : OnList heap' bus' ys) (hp : xs.Perm ys)
    (hw : ∀ x ∈ xs, (heap x).Window)
    (hsame : ∀ x ∈ xs, (heap' x).base = (heap x).base ∧ (heap' x).len = (heap x).len)
    (hd : xs.Pairwise fun x y => (heap x).Apart (heap y)) {addr size fuel fuel' : Nat}
    (h1 : 1 ≤ size) (h2 : size < 2 ^ 8) (hf : xs.length < fuel) (hf' : xs.length < fuel') :
    busHandleIo fuel' heap' bus' addr size = busHandleIo fuel heap bus addr size := by
  have hw' : ∀ y ∈ ys, (heap' y).Window := fun y hm =>
    (hw y (hp.symm.subset hm)).congr (hsame y (hp.symm.subset hm)).1 (hsame y (hp.symm.subset hm)).2
  have hfind : (ys.find? fun y => (heap' y).Covers addr) = xs.find? fun x =>
      (heap x).Covers addr := by
    rw [find_covers_perm hp hd]
    rw [← List.head?_filter, ← List.head?_filter]
    refine congrArg _ (List.filter_congr fun y hm => ?_)
    obtain ⟨hb, hl⟩ := hsame y (hp.symm.subset hm)
    exact decide_eq_decide.mpr (by simp only [Dev.Covers, hb, hl])
  rw [busHandleIo_eq hy hw' h1 h2 (hp.length_eq ▸ hf'), busHandleIo_eq hx hw h1 h2 hf, hfind]
  cases hz : xs.find? fun x => (heap x).Covers addr with
  | none => rfl
  | some x =>
    obtain ⟨hb, hl⟩ := hsame x (List.mem_of_find?_eq_some hz)
    have hfits : (heap' x).Fits addr size ↔ (heap x).Fits addr size := by
      simp only [Dev.Fits, hb, hl]
    simp only [hfits, hb]

end

/-! ## Sequences of operations -/

section

variable {ν : Type} [DecidableEq ν]

def Heap.setBase (heap : Heap ν) (x : ν) (base : Nat) : Heap ν :=
  Function.update heap x { heap x with base }

theorem Heap.setBase_self (heap : Heap ν) (x : ν) (base : Nat) :
    (heap.setBase x base x).base = base := by
  simp [Heap.setBase]

theorem Heap.setBase_of_ne (heap : Heap ν) {x y : ν} (h : y ≠ x) (base : Nat) :
    heap.setBase x base y = heap y := by
  simp [Heap.setBase, Function.update_of_ne h]

@[simp] theorem Heap.setBase_len (heap : Heap ν) (x y : ν) (base : Nat) :
    (heap.setBase x base y).len = (heap y).len := by
  by_cases h : y = x
  · subst h; simp [Heap.setBase]
  · rw [Heap.setBase_of_ne heap h]

@[simp] theorem Heap.setBase_next (heap : Heap ν) (x : ν) (base : Nat) :
    (heap.setBase x base).next = heap.next := by
  funext y
  by_cases h : y = x
  · subst h; simp [Heap.next, Heap.setBase]
  · simp only [Heap.next, Heap.setBase_of_ne heap h]

structure BusSys (ν : Type) where
  heap : Heap ν
  bus : Bus ν

/-- What is done to a bus: the two functions of `bus.c`, and a device that rewrites the base of its
window. -/
inductive BusOp (ν : Type) where
  | register (x : ν)
  | deregister (x : ν)
  | rebase (x : ν) (base : Nat)

def BusSys.step (fuel : Nat) (s : BusSys ν) : BusOp ν → Except Stop (BusSys ν)
  | .register x =>
    let hb := busRegisterDev s.heap s.bus x
    .ok ⟨hb.1, hb.2⟩
  | .deregister x => do
    let hb ← busDeregisterDev fuel s.heap s.bus x
    return ⟨hb.1, hb.2⟩
  | .rebase x base => .ok { s with heap := s.heap.setBase x base }

def busOps (fuel : Nat) (s : BusSys ν) (ops : List (BusOp ν)) : Except Stop (BusSys ν) :=
  ops.foldlM (BusSys.step fuel) s

/-- The devices present after an operation, from the last registered to the first. -/
def presentStep (xs : List ν) : BusOp ν → List ν
  | .register x => x :: xs
  | .deregister x => xs.filter (· != x)
  | .rebase _ _ => xs

def present (ops : List (BusOp ν)) : List ν := ops.foldl presentStep []

/-- A device is registered only while it is absent, and a window stays in the address space. -/
def OpOk (heap : Heap ν) (xs : List ν) : BusOp ν → Prop
  | .register x => x ∉ xs
  | .deregister _ => True
  | .rebase x base => base + (heap x).len ≤ 2 ^ 64

def OpsOk (heap : Heap ν) : List ν → List (BusOp ν) → Prop
  | _, [] => True
  | xs, op :: ops => OpOk heap xs op ∧ OpsOk heap (presentStep xs op) ops

/-- The linked list of the code has the devices of `present`, in its order. -/
structure Represents (heap : Heap ν) (s : BusSys ν) (xs : List ν) : Prop where
  list : OnList s.heap s.bus xs
  window : ∀ x, (s.heap x).Window
  len : ∀ x, (s.heap x).len = (heap x).len

theorem busDeregisterDev_same {heap heap' : Heap ν} {bus bus' : Bus ν} {dev : ν} {fuel : Nat}
    (h : busDeregisterDev fuel heap bus dev = .ok (heap', bus')) (x : ν) :
    (heap' x).base = (heap x).base ∧ (heap' x).len = (heap x).len := by
  unfold busDeregisterDev at h
  split at h
  · cases h
  · rename_i p _
    split at h
    · cases h; exact ⟨rfl, rfl⟩
    · cases p with
      | head => cases h; exact ⟨rfl, rfl⟩
      | next y =>
        cases h
        exact ⟨Heap.setNext_base _ _ _ _, Heap.setNext_len _ _ _ _⟩

/-- Deregistering a device that is not there writes nothing. -/
theorem busDeregisterDev_absent {heap : Heap ν} {bus : Bus ν} {xs : List ν} {dev : ν} {fuel : Nat}
    (hl : OnList heap bus xs) (hf : xs.length < fuel) (hx : dev ∉ xs) :
    busDeregisterDev fuel heap bus dev = .ok (heap, bus) := by
  obtain ⟨p, hp⟩ := walk_total (x := dev) (p := .head) hl hf
  unfold busDeregisterDev
  rcases walk_sound (p := .head) hl hp with ⟨_, hq⟩ | ⟨pre, post, rfl, _, _⟩
  · simp only [hp, hq]
  · exact absurd (List.mem_append_right pre List.mem_cons_self) hx

theorem represents_register {heap : Heap ν} {s : BusSys ν} {xs : List ν} {x : ν}
    (h : Represents heap s xs) (hx : x ∉ xs) :
    Represents heap ⟨(busRegisterDev s.heap s.bus x).1, (busRegisterDev s.heap s.bus x).2⟩
      (x :: xs) where
  list := busRegisterDev_list.mpr ⟨xs, rfl, hx, h.list⟩
  window y := (h.window y).congr (Heap.setNext_base _ _ _ _) (Heap.setNext_len _ _ _ _)
  len y := (Heap.setNext_len _ _ _ _).trans (h.len y)

theorem represents_deregister {heap heap' : Heap ν} {bus' : Bus ν} {s : BusSys ν} {xs : List ν}
    {x : ν} {fuel : Nat} (h : Represents heap s xs)
    (hd : busDeregisterDev fuel s.heap s.bus x = .ok (heap', bus')) :
    Represents heap ⟨heap', bus'⟩ (xs.filter (· != x)) where
  list := by
    have hl := busDeregisterDev_list h.list hd
    rwa [h.list.nodup.erase_eq_filter] at hl
  window y := (h.window y).congr (busDeregisterDev_same hd y).1 (busDeregisterDev_same hd y).2
  len y := (busDeregisterDev_same hd y).2.trans (h.len y)

theorem represents_rebase {heap : Heap ν} {s : BusSys ν} {xs : List ν} {x : ν} {base : Nat}
    (h : Represents heap s xs) (hb : base + (heap x).len ≤ 2 ^ 64) :
    Represents heap { s with heap := s.heap.setBase x base } xs where
  list := by
    unfold OnList
    rw [Heap.setBase_next]
    exact h.list
  window y := by
    refine ⟨by rw [Heap.setBase_len]; exact (h.window y).len_pos, ?_⟩
    rw [Heap.setBase_len]
    by_cases hy : y = x
    · subst hy
      rw [Heap.setBase_self, h.len y]
      exact hb
    · simp only [Heap.setBase_of_ne _ hy]
      exact (h.window y).bound
  len y := (Heap.setBase_len _ _ _ _).trans (h.len y)

theorem step_represents (fuel : Nat) {heap : Heap ν} {s : BusSys ν} {xs : List ν} (op : BusOp ν)
    (h : Represents heap s xs) (hop : OpOk heap xs op) (hf : xs.length < fuel) :
    ∃ s', s.step fuel op = .ok s' ∧ Represents heap s' (presentStep xs op) := by
  cases op with
  | register x => exact ⟨_, rfl, represents_register h hop⟩
  | deregister x =>
    obtain ⟨heap', bus', hd⟩ := busDeregisterDev_total x h.list hf
    refine ⟨⟨heap', bus'⟩, ?_, represents_deregister h hd⟩
    simp only [BusSys.step, hd, ok_bind]
    rfl
  | rebase x base => exact ⟨_, rfl, represents_rebase h hop⟩

theorem length_presentStep (xs : List ν) (op : BusOp ν) :
    (presentStep xs op).length ≤ xs.length + 1 := by
  cases op with
  | register x => exact Nat.le_refl _
  | deregister x => exact Nat.le_succ_of_le (List.length_filter_le _ _)
  | rebase x base => exact Nat.le_succ _

theorem length_present (ops : List (BusOp ν)) :
    ∀ xs : List ν, (ops.foldl presentStep xs).length ≤ xs.length + ops.length := by
  induction ops with
  | nil => intro xs; exact Nat.le_refl _
  | cons op ops ih =>
    intro xs
    have h1 := ih (presentStep xs op)
    have h2 := length_presentStep xs op
    simp only [List.foldl_cons, List.length_cons]
    omega

theorem busOps_represents {heap : Heap ν} {fuel : Nat} (ops : List (BusOp ν)) :
    ∀ {s : BusSys ν} {xs : List ν}, Represents heap s xs → OpsOk heap xs ops →
      xs.length + ops.length < fuel →
      ∃ s', busOps fuel s ops = .ok s' ∧ Represents heap s' (ops.foldl presentStep xs) := by
  induction ops with
  | nil => intro s xs h _ _; exact ⟨s, rfl, h⟩
  | cons op ops ih =>
    intro s xs h hok hf
    rw [List.length_cons] at hf
    obtain ⟨s1, hs1, h1⟩ := step_represents fuel op h hok.1 (by omega)
    have hlen := length_presentStep xs op
    obtain ⟨s', hs', h'⟩ := ih h1 hok.2 (by omega)
    refine ⟨s', ?_, h'⟩
    unfold busOps
    rw [List.foldlM_cons, hs1]
    exact hs'

/-- From an empty bus, the list of the code is `present`. -/
theorem busOps_returns {heap : Heap ν} {ops : List (BusOp ν)} {fuel : Nat}
    (hw : ∀ x, (heap x).Window) (hok : OpsOk heap [] ops) (hf : ops.length < fuel) :
    ∃ s, busOps fuel ⟨heap, busInit⟩ ops = .ok s ∧ Represents heap s (present ops) :=
  busOps_represents ops ⟨.nil, hw, fun _ => rfl⟩ hok (by simpa using hf)

/-- **Bus dispatch.** After any sequence of operations from an empty bus, the linked list has the
devices present in the order of registration; an access runs the handler it should, at the offset it
should, exactly when it does not run past the last address or no window holds its first byte;
deregistering takes a device out and moves no other, and does nothing to an absent one; and where
the windows are apart, another sequence that leaves the same devices at the same bases gives every
access the same outcome. -/
theorem bus_dispatch_iff (fuel : Nat) {heap : Heap ν} (ops : List (BusOp ν))
    (hw : ∀ x, (heap x).Window) (hok : OpsOk heap [] ops) (hf : ops.length < fuel) :
    ∃ s, busOps fuel ⟨heap, busInit⟩ ops = .ok s ∧ OnList s.heap s.bus (present ops) ∧
      (∀ addr size, 1 ≤ size → size < 2 ^ 8 →
        (busHandleIo fuel s.heap s.bus addr size = .ok (dispatch s.heap (present ops) addr size) ↔
          addr + size ≤ 2 ^ 64 ∨ ∀ x ∈ present ops, ¬ (s.heap x).Covers addr)) ∧
      (∀ x, ∃ s', s.step fuel (.deregister x) = .ok s' ∧
        OnList s'.heap s'.bus ((present ops).filter (· != x)) ∧ (x ∉ present ops → s' = s)) ∧
      ((present ops).Pairwise (fun x y => (s.heap x).Apart (s.heap y)) →
        ∀ ops' s', OpsOk heap [] ops' → ops'.length < fuel →
          busOps fuel ⟨heap, busInit⟩ ops' = .ok s' → (present ops).Perm (present ops') →
          (∀ x ∈ present ops, (s'.heap x).base = (s.heap x).base) →
          ∀ addr size, 1 ≤ size → size < 2 ^ 8 →
            busHandleIo fuel s'.heap s'.bus addr size =
              busHandleIo fuel s.heap s.bus addr size) := by
  obtain ⟨s, hs, hr⟩ := busOps_returns hw hok hf
  have hlen : (present ops).length < fuel := by
    have := length_present ops []
    simp only [List.length_nil] at this
    unfold present
    omega
  refine ⟨s, hs, hr.list, ?_, ?_, ?_⟩
  · intro addr size h1 h2
    exact busHandleIo_dispatch_iff hr.list (fun x _ => hr.window x) h1 h2 hlen
  · intro x
    obtain ⟨s', hs', hr'⟩ := step_represents fuel (.deregister x) hr trivial hlen
    refine ⟨s', hs', hr'.list, fun hx => ?_⟩
    simp only [BusSys.step, busDeregisterDev_absent hr.list hlen hx, ok_bind] at hs'
    exact (Except.ok.inj hs').symm
  · intro hd ops' s' hok' hf' hs' hp hbase addr size h1 h2
    obtain ⟨t, ht, hr'⟩ := busOps_returns hw hok' hf'
    obtain rfl : t = s' := Except.ok.inj (ht.symm.trans hs')
    exact busHandleIo_perm hr.list hr'.list hp (fun x _ => hr.window x)
      (fun x hx => ⟨hbase x hx, (hr'.len x).trans (hr.len x).symm⟩) hd h1 h2 hlen hlen

end

/-! ## The top of the address space -/

/-- One device, with a window of 16 bytes. -/
def oneWindow (base : Nat) : Heap Unit := fun _ => { base, len := 16, next := none }

theorem bus_dispatch_iff_rebased :
    (∀ x, (oneWindow 0x1000 x).Window) ∧
      ∃ s, busOps 4 ⟨oneWindow 0x1000, busInit⟩ [.register (), .rebase () 0x2000] = .ok s ∧
        busHandleIo 4 s.heap s.bus 0x2008 8 = .ok (some ((), 8)) := by
  have hw : ∀ x, (oneWindow 0x1000 x).Window := fun _ => ⟨by simp [oneWindow], by simp [oneWindow]⟩
  refine ⟨hw, ?_⟩
  obtain ⟨s, hs, _, hio, _⟩ := bus_dispatch_iff 4 [.register (), .rebase () 0x2000]
    hw ⟨by simp [OpOk], by simp [OpOk, oneWindow], trivial⟩ (by decide)
  refine ⟨s, hs, ?_⟩
  rw [(hio 0x2008 8 (by decide) (by decide)).mpr (.inl (by decide))]
  obtain rfl := Except.ok.inj hs
  rfl

/-- Two bytes at the last address: the second one is outside the address space, and the handler runs
at offset 15 of a window of 16 bytes. -/
theorem wrapping_access_dispatched :
    (∀ x, (oneWindow (2 ^ 64 - 16) x).Window) ∧
      ∃ s, busOps 4 ⟨oneWindow (2 ^ 64 - 16), busInit⟩ [.register ()] = .ok s ∧
        busHandleIo 4 s.heap s.bus (2 ^ 64 - 1) 2 = .ok (some ((), 15)) ∧
        dispatch s.heap (present [.register ()]) (2 ^ 64 - 1) 2 = none := by
  refine ⟨fun _ => ⟨by simp [oneWindow], by simp [oneWindow]⟩, _, rfl, ?_, ?_⟩
  · simp [busHandleIo, busFindDev, busFindFrom, busRegisterDev, Heap.setNext, oneWindow]
    rfl
  · simp [dispatch, present, presentStep, busRegisterDev, Heap.setNext, oneWindow, Dev.Covers,
      Dev.Fits]

end KvmHost
