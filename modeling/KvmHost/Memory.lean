import KvmHost.Lib.Bytes

/-!
# KvmHost.Memory

Guest memory as the device code sees it: `v->mem` is a mapping of `RAM_SIZE` bytes, guest physical
addresses start at `RAM_BASE` (0 on x86-64, `1 << 31` on arm64), and `vm_guest_to_host` turns a
guest address into a host pointer.

A host pointer into the mapping is modelled by its distance from `v->mem`; `NULL` is `none`. Nothing
in the source checks such a pointer, so an access is given a meaning only when it stays inside the
mapping. Every other access stops the modelled call with the reason (`Stop`).
-/

namespace KvmHost

open ByteStore

/-- Why a modelled call does not return. -/
inductive Stop where
  /-- a NULL pointer is dereferenced -/
  | null
  /-- an access leaves the guest memory mapping -/
  | wild
  /-- a copy leaves the host object it is aimed at -/
  | smash
  /-- the loop did not end within the given fuel -/
  | fuel
deriving DecidableEq, Repr

theorem ok_bind {α β : Type} (a : α) (f : α → Except Stop β) : (Except.ok a >>= f) = f a := rfl

theorem error_bind {α β : Type} (e : Stop) (f : α → Except Stop β) :
    (Except.error e >>= f) = .error e := rfl

/-- A sequence of two calls returns exactly when both do. -/
theorem bind_eq_ok {α β : Type} {x : Except Stop α} {f : α → Except Stop β} {b : β} :
    x >>= f = .ok b ↔ ∃ a, x = .ok a ∧ f a = .ok b := by
  cases x with
  | error e => simp [error_bind]
  | ok a => simp [ok_bind]

/-- A host pointer that `vm_guest_to_host` may return, as its distance from `v->mem`. -/
abbrev Ptr := Option Nat

/-- Pointer arithmetic, modulo the 64-bit address space. -/
def Ptr.plus (p : Ptr) (k : Nat) : Ptr := p.map fun a => (a + k) % 2 ^ 64

-- a difference of two `size_t`
def sizeSub (a b : Nat) : Nat := (a + 2 ^ 64 - b) % 2 ^ 64

/-- `RAM_SIZE` -/
def ramSize : Nat := 2 ^ 30

/-- Guest memory: `RAM_BASE` of the architecture and the bytes mapped at `v->mem`. -/
structure Ram where
  base : Nat
  bytes : Store

def vmGuestToHost (ram : Ram) (guest : Nat) : Ptr :=
  if guest < ram.base then none else some (guest - ram.base)

/-- Copy `n` bytes out of guest memory. A copy of no bytes never touches the pointer. -/
def Ram.read (ram : Ram) (p : Ptr) (n : Nat) : Except Stop (List UInt8) :=
  if n = 0 then .ok []
  else
    match p with
    | none => .error .null
    | some a => if a + n ≤ ramSize then .ok (slice ram.bytes a n) else .error .wild

/-- Copy bytes into guest memory. -/
def Ram.write (ram : Ram) (p : Ptr) (bs : List UInt8) : Except Stop Ram :=
  if bs = [] then .ok ram
  else
    match p with
    | none => .error .null
    | some a =>
      if a + bs.length ≤ ramSize then .ok { ram with bytes := patch ram.bytes a bs }
      else .error .wild

/-- Load an `n`-byte little-endian field. -/
def Ram.load (ram : Ram) (p : Ptr) (n : Nat) : Except Stop Nat := do
  let bs ← ram.read p n
  return leNat bs

/-- Store the low `n` bytes of `v`. -/
def Ram.store (ram : Ram) (p : Ptr) (n v : Nat) : Except Stop Ram := ram.write p (toLE n v)

theorem plus_some {a k : Nat} (h : a + k < 2 ^ 64) : Ptr.plus (some a) k = some (a + k) := by
  simp only [Ptr.plus, Option.map_some, Nat.mod_eq_of_lt h]

theorem plus_ram {a k : Nat} (h : a + k ≤ ramSize) : Ptr.plus (some a) k = some (a + k) :=
  plus_some (by unfold ramSize at h; omega)

theorem sizeSub_eq {x y : Nat} (h : y ≤ x) (hx : x < 2 ^ 64) : sizeSub x y = x - y := by
  unfold sizeSub
  have he : x + 2 ^ 64 - y = x - y + 2 ^ 64 := by omega
  rw [he, Nat.add_mod_right]
  exact Nat.mod_eq_of_lt (by omega)

theorem sizeSub_short {x y : Nat} (h : x < y) : sizeSub x y = x + 2 ^ 64 - y := by
  unfold sizeSub
  exact Nat.mod_eq_of_lt (by omega)

theorem vmGuestToHost_eq {ram : Ram} {g : Nat} (h : ram.base ≤ g) :
    vmGuestToHost ram g = some (g - ram.base) := by
  rw [vmGuestToHost, if_neg (by omega)]

theorem Ram.read_ok {ram : Ram} {a n : Nat} (h : a + n ≤ ramSize) :
    ram.read (some a) n = .ok (slice ram.bytes a n) := by
  unfold Ram.read
  by_cases hn : n = 0
  · subst hn; rfl
  · simp [hn, h]

theorem Ram.write_ok {ram : Ram} {a : Nat} {bs : List UInt8} (h : a + bs.length ≤ ramSize) :
    ram.write (some a) bs = .ok { ram with bytes := patch ram.bytes a bs } := by
  unfold Ram.write
  by_cases hn : bs = []
  · subst hn; simp
  · simp [hn, h]

/-- The ways a copy into guest memory goes. -/
theorem Ram.write_cases (ram : Ram) (p : Ptr) (bs : List UInt8) :
    (∃ bytes, ram.write p bs = .ok { ram with bytes := bytes }) ∨
      ram.write p bs = .error .null ∨ ram.write p bs = .error .wild := by
  unfold Ram.write
  split
  · exact .inl ⟨ram.bytes, rfl⟩
  · cases p with
    | none => exact .inr (.inl rfl)
    | some a =>
      dsimp only
      split
      · exact .inl ⟨_, rfl⟩
      · exact .inr (.inr rfl)

/-- What a copy that returns has done. -/
theorem Ram.write_inv {ram ram' : Ram} {b : Nat} {bs : List UInt8}
    (h : ram.write (some b) bs = .ok ram') :
    ram' = { ram with bytes := patch ram.bytes b bs } ∧ (bs ≠ [] → b + bs.length ≤ ramSize) := by
  by_cases hin : b + bs.length ≤ ramSize
  · rw [Ram.write_ok hin] at h
    cases h
    exact ⟨rfl, fun _ => hin⟩
  · unfold Ram.write at h
    split at h
    · rename_i hnil
      cases h
      rw [hnil, patch_nil]
      exact ⟨rfl, fun hne => absurd rfl hne⟩
    · simp only [if_neg hin] at h
      cases h

/-- A copy into guest memory changes its range only. -/
theorem Ram.write_frame {ram ram' : Ram} {a : Nat} {bs : List UInt8}
    (h : ram.write (some a) bs = .ok ram') {p : Nat} (hp : ¬ Span.Has ⟨a, bs.length⟩ p) :
    ram'.bytes p = ram.bytes p := by
  obtain ⟨rfl, -⟩ := Ram.write_inv h
  exact patch_out hp

theorem Ram.store_frame {ram ram' : Ram} {a n v : Nat} (h : ram.store (some a) n v = .ok ram')
    {p : Nat} (hp : ¬ Span.Has ⟨a, n⟩ p) : ram'.bytes p = ram.bytes p :=
  Ram.write_frame h (by simpa using hp)

/-- The `n` bytes at `p` include `x`. -/
def Ptr.Hits (p : Ptr) (n x : Nat) : Prop := ∃ a, p = some a ∧ Span.Has ⟨a, n⟩ x

/-- `ram'` is `ram` after writes to the bytes of `p` only. -/
structure Ram.Changed (p : Ptr) (n : Nat) (ram ram' : Ram) : Prop where
  base : ram'.base = ram.base
  frame : ∀ x, ¬ p.Hits n x → ram'.bytes x = ram.bytes x

theorem Ram.Changed.refl {p : Ptr} {n : Nat} {ram : Ram} : Ram.Changed p n ram ram :=
  ⟨rfl, fun _ _ => rfl⟩

theorem Ram.Changed.trans {p : Ptr} {n : Nat} {ram ram' ram'' : Ram} (h : Ram.Changed p n ram ram')
    (h' : Ram.Changed p n ram' ram'') : Ram.Changed p n ram ram'' where
  base := h'.base.trans h.base
  frame x hx := (h'.frame x hx).trans (h.frame x hx)

theorem Ram.Changed.mono {p : Ptr} {n k : Nat} {ram ram' : Ram} (h : Ram.Changed p n ram ram')
    (hk : n ≤ k) :
    Ram.Changed p k ram ram' where
  base := h.base
  frame x hx := by
    refine h.frame x ?_
    rintro ⟨a, rfl, ha⟩
    refine hx ⟨a, rfl, ?_⟩
    simp only [Span.Has] at ha ⊢
    omega

theorem Ram.write_changed {ram ram' : Ram} {p : Ptr} {bs : List UInt8} {n : Nat}
    (h : ram.write p bs = .ok ram') (hn : bs.length ≤ n) : Ram.Changed p n ram ram' := by
  cases p with
  | none =>
    unfold Ram.write at h
    split at h
    · cases h
      exact ⟨rfl, fun _ _ => rfl⟩
    · cases h
  | some a =>
    obtain ⟨rfl, -⟩ := Ram.write_inv h
    refine ⟨rfl, fun x hx => patch_out fun ha => hx ⟨a, rfl, ?_⟩⟩
    simp only [Span.Has] at ha ⊢
    omega

theorem Ram.load_ok {ram : Ram} {a n : Nat} (h : a + n ≤ ramSize) :
    ram.load (some a) n = .ok (getLE ram.bytes a n) := by
  rw [Ram.load, Ram.read_ok h]; rfl

/-- A field that is loaded is in guest memory. -/
theorem Ram.load_in {ram : Ram} {a n v : Nat} (h : ram.load (some a) n = .ok v) (hn : n ≠ 0) :
    a + n ≤ ramSize := by
  obtain ⟨bs, hread, -⟩ := bind_eq_ok.mp h
  unfold Ram.read at hread
  rw [if_neg hn] at hread
  simp only at hread
  split at hread
  · assumption
  · cases hread

theorem Ram.store_ok {ram : Ram} {a n v : Nat} (h : a + n ≤ ramSize) :
    ram.store (some a) n v = .ok { ram with bytes := putLE ram.bytes a n v } :=
  Ram.write_ok (by simpa using h)

end KvmHost
