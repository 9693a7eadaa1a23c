import KvmHost.Memory

/-!
# KvmHost.DiskImg

The disk image of `diskimg.c` and the file calls under it.

`File` is an open regular file as POSIX describes it: contents, a length and a position. What the
kernel decides on its own is left to `env`: the call number `i` either fails (`err`) or moves at
most `k` bytes (`count k`), so every short count and every failure pattern is some `env`. A call
that fails touches neither the file nor the buffer. `limit` is the largest offset of the file
system: `lseek` refuses an offset beyond it, and `diskimg.c` does not look at what `lseek` returns.
-/

namespace KvmHost

open ByteStore

inductive IoRes where
  | err
  | count (k : Nat)
deriving DecidableEq, Repr

-- the largest `off_t`
def offMax : Nat := 2 ^ 63 - 1

structure File where
  bytes : Store
  len : Nat
  pos : Nat
  env : Nat → IoRes
  calls : Nat
  limit : Nat
  /-- nothing is stored past the end: a gap left by a write reads as zeros -/
  hole : ∀ p, len ≤ p → bytes p = 0
  fits : len ≤ limit
  limit_le : limit ≤ offMax

namespace File

/-- `lseek(fd, offset, SEEK_SET)`: an offset that is negative or beyond the limit fails and leaves
the position alone. -/
def lseek (f : File) (offset : Int) : File :=
  if 0 ≤ offset ∧ offset ≤ f.limit then { f with pos := offset.toNat } else f

def tick (f : File) : File := { f with calls := f.calls + 1 }

theorem overwrite_hole (f : File) (bs : List UInt8) (p : Nat)
    (hp : max f.len (f.pos + bs.length) ≤ p) : patch f.bytes f.pos bs p = 0 := by
  rw [patch_out (by simp only [Span.Has]; omega)]
  exact f.hole p (by omega)

theorem overwrite_fits (f : File) {bs : List UInt8} (h : bs ≠ [] ∧ f.pos + bs.length ≤ f.limit) :
    max f.len (f.pos + bs.length) ≤ f.limit := by
  have := f.fits
  omega

/-- Put `bs` at the position, growing the file if they pass its end. -/
def overwrite (f : File) (bs : List UInt8) : File :=
  if h : bs ≠ [] ∧ f.pos + bs.length ≤ f.limit then
    { f with
      bytes := patch f.bytes f.pos bs
      len := max f.len (f.pos + bs.length)
      pos := f.pos + bs.length
      hole := overwrite_hole f bs
      fits := overwrite_fits f h }
  else f

/-- `read(fd, data, size)`; the result is `none` for `-1`. -/
def read (f : File) (ram : Ram) (data : Ptr) (size : Nat) :
    Except Stop (Option Nat × Ram × File) :=
  match f.env f.calls with
  | .err => .ok (none, ram, f.tick)
  | .count k => do
    let n := min k (min size (f.len - f.pos))
    let ram ← ram.write data (slice f.bytes f.pos n)
    return (some n, ram, { f.tick with pos := f.pos + n })

/-- `write(fd, data, size)` -/
def write (f : File) (ram : Ram) (data : Ptr) (size : Nat) :
    Except Stop (Option Nat × File) :=
  match f.env f.calls with
  | .err => .ok (none, f.tick)
  | .count k => do
    let room := f.limit - f.pos
    -- EFBIG: no byte of the request has room below the limit
    if size ≠ 0 ∧ room = 0 then
      return (none, f.tick)
    let n := min k (min size room)
    let bs ← ram.read data n
    return (some n, f.tick.overwrite bs)

@[simp] theorem tick_bytes (f : File) : f.tick.bytes = f.bytes := rfl
@[simp] theorem tick_len (f : File) : f.tick.len = f.len := rfl
@[simp] theorem tick_pos (f : File) : f.tick.pos = f.pos := rfl
@[simp] theorem tick_env (f : File) : f.tick.env = f.env := rfl
@[simp] theorem tick_calls (f : File) : f.tick.calls = f.calls + 1 := rfl
@[simp] theorem tick_limit (f : File) : f.tick.limit = f.limit := rfl

@[simp] theorem overwrite_env (f : File) (bs : List UInt8) : (f.overwrite bs).env = f.env := by
  unfold overwrite; split <;> rfl

@[simp] theorem overwrite_calls (f : File) (bs : List UInt8) :
    (f.overwrite bs).calls = f.calls := by
  unfold overwrite; split <;> rfl

theorem lseek_nat (f : File) {k : Nat} (h : k ≤ f.limit) :
    f.lseek (k : Int) = { f with pos := k } := by
  simp [lseek, h]

@[simp] theorem lseek_bytes (f : File) (offset : Int) : (f.lseek offset).bytes = f.bytes := by
  unfold lseek; split <;> rfl

@[simp] theorem lseek_len (f : File) (offset : Int) : (f.lseek offset).len = f.len := by
  unfold lseek; split <;> rfl

@[simp] theorem lseek_env (f : File) (offset : Int) : (f.lseek offset).env = f.env := by
  unfold lseek; split <;> rfl

@[simp] theorem lseek_calls (f : File) (offset : Int) : (f.lseek offset).calls = f.calls := by
  unfold lseek; split <;> rfl

@[simp] theorem lseek_limit (f : File) (offset : Int) : (f.lseek offset).limit = f.limit := by
  unfold lseek; split <;> rfl

theorem overwrite_bytes {f : File} {bs : List UInt8} (h : f.pos + bs.length ≤ f.limit) :
    (f.overwrite bs).bytes = patch f.bytes f.pos bs := by
  unfold overwrite
  by_cases hb : bs = []
  · subst hb; simp
  · rw [dif_pos ⟨hb, h⟩]

theorem overwrite_pos {f : File} {bs : List UInt8} (h : f.pos + bs.length ≤ f.limit) :
    (f.overwrite bs).pos = f.pos + bs.length := by
  unfold overwrite
  by_cases hb : bs = []
  · subst hb; simp
  · rw [dif_pos ⟨hb, h⟩]

/-- A write that stays inside the file does not change its length. -/
theorem overwrite_len {f : File} {bs : List UInt8} (h : f.pos + bs.length ≤ f.len) :
    (f.overwrite bs).len = f.len := by
  unfold overwrite
  split
  · simp only; omega
  · rfl

end File

/-- `struct diskimg`; `size` is the length `fstat` reported when the image was opened. -/
structure DiskImg where
  fd : File
  size : Nat

def diskimgRead (img : DiskImg) (ram : Ram) (data : Ptr) (offset : Int) (size : Nat) :
    Except Stop (Option Nat × Ram × DiskImg) := do
  let (r, ram, fd) ← (img.fd.lseek offset).read ram data size
  return (r, ram, { img with fd := fd })

def diskimgWrite (img : DiskImg) (ram : Ram) (data : Ptr) (offset : Int) (size : Nat) :
    Except Stop (Option Nat × DiskImg) := do
  let (r, fd) ← (img.fd.lseek offset).write ram data size
  return (r, { img with fd := fd })

def diskimgInit (fd : File) : DiskImg := ⟨fd, fd.len⟩

/-- A disk of 4096 zeros, on which every call moves the whole buffer. -/
def zeroDisk : DiskImg :=
  diskimgInit
    ⟨fun _ => 0, 4096, 0, fun _ => .count 4096, 0, offMax, fun _ _ => rfl, by decide, Nat.le_refl _⟩

/-! ## Calls on a buffer in guest memory

Whatever the position and the kernel's choice, the call returns and guest memory changes in the
buffer only; a call that returns `-1` changes neither memory nor the file. -/

theorem diskimgRead_total (img : DiskImg) (ram : Ram) {a size : Nat} (offset : Int)
    (h : a + size ≤ ramSize) :
    ∃ r bytes img', diskimgRead img ram (some a) offset size =
        .ok (r, { ram with bytes := bytes }, img') ∧
      (∀ x, ¬ Span.Has ⟨a, size⟩ x → bytes x = ram.bytes x) ∧
      (r = none ↔ img.fd.env img.fd.calls = .err) ∧ (r = none → bytes = ram.bytes) ∧
      img'.fd.bytes = img.fd.bytes ∧ img'.fd.len = img.fd.len := by
  unfold diskimgRead File.read
  rw [← File.lseek_bytes img.fd offset, ← File.lseek_len img.fd offset,
    ← File.lseek_env img.fd offset, ← File.lseek_calls img.fd offset]
  generalize img.fd.lseek offset = f
  cases f.env f.calls with
  | err => exact ⟨none, ram.bytes, _, rfl, fun _ _ => rfl, by simp, fun _ => rfl, rfl, rfl⟩
  | count k =>
    have hw : a + (slice f.bytes f.pos (min k (min size (f.len - f.pos)))).length ≤ ramSize := by
      rw [slice_length]; omega
    simp only [Ram.write_ok hw]
    refine ⟨_, _, _, rfl, ?_, by simp, ?_, rfl, rfl⟩
    · intro x hx
      refine patch_out ?_
      simp only [Span.Has, slice_length] at hx ⊢
      omega
    · intro hr
      cases hr

theorem diskimgWrite_total (img : DiskImg) (ram : Ram) {a size : Nat} (offset : Int)
    (h : a + size ≤ ramSize) :
    ∃ r img', diskimgWrite img ram (some a) offset size = .ok (r, img') ∧
      (r = none ↔ img.fd.env img.fd.calls = .err ∨
        (size ≠ 0 ∧ img.fd.limit ≤ (img.fd.lseek offset).pos)) ∧
      (r = none → img'.fd.bytes = img.fd.bytes ∧ img'.fd.len = img.fd.len) := by
  unfold diskimgWrite File.write
  rw [← File.lseek_bytes img.fd offset, ← File.lseek_len img.fd offset,
    ← File.lseek_env img.fd offset, ← File.lseek_calls img.fd offset,
    ← File.lseek_limit img.fd offset]
  generalize img.fd.lseek offset = f
  cases f.env f.calls with
  | err => exact ⟨none, _, rfl, by simp, fun _ => ⟨rfl, rfl⟩⟩
  | count k =>
    simp only
    split
    · rename_i hfull
      exact ⟨none, _, rfl, by simpa [Nat.sub_eq_zero_iff_le] using hfull, fun _ => ⟨rfl, rfl⟩⟩
    · rename_i hfull
      have hr : a + min k (min size (f.limit - f.pos)) ≤ ramSize := by omega
      rw [Ram.read_ok hr]
      refine ⟨_, _, rfl, ?_, ?_⟩
      · simpa [Nat.sub_eq_zero_iff_le] using hfull
      · intro hr
        cases hr

theorem diskimgRead_changed {img img' : DiskImg} {ram ram' : Ram} {data : Ptr} {offset : Int}
    {size : Nat} {r : Option Nat} (h : diskimgRead img ram data offset size = .ok (r, ram', img')) :
    Ram.Changed data size ram ram' := by
  obtain ⟨⟨r', ram₁, fd⟩, hread, h⟩ := bind_eq_ok.mp h
  cases h
  unfold File.read at hread
  split at hread
  · cases hread
    exact ⟨rfl, fun _ _ => rfl⟩
  · obtain ⟨ram₂, hwrite, hread⟩ := bind_eq_ok.mp hread
    cases hread
    refine Ram.write_changed hwrite ?_
    rw [slice_length]
    exact Nat.le_trans (Nat.min_le_right _ _) (Nat.min_le_left _ _)

/-! ## Calls whose range lies in the image

When the whole range asked for is in the file and the buffer is in guest memory, the only thing left
open is the number of bytes the kernel chooses to move. -/

/-- The bytes moved by call number `calls` when `size` are asked for and available. -/
def IoRes.moved (res : IoRes) (size : Nat) : Nat :=
  match res with
  | .err => 0
  | .count k => min k size

theorem IoRes.moved_le (res : IoRes) (size : Nat) : res.moved size ≤ size := by
  cases res with
  | err => exact Nat.zero_le _
  | count k => exact Nat.min_le_right k size

/-- The call's result: the number of bytes moved, or `none` for `-1`. -/
def IoRes.ret (res : IoRes) (size : Nat) : Option Nat :=
  match res with
  | .err => none
  | .count k => some (min k size)

/-- The image after a read of `n` bytes at `off`. -/
def DiskImg.seek (img : DiskImg) (off n : Nat) : DiskImg :=
  { img with fd := { img.fd.tick with pos := off + n } }

/-- The image after a write of `bs` at `off`. -/
def DiskImg.store (img : DiskImg) (off : Nat) (bs : List UInt8) : DiskImg :=
  { img with fd := ({ img.fd.tick with pos := off } : File).overwrite bs }

section InImage

variable {img : DiskImg} {ram : Ram} {a off size : Nat}

variable (img ram a off size) in
theorem diskimgRead_ok (hoff : off + size ≤ img.fd.len) (ha : a + size ≤ ramSize) :
    diskimgRead img ram (some a) (off : Int) size =
      let n := (img.fd.env img.fd.calls).moved size
      .ok ((img.fd.env img.fd.calls).ret size,
        { ram with bytes := patch ram.bytes a (slice img.fd.bytes off n) }, img.seek off n) := by
  unfold diskimgRead
  have hfits := img.fd.fits
  rw [File.lseek_nat _ (by omega)]
  unfold File.read
  cases henv : img.fd.env img.fd.calls with
  | err => simp [IoRes.moved, IoRes.ret, slice, DiskImg.seek]; rfl
  | count k =>
    have hmin : min size (img.fd.len - off) = size := by omega
    have hw : a + (slice img.fd.bytes off (min k size)).length ≤ ramSize := by
      rw [slice_length]; omega
    simp only [hmin, IoRes.moved, IoRes.ret, Ram.write_ok hw]
    rfl

variable (img ram a off size) in
theorem diskimgWrite_ok (hoff : off + size ≤ img.fd.len) (ha : a + size ≤ ramSize) :
    diskimgWrite img ram (some a) (off : Int) size =
      let n := (img.fd.env img.fd.calls).moved size
      .ok ((img.fd.env img.fd.calls).ret size, img.store off (slice ram.bytes a n)) := by
  unfold diskimgWrite
  have hfits := img.fd.fits
  rw [File.lseek_nat _ (by omega)]
  unfold File.write
  cases henv : img.fd.env img.fd.calls with
  | err => simp [IoRes.moved, IoRes.ret, slice, DiskImg.store, File.overwrite]; rfl
  | count k =>
    have hroom : ¬ (size ≠ 0 ∧ img.fd.limit - off = 0) := by omega
    have hmin : min size (img.fd.limit - off) = size := by omega
    have hr : ram.read (some a) (min k size) = .ok (slice ram.bytes a (min k size)) :=
      Ram.read_ok (by omega)
    simp only [hroom, hmin, IoRes.moved, IoRes.ret, if_false, hr]
    rfl

theorem store_bytes {bs : List UInt8} (hoff : off + bs.length ≤ img.fd.len) :
    (img.store off bs).fd.bytes = patch img.fd.bytes off bs := by
  have hfits := img.fd.fits
  exact File.overwrite_bytes (f := { img.fd.tick with pos := off })
    (by simp only [File.tick_limit]; omega)

theorem store_len {bs : List UInt8} (hoff : off + bs.length ≤ img.fd.len) :
    (img.store off bs).fd.len = img.fd.len :=
  File.overwrite_len (f := { img.fd.tick with pos := off }) hoff

theorem store_pos {bs : List UInt8} (hoff : off + bs.length ≤ img.fd.len) :
    (img.store off bs).fd.pos = off + bs.length := by
  have hfits := img.fd.fits
  exact File.overwrite_pos (f := { img.fd.tick with pos := off })
    (by simp only [File.tick_limit]; omega)

theorem store_env (bs : List UInt8) : (img.store off bs).fd.env = img.fd.env :=
  File.overwrite_env _ _

theorem store_calls (bs : List UInt8) : (img.store off bs).fd.calls = img.fd.calls + 1 :=
  File.overwrite_calls _ _

end InImage

end KvmHost
