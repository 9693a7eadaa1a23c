import KvmHost.Memory

/-!
# KvmHost.BootFile

A kernel or initrd file as `vm.c` hands it to the loaders of the two architectures: mapped, with its
size.
-/

namespace KvmHost

open ByteStore

/-- A file that has been mapped. `mmap` of a file that is not empty succeeds; past the end of the
file its last page reads as zeros. -/
structure BootFile where
  size : Nat
  bytes : Store
  -- `st_size` is a signed 64-bit number
  size_lt : size < 2 ^ 63
  zeros : ∀ p, size ≤ p → bytes p = 0

namespace BootFile

def pageSize : Nat := 4096

def mapLen (data : BootFile) : Nat := (data.size + (pageSize - 1)) / pageSize * pageSize

/-- Copy `n` bytes out of the mapping. -/
def read (data : BootFile) (offset n : Nat) : Except Stop (List UInt8) :=
  if n = 0 then .ok []
  else if offset + n ≤ data.mapLen then .ok (slice data.bytes offset n)
  else .error .smash

theorem read_inv {data : BootFile} {offset n : Nat} {bs : List UInt8}
    (h : data.read offset n = .ok bs) :
    bs = slice data.bytes offset n ∧ (n ≠ 0 → offset + n ≤ data.mapLen) := by
  unfold read at h
  split at h
  · rename_i hn
    cases h
    rw [hn]
    exact ⟨rfl, fun hne => absurd rfl hne⟩
  · split at h
    · rename_i hle
      cases h
      exact ⟨rfl, fun _ => hle⟩
    · cases h

theorem read_ok {data : BootFile} {offset n : Nat} (h : offset + n ≤ data.mapLen) :
    data.read offset n = .ok (slice data.bytes offset n) := by
  by_cases h0 : n = 0
  · rw [read, if_pos h0, h0]
    rfl
  · rw [read, if_neg h0, if_pos h]

theorem size_le_mapLen (data : BootFile) : data.size ≤ data.mapLen := by
  unfold mapLen pageSize
  omega

/-- Load an `n`-byte little-endian field of the file. -/
def load (data : BootFile) (offset n : Nat) : Except Stop Nat := do
  let bs ← data.read offset n
  return leNat bs

/-- A field of the first page, of a file that is not empty. -/
theorem load_first {data : BootFile} {offset n : Nat} (h : 0 < data.size)
    (hpage : offset + n ≤ pageSize) :
    data.load offset n = .ok (getLE data.bytes offset n) := by
  have hmap : offset + n ≤ data.mapLen := by
    unfold mapLen
    unfold pageSize at hpage ⊢
    omega
  rw [load, read_ok hmap]
  rfl

theorem load_empty {data : BootFile} {offset n : Nat} (h : data.size = 0) (hn : n ≠ 0) :
    data.load offset n = .error .smash := by
  have hmap : data.mapLen = 0 := by
    unfold mapLen pageSize
    omega
  rw [load, read, if_neg hn, if_neg (by omega)]
  rfl

/-- The whole file can be read. -/
theorem read_all (data : BootFile) :
    data.read 0 data.size = .ok (slice data.bytes 0 data.size) := by
  have hmap := data.size_le_mapLen
  exact read_ok (by omega)

end BootFile

def zeroFile (size : Nat) (h : size < 2 ^ 63) : BootFile := ⟨size, fun _ => 0, h, fun _ _ => rfl⟩

end KvmHost
