import KvmHost.QueueBanks

/-!
# KvmHost.GuestFeatures

What the device keeps of the feature words that the driver writes.

The driver has one register `guest_feature` for two words of features, and `guest_feature_select`
says which word is meant: the words are banked registers (`Lib.Banks`), and `wordWritten` is what
they should hold. `virtio_pci_space_write` calls `virtio_pci_write_guest_feature` for a write to
`guest_feature_select`, not for one to `guest_feature`, and that function adds bits to
`dev->guest_feature` and never takes any away. So a word is the bits of all values that
`guest_feature` had as the word was selected (`wordLatched`).
-/

namespace KvmHost

open ByteStore

/-- A write to one of the two registers. -/
inductive FeatureWrite where
  | select (v : Nat)
  | feature (v : Nat)

namespace FeatureWrite

def access : FeatureWrite → RegAccess
  | select v => .write .guestFeatureSelect v
  | feature v => .write .guestFeature v

/-- What the write is to the two words. -/
def action : FeatureWrite → Banks.Action Nat Unit Nat
  | select v => ⟨some (v % 2 ^ 32), fun _ => none⟩
  | feature v => ⟨none, fun _ => some (v % 2 ^ 32)⟩

end FeatureWrite

/-- What was written last to `guest_feature` while `word` was selected. -/
def wordWritten (word : Nat) (ws : List FeatureWrite) : Nat :=
  (Banks.lastWritten word () 0 (ws.map FeatureWrite.action)).getD 0

/-- The bits of `guest_feature`, at first `reg`, at the writes of `word` to
`guest_feature_select`. -/
def wordLatched (word : Nat) : Nat → List FeatureWrite → Nat
  | _, [] => 0
  | reg, .select v :: ws => (if v % 2 ^ 32 = word then reg else 0) ||| wordLatched word reg ws
  | _, .feature v :: ws => wordLatched word (v % 2 ^ 32) ws

theorem wordLatched_lt (word : Nat) (ws : List FeatureWrite) :
    ∀ {reg : Nat}, reg < 2 ^ 32 → wordLatched word reg ws < 2 ^ 32 := by
  induction ws with
  | nil =>
    intro reg _
    exact Nat.two_pow_pos 32
  | cons w ws ih =>
    intro reg hreg
    cases w with
    | select v =>
      refine Nat.or_lt_two_pow ?_ (ih hreg)
      split
      · exact hreg
      · exact Nat.two_pow_pos 32
    | feature v => exact ih (Nat.mod_lt v (Nat.two_pow_pos 32))

section

variable {β : Type} (ops : Nat → VirtqOps β)

/-- The bits that a write of `word` to `guest_feature_select` adds, when `guest_feature` is
`reg`. -/
def latchedBits (word reg : Nat) : Nat :=
  (if word = 0 then reg else 0) ||| (if word = 1 then reg else 0) <<< 32

theorem writeGuestFeature_eq (dev : VirtioPciDev β) :
    virtioPciWriteGuestFeature dev =
      { dev with
        guestFeature :=
          dev.guestFeature ||| latchedBits dev.guestFeatureSelect dev.guestFeatureReg } := by
  unfold virtioPciWriteGuestFeature latchedBits
  split
  · rename_i h0
    simp [h0]
  · rename_i h1
    simp [h1]
  · rename_i h0 h1
    rw [if_neg h0, if_neg h1, Nat.zero_shiftLeft, Nat.or_zero, Nat.or_zero]

theorem regStep_guestFeatureSelect (dev : VirtioPciDev β) (v : Nat) :
    ∃ dev', regStep ops dev (.write .guestFeatureSelect v) = .ok dev' ∧
      dev'.guestFeatureReg = dev.guestFeatureReg ∧
      dev'.guestFeature = dev.guestFeature ||| latchedBits (v % 2 ^ 32) dev.guestFeatureReg := by
  have hsel : (dev.setConfig (putLE dev.config 8 4 v)).guestFeatureSelect = v % 2 ^ 32 :=
    getLE_putLE_same _ _ _ _
  have hreg : (dev.setConfig (putLE dev.config 8 4 v)).guestFeatureReg = dev.guestFeatureReg :=
    getLE_putLE_apart (by decide)
  have hstep : regStep ops dev (.write .guestFeatureSelect v) =
      .ok (virtioPciWriteGuestFeature (dev.setConfig (putLE dev.config 8 4 v))) := regStep_write _ _
  rw [hstep, writeGuestFeature_eq, hsel, hreg]
  exact ⟨_, rfl, hreg, rfl⟩

theorem regStep_guestFeature (dev : VirtioPciDev β) (v : Nat) :
    ∃ dev', regStep ops dev (.write .guestFeature v) = .ok dev' ∧
      dev'.guestFeatureReg = v % 2 ^ 32 ∧ dev'.guestFeature = dev.guestFeature := by
  have hstep : regStep ops dev (.write .guestFeature v) =
      .ok (dev.setConfig (putLE dev.config 12 4 v)) :=
    regStep_write _ _
  exact ⟨_, hstep, getLE_putLE_same _ _ _ _, rfl⟩

theorem or_pairs (a x y x' y' : Nat) :
    a ||| (x ||| y) ||| (x' ||| y') = a ||| (x ||| x' ||| (y ||| y')) := by
  ac_rfl

/-- A run adds the latched bits of both words. -/
theorem regRun_features (ws : List FeatureWrite) : ∀ dev : VirtioPciDev β,
    ∃ dev', regRun ops dev (ws.map FeatureWrite.access) = .ok dev' ∧
      dev'.guestFeature = dev.guestFeature |||
        (wordLatched 0 dev.guestFeatureReg ws ||| wordLatched 1 dev.guestFeatureReg ws <<< 32) := by
  induction ws with
  | nil =>
    intro dev
    exact ⟨dev, rfl, by simp [wordLatched]⟩
  | cons w ws ih =>
    intro dev
    cases w with
    | select v =>
      obtain ⟨dev₁, hstep, hreg, hval⟩ := regStep_guestFeatureSelect ops dev v
      obtain ⟨dev', hrun, hlast⟩ := ih dev₁
      refine ⟨dev', ?_, ?_⟩
      · rw [regRun, List.map_cons, List.foldlM_cons, FeatureWrite.access, hstep]
        exact hrun
      · rw [hlast, hval, hreg, latchedBits, wordLatched, wordLatched, Nat.shiftLeft_or_distrib]
        exact or_pairs ..
    | feature v =>
      obtain ⟨dev₁, hstep, hreg, hval⟩ := regStep_guestFeature ops dev v
      obtain ⟨dev', hrun, hlast⟩ := ih dev₁
      refine ⟨dev', ?_, ?_⟩
      · rw [regRun, List.map_cons, List.foldlM_cons, FeatureWrite.access, hstep]
        exact hrun
      · rw [hlast, hval, hreg]
        rfl

end

/-! ## From creation on -/

theorem initPci_features (k : VirtioKind) (host : Host k.Backend) :
    (k.initPci host).guestFeature = 0 ∧ (k.initPci host).guestFeatureReg = 0 := by
  cases k with
  | blk => exact ⟨rfl, (getLE_putLE_apart (by decide)).trans (getLE_putLE_apart (by decide))⟩
  | net => exact ⟨rfl, (getLE_putLE_apart (by decide)).trans (getLE_putLE_apart (by decide))⟩

theorem word_halves {lo : Nat} (h : lo < 2 ^ 32) (hi : Nat) :
    (lo ||| hi <<< 32) % 2 ^ 32 = lo ∧ (lo ||| hi <<< 32) / 2 ^ 32 = hi := by
  have hadd : lo ||| hi <<< 32 = 2 ^ 32 * hi + lo := by
    rw [Nat.or_comm, ← Nat.shiftLeft_add_eq_or_of_lt h, Nat.shiftLeft_eq, Nat.mul_comm]
  rw [hadd]
  omega

theorem features_latched (k : VirtioKind) (fuel : Nat) (req : Store) (host : Host k.Backend)
    (ws : List FeatureWrite) :
    ∃ dev, regRun (k.ops fuel req) (k.initPci host) (ws.map FeatureWrite.access) = .ok dev ∧
      dev.guestFeature % 2 ^ 32 = wordLatched 0 0 ws ∧
      dev.guestFeature / 2 ^ 32 = wordLatched 1 0 ws := by
  obtain ⟨hfeature, hreg⟩ := initPci_features k host
  obtain ⟨dev, hrun, hval⟩ := regRun_features (k.ops fuel req) ws (k.initPci host)
  rw [hfeature, hreg, Nat.zero_or] at hval
  obtain ⟨hlo, hhi⟩ := word_halves (wordLatched_lt 0 ws (Nat.two_pow_pos 32)) (wordLatched 1 0 ws)
  rw [← hval] at hlo hhi
  exact ⟨dev, hrun, hlo, hhi⟩

/-- **The feature words are those latched by the selections.** After any writes to the two registers
a word of `dev->guest_feature` has the bits of the values that `guest_feature` had at the selections
of that word. The words are those that the driver wrote last exactly when, for both words, the bits
latched at the selections are the value written while the word was selected. In the order of writes
that drivers use they are not, unless both words are 0 (`negotiate_right_iff`). -/
theorem guest_feature_words (k : VirtioKind) (fuel : Nat) (req : Store) (host : Host k.Backend)
    (ws : List FeatureWrite) :
    ∃ dev, regRun (k.ops fuel req) (k.initPci host) (ws.map FeatureWrite.access) = .ok dev ∧
      dev.guestFeature % 2 ^ 32 = wordLatched 0 0 ws ∧
      dev.guestFeature / 2 ^ 32 = wordLatched 1 0 ws ∧
      ((dev.guestFeature % 2 ^ 32 = wordWritten 0 ws ∧
          dev.guestFeature / 2 ^ 32 = wordWritten 1 ws) ↔
        wordLatched 0 0 ws = wordWritten 0 ws ∧ wordLatched 1 0 ws = wordWritten 1 ws) := by
  obtain ⟨dev, hrun, hlo, hhi⟩ := features_latched k fuel req host ws
  refine ⟨dev, hrun, hlo, hhi, ?_⟩
  rw [hlo, hhi]

/-- What a driver does: the low word of the features, then the high one. -/
def negotiate (lo hi : Nat) : List FeatureWrite := [.select 0, .feature lo, .select 1, .feature hi]

/-- After the usual negotiation the low word is 0 and the high one is the low word of the driver. -/
theorem negotiate_right_iff (k : VirtioKind) (fuel : Nat) (req : Store) (host : Host k.Backend)
    {lo hi : Nat} (hlo : lo < 2 ^ 32) :
    ∃ dev, regRun (k.ops fuel req) (k.initPci host) ((negotiate lo hi).map FeatureWrite.access) =
        .ok dev ∧
      ((dev.guestFeature % 2 ^ 32 = lo ∧ dev.guestFeature / 2 ^ 32 = hi) ↔ lo = 0 ∧ hi = 0) := by
  obtain ⟨dev, hrun, h0, h1⟩ := features_latched k fuel req host (negotiate lo hi)
  have hlow : wordLatched 0 0 (negotiate lo hi) = 0 := by simp [wordLatched, negotiate]
  have hhigh : wordLatched 1 0 (negotiate lo hi) = lo % 2 ^ 32 := by
    simp [wordLatched, negotiate]
  refine ⟨dev, hrun, ?_⟩
  rw [h0, h1, hlow, hhigh, Nat.mod_eq_of_lt hlo]
  omega

/-- `VIRTIO_F_VERSION_1` and `VIRTIO_F_RING_PACKED`, and bit 16: the low word is kept as the high
one. -/
theorem guest_feature_misplaced :
    ∃ dev, regRun (VirtioKind.net.ops 0 fun _ => 0) (VirtioKind.net.initPci netHost)
        ((negotiate (2 ^ 16) 5).map FeatureWrite.access) = .ok dev ∧
      dev.guestFeature = 2 ^ 48 ∧ wordWritten 0 (negotiate (2 ^ 16) 5) = 2 ^ 16 ∧
      wordWritten 1 (negotiate (2 ^ 16) 5) = 5 :=
  ⟨_, rfl, by decide +kernel, rfl, rfl⟩

end KvmHost
