import KvmHost.BlkHostile
import KvmHost.DmaRanges
import KvmHost.QueueEnable

/-!
# KvmHost.DmaInRam

What the driver owes so that the device stays in guest memory.

No range is checked by the device (`rx_leaves_ram`), so the obligations are the driver's, and
`DmaOk` states them where the driver acts. When it enables a queue, the ring and the event flags are
in guest memory. When a handler runs on a queue, each descriptor that the driver has posted there,
from the cursor on, names a buffer that is in guest memory, is clear of the ring and is as long as
the device takes it to be without looking; and the chains of a block device are whole. `dma_in_ram`
says that this is enough, over whole runs: the device reaches for nothing outside guest memory.

The invariant is that every enabled queue has its ring and its event flags in guest memory (`Held`).
The loop of the block device is followed request by request: answering one changes its head
descriptor and the bytes of its buffers, so what is posted after it is still there
(`PostedAt.rest`), and the slot of the head is not taken for a new descriptor when the cursor has
gone round.
-/

namespace KvmHost

open ByteStore Lap Stops Turns

/-! ## What the driver owes -/

instance (ram : Ram) (ring n least a : Nat) : Decidable (BufferOk ram ring n least a) :=
  decidable_of_iff
    (ram.base ≤ (descAt ram.bytes a).addr ∧
      ram.bufAt a + (descAt ram.bytes a).len ≤ ramSize ∧
      least ≤ (descAt ram.bytes a).len ∧
      Span.Apart ⟨ram.bufAt a, (descAt ram.bytes a).len⟩ ⟨ring, 16 * n⟩)
    ⟨fun ⟨ha, hi, hl, ho⟩ => ⟨ha, hi, hl, ho⟩, fun h => ⟨h.1, h.2, h.3, h.4⟩⟩

/-- How many of the next `k` slots from position `p` on are available, up to the first that is
not. -/
def posted (ring n : Nat) (ram : Ram) : Nat → Nat → Nat
  | 0, _ => 0
  | k + 1, p => if availAt ring n ram p then posted ring n ram k (p + 1) + 1 else 0

/-- The areas of queue `q` that the device uses are in guest memory. -/
structure VirtioPciDev.AreasIn {β : Type} (dev : VirtioPciDev β) (q : Nat) : Prop where
  ring : dev.ram.base ≤ (dev.vq q).descAddr ∧
    (dev.vq q).descAddr - dev.ram.base + 16 * (dev.vq q).size ≤ ramSize
  driver : dev.ram.base ≤ (dev.vq q).driverAddr ∧
    (dev.vq q).driverAddr - dev.ram.base + 4 ≤ ramSize

instance {β : Type} (dev : VirtioPciDev β) (q : Nat) : Decidable (dev.AreasIn q) :=
  decidable_of_iff
    ((dev.ram.base ≤ (dev.vq q).descAddr ∧
        (dev.vq q).descAddr - dev.ram.base + 16 * (dev.vq q).size ≤ ramSize) ∧
      dev.ram.base ≤ (dev.vq q).driverAddr ∧
        (dev.vq q).driverAddr - dev.ram.base + 4 ≤ ramSize)
    ⟨fun ⟨hr, hd⟩ => ⟨hr, hd⟩, fun h => ⟨h.1, h.2⟩⟩

namespace VirtioKind

variable (k : VirtioKind)

/-- The bytes of a buffer that are used whatever `len` says: the status of a request, and the
header of a frame that is received. -/
def leastBuf : VirtioKind → Nat → Nat
  | blk, _ => 1
  | net, q => if q = virtqRx then virtioHeaderLen else 0

/-- Each descriptor that is posted on the queue names a buffer for the device, and no chain of a
block device ends in a descriptor with NEXT. -/
def PostsOk (q : Nat) (vq : Virtq) (ram : Ram) : Prop :=
  ∀ ring ∈ vq.descRing, ∀ j < posted ring vq.size ram vq.size (vq.cursor.pos vq.size),
    BufferOk ram ring vq.size (k.leastBuf q) (slotAt ring vq.size (vq.cursor.pos vq.size + j)) ∧
    (k = .blk → nextAt ring vq.size ram (vq.cursor.pos vq.size + j) = true →
      j + 1 < posted ring vq.size ram vq.size (vq.cursor.pos vq.size))

instance (q : Nat) (vq : Virtq) (ram : Ram) : Decidable (k.PostsOk q vq ram) :=
  inferInstanceAs (Decidable (∀ ring ∈ vq.descRing, ∀ j < _, _ ∧ _))

/-- What the driver owes in a turn. -/
def DmaOk (t : VirtioPciDev k.Backend × DmaEvent) : Prop :=
  match t.2 with
  | .event (.access a fuel req) =>
    k.KeepsEnabled (t.1, .access a fuel req) ∧ (a.isWrite = true →
      (a.offset = qEnable → (a.copied t.1).queueEnable ≠ 0 →
        (t.1.vq (a.copied t.1).queueSelect).enable = 0 →
          t.1.AreasIn (a.copied t.1).queueSelect) ∧
      (a.offset = notifyData → (t.1.vq (a.copied t.1).vqn).enable ≠ 0 →
        k.PostsOk (a.copied t.1).vqn (t.1.vq (a.copied t.1).vqn) t.1.ram))
  | .event (.handle q _ _) => (t.1.vq q).enable ≠ 0 → k.PostsOk q (t.1.vq q) t.1.ram
  | .event (.getAvail q) => (t.1.vq q).enable ≠ 0
  | .event (.memory _) => True
  | .event (.header _) => True
  | .arm _ => True

instance (t : VirtioPciDev k.Backend × DmaEvent) : Decidable (k.DmaOk t) :=
  match t with
  | (_, .event (.access _ _ _)) => inferInstanceAs (Decidable (_ ∧ (_ → _ ∧ _)))
  | (_, .event (.handle _ _ _)) => inferInstanceAs (Decidable (_ → _))
  | (_, .event (.getAvail _)) => inferInstanceAs (Decidable (_ ≠ _))
  | (_, .event (.memory _)) => .isTrue trivial
  | (_, .event (.header _)) => .isTrue trivial
  | (_, .arm _) => .isTrue trivial

end VirtioKind

/-! ## Posted descriptors -/

section Posted

variable {ring n : Nat} {ram : Ram}

theorem posted_le (k p : Nat) : posted ring n ram k p ≤ k := by
  induction k generalizing p with
  | zero => exact Nat.le_refl 0
  | succ k ih =>
    unfold posted
    split
    · exact Nat.succ_le_succ (ih (p + 1))
    · exact Nat.zero_le _

theorem posted_avail (k : Nat) : ∀ p, ∀ j < posted ring n ram k p,
    availAt ring n ram (p + j) = true := by
  induction k with
  | zero =>
    intro p j hj
    exact absurd hj (Nat.not_lt_zero j)
  | succ k ih =>
    intro p j hj
    unfold posted at hj
    split at hj
    · rename_i ha
      cases j with
      | zero => exact ha
      | succ j =>
        have h := ih (p + 1) j (Nat.lt_of_succ_lt_succ hj)
        rw [Nat.add_right_comm] at h
        exact h
    · exact absurd hj (Nat.not_lt_zero j)

theorem posted_stop (k : Nat) : ∀ p, posted ring n ram k p < k →
    availAt ring n ram (p + posted ring n ram k p) = false := by
  induction k with
  | zero =>
    intro p hlt
    exact absurd hlt (Nat.not_lt_zero _)
  | succ k ih =>
    intro p hlt
    unfold posted at hlt ⊢
    split
    · rename_i ha
      rw [if_pos ha] at hlt
      have h := ih (p + 1) (Nat.lt_of_succ_lt_succ hlt)
      rw [Nat.add_right_comm] at h
      exact h
    · rename_i ha
      exact Bool.eq_false_iff.mpr ha

/-- A slot that is available in one lap is not in the next, as long as its AVAIL flag stays. -/
theorem availAt_lap {ram' : Ram} {p : Nat} (hn : 0 < n) (ha : availAt ring n ram p = true)
    (hbit : (descAt ram'.bytes (slotAt ring n p)).flags.testBit vringPackedDescFAvail =
      (descAt ram.bytes (slotAt ring n p)).flags.testBit vringPackedDescFAvail) :
    availAt ring n ram' (p + n) = false := by
  simp only [availAt, availFor, Bool.and_eq_true, beq_iff_eq] at ha
  unfold availAt availFor
  rw [slotAt_add_lap, wrapAt_add_lap hn, hbit, ha.1]
  simp

end Posted

/-! ## The block device -/

namespace Blk

/-- `len` descriptors stand at position `p`, and the slot after them is not available. -/
structure PostedAt (ring n p : Nat) (ram : Ram) (len : Nat) : Prop where
  le : len ≤ n
  avail : ∀ j < len, availAt ring n ram (p + j) = true
  stop : availAt ring n ram (p + len) = false
  buffer : ∀ j < len, BufferOk ram ring n 1 (slotAt ring n (p + j))
  last : ∀ j < len, nextAt ring n ram (p + j) = true → j + 1 < len

section

variable {dev dev' : VirtioBlkDev} {req : Store} {ring n p len : Nat} {ram : Ram}

theorem PostedAt.of_posted (hn : 0 < n)
    (h : ∀ j < posted ring n ram n p, BufferOk ram ring n 1 (slotAt ring n (p + j)) ∧
      (nextAt ring n ram (p + j) = true → j + 1 < posted ring n ram n p)) :
    PostedAt ring n p ram (posted ring n ram n p) where
  le := posted_le n p
  avail := posted_avail n p
  stop := by
    rcases Nat.lt_or_ge (posted ring n ram n p) n with hlt | hge
    · exact posted_stop n p hlt
    · -- the whole ring is posted
      have hall : posted ring n ram n p = n := Nat.le_antisymm (posted_le n p) hge
      have h0 : availAt ring n ram (p + 0) = true := posted_avail n p 0 (by omega)
      rw [hall]
      exact availAt_lap hn h0 rfl
  buffer := fun j hj => (h j hj).1
  last := fun j hj => (h j hj).2

theorem holds_of_buffer {q least k : Nat} (h : BufferOk ram ring n least (slotAt ring n q))
    (hk : k ≤ (descAt ram.bytes (slotAt ring n q)).len) : Holds ring n ram q k :=
  ⟨h.above, Nat.le_trans (Nat.add_le_add_left hk _) h.inRam⟩

theorem PostedAt.head (h : PostedAt ring n p ram len) (h0 : 0 < len) :
    Holds ring n ram p (descAt ram.bytes (slotAt ring n p)).len := by
  have hb := h.buffer 0 h0
  rw [Nat.add_zero] at hb
  exact holds_of_buffer hb (Nat.le_refl _)

theorem PostedAt.pos (h : PostedAt ring n p ram len) (ha : availAt ring n ram p = true) :
    0 < len := by
  rcases Nat.eq_zero_or_pos len with rfl | hpos
  · rw [← Nat.add_zero p, h.stop] at ha
    cases ha
  · exact hpos

theorem PostedAt.buffersAt (h : PostedAt ring n p ram len) : BuffersAt ring n ram p req := by
  intro ha
  have h0 := h.pos ha
  refine ⟨h.head h0, fun hn _ => ?_⟩
  have h1 : 1 < len := h.last 0 h0 hn
  have hb₁ := h.buffer 1 h1
  refine ⟨fun _ => ⟨⟨holds_of_buffer hb₁ (Nat.le_refl _), hb₁.offRing.symm⟩, fun hn₁ _ => ?_⟩,
    fun _ => holds_of_buffer hb₁ hb₁.least⟩
  have hb₂ := h.buffer 2 (h.last 1 h1 hn₁)
  exact holds_of_buffer hb₂ hb₂.least

theorem PostedAt.chainedAt (req : Store) (h : PostedAt ring n p ram len)
    (hlen : (descAt ram.bytes (slotAt ring n p)).len ≤ VirtioBlkReq.sizeof) :
    chainedAt ring n ram p req = true := by
  unfold Blk.chainedAt
  cases ha : availAt ring n ram p with
  | false => rfl
  | true =>
    have h0 := h.pos ha
    cases hn : nextAt ring n ram p with
    | false => simp [hlen]
    | true =>
      have h1 : 1 < len := h.last 0 h0 hn
      have ha₁ := h.avail 1 h1
      cases hn₁ : nextAt ring n ram (p + 1) with
      | false => simp [hlen, ha₁]
      | true =>
        have ha₂ := h.avail 2 (h.last 1 h1 hn₁)
        simp [hlen, ha₁, ha₂]

/-- What is posted behind the first `s` descriptors is still posted when the slots between are as
they were and the head keeps its AVAIL flag. -/
theorem PostedAt.rest {ram' : Ram} {s : Nat} (hn : 0 < n) (h : PostedAt ring n p ram (s + len))
    (hs : 0 < s) (hbase : ram'.base = ram.base)
    (hkeep : ∀ q, p < q → q < p + n →
      descAt ram'.bytes (slotAt ring n q) = descAt ram.bytes (slotAt ring n q))
    (hhead : (descAt ram'.bytes (slotAt ring n p)).flags.testBit vringPackedDescFAvail =
      (descAt ram.bytes (slotAt ring n p)).flags.testBit vringPackedDescFAvail) :
    PostedAt ring n (p + s) ram' len := by
  have hle := h.le
  have hdesc : ∀ j < len, descAt ram'.bytes (slotAt ring n (p + s + j)) =
      descAt ram.bytes (slotAt ring n (p + (s + j))) := by
    intro j hj
    rw [← Nat.add_assoc]
    exact hkeep _ (by omega) (by omega)
  refine ⟨by omega, ?_, ?_, ?_, ?_⟩
  · intro j hj
    have ha := h.avail (s + j) (by omega)
    unfold availAt at ha ⊢
    rw [hdesc j hj, Nat.add_assoc]
    exact ha
  · have hstop := h.stop
    rw [← Nat.add_assoc] at hstop
    rcases Nat.lt_or_ge (s + len) n with hlt | hge
    · unfold availAt at hstop ⊢
      rw [hkeep _ (by omega) (by omega)]
      exact hstop
    · -- the cursor has gone round and is back at the head
      have h0 := h.avail 0 (by omega)
      have hround : p + s + len = p + n := by omega
      rw [hround]
      exact availAt_lap hn h0 hhead
  · intro j hj
    have hb := h.buffer (s + j) (by omega)
    have hbuf : ram'.bufAt (slotAt ring n (p + s + j)) =
        ram.bufAt (slotAt ring n (p + (s + j))) := by
      unfold Ram.bufAt
      rw [hdesc j hj, hbase]
    refine ⟨?_, ?_, ?_, ?_⟩
    · rw [hbase, hdesc j hj]
      exact hb.above
    · rw [hbuf, hdesc j hj]
      exact hb.inRam
    · rw [hdesc j hj]
      exact hb.least
    · rw [hbuf, hdesc j hj]
      exact hb.offRing
  · intro j hj hnext
    unfold nextAt at hnext
    rw [hdesc j hj] at hnext
    have := h.last (s + j) (by omega) hnext
    omega

/-- A chain of posted descriptors is all there. -/
theorem PostedAt.chain (h : PostedAt ring n p ram len) (h0 : 0 < len) {t : Nat}
    (hnext : ∀ j ≤ t, nextAt ring n ram (p + j) = true) : t + 1 < len := by
  induction t with
  | zero => exact h.last 0 h0 (hnext 0 (Nat.le_refl 0))
  | succ t ih =>
    exact h.last (t + 1) (ih fun j hj => hnext j (Nat.le_succ_of_le hj)) (hnext _ (Nat.le_refl _))

/-- The descriptors that stand behind an answered request. -/
theorem Answered.rest {t : Nat} (hn : 0 < n) (ha : Answered ring n p dev dev' t)
    (h : PostedAt ring n p dev.ram len) :
    PostedAt ring n (p + (t + 2)) dev'.ram (len - (t + 2)) := by
  have hlast : t + 1 < len := h.chain (h.pos ha.avail) ha.next
  obtain ⟨m, st, hbytes, hsame⟩ := ha.bytes
  have hb := h.buffer (t + 1) hlast
  have hoff : ∀ q x, Span.Has ⟨slotAt ring n q, 16⟩ x →
      ¬ Span.Has ⟨dev.ram.bufAt (slotAt ring n (p + (t + 1))), 1⟩ x := by
    intro q x hx hin
    refine hb.offRing.not_has ?_ (slotAt_in_ring hn q hx)
    have hleast := hb.least
    simp only [Span.Has] at hin ⊢
    omega
  have h' : PostedAt ring n p dev.ram (t + 2 + (len - (t + 2))) := by
    rw [Nat.add_sub_cancel' hlast]
    exact h
  refine h'.rest hn (Nat.succ_pos _) ha.base ?_ ?_
  · intro q hpq hlap
    rw [← hsame, hbytes]
    refine descAt_congr fun x hx => finishMem_out ?_ (hoff q x hx)
    exact (slotAt_apart hn hpq hlap).not_has hx
  · rw [hbytes, finishMem_head, hsame]
    · rw [Nat.testBit_xor, Nat.testBit_two_pow_of_ne (by decide), Bool.xor_false]
    · have hring := hb.offRing
      have hleast := hb.least
      have hslot : ring ≤ slotAt ring n p ∧ slotAt ring n p + 16 ≤ ring + 16 * n := by
        have := Nat.mod_lt p hn
        unfold slotAt
        omega
      simp only [Span.Apart] at hring ⊢
      omega

/-- A turn of the loop makes no stray access, and a request that it answers leaves the rest
posted. -/
theorem round_posted (req : Store) (hq : QueueAt dev.vq ring n p)
    (h : PostedAt ring n p dev.ram len) :
    Avoids Stop.Stray (round dev req) ∧
      ∀ dev' req', round dev req = .ok (.loop, dev', req') →
        ∃ p' len', QueueAt dev'.vq ring n p' ∧ PostedAt ring n p' dev'.ram len' := by
  by_cases hlen : (descAt dev.ram.bytes (slotAt ring n p)).len ≤ VirtioBlkReq.sizeof
  · obtain ⟨flow, d, r, hr, hloop⟩ := round_chained hq h.buffersAt (h.chainedAt req hlen)
    rw [hr]
    refine ⟨avoids_ok _, ?_⟩
    intro dev' req' he
    cases he
    obtain ⟨t, ht⟩ := hloop rfl
    exact ⟨_, _, ht.queue, ht.rest hq.pos h⟩
  · cases ha : availAt ring n dev.ram p with
    | false =>
      rw [round, VqDev.getAvail_none hq ha]
      exact ⟨avoids_ok _, fun dev' req' he => by cases he⟩
    | true =>
      -- the header does not fit: the stack is smashed, and guest memory is not left
      have hcopy := copyHeader_at req hq (h.head (h.pos ha))
      rw [if_neg hlen] at hcopy
      rw [round_took req hq ha, body, hcopy]
      exact ⟨avoids_error.mpr (by decide), fun dev' req' he => by cases he⟩

theorem call_posted (fuel : Nat) : ∀ (dev : VirtioBlkDev) (req : Store) (p len : Nat),
    QueueAt dev.vq ring n p → PostedAt ring n p dev.ram len →
      Avoids Stop.Stray (virtioBlkCompleteRequest fuel dev req) := by
  induction fuel with
  | zero =>
    intro dev req p len _ _
    exact avoids_error.mpr (by decide)
  | succ fuel ih =>
    intro dev req p len hq h
    obtain ⟨hround, hloop⟩ := round_posted req hq h
    refine avoids_bind.mpr ⟨hround, fun r hr => ?_⟩
    obtain ⟨flow, dev', req'⟩ := r
    cases flow with
    | ret => exact avoids_ok _
    | loop =>
      obtain ⟨p', len', hq', h'⟩ := hloop dev' req' hr
      exact ih dev' req' p' len' hq' h'

end

end Blk

/-! ## The network device -/

section Net

variable {dev : VirtioNetDev} {ring n least g : Nat}

theorem rx_posted (hp : Posted dev ring n virtioHeaderLen) (hg : dev.vq.guestEvent = some g)
    (hin : g + 4 ≤ ramSize) : ∃ dev', virtioNetCompleteRequestRx dev = .ok dev' := by
  obtain ⟨⟨desc, d₁⟩, hget⟩ : ∃ x, dev.getAvail = .ok x := ⟨_, VqDev.getAvail_eq hp.ringOf⟩
  rcases VqDev.getAvail_inv hget with ⟨rfl, rfl⟩ | ⟨a, vq, rfl, -, -⟩
  · rw [rx_null hget]
    exact disableGuestEvent_ok hg hin
  · have hsame := (getAvail_same hget).2.2.2
    rw [rx_taken hp hget]
    cases dev.backend.returns ((descAt dev.ram.bytes a).len - virtioHeaderLen) with
    | none =>
      have hfailed : (rxFailed dev d₁ a).vq.guestEvent = some g := hsame.trans hg
      exact disableGuestEvent_ok hfailed hin
    | some bs => exact ⟨_, rfl⟩

theorem tx_posted (hp : Posted dev ring n least) (hg : dev.vq.guestEvent = some g)
    (hin : g + 4 ≤ ramSize) : ∃ dev', virtioNetCompleteRequestTx dev = .ok dev' := by
  obtain ⟨⟨desc, d₁⟩, hget⟩ : ∃ x, dev.getAvail = .ok x := ⟨_, VqDev.getAvail_eq hp.ringOf⟩
  rcases VqDev.getAvail_inv hget with ⟨rfl, rfl⟩ | ⟨a, vq, rfl, -, -⟩
  · rw [tx_null hget]
    exact disableGuestEvent_ok hg hin
  · have hsame := (getAvail_same hget).2.2.2.trans hg
    rw [tx_taken hp hget]
    split
    · exact disableGuestEvent_ok hsame hin
    · split
      · exact ⟨_, rfl⟩
      · exact disableGuestEvent_ok (by exact hsame) hin

/-- The descriptor under the cursor, if it is available, is the first that is posted. -/
theorem posted_cursor (h : RingOf dev.vq ring n)
    (hb : ∀ j < posted ring n dev.ram n (dev.vq.cursor.pos n),
      BufferOk dev.ram ring n least (slotAt ring n (dev.vq.cursor.pos n + j))) :
    Posted dev ring n least := by
  refine ⟨h, fun a d₁ hget => ?_⟩
  have hq := h.queueAt
  obtain ⟨-, rfl⟩ := VqDev.getAvail_next hq hget
  have ha : availAt ring n dev.ram (dev.vq.cursor.pos n) = true := by
    cases ha : availAt ring n dev.ram (dev.vq.cursor.pos n) with
    | true => rfl
    | false =>
      rw [VqDev.getAvail_none hq ha] at hget
      cases hget
  refine hb 0 ?_
  obtain ⟨m, rfl⟩ := Nat.exists_eq_succ_of_ne_zero (Nat.ne_of_gt hq.pos)
  unfold posted
  rw [if_pos ha]
  exact Nat.succ_pos _

end Net

/-! ## One turn -/

/-- An enabled queue has its ring and its event flags in guest memory. -/
def Virtq.Held (vq : Virtq) : Prop :=
  vq.enable ≠ 0 → ∃ ring g, vq.descRing = some ring ∧ ring + 16 * vq.size ≤ ramSize ∧
    vq.guestEvent = some g ∧ g + 4 ≤ ramSize

namespace VirtioKind

variable {k : VirtioKind} {fuel : Nat} {req : Store} {q : Nat}

theorem complete_posted {d : VqDev k.Backend} {ring n g : Nat} (h : RingOf d.vq ring n)
    (hg : d.vq.guestEvent = some g) (hin : g + 4 ≤ ramSize) (hp : k.PostsOk q d.vq d.ram) :
    Avoids Stop.Stray ((k.ops fuel req q).completeRequest d) := by
  have hp := hp ring h.descRing
  rw [h.size] at hp
  cases k with
  | blk =>
    have hq := h.queueAt
    refine Blk.call_posted fuel d req _ _ hq (Blk.PostedAt.of_posted hq.pos fun j hj => ?_)
    exact ⟨(hp j hj).1, (hp j hj).2 rfl⟩
  | net =>
    have hb := posted_cursor h fun j hj => (hp j hj).1
    simp only [ops, virtioNetOps]
    split
    · rename_i hrx
      rw [leastBuf, if_pos hrx] at hb
      exact avoids_returns (rx_posted hb hg hin)
    · exact avoids_returns (tx_posted hb hg hin)

/-- A handler on a queue that is in order reaches for guest memory only. -/
theorem queueRanges_in {dev : VirtioPciDev k.Backend} (hready : Ready dev q)
    (hheld : (dev.vq q).Held) (hp : (dev.vq q).enable ≠ 0 → k.PostsOk q (dev.vq q) dev.ram) :
    ∀ r ∈ k.queueRanges fuel req q dev, r.InRam := by
  unfold queueRanges
  split
  · split
    · exact List.forall_mem_nil _
    · refine (handle_reaches (dev.vqDev q)).mp ?_
      unfold virtqHandleAvail
      split
      · exact avoids_ok _
      · rename_i hen
        obtain ⟨ring, g, hring, hend, hg, hin⟩ := hheld hen
        have hidx : (dev.vq q).nextAvailIdx < (dev.vq q).size := by
          cases hready with
          | idle h0 _ _ _ => exact absurd h0 hen
          | live r _ _ _ hi _ => exact hi
        have hringOf : RingOf (dev.vqDev q).vq ring (dev.vq q).size := ⟨hring, rfl, hidx, hend⟩
        refine avoids_bind.mpr ⟨complete_posted hringOf hg hin (hp hen), fun d₁ hd₁ => ?_⟩
        -- the event flags are where they were
        have hg₁ : d₁.vq.guestEvent = some g := (completeRequest_moved hd₁).guestEvent.trans hg
        have hplus : Ptr.plus (some g) 2 = some (g + 2) := plus_ram (by omega)
        rw [hg₁, hplus, Ram.load_ok (by omega), ok_bind]
        split
        · obtain ⟨d₂, h₂⟩ := notifyUsed_ok fuel req q d₁
          rw [h₂]
          exact avoids_ok _
        · exact avoids_ok _
  · exact List.forall_mem_nil _

/-- What carries the induction: every queue is in order, and what it uses is in guest memory. -/
def InOrder {β : Type} (dev : VirtioPciDev β) : Prop := ∀ q, Ready dev q ∧ (dev.vq q).Held

variable {dev dev' : VirtioPciDev k.Backend}

theorem mapped_held (h : dev.AreasIn q) : (dev.mapped q).Held := by
  intro _
  refine ⟨_, _, vmGuestToHost_eq h.ring.1, ?_, vmGuestToHost_eq h.driver.1, h.driver.2⟩
  rw [mapped_size]
  exact h.ring.2

/-- An event keeps the queues held, if areas that are enabled are in guest memory. -/
theorem step_held {ev : Event} (hc : k.KeepsEnabled (dev, ev))
    (hareas : ∀ a fuel req, ev = .access a fuel req → a.isWrite = true → a.offset = qEnable →
      (a.copied dev).queueEnable ≠ 0 → (dev.vq (a.copied dev).queueSelect).enable = 0 →
        dev.AreasIn (a.copied dev).queueSelect)
    (h : (dev.vq q).Held) : ((k.step dev ev).dev.vq q).Held := by
  have hcase := k.step_vq dev ev
  generalize (k.step dev ev).dev = dev' at hcase
  cases hcase with
  | same hvq _ =>
    rw [hvq]
    exact h
  | @enable a fuel req _ q' addr len hw hoff hval hsel hq h0 hvq _ =>
    rw [hvq]
    by_cases hqq : q = q'
    · subst hqq hsel
      have hself : (dev.enabled (a.copied dev).queueSelect addr len).vq (a.copied dev).queueSelect =
        dev.mapped (a.copied dev).queueSelect := Function.update_self _ _ _
      rw [hself]
      exact mapped_held (hareas a fuel req rfl hw hoff hval h0)
    · have hother : (dev.enabled q' addr len).vq q = dev.vq q := Function.update_of_ne hqq _ _
      rw [hother]
      exact h
  | @write a fuel req _ q' hw hreg hsel hlt hq hvq _ =>
    rw [hvq]
    by_cases hqq : q = q'
    · subst hqq hsel
      rw [Function.update_self]
      obtain ⟨hkeep, hsize⟩ := (hc hw).2.1 hreg hlt
      intro hen
      rw [hkeep] at hen
      rw [hsize hen]
      exact h hen
    · rw [Function.update_of_ne hqq]
      exact h
  | @move _ _ q' vq hq hm hvq _ =>
    rw [hvq]
    by_cases hqq : q = q'
    · subst hqq
      rw [Function.update_self]
      unfold Virtq.Held Virtq.enable Virtq.size at h ⊢
      rw [hm.info, hm.descRing, hm.guestEvent]
      exact h
    · rw [Function.update_of_ne hqq]
      exact h

/-- A thread that writes the event flags of its queue leaves the queues alone. -/
theorem arm_vq (h : k.dmaNext dev (.arm q) = some dev') :
    dev'.vq = dev.vq ∧ dev'.enables = dev.enables := by
  have hdev : dev' = (k.dmaStep dev (.arm q)).dev := by
    unfold dmaNext at h
    split at h
    · exact (Option.some.inj h).symm
    · cases h
  rw [hdev]
  simp only [dmaStep]
  split
  · cases hd : enableGuestEvent (dev.vqDev q) with
    | error e => exact ⟨rfl, rfl⟩
    | ok d =>
      obtain ⟨ram, -, hd⟩ := bind_eq_ok.mp hd
      cases hd
      exact ⟨Function.update_eq_self q dev.vq, rfl⟩
  · exact ⟨rfl, rfl⟩

theorem dmaOk_keeps {ev : Event} (h : k.DmaOk (dev, .event ev)) : k.KeepsEnabled (dev, ev) := by
  cases ev with
  | access a fuel req => exact h.1
  | handle q fuel req => trivial
  | getAvail q => trivial
  | memory m => trivial
  | header h => trivial

theorem dmaOk_areas {ev : Event} (h : k.DmaOk (dev, .event ev)) :
    ∀ a fuel req, ev = .access a fuel req → a.isWrite = true → a.offset = qEnable →
      (a.copied dev).queueEnable ≠ 0 → (dev.vq (a.copied dev).queueSelect).enable = 0 →
        dev.AreasIn (a.copied dev).queueSelect := by
  rintro a fuel req rfl hw hoff
  exact (h.2 hw).1 hoff

theorem dmaNext_inOrder {ev : DmaEvent} (h : InOrder dev) (hok : k.DmaOk (dev, ev))
    (hnext : k.dmaNext dev ev = some dev') : InOrder dev' := by
  intro q
  cases ev with
  | event ev =>
    have hdev : dev' = (k.step dev ev).dev := (next_eq hnext).symm
    rw [hdev]
    exact ⟨step_ready (dmaOk_keeps hok) (h q).1,
      step_held (dmaOk_keeps hok) (dmaOk_areas hok) (h q).2⟩
  | arm p =>
    obtain ⟨hvq, hen⟩ := arm_vq hnext
    refine ⟨(h q).1.congr (by rw [hvq]) (by unfold VirtioPciDev.runsOf; rw [hen]), ?_⟩
    rw [hvq]
    exact (h q).2

/-- A turn on a device in order reaches for guest memory only. -/
theorem dmaRanges_in {ev : DmaEvent} (h : InOrder dev) (hok : k.DmaOk (dev, ev)) :
    ∀ r ∈ k.dmaRanges dev ev, r.InRam := by
  cases ev with
  | arm q =>
    simp only [dmaRanges]
    split
    · rename_i harm
      obtain ⟨-, -, e, he, hq⟩ := harm
      -- its thread runs, so the queue is enabled
      have hen : (dev.vq q).enable ≠ 0 := by
        cases (h q).1 with
        | live _ h0 _ _ _ _ => exact h0
        | idle _ hruns _ _ =>
          have hmem : e ∈ dev.runsOf q := List.mem_filter.mpr ⟨he, by simp [hq]⟩
          rw [hruns] at hmem
          cases hmem
      obtain ⟨ring, g, -, -, hg, hin⟩ := (h q).2 hen
      have hplus : Ptr.plus (some g) 2 = some (g + 2) := plus_ram (by omega)
      have hflags : (dev.vqDev q).eventFlags = ⟨some (g + 2), 2⟩ := by
        rw [← hplus, ← hg]
        rfl
      rw [List.forall_mem_singleton, hflags, inRam_some (by decide)]
      omega
    · exact List.forall_mem_nil _
  | event ev =>
    cases ev with
    | access a fuel req =>
      simp only [dmaRanges]
      split
      · rename_i hnot
        have hready : Ready (a.copied dev) (a.copied dev).vqn :=
          (h _).1.congr (by rw [copied_vq]) (by unfold VirtioPciDev.runsOf; rw [copied_enables])
        refine queueRanges_in hready ?_ ?_
        · rw [copied_vq]
          exact (h _).2
        · rw [copied_vq, copied_ram]
          exact (hok.2 hnot.1).2 hnot.2
      · exact List.forall_mem_nil _
    | handle q fuel req => exact queueRanges_in (h q).1 (h q).2 hok
    | getAvail q =>
      simp only [dmaRanges]
      split
      · obtain ⟨ring, g, hring, hend, -, -⟩ := (h q).2 hok
        have hidx : (dev.vq q).nextAvailIdx < (dev.vq q).size := by
          obtain ⟨r, -, -, hlt, -⟩ := (h q).1.enabledOk hok
          exact hlt
        have hflags : (dev.vqDev q).slotFlags =
            ⟨some (ring + 16 * (dev.vq q).nextAvailIdx + 14), 2⟩ := by
          have hplus : Ptr.plus (some ring) (16 * (dev.vq q).nextAvailIdx) =
              some (ring + 16 * (dev.vq q).nextAvailIdx) :=
            plus_ram (by omega)
          have hplus' : Ptr.plus (some (ring + 16 * (dev.vq q).nextAvailIdx)) 14 =
              some (ring + 16 * (dev.vq q).nextAvailIdx + 14) :=
            plus_ram (by omega)
          rw [← hplus', ← hplus, ← hring]
          rfl
        rw [List.forall_mem_singleton, hflags, inRam_some (by decide)]
        omega
      · exact List.forall_mem_nil _
    | memory m => exact List.forall_mem_nil _
    | header hd => exact List.forall_mem_nil _

theorem initPci_inOrder (host : Host k.Backend) : InOrder (k.initPci host) := by
  intro q
  have hready := k.initPci_ready host q
  refine ⟨hready, fun hen => ?_⟩
  cases hready with
  | idle h0 _ _ _ => exact absurd h0 hen
  | live _ _ hruns _ _ _ => cases k <;> cases hruns

end VirtioKind

/-- **DMA stays in guest memory.** In any run of a device from its creation in which the driver
enables queues only with areas in guest memory, and each descriptor that is posted when a handler
runs names a buffer in guest memory, no turn reaches for a byte outside guest memory. The turns are
accesses to the window of the device, calls of the handlers and writes of the event flags by the
queue threads; each is one step. -/
theorem dma_in_ram (k : VirtioKind) (host : Host k.Backend) (evs : List DmaEvent)
    (hok : ∀ t ∈ k.dmaRun host evs, k.DmaOk t) :
    ∀ t ∈ k.dmaRun host evs, ¬ (k.dmaStep t.1 t.2).Strays ∧
      ∀ r ∈ k.dmaRanges t.1 t.2, r.InRam := by
  have hinv : ∀ t ∈ k.dmaRun host evs, VirtioKind.InOrder t.1 :=
    turns_invariant (fun _ _ _ hi hc hn => VirtioKind.dmaNext_inOrder hi hc hn)
      (VirtioKind.initPci_inOrder host) hok
  intro t ht
  have hin := VirtioKind.dmaRanges_in (hinv t ht) (hok t ht)
  exact ⟨(VirtioKind.dmaStep_strays t.1 t.2).mpr hin, hin⟩

/-! ## A receive buffer -/

/-- The first descriptor of a ring at the start of guest memory names 64 bytes, `buf` bytes further
on. -/
def rxHost (base buf : Nat) : Host Tap :=
  { netHost with
    ram := ⟨base, putDesc (fun _ => 0) 0 ⟨base + buf, 64, 0, 128⟩⟩
    backend := { netHost.backend with frames := fun _ => some shortFrame } }

theorem queueAddr_access {offset : Nat} (base : Nat) (h : offset + 8 ≤ barWindow) :
    1 ≤ (toLE 8 base).length ∧ (toLE 8 base).length ≤ 8 ∧
      offset + (toLE 8 base).length ≤ barWindow := by
  rw [toLE_length]
  exact ⟨by decide, Nat.le_refl 8, h⟩

/-- The driver puts the areas of queue 0 at `base` and enables it, and its thread gets a frame. -/
def rxTurns (base : Nat) : List DmaEvent :=
  [.event (barWrite 32 (toLE 8 base) (queueAddr_access base (by decide))),
    .event (barWrite 48 (toLE 8 base) (queueAddr_access base (by decide))),
    .event setQueueEnable, .event (.handle 0 0 fun _ => 0)]

theorem dma_in_ram_rx :
    (∀ base ∈ [0, 2 ^ 31], ∃ t ∈ VirtioKind.net.dmaRun (rxHost base 4096) (rxTurns base),
      (VirtioKind.net.dmaRanges t.1 t.2).length = 5) ∧
    ∀ base ∈ [0, 2 ^ 31], ∀ t ∈ VirtioKind.net.dmaRun (rxHost base 4096) (rxTurns base),
      ¬ (VirtioKind.net.dmaStep t.1 t.2).Strays ∧
        ∀ r ∈ VirtioKind.net.dmaRanges t.1 t.2, r.InRam := by
  refine ⟨by decide +kernel, fun base hbase => ?_⟩
  refine dma_in_ram .net (rxHost base 4096) (rxTurns base) ?_
  revert base
  decide +kernel

/-- A buffer that begins eight bytes before the end of guest memory, and a ring below its start. -/
theorem rx_leaves_ram :
    (∀ base ∈ [0, 2 ^ 31], ∃ t ∈ VirtioKind.net.dmaRun (rxHost base (ramSize - 8)) (rxTurns base),
      (VirtioKind.net.dmaStep t.1 t.2).Strays) ∧
    ∃ t ∈ VirtioKind.net.dmaRun (rxHost (2 ^ 31) 64) (rxTurns 0),
      (VirtioKind.net.dmaStep t.1 t.2).Strays := by
  constructor
  · decide +kernel
  · decide +kernel

end KvmHost
