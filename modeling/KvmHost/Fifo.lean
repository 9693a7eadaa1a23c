import KvmHost.Lib.Circular

/-!
# KvmHost.Fifo

The byte queue of `utils.h`. `head` and `tail` are `unsigned int` and wrap at 2^32; a slot is a
counter masked with `FIFO_MASK`, and `fifo_capacity` is the number of queued bytes.
-/

namespace KvmHost

open Circular

-- `struct fifo`
abbrev Fifo := Buf UInt8

def fifoLen : Nat := 64
def fifoMask : Nat := fifoLen - 1

def fifoIsEmpty (fifo : Fifo) : Bool := decide (fifo.head = fifo.tail)

def fifoCapacity (fifo : Fifo) : Nat := (fifo.tail + 2 ^ 32 - fifo.head) % 2 ^ 32

def fifoIsFull (fifo : Fifo) : Bool := decide (fifoMask < fifoCapacity fifo)

def fifoPut (fifo : Fifo) (value : UInt8) : Bool × Fifo :=
  if fifoIsFull fifo then (false, fifo)
  else
    (true,
      { fifo with
        data := Function.update fifo.data (fifo.tail &&& fifoMask) value
        tail := (fifo.tail + 1) % 2 ^ 32 })

def fifoGet (fifo : Fifo) : Option UInt8 × Fifo :=
  if fifoIsEmpty fifo then (none, fifo)
  else (some (fifo.data (fifo.head &&& fifoMask)), { fifo with head := (fifo.head + 1) % 2 ^ 32 })

/-- The bytes queued. -/
abbrev FifoHolds (fifo : Fifo) (xs : List UInt8) : Prop := Holds fifoLen (2 ^ 32) fifo xs

section

variable {fifo : Fifo} {x : UInt8} {xs : List UInt8}

theorem and_fifoMask (c : Nat) : c &&& fifoMask = c % fifoLen := Nat.and_two_pow_sub_one_eq_mod c 6

theorem fifoLen_dvd : fifoLen ∣ 2 ^ 32 := ⟨2 ^ 26, by decide⟩

theorem fifoCapacity_eq (h : FifoHolds fifo xs) : fifoCapacity fifo = xs.length :=
  used_eq (by decide) h

theorem fifoIsEmpty_iff (h : FifoHolds fifo xs) : fifoIsEmpty fifo = true ↔ xs = [] := by
  unfold fifoIsEmpty
  rw [decide_eq_true_iff]
  exact empty_iff (by decide) h

theorem fifoIsFull_iff (h : FifoHolds fifo xs) : fifoIsFull fifo = true ↔ xs.length = fifoLen := by
  have hle := h.le
  unfold fifoIsFull
  rw [decide_eq_true_iff, fifoCapacity_eq h]
  simp only [fifoMask, fifoLen] at hle ⊢
  omega

theorem fifoPut_ok (h : FifoHolds fifo xs) (hlen : xs.length < fifoLen) (value : UInt8) :
    ∃ fifo', fifoPut fifo value = (true, fifo') ∧ FifoHolds fifo' (xs ++ [value]) := by
  have hfull : ¬ fifoIsFull fifo = true := by
    rw [fifoIsFull_iff h]
    omega
  refine ⟨fifo.put fifoLen (2 ^ 32) value, ?_, h.put fifoLen_dvd hlen value⟩
  unfold fifoPut
  rw [if_neg hfull, and_fifoMask]
  rfl

theorem fifoGet_nil (h : FifoHolds fifo []) : fifoGet fifo = (none, fifo) := by
  unfold fifoGet
  rw [if_pos ((fifoIsEmpty_iff h).mpr rfl)]

theorem fifoGet_cons (h : FifoHolds fifo (x :: xs)) :
    ∃ fifo', fifoGet fifo = (some x, fifo') ∧ FifoHolds fifo' xs := by
  have hempty : ¬ fifoIsEmpty fifo = true := by
    rw [fifoIsEmpty_iff h]
    simp
  obtain ⟨hfront, hpop⟩ := h.pop fifoLen_dvd
  refine ⟨fifo.pop (2 ^ 32), ?_, hpop⟩
  unfold fifoGet
  rw [if_neg hempty, and_fifoMask]
  exact congrArg (fun v => (some v, _)) hfront

end

/-! ## Runs -/

inductive FifoOp where
  | put (value : UInt8)
  | get

/-- One `fifo_put` or `fifo_get`. -/
def fifoDo (fifo : Fifo) : FifoOp → Act UInt8 × Fifo
  | .put value => (.put value (fifoPut fifo value).1, (fifoPut fifo value).2)
  | .get => (.get (fifoGet fifo).1, (fifoGet fifo).2)

def fifoRun : Fifo → List FifoOp → List (Act UInt8) × Fifo
  | fifo, [] => ([], fifo)
  | fifo, op :: ops =>
    let r := fifoRun (fifoDo fifo op).2 ops
    ((fifoDo fifo op).1 :: r.1, r.2)

/-- The bytes from `head` to `tail`. -/
def fifoQueued (fifo : Fifo) : List UInt8 := fifo.elems fifoLen (2 ^ 32)

section

variable {fifo : Fifo} {xs : List UInt8}

theorem fifoPut_full (h : FifoHolds fifo xs) (hlen : xs.length = fifoLen) (value : UInt8) :
    fifoPut fifo value = (false, fifo) := by
  unfold fifoPut
  rw [if_pos ((fifoIsFull_iff h).mpr hlen)]

/-- **The macros are a bounded queue**, one operation. -/
theorem fifoDo_bounded (h : FifoHolds fifo xs) (op : FifoOp) :
    ∃ ys, Bounded fifoLen xs (fifoDo fifo op).1 ys ∧ FifoHolds (fifoDo fifo op).2 ys := by
  cases op with
  | put value =>
    rcases Nat.lt_or_eq_of_le h.le with hlt | hfull
    · obtain ⟨fifo', hput, hholds⟩ := fifoPut_ok h hlt value
      refine ⟨xs ++ [value], ?_, ?_⟩
      · simp only [fifoDo, hput]
        exact .put hlt
      · simp only [fifoDo, hput]
        exact hholds
    · refine ⟨xs, ?_, ?_⟩
      · simp only [fifoDo, fifoPut_full h hfull]
        exact .full hfull
      · simp only [fifoDo, fifoPut_full h hfull]
        exact h
  | get =>
    cases xs with
    | nil =>
      refine ⟨[], ?_, ?_⟩
      · simp only [fifoDo, fifoGet_nil h]
        exact .empty
      · simp only [fifoDo, fifoGet_nil h]
        exact h
    | cons x xs =>
      obtain ⟨fifo', hget, hholds⟩ := fifoGet_cons h
      refine ⟨xs, ?_, ?_⟩
      · simp only [fifoDo, hget]
        exact .get
      · simp only [fifoDo, hget]
        exact hholds

theorem fifoRun_bounded (ops : List FifoOp) : ∀ {fifo : Fifo} {xs : List UInt8}, FifoHolds fifo xs →
    ∃ ys, BoundedRun fifoLen xs (fifoRun fifo ops).1 ys ∧ FifoHolds (fifoRun fifo ops).2 ys := by
  induction ops with
  | nil =>
    intro fifo xs h
    exact ⟨xs, .nil, h⟩
  | cons op ops ih =>
    intro fifo xs h
    obtain ⟨ys, hstep, hys⟩ := fifoDo_bounded h op
    obtain ⟨zs, hrun, hzs⟩ := ih hys
    exact ⟨zs, .cons hstep hrun, hzs⟩

end

/-- What the macros say of a queue that holds `xs`, and when they do nothing. -/
structure FifoReports (fifo : Fifo) (xs : List UInt8) : Prop where
  capacity : fifoCapacity fifo = xs.length
  isEmpty : fifoIsEmpty fifo = true ↔ xs = []
  isFull : fifoIsFull fifo = true ↔ xs.length = 64
  putFails : ∀ value, (fifoPut fifo value).1 = false ↔ xs.length = 64
  putFailed : ∀ value, (fifoPut fifo value).1 = false → (fifoPut fifo value).2 = fifo
  getFails : (fifoGet fifo).1 = none ↔ xs = []
  getFailed : (fifoGet fifo).1 = none → (fifoGet fifo).2 = fifo

theorem FifoHolds.reports {fifo : Fifo} {xs : List UInt8} (h : FifoHolds fifo xs) :
    FifoReports fifo xs where
  capacity := fifoCapacity_eq h
  isEmpty := fifoIsEmpty_iff h
  isFull := fifoIsFull_iff h
  putFails value := by
    rcases Nat.lt_or_eq_of_le h.le with hlt | hfull
    · obtain ⟨fifo', hput, -⟩ := fifoPut_ok h hlt value
      rw [hput]
      simp only [fifoLen] at hlt
      simp
      omega
    · rw [fifoPut_full h hfull]
      exact iff_of_true rfl hfull
  putFailed value := by
    unfold fifoPut
    split
    · exact fun _ => rfl
    · intro hput
      cases hput
  getFails := by
    cases xs with
    | nil =>
      rw [fifoGet_nil h]
      exact iff_of_true rfl rfl
    | cons x xs =>
      obtain ⟨fifo', hget, -⟩ := fifoGet_cons h
      rw [hget]
      simp
  getFailed := by
    unfold fifoGet
    split
    · exact fun _ => rfl
    · intro hget
      cases hget

/-- **The byte queue.** From any counters that are at most 64 apart, a run of puts and gets of any
length is a run of the bounded queue of 64 bytes from those that were queued: the bytes that went in
behind them are the bytes that came out and those that are queued now, in one order, and the macros
report the bytes queued now. -/
theorem fifo_bounded_queue (fifo : Fifo) (hhead : fifo.head < 2 ^ 32) (htail : fifo.tail < 2 ^ 32)
    (hused : (fifo.tail + 2 ^ 32 - fifo.head) % 2 ^ 32 ≤ 64) (ops : List FifoOp) :
    ∃ ys, BoundedRun 64 (fifoQueued fifo) (fifoRun fifo ops).1 ys ∧
      fifoQueued fifo ++ (fifoRun fifo ops).1.flatMap Act.entered =
        (fifoRun fifo ops).1.flatMap Act.left ++ ys ∧
      FifoReports (fifoRun fifo ops).2 ys := by
  have hholds : FifoHolds fifo (fifoQueued fifo) := holds_elems hhead htail hused
  obtain ⟨ys, hrun, hys⟩ := fifoRun_bounded ops hholds
  exact ⟨ys, hrun, hrun.order, FifoHolds.reports hys⟩

/-- Counters one step before 2^32, with nothing queued. -/
def fifoLate : Fifo := ⟨fun _ => 0, 2 ^ 32 - 1, 2 ^ 32 - 1⟩

theorem fifo_bounded_queue_wrap :
    (fifoRun fifoLate [.put 7, .put 8, .get, .get, .get]).1 =
        [.put 7 true, .put 8 true, .get (some 7), .get (some 8), .get none] ∧
      ∃ ys, BoundedRun 64 [] (fifoRun fifoLate [.put 7, .put 8, .get, .get, .get]).1 ys ∧
        FifoReports (fifoRun fifoLate [.put 7, .put 8, .get, .get, .get]).2 ys := by
  obtain ⟨ys, hrun, -, hreports⟩ := fifo_bounded_queue fifoLate (by decide) (by decide) (by decide)
    [.put 7, .put 8, .get, .get, .get]
  exact ⟨by decide +kernel, ys, hrun, hreports⟩

end KvmHost
