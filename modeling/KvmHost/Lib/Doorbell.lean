/-!
# KvmHost.Lib.Doorbell

A consumer that sleeps until a doorbell is rung.

Producer and consumer share some data. The producer may change it at any time and rings when it is
done; the rings are counted. The consumer waits for the count to be nonzero, takes it back to zero
*before* it looks at the data, works, and goes back to wait only after a look at which there was
nothing to do (`Idle`). Whatever the interleaving, a consumer that is not working has left nothing
behind that was rung for (`Step.answered`).
-/

namespace Doorbell

inductive Phase where
  | waiting
  | working
  /-- has looked and found nothing, is not yet waiting -/
  | leaving
deriving DecidableEq, Repr

structure Desk (σ : Type) where
  shared : σ
  rings : Nat
  /-- the producer has rung since it last changed the data -/
  rung : Bool
  phase : Phase

variable {σ : Type}

inductive Step (Idle : σ → Prop) : Desk σ → Desk σ → Prop where
  | change {d : Desk σ} (x : σ) : Step Idle d { d with shared := x, rung := false }
  | ring {d : Desk σ} {k : Nat} : 0 < k → Step Idle d { d with rings := k, rung := true }
  | wake {d : Desk σ} : d.phase = .waiting → Step Idle d { d with rings := 0, phase := .working }
  | work {d : Desk σ} (x : σ) : d.phase = .working → Step Idle d { d with shared := x }
  | look {d : Desk σ} {x : σ} : d.phase = .working → Idle x →
      Step Idle d { d with shared := x, phase := .leaving }
  | leave {d : Desk σ} {x : σ} : d.phase = .leaving → (Idle d.shared → Idle x) →
      Step Idle d { d with shared := x, phase := .waiting }

/-- Nothing that was rung for is left, unless the consumer is working or the bell is still to be
heard. -/
def Answered (Idle : σ → Prop) (d : Desk σ) : Prop :=
  d.rung = true → d.rings = 0 → d.phase ≠ .working → Idle d.shared

theorem Step.answered {Idle : σ → Prop} {d d' : Desk σ} (h : Step Idle d d')
    (hd : Answered Idle d) :
    Answered Idle d' := by
  intro hrung hrings hphase
  cases h with
  | change x => cases hrung
  | ring hk => exact absurd hrings (Nat.ne_of_gt hk)
  | wake _ => exact absurd rfl hphase
  | work x hw => exact absurd hw hphase
  | look _ hidle => exact hidle
  | leave hl hidle => exact hidle (hd hrung hrings fun hw => by rw [hl] at hw; cases hw)

/-! ## The counter

The bell of an operating system is a 64-bit counter that stops at its greatest value. -/

def signal (count : Nat) : Nat := if count < 0xffffffffffffffff then count + 1 else count

theorem le_signal (count : Nat) : count ≤ signal count := by
  unfold signal
  split <;> omega

theorem signal_pos (count : Nat) : 0 < signal count := by
  unfold signal
  split <;> omega

end Doorbell
