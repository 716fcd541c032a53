/-
`7_philosopher.c`: five philosophers, who wait for the chopstick in the right hand and try the one in the left.
Neighbours do not dine at the same time, nobody waits with a chopstick in the hand, and in every schedule that
leaves nobody out there is somebody to dine again.
-/
import LinuxProgram.Machine.Trylock
import Mathlib.Data.Fintype.Basic
import Mathlib.Tactic

namespace LinuxProgram.ThreadSync.Philosopher

open LinuxProgram.Machine LinuxProgram.Machine.Trylock

/-- The mutex that `dine` locks first: the own chopstick, but for the last philosopher. -/
def right (num : Fin 5) : Fin 5 := if num < 4 then num else 0

/-- The mutex that `dine` tries. -/
def left (num : Fin 5) : Fin 5 := if num < 4 then num + 1 else num

/-- The table after the turns of the threads in any order. -/
def run (turns : List (Fin 5)) : Table (Fin 5) (Fin 5) := Table.run right left turns

/-- The thread is at its `printf`. -/
def dines (s : Table (Fin 5) (Fin 5)) (num : Fin 5) : Prop := s.stage num = .uses

instance (s : Table (Fin 5) (Fin 5)) (num : Fin 5) : Decidable (dines s num) := inferInstanceAs (Decidable (_ = _))

theorem right_ne_left (num : Fin 5) : right num ≠ left num := by
  revert num
  decide

theorem owned (turns : List (Fin 5)) : (run turns).Owned right left := owned_run right_ne_left turns

/-- The chopstick that the fourth philosopher waits for is nobody else's first, and the one he tries is nobody's:
in every schedule that leaves nobody out a `trylock` succeeds again and again. -/
theorem dine_again (sched : Nat → Fin 5) (hfair : ∀ num t, ∃ t', t ≤ t' ∧ sched t' = num) (t : Nat) :
    ∃ t', t ≤ t' ∧ ∃ num, (before right left sched t').stage num = .tries ∧
    dines (before right left sched (t' + 1)) num := by
  apply begins_again right_ne_left (c := 3)
  · decide
  · decide
  · exact hfair

/-- One after the other. -/
theorem dine_again_in_turn : ∃ t', 1000 ≤ t' ∧ ∃ num,
    (before right left (fun n => Fin.ofNat 5 n) t').stage num = .tries ∧
      dines (before right left (fun n => Fin.ofNat 5 n) (t' + 1)) num := by
  refine dine_again (fun n => Fin.ofNat 5 n) (fun num t => ⟨5 * t + num, by omega, ?_⟩) 1000
  apply Fin.ext
  rw [Fin.val_ofNat]
  omega

end LinuxProgram.ThreadSync.Philosopher
