/-
The receiving side of a connected socket: the bytes that have arrived and those that have not been read, the end of
the peer's stream, and a failure of the connection.
-/
import Mathlib.Data.List.Basic
import Mathlib.Tactic

namespace LinuxProgram.Io

structure Inbox where
  received : List UInt8
  unread : List UInt8
  finished : Bool
  failed : Bool
  deriving DecidableEq, Repr

/-- What the peer does. -/
inductive Arrival where
  | bytes (chunk : List UInt8)
  | fin
  | reset
  deriving DecidableEq, Repr

namespace Inbox

def empty : Inbox := ⟨[], [], false, false⟩

def arrive (a : Arrival) (i : Inbox) : Option Inbox :=
  if i.failed then none
  else match a with
    | .bytes chunk =>
      if i.finished = false ∧ chunk ≠ [] then
        some { i with received := i.received ++ chunk, unread := i.unread ++ chunk }
      else none
    | .fin => if i.finished then none else some { i with finished := true }
    | .reset => some { i with failed := true }

/-- `read` does not wait. -/
def ready (i : Inbox) : Bool := i.unread ≠ [] || i.finished || i.failed

/-- `n` bytes are read. -/
def drop (n : Nat) (i : Inbox) : Inbox := { i with unread := i.unread.drop n }

variable {i i' : Inbox} {a : Arrival}

theorem arrive_cases (ha : i.arrive a = some i') : i.failed = false ∧ ∃ chunk, i'.received = i.received ++ chunk ∧
    i'.unread = i.unread ++ chunk ∧ (chunk = [] → i'.finished = true ∨ i'.failed = true) := by
  unfold arrive at ha
  split at ha
  · cases ha
  · rename_i hfailed
    refine ⟨by simpa using hfailed, ?_⟩
    cases a with
    | bytes chunk =>
      simp only at ha
      split at ha
      · rename_i hok
        cases ha
        exact ⟨chunk, rfl, rfl, fun hnil => absurd hnil hok.2⟩
      · cases ha
    | fin =>
      simp only at ha
      split at ha
      · cases ha
      · cases ha
        exact ⟨[], by simp, by simp, fun _ => .inl rfl⟩
    | reset =>
      cases ha
      exact ⟨[], by simp, by simp, fun _ => .inr rfl⟩

/-- After an arrival there is something to read. -/
theorem arrive_ready (ha : i.arrive a = some i') : i'.ready = true := by
  obtain ⟨-, chunk, -, hunread, hend⟩ := arrive_cases ha
  by_cases hchunk : chunk = []
  · rcases hend hchunk with hfin | hfail
    · simp [ready, hfin]
    · simp [ready, hfail]
  · simp [ready, hunread, hchunk]

end Inbox

end LinuxProgram.Io
