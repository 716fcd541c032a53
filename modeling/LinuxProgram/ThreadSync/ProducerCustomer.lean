/-
The producers and customers of `6_producer_custmoer_sem.c`: threads that push nodes onto and pop them
from one linked list, between the waits and posts of two semaphores. A step is one access to `head`,
one to the `next` field of a node, or one call.

`malloc` succeeds and returns memory that is not in use, also such as was freed. A freed node reads as
anything; `free` of it, and a null pointer that is dereferenced, end the process. The `data` of a node
is only printed and left out. `linked` and `taken` record the nodes in the order in which producers
linked them in and customers took them out.
-/
import LinuxProgram.Machine.Threads

namespace LinuxProgram.ThreadSync

open LinuxProgram.Machine

/-- The value `main` gives `sem_pro`. -/
def semProInit : Nat := 10

/-- The semaphores, the list, and the heap with the `next` fields of the nodes in use. -/
structure Shared where
  semPro : Nat
  semCust : Nat
  head : Option Nat
  heap : Nat → Option (Option Nat)
  linked : List Nat
  taken : List Nat
  crashed : Bool

/-- Where a thread stands, with the pointers it holds: `temp`, and for `head = head->next` first the
value of `head` and then that of its `next` field. -/
inductive Loc where
  | proWait
  | malloc
  | link (temp : Nat)
  | push (temp : Nat)
  | proPost
  | custWait
  | test
  | noProduct
  | take
  | load (temp : Option Nat)
  | next (temp p : Option Nat)
  | pop (temp next : Option Nat)
  | free (temp : Option Nat)
  | custPost
  deriving DecidableEq, Repr

/-- The statement at a location; the value `x` is the address from `malloc`, or what a freed node reads
as. -/
def exec (sh : Shared) (x : Option Nat) : Loc → Option (Shared × Loc)
  | .proWait => if 0 < sh.semPro then some ({ sh with semPro := sh.semPro - 1 }, .malloc) else none
  | .malloc => x.bind fun temp =>
    if sh.heap temp = none then
      some ({ sh with heap := Function.update sh.heap temp (some none) }, .link temp)
    else none
  | .link temp =>
    some ({ sh with heap := Function.update sh.heap temp ((sh.heap temp).map fun _ => sh.head) }, .push temp)
  | .push temp => some ({ sh with head := some temp, linked := temp :: sh.linked }, .proPost)
  | .proPost => some ({ sh with semCust := sh.semCust + 1 }, .proWait)
  | .custWait => if 0 < sh.semCust then some ({ sh with semCust := sh.semCust - 1 }, .test) else none
  | .test => some (sh, if sh.head = none then .noProduct else .take)
  | .noProduct => some (sh, .custWait)
  | .take => some (sh, .load sh.head)
  | .load temp => some (sh, .next temp sh.head)
  | .next temp none => some ({ sh with crashed := true }, .next temp none)
  | .next temp (some p) => some (sh, .pop temp ((sh.heap p).getD x))
  | .pop temp next => some ({ sh with head := next, taken := temp.toList ++ sh.taken }, .free temp)
  | .free none => some ({ sh with crashed := true }, .free none)
  | .free (some temp) =>
    if sh.heap temp = none then some ({ sh with crashed := true }, .free (some temp))
    else some ({ sh with heap := Function.update sh.heap temp none }, .custPost)
  | .custPost => some ({ sh with semPro := sh.semPro + 1 }, .custWait)

/-- `producer` and `customer`. -/
def code (l : Loc) : Instr Empty Empty Shared (Option Nat) Loc :=
  .act fun _ sh x => if sh.crashed then none else (exec sh x l).map fun r => (r.1, r.2, [])

abbrev State := Machine.State Empty Empty Shared Loc

/-- The program after `main` has created its threads; there, 5 producers and 3 customers. -/
def main (producers customers : Nat) : State where
  shared := ⟨semProInit, 0, none, fun _ => none, [], [], false⟩
  owner := fun m => m.elim
  threads := List.replicate producers (.run .proWait) ++ List.replicate customers (.run .custWait)

/-- A thread between its `sem_wait` and its `sem_post`. -/
def Loc.inside : Loc → Bool
  | .proWait | .custWait => false
  | _ => true

/-- A customer that has read `NULL` from `head`. -/
def Loc.foundNull : Loc → Bool
  | .noProduct | .load none | .next none _ | .next (some _) none | .pop none _ | .free none => true
  | _ => false

end LinuxProgram.ThreadSync
