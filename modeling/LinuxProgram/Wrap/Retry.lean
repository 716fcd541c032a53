/-
`Read` and `Write` of wrap.c, which are to repeat a call that was interrupted. They compare the local
variable `n` with what the call returns instead of assigning it, so they make one call and return
whatever the variable held.
-/
import LinuxProgram.Io.Syscall

namespace LinuxProgram.Wrap

open LinuxProgram.Io

/-- From the label `again` on. `n == read(..)` is 1 or 0, and that is compared with -1. -/
def again (n : Int) : List Syscall → Option (Int × List Syscall)
  | [] => none
  | c :: calls =>
    if (if n = c.ret then (1 : Int) else 0) = -1 then
      if c.errno = EINTR then again n calls else some (-1, calls)
    else some (n, calls)

/-- `Read(fd, ptr, nbytes)`, where the calls of `read` have these results; `n` is what the variable holds
before. -/
def read (n : Int) (calls : List Syscall) : Option (Int × List Syscall) := again n calls

/-- `Write(fd, ptr, nbytes)`. -/
def write (n : Int) (calls : List Syscall) : Option (Int × List Syscall) := again n calls

/-- The function calls while it is interrupted and returns the result of the first call that is not. -/
def Retries (f : List Syscall → Option (Int × List Syscall)) (calls : List Syscall) : Prop :=
  ∃ c rest, FirstOf calls c rest ∧ f calls = some (c.ret, rest)

/-- The first call is not interrupted and returns the number `n`. -/
def FirstReturns (n : Int) (calls : List Syscall) : Prop :=
  ∃ c rest, calls = c :: rest ∧ ¬ c.Interrupted ∧ c.ret = n

/-- The value of a comparison is not -1. -/
theorem again_cons (n : Int) (c : Syscall) (calls : List Syscall) : again n (c :: calls) = some (n, calls) := by
  rw [again]
  apply if_neg
  split <;> decide

theorem again_exact (n : Int) (calls : List Syscall) : Retries (again n) calls ↔ FirstReturns n calls := by
  constructor
  · rintro ⟨c, rest, hfirst, hret⟩
    cases calls with
    | nil => cases hret
    | cons d calls =>
      rw [again_cons] at hret
      cases hret
      by_cases hd : d.Interrupted
      · -- one call is gone, but the first uninterrupted one is behind it
        obtain ⟨pre, hcalls, -, -⟩ := (firstOf_cons_of_interrupted hd).1 hfirst
        have := congrArg List.length hcalls
        rw [List.length_append, List.length_cons] at this
        omega
      · obtain ⟨rfl, -⟩ := (firstOf_cons_of_not hd).1 hfirst
        exact ⟨_, _, rfl, hd, rfl⟩
  · rintro ⟨c, rest, rfl, hc, rfl⟩
    exact ⟨c, rest, (firstOf_cons_of_not hc).2 ⟨rfl, rfl⟩, again_cons c.ret c rest⟩

/-- `Read` and `Write` do their work exactly when there is nothing to repeat and the variable happens to
hold what the call returns. -/
theorem read_write_exact (n : Int) (calls : List Syscall) :
    (Retries (read n) calls ↔ FirstReturns n calls) ∧ (Retries (write n) calls ↔ FirstReturns n calls) :=
  ⟨again_exact n calls, again_exact n calls⟩

/-- Five bytes behind an interruption. -/
theorem interrupted_once : ¬ ∀ (n : Int) (calls : List Syscall), (∃ c ∈ calls, ¬ c.Interrupted) →
    Retries (read n) calls ∧ Retries (write n) calls := by
  intro h
  obtain ⟨⟨c, rest, hfirst, hret⟩, -⟩ := h 0 [.interrupted, .returns 5] ⟨.returns 5, by simp, by decide⟩
  obtain ⟨rfl, -⟩ := (firstOf_cons_of_not (by decide)).1 ((firstOf_cons_of_interrupted (by decide)).1 hfirst)
  rw [read, again_cons] at hret
  cases congrArg (Option.map Prod.fst) hret

end LinuxProgram.Wrap
