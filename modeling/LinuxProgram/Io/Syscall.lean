/-
What system calls return. A function that makes one call after another is given the list of their
results and hands on those of the calls that it has not made.
-/
import Mathlib.Data.List.Basic
import Mathlib.Tactic

namespace LinuxProgram.Io

def EINTR : Int := 4

/-- What a call returns, and the `errno` that it leaves when that is -1. -/
structure Syscall where
  ret : Int
  errno : Int
  ret_ge : -1 ≤ ret
  deriving DecidableEq

def Syscall.Interrupted (c : Syscall) : Prop := c.ret = -1 ∧ c.errno = EINTR

instance (c : Syscall) : Decidable c.Interrupted := by
  unfold Syscall.Interrupted; infer_instance

/-- A call that returns a number. -/
def Syscall.returns (n : Nat) : Syscall := ⟨n, 0, by omega⟩

def Syscall.fails (errno : Int) : Syscall := ⟨-1, errno, le_refl _⟩

def Syscall.interrupted : Syscall := .fails EINTR

theorem Syscall.ret_neg {c : Syscall} : c.ret < 0 ↔ c.ret = -1 := by
  have := c.ret_ge
  omega

/-- `errno` behind a call: only a call that fails sets it. -/
def Syscall.errnoAfter (c : Syscall) (errno : Int) : Int := if c.ret = -1 then c.errno else errno

/-- The call is made again while it is interrupted: `c` is the first result that is something else, and
`rest` are the results that are left. -/
def FirstOf (calls : List Syscall) (c : Syscall) (rest : List Syscall) : Prop :=
  ∃ pre, calls = pre ++ c :: rest ∧ (∀ p ∈ pre, p.Interrupted) ∧ ¬ c.Interrupted

variable {c d : Syscall} {calls rest rest' : List Syscall}

theorem firstOf_cons_of_interrupted (hd : d.Interrupted) : FirstOf (d :: calls) c rest ↔ FirstOf calls c rest := by
  constructor
  · rintro ⟨pre, hcalls, hpre, hc⟩
    cases pre with
    | nil =>
      cases hcalls
      exact absurd hd hc
    | cons p pre =>
      cases hcalls
      exact ⟨pre, rfl, fun q hq => hpre q (List.mem_cons_of_mem _ hq), hc⟩
  · rintro ⟨pre, rfl, hpre, hc⟩
    exact ⟨d :: pre, rfl, List.forall_mem_cons.2 ⟨hd, hpre⟩, hc⟩

theorem firstOf_cons_of_not (hd : ¬ d.Interrupted) : FirstOf (d :: calls) c rest ↔ c = d ∧ rest = calls := by
  constructor
  · rintro ⟨pre, hcalls, hpre, hc⟩
    cases pre with
    | nil =>
      cases hcalls
      exact ⟨rfl, rfl⟩
    | cons p pre =>
      cases hcalls
      exact absurd (hpre _ List.mem_cons_self) hd
  · rintro ⟨rfl, rfl⟩
    exact ⟨[], rfl, fun p hp => absurd hp List.not_mem_nil, hd⟩

theorem firstOf_unique (h : FirstOf calls c rest) (h' : FirstOf calls d rest') : c = d ∧ rest = rest' := by
  obtain ⟨pre, rfl, hpre, hc⟩ := h
  induction pre with
  | nil =>
    obtain ⟨rfl, rfl⟩ := (firstOf_cons_of_not hc).1 h'
    exact ⟨rfl, rfl⟩
  | cons p pre ih =>
    obtain ⟨hp, hpre⟩ := List.forall_mem_cons.1 hpre
    exact ih ((firstOf_cons_of_interrupted hp).1 h') hpre

theorem exists_firstOf (h : ∃ c ∈ calls, ¬ c.Interrupted) : ∃ c rest, FirstOf calls c rest := by
  induction calls with
  | nil => simp at h
  | cons d calls ih =>
    by_cases hd : d.Interrupted
    · obtain ⟨c, rest, hfirst⟩ := ih (by simpa [hd] using h)
      exact ⟨c, rest, (firstOf_cons_of_interrupted hd).2 hfirst⟩
    · exact ⟨d, calls, (firstOf_cons_of_not hd).2 ⟨rfl, rfl⟩⟩

theorem FirstOf.mem (h : FirstOf calls c rest) : c ∈ calls := by
  obtain ⟨pre, rfl, -⟩ := h
  exact List.mem_append_right _ List.mem_cons_self

end LinuxProgram.Io
