/-
Who frees what in the echo server with threads: every `CINFO` that is allocated is held by one thread, or by `main`
between `malloc` and `pthread_create`, and every connection to be served has one owner, in every interleaving.
-/
import LinuxProgram.Echo.Threads
import LinuxProgram.Machine.Ownership
import LinuxProgram.Machine.Reach

namespace LinuxProgram.Echo.Threads

open LinuxProgram.Io LinuxProgram.Machine LinuxProgram.Machine.Connections

/-- A thread, or `main` where there is none, holds the `CINFO` at an address. -/
def Holds (s : Server) (info : Nat) : Option Nat → Prop
  | some tid => ∃ t, s.threads tid = some t ∧ t.info = info
  | none => s.main = .create info

/-- A thread, or `main` where there is none, is to serve the connection on a descriptor. -/
def Owns (s : Server) (cfd : Nat) : Option Nat → Prop
  | some tid => ∃ info h, s.threads tid = some ⟨info, .serving h⟩ ∧ s.heap info = some cfd
  | none => s.main = .malloc cfd ∨ ∃ info, s.main = .create info ∧ s.heap info = some cfd

/-- The `CINFO`s that are allocated have one holder each, and the connections to be served are open and have one
owner each. -/
structure Owned (s : Server) : Prop where
  fd : s.conns s.fd = none
  holds : Exclusive (Holds s) fun info => ∃ cfd, s.heap info = some cfd
  held : ∀ info cfd, s.heap info = some cfd → ∃ o, Holds s info o
  owns : Exclusive (Owns s) fun cfd => ∃ c, s.conns cfd = some c
  fresh : s.stale = false

section Ownership

variable {s s' : Server}

theorem owned_of_none (hthreads : ∀ tid, s.threads tid = none) (hmain : s.main = .accept ∨ s.main = .exited)
    (hheap : ∀ info, s.heap info = none) (hfd : s.conns s.fd = none) (hstale : s.stale = false) : Owned s := by
  refine ⟨hfd, Exclusive.of_none ?_, by simp [hheap], Exclusive.of_none ?_, hstale⟩
  · rintro info (_ | tid) <;> rcases hmain with hmain | hmain <;> simp [Holds, hthreads, hmain]
  · rintro cfd (_ | tid) <;> rcases hmain with hmain | hmain <;> simp [Owns, hthreads, hmain]

/-- What a connection is does not matter. -/
theorem conns_update {cfd : Nat} {c c' : Conn} (hc : s.conns cfd = some c) (d : Nat) :
    (∃ e, Function.update s.conns cfd (some c') d = some e) ↔ ∃ e, s.conns d = some e := by
  by_cases hd : d = cfd
  · simp [hd, hc]
  · simp [Function.update_of_ne hd]

variable (h : Owned s)

include h

theorem Owned.ne_fd {cfd : Nat} {c : Conn} (hc : s.conns cfd = some c) : cfd ≠ s.fd := by
  rintro rfl
  simp [h.fd] at hc

/-- If `main` has no `CINFO`, all of them are held by threads. -/
theorem Owned.held_thread (hmain : ∀ info, s.main ≠ .create info) {info cfd : Nat} (hinfo : s.heap info = some cfd) :
    ∃ tid t, s.threads tid = some t ∧ t.info = info := by
  obtain ⟨_ | tid, ho⟩ := h.held info cfd hinfo
  · exact absurd ho (hmain info)
  · exact ⟨tid, ho⟩

theorem Owned.accept {cfd : Nat} {c : Conn} {backlog : List Conn} (hmain : s.main = .accept) (hne : cfd ≠ s.fd)
    (hfree : s.conns cfd = none) :
    Owned { s with backlog := backlog, conns := Function.update s.conns cfd (some c), main := .malloc cfd } := by
  refine ⟨?_, h.holds.mono ?_ fun _ hi => hi, ?_, h.owns.give cfd none (by simp [hfree]) ?_ ?_, h.fresh⟩
  · exact (Function.update_of_ne hne.symm _ _).trans h.fd
  · rintro info (_ | tid) <;> simp [Holds]
  · intro info d hinfo
    obtain ⟨tid, ho⟩ := h.held_thread (by simp [hmain]) hinfo
    exact ⟨some tid, ho⟩
  · rintro d (_ | tid) ho
    · simp only [Owns, MainLoc.malloc.injEq, reduceCtorEq, false_and, exists_false, or_false] at ho
      exact .inr ⟨ho.symm, rfl⟩
    · exact .inl ho
  · rintro d (⟨e, he⟩ | rfl)
    · refine ⟨e, (Function.update_of_ne ?_ _ _).trans he⟩
      rintro rfl
      simp [hfree] at he
    · exact ⟨c, Function.update_self ..⟩

theorem Owned.mallocFails {cfd : Nat} (hmain : s.main = .malloc cfd) : Owned { s with main := .accept } := by
  refine ⟨h.fd, h.holds.mono ?_ fun _ hi => hi, ?_, h.owns.mono ?_ fun _ hd => hd, h.fresh⟩
  · rintro info (_ | tid) <;> simp [Holds]
  · intro info d hinfo
    obtain ⟨tid, ho⟩ := h.held_thread (by simp [hmain]) hinfo
    exact ⟨some tid, ho⟩
  · rintro d (_ | tid) <;> simp [Owns]

theorem Owned.malloc {cfd info : Nat} (hmain : s.main = .malloc cfd) (hfree : s.heap info = none) :
    Owned { s with heap := Function.update s.heap info (some cfd), main := .create info } := by
  -- whoever holds a `CINFO` holds another one
  have hne : ∀ i o, Holds s i o → i ≠ info := by
    rintro i o ho rfl
    obtain ⟨d, hd⟩ := h.holds.there i o ho
    simp [hfree] at hd
  refine ⟨h.fd, h.holds.give info none (by simp [hfree]) ?_ ?_, ?_, h.owns.mono ?_ fun _ hd => hd, h.fresh⟩
  · rintro i (_ | tid) ho
    · exact .inr ⟨(MainLoc.create.inj ho).symm, rfl⟩
    · exact .inl ho
  · rintro i (⟨d, hd⟩ | rfl)
    · refine ⟨d, (Function.update_of_ne ?_ _ _).trans hd⟩
      rintro rfl
      simp [hfree] at hd
    · exact ⟨cfd, Function.update_self ..⟩
  · intro i d hi
    simp only [Function.update_apply] at hi
    split at hi
    · rename_i heq
      exact ⟨none, congrArg MainLoc.create heq.symm⟩
    · obtain ⟨tid, ho⟩ := h.held_thread (by simp [hmain]) hi
      exact ⟨some tid, ho⟩
  · rintro d (_ | tid) ho
    · simp only [Owns, reduceCtorEq, MainLoc.create.injEq, false_or, exists_eq_left', Function.update_self,
        Option.some.injEq] at ho
      exact .inl (by rw [hmain, ho])
    · obtain ⟨i, hd, ht, hi⟩ := ho
      refine ⟨i, hd, ht, ?_⟩
      rwa [← Function.update_of_ne (hne i (some tid) ⟨_, ht, rfl⟩) (some cfd) s.heap]

/-- `main` hands its `CINFO` over to the new thread, and the connection with it. -/
theorem Owned.create {info tid : Nat} (hmain : s.main = .create info) (hfree : s.threads tid = none) :
    Owned
      { s with threads := Function.update s.threads tid (some ⟨info, .serving handler.start⟩), main := .accept } := by
  refine ⟨h.fd, h.holds.move (Equiv.swap none (some tid)) ?_ fun _ hi => hi, ?_,
    h.owns.move (Equiv.swap none (some tid)) ?_ fun _ hd => hd, h.fresh⟩
  · rintro i (_ | t) ho
    · simp [Holds] at ho
    · by_cases ht : t = tid
      · subst ht
        simp only [Holds, Function.update_self, Option.some.injEq, exists_eq_left'] at ho
        rw [Equiv.swap_apply_right, ← ho]
        exact hmain
      · rw [Equiv.swap_apply_of_ne_of_ne (by simp) (by simpa using ht)]
        simpa [Holds, Function.update_of_ne ht] using ho
  · intro i d hi
    obtain ⟨_ | t, ho⟩ := h.held i d hi
    · refine ⟨some tid, _, Function.update_self .., ?_⟩
      exact MainLoc.create.inj (hmain.symm.trans ho)
    · have ht : t ≠ tid := by
        rintro rfl
        simp [Holds, hfree] at ho
      exact ⟨some t, by simpa [Holds, Function.update_of_ne ht] using ho⟩
  · rintro d (_ | t) ho
    · simp [Owns] at ho
    · by_cases ht : t = tid
      · subst ht
        obtain ⟨i, hd, hthread, hi⟩ := ho
        simp only [Function.update_self, Option.some.injEq, Thread.mk.injEq] at hthread
        rw [Equiv.swap_apply_right]
        exact .inr ⟨i, by rw [hmain, hthread.1], hi⟩
      · rw [Equiv.swap_apply_of_ne_of_ne (by simp) (by simpa using ht)]
        simpa [Owns, Function.update_of_ne ht] using ho

/-- A thread that goes on keeps its `CINFO`. -/
theorem Owned.relocate {tid info : Nat} {loc loc' : Loc} (ht : s.threads tid = some ⟨info, loc⟩)
    {conns : Nat → Option Conn} {closed : List Conn} (hfd : conns s.fd = none)
    (howns : Exclusive (Owns { s with threads := Function.update s.threads tid (some ⟨info, loc'⟩) })
      fun cfd => ∃ c, conns cfd = some c) :
    Owned { s with
      conns := conns
      closed := closed
      threads := Function.update s.threads tid (some ⟨info, loc'⟩) } := by
  have hholds : ∀ i o, Holds { s with threads := Function.update s.threads tid (some ⟨info, loc'⟩) } i o ↔
      Holds s i o := by
    rintro i (_ | t)
    · rfl
    · by_cases hne : t = tid
      · subst hne
        simp [Holds, ht]
      · simp [Holds, Function.update_of_ne hne]
  refine ⟨hfd, h.holds.mono (fun i o => (hholds i o).1) fun _ hi => hi, ?_,
    howns.mono (fun _ _ ho => ho) fun _ hd => hd, h.fresh⟩
  intro i d hi
  obtain ⟨o, ho⟩ := h.held i d hi
  exact ⟨o, (hholds i o).2 ho⟩

theorem Owned.go {tid info cfd : Nat} {hd hd' : Stage} {c c' : Conn} (ht : s.threads tid = some ⟨info, .serving hd⟩)
    (hc : s.conns cfd = some c) :
    Owned { s with
      conns := Function.update s.conns cfd (some c')
      threads := Function.update s.threads tid (some ⟨info, .serving hd'⟩) } := by
  apply h.relocate ht
  · exact (Function.update_of_ne (h.ne_fd hc).symm _ _).trans h.fd
  · refine h.owns.mono ?_ fun d => (conns_update hc d).2
    rintro d (_ | t) ho
    · exact ho
    · by_cases hne : t = tid
      · subst hne
        simp only [Owns, Function.update_self, Option.some.injEq, Thread.mk.injEq] at ho
        obtain ⟨i, g, ⟨rfl, -⟩, hi⟩ := ho
        exact ⟨_, hd, ht, hi⟩
      · simpa [Owns, Function.update_of_ne hne] using ho

theorem Owned.close {tid info cfd : Nat} {hd : Stage} {c' : Conn} (ht : s.threads tid = some ⟨info, .serving hd⟩)
    (hinfo : s.heap info = some cfd) :
    Owned { s with
      conns := Function.update s.conns cfd none
      closed := c' :: s.closed
      threads := Function.update s.threads tid (some ⟨info, .closed⟩) } := by
  have hold : Owns s cfd (some tid) := ⟨info, hd, ht, hinfo⟩
  obtain ⟨c, hc⟩ := h.owns.there _ _ hold
  apply h.relocate ht
  · exact (Function.update_of_ne (h.ne_fd hc).symm _ _).trans h.fd
  · -- the thread was the only one to serve it
    refine h.owns.take hold ?_ fun d hne ⟨e, he⟩ => ⟨e, (Function.update_of_ne hne _ _).trans he⟩
    rintro d (_ | t) ho
    · exact ⟨ho, by simp⟩
    · have hne : t ≠ tid := by
        rintro rfl
        simp [Owns] at ho
      exact ⟨by simpa [Owns, Function.update_of_ne hne] using ho, by simpa using hne⟩

theorem Owned.free {tid info : Nat} (ht : s.threads tid = some ⟨info, .closed⟩) :
    Owned { s with heap := Function.update s.heap info none, threads := Function.update s.threads tid none } := by
  have hold : Holds s info (some tid) := ⟨_, ht, rfl⟩
  have hleft : ∀ i o, Holds { s with threads := Function.update s.threads tid none } i o ↔
      Holds s i o ∧ o ≠ some tid := by
    rintro i (_ | t)
    · simp [Holds]
    · by_cases hne : t = tid
      · simp [Holds, hne]
      · simp [Holds, hne]
  have hne : ∀ i o, Holds s i o → o ≠ some tid → i ≠ info := by
    rintro i o ho hother rfl
    exact hother (h.holds.unique i o _ ho hold)
  refine ⟨h.fd,
    h.holds.take hold (fun i o => (hleft i o).1) fun i hi ⟨d, hd⟩ => ⟨d, (Function.update_of_ne hi _ _).trans hd⟩,
    ?_, h.owns.mono ?_ fun _ hd => hd, h.fresh⟩
  · intro i d hi
    simp only [Function.update_apply] at hi
    split at hi
    · cases hi
    · rename_i hi'
      obtain ⟨o, ho⟩ := h.held i d hi
      refine ⟨o, (hleft i o).2 ⟨ho, ?_⟩⟩
      rintro rfl
      obtain ⟨t, ht', rfl⟩ := ho
      rw [ht] at ht'
      cases ht'
      exact hi' rfl
  · rintro d (_ | t) ho
    · rcases ho with hm | ⟨i, hm, hi⟩
      · exact .inl hm
      · refine .inr ⟨i, hm, ?_⟩
        rwa [← Function.update_of_ne (hne i none hm (by simp)) none s.heap]
    · obtain ⟨i, g, hthread, hi⟩ := ho
      have htid : t ≠ tid := by
        rintro rfl
        simp at hthread
      simp only [Function.update_of_ne htid] at hthread
      refine ⟨i, g, hthread, ?_⟩
      rwa [← Function.update_of_ne (hne i (some t) ⟨_, hthread, rfl⟩ (by simpa using htid)) none s.heap]

omit h

/-- One case for each thing that the server, a client or the kernel may do. -/
theorem owned_step {a : Action} (h : Owned s) (hs : StepCase s a s') : Owned s' := by
  cases hs with
  | connect => exact ⟨h.fd, h.holds, h.held, h.owns, h.fresh⟩
  | arriveQueued => exact ⟨h.fd, h.holds, h.held, h.owns, h.fresh⟩
  | arrive hc _ =>
    refine ⟨?_, h.holds, h.held, h.owns.mono (fun _ _ ho => ho) fun d => (conns_update hc d).2, h.fresh⟩
    exact (Function.update_of_ne (h.ne_fd hc).symm _ _).trans h.fd
  | exit => exact owned_of_none (fun _ => rfl) (.inr rfl) (fun _ => rfl) rfl h.fresh
  | accept hmain _ hne hfree => exact h.accept hmain hne hfree
  | mallocFails hmain => exact h.mallocFails hmain
  | malloc hmain hfree => exact h.malloc hmain hfree
  | create hmain hfree => exact h.create hmain hfree
  | stale ht hstale _ =>
    -- the `CINFO` of a thread is allocated, and the connection that it serves open
    exfalso
    rcases hstale with hinfo | ⟨g, cfd, hloc, hinfo, hc⟩
    · obtain ⟨d, hd⟩ := h.holds.there _ (some _) ⟨_, ht, rfl⟩
      simp [hinfo] at hd
    · obtain ⟨c, hd⟩ := h.owns.there cfd (some _) ⟨_, g, by rw [ht, ← hloc], hinfo⟩
      simp [hc] at hd
  | go ht _ hc _ => exact h.go ht hc
  | close ht hinfo _ _ => exact h.close ht hinfo
  | free ht _ => exact h.free ht

theorem owned_reach {fd : Nat} (h : Reach step (main fd) s) : Owned s :=
  h.invariant (owned_of_none (fun _ => rfl) (.inl rfl) (fun _ => rfl) rfl rfl) fun _ _ _ hu hs =>
    owned_step hu (step_cases hs)

end Ownership

end LinuxProgram.Echo.Threads
