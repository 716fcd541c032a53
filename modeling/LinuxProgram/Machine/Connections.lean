/-
A server with many connections at the same time, each served by a handler that runs in steps. What a connection is,
how its peer acts on it and what a step of the handler does to it are parameters. A server that does no more to its
connections than `World.Step` allows has each of them in a state that it reaches when it is served alone.
-/
import Mathlib.Logic.Function.Basic
import Mathlib.Tactic

namespace LinuxProgram.Machine.Connections

variable {C H A X : Type}

/-- What a handler does after a step: it goes on, it leaves the connection until it is started again, or it closes
the connection. -/
inductive Next (H : Type) where
  | go (h : H)
  | done
  | close
  deriving DecidableEq, Repr

/-- The handler after its step. -/
def Next.handler : Next H → Option H
  | .go h => some h
  | _ => none

/-- `A` is what a peer does, `H` where a handler stands, and `X` the results of its system calls. -/
structure Handler (C H A X : Type) where
  fresh : C
  arrive : A → C → Option C
  /-- The connections for which a handler is started. -/
  starts : C → Bool
  start : H
  run : H → X → C → Option (C × Next H)

/-- What there is for a handler stays there until the handler takes it. -/
def Handler.Level (K : Handler C H A X) : Prop :=
  ∀ a c c', K.arrive a c = some c' → K.starts c = true → K.starts c' = true

/-! ## One connection -/

/-- The states of a connection that is served alone, with the handler that is at work on it. -/
inductive Alone (K : Handler C H A X) : C → Option H → Prop where
  | fresh : Alone K K.fresh none
  | arrive {c c' : C} {h : Option H} {a : A} (hc : Alone K c h) (ha : K.arrive a c = some c') : Alone K c' h
  | start {c : C} (hc : Alone K c none) (hs : K.starts c = true) : Alone K c (some K.start)
  | go {c c' : C} {h h' : H} {x : X} (hc : Alone K c (some h)) (hr : K.run h x c = some (c', .go h')) :
      Alone K c' (some h')
  | done {c c' : C} {h : H} {x : X} (hc : Alone K c (some h)) (hr : K.run h x c = some (c', .done)) : Alone K c' none

/-- The connections that a handler has closed. -/
inductive Ended (K : Handler C H A X) : C → Prop where
  | close {c c' : C} {h : H} {x : X} (hc : Alone K c (some h)) (hr : K.run h x c = some (c', .close)) : Ended K c'

/-! ## All connections -/

/-- The connections that wait to be accepted, those that are open on a descriptor, and those that have been closed. -/
structure World (C H : Type) where
  queued : List C
  fds : Nat → Option (C × Option H)
  closed : List C

namespace World

/-- What may happen to the connections of a server. -/
inductive Step (K : Handler C H A X) (w : World C H) : World C H → Prop where
  | connect : Step K w { w with queued := w.queued ++ [K.fresh] }
  | arriveQueued {i : Nat} {c c' : C} {a : A} (hc : w.queued[i]? = some c) (ha : K.arrive a c = some c') :
      Step K w { w with queued := w.queued.set i c' }
  | arrive {fd : Nat} {c c' : C} {h : Option H} {a : A} (hc : w.fds fd = some (c, h)) (ha : K.arrive a c = some c') :
      Step K w { w with fds := Function.update w.fds fd (some (c', h)) }
  | accept {fd : Nat} {c : C} {queued : List C} (hq : w.queued = c :: queued) (hfree : w.fds fd = none) :
      Step K w { w with queued := queued, fds := Function.update w.fds fd (some (c, none)) }
  | start {fd : Nat} {c : C} (hc : w.fds fd = some (c, none)) (hs : K.starts c = true) :
      Step K w { w with fds := Function.update w.fds fd (some (c, some K.start)) }
  | go {fd : Nat} {c c' : C} {h h' : H} {x : X} (hc : w.fds fd = some (c, some h))
      (hr : K.run h x c = some (c', .go h')) :
      Step K w { w with fds := Function.update w.fds fd (some (c', some h')) }
  | done {fd : Nat} {c c' : C} {h : H} {x : X} (hc : w.fds fd = some (c, some h))
      (hr : K.run h x c = some (c', .done)) :
      Step K w { w with fds := Function.update w.fds fd (some (c', none)) }
  | close {fd : Nat} {c c' : C} {h : H} {x : X} (hc : w.fds fd = some (c, some h))
      (hr : K.run h x c = some (c', .close)) :
      Step K w { w with fds := Function.update w.fds fd none, closed := c' :: w.closed }
  /-- The process ends. -/
  | exit : Step K w { w with queued := [], fds := fun _ => none }

/-- No connection shows that there are others. -/
structure Sound (K : Handler C H A X) (w : World C H) : Prop where
  queued : ∀ c ∈ w.queued, Alone K c none
  fds : ∀ fd c h, w.fds fd = some (c, h) → Alone K c h
  closed : ∀ c ∈ w.closed, Ended K c

variable {K : Handler C H A X} {w w' : World C H}

theorem Sound.init : Sound K ⟨[], fun _ => none, []⟩ := by
  constructor <;> simp

/-- One descriptor changes. -/
theorem Sound.fds_update (h : Sound K w) {fd : Nat} {p : Option (C × Option H)}
    (hp : ∀ c h, p = some (c, h) → Alone K c h) :
    ∀ fd' c h, Function.update w.fds fd p fd' = some (c, h) → Alone K c h := by
  intro fd' c h' hc
  rw [Function.update_apply] at hc
  split at hc
  · exact hp c h' hc
  · exact h.fds fd' c h' hc

theorem Sound.set (h : Sound K w) {fd : Nat} {c : C} {o : Option H} (hc : Alone K c o) :
    Sound K { w with fds := Function.update w.fds fd (some (c, o)) } := by
  refine ⟨h.queued, h.fds_update ?_, h.closed⟩
  rintro c' o' ⟨⟩
  exact hc

theorem Sound.step (h : Sound K w) (hs : Step K w w') : Sound K w' := by
  cases hs with
  | connect =>
    refine ⟨?_, h.fds, h.closed⟩
    intro c hc
    rcases List.mem_append.1 hc with hc | hc
    · exact h.queued c hc
    · rw [List.mem_singleton.1 hc]
      exact .fresh
  | arriveQueued hc ha =>
    refine ⟨?_, h.fds, h.closed⟩
    intro d hd
    rcases List.mem_or_eq_of_mem_set hd with hd | rfl
    · exact h.queued d hd
    · exact (h.queued _ (List.mem_of_getElem? hc)).arrive ha
  | arrive hc ha => exact h.set ((h.fds _ _ _ hc).arrive ha)
  | accept hq _ =>
    have hc := h.queued _ (by rw [hq]; exact List.mem_cons_self)
    refine ⟨?_, (h.set hc).fds, h.closed⟩
    intro d hd
    apply h.queued d
    rw [hq]
    exact List.mem_cons_of_mem _ hd
  | start hc hs => exact h.set ((h.fds _ _ _ hc).start hs)
  | go hc hr => exact h.set ((h.fds _ _ _ hc).go hr)
  | done hc hr => exact h.set ((h.fds _ _ _ hc).done hr)
  | close hc hr =>
    refine ⟨h.queued, h.fds_update ?_, ?_⟩
    · rintro c' o' ⟨⟩
    · rintro d (_ | ⟨_, hd⟩)
      · exact .close (h.fds _ _ _ hc) hr
      · exact h.closed d hd
  | exit => exact ⟨by simp, by simp, h.closed⟩

end World

end LinuxProgram.Machine.Connections
