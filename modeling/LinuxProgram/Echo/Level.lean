/-
The level-triggered echo server `3_epoll.c`. The kernel is asked for as many events as `evs` has bytes, so that it
may write behind the array; how many it can report depends on the descriptors that the process may have. Where they
are few enough, every client gets back what it has sent.
-/
import LinuxProgram.Echo.Connection
import LinuxProgram.Epoll.Loop
import Mathlib.Order.Interval.Finset.Nat

namespace LinuxProgram.Echo.Level

open LinuxProgram.Io LinuxProgram.Machine LinuxProgram.Machine.Connections LinuxProgram.Epoll
open LinuxProgram.EpollEt (Event)

/-- The number of entries of `evs`. -/
def evsLen : Nat := 1024

/-- `sizeof(struct epoll_event)`, which is packed. -/
def eventSize : Nat := 12

/-- `sizeof(evs)` -/
def maxevents : Nat := evsLen * eventSize

/-- One `read` and one `write` for each event. -/
def handler : Handler Conn Stage Arrival Result := echo (fun c => c.ready) .done

abbrev step : Server Conn Stage → Action Arrival Result → Option (Server Conn Stage) := Epoll.step handler maxevents

theorem emptyHanded : EmptyHanded .done := .inl rfl

/-- A connection that is read from has something to read. -/
theorem ready_of_reading {c : Conn} {h : Option Stage} (hc : Alone handler c h) : h = some .read → c.ready = true := by
  induction hc with
  | fresh => simp
  | arrive _ ha ih => exact fun hread => level _ _ _ ha (ih hread)
  | start _ hs _ => exact fun _ => hs
  | go _ hr _ =>
    rintro ⟨⟩
    cases run_cases hr
  | done _ _ _ => simp

/-! ## The array of events -/

/-- The process may have descriptors below `limit`. The standard ones, that of the listening socket and that of the
epoll instance are the first five. -/
def Below (limit : Nat) (_ : Server Conn Stage) : Action Arrival Result → Prop
  | .accept cfd => 5 ≤ cfd ∧ cfd < limit
  | _ => True

instance (limit : Nat) (s : Server Conn Stage) (a : Action Arrival Result) : Decidable (Below limit s a) := by
  cases a <;> unfold Below <;> infer_instance

/-- The events of the batch are in the array. -/
def Fits (s : Server Conn Stage) : Prop := s.pc.batch.length ≤ evsLen

/-- Open connections have descriptors below the limit. -/
structure Numbered (limit : Nat) (s : Server Conn Stage) : Prop where
  lfd : s.lfd = 3
  conns : ∀ fd c, s.conns fd = some c → 5 ≤ fd ∧ fd < limit

variable {limit : Nat} {s s' : Server Conn Stage}

theorem Numbered.update (h : Numbered limit s) {fd : Nat} {o : Option Conn}
    (hfd : ∀ c, o = some c → 5 ≤ fd ∧ fd < limit) {backlog closed : List Conn} {pc : Pc Stage} :
    Numbered limit ⟨s.lfd, backlog, Function.update s.conns fd o, closed, pc⟩ := by
  refine ⟨h.lfd, fun fd' c hc => ?_⟩
  simp only [Function.update_apply] at hc
  split at hc
  · rename_i heq
    rw [heq]
    exact hfd c hc
  · exact h.conns fd' c hc

theorem numbered_step (h : Numbered limit s) {a : Action Arrival Result} (hok : Below limit s a)
    (hs : step s a = some s') : Numbered limit s' := by
  cases step_cases hs with
  | connect => exact ⟨h.lfd, h.conns⟩
  | arriveQueued => exact ⟨h.lfd, h.conns⟩
  | arrive hc _ => exact h.update fun _ _ => h.conns _ _ hc
  | wait => exact ⟨h.lfd, h.conns⟩
  | exit _ => exact ⟨h.lfd, by simp [Server.exit]⟩
  | batchEnd => exact ⟨h.lfd, h.conns⟩
  | pass => exact ⟨h.lfd, h.conns⟩
  | start => exact ⟨h.lfd, h.conns⟩
  | accept => exact h.update fun _ _ => hok
  | stale => exact ⟨h.lfd, h.conns⟩
  | go _ hc _ => exact h.update fun _ _ => h.conns _ _ hc
  | done _ hc _ => exact h.update fun _ _ => h.conns _ _ hc
  | close => exact h.update (by simp)

theorem numbered (h : ReachWith step (Below limit) (main 3) s) : Numbered limit s :=
  h.invariant (J := fun _ => True) (fun _ _ => trivial) ⟨rfl, by simp [main]⟩ fun _ _ _ _ hu hok hs =>
    numbered_step hu hok hs

/-- The descriptors of a batch are different, and there are only so many. -/
theorem fits (hlimit : limit ≤ 1028) (h : ReachWith step (Below limit) (main 3) s) : Fits s := by
  have hvalid := (served_alone level h.reach).1
  have hnum := numbered h
  have hsub : (s.pc.batch.map (·.fd)).toFinset ⊆ insert 3 (Finset.Ico 5 limit) := by
    intro fd hfd
    obtain ⟨e, he, rfl⟩ := List.mem_map.1 (List.mem_toFinset.1 hfd)
    rw [Finset.mem_insert, Finset.mem_Ico]
    by_cases hlfd : e.fd = s.lfd
    · exact .inl (hlfd.trans hnum.lfd)
    · have hrep := hvalid.reports e he
      rw [Server.Reports, if_neg hlfd, Option.any_eq_true_iff_get] at hrep
      obtain ⟨hsome, -⟩ := hrep
      exact .inr (hnum.conns e.fd _ (Option.some_get hsome).symm)
  -- a descriptor has one event at most
  have hcard := Finset.card_le_card hsub
  rw [List.toFinset_card_of_nodup hvalid.nodup, List.length_map] at hcard
  have hroom : (insert 3 (Finset.Ico 5 limit)).card ≤ (Finset.Ico 5 limit).card + 1 := Finset.card_insert_le _ _
  rw [Nat.card_Ico] at hroom
  unfold Fits evsLen
  omega

/-- In every run of a process that may have at most 1028 descriptors the events are in the array; what a client has
sent comes back in order, unless its connection fails; a connection is closed only when everything has come back; and
the server reads from an open descriptor, without waiting. -/
theorem echo_level (hlimit : limit ≤ 1028) (h : ReachWith step (Below limit) (main 3) s) :
    Fits s ∧ (∀ fd c, s.conns fd = some c → c.Conserved (s.pc.at fd)) ∧ (∀ c ∈ s.closed, c.Complete) ∧
      (∀ fd evs, s.pc = .busy fd .read evs → ∃ c, s.conns fd = some c ∧ c.ready = true) ∧ s.pc ≠ .stale := by
  obtain ⟨hvalid, hsound⟩ := served_alone level h.reach
  refine ⟨fits hlimit h, ?_, ?_, ?_, hvalid.fresh⟩
  · intro fd c hc
    exact conserved emptyHanded (hsound.fds fd c _ (world_fds hc))
  · intro c hc
    exact complete emptyHanded (hsound.closed c hc)
  · intro fd evs hpc
    obtain ⟨⟨c, hc⟩, -⟩ := hvalid.busy fd .read evs hpc
    have halone := hsound.fds fd c _ (world_fds hc)
    rw [hpc, at_busy] at halone
    exact ⟨c, hc, ready_of_reading halone rfl⟩

/-- Two clients connect and send before the first of them is answered; the one that is answered goes, and its
descriptor is given to a third. -/
def threeClients : List (Action Arrival Result) :=
  [.connect, .arriveQueued 0 (.bytes [104, 105]), .wait [⟨3, 1⟩], .accept 5, .connect, .next,
    .wait [⟨3, 1⟩, ⟨5, 1⟩], .accept 6, .arrive 6 (.bytes [111, 107]), .next, .run (.bytes 2), .run (.wrote 2), .next,
    .arrive 5 .fin, .connect, .wait [⟨5, 1⟩, ⟨3, 1⟩, ⟨6, 1⟩], .next, .run (.bytes 0), .accept 5, .next, .run (.bytes 2)]

theorem echo_level_three_clients :
    let s := after (stepIf step (Below 1024)) (main 3) threeClients
    (s.pc = .busy 6 (.write [111, 107]) [] ∧ s.conns 5 = some .fresh ∧ s.closed.map Conn.echoed = [[104, 105]]) ∧
      Fits s ∧ (∀ fd c, s.conns fd = some c → c.Conserved (s.pc.at fd)) ∧ (∀ c ∈ s.closed, c.Complete) ∧
      (∀ fd evs, s.pc = .busy fd .read evs → ∃ c, s.conns fd = some c ∧ c.ready = true) ∧ s.pc ≠ .stale :=
  ⟨by decide +kernel,
    echo_level (by decide : 1024 ≤ 1028) (ReachWith.of_stepIf (reach_after (main 3) threeClients))⟩

/-- A connection whose client has gone. -/
def gone : Conn := ⟨{ Inbox.empty with finished := true }, []⟩

/-- The server with so many connections whose clients have gone. -/
def crowded (n : Nat) : Server Conn Stage :=
  ⟨3, [], fun fd => if 5 ≤ fd ∧ fd < 5 + n then some gone else none, [], .wait⟩

theorem crowded_succ (n : Nat) : Function.update (crowded n).conns (5 + n) (some gone) = (crowded (n + 1)).conns := by
  funext fd
  by_cases hfd : fd = 5 + n
  · rw [hfd, Function.update_self]
    simp [crowded]
  · rw [Function.update_of_ne hfd]
    have hiff : (5 ≤ fd ∧ fd < 5 + n) ↔ 5 ≤ fd ∧ fd < 5 + (n + 1) := by omega
    simp [crowded, hiff]

/-- Another client connects, goes, and is accepted. -/
theorem reach_crowded (n : Nat) (hn : 5 + n ≤ limit) : ReachWith step (Below limit) (main 3) (crowded n) := by
  induction n with
  | zero =>
    have hmain : main 3 = crowded 0 := by
      simp only [main, crowded, Server.mk.injEq, true_and, and_true]
      funext fd
      exact (if_neg (by omega)).symm
    rw [hmain]
    exact ReachWith.refl _
  | succ n ih =>
    have hconnect : step (crowded n) .connect = some { crowded n with backlog := [.fresh] } := rfl
    have hfin : step { crowded n with backlog := [.fresh] } (.arriveQueued 0 .fin) =
        some { crowded n with backlog := [gone] } := rfl
    have hwait : step { crowded n with backlog := [gone] } (.wait [⟨3, 1⟩]) =
        some { crowded n with backlog := [gone], pc := .handle [⟨3, 1⟩] } := by
      apply step_wait rfl (by decide) (by simp)
      simp [Server.Reports, crowded]
    have haccept : step { crowded n with backlog := [gone], pc := .handle [⟨3, 1⟩] } (.accept (5 + n)) =
        some { crowded n with conns := Function.update (crowded n).conns (5 + n) (some gone), pc := .handle [] } := by
      apply step_accept rfl rfl (by decide) rfl
      · show 5 + n ≠ 3
        omega
      · exact if_neg (by omega)
    rw [crowded_succ] at haccept
    have hnext : step { crowded n with conns := (crowded (n + 1)).conns, pc := .handle [] } .next =
        some (crowded (n + 1)) := rfl
    have hqueued := ((ih (by omega)).snoc hconnect trivial).snoc hfin trivial
    exact ((hqueued.snoc hwait trivial).snoc haccept ⟨by omega, by omega⟩).snoc hnext trivial

/-- All connections are reported, and a client that waits to be accepted. -/
theorem reach_reported (n : Nat) (hn : 5 + n ≤ limit) (hmax : n + 1 ≤ maxevents) :
    ∃ s, ReachWith step (Below limit) (main 3) s ∧ s.pc.batch.length = n + 1 := by
  have hconnect : step (crowded n) .connect = some { crowded n with backlog := [.fresh] } := rfl
  have hwait : step { crowded n with backlog := [.fresh] } (.wait ((3 :: List.range' 5 n).map fun fd => ⟨fd, 1⟩)) =
      some { crowded n with backlog := [.fresh], pc := .handle ((3 :: List.range' 5 n).map fun fd => ⟨fd, 1⟩) } := by
    apply step_wait rfl
    · simpa using hmax
    · simp [List.nodup_range', Function.comp_def]
    · intro e he
      obtain ⟨fd, hfd, rfl⟩ := List.mem_map.1 he
      rcases List.mem_cons.1 hfd with rfl | hfd
      · simp [Server.Reports, crowded]
      · obtain ⟨hlo, hhi⟩ := List.mem_range'_1.1 hfd
        have hne : fd ≠ 3 := by omega
        simp [Server.Reports, crowded, hne, hlo, hhi, handler, echo, Inbox.ready, gone]
  refine ⟨_, ((reach_crowded n hn).snoc hconnect trivial).snoc hwait trivial, ?_⟩
  simp [Pc.batch]

/-- The events that the kernel reports are in the array in every run exactly when the process may have no more than
1028 descriptors. -/
theorem fits_below_iff (limit : Nat) : (∀ s, ReachWith step (Below limit) (main 3) s → Fits s) ↔ limit ≤ 1028 := by
  constructor
  · intro h
    by_contra hlimit
    obtain ⟨s, hs, hlen⟩ := reach_reported 1024 (Nat.lt_of_not_le hlimit) (by decide)
    have hfits := h s hs
    rw [Fits, hlen] at hfits
    exact absurd hfits (by decide)
  · intro hlimit s hs
    exact fits hlimit hs

end LinuxProgram.Echo.Level
