/-
The table of events of the libevent server `3_tcp_sever_del.c`. `c_cb` looks its descriptor up three
times when the connection ends and clears the entry between the second and the third, so the third
search runs to the end of the table, and what is freed is the word behind it. And when the table is
full `xevent_add` drops the event. So every event is released once, without an access outside the
table, exactly in the runs in which no connection ends before `destroy_xevent` and every client finds
a free entry.

`recv`, `send` and the `event_*` functions are taken to succeed; the bytes echoed and the `printf`
lines are left out.
-/
import LinuxProgram.Machine.Reach
import Mathlib.Logic.Function.Basic
import Mathlib.Tactic

namespace LinuxProgram.Libevent

open LinuxProgram.Machine

/-! ## The server -/

/-- `_EVENT_SIZE` -/
@[irreducible] def eventSize : Nat := 1024

/-- A `struct event *`: `NULL`, the event of the listening socket, the one that the `n`-th call of
`s_cb` created, or a word that is none of them. -/
inductive Ptr where
  | null
  | listener
  | event (n : Nat)
  | wild
  deriving DecidableEq

/-- `xevs` -/
structure Xevs where
  fd : Int
  ev : Ptr

/-- The table `xevent` with the memory behind it; the open connections, with the number of the event
created for each; how many events `s_cb` has created; how often each was passed to `event_del` and
`free`; the events whose connection `c_cb` has ended; and whether an index outside the table was used. -/
structure Server where
  lfd : Nat
  xevent : Nat → Xevs
  clients : List (Nat × Nat)
  created : Nat
  removed : Ptr → Nat
  freed : Ptr → Nat
  ended : List Nat
  outside : Bool
  destroyed : Bool

/-- A client connects; one sends something; `recv` finds one gone; `main` comes to its end. -/
inductive Action where
  | connect (cfd : Nat)
  | data (fd : Nat)
  | close (fd : Nat)
  | destroy
  deriving DecidableEq

namespace Server

/-- `xevent[i]` is read or written. -/
def touch (i : Nat) (s : Server) : Server := { s with outside := s.outside || decide (eventSize ≤ i) }

/-- `event_del(xevent[i].ev)` -/
def eventDel (i : Nat) (s : Server) : Server :=
  { s.touch i with removed := Function.update s.removed (s.xevent i).ev (s.removed (s.xevent i).ev + 1) }

/-- `xevent[i].fd = -1` -/
def clear (i : Nat) (s : Server) : Server :=
  { s.touch i with xevent := Function.update s.xevent i { s.xevent i with fd := -1 } }

/-- `free(xevent[i].ev)` -/
def free (i : Nat) (s : Server) : Server :=
  if (s.xevent i).ev = .null then s.touch i
  else { s.touch i with freed := Function.update s.freed (s.xevent i).ev (s.freed (s.xevent i).ev + 1) }

def findIndex (s : Server) : Int :=
  match (List.range eventSize).find? fun i => (s.xevent i).fd < 0 with
  | some i => i
  | none => -1

def findFd (fd : Int) (s : Server) : Nat :=
  ((List.range eventSize).find? fun i => (s.xevent i).fd == fd).getD eventSize

def xeventAdd (fd : Int) (ev : Ptr) (s : Server) : Server :=
  if s.findIndex < 0 then s
  else { s with xevent := Function.update s.xevent s.findIndex.toNat { fd := fd, ev := ev } }

/-- `xevent[i].ev = NULL` -/
def setNull (i : Nat) (s : Server) : Server :=
  { s with xevent := Function.update s.xevent i { s.xevent i with ev := .null } }

def destroyXevent (s : Server) : Server :=
  (List.range eventSize).foldl (fun s i => ((s.clear i).free i).setNull i) s

/-- The end of the connection `fd` in `c_cb`, behind `Close`. -/
def cCbEnd (fd : Int) (s : Server) : Server :=
  let s := s.eventDel (s.findFd fd)
  let s := s.clear (s.findFd fd)
  s.free (s.findFd fd)

def sCb (cfd : Nat) (s : Server) : Server :=
  { s with clients := (cfd, s.created) :: s.clients, created := s.created + 1 }.xeventAdd cfd (.event s.created)

end Server

open Server

def step (s : Server) (a : Action) : Option Server :=
  if s.destroyed then none
  else match a with
    | .connect cfd => if cfd ≠ s.lfd ∧ cfd ∉ s.clients.map (·.1) then some (s.sCb cfd) else none
    | .data fd => if fd ∈ s.clients.map (·.1) then some s else none
    | .close fd => (s.clients.lookup fd).map fun n =>
        { s with clients := s.clients.filter (·.1 != fd), ended := n :: s.ended }.cCbEnd fd
    | .destroy => some { s.destroyXevent with destroyed := true }

/-- The server when its loop begins; `fd` and `null` say what is behind the table. -/
def main (lfd : Nat) (fd : Int) (null : Bool) : Server :=
  { lfd := lfd
    xevent :=
      fun i => if i < eventSize then { fd := -1, ev := .null } else { fd := fd, ev := if null then .null else .wild }
    clients := []
    created := 0
    removed := fun _ => 0
    freed := fun _ => 0
    ended := []
    outside := false
    destroyed := false : Server }.xeventAdd lfd .listener

/-! ## The property -/

/-- No index outside the table was used; the event of each connection that has ended was removed and
freed once; and at the end every event was freed once. -/
structure ReleasedOnce (s : Server) : Prop where
  inside : s.outside = false
  ended : ∀ n ∈ s.ended, s.removed (.event n) = 1 ∧ s.freed (.event n) = 1
  all : s.destroyed = true → ∀ n < s.created, s.freed (.event n) = 1

/-- No connection ends, and a client that connects finds a free entry. -/
def StaysOpen (s : Server) : Action → Prop
  | .connect _ => 0 ≤ s.findIndex
  | .close _ => False
  | _ => True

/-! ## The searches and the sweep -/

theorem findIndex_cases (s : Server) : (∃ i < eventSize, s.findIndex = i ∧ (s.xevent i).fd < 0) ∨
    s.findIndex = -1 ∧ ∀ i < eventSize, 0 ≤ (s.xevent i).fd := by
  unfold Server.findIndex
  cases hf : (List.range eventSize).find? fun i => decide ((s.xevent i).fd < 0) with
  | some i =>
    have h1 := List.mem_range.1 (List.mem_of_find?_eq_some hf)
    have h2 := List.find?_some hf
    exact .inl ⟨i, h1, rfl, of_decide_eq_true h2⟩
  | none =>
    refine .inr ⟨rfl, fun i hi => ?_⟩
    have := List.find?_eq_none.1 hf i (List.mem_range.2 hi)
    simpa using this

theorem findFd_cases (fd : Int) (s : Server) : (s.findFd fd < eventSize ∧ (s.xevent (s.findFd fd)).fd = fd) ∨
    s.findFd fd = eventSize ∧ ∀ i < eventSize, (s.xevent i).fd ≠ fd := by
  unfold Server.findFd
  cases hf : (List.range eventSize).find? fun i => (s.xevent i).fd == fd with
  | some i =>
    have h1 := List.mem_range.1 (List.mem_of_find?_eq_some hf)
    have h2 := List.find?_some hf
    exact .inl ⟨h1, by simpa using h2⟩
  | none =>
    refine .inr ⟨rfl, fun i hi => ?_⟩
    have := List.find?_eq_none.1 hf i (List.mem_range.2 hi)
    simpa using this

/-- What the sweep over the first `n` entries has done. -/
structure Swept (n : Nat) (s s' : Server) : Prop where
  rest : ∀ i, n ≤ i → s'.xevent i = s.xevent i
  freed : ∀ p, p ≠ .null → s'.freed p = s.freed p + (List.range n).countP fun i => decide ((s.xevent i).ev = p)
  removed : s'.removed = s.removed
  created : s'.created = s.created
  ended : s'.ended = s.ended
  outside : s'.outside = s.outside

theorem swept (s : Server) : ∀ n ≤ eventSize,
    Swept n s ((List.range n).foldl (fun s i => ((s.clear i).free i).setNull i) s)
  | 0, _ => ⟨fun _ _ => rfl, fun _ _ => rfl, rfl, rfl, rfl, rfl⟩
  | n + 1, hn => by
    have ih := swept s n (by omega)
    rw [List.range_succ, List.foldl_append]
    generalize (List.range n).foldl (fun s i => ((s.clear i).free i).setNull i) s = t at ih
    have hev : (t.xevent n).ev = (s.xevent n).ev := by rw [ih.rest n (le_refl n)]
    have hin : decide (eventSize ≤ n) = false := by simpa using hn
    have hclear : ((t.clear n).xevent n).ev = (s.xevent n).ev := by
      simp [Server.clear, hev]
    have hfields : ∀ u : Server, (u.free n).xevent = u.xevent ∧ (u.free n).removed = u.removed ∧
        (u.free n).created = u.created ∧ (u.free n).ended = u.ended ∧ (u.free n).outside = u.outside := by
      intro u
      unfold Server.free
      split <;> simp [Server.touch, hin]
    obtain ⟨f1, f2, f3, f4, f5⟩ := hfields (t.clear n)
    constructor
    · intro i hi
      have hne : i ≠ n := by omega
      show Function.update ((t.clear n).free n).xevent n _ i = _
      rw [Function.update_of_ne hne, f1]
      show Function.update t.xevent n _ i = _
      rw [Function.update_of_ne hne]
      exact ih.rest i (by omega)
    · intro p hp
      rw [List.range_succ, List.countP_append, List.countP_singleton, ← Nat.add_assoc, ← ih.freed p hp]
      show ((t.clear n).free n).freed p = _
      unfold Server.free
      rw [hclear]
      by_cases hpn : (s.xevent n).ev = p
      · rw [if_neg (by rw [hpn]; exact hp), if_pos (by simpa using hpn), hpn]
        exact Function.update_self ..
      · have hzero : (if decide ((s.xevent n).ev = p) = true then 1 else 0) = 0 := if_neg (by simpa using hpn)
        rw [hzero, Nat.add_zero]
        split
        · rfl
        · exact Function.update_of_ne (Ne.symm hpn) _ _
    · exact f2.trans ih.removed
    · exact f3.trans ih.created
    · exact f4.trans ih.ended
    · refine f5.trans ?_
      show (t.outside || decide (eventSize ≤ n)) = s.outside
      rw [hin, Bool.or_false, ih.outside]

theorem swept_destroyXevent (s : Server) : Swept eventSize s s.destroyXevent := swept s eventSize (le_refl _)

/-! ## The table in every run -/

/-- The descriptors in the table are different and open, and no event is there or was freed that has
not been created. -/
structure Table (s : Server) : Prop where
  fd : ∀ i < eventSize, 0 ≤ (s.xevent i).fd → (s.xevent i).fd = s.lfd ∨
    ∃ c : Nat, c ∈ s.clients.map (·.1) ∧ (s.xevent i).fd = c
  unique : ∀ i < eventSize, ∀ j < eventSize, 0 ≤ (s.xevent i).fd → (s.xevent i).fd = (s.xevent j).fd → i = j
  event : ∀ i n, (s.xevent i).ev = .event n → n < s.created
  freed : ∀ n, s.freed (.event n) ≠ 0 → n < s.created

section Runs

variable {s s' : Server}

/-- After the entry of a descriptor is cleared, the descriptor is not found. -/
theorem findFd_clear {fd : Nat} (hunique : ∀ i < eventSize, ∀ j < eventSize, 0 ≤ (s.xevent i).fd →
    (s.xevent i).fd = (s.xevent j).fd → i = j) : (s.clear (s.findFd fd)).findFd fd = eventSize := by
  rcases findFd_cases fd (s.clear (s.findFd fd)) with ⟨hlt, hfd⟩ | ⟨heq, -⟩
  · exfalso
    generalize (s.clear (s.findFd fd)).findFd fd = j at hlt hfd
    have hx : ((s.clear (s.findFd fd)).xevent j).fd = if j = s.findFd fd then -1 else (s.xevent j).fd := by
      simp only [Server.clear, Function.update_apply]
      split <;> rfl
    rw [hx] at hfd
    split at hfd
    · omega
    · rename_i hne
      rcases findFd_cases fd s with ⟨hlt', hfd'⟩ | ⟨-, hnone⟩
      · exact hne (hunique j hlt _ hlt' (by omega) (by rw [hfd, hfd']))
      · exact hnone j hlt hfd
  · exact heq

theorem findFd_congr {s t : Server} (fd : Int) (h : s.xevent = t.xevent) : s.findFd fd = t.findFd fd := by
  unfold Server.findFd
  rw [h]

/-- What the end of a connection changes, and that it frees a word of the table or behind it. -/
structure Ended (fd : Int) (s s' : Server) : Prop where
  xevent : s'.xevent = Function.update s.xevent (s.findFd fd) { s.xevent (s.findFd fd) with fd := -1 }
  freed : ∃ i, ∀ p, s'.freed p ≠ 0 → s.freed p ≠ 0 ∨ p = (s.xevent i).ev
  outside : eventSize ≤ (s.clear (s.findFd fd)).findFd fd → s'.outside = true
  created : s'.created = s.created
  clients : s'.clients = s.clients
  lfd : s'.lfd = s.lfd
  destroyed : s'.destroyed = s.destroyed

theorem ended_cCbEnd (fd : Int) (s : Server) : Ended fd s (s.cCbEnd fd) := by
  let s₁ := s.eventDel (s.findFd fd)
  have h1 : s₁.findFd fd = s.findFd fd := by
    apply findFd_congr
    rfl
  let s₂ := s₁.clear (s.findFd fd)
  have h2 : s₂.findFd fd = (s.clear (s.findFd fd)).findFd fd := by
    apply findFd_congr
    rfl
  have he : s.cCbEnd fd = s₂.free (s₂.findFd fd) := by
    dsimp only [Server.cCbEnd, s₂]
    rw [h1]
  rw [he]
  have hev : (s₂.xevent (s₂.findFd fd)).ev = (s.xevent (s₂.findFd fd)).ev := by
    show (Function.update s.xevent (s.findFd fd) { s.xevent (s.findFd fd) with fd := -1 } (s₂.findFd fd)).ev = _
    rw [Function.update_apply]
    split
    · rename_i heq
      rw [heq]
    · rfl
  unfold Server.free
  split
  · refine ⟨rfl, ⟨0, fun p hp => .inl hp⟩, fun hout => ?_, rfl, rfl, rfl, rfl⟩
    rw [← h2] at hout
    simp [Server.touch, hout]
  · refine ⟨rfl, ⟨s₂.findFd fd, fun p hp => ?_⟩, fun hout => ?_, rfl, rfl, rfl, rfl⟩
    · by_cases hpe : p = (s₂.xevent (s₂.findFd fd)).ev
      · exact .inr (hpe.trans hev)
      · refine .inl ?_
        have : Function.update s₂.freed (s₂.xevent (s₂.findFd fd)).ev _ p ≠ 0 := hp
        rwa [Function.update_of_ne hpe] at this
    · rw [← h2] at hout
      simp [Server.touch, hout]

/-- The end of a connection reads behind the table. -/
theorem Table.outside_of_end (h : Table s) (fd : Nat) (clients : List (Nat × Nat)) (ended : List Nat) :
    ({ s with clients := clients, ended := ended }.cCbEnd fd).outside = true := by
  refine (ended_cCbEnd fd _).outside (le_of_eq (Eq.symm ?_))
  exact findFd_clear h.unique

/-- The end of a connection touches no entry of another descriptor. -/
theorem cCbEnd_xevent {fd : Int} {i : Nat} (hi : i < eventSize) (hfd : (s.xevent i).fd ≠ fd) :
    (s.cCbEnd fd).xevent i = s.xevent i := by
  rw [(ended_cCbEnd fd s).xevent]
  refine Function.update_of_ne ?_ _ _
  rintro rfl
  rcases findFd_cases fd s with ⟨-, hf⟩ | ⟨heq, -⟩
  · exact hfd hf
  · omega

/-- Adding to the table: nothing happens, or a free entry is filled. -/
theorem xeventAdd_cases (fd : Int) (ev : Ptr) (s : Server) :
    (s.findIndex < 0 ∧ (∀ i < eventSize, 0 ≤ (s.xevent i).fd) ∧ s.xeventAdd fd ev = s) ∨
      ∃ i < eventSize, 0 ≤ s.findIndex ∧ (s.xevent i).fd < 0 ∧
        s.xeventAdd fd ev = { s with xevent := Function.update s.xevent i { fd := fd, ev := ev } } := by
  unfold Server.xeventAdd
  rcases findIndex_cases s with ⟨i, hi, he, hneg⟩ | ⟨he, hall⟩
  · refine .inr ⟨i, hi, by omega, hneg, ?_⟩
    rw [if_neg (by omega), he, Int.toNat_natCast]
  · exact .inl ⟨by omega, hall, if_pos (by omega)⟩

/-- A new descriptor that is added. -/
theorem Table.add {ev : Ptr} {cfd : Nat} (h : Table s) (hfree : ∀ i < eventSize, (s.xevent i).fd ≠ cfd)
    (hopen : cfd = s.lfd ∨ cfd ∈ s.clients.map (·.1)) (hev : ∀ n, ev = .event n → n < s.created) :
    Table (s.xeventAdd cfd ev) := by
  rcases xeventAdd_cases cfd ev s with ⟨-, -, he⟩ | ⟨k, hk, -, -, he⟩
  · rw [he]
    exact h
  · rw [he]
    have hx : ∀ i, Function.update s.xevent k { fd := cfd, ev := ev } i =
        if i = k then { fd := cfd, ev := ev } else s.xevent i := fun i => Function.update_apply ..
    constructor
    · intro i hi
      simp only [hx]
      split
      · exact fun _ => hopen.imp (congrArg Nat.cast) fun hmem => ⟨cfd, hmem, rfl⟩
      · exact h.fd i hi
    · intro i hi j hj
      simp only [hx]
      split
      · rename_i hik
        split
        · rename_i hjk
          exact fun _ _ => hik.trans hjk.symm
        · exact fun _ heq => absurd heq.symm (hfree j hj)
      · split
        · exact fun _ heq => absurd heq (hfree i hi)
        · exact h.unique i hi j hj
    · intro i n
      simp only [hx]
      split
      · exact hev n
      · exact h.event i n
    · exact h.freed

/-- The end of a connection keeps the table; its descriptor is no longer open. -/
theorem Table.end (h : Table s) (fd : Nat) (ended : List Nat) :
    Table ({ s with clients := s.clients.filter (·.1 != fd), ended := ended }.cCbEnd fd) := by
  let s₁ : Server := { s with clients := s.clients.filter (·.1 != fd), ended := ended }
  have hend : Ended fd s₁ (s₁.cCbEnd fd) := ended_cCbEnd fd s₁
  have hx : ∀ i, (s₁.cCbEnd fd).xevent i = if i = s₁.findFd fd then { s.xevent i with fd := -1 } else s.xevent i := by
    intro i
    rw [hend.xevent, Function.update_apply]
    split
    · rename_i heq
      rw [heq]
    · rfl
  show Table (s₁.cCbEnd fd)
  constructor
  · intro i hi
    rw [hx i, hend.lfd, hend.clients]
    split
    · intro h0
      have : (0 : Int) ≤ -1 := h0
      omega
    · rename_i hne
      intro h0
      refine (h.fd i hi h0).imp id ?_
      rintro ⟨c, hc, hic⟩
      obtain ⟨⟨c', n⟩, hmem, rfl⟩ := List.mem_map.1 hc
      refine ⟨c', List.mem_map.2 ⟨(c', n), List.mem_filter.2 ⟨hmem, ?_⟩, rfl⟩, hic⟩
      simp only [bne_iff_ne, ne_eq]
      rintro rfl
      -- the entry of `fd` is the one that is found
      rcases findFd_cases (c' : Int) s₁ with ⟨hlt, hf⟩ | ⟨-, hnone⟩
      · exact hne (h.unique i hi _ hlt h0 (hic.trans hf.symm))
      · exact hnone i hi hic
  · intro i hi j hj
    rw [hx i, hx j]
    split
    · intro h0
      have : (0 : Int) ≤ -1 := h0
      omega
    · split
      · intro h0 heq
        have : (s.xevent i).fd = -1 := heq
        omega
      · exact h.unique i hi j hj
  · intro i n
    rw [hx i, hend.created]
    split <;> exact h.event i n
  · intro n hn
    rw [hend.created]
    obtain ⟨i, hi⟩ := hend.freed
    rcases hi _ hn with h' | h'
    · exact h.freed n h'
    · exact h.event i n h'.symm

theorem step_table (h : Table s) {a : Action} (hs : step s a = some s') (hd : s'.destroyed = false) : Table s' := by
  unfold step at hs
  split at hs
  · cases hs
  · cases a with
    | connect cfd =>
      simp only at hs
      split at hs
      · rename_i hfresh
        cases hs
        let s₁ : Server := { s with clients := (cfd, s.created) :: s.clients, created := s.created + 1 }
        have h₁ : Table s₁ := by
          constructor
          · intro i hi h0
            refine (h.fd i hi h0).imp id ?_
            rintro ⟨c, hc, hic⟩
            exact ⟨c, List.mem_cons_of_mem _ hc, hic⟩
          · exact h.unique
          · exact fun i n hn => Nat.lt_succ_of_lt (h.event i n hn)
          · exact fun n hn => Nat.lt_succ_of_lt (h.freed n hn)
        refine h₁.add (fun i hi hfd => ?_) (.inr List.mem_cons_self) fun n hn => ?_
        · have hfd : (s.xevent i).fd = cfd := hfd
          rcases h.fd i hi (by omega) with hl | ⟨c, hc, hic⟩
          · exact hfresh.1 (by omega)
          · obtain rfl : cfd = c := by omega
            exact hfresh.2 hc
        · cases hn
          exact Nat.lt_succ_self _
      · cases hs
    | data fd =>
      simp only at hs
      split at hs
      · cases hs
        exact h
      · cases hs
    | close fd =>
      obtain ⟨n, -, rfl⟩ := Option.map_eq_some_iff.1 hs
      exact h.end fd _
    | destroy =>
      simp only [Option.some.injEq] at hs
      rw [← hs] at hd
      cases (show true = false from hd)

variable {lfd : Nat} {fd : Int} {null : Bool}

/-- The table before the listening socket's event is added. -/
theorem main_cases (lfd : Nat) (fd : Int) (null : Bool) : ∃ s₀ : Server, main lfd fd null = s₀.xeventAdd lfd .listener ∧
    s₀.lfd = lfd ∧ s₀.created = 0 ∧ (∀ p, s₀.freed p = 0) ∧ s₀.ended = [] ∧ s₀.outside = false ∧ s₀.destroyed = false ∧
    (∀ i < eventSize, s₀.xevent i = { fd := -1, ev := .null }) ∧ ∀ i n, (s₀.xevent i).ev ≠ .event n := by
  refine ⟨_, rfl, rfl, rfl, fun _ => rfl, rfl, rfl, rfl, fun i hi => if_pos hi, fun i n => ?_⟩
  dsimp only
  split
  · exact fun h => by cases h
  · cases null <;> exact fun h => by cases h

theorem table_main : Table (main lfd fd null) := by
  obtain ⟨s₀, he, hlfd, -, hfreed, -, -, -, hx, hev⟩ := main_cases lfd fd null
  rw [he]
  refine Table.add ⟨fun i hi h0 => ?_, fun i hi j hj h0 => ?_, fun i n h => absurd h (hev i n),
    fun n h => absurd (hfreed _) h⟩ (fun i hi h => ?_) (.inl hlfd.symm) fun n h => by cases h
  · rw [hx i hi] at h0
    cases h0
  · rw [hx i hi] at h0
    cases h0
  · rw [hx i hi] at h
    cases h

theorem table_valid (h : Reach step (main lfd fd null) s) (hd : s.destroyed = false) : Table s := by
  have hI : s.destroyed = true ∨ Table s := by
    refine h.invariant (I := fun u => u.destroyed = true ∨ Table u) (.inr table_main) fun u a u' hI hs => ?_
    by_cases hd' : u'.destroyed = true
    · exact .inl hd'
    · refine .inr (step_table (hI.resolve_left fun hu => ?_) hs (by simpa using hd'))
      simp [step, hu] at hs
  exact hI.resolve_left (by rw [hd]; exact Bool.false_ne_true)

/-! ## Runs without an end of a connection -/

/-- Each event created has one entry, and nothing has been freed. -/
structure Tracked (s : Server) : Prop where
  entry : ∀ n < s.created, ∃ k < eventSize, ∀ i < eventSize, (s.xevent i).ev = .event n ↔ i = k
  free : ∀ i < eventSize, (s.xevent i).fd < 0 → (s.xevent i).ev = .null
  freed : ∀ n, s.freed (.event n) = 0
  ended : s.ended = []
  inside : s.outside = false

theorem Tracked.connect (h : Tracked s) (ht : Table s) {cfd : Nat} (hroom : 0 ≤ s.findIndex) : Tracked (s.sCb cfd) := by
  let s₁ : Server := { s with clients := (cfd, s.created) :: s.clients, created := s.created + 1 }
  have hidx : s₁.findIndex = s.findIndex := by
    unfold Server.findIndex
    rfl
  rcases xeventAdd_cases cfd (.event s.created) s₁ with ⟨hneg, -, -⟩ | ⟨k, hk, -, hfree, he⟩
  · omega
  · have hnull : (s.xevent k).ev = .null := h.free k hk hfree
    show Tracked (s₁.xeventAdd cfd (.event s.created))
    rw [he]
    have hx : ∀ i, Function.update s₁.xevent k { fd := cfd, ev := .event s.created } i =
        if i = k then { fd := cfd, ev := .event s.created } else s.xevent i := fun i => Function.update_apply ..
    refine ⟨fun n hn => ?_, fun i hi => ?_, h.freed, h.ended, h.inside⟩
    · simp only [hx]
      rcases Nat.lt_succ_iff_lt_or_eq.1 hn with hlt | rfl
      · obtain ⟨k', hk', hiff⟩ := h.entry n hlt
        refine ⟨k', hk', fun i hi => ?_⟩
        split
        · rename_i hik
          -- the filled entry was free, so it is not that of event `n`
          have hne : ¬ i = k' := fun e => by
            have := (hiff i hi).2 e
            rw [hik, hnull] at this
            cases this
          refine ⟨fun e => ?_, fun e => absurd e hne⟩
          cases e
          omega
        · exact hiff i hi
      · refine ⟨k, hk, fun i hi => ?_⟩
        split
        · rename_i hik
          exact ⟨fun _ => hik, fun _ => rfl⟩
        · rename_i hik
          refine ⟨fun e => ?_, fun e => absurd e hik⟩
          exact absurd (ht.event i _ e) (lt_irrefl _)
    · simp only [hx]
      split
      · intro hneg
        have : (cfd : Int) < 0 := hneg
        omega
      · exact h.free i hi

/-- The sweep frees each event once. -/
theorem Tracked.destroy (h : Tracked s) (hsw : Swept eventSize s s') : ReleasedOnce { s' with destroyed := true } := by
  constructor
  · exact hsw.outside.trans h.inside
  · intro n hn
    have hn : n ∈ s'.ended := hn
    rw [hsw.ended, h.ended] at hn
    cases hn
  · intro _ n hn
    have hn : n < s'.created := hn
    rw [hsw.created] at hn
    obtain ⟨k, hk, hiff⟩ := h.entry n hn
    have hcount : (List.range eventSize).countP (fun i => decide ((s.xevent i).ev = .event n)) = 1 := by
      rw [← List.count_eq_one_of_mem List.nodup_range (List.mem_range.2 hk)]
      refine List.countP_congr fun i hi => ?_
      rw [decide_eq_true_eq, beq_iff_eq]
      exact hiff i (List.mem_range.1 hi)
    show s'.freed (.event n) = 1
    rw [hsw.freed (.event n) (by simp), h.freed, hcount]

theorem Tracked.releasedOnce (h : Tracked s) (hd : s.destroyed = false) : ReleasedOnce s := by
  refine ⟨h.inside, fun n hn => ?_, fun hd' => ?_⟩
  · rw [h.ended] at hn
    cases hn
  · rw [hd] at hd'
    cases hd'

theorem tracked_main : Tracked (main lfd fd null) ∧ (main lfd fd null).destroyed = false := by
  obtain ⟨s₀, he, -, hcreated, hfreed, hended, hout, hd, hx, -⟩ := main_cases lfd fd null
  rw [he]
  rcases xeventAdd_cases lfd .listener s₀ with ⟨-, -, he'⟩ | ⟨k, hk, -, -, he'⟩
  · rw [he']
    refine ⟨⟨fun n hn => ?_, fun i hi _ => by rw [hx i hi], fun n => hfreed _, hended, hout⟩, hd⟩
    rw [hcreated] at hn
    cases hn
  · rw [he']
    refine ⟨⟨fun n hn => ?_, fun i hi hneg => ?_, fun n => hfreed _, hended, hout⟩, hd⟩
    · have hn : n < s₀.created := hn
      rw [hcreated] at hn
      cases hn
    · dsimp only at hneg ⊢
      rw [Function.update_apply] at hneg ⊢
      split at hneg
      · have : (lfd : Int) < 0 := hneg
        omega
      · rename_i hik
        rw [if_neg hik, hx i hi]

/-- In a run in which no connection ends and each client finds a free entry, every event is released
once. -/
theorem tracked_valid (h : ReachWith step StaysOpen (main lfd fd null) s) :
    ReleasedOnce s ∧ (s.destroyed = false → Tracked s) := by
  refine ReachWith.invariant (I := fun u => ReleasedOnce u ∧ (u.destroyed = false → Tracked u)) h
    (J := fun u => u.destroyed = false → Table u) (fun u hu => table_valid hu) ?_ fun u a u' hT hI hok hs => ?_
  · exact ⟨tracked_main.1.releasedOnce tracked_main.2, fun _ => tracked_main.1⟩
  · unfold step at hs
    split at hs
    · cases hs
    · rename_i hd
      have hd : u.destroyed = false := by simpa using hd
      have htr := hI.2 hd
      cases a with
      | connect cfd =>
        simp only at hs
        split at hs
        · cases hs
          have hconn : Tracked (u.sCb cfd) := htr.connect (hT hd) hok
          refine ⟨hconn.releasedOnce ?_, fun _ => hconn⟩
          show (Server.xeventAdd _ _ _).destroyed = false
          unfold Server.xeventAdd
          split <;> exact hd
        · cases hs
      | data c =>
        simp only at hs
        split at hs
        · cases hs
          exact hI
        · cases hs
      | close c => exact hok.elim
      | destroy =>
        simp only [Option.some.injEq] at hs
        rw [← hs]
        exact ⟨htr.destroy (swept_destroyXevent u), fun h => by cases (show true = false from h)⟩

/-- An event that is not in the table is not freed by the sweep. -/
theorem not_releasedOnce_of_swept (ht : Table s) {s₁ u : Server} (hx : s₁.xevent = s.xevent) (hf : s₁.freed = s.freed)
    (hc : s₁.created = s.created + 1) (hsw : Swept eventSize s₁ u) : ¬ ReleasedOnce { u with destroyed := true } := by
  intro hrel
  have hcount : (List.range eventSize).countP (fun i => decide ((s₁.xevent i).ev = .event s.created)) = 0 := by
    rw [List.countP_eq_zero]
    intro i _ hi
    rw [hx] at hi
    exact lt_irrefl _ (ht.event i _ (of_decide_eq_true hi))
  have hzero : s.freed (.event s.created) = 0 := by
    by_contra hne
    exact lt_irrefl _ (ht.freed _ hne)
  have hone : u.freed (.event s.created) = 1 :=
    hrel.all rfl s.created (by rw [hsw.created, hc]; exact Nat.lt_succ_self _)
  rw [hsw.freed _ (by simp), hcount, hf, hzero] at hone
  cases hone

/-- The event of a client that finds no entry is never freed. -/
theorem leak_of_full (ht : Table s) (hd : s.destroyed = false) {cfd : Nat} (hfull : s.findIndex < 0) :
    ∃ v, step (s.sCb cfd) .destroy = some v ∧ ¬ ReleasedOnce v := by
  let s₁ : Server := { s with clients := (cfd, s.created) :: s.clients, created := s.created + 1 }
  have hidx : s₁.findIndex = s.findIndex := by
    unfold Server.findIndex
    rfl
  have he : s.sCb cfd = s₁ := by
    rcases xeventAdd_cases cfd (.event s.created) s₁ with ⟨-, -, he⟩ | ⟨k, -, hroom, -, -⟩
    · exact he
    · omega
  have hd₁ : s₁.destroyed = false := hd
  rw [he]
  refine ⟨{ s₁.destroyXevent with destroyed := true }, by simp [step, hd₁], ?_⟩
  have hsw := swept_destroyXevent s₁
  refine not_releasedOnce_of_swept ht ?_ ?_ ?_ hsw <;> rfl

end Runs

/-- Every event is released once, with no index outside the table used, exactly in the runs in which
no connection ends before the table is destroyed and each client finds a free entry; and the end of a
connection never touches the entry of another descriptor. -/
theorem releasedOnce_exact (lfd : Nat) (fd : Int) (null : Bool) :
    ExactFor step StaysOpen ReleasedOnce (main lfd fd null) ∧
      ∀ (s : Server) (c i : Nat), i < eventSize → (s.xevent i).fd ≠ c → (s.cCbEnd c).xevent i = s.xevent i := by
  refine ⟨⟨fun t h => (tracked_valid h).1, fun t a u h hs ha => ?_⟩, fun s c i hi hc => cCbEnd_xevent hi hc⟩
  have hd : t.destroyed = false := by
    by_contra hd
    simp [step, hd] at hs
  have ht := table_valid h hd
  cases a with
  | connect cfd =>
    have hfull : t.findIndex < 0 := not_le.1 ha
    simp only [step, hd, Bool.false_eq_true, if_false] at hs
    split at hs
    · cases hs
      obtain ⟨v, hv, hrel⟩ := @leak_of_full t ht hd cfd hfull
      exact ⟨v, (Reach.refl _).snoc hv, hrel⟩
    · cases hs
  | close c =>
    simp only [step, hd, Bool.false_eq_true, if_false] at hs
    obtain ⟨n, -, rfl⟩ := Option.map_eq_some_iff.1 hs
    refine ⟨_, Reach.refl _, fun hrel => ?_⟩
    have hout := ht.outside_of_end c (t.clients.filter (·.1 != c)) (n :: t.ended)
    have hin := hrel.inside
    rw [← hd] at hin
    rw [hin] at hout
    rw [hd] at hout
    cases hout
  | data | destroy => exact absurd trivial ha

theorem client_end_outside : ¬ ∀ (lfd : Nat) (fd : Int) (null : Bool) (s : Server), Reach step (main lfd fd null) s →
    ReleasedOnce s := by
  intro h
  have hrel := h 3 0 true _ (reach_after (main 3 0 true) [.connect 5, .close 5])
  have hout : (after step (main 3 0 true) [.connect 5, .close 5]).outside = true := by decide +kernel
  rw [hrel.inside] at hout
  cases hout

end LinuxProgram.Libevent
