/-
The select server `1_select.c`: the set `oldset`, the loop of `main`, and the descriptors that it has
open. One action is a call of `select`, `Accept` or `read` with its result, or a turn of the service loop
that passes a descriptor over.

Descriptors are given out as the kernel does, the lowest free one first. The server never closes what it
has accepted, it only forgets it; and `FD_SET` of a descriptor from `FD_SETSIZE` on writes behind the
set. Without these two the open descriptors are exactly the watched ones.
-/
import LinuxProgram.Machine.Reach
import Mathlib.Data.Finset.Basic
import Mathlib.Tactic

namespace LinuxProgram.Select

open LinuxProgram.Machine

/-- `FD_SETSIZE` -/
def fdSetsize : Nat := 1024

/-- `sizeof(buf)` -/
def bufLen : Nat := 1500

/-- Where the loop of `main` stands: before `select`; before `Accept`, with `rset` and `n`; before the
descriptor `i` of the service loop, with `rset`. -/
inductive Loc where
  | head
  | accept (rset : Finset Nat) (n : Nat)
  | service (i : Nat) (rset : Finset Nat)
  | exited
  deriving DecidableEq

/-- The server; the accepted descriptors that are open; and those that are open for other reasons. -/
structure Server where
  fd : Nat
  oldset : Finset Nat
  maxfd : Nat
  loc : Loc
  clients : Finset Nat
  others : Finset Nat

/-- The results of `read`: bytes, the end of the stream, or an error. -/
inductive Reading where
  | data (bytes : List UInt8)
  | eof
  | error
  deriving DecidableEq, Repr

/-- `select` leaves the readable descriptors in `rset`, or fails; `Accept` returns a descriptor, or ends
the process; `read` returns; a descriptor is passed over. -/
inductive Action where
  | select (rset : Option (Finset Nat))
  | accept (cfd : Option Nat)
  | read (r : Reading)
  | pass

/-- The lowest descriptor that is not in use. -/
def LowestFree (used : Finset Nat) (d : Nat) : Prop := d ∉ used ∧ ∀ e < d, e ∈ used

instance (used : Finset Nat) (d : Nat) : Decidable (LowestFree used d) := by unfold LowestFree; infer_instance

/-- `FD_SET`; behind the set it makes nothing a member. -/
def fdSet (d : Nat) (set : Finset Nat) : Finset Nat := if d < fdSetsize then insert d set else set

namespace Server

variable (s : Server)

/-- The descriptors that are open. -/
def used : Finset Nat := insert s.fd (s.clients ∪ s.others)

def select : Option (Finset Nat) → Option Server
  | none => some { s with loc := .exited }
  | some rset =>
    if rset ⊆ s.oldset ∧ ∀ d ∈ rset, d < s.maxfd + 1 then
      some { s with loc :=
        if rset.card = 0 then .head
        else if s.fd ∈ rset then .accept rset rset.card
        else .service (s.fd + 1) rset }
    else none

def accept (rset : Finset Nat) (n : Nat) : Option Nat → Option Server
  | none => some { s with loc := .exited }
  | some cfd =>
    if LowestFree s.used cfd then
      some { s with
        oldset := fdSet cfd s.oldset
        maxfd := if s.maxfd < cfd then cfd else s.maxfd
        clients := insert cfd s.clients
        loc := if n - 1 = 0 then .head else .service (s.fd + 1) rset }
    else none

/-- `FD_CLR(i, &oldset); continue;` at the end of the stream and on an error. -/
def read (i : Nat) (rset : Finset Nat) : Reading → Option Server
  | .data bytes =>
    if bytes ≠ [] ∧ bytes.length ≤ bufLen then some { s with loc := .service (i + 1) rset } else none
  | _ => some { s with oldset := s.oldset.erase i, loc := .service (i + 1) rset }

end Server

def step (s : Server) (a : Action) : Option Server :=
  match s.loc, a with
  | .head, .select rset => s.select rset
  | .accept rset n, .accept cfd => s.accept rset n cfd
  | .service i rset, .read r => if i ≤ s.maxfd ∧ i ∈ rset then s.read i rset r else none
  | .service i rset, .pass =>
    if i ≤ s.maxfd then
      if i ∈ rset then none else some { s with loc := .service (i + 1) rset }
    else some { s with loc := .head }
  | _, _ => none

/-- The server before its loop. -/
def main (fd : Nat) (others : Finset Nat) : Server where
  fd := fd
  oldset := fdSet fd ∅
  maxfd := fd
  loc := .head
  clients := ∅
  others := others

/-! ## The property -/

/-- What is watched besides the listening socket is what is open, and the service loop comes to it. -/
structure NoLeak (s : Server) : Prop where
  watched : s.oldset.erase s.fd = s.clients
  below : ∀ c ∈ s.clients, c < fdSetsize
  scanned : ∀ c ∈ s.clients, s.fd + 1 ≤ c ∧ c ≤ s.maxfd

/-- No connection ends or fails, and the descriptors fit in the set. -/
def Kept (_ : Server) : Action → Prop
  | .accept (some cfd) => cfd < fdSetsize
  | .read .eof => False
  | .read .error => False
  | _ => True

/-! ## What a step does -/

/-- Everything that a step can be. -/
inductive StepCase (s : Server) : Action → Server → Prop
  | exited {a : Action} (ha : a = .select none ∨ a = .accept none) : StepCase s a { s with loc := .exited }
  | selected {rset : Finset Nat} {l : Loc} (hl : s.loc = .head) (hr : rset ⊆ s.oldset)
    (hloc : l = .head ∨ (∃ n, l = .accept rset n) ∨ l = .service (s.fd + 1) rset) :
    StepCase s (.select (some rset)) { s with loc := l }
  | accepted {rset : Finset Nat} {n cfd : Nat} (hl : s.loc = .accept rset n) (hfree : LowestFree s.used cfd) :
    StepCase s (.accept (some cfd)) { s with
      oldset := fdSet cfd s.oldset
      maxfd := if s.maxfd < cfd then cfd else s.maxfd
      clients := insert cfd s.clients
      loc := if n - 1 = 0 then .head else .service (s.fd + 1) rset }
  | echoed {i : Nat} {rset : Finset Nat} {bytes : List UInt8} (hl : s.loc = .service i rset) :
    StepCase s (.read (.data bytes)) { s with loc := .service (i + 1) rset }
  | forgotten {i : Nat} {rset : Finset Nat} {r : Reading} (hl : s.loc = .service i rset) (hi : i ∈ rset)
    (hend : r = .eof ∨ r = .error) :
    StepCase s (.read r) { s with oldset := s.oldset.erase i, loc := .service (i + 1) rset }
  | passed {i : Nat} {rset : Finset Nat} (hl : s.loc = .service i rset) :
    StepCase s .pass { s with loc := .service (i + 1) rset }
  | served {i : Nat} {rset : Finset Nat} (hl : s.loc = .service i rset) : StepCase s .pass { s with loc := .head }

theorem step_cases {s s' : Server} {a : Action} (hs : step s a = some s') : StepCase s a s' := by
  unfold step at hs
  split at hs
  · rename_i rset hl
    cases rset with
    | none => cases hs; exact .exited (.inl rfl)
    | some rset =>
      simp only [Server.select] at hs
      split at hs
      · rename_i hr
        cases hs
        refine .selected hl hr.1 ?_
        split
        · exact .inl rfl
        · split
          · exact .inr (.inl ⟨_, rfl⟩)
          · exact .inr (.inr rfl)
      · cases hs
  · rename_i rset n cfd hl
    cases cfd with
    | none => cases hs; exact .exited (.inr rfl)
    | some cfd =>
      simp only [Server.accept] at hs
      split at hs
      · rename_i hfree
        cases hs
        exact .accepted hl hfree
      · cases hs
  · rename_i i rset r hl
    split at hs
    · rename_i hi
      cases r with
      | data bytes =>
        simp only [Server.read] at hs
        split at hs
        · cases hs; exact .echoed hl
        · cases hs
      | eof => cases hs; exact .forgotten hl hi.2 (.inl rfl)
      | error => cases hs; exact .forgotten hl hi.2 (.inr rfl)
    · cases hs
  · rename_i i rset hl
    split at hs
    · split at hs
      · cases hs
      · cases hs; exact .passed hl
    · cases hs; exact .served hl
  · cases hs

/-! ## Every run -/

/-- The open descriptors are scanned, and nothing else is watched or reported. -/
structure Scanned (s : Server) : Prop where
  lower : ∀ d < s.fd, d ∈ s.others
  client : ∀ c ∈ s.clients, s.fd + 1 ≤ c ∧ c ≤ s.maxfd
  watched : ∀ d ∈ s.oldset, d = s.fd ∨ d ∈ s.clients
  accepting : ∀ rset n, s.loc = .accept rset n → ∀ d ∈ rset, d = s.fd ∨ d ∈ s.clients
  serving : ∀ i rset, s.loc = .service i rset → s.fd + 1 ≤ i ∧ ∀ d ∈ rset, d = s.fd ∨ d ∈ s.clients

section Runs

variable {fd : Nat} {others : Finset Nat} {s s' : Server}

theorem mem_fdSet {d e : Nat} {set : Finset Nat} (h : e ∈ fdSet d set) : e = d ∨ e ∈ set := by
  unfold fdSet at h
  split at h
  · exact Finset.mem_insert.1 h
  · exact .inr h

/-- The descriptor of a new connection is behind the listening socket, and new. -/
theorem Scanned.lt_lowestFree {cfd : Nat} (h : Scanned s) (hfree : LowestFree s.used cfd) :
    s.fd < cfd ∧ cfd ∉ s.clients := by
  have hnot := hfree.1
  simp only [Server.used, Finset.mem_insert, Finset.mem_union, not_or] at hnot
  obtain ⟨hne, hcl, ho⟩ := hnot
  refine ⟨?_, hcl⟩
  by_contra hlt
  exact ho (h.lower cfd (by omega))

/-- A step that changes the location and no descriptor. -/
theorem Scanned.move (h : Scanned s) {l : Loc}
    (hacc : ∀ rset n, l = .accept rset n → ∀ d ∈ rset, d = s.fd ∨ d ∈ s.clients)
    (hser : ∀ i rset, l = .service i rset → s.fd + 1 ≤ i ∧ ∀ d ∈ rset, d = s.fd ∨ d ∈ s.clients) :
    Scanned { s with loc := l } :=
  ⟨h.lower, h.client, h.watched, hacc, hser⟩

theorem scanned_step {a : Action} (h : Scanned s) (hs : step s a = some s') : Scanned s' := by
  cases step_cases hs with
  | exited | served => exact h.move (by nofun) (by nofun)
  | selected hl hr hloc =>
    refine h.move ?_ ?_
    · rintro rset' n hl' d hd
      rcases hloc with rfl | ⟨m, rfl⟩ | rfl <;> cases hl'
      exact h.watched d (hr hd)
    · rintro i rset' hl'
      rcases hloc with rfl | ⟨m, rfl⟩ | rfl <;> cases hl'
      exact ⟨le_refl _, fun d hd => h.watched d (hr hd)⟩
  | @accepted rset n cfd hl hfree =>
    obtain ⟨hlt, -⟩ := h.lt_lowestFree hfree
    constructor
    · exact h.lower
    · intro c hc
      rcases Finset.mem_insert.1 hc with rfl | hc
      · refine ⟨hlt, ?_⟩
        simp only
        split <;> omega
      · obtain ⟨h1, h2⟩ := h.client c hc
        refine ⟨h1, ?_⟩
        simp only
        split <;> omega
    · intro d hd
      rcases mem_fdSet hd with rfl | hd
      · exact .inr (Finset.mem_insert_self _ _)
      · exact (h.watched d hd).imp_right (Finset.mem_insert_of_mem ·)
    · intro rset' m hl'
      simp only at hl'
      split at hl' <;> cases hl'
    · intro i rset' hl'
      simp only at hl'
      split at hl' <;> cases hl'
      refine ⟨le_refl _, fun d hd => ?_⟩
      exact (h.accepting rset n hl d hd).imp_right (Finset.mem_insert_of_mem ·)
  | @echoed i rset bytes hl | @passed i rset hl =>
    obtain ⟨hi, hr⟩ := h.serving i rset hl
    refine h.move (by nofun) fun j rset' hl' => ?_
    cases hl'
    exact ⟨by omega, hr⟩
  | @forgotten i rset r hl hi hend =>
    obtain ⟨hle, hr⟩ := h.serving i rset hl
    refine ⟨h.lower, h.client, fun d hd => h.watched d (Finset.mem_of_mem_erase hd), by nofun, fun j rset' hl' => ?_⟩
    cases hl'
    exact ⟨Nat.le_succ_of_le hle, hr⟩

theorem scanned (h0 : LowestFree others fd) (h : Reach step (main fd others) s) : Scanned s := by
  refine Reach.invariant h ?_ fun u a u' hu hs => scanned_step hu hs
  constructor
  · exact h0.2
  · intro c hc
    cases hc
  · intro d hd
    rcases mem_fdSet hd with rfl | hd
    · exact .inl rfl
    · cases hd
  · intro rset n hl
    cases hl
  · intro i rset hl
    cases hl

end Runs

/-! ## Runs that keep every connection -/

section Kept

variable {fd : Nat} {others : Finset Nat} {s s' : Server}

/-- The part of the property that can fail. -/
def Watched (s : Server) : Prop := s.oldset.erase s.fd = s.clients ∧ ∀ c ∈ s.clients, c < fdSetsize

theorem watched_step {a : Action} (h : Watched s) (hsc : Scanned s) (hok : Kept s a) (hs : step s a = some s') :
    Watched s' := by
  cases step_cases hs with
  | exited | selected | echoed | passed | served => exact h
  | @accepted rset n cfd hl hfree =>
    obtain ⟨hlt, -⟩ := hsc.lt_lowestFree hfree
    have hsize : cfd < fdSetsize := hok
    constructor
    · simp only [fdSet, if_pos hsize]
      rw [Finset.erase_insert_of_ne hlt.ne', h.1]
    · intro c hc
      rcases Finset.mem_insert.1 hc with rfl | hc
      · exact hsize
      · exact h.2 c hc
  | forgotten hl hi hend => rcases hend with rfl | rfl <;> exact hok.elim

theorem watched (h0 : LowestFree others fd) (h : ReachWith step Kept (main fd others) s) : Watched s := by
  refine ReachWith.invariant (I := Watched) h (fun u hu => scanned h0 hu) ?_
    fun u a u' hsc hw hok hs => watched_step hw hsc hok hs
  constructor
  · ext d
    simp only [main, Finset.mem_erase, Finset.notMem_empty, iff_false, not_and]
    intro hne hd
    exact (mem_fdSet hd).elim hne (Finset.notMem_empty d)
  · intro c hc
    cases hc

end Kept

/-! ## Runs that lose a connection -/

section Lost

variable {fd : Nat} {others : Finset Nat} {s s' : Server}

/-- A connection that is open and not watched, or does not fit in the set. -/
def Lost (s : Server) : Prop := ∃ c ∈ s.clients, c ∉ s.oldset ∨ fdSetsize ≤ c

theorem Lost.not_noLeak (h : Lost s) : ¬ NoLeak s := by
  rintro ⟨hw, hb, -⟩
  obtain ⟨c, hc, hlost | hbig⟩ := h
  · rw [← hw] at hc
    exact hlost (Finset.mem_of_mem_erase hc)
  · exact absurd (hb c hc) (not_lt.2 hbig)

/-- A lost connection stays lost: its number is not given out again. -/
theorem lost_step {a : Action} (h : Lost s) (hs : step s a = some s') : Lost s' := by
  obtain ⟨c, hc, hlost⟩ := h
  cases step_cases hs with
  | exited | selected | echoed | passed | served => exact ⟨c, hc, hlost⟩
  | @accepted rset n cfd hl hfree =>
    refine ⟨c, Finset.mem_insert_of_mem hc, hlost.imp_left fun hnot hmem => ?_⟩
    rcases mem_fdSet hmem with rfl | hmem
    · exact hfree.1 (Finset.mem_insert_of_mem (Finset.mem_union_left _ hc))
    · exact hnot hmem
  | forgotten => exact ⟨c, hc, hlost.imp_left fun hnot hmem => hnot (Finset.mem_of_mem_erase hmem)⟩

/-- A step outside the condition loses a connection. -/
theorem lost_of_not_kept {a : Action} (h : Scanned s) (hs : step s a = some s') (ha : ¬ Kept s a) : Lost s' := by
  cases step_cases hs with
  | exited hex => rcases hex with rfl | rfl <;> exact absurd trivial ha
  | selected | echoed | passed | served => exact absurd trivial ha
  | @accepted rset n cfd hl hfree => exact ⟨cfd, Finset.mem_insert_self _ _, .inr (not_lt.1 ha)⟩
  | @forgotten i rset r hl hi hend =>
    obtain ⟨hle, hr⟩ := h.serving i rset hl
    rcases hr i hi with rfl | hc
    · omega
    · exact ⟨i, hc, .inl (Finset.notMem_erase _ _)⟩

/-- The service loop comes to its end. -/
theorem reach_head {i : Nat} {rset : Finset Nat} (hl : s.loc = .service i rset) :
    ∃ v, Reach step s v ∧ v.loc = .head := by
  obtain ⟨d, hd⟩ : ∃ d, d = s.maxfd + 1 - i := ⟨_, rfl⟩
  induction d generalizing s i with
  | zero =>
    refine ⟨_, Reach.cons (a := .pass) ?_ (Reach.refl { s with loc := .head }), rfl⟩
    simp only [step, hl]
    rw [if_neg (by omega)]
  | succ d ih =>
    let u : Server := { s with loc := .service (i + 1) rset }
    obtain ⟨v, hr, hv⟩ := ih (s := u) rfl (by simp only [u]; omega)
    have hle : i ≤ s.maxfd := by omega
    by_cases hi : i ∈ rset
    · have hs : step s (.read (.data [0])) = some u := by
        simp only [step, hl]
        rw [if_pos ⟨hle, hi⟩]
        rfl
      exact ⟨v, Reach.cons hs hr, hv⟩
    · have hs : step s .pass = some u := by
        simp only [step, hl]
        rw [if_pos hle, if_neg hi]
      exact ⟨v, Reach.cons hs hr, hv⟩

theorem reach_head_of_not_kept {a : Action} (hs : step s a = some s') (ha : ¬ Kept s a) :
    ∃ v, Reach step s' v ∧ v.loc = .head := by
  cases step_cases hs with
  | exited hex => rcases hex with rfl | rfl <;> exact absurd trivial ha
  | selected | echoed | passed | served => exact absurd trivial ha
  | @accepted rset n cfd hl hfree =>
    by_cases hn : n - 1 = 0
    · exact ⟨_, Reach.refl _, if_pos hn⟩
    · exact reach_head (if_neg hn)
  | forgotten => exact reach_head rfl

end Lost

/-! ## The condition -/

/-- At the head of the loop the open descriptors are the watched ones exactly in the runs in which no
connection ends or fails and every descriptor fits in the set. -/
theorem noLeak_exact {fd : Nat} {others : Finset Nat} (h0 : LowestFree others fd) :
    ExactFor step Kept (fun s => s.loc = .head → NoLeak s) (main fd others) where
  safe t h := by
    obtain ⟨hw, hb⟩ := watched h0 h
    exact fun _ => ⟨hw, hb, (scanned h0 h.reach).client⟩
  needed t a u h hs ha := by
    obtain ⟨v, hr, hv⟩ := reach_head_of_not_kept hs ha
    have hlost : Lost v := Reach.invariant hr (lost_of_not_kept (scanned h0 h) hs ha) fun _ _ _ hl hs => lost_step hl hs
    exact ⟨v, hr, fun hnl => hlost.not_noLeak (hnl hv)⟩

theorem noLeak_exact_three : ExactFor step Kept (fun s => s.loc = .head → NoLeak s) (main 3 {0, 1, 2}) :=
  noLeak_exact (by decide)

/-- A client connects and disconnects; its descriptor stays open and is no longer watched. -/
theorem descriptor_leaked : ¬ ∀ (fd : Nat) (others : Finset Nat), LowestFree others fd → ∀ s,
    Reach step (main fd others) s → s.loc = .head → NoLeak s := by
  intro h
  let run : List Action := [.select (some {3}), .accept (some 4), .select (some {4}), .read .eof, .pass]
  have hr : Reach step (main 3 {0, 1, 2}) (after step (main 3 {0, 1, 2}) run) := reach_after _ run
  have hleak := h 3 {0, 1, 2} (by decide) _ hr (by decide +kernel)
  have hmem : 4 ∈ (after step (main 3 {0, 1, 2}) run).clients := by decide +kernel
  rw [← hleak.watched] at hmem
  revert hmem
  decide +kernel

end LinuxProgram.Select
