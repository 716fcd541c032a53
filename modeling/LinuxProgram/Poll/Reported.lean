/-
Whether the server calls `Accept` and `read` only on what `poll` has just reported. `revents` is old
after a `poll` that failed, which the program does not test for, and in an entry beyond `maxi`, which
`Accept` fills after `poll`. The second does no harm when the service loop comes to its end before that
entry, because `nready` has run out.
-/
import LinuxProgram.Poll.Table

namespace LinuxProgram.Poll

open LinuxProgram.Machine Server

/-! ## The property -/

/-- The descriptors that the latest `poll` reported readable. -/
def reported : List Call → List Int
  | [] => []
  | .poll readable :: _ => readable
  | _ :: calls => reported calls

/-- The descriptor on which the server now calls `Accept` or `read`, if it does. -/
def Server.calledOn (s : Server) : Option Int :=
  match s.loc with
  | .accept _ => some s.listenfd
  | .service i _ => if i ≤ s.maxi ∧ s.readableAt i then some (s.client i).fd else none
  | _ => none

/-- The round's `poll` has reported the descriptor that is called on. -/
def CallReported (s : Server) : Prop := ∀ fd ∈ s.calledOn, fd ∈ reported s.calls

instance (s : Server) : Decidable (CallReported s) := by unfold CallReported; infer_instance

/-- How many of the entries `i`, ..., `j - 1` the service loop reads from. -/
def Server.readable (s : Server) (i j : Nat) : Nat := (List.range' i (j - i)).countP fun k => s.readableAt k

/-- Nothing old is looked at. If `poll` fails, no entry that it was given has `POLLIN` set; and if the
entry of a new connection is beyond `maxi` and has it set, the readable entries before it use `nready`
up. -/
def Fresh (s : Server) : Action → Prop
  | .poll none => ¬ s.pollinAt 0 ∧ ∀ i, 1 ≤ i → i ≤ s.maxi → ¬ s.readableAt i
  | .accept (some _) => ∀ n, s.loc = .accept n → s.maxi < s.freeIndex → s.freeIndex < openMax → s.pollinAt s.freeIndex →
      n - 1 ≤ s.readable 1 (s.maxi + 1)
  | _ => True

/-! ## Counting readable entries -/

section Counting

variable {s s' : Server} {i j : Nat}

theorem readable_self (s : Server) (i : Nat) : s.readable i i = 0 := by
  simp [Server.readable]

theorem readable_succ (s : Server) (h : i < j) :
    s.readable i j = s.readable (i + 1) j + if s.readableAt i then 1 else 0 := by
  have hj : j - i = (j - (i + 1)) + 1 := by omega
  rw [Server.readable, hj, List.range'_succ, List.countP_cons]
  simp only [decide_eq_true_eq]
  rfl

theorem readable_congr (h : ∀ k, i ≤ k → k < j → (s'.readableAt k ↔ s.readableAt k)) :
    s'.readable i j = s.readable i j := by
  refine List.countP_congr fun k hk => ?_
  have := List.mem_range'_1.1 hk
  simpa using h k this.1 (by omega)

theorem readable_eq_zero (h : ∀ k, i ≤ k → k < j → ¬ s.readableAt k) : s.readable i j = 0 := by
  refine List.countP_eq_zero.2 fun k hk => ?_
  have := List.mem_range'_1.1 hk
  simpa using h k this.1 (by omega)

/-- An entry with the same descriptor and `revents` is read from alike. -/
theorem readableAt_congr (h : s'.client i = s.client i) : s'.readableAt i ↔ s.readableAt i := by
  unfold Server.readableAt Server.pollinAt
  rw [h]

end Counting

/-! ## Runs in which nothing old is looked at -/

/-- What the rest of the round reads from: before `Accept` the entries are as `poll` has set them; in the
service loop an entry that was not reported comes after more readable ones than `nready` allows. -/
structure Pending (s : Server) : Prop where
  accepting : ∀ n, s.loc = .accept n → s.listenfd ∈ reported s.calls ∧ ∀ j, 1 ≤ j → j ≤ s.maxi →
    if (s.client j).fd < 0 then ¬ s.pollinAt j else s.pollinAt j → (s.client j).fd ∈ reported s.calls
  serving : ∀ i n, s.loc = .service i n → ∀ j, i ≤ j → j ≤ s.maxi → s.readableAt j →
    (s.client j).fd ∈ reported s.calls ∨ 0 < n ∧ n ≤ s.readable i j

theorem Pending.callReported {s : Server} (h : Pending s) : CallReported s := by
  intro fd hfd
  unfold Server.calledOn at hfd
  split at hfd
  · rename_i n hl
    cases hfd
    exact (h.accepting n hl).1
  · rename_i i n hl
    split at hfd
    · rename_i hi
      cases hfd
      rcases h.serving i n hl i (le_refl _) hi.1 hi.2 with hmem | ⟨h0, hle⟩
      · exact hmem
      · rw [readable_self] at hle
        omega
    · cases hfd
  · cases hfd

section Steps

variable {s s' : Server}

/-- Neither `Accept` nor the service loop comes next. -/
theorem Pending.idle (ha : ∀ n, s.loc ≠ .accept n) (hs : ∀ i n, s.loc ≠ .service i n) : Pending s :=
  ⟨fun n h => absurd h (ha n), fun i n h => absurd h (hs i n)⟩

theorem mem_reportedBy {revents : Nat → Nat} {i : Nat} (hi : i ≤ s.maxi) (h : revents i &&& pollin ≠ 0) :
    (s.client i).fd ∈ s.reportedBy revents :=
  List.mem_map.2 ⟨i, List.mem_filter.2 ⟨List.mem_range.2 (by omega), by simpa using h⟩, rfl⟩

/-- After a `poll` that has returned, `revents` is what it reported. -/
theorem pending_polled {revents : Nat → Nat} {n : Int} (hlfd : (s.client 0).fd = s.listenfd) (hr : s.Reports revents) :
    Pending (enter { s with client := s.polled revents, calls := .poll (s.reportedBy revents) :: s.calls } n) := by
  have hent : ∀ j ≤ s.maxi, (s.polled revents j).fd = (s.client j).fd ∧ (s.polled revents j).revents = revents j := by
    intro j hj
    simp only [Server.polled, if_pos hj, and_self]
  constructor
  · intro m hm
    simp only [enter] at hm
    split at hm
    · rename_i h0
      refine ⟨?_, fun j _ hj => ?_⟩
      · obtain ⟨-, hrev⟩ := hent 0 (Nat.zero_le _)
        simp only [Server.pollinAt, hrev] at h0
        exact hlfd ▸ mem_reportedBy (Nat.zero_le _) h0
      · obtain ⟨hfd, hrev⟩ := hent j hj
        simp only [enter, Server.pollinAt, hfd, hrev]
        split
        · rename_i hneg
          have := hr j hj
          rw [if_pos hneg] at this
          simp [this]
        · exact mem_reportedBy hj
    · cases hm
  · intro i m hm j _ hj hread
    obtain ⟨hfd, hrev⟩ := hent j hj
    simp only [enter, Server.readableAt, Server.pollinAt, hrev] at hread
    refine .inl ?_
    simp only [enter, hfd]
    exact mem_reportedBy hj hread.2

/-- A poll that fails when nothing old is set. -/
theorem pending_pollFails (hok : Fresh s (.poll none)) :
    Pending (enter { s with calls := .poll [] :: s.calls } (-1)) := by
  obtain ⟨h0, hall⟩ := hok
  constructor
  · intro m hm
    simp only [enter] at hm
    split at hm
    · rename_i hset
      exact absurd hset h0
    · cases hm
  · intro i m hm j hij hj hread
    simp only [enter] at hm
    split at hm <;> cases hm
    exact absurd hread (hall j hij hj)

/-- The new connection's entry is in the range that was polled, or old but behind the last entry that is
looked at. -/
theorem pending_accepted {n connfd : Int} (h : Pending s) (hle : s.freeIndex ≤ s.maxi + 1) (h1 : 1 ≤ s.freeIndex)
    (hlt : s.freeIndex < openMax) (hneg : (s.client s.freeIndex).fd < 0) (hl : s.loc = .accept n)
    (hok : Fresh s (.accept (some connfd))) :
    Pending
      { { s with clients := connfd :: s.clients, calls := .accept connfd :: s.calls : Server }.enroll connfd
        s.freeIndex with
      loc := if n - 1 ≤ 0 then .head else .service 1 (n - 1) } := by
  obtain ⟨-, hent⟩ := h.accepting n hl
  by_cases hn : n - 1 ≤ 0
  · rw [if_pos hn]
    refine .idle ?_ ?_
    · intro m; nofun
    · intro i m; nofun
  · rw [if_neg hn]
    constructor
    · intro m hm
      cases hm
    · intro i m hm j hij hj hread
      cases hm
      simp only [Server.enroll] at hj hread ⊢
      by_cases hjk : j = s.freeIndex
      · -- the entry just filled
        subst hjk
        have hset : s.pollinAt s.freeIndex := by
          simpa only [Server.readableAt, Server.pollinAt, Function.update_self] using hread.2
        have hgt : s.maxi < s.freeIndex := by
          by_contra hcon
          have := hent s.freeIndex h1 (not_lt.1 hcon)
          rw [if_pos hneg] at this
          exact this hset
        have heq : s.freeIndex = s.maxi + 1 := by omega
        refine .inr ⟨by omega, ?_⟩
        rw [readable_congr (s := s) fun k _ hk => readableAt_congr (Function.update_of_ne (by omega) _ _)]
        have := hok n hl hgt hlt hset
        rwa [heq]
      · have hjm : j ≤ s.maxi := by
          rcases le_max_iff.1 hj with hj | hj
          · exact hj
          · omega
        have hread' := (readableAt_congr (Function.update_of_ne hjk _ _)).1 hread
        have := hent j hij hjm
        rw [if_neg (not_lt.2 hread'.1)] at this
        simp only [Function.update_of_ne hjk]
        exact .inl (this hread'.2)

/-- Turns of the service loop: the entries ahead stay as they are. -/
theorem Pending.advance {i : Nat} {n : Int} (h : Pending s) (hl : s.loc = .service i n)
    (hcl : ∀ j, i < j → s'.client j = s.client j) (hcalls : reported s'.calls = reported s.calls)
    (hmaxi : s'.maxi = s.maxi)
    (hloc : s'.loc = .head ∨
      (∃ m, s'.loc = .service (i + 1) m ∧ (0 < n → 0 < m) ∧ m + (if s.readableAt i then 1 else 0) ≤ n)) :
    Pending s' := by
  rcases hloc with hloc | ⟨m, hloc, hpos, hm⟩
  · refine .idle ?_ ?_
    · intro k; rw [hloc]; nofun
    · intro k l; rw [hloc]; nofun
  · constructor
    · intro k hk
      rw [hloc] at hk
      cases hk
    · intro k l hk j hkj hj hread
      rw [hloc] at hk
      cases hk
      have hij : i < j := by omega
      rw [readableAt_congr (hcl j hij)] at hread
      rw [hcl j hij, hcalls]
      refine (h.serving i n hl j (le_of_lt hij) (hmaxi ▸ hj) hread).imp_right fun hr => ?_
      obtain ⟨h0, hle⟩ := hr
      refine ⟨hpos h0, ?_⟩
      rw [readable_congr (s := s) fun k hk _ => readableAt_congr (hcl k (by omega))]
      rw [readable_succ s hij] at hle
      split at hle
      · rename_i hi
        rw [if_pos hi] at hm
        omega
      · rename_i hi
        rw [if_neg hi] at hm
        omega

theorem pending_step {a : Action} (h : Pending s) (hv : Valid s) (hok : Fresh s a) (hs : step s a = some s') :
    Pending s' := by
  have ht := hv.table (step_exited hs)
  cases step_cases hs with
  | pollFails => exact pending_pollFails hok
  | polled hl hr => exact pending_polled ht.listener.1 hr
  | refused | tooMany | failed | served => exact .idle (fun _ => by nofun) fun _ _ => by nofun
  | accepted hl h0 hlfd hc hfree =>
    rcases freeIndex_cases s with ⟨h1, hlt, hneg, -⟩ | ⟨hfull, -⟩
    · exact pending_accepted h (ht.freeIndex_le hfree) h1 hlt hneg hl hok
    · exact absurd hfull hfree
  | @echoed i n bytes hl hi hr =>
    refine h.advance hl (fun _ _ => rfl) rfl rfl ?_
    simp only [next, if_pos hr]
    split
    · exact .inl rfl
    · exact .inr ⟨n - 1, rfl, by omega, by omega⟩
  | @dropped i n r hl hi hr hend =>
    refine h.advance hl (fun j hj => Function.update_of_ne (by omega) _ _) rfl rfl ?_
    simp only [next, if_pos hr]
    split
    · exact .inl rfl
    · exact .inr ⟨n - 1, rfl, by omega, by omega⟩
  | @passed i n hl hi hr =>
    refine h.advance hl (fun _ _ => rfl) rfl rfl (.inr ⟨n, rfl, id, ?_⟩)
    rw [if_neg hr]
    omega

end Steps

/-! ## Runs in which something old is looked at -/

section Stale

variable {s : Server} {i k : Nat} {n : Int}

/-- The service loop comes to an entry if no more than `nready` readable ones are before it. -/
theorem reach_unreported (hl : s.loc = .service i n) (hik : i ≤ k) (hk : k ≤ s.maxi) (hread : s.readableAt k)
    (hnew : (s.client k).fd ∉ reported s.calls) (hcount : s.readable i k = 0 ∨ (s.readable i k : Int) < n) :
    ∃ v, Reach step s v ∧ ¬ CallReported v := by
  obtain ⟨d, rfl⟩ := Nat.exists_eq_add_of_le hik
  induction d generalizing s i n with
  | zero =>
    refine ⟨s, Reach.refl s, fun h => hnew (h _ ?_)⟩
    simp only [Server.calledOn, hl, add_zero] at hk hread ⊢
    rw [if_pos ⟨hk, hread⟩]
    rfl
  | succ d ih =>
    rw [readable_succ s (by omega)] at hcount
    have hd : i + 1 + d = i + (d + 1) := by omega
    by_cases hi : s.readableAt i
    · rw [if_pos hi] at hcount
      have hn : ¬ n - 1 ≤ 0 := by omega
      let u : Server := next { s with calls := .write (s.client i).fd [0] :: .read (s.client i).fd :: s.calls } i n
      have hs : step s (.read (.data [0])) = some u := by
        simp only [step, hl]
        rw [if_pos ⟨by omega, hi⟩]
        rfl
      have hu : u.loc = .service (i + 1) (n - 1) := by
        simp only [u, next, if_neg hn]
      obtain ⟨v, hr, hv⟩ := ih hu (by omega) (by rwa [hd]) (by rwa [hd]) (by rwa [hd])
        (.inr (by
          have : u.readable (i + 1) (i + 1 + d) = s.readable (i + 1) (i + (d + 1)) := by rw [hd]; rfl
          rw [this]
          omega))
      exact ⟨v, Reach.cons hs hr, hv⟩
    · rw [if_neg hi] at hcount
      let u : Server := { s with loc := .service (i + 1) n }
      have hs : step s .pass = some u := by
        simp only [step, hl]
        rw [if_pos (by omega), if_neg hi]
      obtain ⟨v, hr, hv⟩ := ih (s := u) rfl (by omega) (by rwa [hd]) (by rwa [hd]) (by rwa [hd])
        (by
          have : u.readable (i + 1) (i + 1 + d) = s.readable (i + 1) (i + (d + 1)) := by rw [hd]; rfl
          rw [this]
          simpa using hcount)
      exact ⟨v, Reach.cons hs hr, hv⟩

/-- A failed `poll` with something old set. -/
theorem reach_pollFails (h : ¬ Fresh s (.poll none)) :
    ∃ v, Reach step (enter { s with calls := .poll [] :: s.calls } (-1)) v ∧ ¬ CallReported v := by
  by_cases h0 : s.pollinAt 0
  · refine ⟨_, Reach.refl _, fun hrep => ?_⟩
    have hl : (enter { s with calls := .poll [] :: s.calls } (-1)).loc = .accept (-1) := if_pos h0
    have := hrep s.listenfd (by simp only [Server.calledOn, hl]; rfl)
    simp [enter, reported] at this
  · simp only [Fresh, h0, not_false_eq_true, true_and, not_forall, not_not, exists_prop] at h
    -- the first readable entry is read from, whatever `nready` is
    have hex : ∃ i, 1 ≤ i ∧ i ≤ s.maxi ∧ s.readableAt i := h
    obtain ⟨h1, hi, hread⟩ := Nat.find_spec hex
    have hl : (enter { s with calls := .poll [] :: s.calls } (-1)).loc = .service 1 (-1) := if_neg h0
    refine reach_unreported hl h1 hi hread ?_ (.inl ?_)
    · simp [enter, reported]
    · refine readable_eq_zero fun k hk1 hk hr => ?_
      exact Nat.find_min hex hk ⟨hk1, by omega, hr⟩

/-- Before `Accept` what was reported belongs to descriptors that are open. -/
def Known (s : Server) : Prop := ∀ n, s.loc = .accept n → ∀ fd ∈ reported s.calls, fd = s.listenfd ∨ fd ∈ s.clients

theorem known_step {s' : Server} {a : Action} (ht : Table s) (hs : step s a = some s') : Known s' := by
  intro m hm fd hfd
  cases step_cases hs with
  | pollFails => simp [enter, reported] at hfd
  | @polled revents hl hr =>
    simp only [enter, reported, Server.reportedBy, List.mem_map, List.mem_filter, List.mem_range,
      decide_eq_true_eq] at hfd
    obtain ⟨i, ⟨hi, hset⟩, rfl⟩ := hfd
    have hrep := hr i (by omega)
    split at hrep
    · simp [hrep] at hset
    · rename_i hpos
      have hbound := ht.bound
      rcases Nat.eq_zero_or_pos i with rfl | h1
      · exact .inl ht.listener.1
      · exact .inr (ht.entry i h1 (by omega) (not_lt.1 hpos)).1
  | refused | tooMany | failed | passed | served => cases hm
  | accepted =>
    simp only at hm
    split at hm <;> cases hm
  | echoed | dropped =>
    simp only [next] at hm
    split at hm <;> cases hm

/-- A new connection in an old entry that the service loop comes to. -/
theorem reach_accepted {connfd : Int} (ht : Table s) (hknown : Known s) (hl : s.loc = .accept n) (h0 : 0 ≤ connfd)
    (hlfd : connfd ≠ s.listenfd) (hc : connfd ∉ s.clients) (hok : ¬ Fresh s (.accept (some connfd))) :
    ∃ v,
      Reach step { { s with clients := connfd :: s.clients, calls := .accept connfd :: s.calls : Server }.enroll connfd
      s.freeIndex with loc := if n - 1 ≤ 0 then .head else .service 1 (n - 1) } v ∧ ¬ CallReported v := by
  simp only [Fresh, not_forall, not_le] at hok
  obtain ⟨m, hm, hgt, hlt, hset, hcount⟩ := hok
  rw [hl] at hm
  cases hm
  have heq : s.freeIndex = s.maxi + 1 := by
    have := ht.freeIndex_le hlt.ne
    omega
  rw [if_neg (by omega)]
  refine reach_unreported (k := s.freeIndex) rfl (by omega) (le_max_right _ _) ?_ ?_ (.inr ?_)
  · simpa only [Server.enroll, Server.readableAt, Server.pollinAt, Function.update_self] using ⟨h0, hset⟩
  · simp only [Server.enroll, Function.update_self, reported]
    intro hmem
    exact (hknown n hl _ hmem).elim hlfd hc
  · rw [readable_congr (s := s) fun k _ hk => readableAt_congr (Function.update_of_ne (by omega) _ _), heq]
    exact hcount

end Stale

/-! ## The condition -/

section Runs

variable {listenfd : Int} {garbage : Nat → Pollfd} {s : Server}

theorem pending (h : ReachWith step Fresh (main listenfd garbage) s) : Pending s := by
  refine ReachWith.invariant (I := Pending) h (fun u hu => valid hu) ?_ fun u a u' hv hp hok hs =>
    pending_step hp hv hok hs
  exact .idle (fun _ => by nofun) fun _ _ => by nofun

theorem known (h : Reach step (main listenfd garbage) s) : Known s := by
  refine ReachWith.invariant (I := Known) h (fun u hu => valid hu) ?_ fun u a u' hv _ _ hs => ?_
  · intro n hl
    cases hl
  · exact known_step (hv.table (step_exited hs)) hs

end Runs

/-- The server calls only on what was reported exactly in the runs that never look at an old `revents`. -/
theorem reported_exact (listenfd : Int) (garbage : Nat → Pollfd) :
    ExactFor step Fresh CallReported (main listenfd garbage) where
  safe _ h := (pending h).callReported
  needed t a u h hs ha := by
    have ht := (valid h).table (step_exited hs)
    cases step_cases hs with
    | pollFails hl => exact reach_pollFails ha
    | @tooMany n connfd hl h0 hc hfull =>
      -- with a full table the process ends
      refine absurd ?_ ha
      intro m _ _ hlt
      omega
    | accepted hl h0 hlfd hc hfree => exact reach_accepted ht (known h) hl h0 hlfd hc ha
    | polled | refused | echoed | dropped | failed | passed | served => exact absurd trivial ha

/-- The first round accepts a connection; the second `poll` fails (`ENOMEM`, say, which leaves the `revents`
alone), and `Accept` is called again. -/
theorem accept_unreported : ¬ ∀ (listenfd : Int) (garbage : Nat → Pollfd) (s : Server),
    Reach step (main listenfd garbage) s → CallReported s := by
  intro h
  let run : List Action := [.poll (some fun i => if i = 0 then pollin else 0), .accept (some 4), .poll none]
  have hr : Reach step (main 3 fun _ => default) (after step (main 3 fun _ => default) run) := reach_after _ run
  have := h 3 (fun _ => default) _ hr
  revert this
  decide +kernel

end LinuxProgram.Poll
