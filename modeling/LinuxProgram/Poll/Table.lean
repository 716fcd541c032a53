/-
The entries of `client` and the open descriptors always agree while the process runs: an entry from 1 on
is free, or has the descriptor of one open connection, and each connection has one entry. `maxi` only
grows, a freed entry in the middle is taken again, and what is closed is open.
-/
import LinuxProgram.Poll.Code

namespace LinuxProgram.Poll

open LinuxProgram.Machine Server

/-! ## What a step does -/

/-- Everything that a step can be. -/
inductive StepCase (s : Server) : Action → Server → Prop
  | pollFails (hl : s.loc = .head) :
    StepCase s (.poll none) (enter { s with calls := .poll [] :: s.calls } (-1))
  | polled {revents : Nat → Nat} (hl : s.loc = .head) (hr : s.Reports revents) :
    StepCase s (.poll (some revents))
      (enter { s with client := s.polled revents, calls := .poll (s.reportedBy revents) :: s.calls } (s.nready revents))
  | refused {n : Int} (hl : s.loc = .accept n) : StepCase s (.accept none) { s with loc := .exited }
  | tooMany {n connfd : Int} (hl : s.loc = .accept n) (h0 : 0 ≤ connfd) (hc : connfd ∉ s.clients)
    (hfull : s.freeIndex = openMax) :
    StepCase s (.accept (some connfd))
      { s with clients := connfd :: s.clients, calls := .accept connfd :: s.calls, loc := .exited }
  | accepted {n connfd : Int} (hl : s.loc = .accept n) (h0 : 0 ≤ connfd) (hlfd : connfd ≠ s.listenfd)
    (hc : connfd ∉ s.clients) (hfree : s.freeIndex ≠ openMax) :
    StepCase s (.accept (some connfd))
      { { s with clients := connfd :: s.clients, calls := .accept connfd :: s.calls : Server }.enroll connfd
        s.freeIndex with
        loc := if n - 1 ≤ 0 then .head else .service 1 (n - 1) }
  | echoed {i : Nat} {n : Int} {bytes : List UInt8} (hl : s.loc = .service i n) (hi : i ≤ s.maxi)
      (hr : s.readableAt i) :
    StepCase s (.read (.data bytes))
      (next { s with calls := .write (s.client i).fd bytes :: .read (s.client i).fd :: s.calls } i n)
  | dropped {i : Nat} {n : Int} {r : Reading} (hl : s.loc = .service i n) (hi : i ≤ s.maxi) (hr : s.readableAt i)
    (hend : r = .eof ∨ r = .reset) :
    StepCase s (.read r) (({ s with calls := .read (s.client i).fd :: s.calls : Server }.drop i).next i n)
  | failed {i : Nat} {n : Int} (hl : s.loc = .service i n) (hi : i ≤ s.maxi) (hr : s.readableAt i) :
    StepCase s (.read .error) { s with calls := .read (s.client i).fd :: s.calls, loc := .exited }
  | passed {i : Nat} {n : Int} (hl : s.loc = .service i n) (hi : i ≤ s.maxi) (hr : ¬ s.readableAt i) :
    StepCase s .pass { s with loc := .service (i + 1) n }
  | served {i : Nat} {n : Int} (hl : s.loc = .service i n) (hi : s.maxi < i) : StepCase s .pass { s with loc := .head }

theorem accept_cases {s s' : Server} {n : Int} {o : Option Int} (hl : s.loc = .accept n) (hs : s.accept n o = some s') :
    StepCase s (.accept o) s' := by
  cases o with
  | none => cases hs; exact .refused hl
  | some connfd =>
    simp only [Server.accept] at hs
    split at hs
    · rename_i hc
      obtain ⟨h0, hlfd, hc⟩ := hc
      split at hs
      · rename_i hfull
        cases hs
        exact .tooMany hl h0 hc hfull
      · rename_i hfree
        cases hs
        exact .accepted hl h0 hlfd hc hfree
    · cases hs

theorem read_cases {s s' : Server} {i : Nat} {n : Int} {r : Reading} (hl : s.loc = .service i n) (hi : i ≤ s.maxi)
    (hr : s.readableAt i) (hs : s.read i n r = some s') : StepCase s (.read r) s' := by
  cases r with
  | data bytes =>
    simp only [Server.read] at hs
    split at hs
    · cases hs; exact .echoed hl hi hr
    · cases hs
  | eof => cases hs; exact .dropped hl hi hr (.inl rfl)
  | reset => cases hs; exact .dropped hl hi hr (.inr rfl)
  | error => cases hs; exact .failed hl hi hr

theorem step_cases {s s' : Server} {a : Action} (hs : step s a = some s') : StepCase s a s' := by
  unfold step at hs
  split at hs
  · rename_i revents hl
    cases revents with
    | none => cases hs; exact .pollFails hl
    | some revents =>
      simp only [Server.poll] at hs
      split at hs
      · rename_i hr
        cases hs
        exact .polled hl hr
      · cases hs
  · rename_i n connfd hl
    exact accept_cases hl hs
  · rename_i i n r hl
    split at hs
    · rename_i h
      exact read_cases hl h.1 h.2 hs
    · cases hs
  · rename_i i n hl
    split at hs
    · rename_i hi
      split at hs
      · cases hs
      · rename_i hr
        cases hs
        exact .passed hl hi hr
    · rename_i hi
      cases hs
      exact .served hl (not_le.1 hi)
  · cases hs

/-! ## The search for a free entry -/

/-- The search stops at the first free entry, or there is none. -/
theorem freeIndex_cases (s : Server) :
    (1 ≤ s.freeIndex ∧ s.freeIndex < openMax ∧ (s.client s.freeIndex).fd < 0 ∧
      ∀ j, 1 ≤ j → j < s.freeIndex → 0 ≤ (s.client j).fd) ∨
    (s.freeIndex = openMax ∧ ∀ j, 1 ≤ j → j < openMax → 0 ≤ (s.client j).fd) := by
  unfold freeIndex
  cases h : (List.range' 1 (openMax - 1)).find? fun i => (s.client i).fd < 0 with
  | none =>
    refine .inr ⟨rfl, fun j h1 hj => ?_⟩
    have := List.find?_eq_none.1 h j (List.mem_range'_1.2 ⟨h1, by omega⟩)
    simpa using this
  | some i =>
    obtain ⟨hi, as, bs, happ, has⟩ := List.find?_eq_some_iff_append.1 h
    have hmem := List.mem_range'_1.1 (List.mem_of_find?_eq_some h)
    refine .inl ⟨hmem.1, by simp only [Option.getD_some]; omega, by simpa using hi, fun j h1 hj => ?_⟩
    simp only [Option.getD_some] at hj
    -- the entries before the first free one are those in front of it in the list
    have hj' : j ∈ as ++ i :: bs := by
      rw [← happ]
      exact List.mem_range'_1.2 ⟨h1, by omega⟩
    have hsorted : (as ++ i :: bs).Pairwise (· < ·) := by
      rw [← happ]
      exact List.pairwise_lt_range'
    rcases List.mem_append.1 hj' with hj' | hj'
    · simpa using has j hj'
    · rcases List.mem_cons.1 hj' with rfl | hj'
      · exact absurd hj (lt_irrefl _)
      · have := (List.pairwise_cons.1 (List.pairwise_append.1 hsorted).2.1).1 j hj'
        omega

/-! ## The invariant -/

/-- Entries and open descriptors agree. -/
structure Table (s : Server) : Prop where
  listener : (s.client 0).fd = s.listenfd ∧ (s.client 0).events = pollin
  free : ∀ i, 1 ≤ i → i < openMax → (s.client i).fd < 0 → (s.client i).fd = -1
  entry : ∀ i, 1 ≤ i → i < openMax → 0 ≤ (s.client i).fd → (s.client i).fd ∈ s.clients ∧ (s.client i).events = pollin
  once : ∀ i j, 1 ≤ i → i < openMax → 1 ≤ j → j < openMax → 0 ≤ (s.client i).fd →
    (s.client i).fd = (s.client j).fd → i = j
  client : ∀ c ∈ s.clients, 0 ≤ c ∧ ∃ i, 1 ≤ i ∧ i ≤ s.maxi ∧ (s.client i).fd = c
  above : ∀ i, s.maxi < i → i < openMax → (s.client i).fd = -1
  bound : s.maxi < openMax
  nodup : s.clients.Nodup

/-- Every acceptance of a descriptor is followed by at most one `Close` of it, and by one unless it is
open. -/
def ClosedOnce (s : Server) : Prop := ∀ c, s.calls.count (.close c) + s.clients.count c = s.calls.count (.accept c)

section Steps

variable {s s' : Server} {i k : Nat} {c : Int}

/-- What the step does to `revents`, to the location and to the calls does not matter. -/
theorem Table.congr (h : Table s) (hlfd : s'.listenfd = s.listenfd) (hfd : ∀ i, (s'.client i).fd = (s.client i).fd)
    (hev : ∀ i, (s'.client i).events = (s.client i).events) (hmaxi : s'.maxi = s.maxi) (hcl : s'.clients = s.clients) :
    Table s' := by
  constructor
  · rw [hfd, hev, hlfd]; exact h.listener
  · intro i; rw [hfd]; exact h.free i
  · intro i; rw [hfd, hev, hcl]; exact h.entry i
  · intro i j; rw [hfd, hfd]; exact h.once i j
  · rw [hcl, hmaxi]
    intro c hc
    obtain ⟨h0, i, h1, hi, hic⟩ := h.client c hc
    exact ⟨h0, i, h1, hi, by rw [hfd]; exact hic⟩
  · intro i; rw [hfd, hmaxi]; exact h.above i
  · rw [hmaxi]; exact h.bound
  · rw [hcl]; exact h.nodup

/-- The first free entry is at most one beyond `maxi`. -/
theorem Table.freeIndex_le (h : Table s) (hfree : s.freeIndex ≠ openMax) : s.freeIndex ≤ s.maxi + 1 := by
  rcases freeIndex_cases s with ⟨-, hlt, -, hbelow⟩ | ⟨hfull, -⟩
  · by_contra hgt
    have h0 := hbelow (s.maxi + 1) (by omega) (by omega)
    have h1 := h.above (s.maxi + 1) (by omega) (by omega)
    omega
  · exact absurd hfull hfree

theorem Table.enroll (h : Table s) (hk : 1 ≤ k) (hlt : k < openMax) (hfree : (s.client k).fd < 0) (h0 : 0 ≤ c)
    (hc : c ∉ s.clients) (calls : List Call) :
    Table ({ s with clients := c :: s.clients, calls := calls : Server }.enroll c k) := by
  -- no entry has the new descriptor yet
  have hnew : ∀ i, 1 ≤ i → i < openMax → (s.client i).fd ≠ c := by
    rintro i h1 hi rfl
    exact hc (h.entry i h1 hi h0).1
  simp only [Server.enroll]
  constructor
  · simp only [Function.update_of_ne (show 0 ≠ k by omega)]
    exact h.listener
  · intro i h1 hi hneg
    by_cases hik : i = k
    · subst hik
      simp only [Function.update_self] at hneg
      omega
    · simp only [Function.update_of_ne hik] at hneg ⊢
      exact h.free i h1 hi hneg
  · intro i h1 hi hpos
    by_cases hik : i = k
    · subst hik
      simp only [Function.update_self]
      exact ⟨List.mem_cons_self, trivial⟩
    · simp only [Function.update_of_ne hik] at hpos ⊢
      obtain ⟨hmem, hev⟩ := h.entry i h1 hi hpos
      exact ⟨List.mem_cons_of_mem _ hmem, hev⟩
  · intro i j h1 hi h1' hj hpos heq
    by_cases hik : i = k <;> by_cases hjk : j = k
    · omega
    · subst hik
      simp only [Function.update_self, Function.update_of_ne hjk] at heq
      exact absurd heq.symm (hnew j h1' hj)
    · subst hjk
      simp only [Function.update_self, Function.update_of_ne hik] at heq
      exact absurd heq (hnew i h1 hi)
    · simp only [Function.update_of_ne hik, Function.update_of_ne hjk] at hpos heq
      exact h.once i j h1 hi h1' hj hpos heq
  · intro d hd
    rcases List.mem_cons.1 hd with rfl | hd
    · exact ⟨h0, k, hk, le_max_right _ _, by simp only [Function.update_self]⟩
    · obtain ⟨hd0, i, h1, hi, hid⟩ := h.client d hd
      have hik : i ≠ k := by
        rintro rfl
        omega
      refine ⟨hd0, i, h1, le_trans hi (le_max_left _ _), ?_⟩
      simp only [Function.update_of_ne hik]
      exact hid
  · intro i hi hlt'
    obtain ⟨h1, h2⟩ := max_lt_iff.1 hi
    simp only [Function.update_of_ne (show i ≠ k by omega)]
    exact h.above i h1 hlt'
  · exact max_lt h.bound hlt
  · exact List.nodup_cons.2 ⟨hc, h.nodup⟩

theorem Table.drop (h : Table s) (hi : 1 ≤ i) (hlt : i < openMax) (hpos : 0 ≤ (s.client i).fd) : Table (s.drop i) := by
  have hlive : ∀ {j : Nat}, 0 ≤ (Function.update s.client i { s.client i with fd := -1 } j).fd → j ≠ i := by
    rintro j hj rfl
    simp only [Function.update_self] at hj
    omega
  simp only [Server.drop]
  constructor
  · simp only [Function.update_of_ne (show 0 ≠ i by omega)]
    exact h.listener
  · intro j h1 hj hneg
    by_cases hji : j = i
    · subst hji
      simp only [Function.update_self]
    · simp only [Function.update_of_ne hji] at hneg ⊢
      exact h.free j h1 hj hneg
  · intro j h1 hj hpos'
    have hji := hlive hpos'
    simp only [Function.update_of_ne hji] at hpos' ⊢
    obtain ⟨hmem, hev⟩ := h.entry j h1 hj hpos'
    refine ⟨(List.mem_erase_of_ne fun heq => ?_).2 hmem, hev⟩
    exact hji (h.once j i h1 hj hi hlt hpos' heq)
  · intro j k h1 hj h1' hk hpos' heq
    have hji := hlive hpos'
    have hki := hlive (heq ▸ hpos')
    simp only [Function.update_of_ne hji, Function.update_of_ne hki] at hpos' heq
    exact h.once j k h1 hj h1' hk hpos' heq
  · intro d hd
    obtain ⟨hne, hd⟩ := (h.nodup.mem_erase_iff).1 hd
    obtain ⟨hd0, j, h1, hj, hjd⟩ := h.client d hd
    have hji : j ≠ i := by
      rintro rfl
      exact hne hjd.symm
    refine ⟨hd0, j, h1, hj, ?_⟩
    simp only [Function.update_of_ne hji]
    exact hjd
  · intro j hj hlt'
    by_cases hji : j = i
    · subst hji
      simp only [Function.update_self]
    · simp only [Function.update_of_ne hji]
      exact h.above j hj hlt'
  · exact h.bound
  · exact h.nodup.erase _

/-- The service loop stands at an entry from 1 on. -/
def Walking (s : Server) : Prop := ∀ i n, s.loc = .service i n → 1 ≤ i

theorem walking_step {a : Action} (hs : step s a = some s') : Walking s' := by
  intro j m hj
  cases step_cases hs with
  | pollFails | polled =>
    simp only [enter] at hj
    split at hj <;> cases hj
    exact le_refl _
  | refused | tooMany | failed | served => cases hj
  | accepted =>
    simp only at hj
    split at hj <;> cases hj
    exact le_refl _
  | echoed | dropped =>
    simp only [next] at hj
    split at hj <;> cases hj
    omega
  | passed => cases hj; omega

/-- While the process runs a step keeps the table. -/
theorem table_step {a : Action} (h : Table s) (hw : Walking s) (hs : step s a = some s') (hrun : s'.loc ≠ .exited) :
    Table s' := by
  cases step_cases hs with
  | pollFails | echoed | passed | served => exact h.congr rfl (fun _ => rfl) (fun _ => rfl) rfl rfl
  | polled hl hr =>
    refine h.congr rfl (fun i => ?_) (fun i => ?_) rfl rfl
    · simp only [enter, Server.polled]
      split <;> rfl
    · simp only [enter, Server.polled]
      split <;> rfl
  | refused | tooMany | failed => exact absurd rfl hrun
  | accepted hl h0 hlfd hc hfree =>
    rcases freeIndex_cases s with ⟨h1, hlt, hneg, -⟩ | ⟨hfull, -⟩
    · exact (h.enroll h1 hlt hneg h0 hc _).congr rfl (fun _ => rfl) (fun _ => rfl) rfl rfl
    · exact absurd hfull hfree
  | @dropped i n r hl hi hr hend =>
    exact (h.drop (hw i n hl) (lt_of_le_of_lt hi h.bound) hr.1).congr rfl (fun _ => rfl) (fun _ => rfl) rfl rfl

theorem closedOnce_step {a : Action} (h : ClosedOnce s) (ht : Table s) (hw : Walking s) (hs : step s a = some s') :
    ClosedOnce s' := by
  intro c
  have hc := h c
  cases step_cases hs with
  | pollFails | polled | refused | echoed | failed | passed | served =>
    simpa [enter, next, List.count_cons] using hc
  | tooMany | accepted =>
    simp only [Server.enroll, List.count_cons, beq_iff_eq, reduceCtorEq, if_false, add_zero, Call.accept.injEq]
    omega
  | @dropped i n r hl hi hr hend =>
    have hmem := (ht.entry i (hw i n hl) (lt_of_le_of_lt hi ht.bound) hr.1).1
    simp only [Server.drop, next, List.count_cons, beq_iff_eq, reduceCtorEq, if_false, add_zero, Call.close.injEq]
    by_cases hci : (s.client i).fd = c
    · subst hci
      have := List.count_pos_iff.2 hmem
      rw [List.count_erase_self, if_pos rfl]
      omega
    · rw [List.count_erase_of_ne (Ne.symm hci), if_neg hci]
      omega

end Steps

/-! ## Runs -/

section Runs

variable {listenfd : Int} {garbage : Nat → Pollfd} {s : Server}

theorem table_main : Table (main listenfd garbage) := by
  have hfd : ∀ i, 1 ≤ i → i < openMax → ((main listenfd garbage).client i).fd = -1 := by
    intro i h1 hi
    simp only [main]
    rw [if_neg (by omega), if_pos hi]
  constructor
  · exact ⟨rfl, rfl⟩
  · intro i h1 hi _
    exact hfd i h1 hi
  · intro i h1 hi hpos
    rw [hfd i h1 hi] at hpos
    omega
  · intro i j h1 hi _ _ hpos
    rw [hfd i h1 hi] at hpos
    omega
  · intro c hc
    cases hc
  · intro i h1 hi
    exact hfd i h1 hi
  · norm_num [main, openMax]
  · exact List.nodup_nil

/-- The invariant of a run: the books of the closed descriptors, and the table until the process ends. -/
structure Valid (s : Server) : Prop where
  walking : Walking s
  closedOnce : ClosedOnce s
  table : s.loc ≠ .exited → Table s

theorem step_exited {s' : Server} {a : Action} (hs : step s a = some s') : s.loc ≠ .exited := by
  intro hl
  simp only [step, hl] at hs
  cases hs

theorem valid (h : Reach step (main listenfd garbage) s) : Valid s := by
  refine Reach.invariant h ⟨?_, ?_, fun _ => table_main⟩ fun u a u' hu hs => ?_
  · intro i n hl
    cases hl
  · intro c
    rfl
  · have ht := hu.table (step_exited hs)
    exact ⟨walking_step hs, closedOnce_step hu.closedOnce ht hu.walking hs, table_step ht hu.walking hs⟩

end Runs

/-! ## The table at the head of the loop -/

/-- The non-negative descriptors of `client[1]`, ..., `client[maxi]`. -/
def Server.fds (s : Server) : List Int := ((List.range' 1 s.maxi).map fun i => (s.client i).fd).filter fun fd => 0 ≤ fd

/-- The table tracks the open connections. -/
structure Tracks (s : Server) : Prop where
  listener : (s.client 0).fd = s.listenfd
  fds : s.fds.Perm s.clients
  once : s.clients.Nodup
  above : ∀ i, s.maxi < i → i < openMax → (s.client i).fd = -1
  bound : s.maxi < openMax
  watched : ∀ fd ∈ s.listenfd :: s.clients, ∃ i ≤ s.maxi, (s.client i).fd = fd ∧ (s.client i).events = pollin

theorem Table.fds_perm {s : Server} (h : Table s) : s.fds.Perm s.clients := by
  have hnodup : s.fds.Nodup := by
    unfold Server.fds
    rw [List.filter_map]
    refine List.Nodup.map_on (fun i hi j hj hij => ?_) (List.Nodup.filter _ List.nodup_range')
    simp only [List.mem_filter, List.mem_range'_1, Function.comp, decide_eq_true_eq] at hi hj
    have := h.bound
    exact h.once i j hi.1.1 (by omega) hj.1.1 (by omega) hi.2 hij
  refine (List.perm_ext_iff_of_nodup hnodup h.nodup).2 fun c => ?_
  simp only [Server.fds, List.mem_filter, List.mem_map, List.mem_range'_1, decide_eq_true_eq]
  constructor
  · rintro ⟨⟨i, hi, rfl⟩, h0⟩
    have := h.bound
    exact (h.entry i hi.1 (by omega) h0).1
  · intro hc
    obtain ⟨h0, i, h1, hi, hic⟩ := h.client c hc
    exact ⟨⟨i, ⟨h1, by omega⟩, hic⟩, h0⟩

theorem Table.tracks {s : Server} (h : Table s) : Tracks s where
  listener := h.listener.1
  fds := h.fds_perm
  once := h.nodup
  above := h.above
  bound := h.bound
  watched := by
    intro fd hfd
    rcases List.mem_cons.1 hfd with rfl | hfd
    · exact ⟨0, Nat.zero_le _, h.listener⟩
    · obtain ⟨h0, i, h1, hi, hic⟩ := h.client fd hfd
      have hlt := lt_of_le_of_lt hi h.bound
      exact ⟨i, hi, hic, (h.entry i h1 hlt (by omega)).2⟩

/-- At the head of the loop the table tracks the open connections; at all times each accepted descriptor
was closed at most once. -/
theorem client_tracks (listenfd : Int) (garbage : Nat → Pollfd) {s : Server}
    (h : Reach step (main listenfd garbage) s) : (s.loc = .head → Tracks s) ∧ ClosedOnce s := by
  have hv := valid h
  refine ⟨fun hl => (hv.table ?_).tracks, hv.closedOnce⟩
  rw [hl]
  nofun

/-- Two clients connect; the first disconnects, and a third takes its entry. -/
def reused : List Action :=
  [.poll (some fun i => if i = 0 then pollin else 0), .accept (some 4),
    .poll (some fun i => if i = 0 then pollin else 0), .accept (some 5),
    .poll (some fun i => if i = 1 then pollin else 0), .read .eof,
    .poll (some fun i => if i = 0 then pollin else 0), .accept (some 4)]

theorem client_tracks_reused :
    Tracks (after step (main 3 fun _ => default) reused) ∧
    (after step (main 3 fun _ => default) reused).clients = [4, 5] :=
  ⟨(client_tracks 3 (fun _ => default) (reach_after _ reused)).1 (by decide +kernel), by decide +kernel⟩

end LinuxProgram.Poll
