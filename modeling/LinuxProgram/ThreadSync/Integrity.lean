/-
The list under concurrency. The semaphores bound how many threads are inside but not which of them
write `head`; the producers and customers of `4_producer_customer_cond.c` hold a mutex there. A write of
`head` keeps the list exactly if what the thread has read still describes it: a producer has the head
in `temp->next`, a customer has it in `temp` and its `next` field in hand.
-/
import LinuxProgram.Data.Chain
import LinuxProgram.Machine.Tally
import LinuxProgram.ThreadSync.ProducerCustomer

namespace LinuxProgram.ThreadSync

open LinuxProgram.Data LinuxProgram.Machine

/-- Each node linked in is in the list, or was taken out of it, once; no customer has found `head` to be
`NULL`; and the semaphores and the threads inside add up. -/
structure Sound (s : State) : Prop where
  list : ∃ nodes, Chain s.shared.heap s.shared.head nodes ∧ s.shared.linked.Perm (s.shared.taken ++ nodes)
  found : ∀ l ∈ s.locs, l.foundNull = false
  sum : s.shared.semPro + s.shared.semCust + s.locs.countP Loc.inside = semProInit

/-- What the thread has read of the list is so still when it writes `head`. -/
def Loc.Current (sh : Shared) : Loc → Prop
  | .push temp => sh.heap temp = some sh.head
  | .pop temp p => sh.head = temp ∧ temp.bind sh.heap = some p
  | _ => True

instance (sh : Shared) (l : Loc) : Decidable (l.Current sh) := by
  cases l <;> unfold Loc.Current <;> infer_instance

/-- The step is not the write of a thread whose reads are out of date. -/
def Current (s : State) : Action (Option Nat) → Prop
  | .exec i _ _ => ∀ t ∈ s.threads[i]?, t.loc.Current s.shared
  | .spurious _ => True

instance (s : State) (a : Action (Option Nat)) : Decidable (Current s a) := by
  cases a <;> unfold Current <;> infer_instance

/-! ## The invariant -/

/-- The nodes a thread alone may use: a producer's before it links it, a customer's after it has taken
it. -/
def Loc.held : Loc → Multiset Nat
  | .link temp | .push temp | .free (some temp) => {temp}
  | _ => 0

/-- The list has a node for the thread that `sem_cust` does not count: a producer has not posted it yet,
or a customer has waited for it and not taken it. -/
def Loc.owes : Loc → Bool
  | .proPost | .test | .take | .load _ | .next _ _ | .pop _ _ => true
  | _ => false

/-- The nodes of the list and those that threads hold. -/
def owned (nodes : List Nat) (ls : Multiset Loc) : Multiset Nat := nodes + ls.bind Loc.held

structure Consistent (sh : Shared) (ls : Multiset Loc) (nodes : List Nat) : Prop where
  chain : Chain sh.heap sh.head nodes
  perm : sh.linked.Perm (sh.taken ++ nodes)
  distinct : (owned nodes ls).Nodup
  allocated : ∀ a ∈ owned nodes ls, (sh.heap a).isSome
  length : nodes.length = sh.semCust + ls.countP fun l => l.owes = true
  sum : sh.semPro + sh.semCust + ls.countP (fun l => l.inside = true) = semProInit
  found : ∀ l ∈ ls, l.foundNull = false
  running : sh.crashed = false

theorem owned_cons (nodes : List Nat) (l : Loc) (n : Multiset Loc) :
    owned nodes (l ::ₘ n) = l.held + owned nodes n := by
  unfold owned
  rw [Multiset.cons_bind, add_left_comm]

theorem owned_node (a : Nat) (nodes : List Nat) (n : Multiset Loc) : owned (a :: nodes) n = {a} + owned nodes n := by
  unfold owned
  rw [← Multiset.cons_coe, ← Multiset.singleton_add, add_assoc]

section Consistent

variable {sh sh' : Shared} {l l' : Loc} {n : Multiset Loc} {nodes : List Nat} {x : Option Nat}

/-- A node that a thread holds is allocated, is not in the list and is held by no other. -/
theorem Consistent.holds (h : Consistent sh (l ::ₘ n) nodes) {a : Nat} (hl : l.held = {a}) :
    (sh.heap a).isSome ∧ a ∉ owned nodes n ∧ (owned nodes n).Nodup := by
  have hdis := h.distinct
  rw [owned_cons, hl, Multiset.singleton_add, Multiset.nodup_cons] at hdis
  refine ⟨h.allocated a ?_, hdis⟩
  rw [owned_cons, hl]
  exact Multiset.mem_add.2 (.inl (Multiset.mem_singleton_self a))

theorem notMem_of_owned {a : Nat} (h : a ∉ owned nodes n) : a ∉ nodes := fun ha => h (Multiset.mem_add.2 (.inl ha))

/-- A customer that has waited for a node finds one. -/
theorem Consistent.head_ne (h : Consistent sh (l ::ₘ n) nodes) (hl : l.owes = true) : sh.head ≠ none := by
  have hlen := h.length
  rw [Multiset.countP_cons, if_pos hl] at hlen
  rw [h.chain.head_eq, Ne, List.head?_eq_none_iff]
  rintro rfl
  simp at hlen

/-- A step that leaves the list and the heap alone. -/
theorem Consistent.goto (h : Consistent sh (l ::ₘ n) nodes) (l' : Loc) (semPro semCust : Nat) (hheld : l'.held = l.held)
    (hlen : semCust + (if l'.owes = true then 1 else 0) = sh.semCust + if l.owes = true then 1 else 0)
    (hsum : semPro + semCust + (if l'.inside = true then 1 else 0) =
      sh.semPro + sh.semCust + if l.inside = true then 1 else 0)
    (hfound : l'.foundNull = false) :
    Consistent { sh with semPro := semPro, semCust := semCust } (l' ::ₘ n) nodes where
  chain := h.chain
  perm := h.perm
  distinct := by
    rw [owned_cons, hheld, ← owned_cons]
    exact h.distinct
  allocated := by
    rw [owned_cons, hheld, ← owned_cons]
    exact h.allocated
  length := by
    have := h.length
    rw [Multiset.countP_cons] at this ⊢
    show nodes.length = semCust + _
    omega
  sum := by
    have := h.sum
    rw [Multiset.countP_cons] at this ⊢
    show semPro + semCust + _ = semProInit
    omega
  found := by
    refine Multiset.forall_mem_cons.2 ⟨hfound, fun k hk => h.found k (Multiset.mem_cons_of_mem hk)⟩
  running := h.running

/-- A step of one thread that changes the list or the heap. -/
theorem Consistent.change (h : Consistent sh (l ::ₘ n) nodes) (l' : Loc) {nodes' : List Nat} {head : Option Nat}
    {heap : Nat → Option (Option Nat)} {linked taken : List Nat} (hchain : Chain heap head nodes')
    (hperm : linked.Perm (taken ++ nodes')) (hdis : (l'.held + owned nodes' n).Nodup)
    (halloc : ∀ a ∈ l'.held + owned nodes' n, (heap a).isSome)
    (hlen : nodes'.length + (if l.owes = true then 1 else 0) = nodes.length + if l'.owes = true then 1 else 0)
    (hl : l.inside = true) (hl' : l'.inside = true) (hfound : l'.foundNull = false) :
    Consistent { sh with head := head, heap := heap, linked := linked, taken := taken } (l' ::ₘ n) nodes' where
  chain := hchain
  perm := hperm
  distinct := by rwa [owned_cons]
  allocated := by rwa [owned_cons]
  length := by
    have := h.length
    rw [Multiset.countP_cons] at this ⊢
    show nodes'.length = sh.semCust + _
    omega
  sum := by
    have := h.sum
    rw [Multiset.countP_cons, if_pos hl] at this
    rw [Multiset.countP_cons, if_pos hl']
    exact this
  found := by
    refine Multiset.forall_mem_cons.2 ⟨hfound, fun k hk => h.found k (Multiset.mem_cons_of_mem hk)⟩
  running := h.running

theorem Consistent.malloc (h : Consistent sh (.malloc ::ₘ n) nodes) {temp : Nat} (hfree : sh.heap temp = none) :
    Consistent { sh with heap := Function.update sh.heap temp (some none) } (.link temp ::ₘ n) nodes := by
  have hnew : temp ∉ owned nodes n := by
    intro hmem
    have := h.allocated temp (by rw [owned_cons]; exact Multiset.mem_add.2 (.inr hmem))
    rw [hfree] at this
    cases this
  have hdis := h.distinct
  rw [owned_cons] at hdis
  have hdis : (owned nodes n).Nodup := (Multiset.nodup_add.1 hdis).2.1
  refine h.change (.link temp) (h.chain.update (notMem_of_owned hnew) _) h.perm (Multiset.nodup_cons.2 ⟨hnew, hdis⟩)
    (fun a ha => ?_) rfl rfl rfl rfl
  by_cases hne : a = temp
  · rw [hne, Function.update_self]
    rfl
  · rw [Function.update_of_ne hne]
    refine h.allocated a ?_
    rw [owned_cons]
    exact Multiset.mem_add.2 (.inr ((Multiset.mem_cons.1 ha).resolve_left hne))

theorem Consistent.link {temp : Nat} (h : Consistent sh (.link temp ::ₘ n) nodes) :
    Consistent { sh with heap := Function.update sh.heap temp ((sh.heap temp).map fun _ => sh.head) } (.push temp ::ₘ n)
      nodes := by
  obtain ⟨hsome, hnew, hdis⟩ := h.holds rfl
  refine h.change (.push temp) (h.chain.update (notMem_of_owned hnew) _) h.perm (Multiset.nodup_cons.2 ⟨hnew, hdis⟩)
    (fun a ha => ?_) rfl rfl rfl rfl
  by_cases hne : a = temp
  · rw [hne, Function.update_self, Option.isSome_map]
    exact hsome
  · rw [Function.update_of_ne hne]
    refine h.allocated a ?_
    rw [owned_cons]
    exact ha

theorem Consistent.push {temp : Nat} (h : Consistent sh (.push temp ::ₘ n) nodes) (hcur : sh.heap temp = some sh.head) :
    Consistent { sh with head := some temp, linked := temp :: sh.linked } (.proPost ::ₘ n) (temp :: nodes) := by
  have heq : Loc.proPost.held + owned (temp :: nodes) n = owned nodes (.push temp ::ₘ n) := by
    rw [owned_node, owned_cons]
    exact zero_add _
  refine h.change .proPost (.cons hcur h.chain) ?_ ?_ ?_ rfl rfl rfl rfl
  · exact (List.Perm.cons temp h.perm).trans List.perm_middle.symm
  · rw [heq]
    exact h.distinct
  · rw [heq]
    exact h.allocated

theorem Consistent.pop {a : Nat} {next : Option Nat} (h : Consistent sh (.pop (some a) next ::ₘ n) nodes)
    (hhead : sh.head = some a) (hnext : sh.heap a = some next) :
    ∃ rest, Consistent { sh with head := next, taken := a :: sh.taken } (.free (some a) ::ₘ n) rest := by
  obtain ⟨rest, hrest, hperm⟩ := (h.chain.pop_iff a next).2 ⟨hhead, hnext⟩
  have hnodes : nodes = a :: rest := h.chain.unique (hhead ▸ .cons hnext hrest)
  subst hnodes
  have heq : (Loc.free (some a)).held + owned rest n = owned (a :: rest) (.pop (some a) next ::ₘ n) := by
    rw [owned_cons, owned_node]
    exact (zero_add _).symm
  refine ⟨rest, h.change (.free (some a)) hrest ?_ ?_ ?_ rfl rfl rfl rfl⟩
  · exact h.perm.trans List.perm_middle
  · rw [heq]
    exact h.distinct
  · rw [heq]
    exact h.allocated

theorem Consistent.free {a : Nat} (h : Consistent sh (.free (some a) ::ₘ n) nodes) :
    Consistent { sh with heap := Function.update sh.heap a none } (.custPost ::ₘ n) nodes := by
  obtain ⟨-, hnew, hdis⟩ := h.holds rfl
  refine h.change .custPost (h.chain.update (notMem_of_owned hnew) _) h.perm ?_ (fun b hb => ?_) rfl rfl rfl rfl
  · exact (zero_add (owned nodes n)).symm ▸ hdis
  · have hb : b ∈ owned nodes n := (Multiset.mem_add.1 hb).resolve_left (Multiset.notMem_zero b)
    rw [Function.update_of_ne]
    · refine h.allocated b ?_
      rw [owned_cons]
      exact Multiset.mem_add.2 (.inr hb)
    · rintro rfl
      exact hnew hb

/-- One statement, executed while what it has read is so still. -/
theorem exec_valid (hs : exec sh x l = some (sh', l')) (hcur : l.Current sh) (h : Consistent sh (l ::ₘ n) nodes) :
    ∃ nodes', Consistent sh' (l' ::ₘ n) nodes' := by
  unfold exec at hs
  cases l with
  | proWait =>
    obtain ⟨hpos, ⟨⟩⟩ := Option.ite_none_right_eq_some.1 hs
    exact ⟨nodes, h.goto _ _ _ rfl rfl (by simp [Loc.inside]; omega) rfl⟩
  | malloc =>
    obtain ⟨temp, -, hs⟩ := Option.bind_eq_some_iff.1 hs
    obtain ⟨hfree, ⟨⟩⟩ := Option.ite_none_right_eq_some.1 hs
    exact ⟨nodes, h.malloc hfree⟩
  | link temp =>
    cases hs
    exact ⟨nodes, h.link⟩
  | push temp =>
    cases hs
    exact ⟨_, h.push hcur⟩
  | proPost =>
    cases hs
    exact ⟨nodes, h.goto _ _ _ rfl rfl (by simp [Loc.inside]; omega) rfl⟩
  | custWait =>
    obtain ⟨hpos, ⟨⟩⟩ := Option.ite_none_right_eq_some.1 hs
    exact ⟨nodes, h.goto _ _ _ rfl (by simp [Loc.owes]; omega) (by simp [Loc.inside]; omega) rfl⟩
  | test =>
    rw [if_neg (h.head_ne rfl)] at hs
    cases hs
    exact ⟨nodes, h.goto .take _ _ rfl rfl rfl rfl⟩
  | noProduct => cases h.found _ (Multiset.mem_cons_self _ _)
  | take =>
    obtain ⟨a, ha⟩ := Option.ne_none_iff_exists'.1 (h.head_ne rfl)
    cases hs
    exact ⟨nodes, h.goto (.load sh.head) _ _ rfl rfl rfl (by rw [ha]; rfl)⟩
  | load temp =>
    cases temp with
    | none => cases h.found _ (Multiset.mem_cons_self _ _)
    | some temp =>
      obtain ⟨a, ha⟩ := Option.ne_none_iff_exists'.1 (h.head_ne rfl)
      cases hs
      exact ⟨nodes, h.goto (.next (some temp) sh.head) _ _ rfl rfl rfl (by rw [ha]; rfl)⟩
  | next temp p =>
    rcases temp with _ | temp
    · cases h.found _ (Multiset.mem_cons_self _ _)
    rcases p with _ | p
    · cases h.found _ (Multiset.mem_cons_self _ _)
    · cases hs
      exact ⟨nodes, h.goto (.pop (some temp) _) _ _ rfl rfl rfl rfl⟩
  | pop temp next =>
    cases hs
    obtain ⟨hhead, hnext⟩ := hcur
    cases temp with
    | none => cases hnext
    | some a => exact h.pop hhead hnext
  | free temp =>
    cases temp with
    | none => cases h.found _ (Multiset.mem_cons_self _ _)
    | some a =>
      have hsome := (h.holds rfl).1
      dsimp only at hs
      split at hs
      · rename_i hnone
        rw [hnone] at hsome
        cases hsome
      · cases hs
        exact ⟨nodes, h.free⟩
  | custPost =>
    cases hs
    exact ⟨nodes, h.goto _ _ _ rfl rfl (by simp [Loc.inside]; omega) rfl⟩

end Consistent

theorem tallying : Tallying code (fun l => ({l} : Multiset Loc)) (fun l sh _ _ => l.Current sh)
    fun sh ls => ∃ nodes, Consistent sh ls nodes := by
  intro l i sh x sh' l' new n hf hcur hI
  obtain ⟨-, hf⟩ := Option.ite_none_left_eq_some.1 hf
  obtain ⟨r, hs, ⟨⟩⟩ := Option.map_eq_some_iff.1 hf
  obtain ⟨nodes, h⟩ := hI
  rw [add_comm, Multiset.singleton_add] at h
  obtain ⟨nodes', h'⟩ := exec_valid hs hcur h
  refine ⟨nodes', ?_⟩
  rwa [tally_nil, add_zero, add_comm, Multiset.singleton_add]

theorem tally_singleton (ls : List Loc) : tally (fun l => ({l} : Multiset Loc)) ls = ls := by
  induction ls with
  | nil => rfl
  | cons l ls ih => rw [tally_cons, ih, Multiset.singleton_add, Multiset.cons_coe]

section Runs

variable {producers customers : Nat} {s s' : State}

theorem main_locs {l : Loc} (hl : l ∈ (main producers customers).locs) : l = .proWait ∨ l = .custWait := by
  simp only [State.locs, main, List.map_append, List.map_replicate, List.mem_append, List.mem_replicate,
    Thread.loc] at hl
  exact hl.imp And.right And.right

theorem consistent_main :
    Consistent (main producers customers).shared ((main producers customers).locs : Multiset Loc) [] := by
  have hnone : owned [] ((main producers customers).locs : Multiset Loc) = 0 := by
    refine Multiset.eq_zero_of_forall_notMem fun a ha => ?_
    obtain ⟨l, hl, ha⟩ := Multiset.mem_bind.1 ((Multiset.mem_add.1 ha).resolve_left (Multiset.notMem_zero a))
    rcases main_locs hl with rfl | rfl <;> exact Multiset.notMem_zero a ha
  refine ⟨.nil, List.Perm.refl _, ?_, fun a ha => ?_, ?_, ?_, fun l hl => ?_, rfl⟩
  · rw [hnone]
    exact Multiset.nodup_zero
  · rw [hnone] at ha
    exact absurd ha (Multiset.notMem_zero a)
  · refine (congrArg (0 + ·) (Multiset.countP_eq_zero (p := fun l : Loc => l.owes = true).2 fun l hl => ?_)).symm
    rcases main_locs hl with rfl | rfl <;> decide
  · refine congrArg (semProInit + ·) (Multiset.countP_eq_zero (p := fun l : Loc => l.inside = true).2 fun l hl => ?_)
    rcases main_locs hl with rfl | rfl <;> decide
  · rcases main_locs hl with rfl | rfl <;> rfl

theorem consistent_valid (h : ReachWith (step code) Current (main producers customers) s) :
    ∃ nodes, Consistent s.shared (s.locs : Multiset Loc) nodes := by
  rw [← tally_singleton]
  refine tallying.valid ?_ (h.mono fun u a hok => ?_)
  · rw [tally_singleton]
    exact ⟨[], consistent_main⟩
  · cases a with
    | exec i x ws => exact fun l hl => hok _ hl
    | spurious i => trivial

theorem Consistent.sound {nodes : List Nat} (h : Consistent s.shared (s.locs : Multiset Loc) nodes) : Sound s where
  list := ⟨nodes, h.chain, h.perm⟩
  found := h.found
  sum := by
    rw [← h.sum, Multiset.coe_countP]
    simp only [Bool.decide_eq_true]

/-- A write of `head` that does not meet the condition breaks the list. -/
theorem not_sound_of_stale {nodes : List Nat} (h : Consistent s.shared (s.locs : Multiset Loc) nodes)
    {a : Action (Option Nat)} (hs : step code s a = some s') (ha : ¬ Current s a) : ¬ Sound s' := by
  rintro ⟨⟨m, hchain, hperm⟩, -, -⟩
  cases step_cases hs with
  | spurious => exact ha trivial
  | @relock i x ws m => exact m.elim
  | lock _ hc => cases hc
  | unlock _ hc => cases hc
  | wait _ hc => cases hc
  | signal _ hc => cases hc
  | broadcast _ hc => cases hc
  | @act i x ws l f sh l' new ht hc hf =>
    cases hc
    obtain ⟨-, hf⟩ := Option.ite_none_left_eq_some.1 hf
    obtain ⟨r, hexec, ⟨⟩⟩ := Option.map_eq_some_iff.1 hf
    have hstale : ¬ l.Current s.shared := by
      intro hcur
      refine ha ?_
      rintro t ht'
      obtain rfl : Thread.run l = t := Option.some.inj (ht.symm.trans ht')
      exact hcur
    cases l with
    | push temp =>
      cases hexec
      refine hstale ((h.chain.push_iff temp).1 ⟨m, hchain, ?_⟩)
      have hall : (s.shared.taken ++ m).Perm (s.shared.taken ++ temp :: nodes) :=
        hperm.symm.trans ((List.Perm.cons temp h.perm).trans List.perm_middle.symm)
      exact (List.perm_append_left_iff _).1 hall
    | pop temp next =>
      cases hexec
      cases temp with
      | none => cases h.found _ (List.mem_map_of_mem (List.mem_of_getElem? ht))
      | some a =>
        refine hstale ((h.chain.pop_iff a next).1 ⟨m, hchain, ?_⟩)
        have hall : (s.shared.taken ++ nodes).Perm (s.shared.taken ++ a :: m) :=
          h.perm.symm.trans (hperm.trans List.perm_middle.symm)
        exact (List.perm_append_left_iff _).1 hall
    | _ => exact hstale trivial

end Runs

/-- In every run whose writes of `head` are all by threads whose reads are so still, the list, the
customers and the semaphores are as they should be, and the first write that is not breaks the list. -/
theorem sound_exact (producers customers : Nat) (s : State)
    (h : ReachWith (step code) Current (main producers customers) s) :
    Sound s ∧ ∀ a s', step code s a = some s' → (Sound s' ↔ Current s a) := by
  obtain ⟨nodes, hI⟩ := consistent_valid h
  refine ⟨hI.sound, fun a s' hs => ⟨fun hsound => ?_, fun ha => ?_⟩⟩
  · by_contra ha
    exact not_sound_of_stale hI hs ha hsound
  · obtain ⟨nodes', hI'⟩ := consistent_valid (h.snoc hs ha)
    exact hI'.sound

def run (i : Nat) : Action (Option Nat) := .exec i none []

/-- Two producers read `head` before either writes it. -/
def twoPushes : List (Action (Option Nat)) :=
  [run 0, .exec 0 (some 1) [], run 0, run 1, .exec 1 (some 2) [], run 1, run 0]

theorem sound_exact_twoPushes :
    let s := after (stepIf (step code) Current) (main 2 1) twoPushes
    s.shared.head = some 1 ∧ s.locs = [.proPost, .push 2, .custWait] ∧ Sound s ∧
      ∀ a s', step code s a = some s' → (Sound s' ↔ Current s a) :=
  ⟨by decide +kernel, by decide +kernel, sound_exact 2 1 _ (.of_stepIf (reach_after (main 2 1) twoPushes))⟩

/-- The second producer writes `head` too, and the customer waits twice. -/
def lostNode : List (Action (Option Nat)) := twoPushes ++ [run 1, run 0, run 1] ++ List.replicate 10 (run 2)

theorem head_unsynchronised :
    (¬ ∀ producers customers s, Reach (step code) (main producers customers) s →
      ∃ nodes, Chain s.shared.heap s.shared.head nodes ∧ s.shared.linked.Perm (s.shared.taken ++ nodes)) ∧
    (¬ ∀ producers customers s, Reach (step code) (main producers customers) s → ∀ l ∈ s.locs, l.foundNull = false) ∧
    ¬ ∀ producers customers s, Reach (step code) (main producers customers) s →
      s.shared.semPro + s.shared.semCust + s.locs.countP Loc.inside = semProInit := by
  refine ⟨fun h => ?_, fun h => ?_, fun h => ?_⟩
  · obtain ⟨nodes, hchain, hperm⟩ := h 2 1 _ (reach_after (main 2 1) lostNode)
    have hhead : (after (step code) (main 2 1) lostNode).shared.head = none := by decide +kernel
    have hlinked : (after (step code) (main 2 1) lostNode).shared.linked = [2, 1] := by decide +kernel
    have htaken : (after (step code) (main 2 1) lostNode).shared.taken = [2] := by decide +kernel
    rw [hhead] at hchain
    cases hchain
    rw [hlinked, htaken] at hperm
    cases hperm.length_eq
  · have hfound := h 2 1 _ (reach_after (main 2 1) lostNode) .noProduct (by decide +kernel)
    cases hfound
  · have hsum := h 2 1 _ (reach_after (main 2 1) (lostNode ++ [run 2]))
    have hlow : (after (step code) (main 2 1) (lostNode ++ [run 2])).shared.semPro +
      (after (step code) (main 2 1) (lostNode ++ [run 2])).shared.semCust +
      (after (step code) (main 2 1) (lostNode ++ [run 2])).locs.countP Loc.inside = 9 := by decide +kernel
    rw [hlow] at hsum
    cases hsum

end LinuxProgram.ThreadSync
