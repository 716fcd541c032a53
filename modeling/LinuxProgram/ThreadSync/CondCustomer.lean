/-
The producers and customers of `4_producer_customer_cond.c`: one linked list under a mutex, and a condition
variable on which a customer waits when the list is empty. The customer tests `head` once: when it has the
mutex back after `pthread_cond_wait` it goes on whatever `head` is, although the wait can end without a
signal, and also with one that was sent for a node taken since.

`malloc` succeeds and returns memory that is not in use, also such as was freed. A null pointer is not
dereferenced, nor a freed node freed again: a thread that would has no further step. The `data` of a node is
only read to be printed. `linked` and `taken` record the nodes in the order in which producers linked them in
and customers took them out.
-/
import LinuxProgram.Data.Chain
import LinuxProgram.Machine.Outline

namespace LinuxProgram.ThreadSync.CondCustomer

open LinuxProgram.Data LinuxProgram.Machine

/-! ## The code -/

/-- The list and the heap, with the `next` fields of the nodes in use. -/
structure Shared where
  head : Option Nat
  heap : Nat → Option (Option Nat)
  linked : List Nat
  taken : List Nat

/-- Where a thread stands, with the pointers it holds: a node to be linked in, or the customer's `temp`, and
the value of `head->next` until it is assigned. -/
inductive Loc where
  | proLock
  | malloc
  | link (temp : Nat)
  | push (temp : Nat)
  | proUnlock
  | signal
  | sleep
  | custLock
  | test
  | wait
  | take
  | next (temp : Option Nat)
  | pop (temp next : Option Nat)
  | data (temp : Option Nat)
  | free (temp : Option Nat)
  | custUnlock
  deriving DecidableEq, Repr

/-- `producer` and `customer`; the outcome of a statement is the address from `malloc`, or what a freed node
reads as. -/
def code : Loc → Instr Unit Unit Shared (Option Nat) Loc
  | .proLock => .lock () .malloc
  | .malloc => .act fun _ sh x => x.bind fun temp =>
    if sh.heap temp = none then
      some ({ sh with heap := Function.update sh.heap temp (some none) }, .link temp, [])
    else none
  | .link temp =>
    .assign (fun sh => { sh with heap := Function.update sh.heap temp ((sh.heap temp).map fun _ => sh.head) })
      (.push temp)
  | .push temp => .assign (fun sh => { sh with head := some temp, linked := temp :: sh.linked }) .proUnlock
  | .proUnlock => .unlock () .signal
  | .signal => .signal () .sleep
  | .sleep => .skip .proLock
  | .custLock => .lock () .test
  | .test => .branch (fun sh => sh.head.isNone) .wait .take
  | .wait => .wait () () .take
  | .take => .update (fun _ => id) fun sh => .next sh.head
  | .next temp => .act fun _ sh x => sh.head.map fun p => (sh, .pop temp ((sh.heap p).getD x), [])
  | .pop temp next => .assign (fun sh => { sh with head := next, taken := temp.toList ++ sh.taken }) (.data temp)
  | .data temp => .act fun _ sh _ => temp.map fun _ => (sh, .free temp, [])
  | .free temp => .act fun _ sh _ => temp.bind fun a =>
    if sh.heap a = none then none else some ({ sh with heap := Function.update sh.heap a none }, .custUnlock, [])
  | .custUnlock => .unlock () .custLock

abbrev State := Machine.State Unit Unit Shared Loc

/-- The program after `main` has created its threads; there, one producer and one customer. -/
def main (producers customers : Nat) : State where
  shared := ⟨none, fun _ => none, [], []⟩
  owner := fun _ => none
  threads := List.replicate producers (.run .proLock) ++ List.replicate customers (.run .custLock)

/-! ## The property -/

/-- The pointer that the customer dereferences next is not `NULL`: `head` in `head->next`, and `temp` in
`temp->data`. -/
def Loc.NonNull (sh : Shared) : Loc → Prop
  | .next _ => sh.head ≠ none
  | .data temp => temp ≠ none
  | _ => True

/-- The nodes linked in are those in the list, each once, and those taken out of it. -/
def Listed (sh : Shared) : Prop :=
  ∃ nodes, Chain sh.heap sh.head nodes ∧ nodes.Nodup ∧ sh.linked.Perm (sh.taken ++ nodes)

structure Served (s : State) : Prop where
  nonNull : ∀ (i : Nat) l, s.threads[i]? = some (.run l) → l.NonNull s.shared
  once : Listed s.shared

/-- A customer that gets the mutex back after its wait finds a node. -/
def FindsNode (s : State) : Action (Option Nat) → Prop
  | .exec i _ _ => ∀ m l, s.threads[i]? = some (.woken m l) → s.shared.head ≠ none
  | .spurious _ => True

/-! ## The list -/

/-- The locations between `pthread_mutex_lock` and `pthread_mutex_unlock`. -/
def Loc.holds (_ : Unit) : Loc → Bool
  | .proLock | .signal | .sleep | .custLock => false
  | _ => true

theorem locking : Locking code Loc.holds := by
  intro l
  cases l with
  | malloc =>
    rintro i sh (_ | temp) sh' l' new hf
    · cases hf
    · obtain ⟨-, ⟨⟩⟩ := Option.ite_none_right_eq_some.1 hf
      simp [Loc.holds]
  | next temp =>
    rintro i sh x sh' l' new hf
    obtain ⟨p, -, ⟨⟩⟩ := Option.map_eq_some_iff.1 hf
    simp [Loc.holds]
  | data temp =>
    rintro i sh x sh' l' new hf
    obtain ⟨p, -, ⟨⟩⟩ := Option.map_eq_some_iff.1 hf
    simp [Loc.holds]
  | free temp =>
    rintro i sh x sh' l' new hf
    obtain ⟨a, -, hf⟩ := Option.bind_eq_some_iff.1 hf
    obtain ⟨-, ⟨⟩⟩ := Option.ite_none_left_eq_some.1 hf
    simp [Loc.holds]
  | test => exact locksAs_branch _ (fun _ => rfl) fun _ => rfl
  | take => exact locksAs_update _ _ fun _ _ => rfl
  | link | push | pop => exact locksAs_assign _ fun _ => rfl
  | sleep => exact locksAs_skip fun _ => rfl
  | _ => simp [code, Loc.holds]

/-- A node that is allocated and not in the list. -/
structure Apart (sh : Shared) (a : Nat) : Prop where
  allocated : (sh.heap a).isSome
  notMem : ∀ nodes, Chain sh.heap sh.head nodes → a ∉ nodes

/-- What a thread in its critical section knows. -/
def Knows (_ : Nat) (l : Loc) (sh : Shared) : Prop :=
  match l with
  | .link temp => Apart sh temp
  | .push temp => Apart sh temp ∧ sh.heap temp = some sh.head
  | .next temp => temp = sh.head
  | .pop temp next => ∃ a, temp = some a ∧ sh.head = some a ∧ sh.heap a = some next
  | .data temp | .free temp => ∃ a, temp = some a ∧ Apart sh a
  | _ => True

theorem knows_outside {l : Loc} (h : l.holds () = false) (i : Nat) (sh : Shared) : Knows i l sh := by
  cases l with
  | proLock | signal | sleep | custLock => trivial
  | _ => cases h

section List

variable {sh : Shared} {a : Nat} {nodes : List Nat} {v next : Option Nat}

/-- A write to a node that is not in the list. -/
theorem Listed.write (h : Listed sh) (ha : ∀ nodes, Chain sh.heap sh.head nodes → a ∉ nodes) (v : Option (Option Nat)) :
    Listed { sh with heap := Function.update sh.heap a v } ∧
      ∀ nodes, Chain (Function.update sh.heap a v) sh.head nodes → a ∉ nodes := by
  obtain ⟨nodes, hchain, hdis, hperm⟩ := h
  have hnew := hchain.update (ha nodes hchain) v
  refine ⟨⟨nodes, hnew, hdis, hperm⟩, fun nodes' h' => ?_⟩
  rw [h'.unique hnew]
  exact ha nodes hchain

theorem Listed.push (h : Listed sh) (ha : Apart sh a) (hnext : sh.heap a = some sh.head) :
    Listed { sh with head := some a, linked := a :: sh.linked } := by
  obtain ⟨nodes, hchain, hdis, hperm⟩ := h
  exact ⟨a :: nodes, .cons hnext hchain, List.nodup_cons.2 ⟨ha.notMem nodes hchain, hdis⟩,
    (hperm.cons a).trans List.perm_middle.symm⟩

theorem Listed.pop (h : Listed sh) (hhead : sh.head = some a) (hnext : sh.heap a = some next) :
    Listed { sh with head := next, taken := a :: sh.taken } ∧
    Apart { sh with head := next, taken := a :: sh.taken } a := by
  obtain ⟨nodes, hchain, hdis, hperm⟩ := h
  rw [hhead] at hchain
  cases hchain with
  | cons hn hrest =>
    obtain rfl := Option.some.inj (hn.symm.trans hnext)
    obtain ⟨hmem, hdis⟩ := List.nodup_cons.1 hdis
    refine ⟨⟨_, hrest, hdis, hperm.trans List.perm_middle⟩, ⟨by simp [hn], fun nodes' h' => ?_⟩⟩
    rwa [h'.unique hrest]

/-- In the critical section a thread's statement keeps the list and leads to what the next location knows. -/
theorem outline : ProofOutline code Loc.holds Listed Knows := by
  -- the others are outside and know nothing
  have hframe : ∀ {l : Loc}, l.holds () = true →
    ∀ (sh sh' : Shared) (j : Nat) l', (∀ m, l.holds m = true → l'.holds m = false) →
      Knows j l' sh → Knows j l' sh' := fun hl sh sh' j l' hout _ => knows_outside (hout () hl) j sh'
  intro l
  cases l with
  | malloc =>
    rintro i sh (_ | temp) sh' l' new hf hG -
    · cases hf
    · obtain ⟨hfree, ⟨⟩⟩ := Option.ite_none_right_eq_some.1 hf
      obtain ⟨hG', hmem⟩ := hG.write (fun nodes hn => hn.notMem_of_free hfree) (some none)
      exact ⟨⟨hG', ⟨by simp, hmem⟩, by simp⟩, fun j l' _ hout => hframe rfl sh _ j l' hout⟩
  | link temp =>
    refine outlined_update _ _ (fun i sh hG hA => ?_) fun i sh _ _ j l' _ hout => hframe rfl sh _ j l' hout
    obtain ⟨hsome, hmem⟩ := hA
    obtain ⟨old, hold⟩ := Option.isSome_iff_exists.1 hsome
    obtain ⟨hG', hmem'⟩ := hG.write hmem ((sh.heap temp).map fun _ => sh.head)
    refine ⟨hG', ⟨?_, hmem'⟩, ?_⟩ <;> simp [hold]
  | push temp =>
    exact outlined_update _ _ (fun i sh hG hA => ⟨hG.push hA.1 hA.2, trivial⟩) fun i sh _ _ j l' _ hout =>
      hframe rfl sh _ j l' hout
  | test => exact outlined_branch _ (fun _ _ _ _ _ => trivial) fun _ _ _ _ _ => trivial
  | take => exact outlined_update _ _ (fun i sh hG _ => ⟨hG, rfl⟩) fun i sh _ _ j l' _ hout => hframe rfl sh _ j l' hout
  | next temp =>
    rintro i sh x sh' l' new hf hG hA
    obtain ⟨p, hp, ⟨⟩⟩ := Option.map_eq_some_iff.1 hf
    refine ⟨⟨hG, ?_, by simp⟩, fun j l' _ hout => hframe rfl sh _ j l' hout⟩
    obtain ⟨nodes, hchain, -, -⟩ := hG
    rw [hp] at hchain
    cases hchain with
    | cons hn _ => exact ⟨p, hA.trans hp, hp, by rw [hn]; rfl⟩
  | pop temp next =>
    refine outlined_update _ _ (fun i sh hG hA => ?_) fun i sh _ _ j l' _ hout => hframe rfl sh _ j l' hout
    obtain ⟨a, rfl, hhead, hnext⟩ := hA
    obtain ⟨hG', hapart⟩ := hG.pop hhead hnext
    exact ⟨hG', a, rfl, hapart⟩
  | data temp =>
    rintro i sh x sh' l' new hf hG hA
    obtain ⟨p, -, ⟨⟩⟩ := Option.map_eq_some_iff.1 hf
    exact ⟨⟨hG, hA, by simp⟩, fun j l' _ hout => hframe rfl sh _ j l' hout⟩
  | free temp =>
    rintro i sh x sh' l' new hf hG hA
    obtain ⟨a, rfl, hapart⟩ := hA
    obtain ⟨-, ⟨⟩⟩ := Option.ite_none_left_eq_some.1 hf
    exact ⟨⟨(hG.write hapart.notMem none).1, trivial, by simp⟩, fun j l' _ hout => hframe rfl sh _ j l' hout⟩
  | sleep => exact outlined_skip fun _ _ _ _ => trivial
  | proLock | proUnlock | signal | custLock | custUnlock => exact fun _ _ _ _ => trivial
  | wait => exact fun _ _ _ => trivial

end List

/-! ## The customers -/

/-- The locations of a customer that will dereference `head`. -/
def Loc.needsNode : Loc → Bool
  | .take | .next _ => true
  | _ => false

/-- No customer that will dereference `head` has an empty list before it. -/
def Fed (s : State) : Prop := ∀ (i : Nat) l, s.threads[i]? = some (.run l) → l.needsNode = true → s.shared.head ≠ none

section Runs

variable {producers customers : Nat} {s s' : State} {a : Action (Option Nat)}

/-- Where a statement on the shared data leads, and that it is in the critical section when it changes them. -/
theorem acts (l : Loc) : (code l).Acts fun _ sh sh' l' new => new = [] ∧ (l.holds () = false → sh' = sh) ∧
    (l'.needsNode = true → (l.needsNode = true → sh.head ≠ none) → sh'.head ≠ none) := by
  cases l with
  | malloc =>
    rintro i sh (_ | temp) sh' l' new hf
    · cases hf
    · obtain ⟨-, ⟨⟩⟩ := Option.ite_none_right_eq_some.1 hf
      exact ⟨rfl, by nofun, by nofun⟩
  | link | push | pop => exact acts_update _ _ fun _ _ => ⟨rfl, by nofun, by nofun⟩
  | test =>
    refine acts_update _ _ fun _ sh => ⟨rfl, by nofun, fun hl _ => ?_⟩
    rintro (hnone : sh.head = none)
    simp [hnone, Loc.needsNode] at hl
  | take => exact acts_update _ _ fun _ _ => ⟨rfl, by nofun, fun _ h => h rfl⟩
  | next temp | data temp =>
    rintro i sh x sh' l' new hf
    obtain ⟨p, -, ⟨⟩⟩ := Option.map_eq_some_iff.1 hf
    exact ⟨rfl, by nofun, by nofun⟩
  | free temp =>
    rintro i sh x sh' l' new hf
    obtain ⟨a, -, hf⟩ := Option.bind_eq_some_iff.1 hf
    obtain ⟨-, ⟨⟩⟩ := Option.ite_none_left_eq_some.1 hf
    exact ⟨rfl, by nofun, by nofun⟩
  | sleep => exact acts_update _ _ fun _ _ => ⟨rfl, fun _ => rfl, by nofun⟩
  | _ => trivial

/-- Only the wait leads to a location where `head` will be dereferenced, of the statements on the mutex and the
condition variable. -/
theorem wait_of_next {l l' : Loc} (h : (code l).next = some l') (hl : l'.needsNode = true) : l = .wait := by
  cases l with
  | wait => rfl
  | proLock | proUnlock | signal | custLock | custUnlock =>
    cases h
    cases hl
  | _ => cases h

theorem Fed.step (h : Fed s) (hm : MutexInv code Loc.holds s) (hok : FindsNode s a)
    (hs : Machine.step code s a = some s') : Fed s' := by
  intro j l hj hl
  -- a thread that is moved, and not to `l`
  have hset : ∀ {ts : List (Thread Unit Unit Loc)} {i : Nat} {t t' : Thread Unit Unit Loc}, ts[i]? = some t →
      (ts.set i t')[j]? = some (.run l) → t' ≠ .run l → ts[j]? = some (.run l) := by
    intro ts i t t' ht hj hne
    rw [getElem?_set_eq ht] at hj
    split at hj
    · exact absurd (Option.some.inj hj) hne
    · exact hj
  have hto : ∀ {k k' : Loc}, (code k).next = some k' → k ≠ .wait → (.run k' : Thread Unit Unit Loc) ≠ .run l := by
    rintro k k' hc hk heq
    cases heq
    exact hk (wait_of_next hc hl)
  cases step_cases hs with
  | spurious ht => exact h j l (hset ht hj (by nofun)) hl
  | @relock i x ws m k ht => exact hok m k ht
  | lock ht hc => exact h j l (hset ht hj (hto (by rw [hc]; rfl) (by rintro rfl; cases hc))) hl
  | unlock ht hc => exact h j l (hset ht hj (hto (by rw [hc]; rfl) (by rintro rfl; cases hc))) hl
  | wait ht hc => exact h j l (hset ht hj (by nofun)) hl
  | @signal i x ws c k k' ht hc hw =>
    have hi : (wakeAt ws s.threads)[i]? = some (.run k) := by
      rw [wakeAt_getElem?, ht]
      simp [Thread.wake]
    exact h j l
      (run_of_wake (wakeAt_cases ws s.threads) (hset hi hj (hto (by rw [hc]; rfl) (by rintro rfl; cases hc)))) hl
  | @broadcast i x ws c k k' ht hc => cases k <;> cases hc
  | @act i x ws k f sh k' new ht hc hf =>
    obtain ⟨rfl, hout, hneeds⟩ := (acts k).of hc hf
    rw [List.map_nil, List.append_nil, getElem?_set_eq ht] at hj
    split at hj
    · cases hj
      exact hneeds hl (h i k ht)
    · rename_i hij
      -- the customer has the mutex, and the thread that moves has not
      have hfree : k.holds () = false := by
        by_contra hk
        refine hij (hm.unique ht hj (by simpa using hk) ?_)
        cases l <;> cases hl <;> rfl
      rw [hout hfree]
      exact h j l hj hl

theorem run_main {t : Thread Unit Unit Loc} (ht : t ∈ (main producers customers).threads) :
    t = .run .proLock ∨ t = .run .custLock := by
  simp only [main, List.mem_append, List.mem_replicate] at ht
  exact ht.imp And.right And.right

theorem mutexInv (h : Reach (step code) (main producers customers) s) : MutexInv code Loc.holds s := by
  refine locking.mutex (MutexInv.start (fun _ => rfl) fun t ht => ?_) h
  rcases run_main ht with rfl | rfl
  · exact ⟨_, rfl, fun _ => rfl⟩
  · exact ⟨_, rfl, fun _ => rfl⟩

theorem outlineInv (h : Reach (step code) (main producers customers) s) : OutlineInv Listed Knows s := by
  refine outline.valid locking (mutexInv (Reach.refl _)) ⟨⟨[], .nil, List.nodup_nil, List.Perm.refl _⟩,
    fun i l hl => ?_⟩ h
  rcases run_main (List.mem_of_getElem? hl) with heq | heq <;> cases heq <;> trivial

/-- In every run the nodes linked in are those in the list and those taken out, each once. -/
theorem listed (h : Reach (step code) (main producers customers) s) : Listed s.shared := (outlineInv h).shared

theorem fed (h : ReachWith (step code) FindsNode (main producers customers) s) : Fed s := by
  refine h.invariant (fun _ hu => mutexInv hu) (fun i l hl hn => ?_) fun u a u' hm hI hok hs => hI.step hm hok hs
  rcases run_main (List.mem_of_getElem? hl) with heq | heq <;> cases heq <;> cases hn

/-- A customer that has found no node dereferences `NULL`. -/
theorem reach_null (h : Reach (step code) (main producers customers) s) (hs : step code s a = some s')
    (ha : ¬ FindsNode s a) : ∃ v, Reach (step code) s' v ∧ ¬ Served v := by
  cases a with
  | spurious i => exact absurd trivial ha
  | exec i x ws =>
    simp only [FindsNode, not_forall, not_not] at ha
    obtain ⟨m, l, ht, hhead⟩ := ha
    obtain ⟨l₀, c, hc⟩ := (mutexInv h).woken i m l ht
    have hl : l = .take := by
      cases l₀ <;> cases hc
      rfl
    subst hl
    simp only [step, ht] at hs
    obtain ⟨-, rfl⟩ := State.acquire_eq_some hs
    have ht' := set_getElem?_self ht (.run .take)
    let u : State := { s with
      owner := Function.update s.owner m (some i)
      threads := s.threads.set i (.run .take) }
    have hcode : code .take = .update (fun _ => id) fun sh => .next sh.head := rfl
    have htake := step_update (show u.threads[i]? = some (.run .take) from ht') hcode none []
    refine ⟨_, (Reach.refl _).snoc htake, fun hserved => ?_⟩
    exact hserved.nonNull i (.next s.shared.head) (set_getElem?_self ht' _) hhead

end Runs

/-- Every pointer a customer dereferences is not `NULL`, and every node linked in is taken out at most once,
exactly in the runs in which every customer that gets the mutex back after its wait finds a node. -/
theorem served_exact (producers customers : Nat) :
    ExactFor (step code) FindsNode Served (main producers customers) where
  safe t h := by
    refine ⟨fun i l hl => ?_, listed h.reach⟩
    cases l with
    | next temp => exact fed h i _ hl rfl
    | data temp =>
      obtain ⟨a, rfl, -⟩ := (outlineInv h.reach).run i _ hl
      exact Option.some_ne_none a
    | _ => trivial
  needed t a u h hs ha := reach_null h hs ha

deriving instance DecidableEq for Thread

def run (i : Nat) : Action (Option Nat) := .exec i none []

/-- The customer takes the node and waits for the next one before the producer has signalled the first. -/
def lateSignal : List (Action (Option Nat)) :=
  [run 0, .exec 0 (some 1) [], run 0, run 0, run 0] ++ List.replicate 8 (run 1) ++ List.replicate 3 (run 1) ++
    [.exec 0 none [1], run 1, run 1]

theorem null_dereferenced :
    ¬ ∀ (producers customers : Nat) (s : State), Reach (step code) (main producers customers) s → Served s := by
  intro h
  have hserved := h 1 1 _ (reach_after (main 1 1) lateSignal)
  have hat : (after (step code) (main 1 1) lateSignal).threads[1]? = some (.run (.next none)) := by decide +kernel
  have hempty : (after (step code) (main 1 1) lateSignal).shared.head = none := by decide +kernel
  exact hserved.nonNull 1 _ hat hempty

end LinuxProgram.ThreadSync.CondCustomer
