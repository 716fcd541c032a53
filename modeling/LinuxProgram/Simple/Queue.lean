/-
The job ring of the simple pool as a queue, and where its positions go. Below `2 ^ 31` additions the
ring is a bounded FIFO queue, and a worker executes the very copy it took. The positions are remainders
of counters that wrap: the one at `2 ^ 31` additions is `INT_MIN % max_job_num`, which is no position
of the ring unless it happens to be zero. `threadpool.c` reduces its positions at each step.
-/
import LinuxProgram.Simple.Execution

namespace LinuxProgram.Simple

open LinuxProgram.Machine LinuxProgram.Data
open LinuxProgram.Threadpool (tasksOf)

variable {E X K R G : Type}

/-! ## The queue -/

/-- The ring agrees with the tasks added and taken, in the order of the critical sections. -/
structure Fifo (cfg : Config) (p : Pool G) : Prop where
  size : 0 ≤ p.jobNum ∧ p.jobNum ≤ cfg.maxJobNum
  counters : p.jobPush - p.jobPop = p.jobNum
  contents : p.taken.map (·.2.job) ++ ((List.range p.jobNum.toNat).map fun k : Nat =>
    (p.tasks ((p.jobPop + k).tmod cfg.maxJobNum)).job) = p.added.map PoolTask.job
  numbered : p.added.map (·.tasknum) = (List.range p.added.length).map fun k : Nat => (k : Int)

/-- The copy of a task that a worker holds or executes. -/
def Loc.copy : Loc K R G → Option (PoolTask G)
  | .worker task .signal | .worker task .unlock | .worker task .call | .callback task _ => some task
  | _ => none

theorem Pool.Ring.fifo {cfg : Config} {p : Pool G} (h : p.Ring cfg) (hlt : p.added.length < 2 ^ 31) : Fifo cfg p := by
  obtain ⟨h1, h2, h3, h4, h5, h6, h7, h8⟩ := h
  have hpop : p.jobPop = p.taken.length := by rw [h5, wrap32_eq (by omega) (by omega)]
  have hpush : p.jobPush = p.added.length := by rw [h4, wrap32_eq (by omega) (by omega)]
  constructor
  · exact ⟨h2, h3⟩
  · omega
  · rw [← h8 hlt, window, List.map_map]
    congr 1
    apply List.map_congr_left
    intro k _
    rw [Function.comp, hpop, ← Nat.cast_add, tmod_natCast]
  · apply List.ext_getElem?
    intro k
    rw [List.getElem?_map, List.getElem?_map]
    cases hk : p.added[k]? with
    | none =>
      rw [List.getElem?_eq_none (by simpa using hk)]
      rfl
    | some t =>
      have hlen : k < p.added.length := (List.getElem?_eq_some_iff.1 hk).1
      rw [List.getElem?_range hlen, Option.map_some, Option.map_some, (h7 k t hk).1, wrap32_eq (by omega) (by omega)]

/-- The copy that a thread executes is the one it took last. -/
theorem Calls.copy {drop : Prop} {i : Nat} {l : Loc K R G} {s : Sys E G} (h : Calls drop i (some l) s)
    {task : PoolTask G} (hl : l.copy = some task) : (tasksOf i s.pool.taken).getLast? = some task := by
  have hheld : s.pool.Held i task → (tasksOf i s.pool.taken).getLast? = some task := by
    intro hh
    rw [hh, List.getLast?_append]
    rfl
  unfold Loc.copy at hl
  split at hl <;> cases hl
  · exact hheld h.1
  · exact hheld h
  · exact hheld h
  · rw [h.1]
    exact h.2

/-- In every reachable state of a run with fewer than `2 ^ 31` additions the ring is a bounded FIFO
queue of the calls of `addtask`, numbered from 0; and the copy that a worker executes is the one it
took. -/
theorem ring_refines_fifo (cfg : Config) (w : World E X K R G) (s₀ s : SimpleState E K R G) (h0 : Begun cfg s₀)
    (h : Reach (step (code cfg w)) s₀ s) (hlt : s.shared.pool.added.length < 2 ^ 31) :
    Fifo cfg s.shared.pool ∧ ∀ (i : Nat) l task, s.locs[i]? = some l → l.copy = some task →
      (tasksOf i s.shared.pool.taken).getLast? = some task := by
  refine ⟨(foundInv h0 h).shared.fifo hlt, fun i l task hl hcopy => ?_⟩
  have hcalls := calls_valid h0 h i
  rw [hl] at hcalls
  exact hcalls.copy hcopy

/-- One worker, thread 3, one slot, and two callers. -/
def twoAdds : SimpleState Unit (Option (Nat × Nat)) Unit Unit :=
  createThreadpool (fun _ => ⟨0, .unset, 0, 0, 0, ()⟩) [⟨0, .unset, 0, 0, 0, ()⟩] ()
    [.destroy .store, .caller (some (7, 1)), .caller (some (8, 2))]

theorem twoAdds_begun : Begun ⟨1, 1⟩ twoAdds := ⟨⟨_, _, _, [some (7, 1), some (8, 2)], rfl, rfl⟩⟩

/-- The first task is added, taken and called; while the callback runs, the second is stored in the same slot. -/
def rewriteRun : List (Action Unit) :=
  List.replicate 5 (.exec 1 () []) ++ List.replicate 7 (.exec 3 () []) ++ List.replicate 5 (.exec 2 () [])

theorem ring_refines_fifo_twoAdds :
    let s := after (step (code ⟨1, 1⟩ oneCall)) twoAdds rewriteRun
    s.locs[3]? = some (.callback ⟨0, .copy, 7, 0, 1, ()⟩ ()) ∧ s.shared.pool.tasks 0 = ⟨1, .slot 0, 8, 0, 2, ()⟩ ∧
      Fifo ⟨1, 1⟩ s.shared.pool ∧ (tasksOf 3 s.shared.pool.taken).getLast? = some ⟨0, .copy, 7, 0, 1, ()⟩ := by
  have hcall : (after (step (code ⟨1, 1⟩ oneCall)) twoAdds rewriteRun).locs[3]? =
      some (.callback ⟨0, .copy, 7, 0, 1, ()⟩ ()) := by rfl
  have hlt : (after (step (code ⟨1, 1⟩ oneCall)) twoAdds rewriteRun).shared.pool.added.length < 2 ^ 31 := by
    decide +kernel
  have h := ring_refines_fifo ⟨1, 1⟩ oneCall twoAdds _ twoAdds_begun (reach_after twoAdds rewriteRun) hlt
  exact ⟨hcall, by decide +kernel, h.1, h.2 3 _ _ hcall rfl⟩

/-! ## The positions -/

/-- The positions at which `addtask` stored, and the one at which `thrRun` takes next, are positions
of the ring. -/
structure Pool.InRange (cfg : Config) (p : Pool G) : Prop where
  push : ∀ t ∈ p.added, ∃ pos : Int, t.arg = .slot pos ∧ 0 ≤ pos ∧ pos < cfg.maxJobNum
  pop : p.jobNum ≠ 0 → 0 ≤ p.jobPop.tmod cfg.maxJobNum ∧ p.jobPop.tmod cfg.maxJobNum < cfg.maxJobNum

/-- The position at which `thrRun` takes next is that of the first task not taken. -/
def Pool.InOrder (cfg : Config) (p : Pool G) : Prop :=
  p.jobNum ≠ 0 → ∃ t, p.added[p.taken.length]? = some t ∧ t.arg = .slot (p.jobPop.tmod cfg.maxJobNum)

/-- The remainder of a wrapped counter is a position of the ring unless it is negative. -/
theorem tmod_wrap32_lt (n : Int) {cap : Nat} (hcap : 1 ≤ cap) : (wrap32 n).tmod cap < cap :=
  Int.tmod_lt_of_pos _ (by omega)

theorem tmod_nonneg_iff {n : Int} {cap : Nat} : 0 ≤ n.tmod cap ↔ 0 ≤ n ∨ (cap : Int) ∣ n := by
  constructor
  · intro h
    by_contra hn
    rw [not_or, not_le] at hn
    have hle : n.tmod cap ≤ 0 := by
      have := Int.tmod_nonneg (a := -n) cap (by omega)
      rw [Int.neg_tmod] at this
      omega
    exact hn.2 (Int.dvd_of_tmod_eq_zero (le_antisymm hle h))
  · rintro (h | h)
    · exact Int.tmod_nonneg _ h
    · rw [Int.tmod_eq_zero_of_dvd h]

/-- Of the first `n` positions none is negative exactly if the counter has not become negative, or
`INT_MIN` is a multiple of the capacity and it has gone no further, or there is only one position. -/
theorem positions_nonneg_iff {cap n : Nat} (hcap : 1 ≤ cap) : (∀ k < n, 0 ≤ (wrap32 (k : Nat)).tmod cap) ↔
    cap = 1 ∨ n ≤ 2 ^ 31 ∨ n = 2 ^ 31 + 1 ∧ cap ∣ 2 ^ 31 := by
  have hmin : wrap32 ((2 ^ 31 : Nat) : Int) = -(2 ^ 31 : Nat) := by decide
  have hnext : wrap32 ((2 ^ 31 + 1 : Nat) : Int) = -(2 ^ 31 - 1 : Nat) := by decide
  have hdvd : ∀ m : Nat, 0 < m → (0 ≤ (-(m : Int)).tmod cap ↔ cap ∣ m) := by
    intro m hm
    rw [tmod_nonneg_iff, Int.dvd_neg, Int.natCast_dvd_natCast]
    constructor
    · exact fun h => h.resolve_left (by omega)
    · exact .inr
  constructor
  · intro h
    by_contra hc
    simp only [not_or, not_le, not_and] at hc
    obtain ⟨hone, hlt, hend⟩ := hc
    have h1 := h (2 ^ 31) hlt
    rw [hmin, hdvd _ (by decide)] at h1
    by_cases hn : n = 2 ^ 31 + 1
    · exact hend hn h1
    · have h2 := h (2 ^ 31 + 1) (by omega)
      rw [hnext, hdvd _ (by decide)] at h2
      have h3 : cap ∣ 2 ^ 31 - (2 ^ 31 - 1) := Nat.dvd_sub h1 h2
      exact hone (Nat.dvd_one.1 h3)
  · rintro (rfl | hn | ⟨rfl, hd⟩) k hk
    · rw [Nat.cast_one, Int.tmod_one]
    · rw [slot_eq (by omega)]
      exact Int.natCast_nonneg _
    · rcases Nat.lt_or_ge k (2 ^ 31) with hlt | hge
      · rw [slot_eq hlt]
        exact Int.natCast_nonneg _
      · obtain rfl : k = 2 ^ 31 := by omega
        rw [hmin, hdvd _ (by decide)]
        exact hd

section Positions

variable {cfg : Config} {p : Pool G}

theorem Pool.Ring.inOrder (h : p.Ring cfg) : p.InOrder cfg := by
  intro hne
  have hlen : p.taken.length < p.added.length := by
    have h1 := h.num_eq
    have h2 := h.nonneg
    omega
  refine ⟨p.added[p.taken.length], List.getElem?_eq_getElem hlen, ?_⟩
  rw [h.pop_eq]
  exact (h.filled _ _ (List.getElem?_eq_getElem hlen)).2

theorem Pool.Ring.push_iff (h : p.Ring cfg) (hcap : 1 ≤ cfg.maxJobNum) :
    (∀ t ∈ p.added, ∃ pos : Int, t.arg = .slot pos ∧ 0 ≤ pos ∧ pos < cfg.maxJobNum) ↔
      ∀ k < p.added.length, 0 ≤ (wrap32 (k : Nat)).tmod cfg.maxJobNum := by
  constructor
  · intro hall k hk
    obtain ⟨pos, harg, h0, -⟩ := hall _ (List.getElem_mem hk)
    rw [(h.filled k _ (List.getElem?_eq_getElem hk)).2] at harg
    rw [Arg.slot.inj harg]
    exact h0
  · intro hall t ht
    obtain ⟨k, hk⟩ := List.mem_iff_getElem?.1 ht
    have hlen : k < p.added.length := (List.getElem?_eq_some_iff.1 hk).1
    exact ⟨_, (h.filled k t hk).2, hall k hlen, tmod_wrap32_lt _ hcap⟩

/-- All positions so far are positions of the ring exactly while the counter has not left its range. -/
theorem Pool.Ring.inRange_iff (h : p.Ring cfg) (hcap : 1 ≤ cfg.maxJobNum) : p.InRange cfg ↔
    cfg.maxJobNum = 1 ∨ p.added.length ≤ 2 ^ 31 ∨ p.added.length = 2 ^ 31 + 1 ∧ cfg.maxJobNum ∣ 2 ^ 31 := by
  rw [← positions_nonneg_iff hcap, ← h.push_iff hcap]
  constructor
  · exact Pool.InRange.push
  · intro hpush
    refine ⟨hpush, fun hne => ?_⟩
    obtain ⟨t, ht, harg⟩ := h.inOrder hne
    obtain ⟨pos, harg', h0, h1⟩ := hpush t (List.mem_of_getElem? ht)
    rw [harg] at harg'
    rw [Arg.slot.inj harg']
    exact ⟨h0, h1⟩

end Positions

/-- In every reachable state the pops visit the slots in the order in which they were filled; and the
positions so far are positions of the ring exactly if the ring has one slot, or at most `2 ^ 31` tasks
were added, or one more and the capacity divides `2 ^ 31`. -/
theorem positions_exact (cfg : Config) (w : World E X K R G) (s₀ s : SimpleState E K R G) (h0 : Begun cfg s₀)
    (hcap : 1 ≤ cfg.maxJobNum) (h : Reach (step (code cfg w)) s₀ s) :
    s.shared.pool.InOrder cfg ∧ (s.shared.pool.InRange cfg ↔ cfg.maxJobNum = 1 ∨ s.shared.pool.added.length ≤ 2 ^ 31 ∨
      s.shared.pool.added.length = 2 ^ 31 + 1 ∧ cfg.maxJobNum ∣ 2 ^ 31) := by
  have hring := (foundInv h0 h).shared
  exact ⟨hring.inOrder, hring.inRange_iff hcap⟩

/-! ## A caller that adds tasks for ever -/

def addsForEver : World Unit Unit Unit Unit Unit where
  caller _ := .addtask 7 1 ()
  taskRun _ := ()
  callback _ _ := .ret
  record _ _ := ()

/-- `destroy_threadpool` is thread 0, the caller thread 1, the worker thread 2; nothing is queued. -/
def idle (p : Pool Unit) (task : PoolTask Unit) : SimpleState Unit Unit Unit Unit where
  shared := ⟨p, ()⟩
  owner := fun _ => none
  threads := [.run (.destroy .store), .run (.caller ()), .run (.worker task .lock)]

/-- `addtask`, called by thread 1. -/
theorem runActions_add {p : Pool Unit} (hnum : p.jobNum = 0) (task : PoolTask Unit) :
    runActions (step (code ⟨1, 100⟩ addsForEver)) (idle p task) (List.replicate 5 (.exec 1 () [])) =
      some (idle (p.put ⟨1, 100⟩ 7 1 ()) task) := by
  -- with the count of the tasks known the five steps compute
  cases p
  cases hnum
  rfl

/-- Thread 2 holds the lock behind its wait loop. -/
def serving (p : Pool Unit) (task : PoolTask Unit) (pc : WorkerPc) : SimpleState Unit Unit Unit Unit where
  shared := ⟨p, ()⟩
  owner := fun _ => some 2
  threads := [.run (.destroy .store), .run (.caller ()), .run (.worker task pc)]

/-- `thrRun`, thread 2, up to the task taken. -/
theorem runActions_take {p : Pool Unit} (hnum : p.jobNum = 1) (task : PoolTask Unit) :
    runActions (step (code ⟨1, 100⟩ addsForEver)) (idle p task) (List.replicate 3 (.exec 2 () [])) =
      some (serving (p.take ⟨1, 100⟩ 2) (p.front ⟨1, 100⟩) .signal) := by
  cases p
  cases hnum
  rfl

/-- From there up to the call of the task, and back to the head of its loop. -/
theorem runActions_call {p : Pool Unit} (hs : p.shutdown = false) (task : PoolTask Unit) :
    runActions (step (code ⟨1, 100⟩ addsForEver)) (serving p task .signal) (List.replicate 5 (.exec 2 () [])) =
      some (idle { p with called := p.called ++ [(2, task)] } task) := by
  cases p
  cases hs
  rfl

/-- Any number of tasks can be added, each executed before the next. -/
theorem reach_added {p₀ : Pool Unit} (hnum₀ : p₀.jobNum = 0) (hs₀ : p₀.shutdown = false) (hadded₀ : p₀.added = [])
    (task₀ : PoolTask Unit) (n : Nat) :
    ∃ p task, Reach (step (code ⟨1, 100⟩ addsForEver)) (idle p₀ task₀) (idle p task) ∧ p.jobNum = 0 ∧
      p.shutdown = false ∧ p.added.length = n := by
  induction n with
  | zero => exact ⟨p₀, task₀, Reach.refl _, hnum₀, hs₀, by rw [hadded₀]; rfl⟩
  | succ n ih =>
    obtain ⟨p, task, hr, hnum, hs, hlen⟩ := ih
    have hput : (p.put ⟨1, 100⟩ 7 1 ()).jobNum = 1 := by
      show p.jobNum + 1 = 1
      omega
    have htaken : ((p.put ⟨1, 100⟩ 7 1 ()).take ⟨1, 100⟩ 2).shutdown = false := hs
    have htake :=
      (reach_of_runActions _ (runActions_take hput task)).trans (reach_of_runActions _ (runActions_call htaken _))
    refine ⟨_, _, (hr.trans (reach_of_runActions _ (runActions_add hnum task))).trans htake, ?_, hs, ?_⟩
    · show p.jobNum + 1 - 1 = 0
      omega
    · show (p.added ++ [_]).length = n + 1
      rw [List.length_append, List.length_singleton, hlen]

/-- A pool of one worker and 100 slots, with the caller that adds tasks for ever. -/
def endless : SimpleState Unit Unit Unit Unit :=
  createThreadpool (fun _ => ⟨0, .unset, 0, 0, 0, ()⟩) [⟨0, .unset, 0, 0, 0, ()⟩] () [.destroy .store, .caller ()]

theorem endless_begun : Begun ⟨1, 100⟩ endless := ⟨⟨_, _, _, [()], rfl, rfl⟩⟩

/-- After `2 ^ 31 + 1` additions one task has been stored at position `-48`. -/
theorem negative_position : ¬ ∀ (cfg : Config) (s₀ s : SimpleState Unit Unit Unit Unit), Begun cfg s₀ →
    1 ≤ cfg.maxJobNum → Reach (step (code cfg addsForEver)) s₀ s → s.shared.pool.InRange cfg := by
  intro h
  obtain ⟨p, task, hr, -, -, hlen⟩ :=
    @reach_added endless.shared.pool rfl rfl rfl ⟨0, .unset, 0, 0, 0, ()⟩ (2 ^ 31 + 1)
  have hrange := h ⟨1, 100⟩ endless _ endless_begun (by decide) hr
  have hring := (foundInv endless_begun hr).shared
  have := (hring.inRange_iff (by decide)).1 hrange
  simp only [idle, hlen] at this
  omega

theorem positions_exact_endless :
    let s := after (step (code ⟨1, 100⟩ addsForEver)) endless (List.replicate 5 (.exec 1 () []))
    s.shared.pool.added.map (·.arg) = [.slot 0] ∧ s.shared.pool.InOrder ⟨1, 100⟩ ∧
      (s.shared.pool.InRange ⟨1, 100⟩ ↔ 100 = 1 ∨ s.shared.pool.added.length ≤ 2 ^ 31 ∨
        s.shared.pool.added.length = 2 ^ 31 + 1 ∧ 100 ∣ 2 ^ 31) :=
  ⟨by decide +kernel, positions_exact ⟨1, 100⟩ addsForEver endless _ endless_begun (by decide) (reach_after endless _)⟩

end LinuxProgram.Simple
