/-
`live_thr_num` counts the workers that have not retired. Before shutdown it is exactly their
number and never below `min_thr_num`; after shutdown workers leave without counting themselves
out, so it is an upper bound.
-/
import LinuxProgram.Threadpool.Books

namespace LinuxProgram.Threadpool

open LinuxProgram.Machine

variable {F A : Type}

/-- A worker that has not retired weighs one. -/
def Loc.weight (l : Loc F A) : Int := if l.serving then 1 else 0

theorem Loc.weight_nonneg (l : Loc F A) : 0 ≤ l.weight := by
  unfold Loc.weight; split <;> omega

theorem weight_serving (tid : Nat) {pc : WorkerPc F A} (h : pc.retired = false) : Loc.weight (.worker tid pc) = 1 := by
  simp [Loc.weight, Loc.serving, h]

theorem weight_retired (tid : Nat) {pc : WorkerPc F A} (h : pc.retired = true) : Loc.weight (.worker tid pc) = 0 := by
  simp [Loc.weight, Loc.serving, h]

/-- `live_thr_num` against the number `n` of workers that have not retired. -/
structure Account (cfg : Config) (p : Pool F A) (n : Int) : Prop where
  min_le : cfg.minThrNum ≤ p.liveThrNum
  le : n ≤ p.liveThrNum
  exact : p.shutdown = false → n = p.liveThrNum

/-- A statement that leaves `live_thr_num` and `shutdown` alone. -/
theorem Account.same {cfg : Config} {p p' : Pool F A} {n : Int} (h : Account cfg p n)
    (h1 : p'.liveThrNum = p.liveThrNum) (h2 : p'.shutdown = p.shutdown) : Account cfg p' n :=
  ⟨by rw [h1]; exact h.min_le, by rw [h1]; exact h.le, by rw [h1, h2]; exact h.exact⟩

/-- The statements of the pool keep the account. -/
theorem accounting (cfg : Config) : Tallying (code (F := F) (A := A) cfg) Loc.weight Always (Account cfg) := by
  refine tallying_of_books (fun hl => by rw [Loc.weight, Loc.weight, hl.serving]) ?_
  intro l p p' l' new x n hbooks _ hI
  cases hbooks with
  | keep hp hl hnew =>
    rw [tally_calls (fun _ => rfl) hnew, Loc.weight, hl.serving, add_zero]
    exact hI.same hp.live hp.shutdown
  | stay hwait hp | exit hp | begin hp | finish hp | request hp =>
    rw [tally_nil, add_zero]
    exact hI.same hp.live hp.shutdown
  | retire hwait hmin hp =>
    rw [tally_nil, add_zero]
    rw [weight_serving _ rfl] at hI
    rw [weight_retired _ rfl]
    have hlive : p'.liveThrNum = p.liveThrNum - 1 := hp.live
    refine ⟨by omega, ?_, fun hs => ?_⟩
    · have := hI.le
      omega
    · have := hI.exact (hp.shutdown.symm.trans hs)
      omega
  | leave hshut hp =>
    -- after shutdown `live_thr_num` is no longer decremented
    rw [tally_nil, add_zero]
    rw [weight_serving _ rfl] at hI
    rw [weight_retired _ rfl]
    refine ⟨hp.live ▸ hI.min_le, ?_, fun hs => ?_⟩
    · have := hI.le
      rw [hp.live]
      omega
    · rw [hp.shutdown, hshut] at hs
      cases hs
  | @create i tid add live busy hi hlive hfree htid halive hp =>
    subst hp
    have hw : ∀ pc : AdjustPc, Loc.weight (.adjust pc : Loc F A) = 0 := fun _ => rfl
    rw [hw] at hI
    rw [hw, tally_cons, tally_nil, weight_serving tid rfl]
    have hmin := hI.min_le
    have hle := hI.le
    refine ⟨?_, ?_, fun hs => ?_⟩
    · show (cfg.minThrNum : Int) ≤ p.liveThrNum + 1
      omega
    · show n + 0 + (1 + 0) ≤ p.liveThrNum + 1
      omega
    · have := hI.exact hs
      show n + 0 + (1 + 0) = p.liveThrNum + 1
      omega
  | close hp =>
    rw [tally_nil, add_zero]
    refine ⟨hp.live ▸ hI.min_le, hp.live ▸ hI.le, fun hs => ?_⟩
    rw [hp.shutdown] at hs
    cases hs

/-- The account in every reachable state. -/
theorem account {cfg : Config} {s₀ s : PoolState F A} (h0 : Created cfg s₀) (h : Reach (step (code cfg)) s₀ s) :
    Account cfg s.shared (tally Loc.weight s.locs) := by
  refine (accounting cfg).always ?_ h
  obtain ⟨tids, others, garbage, hlen, -, -, rfl⟩ := h0.start
  have hw : ∀ ts : List Nat,
      tally (Loc.weight (F := F) (A := A)) (ts.map fun tid => .worker tid .lock) = ts.length := by
    intro ts
    induction ts with
    | nil => rfl
    | cons t ts ih =>
      rw [List.map_cons, tally_cons, ih]
      simp [Loc.weight, Loc.serving, WorkerPc.retired]; omega
  have : tally Loc.weight (threadpoolCreate cfg tids others garbage).locs = cfg.minThrNum := by
    rw [← hlen, ← hw]
    simp [State.locs, threadpoolCreate, Thread.loc, Loc.weight, Loc.serving, Function.comp_def]
  rw [this]
  exact ⟨Int.le_refl _, Int.le_refl _, fun _ => rfl⟩

/-- A worker that has not retired is counted. -/
theorem one_le_live {cfg : Config} {s₀ s : PoolState F A} (h0 : Created cfg s₀) (h : Reach (step (code cfg)) s₀ s)
    {l : Loc F A} (hl : l ∈ s.locs) (hs : l.serving = true) : 1 ≤ s.shared.liveThrNum := by
  have h1 := le_tally Loc.weight_nonneg hl
  have h2 := (account h0 h).le
  have h3 : l.weight = 1 := by simp [Loc.weight, hs]
  omega

/-- Before shutdown some worker has not retired. -/
theorem exists_serving {cfg : Config} (hmin : 1 ≤ cfg.minThrNum) {s₀ s : PoolState F A} (h0 : Created cfg s₀)
    (h : Reach (step (code cfg)) s₀ s) (hs : s.shared.shutdown = false) : ∃ l ∈ s.locs, l.serving = true := by
  have h1 := (account h0 h).exact hs
  have h2 := (account h0 h).min_le
  obtain ⟨l, hl, hw⟩ := exists_of_tally_pos s.locs (w := Loc.weight) (by omega)
  refine ⟨l, hl, ?_⟩
  unfold Loc.weight at hw
  split at hw
  · assumption
  · omega

end LinuxProgram.Threadpool
