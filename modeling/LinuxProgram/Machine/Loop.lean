/-
Loops whose turns go on or return, run for as many turns as there is fuel, and the rule that proves them:
an invariant, and a number that every turn makes smaller.
-/
import LinuxProgram.Machine.Reach

namespace LinuxProgram.Machine

section Loop

variable {σ ρ : Type}

/-- What a turn comes to. -/
inductive Turn (σ ρ : Type) where
  | next (s : σ)
  | done (r : ρ)

def Turn.next? : Turn σ ρ → Option σ
  | .next s => some s
  | .done _ => none

/-- The loop; `none` when a turn does not come to an end, or when the fuel has run out. -/
def loop (turn : σ → Option (Turn σ ρ)) : Nat → σ → Option ρ
  | 0, _ => none
  | fuel + 1, s =>
    match turn s with
    | none => none
    | some (.next s') => loop turn fuel s'
    | some (.done r) => some r

/-- From one turn to the next. -/
def turnStep (turn : σ → Option (Turn σ ρ)) (s : σ) (_ : Unit) : Option σ := (turn s).bind Turn.next?

/-- `s` stands at the beginning of a turn of the loop that was entered with `s₀`. -/
def AtTurn (turn : σ → Option (Turn σ ρ)) (s₀ s : σ) : Prop := Reach (turnStep turn) s₀ s

/-- From the states of `I` every turn goes on in `I`, with less to do, or returns a result of `P`. -/
def Proves (turn : σ → Option (Turn σ ρ)) (I : σ → Prop) (left : σ → Nat) (P : ρ → Prop) : Prop :=
  ∀ s, I s → (∃ s', turn s = some (.next s') ∧ I s' ∧ left s' < left s) ∨ ∃ r, turn s = some (.done r) ∧ P r

variable {turn : σ → Option (Turn σ ρ)} {I : σ → Prop} {left : σ → Nat} {P : ρ → Prop} {s : σ}

theorem Proves.loop (hturn : Proves turn I left P) (h : I s) {fuel : Nat} (hfuel : left s < fuel) :
    ∃ r, loop turn fuel s = some r ∧ P r := by
  induction fuel generalizing s with
  | zero => exact absurd hfuel (Nat.not_lt_zero _)
  | succ fuel ih =>
    rcases hturn s h with ⟨s', hs, h', hlt⟩ | ⟨r, hs, hr⟩
    · obtain ⟨r, hloop, hr⟩ := ih h' (by omega)
      refine ⟨r, ?_, hr⟩
      rw [Machine.loop, hs]
      exact hloop
    · refine ⟨r, ?_, hr⟩
      rw [Machine.loop, hs]

/-- More fuel changes nothing. -/
theorem loop_mono {fuel fuel' : Nat} {r : ρ} (h : loop turn fuel s = some r) (hle : fuel ≤ fuel') :
    loop turn fuel' s = some r := by
  induction fuel generalizing s fuel' with
  | zero => cases h
  | succ fuel ih =>
    obtain ⟨more, rfl⟩ : ∃ more, fuel' = more + 1 := ⟨fuel' - 1, by omega⟩
    rw [loop] at h ⊢
    split at h
    · cases h
    · exact ih h (by omega)
    · exact h

/-- Every turn begins in `I`. -/
theorem Proves.at {s₀ : σ} (hturn : Proves turn I left P) (h0 : I s₀) (h : AtTurn turn s₀ s) : I s := by
  refine Reach.invariant h h0 fun u a u' hu hs => ?_
  obtain ⟨t, ht, hn⟩ := Option.bind_eq_some_iff.1 hs
  rcases hturn u hu with ⟨v, hv, hv', -⟩ | ⟨r, hr, -⟩
  · rw [hv] at ht
    cases ht
    cases hn
    exact hv'
  · rw [hr] at ht
    cases ht
    cases hn

end Loop

end LinuxProgram.Machine
