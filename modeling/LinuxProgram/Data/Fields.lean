/-
Messages that are read field by field. Every turn of the reader takes a field off the front of the stream
onto the message, and what a piece of a stream does to a message is put together from what its fields do.
-/
import LinuxProgram.Machine.Loop
import Mathlib.Tactic

namespace LinuxProgram.Data

open LinuxProgram.Machine

variable {β M α : Type}

/-! ## Readers -/

/-- What is taken off the front of a stream, and what is left of it. -/
abbrev Reader (β α : Type) := List β → Option (α × List β)

namespace Reader

/-- The reader takes `w` for `a`, whatever follows. -/
def Takes (r : Reader β α) (w : List β) (a : α) : Prop := ∀ rest, r (w ++ rest) = some (a, rest)

/-- The reader fails at `w`, whatever follows. -/
def Refuses (r : Reader β α) (w : List β) : Prop := ∀ rest, r (w ++ rest) = none

/-- The reader does not go back. -/
def Forward (r : Reader β α) : Prop := ∀ s a t, r s = some (a, t) → t.length ≤ s.length

theorem Forward.map {r : Reader β α} (h : r.Forward) (f : α → M) :
    Reader.Forward fun s => (r s).map fun x => (f x.1, x.2) := by
  intro s a t heq
  obtain ⟨x, hx, hxe⟩ := Option.map_eq_some_iff.1 heq
  cases hxe
  exact h _ _ _ hx

/-- What was read off the front is read the same way in front of anything else. -/
def Stable (r : Reader β α) : Prop := ∀ s a t, r s = some (a, t) → ∃ w, s = w ++ t ∧ r.Takes w a

theorem Stable.forward {r : Reader β α} (h : r.Stable) : r.Forward := by
  intro s a t heq
  obtain ⟨w, rfl, -⟩ := h s a t heq
  rw [List.length_append]
  exact Nat.le_add_left _ _

theorem Stable.bind {r : Reader β α} {f : α → Reader β M} (h : r.Stable) (hf : ∀ a, (f a).Stable) :
    Reader.Stable fun s => (r s).bind fun x => f x.1 x.2 := by
  intro s a t heq
  obtain ⟨⟨b, u⟩, hb, ha⟩ := Option.bind_eq_some_iff.1 heq
  obtain ⟨w, rfl, hw⟩ := h s b u hb
  obtain ⟨v, rfl, hv⟩ := hf b u a t ha
  refine ⟨w ++ v, (List.append_assoc w v t).symm, fun rest => ?_⟩
  dsimp only
  rw [List.append_assoc, hw, Option.bind_some]
  exact hv rest

theorem Stable.map {r : Reader β α} (h : r.Stable) (f : α → M) :
    Reader.Stable fun s => (r s).map fun x => (f x.1, x.2) := by
  intro s a t heq
  obtain ⟨⟨b, u⟩, hb, ha⟩ := Option.map_eq_some_iff.1 heq
  cases ha
  obtain ⟨w, rfl, hw⟩ := h s b u hb
  refine ⟨w, rfl, fun rest => ?_⟩
  dsimp only
  rw [hw, Option.map_some]

/-- The next `n` elements. -/
def block (n : Nat) : Reader β (List β) := fun s => if n ≤ s.length then some (s.take n, s.drop n) else none

theorem block_takes {n : Nat} {w : List β} (h : w.length = n) : (block n).Takes w w := by
  intro rest
  rw [block, if_pos (by rw [List.length_append]; omega), List.take_left' h, List.drop_left' h]

theorem block_stable (n : Nat) : Reader.Stable (block n : Reader β (List β)) := by
  intro s a t heq
  unfold block at heq
  split at heq
  · rename_i hle
    cases heq
    exact ⟨s.take n, (List.take_append_drop n s).symm, block_takes (List.length_take_of_le hle)⟩
  · cases heq

/-- What the reader takes off the front, itself. -/
def raw (r : Reader β α) : Reader β (List β) := fun s => (r s).map fun x => (s.take (s.length - x.2.length), x.2)

theorem Takes.raw {r : Reader β α} {w : List β} {a : α} (h : r.Takes w a) : r.raw.Takes w w := by
  intro rest
  rw [Reader.raw, h rest, Option.map_some, List.length_append, Nat.add_sub_cancel, List.take_left]

theorem Stable.raw {r : Reader β α} (h : r.Stable) {s w t : List β} (heq : r.raw s = some (w, t)) :
    s = w ++ t ∧ r.raw.Takes w w := by
  obtain ⟨⟨a, u⟩, ha, hw⟩ := Option.map_eq_some_iff.1 heq
  obtain ⟨v, rfl, hv⟩ := h s a u ha
  simp only [List.length_append, Nat.add_sub_cancel, List.take_left, Prod.mk.injEq] at hw
  obtain ⟨rfl, rfl⟩ := hw
  exact ⟨rfl, hv.raw⟩

end Reader

/-- How the values of a type are written, what length that is, and how they are read. -/
structure Codec (β α : Type) where
  write : α → List β
  size : α → Nat
  read : Reader β α

/-- What is written has the length it is said to have, and is read back. -/
structure Codec.LawfulOn (c : Codec β α) (ok : α → Prop) : Prop where
  size : ∀ a, ok a → c.size a = (c.write a).length
  takes : ∀ a, ok a → c.read.Takes (c.write a) a
  forward : c.read.Forward

/-- Elements put one after the other at the end of a field. -/
theorem foldl_concat (get : M → List α) (set : M → List α → M) (hget : ∀ m l, get (set m l) = l)
    (hset : ∀ m l l', set (set m l) l' = set m l') (hsame : ∀ m, set m (get m) = m) (xs : List α) (m : M) :
    xs.foldl (fun m x => set m (get m ++ [x])) m = set m (get m ++ xs) := by
  induction xs generalizing m with
  | nil => simp [hsame]
  | cons x xs ih => simp [ih, hget, hset]

/-! ## The loop -/

/-- A turn on the message and the stream: on to the next field, or out of the loop with the message and the
rest of the stream, or with a failure. -/
abbrev FieldTurn (β M : Type) := M × List β → Turn (M × List β) (Option (M × List β))

/-- Every field takes something off the stream. -/
def FieldTurn.Shortens (turn : FieldTurn β M) : Prop :=
  ∀ {m : M} {s : List β} {m' : M} {s' : List β}, turn (m, s) = .next (m', s') → s'.length < s.length

/-- Fields read onto `m` up to the end of the message. -/
def readFields (turn : FieldTurn β M) (m : M) : Reader β M := fun s =>
  (loop (fun x => some (turn x)) (s.length + 1) (m, s)).join

variable {turn : FieldTurn β M} {m m' : M} {s s' w v : List β}

/-- The loop comes to an end, and any fuel beyond the length of the stream takes it there. -/
theorem loop_readFields (hshort : turn.Shortens) {fuel : Nat} (hfuel : s.length < fuel) :
    loop (fun x => some (turn x)) fuel (m, s) = some (readFields turn m s) := by
  have hproves : Proves (fun x => some (turn x)) (fun _ => True) (fun x => x.2.length) (fun _ => True) := by
    rintro ⟨n, t⟩ -
    cases h : turn (n, t) with
    | next x => exact .inl ⟨x, congrArg some h, trivial, hshort h⟩
    | done r => exact .inr ⟨r, congrArg some h, trivial⟩
  obtain ⟨r, hr, -⟩ := hproves.loop (s := (m, s)) trivial (Nat.lt_succ_self s.length)
  have hread : readFields turn m s = r := by
    rw [readFields, hr]
    rfl
  rw [hread]
  exact loop_mono hr (Nat.succ_le_of_lt hfuel)

theorem readFields_next (hshort : turn.Shortens) (h : turn (m, s) = .next (m', s')) :
    readFields turn m s = readFields turn m' s' := by
  have hlt := hshort h
  have hloop := loop_readFields (m := m) hshort (Nat.lt_succ_self s.length)
  rw [loop, h] at hloop
  dsimp only at hloop
  rw [loop_readFields hshort hlt] at hloop
  exact (Option.some.inj hloop).symm

theorem readFields_done {r : Option (M × List β)} (h : turn (m, s) = .done r) : readFields turn m s = r := by
  rw [readFields, loop, h]
  rfl

/-- What every turn keeps, the loop keeps. -/
theorem readFields_invariant (hshort : turn.Shortens) {I : M → Prop}
    (hnext : ∀ {m s m' s'}, I m → turn (m, s) = .next (m', s') → I m')
    (hdone : ∀ {m s m' s'}, I m → turn (m, s) = .done (some (m', s')) → I m')
    (h : I m) (hread : readFields turn m s = some (m', s')) : I m' := by
  induction hn : s.length using Nat.strong_induction_on generalizing m s with
  | _ n ih =>
    cases ht : turn (m, s) with
    | next x =>
      obtain ⟨m₁, s₁⟩ := x
      have hlt := hshort ht
      rw [readFields_next hshort ht] at hread
      exact ih s₁.length (by omega) (hnext h ht) hread rfl
    | done r =>
      rw [readFields_done ht] at hread
      rw [hread] at ht
      exact hdone h ht

/-! ## Pieces of a stream -/

/-- Reading `w` comes to `f`, whatever follows. -/
def Decodes (turn : FieldTurn β M) (w : List β) (f : M → Option M) : Prop :=
  ∀ m rest, readFields turn m (w ++ rest) = (f m).bind fun m' => readFields turn m' rest

namespace Decodes

variable {f g : M → Option M}

theorem nil : Decodes turn [] some := fun _ _ => rfl

theorem append (hf : Decodes turn w f) (hg : Decodes turn v g) :
    Decodes turn (w ++ v) fun m => (f m).bind g := by
  intro m rest
  rw [List.append_assoc, hf, Option.bind_assoc]
  congr 1
  funext m'
  exact hg m' rest

theorem congr (hf : Decodes turn w f) (h : ∀ m, f m = g m) : Decodes turn w g := by
  rw [← funext h]
  exact hf

/-- A piece that is left out when it would not change anything. -/
theorem ite {c : Prop} [Decidable c] (hf : c → Decodes turn w f) :
    Decodes turn (if c then w else []) fun m => if c then f m else some m := by
  by_cases hc : c
  · simpa [hc] using hf hc
  · simpa [hc] using nil

/-- One field: the turn at it goes on, or fails. -/
theorem field (hshort : turn.Shortens)
    (h : ∀ m rest, turn (m, w ++ rest) = (f m).elim (.done none) fun m' => .next (m', rest)) : Decodes turn w f := by
  intro m rest
  have ht := h m rest
  cases hf : f m with
  | none =>
    rw [hf] at ht
    exact readFields_done ht
  | some m' =>
    rw [hf] at ht
    exact readFields_next hshort ht

/-- The whole stream is read. -/
theorem read (hend : ∀ m, turn (m, []) = .done (some (m, []))) (h : Decodes turn w f) :
    readFields turn m w = (f m).map fun m' => (m', []) := by
  have hw := h m []
  rw [List.append_nil] at hw
  rw [hw, Option.map_eq_bind]
  congr 1
  funext m'
  exact readFields_done (hend m')

end Decodes

/-- Reading `w` fails, or comes to `f` when `p` holds of what is written. -/
def DecodesIf (turn : FieldTurn β M) (p : Prop) [Decidable p] (w : List β) (f : M → M) : Prop :=
  Decodes turn w fun m => if p then some (f m) else none

namespace DecodesIf

variable {p q c : Prop} [Decidable p] [Decidable q] [Decidable c] {f g : M → M}

theorem always (hf : Decodes turn w fun m => some (f m)) : DecodesIf turn True w f :=
  hf.congr fun _ => (if_pos trivial).symm

theorem append (hf : DecodesIf turn p w f) (hg : DecodesIf turn q v g) :
    DecodesIf turn (p ∧ q) (w ++ v) fun m => g (f m) := by
  apply (Decodes.append hf hg).congr
  intro m
  by_cases hp : p <;> by_cases hq : q <;> simp [hp, hq]

theorem congr (hf : DecodesIf turn p w f) (hpq : p ↔ q) (h : ∀ m, f m = g m) : DecodesIf turn q w g := by
  apply Decodes.congr hf
  intro m
  simp only [hpq, h m]

/-- One piece for each element of a list. -/
theorem flatMap {l : List α} {p : α → Prop} [DecidablePred p] {w : α → List β} {f : α → M → M}
    (h : ∀ a ∈ l, DecodesIf turn (p a) (w a) (f a)) :
    DecodesIf turn (∀ a ∈ l, p a) (l.flatMap w) fun m => l.foldl (fun m a => f a m) m := by
  induction l with
  | nil => exact Decodes.nil
  | cons a l ih =>
    have hrest := ih fun b hb => h b (List.mem_cons_of_mem a hb)
    exact ((h a List.mem_cons_self).append hrest).congr List.forall_mem_cons.symm fun m => rfl

/-- A piece that is left out when it would not change anything. -/
theorem ite (hf : DecodesIf turn p w f) :
    DecodesIf turn (c → p) (if c then w else []) fun m => if c then f m else m := by
  apply (Decodes.ite fun _ : c => hf).congr
  intro m
  by_cases hc : c <;> by_cases hp : p <;> simp [hc, hp]

theorem read (hend : ∀ m, turn (m, []) = .done (some (m, []))) (h : DecodesIf turn p w f) :
    readFields turn m w = if p then some (f m, []) else none := by
  rw [Decodes.read hend h]
  split <;> rfl

end DecodesIf

end LinuxProgram.Data
