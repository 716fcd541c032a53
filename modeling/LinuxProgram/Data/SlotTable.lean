/-
A table of slots: each slot is blank or holds a record, and a record is found by its key. Writing
replaces the record with the same key, or else takes the first blank slot. Such a table is a map with
room for as many keys as it has slots.
-/
import Mathlib.Data.Finset.Card
import Mathlib.Data.List.Basic
import Mathlib.Tactic

namespace LinuxProgram.Data

variable {K R : Type} [DecidableEq K] {n : Nat}

/-! ## Maps with room for a number of keys -/

structure BoundedMap (K R : Type) (n : Nat) where
  lookup : K → Option R
  domain : Finset K
  mem_domain : ∀ k, k ∈ domain ↔ lookup k ≠ none
  card_le : domain.card ≤ n

namespace BoundedMap

def empty (K R : Type) (n : Nat) : BoundedMap K R n where
  lookup _ := none
  domain := ∅
  mem_domain := by simp
  card_le := Nat.zero_le n

/-- There is room for the key. -/
def Accepts (m : BoundedMap K R n) (k : K) : Prop := k ∈ m.domain ∨ m.domain.card < n

instance (m : BoundedMap K R n) (k : K) : Decidable (m.Accepts k) := inferInstanceAs (Decidable (_ ∨ _))

def insert (m : BoundedMap K R n) (k : K) (r : R) (h : m.Accepts k) : BoundedMap K R n where
  lookup := Function.update m.lookup k (some r)
  domain := Insert.insert k m.domain
  mem_domain := by
    intro k'
    rw [Finset.mem_insert, Function.update_apply]
    split
    · simp [*]
    · rename_i hne
      rw [or_iff_right hne, m.mem_domain]
  card_le := by
    rcases h with h | h
    · rw [Finset.insert_eq_self.2 h]
      exact m.card_le
    · exact (Finset.card_insert_le k m.domain).trans h

/-- A key for which there is no room is not stored. -/
def write (m : BoundedMap K R n) (k : K) (r : R) : BoundedMap K R n := if h : m.Accepts k then m.insert k r h else m

theorem lookup_insert (m : BoundedMap K R n) (k : K) (r : R) (h : m.Accepts k) (k' : K) :
    (m.insert k r h).lookup k' = if k' = k then some r else m.lookup k' := Function.update_apply ..

theorem lookup_write_of_ne (m : BoundedMap K R n) {k k' : K} (hne : k' ≠ k) (r : R) :
    (m.write k r).lookup k' = m.lookup k' := by
  unfold write
  split
  · rw [lookup_insert, if_neg hne]
  · rfl

end BoundedMap

/-! ## Tables -/

section SlotTable

variable [DecidableEq R] (key : R → K) (blank : R)

/-- Write a record over the one with its key, or else into the first blank slot. -/
def putSlot (r : R) (slots : List R) : Option (List R) :=
  match slots.findIdx? fun x => key x = key r with
  | some i => some (slots.set i r)
  | none => (slots.findIdx? fun x => x = blank).map fun i => slots.set i r

/-- The record with the key, or the blank record. -/
def getSlot (k : K) (slots : List R) : R := (slots.find? fun x => key x = k).getD blank

/-- The table holds what the map holds, each key once. -/
structure Represents (slots : List R) (m : BoundedMap K R n) : Prop where
  room : slots.length = n
  /-- Only a blank slot has the key of a blank slot. -/
  keyed : ∀ r ∈ slots, key r = key blank → r = blank
  once : ∀ {i j : Nat} {r r' : R}, slots[i]? = some r → slots[j]? = some r' → key r = key r' → r ≠ blank → i = j
  holds : ∀ k r, m.lookup k = some r ↔ r ∈ slots ∧ r ≠ blank ∧ key r = k

variable {key blank} {slots slots' : List R} {m : BoundedMap K R n} {r : R}

omit [DecidableEq K] [DecidableEq R] in
theorem represents_empty (n : Nat) : Represents key blank (List.replicate n blank) (BoundedMap.empty K R n) where
  room := List.length_replicate
  keyed r hr _ := List.eq_of_mem_replicate hr
  once hi _ _ hne := absurd (List.eq_of_mem_replicate (List.mem_of_getElem? hi)) hne
  holds k r := by
    refine iff_of_false (by simp [BoundedMap.empty]) ?_
    rintro ⟨hr, hne, -⟩
    exact hne (List.eq_of_mem_replicate hr)

/-- Reading the table is looking up in the map. -/
theorem Represents.get_eq (h : Represents key blank slots m) (k : K) :
    getSlot key blank k slots = (m.lookup k).getD blank := by
  unfold getSlot
  cases hfind : slots.find? fun x => key x = k with
  | none =>
    rw [List.find?_eq_none] at hfind
    cases hk : m.lookup k with
    | none => rfl
    | some r =>
      obtain ⟨hr, -, hkey⟩ := (h.holds k r).1 hk
      exact absurd (decide_eq_true hkey) (hfind r hr)
  | some r =>
    have hr := List.mem_of_find?_eq_some hfind
    have hkey : key r = k := of_decide_eq_true (List.find?_some hfind :)
    by_cases hb : r = blank
    · subst hb
      cases hk : m.lookup k with
      | none => rfl
      | some r' =>
        obtain ⟨hr', hne, hkey'⟩ := (h.holds k r').1 hk
        exact absurd (h.keyed r' hr' (hkey'.trans hkey.symm)) hne
    · rw [(h.holds k r).2 ⟨hr, hb, hkey⟩]

/-- There are as many keys as slots that are not blank. -/
theorem Represents.card_domain (h : Represents key blank slots m) :
    m.domain.card = (slots.filter fun x => x ≠ blank).length := by
  have hdomain : m.domain = ((slots.filter fun x => x ≠ blank).map key).toFinset := by
    ext k
    rw [m.mem_domain, Option.ne_none_iff_exists', List.mem_toFinset, List.mem_map]
    refine exists_congr fun r => ?_
    rw [h.holds, List.mem_filter, decide_eq_true_eq, and_assoc]
  have hnodup : ((slots.filter fun x => x ≠ blank).map key).Nodup := by
    rw [List.Nodup, List.pairwise_map, List.pairwise_filter, List.pairwise_iff_getElem]
    intro i j hi hj hij hri hrj he
    rw [decide_eq_true_eq] at hri
    exact absurd (h.once (List.getElem?_eq_getElem hi) (List.getElem?_eq_getElem hj) he hri) (by omega)
  rw [hdomain, List.toFinset_card_of_nodup hnodup, List.length_map]

/-- A blank slot is room for another key. -/
theorem Represents.blank_iff (h : Represents key blank slots m) : blank ∈ slots ↔ m.domain.card < n := by
  rw [h.card_domain, ← h.room, List.length_filter_lt_length_iff_exists]
  simp

omit [DecidableEq R] in
/-- Writing a record into a slot that is blank or has its key. -/
theorem Represents.set (h : Represents key blank slots m) {i : Nat} {r₀ : R} (hi : slots[i]? = some r₀)
    (hfit : r₀ = blank ∨ key r₀ = key r) (honly : ∀ {j x}, slots[j]? = some x → key x = key r → j = i)
    (hr : key r ≠ key blank) (ha : m.Accepts (key r)) :
    Represents key blank (slots.set i r) (m.insert (key r) r ha) := by
  have hrb : r ≠ blank := fun hb => hr (congrArg key hb)
  have hself : (slots.set i r)[i]? = some r := List.getElem?_set_self (List.getElem?_eq_some_iff.1 hi).1
  have hat : ∀ {j x}, (slots.set i r)[j]? = some x → j = i ∧ x = r ∨ j ≠ i ∧ slots[j]? = some x := by
    intro j x hj
    by_cases hji : j = i
    · subst hji
      rw [hself] at hj
      exact .inl ⟨rfl, (Option.some.inj hj).symm⟩
    · rw [List.getElem?_set_ne (Ne.symm hji)] at hj
      exact .inr ⟨hji, hj⟩
  refine ⟨by rw [List.length_set, h.room], fun x hx hk => ?_, fun {j j' x x'} hj hj' hk hxb => ?_, fun k x => ?_⟩
  · obtain ⟨j, hj⟩ := List.mem_iff_getElem?.1 hx
    rcases hat hj with ⟨-, rfl⟩ | ⟨-, hj⟩
    · exact absurd hk hr
    · exact h.keyed x (List.mem_of_getElem? hj) hk
  · rcases hat hj with ⟨rfl, rfl⟩ | ⟨hne, hold⟩ <;> rcases hat hj' with ⟨rfl, rfl⟩ | ⟨hne', hold'⟩
    · rfl
    · exact absurd (honly hold' hk.symm) hne'
    · exact absurd (honly hold hk) hne
    · exact h.once hold hold' hk hxb
  · show Function.update m.lookup (key r) (some r) k = some x ↔ _
    rw [Function.update_apply]
    constructor
    · split
      · rename_i he
        rintro hx
        cases hx
        exact ⟨List.mem_of_getElem? hself, hrb, he.symm⟩
      · rename_i hne
        intro hx
        obtain ⟨hmem, hxb, hkey⟩ := (h.holds k x).1 hx
        obtain ⟨j, hj⟩ := List.mem_iff_getElem?.1 hmem
        have hji : i ≠ j := by
          rintro rfl
          obtain rfl := Option.some.inj (hi.symm.trans hj)
          rcases hfit with hb | hk
          · exact hxb hb
          · exact hne (hkey.symm.trans hk)
        exact ⟨List.mem_of_getElem? ((List.getElem?_set_ne hji).trans hj), hxb, hkey⟩
    · rintro ⟨hmem, hxb, hkey⟩
      obtain ⟨j, hj⟩ := List.mem_iff_getElem?.1 hmem
      rcases hat hj with ⟨-, rfl⟩ | ⟨hne, hj⟩
      · rw [if_pos hkey.symm]
      · rw [if_neg, h.holds]
        · exact ⟨List.mem_of_getElem? hj, hxb, hkey⟩
        · intro he
          exact hne (honly hj (hkey.trans he))

omit [DecidableEq K] [DecidableEq R] in
theorem Represents.mem_domain_iff (h : Represents key blank slots m) (hr : key r ≠ key blank) :
    key r ∈ m.domain ↔ ∃ x ∈ slots, key x = key r := by
  rw [m.mem_domain, Option.ne_none_iff_exists']
  refine exists_congr fun x => ?_
  rw [h.holds]
  refine and_congr_right fun _ => and_iff_right_of_imp fun hk hb => ?_
  rw [← hk, hb] at hr
  exact hr rfl

/-- A write finds room exactly when the map has it. -/
theorem Represents.put_isSome (h : Represents key blank slots m) (hr : key r ≠ key blank) :
    (putSlot key blank r slots).isSome ↔ m.Accepts (key r) := by
  rw [BoundedMap.Accepts, h.mem_domain_iff hr, ← h.blank_iff, putSlot]
  split
  · rename_i i hi
    refine iff_of_true rfl (.inl ?_)
    obtain ⟨hlt, hk, -⟩ := List.findIdx?_eq_some_iff_getElem.1 hi
    exact ⟨_, List.getElem_mem hlt, of_decide_eq_true hk⟩
  · rename_i hnone
    rw [List.findIdx?_eq_none_iff] at hnone
    rw [Option.isSome_map, List.findIdx?_isSome, List.any_eq_true]
    constructor
    · rintro ⟨x, hx, hb⟩
      exact .inr (of_decide_eq_true hb ▸ hx)
    · rintro (⟨x, hx, hk⟩ | hb)
      · exact absurd hk (of_decide_eq_false (hnone x hx))
      · exact ⟨blank, hb, decide_eq_true rfl⟩

/-- A write into the table is a write into the map. -/
theorem Represents.put (h : Represents key blank slots m) (hr : key r ≠ key blank)
    (hp : putSlot key blank r slots = some slots') : Represents key blank slots' (m.write (key r) r) := by
  have ha : m.Accepts (key r) := (h.put_isSome hr).1 (by rw [hp]; rfl)
  rw [BoundedMap.write, dif_pos ha]
  unfold putSlot at hp
  split at hp
  · rename_i i hi
    cases hp
    obtain ⟨hlt, hk, -⟩ := List.findIdx?_eq_some_iff_getElem.1 hi
    have hk : key slots[i] = key r := of_decide_eq_true hk
    have hat : slots[i]? = some slots[i] := List.getElem?_eq_getElem hlt
    refine h.set hat (.inr hk) (fun hj he => ?_) hr ha
    refine h.once hj hat (he.trans hk.symm) fun hb => hr ?_
    rw [← he, hb]
  · rename_i hnone
    rw [List.findIdx?_eq_none_iff] at hnone
    obtain ⟨i, hi, rfl⟩ := Option.map_eq_some_iff.1 hp
    obtain ⟨hlt, hb, -⟩ := List.findIdx?_eq_some_iff_getElem.1 hi
    refine h.set (List.getElem?_eq_getElem hlt) (.inl (of_decide_eq_true hb)) (fun hj he => ?_) hr ha
    exact absurd he (of_decide_eq_false (hnone _ (List.mem_of_getElem? hj)))

end SlotTable

end LinuxProgram.Data
