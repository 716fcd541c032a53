/-
The loop of `writen`. It fails with the first `send` that does, or goes on until all bytes are accepted, and then
it holds the count of the last call.
-/
import LinuxProgram.Tcp.Socket

namespace LinuxProgram.Tcp

open LinuxProgram.Data LinuxProgram.Io

/-! ## Scripts -/

/-- A call fails before `n` bytes are accepted. -/
def FailsBefore : List SendEvent → Nat → Prop
  | [], _ => False
  | .eintr :: es, n => FailsBefore es n
  | .error :: _, n => 0 < n
  | .accept k :: es, n => FailsBefore es (n - k)

/-- The first call that accepts anything accepts all of the `n` bytes. -/
def AtOnce : List SendEvent → Nat → Prop
  | [], _ => True
  | .eintr :: es, n => AtOnce es n
  | .error :: _, _ => False
  | .accept k :: es, n => if k = 0 then AtOnce es n else n ≤ k

theorem not_failsBefore {es : List SendEvent} (hes : .error ∉ es) (n : Nat) : ¬ FailsBefore es n := by
  induction es generalizing n with
  | nil => exact id
  | cons e es ih =>
    have hrest := ih fun h => hes (List.mem_cons_of_mem _ h)
    cases e with
    | eintr => exact hrest n
    | error => exact absurd List.mem_cons_self hes
    | accept k => exact hrest (n - k)

theorem not_failsBefore_zero (es : List SendEvent) : ¬ FailsBefore es 0 := by
  induction es with
  | nil => exact id
  | cons e es ih =>
    cases e with
    | eintr => exact ih
    | error => exact Nat.lt_irrefl 0
    | accept k => rwa [FailsBefore, Nat.zero_sub]

/-! ## The loop -/

/-- What is said of `nwritten` when `n` bytes have been accepted: it is the count of the last call. -/
def LastCount (es : List SendEvent) (n : Nat) (nwritten ret : Int) : Prop :=
  if n = 0 then ret = nwritten else 0 < ret ∧ ret ≤ n ∧ (ret = n ↔ AtOnce es n)

theorem LastCount.eq_iff {es : List SendEvent} {n : Nat} {nwritten ret : Int} (h : LastCount es n nwritten ret) :
    ret = n ↔ if n = 0 then nwritten = 0 else AtOnce es n := by
  unfold LastCount at h
  split
  · rename_i h0
    rw [if_pos h0] at h
    rw [h, h0, Int.natCast_zero]
  · rename_i h0
    rw [if_neg h0] at h
    exact h.2.2

theorem LastCount.accept {es : List SendEvent} {n k : Nat} {nwritten ret : Int} (hn : 0 < n)
    (h : LastCount es (n - min k n) (min k n : Nat) ret) : LastCount (.accept k :: es) n nwritten ret := by
  unfold LastCount at h ⊢
  rw [if_neg (by omega), AtOnce]
  split at h
  · -- this call was the last
    rw [if_neg (by omega)]
    omega
  · obtain ⟨hpos, hle, hiff⟩ := h
    split
    · rename_i hk
      subst hk
      rw [Nat.zero_min, Nat.sub_zero] at hle hiff
      exact ⟨hpos, hle, hiff⟩
    · omega

/-- The loop fails with the first call that does, or has all bytes accepted. -/
theorem writenLoop_cases (fuel : Nat) (s : Sender) (bufp : List UInt8) (nleft : Nat) (nwritten : Int)
    (hle : nleft ≤ bufp.length) (hfuel : s.events.length + nleft < fuel) :
    (FailsBefore s.events nleft ∧ ∃ s', writenLoop fuel s bufp nleft nwritten = some (-1, s')) ∨
    ¬ FailsBefore s.events nleft ∧ ∃ ret es, es <:+ s.events ∧
      writenLoop fuel s bufp nleft nwritten = some (ret, ⟨s.sent ++ bufp.take nleft, es⟩) ∧
      LastCount s.events nleft nwritten ret := by
  induction fuel generalizing s bufp nleft nwritten with
  | zero => exact absurd hfuel (Nat.not_lt_zero _)
  | succ fuel ih =>
    obtain ⟨sent, events⟩ := s
    rw [writenLoop]
    rcases Nat.eq_zero_or_pos nleft with rfl | hpos
    · rw [if_neg (Nat.lt_irrefl 0), List.take_zero, List.append_nil]
      exact .inr ⟨not_failsBefore_zero events, nwritten, events, List.suffix_rfl, rfl, rfl⟩
    · have htake : (bufp.take nleft).length = nleft := List.length_take_of_le hle
      rw [if_pos hpos]
      cases events with
      | nil =>
        -- behind the script one call takes the rest
        have hsend : Sender.send ⟨sent, []⟩ (bufp.take nleft) = (.count nleft, ⟨sent ++ bufp.take nleft, []⟩) := by
          show (Sent.count (bufp.take nleft).length, _) = _
          rw [htake]
        rcases ih ⟨sent ++ bufp.take nleft, []⟩ (bufp.drop nleft) (nleft - nleft) nleft (by omega)
          (by rw [List.length_nil] at *; omega) with ⟨hfail, -⟩ | ⟨-, ret, es, hes, hloop, hlast⟩
        · exact hfail.elim
        · right
          rw [Nat.sub_self] at hlast
          have hret : ret = nleft := hlast
          refine ⟨id, ret, es, hes, ?_, ?_⟩
          · rw [hsend]
            refine hloop.trans ?_
            rw [Nat.sub_self, List.take_zero, List.append_nil]
          · unfold LastCount
            rw [if_neg (by omega)]
            exact ⟨by omega, by omega, fun _ => trivial, fun _ => hret⟩
      | cons e es =>
        rw [List.length_cons] at hfuel
        cases e with
        | eintr =>
          -- `nwritten` is -1 now, and some call will still assign it
          rcases ih ⟨sent, es⟩ bufp nleft (-1) hle (by dsimp only; omega) with ⟨hfail, s', hloop⟩ |
            ⟨hok, ret, es', hes, hloop, hlast⟩
          · exact .inl ⟨hfail, s', hloop⟩
          · refine .inr ⟨hok, ret, es', hes.trans (List.suffix_cons _ es), hloop, ?_⟩
            unfold LastCount at hlast ⊢
            rw [if_neg (by omega)] at hlast ⊢
            exact hlast
        | error => exact .inl ⟨hpos, _, rfl⟩
        | accept k =>
          have hsend : Sender.send ⟨sent, .accept k :: es⟩ (bufp.take nleft) =
              (.count (min k nleft), ⟨sent ++ bufp.take (min k nleft), es⟩) := by
            show (Sent.count (min k (bufp.take nleft).length),
              (⟨sent ++ (bufp.take nleft).take (min k (bufp.take nleft).length), es⟩ : Sender)) = _
            rw [htake, List.take_take, Nat.min_assoc, Nat.min_self]
          have hsub : nleft - min k nleft = nleft - k := by omega
          rw [hsend]
          rcases ih ⟨sent ++ bufp.take (min k nleft),
            es⟩ (bufp.drop (min k nleft)) (nleft - min k nleft) (min k nleft : Nat)
            (by rw [List.length_drop]; omega) (by dsimp only; omega) with ⟨hfail, s', hloop⟩ |
            ⟨hok, ret, es', hes, hloop, hlast⟩
          · rw [hsub] at hfail
            exact .inl ⟨hfail, s', hloop⟩
          · right
            refine ⟨?_, ret, es', hes.trans (List.suffix_cons _ es), ?_, hlast.accept hpos⟩
            · rw [hsub] at hok
              exact hok
            · refine hloop.trans ?_
              rw [List.append_assoc, ← List.take_add, Nat.add_sub_cancel' (min_le_right k nleft)]

end LinuxProgram.Tcp
