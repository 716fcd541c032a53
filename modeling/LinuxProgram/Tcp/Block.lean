/-
`recvMessage` on the memory that it writes to: the four bytes of `netdatalen` and the block that `malloc`
returns. Whatever the header says, nothing is written outside, and what is returned is what the model without
memory returns.
-/
import LinuxProgram.Data.Memory
import LinuxProgram.Tcp.Framing

namespace LinuxProgram.Tcp.Block

open LinuxProgram.Data LinuxProgram.Io

/-! ## The code -/

/-- Why there is no result: a call does not return, or an access leaves the memory that is in use. -/
inductive Stuck where
  | waits
  | outside
  deriving DecidableEq, Repr

/-- An access to memory. -/
def access {α : Type} (x : Option α) : Except Stuck α := x.elim (.error .outside) .ok

/-- `recv(connfd, bufp, nleft, 0)`. -/
def recv (r : Receiver) (m : Memory) (bufp : Nat) (nleft : Int) : Except Stuck (Received × Memory × Receiver) :=
  match r.recv (toSize nleft) with
  | none => .error .waits
  | some (.bytes bs, r') => (access (m.stores bufp bs)).map fun m' => (.bytes bs, m', r')
  | some (got, r') => .ok (got, m, r')

/-- The loop of `readn`. -/
def readnLoop (count : Int) : Nat → Receiver → Memory → Nat → Int → Except Stuck (Int × Memory × Receiver)
  | 0, _, _, _, _ => .error .waits
  | fuel + 1, r, m, bufp, nleft =>
    if 0 < nleft then
      (recv r m bufp nleft).bind fun (nread, m, r) =>
        match nread with
        | .eintr => readnLoop count fuel r m bufp nleft
        | .error => .ok (-1, m, r)
        | .bytes bs =>
          if bs.length = 0 then .ok (count - nleft, m, r)
          else readnLoop count fuel r m (bufp + bs.length) (nleft - bs.length)
    else .ok (count, m, r)

/-- `readn(buf, count)`. Every turn but the last uses up an event of the script or a byte of the `count`. -/
def readn (r : Receiver) (m : Memory) (buf : Nat) (count : Int) : Except Stuck (Int × Memory × Receiver) :=
  readnLoop count (r.events.length + count.toNat + 1) r m buf count

/-- `tmpBuf[n] = '\0'`. -/
def terminate (m : Memory) (n : Int) : Except Stuck Memory := access (if 0 ≤ n then m.store n.toNat 0 else none)

/-- `recvMessage`; `junk` is what the block holds before. -/
def recvMessage (malloc : Nat → Bool) (junk : Nat → UInt8) (w : Wait) (r : Receiver) :
    Except Stuck (Message × Receiver) :=
  if (readTimeout w).1 ≠ 0 then .ok (.string [], r)
  else
    (readn r (.block (fun _ => 0) 4) 0 4).bind fun (ret, netdatalen, r) =>
      if ret = -1 then .ok (.string [], r)
      else if ret < 4 then .ok (.string [], r)
      else
        (access (netdatalen.loads 0 4)).bind fun bytes =>
          let n := ntohl bytes
          let size := toSize (wrap32 (n + 1))
          if malloc size then
            (readn r (.block junk size) 0 n).bind fun (ret, tmpBuf, r) =>
              if ret = -1 then .ok (.string [], r)
              else if ret < n then .ok (.string [], r)
              else
                (terminate tmpBuf n).bind fun tmpBuf =>
                  (access (tmpBuf.string size 0)).map fun data => (.string data, r)
          else .ok (.null, r)

/-! ## The loop -/

/-- A function without memory, which has no result when it does not return. -/
def returns {α : Type} (x : Option α) : Except Stuck α := x.elim (.error .waits) .ok

variable {m : Memory} {bufp n : Nat}

/-- What `readn` for `n` bytes makes of the bytes that are read: `nleft` are left when it starts. -/
def readInto (count : Int) (nleft : Nat) (m : Memory) (bufp : Nat) (x : Ending × List UInt8 × Receiver) :
    Int × Memory × Receiver :=
  (match x.1 with | .full => count | .eof => count - nleft + x.2.1.length | .error => -1, m.write bufp x.2.1, x.2.2)

/-- Bytes that are read before the others. -/
theorem readInto_append {count : Int} {nleft : Nat} {bs : List UInt8} (hlen : bs.length ≤ nleft) (e : Ending)
    (cs : List UInt8) (r : Receiver) :
    readInto count (nleft - bs.length) (m.write bufp bs) (bufp + bs.length) (e, cs, r) =
      readInto count nleft m bufp (e, bs ++ cs, r) := by
  unfold readInto
  rw [Memory.write_append]
  cases e with
  | full => rfl
  | eof =>
    dsimp only
    rw [show count - ((nleft - bs.length : Nat) : Int) + cs.length = count - nleft + (bs ++ cs).length by
      rw [List.length_append]; omega]
  | error => rfl

theorem recv_eq (r : Receiver) (hm : m.Usable bufp n) (hn : n < 2 ^ 64) : recv r m bufp n =
    (returns (r.recv n)).map fun x => (x.1, m.write bufp (x.1.bytes?.getD []), x.2) := by
  unfold recv
  rw [toSize_natCast hn]
  cases h : r.recv n with
  | none => rfl
  | some x =>
    obtain ⟨got, r'⟩ := x
    cases got with
    | bytes bs =>
      have hlen : bs.length ≤ n := (Receiver.recv_takes h).2
      have hstores : m.stores bufp bs = some (m.write bufp bs) := Memory.stores_eq (hm.mono (le_refl _) (by omega))
      dsimp only
      rw [hstores]
      rfl
    | eintr => rfl
    | error => rfl

/-- The loop stores what the loop without memory reads. -/
theorem readnLoop_eq (count : Int) (fuel : Nat) (r : Receiver) (hm : m.Usable bufp n) (hn : n < 2 ^ 64) :
    readnLoop count fuel r m bufp n = (returns (r.recvLoop fuel n)).map (readInto count n m bufp) := by
  induction fuel generalizing r m bufp n with
  | zero => rfl
  | succ fuel ih =>
    cases n with
    | zero => rfl
    | succ n =>
      rw [readnLoop, if_pos (by omega), recv_eq r hm hn, Receiver.recvLoop]
      cases h : r.recv (n + 1) with
      | none => rfl
      | some x =>
        obtain ⟨got, r'⟩ := x
        cases got with
        | eintr => exact ih r' hm hn
        | error => rfl
        | bytes bs =>
          have hlen : bs.length ≤ n + 1 := (Receiver.recv_takes h).2
          show (if bs.length = 0 then _ else _) = (returns (if bs = [] then _ else _)).map _
          by_cases hbs : bs = []
          · subst hbs
            rw [if_pos (show ([] : List UInt8).length = 0 from rfl), if_pos rfl]
            show Except.ok (count - ((n + 1 : Nat) : Int), m, r') =
              .ok (count - ((n + 1 : Nat) : Int) + ((0 : Nat) : Int), m, r')
            rw [Int.natCast_zero, Int.add_zero]
          · have hpos := List.length_pos_iff.2 hbs
            rw [if_neg (by omega), if_neg hbs]
            have hm' : (m.write bufp bs).Usable (bufp + bs.length) (n + 1 - bs.length) :=
              hm.write.mono (by omega) (by omega)
            have hrest := ih r' hm' (by omega)
            rw [show ((n + 1 : Nat) : Int) - (bs.length : Int) = ((n + 1 - bs.length : Nat) : Int) by omega]
            refine hrest.trans ?_
            cases r'.recvLoop fuel (n + 1 - bs.length) with
            | none => rfl
            | some y =>
              obtain ⟨e, cs, r''⟩ := y
              exact congrArg Except.ok (readInto_append hlen e cs r'')

theorem readn_eq {count : Int} (r : Receiver) (hm : m.Usable bufp count.toNat) (hcount : count < 2 ^ 31) :
    readn r m bufp count = (returns (r.recvn count.toNat)).map (readInto count count.toNat m bufp) := by
  unfold readn Receiver.recvn
  rcases Int.lt_or_le count 0 with hneg | hpos
  · -- the loop is not entered
    have hzero : count.toNat = 0 := by omega
    rw [hzero, readnLoop, if_neg (by omega)]
    rfl
  · have h := readnLoop_eq count (r.events.length + count.toNat + 1) r hm (by omega)
    rwa [Int.toNat_of_nonneg hpos] at h

/-! ## The messages -/

theorem ntohl_range (bytes : List UInt8) : -2 ^ 31 ≤ ntohl bytes ∧ ntohl bytes < 2 ^ 31 := by
  have hlo := @Int.le_bmod (ofBigEndian bytes) (2 ^ 32) (by decide)
  have hhi := @Int.bmod_lt (ofBigEndian bytes) (2 ^ 32) (by decide)
  unfold ntohl wrap32
  omega

/-- What `malloc` is asked for: a size that it does not have, nothing for -1, or a byte more than the body. -/
theorem size_cases {malloc : Nat → Bool} (hm : ∀ k, 2 ^ 63 ≤ k → malloc k = false) (bytes : List UInt8) :
    malloc (toSize (wrap32 (ntohl bytes + 1))) = false ∨ ntohl bytes = -1 ∧ toSize (wrap32 (ntohl bytes + 1)) = 0 ∨
      0 ≤ ntohl bytes ∧ toSize (wrap32 (ntohl bytes + 1)) = (ntohl bytes).toNat + 1 := by
  obtain ⟨hlo, hhi⟩ := ntohl_range bytes
  generalize ntohl bytes = n at hlo hhi ⊢
  by_cases htop : n = 2 ^ 31 - 1
  · left
    apply hm
    subst htop
    decide
  · have hwrap : wrap32 (n + 1) = n + 1 := wrap32_eq (by omega) (by omega)
    rw [hwrap]
    unfold toSize
    by_cases hneg : n < -1
    · left
      apply hm
      omega
    · right
      omega

/-- The four bytes of the header. -/
theorem readn_header (r : Receiver) : readn r (.block (fun _ => 0) 4) 0 4 =
    (returns (Tcp.readn r 4)).map fun x => (x.1, (Memory.block (fun _ => 0) 4).write 0 x.2.1, x.2.2) := by
  rw [readn_eq r (Memory.block_usable _ 4) (by decide)]
  unfold Tcp.readn
  cases r.recvn (4 : Int).toNat with
  | none => rfl
  | some x =>
    obtain ⟨e, bs, r'⟩ := x
    cases e with
    | full => rfl
    | eof => exact congrArg Except.ok (Prod.ext (Int.zero_add _) rfl)
    | error => rfl

/-- A `readn` that does not come up short. -/
theorem readn_whole {r r' : Receiver} {ret : Int} {n : Nat} {bs : List UInt8} (h : Tcp.readn r n = some (ret, bs, r'))
    (herr : ret ≠ -1) (hshort : ¬ ret < n) : bs.length = n := by
  obtain ⟨⟨e, cs, r₁⟩, hrecv, he⟩ := Option.map_eq_some_iff.1 h
  have htook := Receiver.recvLoop_took hrecv
  have hlen := htook.length
  rw [Int.toNat_natCast] at hlen
  cases e with
  | full =>
    cases he
    exact htook.full.1 rfl
  | eof =>
    cases he
    have hshort : ¬ (bs.length : Int) < n := hshort
    omega
  | error =>
    cases he
    exact absurd rfl herr

/-- The rest of the call, behind the header: what is written stays inside the block. -/
theorem body_eq (junk : Nat → UInt8) (r : Receiver) {n : Int} {size : Nat}
    (hn : n = -1 ∧ size = 0 ∨ 0 ≤ n ∧ size = n.toNat + 1) (hlt : n < 2 ^ 31) :
    ((readn r (.block junk size) 0 n).bind fun (ret, tmpBuf, r) =>
      if ret = -1 then .ok (.string [], r)
      else if ret < n then .ok (.string [], r)
      else (terminate tmpBuf n).bind fun tmpBuf => (access (tmpBuf.string size 0)).map fun data =>
        (Message.string data, r)) =
    returns ((Tcp.readn r n).map (recvBody n)) := by
  have husable : (Memory.block junk size).Usable 0 n.toNat :=
    (Memory.block_usable junk size).mono (le_refl _) (by omega)
  rw [readn_eq r husable hlt]
  unfold Tcp.readn
  cases h : r.recvn n.toNat with
  | none => rfl
  | some x =>
    obtain ⟨e, bs, r'⟩ := x
    have htook := Receiver.recvLoop_took h
    have hlen := htook.length
    rcases hn with ⟨rfl, -⟩ | ⟨hpos, hsize⟩
    · -- the empty block, of which nothing is read
      obtain rfl : e = .full := htook.full.2 (Nat.eq_zero_of_le_zero hlen)
      rfl
    · cases e with
      | full =>
        have hall : bs.length = n.toNat := htook.full.1 rfl
        have hterm : terminate ((Memory.block junk size).write 0 bs) n =
            .ok ((Memory.block junk size).write 0 (bs ++ [0])) := by
          unfold terminate
          rw [if_pos hpos, Memory.store_eq (n := 0), Memory.write_append, Nat.zero_add, hall]
          · rfl
          · exact (Memory.block_usable junk size).write.mono (Nat.zero_le _) (by omega)
        have hstring : ((Memory.block junk size).write 0 (bs ++ [0])).string size 0 = some (cstr bs) :=
          Memory.Holds.string Memory.holds_write (by omega)
        show (if n = -1 then _ else if n < n then _ else _) = Except.ok (recvBody n (n, bs, r'))
        rw [recvBody, if_neg (by omega), if_neg (Int.lt_irrefl n), if_neg (by omega), if_neg (Int.lt_irrefl n)]
        show (terminate ((Memory.block junk size).write 0 bs) n).bind _ = _
        rw [hterm]
        show (access (((Memory.block junk size).write 0 (bs ++ [0])).string size 0)).map _ = _
        rw [hstring]
        rfl
      | eof =>
        have hless : bs.length ≠ n.toNat := fun hall => by cases htook.full.2 hall
        show (if n - n.toNat + bs.length = -1 then _ else if n - n.toNat + bs.length < n then _ else _) =
          Except.ok (recvBody n (bs.length, bs, r'))
        rw [recvBody, if_neg (by omega), if_pos (by omega), if_neg (by omega), if_pos (by omega)]
      | error => rfl

/-- Nothing is written outside, and the result is that of the model without memory. -/
theorem recvMessage_eq {malloc : Nat → Bool} (hm : ∀ k, 2 ^ 63 ≤ k → malloc k = false) (junk : Nat → UInt8) (w : Wait)
    (r : Receiver) : recvMessage malloc junk w r = returns (Tcp.recvMessage malloc w r) := by
  unfold recvMessage Tcp.recvMessage
  by_cases hw : (readTimeout w).1 ≠ 0
  · rw [if_pos hw, if_pos hw]
    rfl
  · rw [if_neg hw, if_neg hw, readn_header]
    cases h : Tcp.readn r 4 with
    | none => rfl
    | some x =>
      obtain ⟨ret, bs, r'⟩ := x
      show (if ret = -1 then _ else _) = returns (if ret = -1 then _ else _)
      by_cases herr : ret = -1
      · rw [if_pos herr, if_pos herr]
        rfl
      rw [if_neg herr, if_neg herr]
      by_cases hshort : ret < 4
      · rw [if_pos hshort, if_pos hshort]
        rfl
      rw [if_neg hshort, if_neg hshort]
      have hholds : ((Memory.block (fun _ => 0) 4).write 0 bs).Holds 0 bs := Memory.holds_write
      have hloads := hholds.loads
      rw [readn_whole h herr hshort] at hloads
      show (access (((Memory.block (fun _ => 0) 4).write 0 bs).loads 0 4)).bind _ = _
      rw [hloads]
      show (if malloc (toSize (wrap32 (ntohl bs + 1))) = true then _ else _) =
        returns (if malloc (toSize (wrap32 (ntohl bs + 1))) = true then _ else _)
      rcases size_cases hm bs with hnull | hn
      · rw [hnull, if_neg Bool.false_ne_true, if_neg Bool.false_ne_true]
        rfl
      · by_cases hmalloc : malloc (toSize (wrap32 (ntohl bs + 1))) = true
        · rw [if_pos hmalloc, if_pos hmalloc]
          exact body_eq junk r' hn (ntohl_range bs).2
        · rw [if_neg hmalloc, if_neg hmalloc]
          rfl

/-- The peer has closed, or the stream has the body that its header announces. -/
def Enough (r : Receiver) : Prop := r.closed = true ∨ 4 ≤ r.data.length ∧ 4 + ntohl (r.data.take 4) ≤ r.data.length

theorem readn_isSome {r : Receiver} {count : Int} (hready : r.closed = true ∨ count ≤ r.data.length) :
    (Tcp.readn r count).isSome := by
  rw [Tcp.readn, Option.isSome_map]
  exact r.recvLoop_isSome _ _ (hready.imp_right fun h => by omega) (Nat.lt_succ_self _)

theorem recvMessage_isSome (malloc : Nat → Bool) (w : Wait) {r : Receiver} (h : Enough r) :
    (Tcp.recvMessage malloc w r).isSome := by
  obtain ⟨⟨ret, bs, r'⟩, hhead⟩ := Option.isSome_iff_exists.1
    (readn_isSome (h.imp_right fun hlen => by omega) : (Tcp.readn r 4).isSome)
  unfold Tcp.recvMessage
  rw [hhead, Option.bind_some]
  dsimp only
  by_cases hw : (readTimeout w).1 ≠ 0
  · rw [if_pos hw]
    rfl
  rw [if_neg hw]
  by_cases herr : ret = -1
  · rw [if_pos herr]
    rfl
  rw [if_neg herr]
  by_cases hshort : ret < 4
  · rw [if_pos hshort]
    rfl
  rw [if_neg hshort]
  split
  · obtain ⟨⟨e, cs, r₁⟩, hrecv, he⟩ := Option.map_eq_some_iff.1 hhead
    have htook := Receiver.recvLoop_took hrecv
    have hbs : bs.length = 4 := readn_whole hhead herr hshort
    cases he
    rw [Option.isSome_map]
    apply readn_isSome
    rw [htook.closed]
    refine h.imp_right fun hlen => ?_
    rw [htook.data, List.take_left' hbs, List.length_append, hbs] at hlen
    omega
  · rfl

/-- Whatever header and stream the peer sends, each byte is written inside the memory in use, and the call ends when
the peer has closed or has sent enough. -/
theorem recvMessage_safe {malloc : Nat → Bool} (hm : ∀ k, 2 ^ 63 ≤ k → malloc k = false) (junk : Nat → UInt8) (w : Wait)
    (r : Receiver) :
    recvMessage malloc junk w r ≠ .error .outside ∧ (Enough r → ∃ x, recvMessage malloc junk w r = .ok x) := by
  rw [recvMessage_eq hm]
  constructor
  · cases Tcp.recvMessage malloc w r with
    | none => simp [returns]
    | some x => simp [returns]
  · intro h
    obtain ⟨x, hx⟩ := Option.isSome_iff_exists.1 (recvMessage_isSome malloc w h)
    rw [hx]
    exact ⟨x, rfl⟩

/-- A header of -1: the block is empty, and the call ends behind the header. -/
theorem recvMessage_safe_minusOne : recvMessage (fun k => k < 2 ^ 63) (fun _ => 7) hi.recvWait
      ⟨[255, 255, 255, 255, 1], false, [.chunk 1]⟩ ≠ .error .outside ∧
    ∃ x, recvMessage (fun k => k < 2 ^ 63) (fun _ => 7) hi.recvWait ⟨[255, 255, 255, 255, 1], false,
      [.chunk 1]⟩ = .ok x := by
  obtain ⟨hsafe, hends⟩ := @recvMessage_safe (fun k => k < 2 ^ 63) (fun k hk => decide_eq_false (Nat.not_lt.2 hk))
    (fun _ => 7) hi.recvWait ⟨[255, 255, 255, 255, 1], false, [.chunk 1]⟩
  exact ⟨hsafe, hends (.inr (by decide))⟩

end LinuxProgram.Tcp.Block
