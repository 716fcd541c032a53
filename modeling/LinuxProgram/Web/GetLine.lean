/-
`get_line` of pub.c, on the array it is given and a stream. One call after another cuts the stream into
lines, and what they store is the normalised stream.
-/
import LinuxProgram.Data.Memory
import LinuxProgram.Data.Newlines
import LinuxProgram.Io.Stream
import LinuxProgram.Machine.Loop

namespace LinuxProgram.Web

open LinuxProgram.Data LinuxProgram.Io LinuxProgram.Machine

/-! ## The code -/

/-- The variables of `get_line`, its array and its socket. -/
structure GetLine where
  i : Nat
  c : UInt8
  buf : Memory
  sock : Receiver

/-- The byte that a call leaves in `c`, if `n > 0`. -/
def got? : Received → Option UInt8
  | .bytes (c :: _) => some c
  | _ => none

/-- What `c` becomes behind a carriage return: the next byte is looked at, and taken if it is a line feed. -/
def lineEnd (sock : Receiver) : Option (UInt8 × Receiver) :=
  (sock.peek 1).bind fun (n, sock) =>
    if got? n = some 10 then (sock.recv 1).map fun (n, sock) => ((got? n).getD 10, sock)
    else some (10, sock)

/-- A turn of the loop. -/
def getLineTurn (buf : Nat) (size : Int) (s : GetLine) : Option (Turn GetLine (Int × Memory × Receiver)) :=
  if s.i < size - 1 ∧ s.c ≠ 10 then
    (s.sock.recv 1).bind fun (n, sock) =>
      match got? n with
      | some c =>
        (if c = 13 then lineEnd sock else some (c, sock)).bind fun (c, sock) =>
          (s.buf.store (buf + s.i) c).map fun m => .next ⟨s.i + 1, c, m, sock⟩
      | none => some (.next { s with c := 10, sock := sock })
  else (s.buf.store (buf + s.i) 0).map fun m => .done (s.i, m, s.sock)

/-- `get_line(sock, buf, size)`. Every turn but the last takes a byte off the stream or sets `c` to a line
feed. -/
def getLine (buf : Nat) (size : Int) (m : Memory) (sock : Receiver) : Option (Int × Memory × Receiver) :=
  loop (getLineTurn buf size) (sock.data.length + 2) ⟨0, 0, m, sock⟩

/-- One call after another until a call returns 0, and the bytes that each has stored. -/
def getLines (buf : Nat) (size : Int) : Nat → Memory → Receiver → Option (List (List UInt8) × Memory × Receiver)
  | 0, _, _ => none
  | fuel + 1, m, sock =>
    (getLine buf size m sock).bind fun (i, m, sock) =>
      if i = 0 then some ([], m, sock)
      else (m.loads buf i.toNat).bind fun line =>
        (getLines buf size fuel m sock).map fun (lines, m, sock) => (line :: lines, m, sock)

/-! ## A stream that ends -/

/-- The stream ends, and no call on it fails. -/
structure Quiet (r : Receiver) : Prop where
  closed : r.closed = true
  chunks : ∀ e ∈ r.events, ∃ k, e = .chunk k

variable {r r' : Receiver}

theorem Quiet.recv (h : Quiet r) : r.recv 1 = some (.bytes (r.data.take 1), ⟨r.data.drop 1, true, r.events.tail⟩) := by
  obtain ⟨data, closed, events⟩ := r
  obtain ⟨rfl, hchunks⟩ := h
  cases events with
  | nil => exact if_neg (by simp)
  | cons e es =>
    obtain ⟨k, rfl⟩ := hchunks e List.mem_cons_self
    show Receiver.deliver _ (min (k + 1) 1) = _
    rw [show min (k + 1) 1 = 1 by omega]
    exact if_neg (by simp)

theorem Quiet.peek (h : Quiet r) : r.peek 1 = some (.bytes (r.data.take 1), ⟨r.data, true, r.events.tail⟩) := by
  rw [Receiver.peek, h.recv]
  rfl

theorem Quiet.tail (h : Quiet r) (data : List UInt8) : Quiet ⟨data, true, r.events.tail⟩ where
  closed := rfl
  chunks e he := h.chunks e (List.mem_of_mem_tail he)

/-- A carriage return is stored as a line feed, and a line feed behind it is gone with it. -/
theorem Quiet.lineEnd (h : Quiet r) : ∃ sock, Web.lineEnd r = some (10, sock) ∧ Quiet sock ∧
    ∃ used, r.data = used ++ sock.data ∧ normalise (13 :: used) = [10] ∧ Unpaired (13 :: used) sock.data := by
  unfold Web.lineEnd
  rw [h.peek, Option.bind_some]
  dsimp only
  split
  · rename_i hlf
    rw [(h.tail r.data).recv, Option.map_some]
    cases hdata : r.data with
    | nil =>
      rw [hdata] at hlf
      cases hlf
    | cons b rest =>
      rw [hdata] at hlf
      cases hlf
      exact ⟨_, rfl, (h.tail r.data).tail _, [10], rfl, rfl, fun hpair => by cases hpair.1⟩
  · rename_i hlf
    refine ⟨_, rfl, h.tail _, [], rfl, rfl, ?_⟩
    rintro ⟨-, hhead⟩
    cases hdata : r.data with
    | nil =>
      rw [hdata] at hhead
      cases hhead
    | cons b rest =>
      rw [hdata] at hlf hhead
      cases hhead
      exact hlf rfl

/-! ## One line -/

/-- The bytes of a line stand in the array, and the bytes of the stream that they account for are gone. -/
structure Consumed (r r' : Receiver) (line : List UInt8) : Prop where
  quiet : Quiet r'
  inner : 10 ∉ line.dropLast
  used : ∃ used, r.data = used ++ r'.data ∧ line = normalise used ∧ Unpaired used r'.data

theorem Consumed.refl (h : Quiet r) : Consumed r r [] where
  quiet := h
  inner := List.not_mem_nil
  used := ⟨[], rfl, rfl, fun hpair => by cases hpair.1⟩

/-- One byte more of a line that has not ended. -/
theorem Consumed.snoc {line used : List UInt8} {c : UInt8} {sock : Receiver} (h : Consumed r r' line)
    (hopen : 10 ∉ line) (hquiet : Quiet sock) (hdata : r'.data = used ++ sock.data) (hused : normalise used = [c])
    (hne : used ≠ [])
    (hpair : Unpaired used sock.data) : Consumed r sock (line ++ [c]) := by
  obtain ⟨before, hbefore, rfl, hcut⟩ := h.used
  refine ⟨hquiet, ?_, before ++ used, ?_, ?_, ?_⟩
  · rwa [List.dropLast_concat]
  · rw [hbefore, hdata, List.append_assoc]
  · rw [← hused]
    refine (normalise_append ?_).symm
    rintro ⟨hlast, hhead⟩
    refine hcut ⟨hlast, ?_⟩
    rw [hdata, List.head?_append, hhead]
    rfl
  · rintro ⟨hlast, hhead⟩
    refine hpair ⟨?_, hhead⟩
    obtain ⟨b, hb⟩ := Option.ne_none_iff_exists'.1 (mt List.getLast?_eq_none_iff.1 hne)
    rw [List.getLast?_append, hb] at hlast
    rw [hb]
    exact hlast

variable {m : Memory} {buf : Nat} {size : Int}

/-- The line so far; `c` is a line feed when the line or the stream has ended. -/
structure Filling (m : Memory) (buf : Nat) (size : Int) (r : Receiver) (line : List UInt8) (s : GetLine) : Prop where
  consumed : Consumed r s.sock line
  i : s.i = line.length
  buf : s.buf = m.write buf line
  size : (line.length : Int) ≤ size - 1
  c : if s.c = 10 then line.getLast? = some 10 ∨ s.sock.data = [] else 10 ∉ line

/-- A line ends at a line feed, at its limit or with the stream. -/
structure LineOf (size : Int) (r r' : Receiver) (line : List UInt8) : Prop where
  consumed : Consumed r r' line
  length : (line.length : Int) ≤ size - 1
  ends : line.getLast? = some 10 ∨ (line.length : Int) = size - 1 ∨ r'.data = []

/-- What is said of the result of `get_line`. -/
def GotLine (m : Memory) (buf : Nat) (size : Int) (r : Receiver) (res : Int × Memory × Receiver) : Prop :=
  ∃ line : List UInt8, res.1 = line.length ∧ res.2.1 = m.write buf (line ++ [0]) ∧ LineOf size r res.2.2 line

/-- The array has room for one byte more, be it the terminator. -/
theorem Filling.store {line : List UInt8} {s : GetLine} (hm : m.Usable buf size.toNat) (h : Filling m buf size r line s)
    (c : UInt8) : s.buf.store (buf + s.i) c = some (m.write buf (line ++ [c])) := by
  have hlen := h.size
  have husable : (m.write buf line).Usable (buf + line.length) (0 + 1) := hm.write.mono (by omega) (by omega)
  rw [h.buf, h.i, Memory.store_eq husable, Memory.write_append]
  rfl

/-- A byte that is stored ends the line exactly if it is a line feed. -/
theorem Filling.next {line used : List UInt8} {s : GetLine} {c : UInt8} {sock : Receiver}
    (h : Filling m buf size r line s) (hroom : (s.i : Int) < size - 1) (hopen : 10 ∉ line) (hquiet : Quiet sock)
    (hdata : s.sock.data = used ++ sock.data)
    (hused : normalise used = [c]) (hne : used ≠ []) (hpair : Unpaired used sock.data) :
    Filling m buf size r (line ++ [c]) ⟨s.i + 1, c, m.write buf (line ++ [c]), sock⟩ where
  consumed := h.consumed.snoc hopen hquiet hdata hused hne hpair
  i := by rw [List.length_append, List.length_singleton, h.i]
  buf := rfl
  size := by
    have := h.i
    rw [List.length_append, List.length_singleton]
    omega
  c := by
    show if c = 10 then _ else _
    split
    · rename_i h10
      left
      rw [h10, List.getLast?_concat]
    · rename_i h10
      rw [List.mem_append, List.mem_singleton, not_or]
      exact ⟨hopen, Ne.symm h10⟩

/-- What is left to do: the bytes of the stream, and to set `c`. -/
def GetLine.left (s : GetLine) : Nat := s.sock.data.length + if s.c = 10 then 0 else 1

theorem GetLine.left_lt {s s' : GetLine} {used : List UInt8} (hc : s.c ≠ 10)
    (hdata : s.sock.data = used ++ s'.sock.data) (h : used ≠ [] ∨ s'.c = 10) : s'.left < s.left := by
  have hlength : s.sock.data.length = used.length + s'.sock.data.length := by rw [hdata, List.length_append]
  unfold GetLine.left
  rw [if_neg hc]
  rcases h with hne | h10
  · have := List.length_pos_iff.2 hne
    split <;> omega
  · rw [if_pos h10]
    omega

theorem getLine_turn (hm : m.Usable buf size.toNat) (r : Receiver) :
    Proves (getLineTurn buf size) (fun s => ∃ line, Filling m buf size r line s) GetLine.left
      (GotLine m buf size r) := by
  rintro s ⟨line, h⟩
  have hi := h.i
  have hend := h.c
  unfold getLineTurn
  by_cases hgo : (s.i : Int) < size - 1 ∧ s.c ≠ 10
  · left
    rw [if_neg hgo.2] at hend
    rw [if_pos hgo, h.consumed.quiet.recv, Option.bind_some]
    have htail := h.consumed.quiet.tail (s.sock.data.drop 1)
    generalize s.sock.events.tail = es at htail ⊢
    cases hdata : s.sock.data with
    | nil =>
      -- the end of the stream
      rw [hdata] at htail
      have hconsumed := h.consumed.used
      rw [hdata] at hconsumed
      refine ⟨{ s with c := 10, sock := ⟨[], true, es⟩ }, rfl,
        ⟨line, ⟨htail, h.consumed.inner, hconsumed⟩, hi, h.buf, h.size, .inr rfl⟩, ?_⟩
      exact @GetLine.left_lt s _ [] hgo.2 hdata (.inr rfl)
    | cons b rest =>
      rw [hdata] at htail
      dsimp only [List.take_succ_cons, got?]
      by_cases hcr : b = 13
      · subst hcr
        obtain ⟨sock, hline, hquiet, used, hrest, hused, hpair⟩ := htail.lineEnd
        have hused' : s.sock.data = 13 :: used ++ sock.data := hdata.trans (congrArg (List.cons 13) hrest)
        rw [if_pos rfl, hline, Option.bind_some, h.store hm, Option.map_some]
        refine ⟨_, rfl, ⟨_, h.next hgo.1 hend hquiet hused' hused (List.cons_ne_nil _ _) hpair⟩, ?_⟩
        exact GetLine.left_lt hgo.2 hused' (.inl (List.cons_ne_nil _ _))
      · have hpair : Unpaired [b] rest := by
          rintro ⟨hlast, -⟩
          exact hcr (Option.some.inj hlast)
        rw [if_neg hcr, Option.bind_some, h.store hm, Option.map_some]
        refine ⟨_, rfl, ⟨_, h.next hgo.1 hend htail hdata (normalise_cons hcr []) (List.cons_ne_nil _ _) hpair⟩, ?_⟩
        exact @GetLine.left_lt s _ [b] hgo.2 hdata (.inl (List.cons_ne_nil _ _))
  · right
    rw [if_neg hgo, h.store hm, Option.map_some]
    refine ⟨_, rfl, line, congrArg _ hi, rfl, h.consumed, h.size, ?_⟩
    by_cases hc : s.c = 10
    · rw [if_pos hc] at hend
      exact hend.imp_right .inr
    · have hlen := h.size
      have hfull := not_and'.1 hgo hc
      exact .inr (.inl (by omega))

theorem filling_start (m : Memory) (buf : Nat) (hsize : 2 ≤ size) (hr : Quiet r) :
    Filling m buf size r [] ⟨0, 0, m, r⟩ where
  consumed := .refl hr
  i := rfl
  buf := rfl
  size := by
    show (0 : Int) ≤ size - 1
    omega
  c := by
    show if (0 : UInt8) = 10 then _ else _
    rw [if_neg (by decide)]
    exact List.not_mem_nil

/-- One call. -/
theorem getLine_spec (hm : m.Usable buf size.toNat) (hsize : 2 ≤ size) (hr : Quiet r) :
    ∃ res, getLine buf size m r = some res ∧ GotLine m buf size r res := by
  refine (getLine_turn hm r).loop ⟨[], filling_start m buf hsize hr⟩ ?_
  show r.data.length + 1 < r.data.length + 2
  omega

/-! ## All lines -/

/-- Only at the end of the stream a call stores nothing. -/
theorem LineOf.ne_nil {line : List UInt8} (hsize : 2 ≤ size) (h : LineOf size r r' line) (hdata : r.data ≠ []) :
    line ≠ [] := by
  rintro rfl
  rcases h.ends with hlast | hlen | hnil
  · cases hlast
  · have : ((0 : Nat) : Int) = size - 1 := hlen
    omega
  · obtain ⟨used, hused, hline, -⟩ := h.consumed.used
    refine normalise_ne_nil (fun hnone => hdata ?_) hline.symm
    rw [hused, hnone, hnil]
    rfl

/-- The calls on a stream: the bytes stored make up the normalised stream, a line feed stands at the end of a line
only, and a line without one has `size - 1` bytes or is the last. -/
theorem getLines_spec (hm : m.Usable buf size.toNat) (hsize : 2 ≤ size) (hr : Quiet r) {fuel : Nat}
    (hfuel : r.data.length < fuel) : ∃ lines m' r', getLines buf size fuel m r = some (lines, m', r') ∧ r'.data = [] ∧
      lines.flatten = normalise r.data ∧ ∀ (i : Nat) (line : List UInt8), lines[i]? = some line →
      line ≠ [] ∧ 10 ∉ line.dropLast ∧
        (line.getLast? = some 10 ∨ (line.length : Int) = size - 1 ∨ i + 1 = lines.length) := by
  induction fuel generalizing m r with
  | zero => exact absurd hfuel (Nat.not_lt_zero _)
  | succ fuel ih =>
    obtain ⟨⟨ret, m', r'⟩, hcall, line, hret, hm', hline⟩ := getLine_spec hm hsize hr
    dsimp only at hret hm' hline
    subst hret hm'
    obtain ⟨used, hused, rfl, hpair⟩ := hline.consumed.used
    rw [getLines, hcall, Option.bind_some]
    dsimp only
    by_cases hdata : r.data = []
    · -- the call that returns 0
      obtain ⟨rfl, hnil⟩ := List.append_eq_nil_iff.1 (hused.symm.trans hdata)
      rw [if_pos (show (((normalise []).length : Nat) : Int) = 0 from rfl)]
      refine ⟨[], _, r', rfl, hnil, ?_, fun i line hi => by cases hi⟩
      rw [hdata]
      rfl
    · have hne := hline.ne_nil hsize hdata
      have hpos := List.length_pos_iff.2 hne
      have hholds : (m.write buf (normalise used ++ [0])).Holds buf (normalise used ++ [0]) := Memory.holds_write
      have hless : r'.data.length < fuel := by
        have hlength := congrArg List.length hused
        have : used ≠ [] := by
          rintro rfl
          exact hne rfl
        have := List.length_pos_iff.2 this
        rw [List.length_append] at hlength
        omega
      have hm' : (m.write buf (normalise used ++ [0])).Usable buf size.toNat := hm.write
      obtain ⟨lines, m'', r'', hlines, hend, hflat, hall⟩ := ih hm' hline.consumed.quiet hless
      rw [if_neg (by omega), Int.toNat_natCast, (Memory.holds_append.1 hholds).1.loads, Option.bind_some, hlines,
        Option.map_some]
      refine ⟨_, m'', r'', rfl, hend, ?_, fun i l hi => ?_⟩
      · rw [List.flatten_cons, hflat, hused, normalise_append hpair]
      · cases i with
        | zero =>
          cases hi
          refine ⟨hne, hline.consumed.inner, hline.ends.imp_right fun h => h.imp_right fun hnil => ?_⟩
          -- behind the end of the stream comes no other line
          rw [hnil] at hflat
          cases lines with
          | nil => rfl
          | cons l ls => exact absurd (List.append_eq_nil_iff.1 hflat).1 (hall 0 l rfl).1
        | succ i =>
          obtain ⟨hne', hinner, hends⟩ := hall i l hi
          exact ⟨hne', hinner, hends.imp_right fun h => h.imp_right fun h => congrArg (· + 1) h⟩

/-- A call stores the next line, behind it the terminator, and takes off the stream what the line accounts for. The
calls up to the one that returns 0 store the normalised stream. -/
theorem getLine_lines (hm : m.Usable buf size.toNat) (hsize : 2 ≤ size) (hr : Quiet r) :
    (∃ line used r', getLine buf size m r = some (line.length, m.write buf (line ++ [0]), r') ∧
      (line.length : Int) ≤ size - 1 ∧
      r.data = used ++ r'.data ∧ line = normalise used ∧ Unpaired used r'.data ∧ Quiet r') ∧
    ∃ lines m' r', getLines buf size (r.data.length + 1) m r = some (lines, m', r') ∧ r'.data = [] ∧
      lines.flatten = normalise r.data ∧ ∀ (i : Nat) (line : List UInt8), lines[i]? = some line → line ≠ [] ∧
        10 ∉ line.dropLast ∧ (line.getLast? = some 10 ∨ (line.length : Int) = size - 1 ∨ i + 1 = lines.length) := by
  refine ⟨?_, getLines_spec hm hsize hr (Nat.lt_succ_self _)⟩
  obtain ⟨⟨ret, m', r'⟩, hcall, line, hret, hm', hline⟩ := getLine_spec hm hsize hr
  dsimp only at hret hm' hline
  subst hret hm'
  obtain ⟨used, hused, hnorm, hpair⟩ := hline.consumed.used
  exact ⟨line, used, r', hcall, hline.length, hused, hnorm, hpair, hline.consumed.quiet⟩

/-- Three bytes to a call, and a line end of each kind, one where the array is full. -/
theorem getLine_lines_mixed : ∃ lines m' r', getLines 8 4 8 (fun i => if 8 ≤ i ∧ i < 12 then some 255 else none)
    ⟨[97, 98, 13, 10, 13, 99, 10], true, [.chunk 5]⟩ = some (lines, m', r') ∧ r'.data = [] ∧
      lines.flatten = [97, 98, 10, 10, 99, 10] := by
  have hm : Memory.Usable (fun i => if 8 ≤ i ∧ i < 12 then some 255 else none) 8 (4 : Int).toNat := by
    intro i hi hlt
    show (if 8 ≤ i ∧ i < 12 then some (255 : UInt8) else none).isSome = true
    rw [if_pos ⟨hi, hlt⟩]
    rfl
  obtain ⟨-, lines, m', r', h, hend, hflat, -⟩ :=
    getLine_lines (r := ⟨[97, 98, 13, 10, 13, 99, 10], true, [.chunk 5]⟩) hm
    (by decide) ⟨rfl, by simp⟩
  exact ⟨lines, m', r', h, hend, hflat⟩

end LinuxProgram.Web
