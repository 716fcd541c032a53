/-
Requests that arrive in pieces. `process_http_request` takes the first `recv` for the request line and
discards what has arrived behind it; what arrives later is a request of its own unless the connection
has been closed. No stream is read the same way for every way of cutting it, and one way of cutting it
is read as the request that the stream is when the first `recv` reaches far enough and the rest does
not come back.

A first `recv` that fills the buffer is taken to be read as far as the conversions of `sscanf` go, although
the buffer then has no NUL.
-/
import LinuxProgram.Web.Epoll
import Mathlib.Tactic

namespace LinuxProgram.Web.Epoll

open LinuxProgram.Data

/-! ## Request streams -/

/-- Visible characters. -/
structure Token (s : List UInt8) : Prop where
  nonempty : s ≠ []
  visible : ∀ b ∈ s, 32 < b

theorem Token.of_all {s : List UInt8} (hne : s ≠ []) (h : s.all (fun b => decide (32 < b)) = true) : Token s where
  nonempty := hne
  visible b hb := of_decide_eq_true (List.all_eq_true.1 h b hb)

/-- A request: the request line and the headers. -/
structure Message where
  method : List UInt8
  target : List UInt8
  protocol : List UInt8
  headers : List (List UInt8)
  method_token : Token method
  target_token : Token target
  protocol_token : Token protocol
  header_lines : ∀ h ∈ headers, h ≠ [] ∧ Printable h

/-- Request line, headers, blank line. -/
def Message.bytes (m : Message) : List UInt8 :=
  m.method ++ 32 :: (m.target ++ 32 :: (m.protocol ++ 13 :: 10 :: (m.headers.flatMap (· ++ crlf) ++ crlf)))

/-- The request that the stream is. -/
def Message.request (m : Message) : Request := RequestLine.request ⟨m.method, m.target, m.protocol⟩

/-- The request line with the carriage return behind it. -/
def Message.lineLength (m : Message) : Nat := m.method.length + m.target.length + m.protocol.length + 3

/-- One way of cutting a stream into what the `recv` calls deliver. -/
structure Cut (s : List UInt8) where
  arrivals : List Arrival
  first_size : ∀ a ∈ arrivals, a.first ≠ [] ∧ a.first.length ≤ bufSize
  discarded_size : ∀ a ∈ arrivals, ∀ d ∈ a.discarded, d ≠ [] ∧ d.length ≤ 1024
  whole : (arrivals.flatMap fun a => a.first ++ a.discarded.flatten) = s

/-! ## The first `recv` -/

theorem Token.unstopped {s : List UInt8} (h : Token s) {stop : List UInt8} (hstop : ∀ c ∈ stop, c ≤ 32) :
    Unstopped stop s := by
  intro b hb
  have hlt := h.visible b hb
  rintro (rfl | hc)
  · exact absurd hlt (by decide)
  · exact absurd (hstop b hc) (UInt8.not_le.2 hlt)

theorem isspace_of_visible {c : UInt8} (h : 32 < c) : isspace c = false := by
  rw [UInt8.lt_iff_toNat_lt] at h
  have h32 : ¬ c = 32 := by
    rintro rfl
    exact absurd h (by decide)
  have h13 : ¬ c ≤ 13 := by
    rw [UInt8.le_iff_toNat_le]
    have : (13 : UInt8).toNat = 13 := rfl
    have : (32 : UInt8).toNat = 32 := rfl
    omega
  simp [isspace, h32, h13]

theorem Token.cons {s : List UInt8} (h : Token s) : ∃ c rest, s = c :: rest ∧ isspace c = false := by
  obtain ⟨c, rest, rfl⟩ := List.exists_cons_of_ne_nil h.nonempty
  exact ⟨c, rest, rfl, isspace_of_visible (h.visible c List.mem_cons_self)⟩

theorem Token.unstopped_space {s : List UInt8} (h : Token s) : Unstopped [32] s := h.unstopped (by simp)

theorem Token.unstopped_line {s : List UInt8} (h : Token s) : Unstopped [32, 13, 10] s := h.unstopped (by simp)

/-- The first `k` bytes of a request, in a buffer with room behind them. -/
theorem sscanf_take_zeros (m : Message) {k : Nat} (hk : 0 < k) (z : Nat) :
    sscanf (m.bytes.take k ++ List.replicate (z + 1) 0) =
      some ⟨m.method.take k, m.target.take (k - m.method.length - 1),
      m.protocol.take (k - m.method.length - 1 - m.target.length - 1)⟩ := by
  obtain ⟨method, target, protocol, headers, hm, ht, hp, -⟩ := m
  have hne : method.take k ≠ [] := by
    rw [ne_eq, List.take_eq_nil_iff, not_or]
    exact ⟨by omega, hm.nonempty⟩
  obtain ⟨c, ts, hcts, hc⟩ := ht.cons
  obtain ⟨d, ps, hdps, hd⟩ := hp.cons
  show sscanf ((method ++ 32 :: (target ++ 32 :: (protocol ++ 13 :: _))).take k ++ _) = _
  rw [sscanf, scanUntil_take_zeros hm.unstopped_space (.inr List.mem_cons_self), Option.bind_some]
  dsimp only
  rw [if_neg hne, hcts, List.cons_append, skipSpaces_take_zeros hc, Option.bind_some, ← List.cons_append, ← hcts,
    scanUntil_take_zeros ht.unstopped_space (.inr List.mem_cons_self), Option.bind_some]
  dsimp only
  by_cases hempty : target.take (k - method.length - 1) = []
  · have hzero : k - method.length - 1 = 0 := by
      rw [List.take_eq_nil_iff] at hempty
      exact hempty.resolve_right ht.nonempty
    rw [if_pos hempty, hempty, hzero, Nat.zero_sub, Nat.zero_sub, List.take_zero]
  · rw [if_neg hempty, hdps, List.cons_append, skipSpaces_take_zeros hd, Option.bind_some, ← List.cons_append, ← hdps,
      scanUntil_take_zeros hp.unstopped_line (.inr (by decide))]
    rfl

/-- A buffer that the first bytes of a request fill. -/
theorem sscanf_take (m : Message) {k : Nat} :
    sscanf (m.bytes.take k) = if m.lineLength ≤ k then some ⟨m.method, m.target, m.protocol⟩ else none := by
  obtain ⟨method, target, protocol, headers, hm, ht, hp, -⟩ := m
  obtain ⟨c, ts, hcts, hc⟩ := ht.cons
  obtain ⟨d, ps, hdps, hd⟩ := hp.cons
  show sscanf ((method ++ 32 :: (target ++ 32 :: (protocol ++ 13 :: _))).take k) =
    if method.length + target.length + protocol.length + 3 ≤ k then _ else _
  rw [sscanf, scanUntil_take hm.unstopped_space (.inr List.mem_cons_self)]
  by_cases h1 : method.length < k
  swap
  · rw [if_neg h1, if_neg (by omega)]
    rfl
  obtain ⟨j, hj⟩ : ∃ j, k - method.length = j + 1 := ⟨k - method.length - 1, by omega⟩
  rw [if_pos h1, Option.bind_some]
  dsimp only
  rw [if_neg hm.nonempty, hj, hcts, List.cons_append, skipSpaces_take hc]
  by_cases h2 : 0 < j
  swap
  · rw [if_neg h2, if_neg (by omega)]
    rfl
  rw [if_pos h2, Option.bind_some, ← List.cons_append, ← hcts,
    scanUntil_take ht.unstopped_space (.inr List.mem_cons_self)]
  by_cases h3 : target.length < j
  swap
  · rw [if_neg h3, if_neg (by omega)]
    rfl
  obtain ⟨i, hi⟩ : ∃ i, j - target.length = i + 1 := ⟨j - target.length - 1, by omega⟩
  rw [if_pos h3, Option.bind_some]
  dsimp only
  rw [if_neg ht.nonempty, hi, hdps, List.cons_append, skipSpaces_take hd]
  by_cases h4 : 0 < i
  swap
  · rw [if_neg h4, if_neg (by rw [← hdps]; omega)]
    rfl
  rw [if_pos h4, Option.bind_some, ← List.cons_append, ← hdps, scanUntil_take hp.unstopped_line (.inr (by decide))]
  by_cases h5 : protocol.length < i
  · rw [if_pos h5, if_pos (by omega)]
    rfl
  · rw [if_neg h5, if_neg (by omega)]
    rfl

/-- The first `recv` reads the request off the stream: it delivers the method; of a GET it delivers as
much of the target as names the path; and what it delivers does not fill the buffer before the end of
the request line. -/
structure Message.ReadsLine (m : Message) (k : Nat) : Prop where
  method : m.method.length ≤ k
  path : strcasecmpEq m.method (str "get") = true →
    requestPath (m.target.take (k - m.method.length - 1)) = requestPath m.target
  inside : k < bufSize ∨ m.lineLength ≤ k

theorem request_take (m : Message) {k : Nat} (hk : 0 < k) (hsize : k ≤ bufSize) (hlen : k ≤ m.bytes.length) :
    request (m.bytes.take k) = some m.request ↔ m.ReadsLine k := by
  rw [request, List.length_take, Nat.min_eq_left hlen]
  rcases Nat.lt_or_ge k bufSize with hroom | hfull
  · obtain ⟨z, hz⟩ : ∃ z, bufSize - k = z + 1 := ⟨bufSize - k - 1, by omega⟩
    rw [hz, sscanf_take_zeros m hk, Option.map_some, Option.some.injEq, Message.request, RequestLine.request,
      RequestLine.request, Request.mk.injEq, List.take_eq_self_iff]
    constructor
    · rintro ⟨hmethod, hpath⟩
      refine ⟨hmethod, fun hget => ?_, .inl hroom⟩
      rw [List.take_of_length_le hmethod, if_pos hget, if_pos hget] at hpath
      exact Option.some.inj hpath
    · rintro ⟨hmethod, hpath, -⟩
      refine ⟨hmethod, ?_⟩
      rw [List.take_of_length_le hmethod]
      by_cases hget : strcasecmpEq m.method (str "get") = true
      · rw [if_pos hget, if_pos hget, hpath hget]
      · rw [if_neg hget, if_neg hget]
  · obtain rfl : k = bufSize := le_antisymm hsize hfull
    rw [Nat.sub_self, List.replicate_zero, List.append_nil, sscanf_take]
    split
    · rename_i hline
      refine iff_of_true rfl ⟨?_, fun _ => ?_, .inr hline⟩
      · unfold Message.lineLength at hline
        omega
      · rw [List.take_of_length_le]
        unfold Message.lineLength at hline
        omega
    · rename_i hline
      refine iff_of_false (by simp) fun h => ?_
      exact h.inside.elim (lt_irrefl _) hline

/-! ## Cuts -/

variable {s : List UInt8}

/-- The number of bytes that the first `recv` delivers. -/
def Cut.firstLength (cut : Cut s) : Nat := (cut.arrivals.head?.map fun a => a.first.length).getD 0

/-- The first `recv` delivers the beginning of the stream. -/
theorem Cut.first_eq (cut : Cut s) {a : Arrival} {rest : List Arrival} (h : cut.arrivals = a :: rest) :
    a.first = s.take a.first.length ∧ a.first.length ≤ s.length := by
  have hwhole := cut.whole
  rw [h, List.flatMap_cons, List.append_assoc] at hwhole
  rw [← hwhole]
  refine ⟨List.take_left.symm, ?_⟩
  rw [List.length_append]
  omega

/-- The calls for a connection find one request, `req`: the first `recv` delivers it, and then it is
answered or nothing more arrives. -/
theorem processHttpRequests_eq_singleton {fs : FileSystem} {a : Arrival} {rest : List Arrival} {req : Request} :
    processHttpRequests fs (a :: rest) = [some req] ↔
    request a.first = some req ∧ (answers fs req = true ∨ rest = []) := by
  have hnil : ∀ {as}, processHttpRequests fs as = [] ↔ as = [] := by
    intro as
    cases as with
    | nil => exact iff_of_true rfl rfl
    | cons b bs =>
      refine iff_of_false ?_ (List.cons_ne_nil b bs)
      rw [processHttpRequests]
      split <;> exact List.cons_ne_nil _ _
  rw [processHttpRequests]
  split
  · rename_i hreq
    rw [hreq]
    simp
  · rename_i req' hreq
    rw [hreq, List.cons_eq_cons]
    refine and_congr_right fun he => ?_
    obtain rfl := Option.some.inj he
    split
    · rename_i hans
      exact iff_of_true rfl (.inl hans)
    · rename_i hans
      rw [hnil, or_iff_right hans]

/-- Byte by byte. -/
def bytewise (b : UInt8) (s : List UInt8) : Arrival := ⟨[b], s.map fun c => [c]⟩

theorem bytewise_delivers (b : UInt8) (s : List UInt8) :
    (bytewise b s).first ++ (bytewise b s).discarded.flatten = b :: s := by
  show [b] ++ (s.map fun c => [c]).flatten = b :: s
  rw [← List.flatMap_def, List.flatMap_singleton']
  rfl

/-- A stream cut into calls that get it byte by byte. -/
def Cut.bytewise (parts : List (UInt8 × List UInt8)) (h : (parts.flatMap fun p => p.1 :: p.2) = s) : Cut s where
  arrivals := parts.map fun p => Epoll.bytewise p.1 p.2
  first_size := by
    intro a ha
    obtain ⟨p, -, rfl⟩ := List.mem_map.1 ha
    exact ⟨List.cons_ne_nil _ _, by show 1 ≤ bufSize; decide⟩
  discarded_size := by
    intro a ha d hd
    obtain ⟨p, -, rfl⟩ := List.mem_map.1 ha
    obtain ⟨c, -, rfl⟩ := List.mem_map.1 hd
    exact ⟨List.cons_ne_nil _ _, by show 1 ≤ 1024; decide⟩
  whole := by
    rw [List.flatMap_map, ← h]
    exact congrArg (fun f => parts.flatMap f) (funext fun p => bytewise_delivers p.1 p.2)

/-- The first byte of a request is a request that is not answered. -/
theorem request_first_byte (fs : FileSystem) (m : Message) :
    ∃ req, request (m.bytes.take 1) = some req ∧ answers fs req = false := by
  have hlen : (m.bytes.take 1).length = 1 := by
    rw [List.length_take, Message.bytes, List.length_append, List.length_cons]
    omega
  have hget : strcasecmpEq (m.method.take 1) (str "get") = false := by
    rw [strcasecmpEq, beq_eq_false_iff_ne]
    intro he
    have hcard := congrArg List.length he
    rw [List.length_map, List.length_map, List.length_take] at hcard
    have h3 : (str "get").length = 3 := rfl
    omega
  have hreq : request (m.bytes.take 1) =
      (sscanf (m.bytes.take 1 ++ List.replicate (254 + 1) 0)).map RequestLine.request := by
    rw [request, hlen]
    rfl
  rw [sscanf_take_zeros m Nat.one_pos, Option.map_some] at hreq
  refine ⟨_, hreq, ?_⟩
  rw [answers, RequestLine.request, hget, if_neg Bool.false_ne_true]

/-- A way of cutting a request stream is read as the request exactly when the first `recv` reads it off,
and it is answered or arrives as one; and no request stream is read in the same way for all ways of
cutting it. -/
theorem oneRequest_exact (fs : FileSystem) (m : Message) :
    (∀ cut : Cut m.bytes, processHttpRequests fs cut.arrivals = [some m.request] ↔
      m.ReadsLine cut.firstLength ∧ (answers fs m.request = true ∨ cut.arrivals.length = 1)) ∧
    ∃ cut cut' : Cut m.bytes, processHttpRequests fs cut.arrivals ≠ processHttpRequests fs cut'.arrivals := by
  have hbytes : ∃ b c s, m.bytes = b :: c :: s := by
    obtain ⟨b, method, hb, -⟩ := m.method_token.cons
    rw [Message.bytes, hb]
    cases method with
    | nil => exact ⟨b, 32, _, rfl⟩
    | cons c method => exact ⟨b, c, _, rfl⟩
  constructor
  · intro cut
    cases harr : cut.arrivals with
    | nil =>
      obtain ⟨b, c, s, hb⟩ := hbytes
      have hwhole := cut.whole
      rw [harr, hb] at hwhole
      cases hwhole
    | cons a rest =>
      obtain ⟨hfirst, hlen⟩ := cut.first_eq harr
      obtain ⟨hne, hsize⟩ := cut.first_size a (harr ▸ List.mem_cons_self)
      have hk : cut.firstLength = a.first.length := by
        rw [Cut.firstLength, harr]
        rfl
      rw [processHttpRequests_eq_singleton, hfirst, request_take m (List.length_pos_iff.2 hne) hsize hlen, hk,
        List.length_cons, Nat.add_eq_right, List.length_eq_zero_iff]
  · -- the whole stream in one call, and the rest of it in a second one
    obtain ⟨b, c, s, hb⟩ := hbytes
    obtain ⟨req, hreq, hans⟩ := request_first_byte fs m
    rw [hb] at hreq
    refine ⟨.bytewise [(b, c :: s)] (by simp [hb]), .bytewise [(b, []), (c, s)] (by simp [hb]), fun heq => ?_⟩
    have hone : processHttpRequests fs [bytewise b (c :: s)] = [some req] :=
      processHttpRequests_eq_singleton.2 ⟨hreq, .inr rfl⟩
    have htwo : processHttpRequests fs [bytewise b [], bytewise c s] = [some req] := heq.symm.trans hone
    rcases (processHttpRequests_eq_singleton.1 htwo).2 with h | h
    · rw [hans] at h
      cases h
    · cases h

/-! ## A request for a page -/

/-- `GET /a HTTP/1.1` with one header. -/
def getA : Message where
  method := str "GET"
  target := str "/a"
  protocol := str "HTTP/1.1"
  headers := [str "Host: h"]
  method_token := .of_all (by decide) (by decide)
  target_token := .of_all (by decide) (by decide)
  protocol_token := .of_all (by decide) (by decide)
  header_lines := by decide

def atOnce : Cut getA.bytes where
  arrivals := [⟨getA.bytes, []⟩]
  first_size := by decide
  discarded_size := by decide
  whole := by decide

/-- All but the first byte comes with a second event. -/
def inTwo : Cut getA.bytes where
  arrivals := [⟨getA.bytes.take 1, []⟩, ⟨getA.bytes.drop 1, []⟩]
  first_size := by decide
  discarded_size := by decide
  whole := by decide

/-- Cut behind its first byte the request is taken for two, and for no GET. -/
theorem late_segment_is_request : ¬ ∀ (fs : FileSystem) (m : Message) (cut cut' : Cut m.bytes),
    processHttpRequests fs cut.arrivals = processHttpRequests fs cut'.arrivals := by
  intro h
  have heq := h ⟨fun _ => none, fun _ => none, fun _ => none⟩ getA atOnce inTwo
  have hne : processHttpRequests ⟨fun _ => none, fun _ => none, fun _ => none⟩ atOnce.arrivals ≠
      processHttpRequests ⟨fun _ => none, fun _ => none, fun _ => none⟩ inTwo.arrivals := by decide +kernel
  exact hne heq

end LinuxProgram.Web.Epoll
