/-
  FsBridge.Bridge.EslFraming

  The messages of the event socket on the wire (bridge/esl.go, `readESLMessage`
  and `readFull`): header lines, a blank line, and as many bytes of body as
  `Content-Length` announces.

  The round trip goes from one header line to the block of headers, from there to
  one message, and by induction to a list of messages; what follows on the stream
  is arbitrary throughout, so that no step depends on where the stream is cut.
-/

import Mathlib.Algebra.Group.Int.Defs
import Mathlib.Algebra.Group.Nat.Defs
import FsBridge.Bridge.Esl
import FsBridge.Lib.Decimal
import FsBridge.Lib.Framing
import FsBridge.Lib.Reader

namespace FsBridge.Bridge

open FsBridge.Lib

-- ============================================================================
-- Reading
-- ============================================================================

/-- The errors of `readESLMessage`; `panic` is `make` with a negative length. -/
inductive ReadError where
  | conn
  | badContentLength (cl : Bytes)
  | panic
deriving DecidableEq, Repr

/-- `strings.TrimRight(line, "\r\n")`. -/
def trimLineEnd (line : Bytes) : Bytes :=
  (line.reverse.dropWhile fun c => c = cr ∨ c = lf).reverse

/-- `strings.Cut(line, ": ")`. -/
def cutColonSpace : Bytes → Option (Bytes × Bytes)
  | [] => none
  | c :: s =>
      if ascii ": " <+: c :: s then some ([], s.tail)
      else (cutColonSpace s).map fun kv => (c :: kv.1, kv.2)

/-- `msg.headers[k] = v`. -/
def setHeader (headers : List (Bytes × Bytes)) (k v : Bytes) : List (Bytes × Bytes) :=
  (headers.filter fun h => h.1 ≠ k) ++ [(k, v)]

/-- What a line that is not blank does to the headers. -/
def headerLine (headers : List (Bytes × Bytes)) (line : Bytes) : List (Bytes × Bytes) :=
  match cutColonSpace line with
  | some (k, v) => setHeader headers k v
  -- bare command lines like "auth/request"
  | none => setHeader headers (ascii "Content-Type") line

theorem readString_lt {delim : UInt8} {r r' : Reader} {line : Bytes}
    (h : r.readString delim = some (line, r')) : r'.bytes.length < r.bytes.length := by
  obtain ⟨hbytes, hline⟩ := Reader.readString_some h
  have hpos : 0 < line.length := List.length_pos_of_ne_nil hline
  rw [hbytes, List.length_append]
  omega

/-- The lines up to the blank one. -/
def readHeaders (headers : List (Bytes × Bytes)) (r : Reader) :
    Except ReadError (List (Bytes × Bytes) × Reader) :=
  match _hline : r.readString lf with
  | none => .error .conn
  | some (line, r') =>
      if trimLineEnd line = [] then .ok (headers, r')
      else readHeaders (headerLine headers (trimLineEnd line)) r'
termination_by r.bytes.length
decreasing_by exact readString_lt _hline

theorem read_lt {r r' : Reader} {n : Nat} {chunk : Bytes} (hn : n ≠ 0)
    (h : r.read n = some (chunk, r')) : n - chunk.length < n := by
  obtain ⟨-, hle, hne⟩ := Reader.read_some h
  have hpos : 0 < chunk.length := List.length_pos_of_ne_nil (hne (by omega))
  omega

/-- `readFull` into a buffer of `n` bytes. -/
def EslMessage.readFull (r : Reader) (n : Nat) : Option (Bytes × Reader) :=
  if _hn : n = 0 then some ([], r)
  else
    match _hread : r.read n with
    | none => none
    | some (chunk, r') =>
        (EslMessage.readFull r' (n - chunk.length)).map fun p => (chunk ++ p.1, p.2)
termination_by n
decreasing_by exact read_lt _hn _hread

/-- `strconv.Atoi`. -/
def atoi (s : Bytes) : Option Int :=
  (Decimal.parse s).filter fun n => -2 ^ 63 ≤ n ∧ n < 2 ^ 63

/-- The body, after the headers. -/
def readBody (headers : List (Bytes × Bytes)) (r : Reader) :
    Except ReadError (EslMessage × Reader) :=
  match headers.lookup (ascii "Content-Length") with
  | none => .ok (⟨headers, []⟩, r)
  | some cl =>
      match atoi (trimSpace cl) with
      | none => .error (.badContentLength cl)
      | some n =>
          if n < 0 then .error .panic
          else
            match EslMessage.readFull r n.toNat with
            | none => .error .conn
            | some (body, r') => .ok (⟨headers, body⟩, r')

/-- `readESLMessage`. -/
def readESLMessage (r : Reader) : Except ReadError (EslMessage × Reader) :=
  match readHeaders [] r with
  | .error err => .error err
  | .ok (headers, r') => readBody headers r'

/-- `n` calls of `readESLMessage`. -/
def readMessages : Nat → Reader → Except ReadError (List EslMessage × Reader)
  | 0, r => .ok ([], r)
  | n + 1, r =>
      match readESLMessage r with
      | .error err => .error err
      | .ok (msg, r') => (readMessages n r').map fun p => (msg :: p.1, p.2)

-- ============================================================================
-- Encoding
-- ============================================================================

def encodeHeader (h : Bytes × Bytes) : Bytes := h.1 ++ ascii ": " ++ h.2 ++ [lf]

/-- A message as FreeSWITCH sends it. -/
def encode (msg : EslMessage) : Bytes := msg.headers.flatMap encodeHeader ++ [lf] ++ msg.body

/-- The key and the value make a header line. -/
structure HeaderLine (h : Bytes × Bytes) : Prop where
  key_lf : lf ∉ h.1
  key_colon : ¬ ascii ": " <:+: h.1
  value_lf : lf ∉ h.2
  value_cr : h.2.getLast? ≠ some cr

/-- The headers are lines with different keys, and announce the body, if there is
    one. -/
structure Framed (msg : EslMessage) : Prop where
  keys_nodup : (msg.headers.map Prod.fst).Nodup
  lines : ∀ h ∈ msg.headers, HeaderLine h
  body : ∀ cl, msg.headers.lookup (ascii "Content-Length") = some cl →
    atoi (trimSpace cl) = some (msg.body.length : Int)
  no_body : msg.headers.lookup (ascii "Content-Length") = none → msg.body = []

-- ============================================================================
-- One header line
-- ============================================================================

theorem trimLineEnd_lf (line : Bytes) : trimLineEnd (line ++ [lf]) = trimLineEnd line := by
  simp [trimLineEnd]

/-- A line that ends neither in a carriage return nor in a newline is left alone. -/
theorem trimLineEnd_eq {line : Bytes} (h : ∀ c, line.getLast? = some c → c ≠ cr ∧ c ≠ lf) :
    trimLineEnd line = line := by
  rcases List.eq_nil_or_concat line with rfl | ⟨front, c, rfl⟩
  · rfl
  · obtain ⟨hcr, hlf⟩ := h c (by simp)
    simp [trimLineEnd, hcr, hlf]

theorem headerLine_getLast {h : Bytes × Bytes} (hline : HeaderLine h) :
    ∀ c, (h.1 ++ ascii ": " ++ h.2).getLast? = some c → c ≠ cr ∧ c ≠ lf := by
  intro c hc
  by_cases hv : h.2 = []
  · rw [hv, List.append_nil, List.getLast?_append_of_ne_nil _ (by decide)] at hc
    cases hc
    decide
  · rw [List.getLast?_append_of_ne_nil _ hv] at hc
    refine ⟨?_, ?_⟩
    · rintro rfl
      exact hline.value_cr hc
    · rintro rfl
      exact hline.value_lf (List.mem_of_getLast? hc)

/-- The first `": "` of a header line is the one behind the key. -/
theorem cutColonSpace_append {k : Bytes} (h : ¬ ascii ": " <:+: k) (v : Bytes) :
    cutColonSpace (k ++ ascii ": " ++ v) = some (k, v) := by
  induction k with
  | nil => rfl
  | cons c k ih =>
      have hrest : ¬ ascii ": " <:+: k := fun hk => h (hk.trans (List.suffix_cons c k).isInfix)
      have hfirst : ¬ ascii ": " <+: c :: (k ++ ascii ": " ++ v) := by
        cases k with
        | nil =>
            rintro ⟨t, ht⟩
            -- the byte behind the key is a colon and no space
            have hspace := (List.cons.inj (List.cons.inj ht).2).1
            exact absurd hspace (by decide)
        | cons d k =>
            rintro ⟨t, ht⟩
            obtain ⟨rfl, ht'⟩ := List.cons.inj ht
            obtain ⟨rfl, -⟩ := List.cons.inj ht'
            exact h (List.IsPrefix.isInfix ⟨k, rfl⟩)
      rw [List.cons_append, List.cons_append, cutColonSpace, if_neg hfirst, ih hrest]
      rfl

theorem setHeader_of_new {headers : List (Bytes × Bytes)} {k v : Bytes}
    (h : k ∉ headers.map Prod.fst) : setHeader headers k v = headers ++ [(k, v)] := by
  have hall : (headers.filter fun h => h.1 ≠ k) = headers := by
    rw [List.filter_eq_self]
    intro a ha
    have hne : a.1 ≠ k := fun heq => h (heq ▸ List.mem_map_of_mem ha)
    simpa using hne
  rw [setHeader, hall]

/-- A header line adds its header, if it is new. -/
theorem headerLine_encode {headers : List (Bytes × Bytes)} {h : Bytes × Bytes}
    (hline : HeaderLine h) (hnew : h.1 ∉ headers.map Prod.fst) :
    trimLineEnd (h.1 ++ ascii ": " ++ h.2) = h.1 ++ ascii ": " ++ h.2 ∧
      headerLine headers (h.1 ++ ascii ": " ++ h.2) = headers ++ [h] := by
  refine ⟨?_, ?_⟩
  · exact trimLineEnd_eq (headerLine_getLast hline)
  · rw [headerLine, cutColonSpace_append hline.key_colon]
    exact setHeader_of_new hnew

-- ============================================================================
-- The headers of a message
-- ============================================================================

theorem not_mem_line {h : Bytes × Bytes} (hline : HeaderLine h) :
    lf ∉ h.1 ++ ascii ": " ++ h.2 := by
  rw [List.mem_append, List.mem_append]
  rintro ((hk | hsep) | hv)
  · exact hline.key_lf hk
  · exact absurd hsep (by decide)
  · exact hline.value_lf hv

/-- One line of the headers, however it arrives. -/
theorem readHeaders_line (headers : List (Bytes × Bytes)) {front rest : Bytes} {r : Reader}
    (hbytes : r.bytes = front ++ lf :: rest) (hfront : lf ∉ front) :
    ∃ q, q.bytes = rest ∧ readHeaders headers r =
      if trimLineEnd front = [] then .ok (headers, q)
      else readHeaders (headerLine headers (trimLineEnd front)) q := by
  obtain ⟨q, hread, hrest⟩ := Reader.readString_bytes hbytes hfront
  refine ⟨q, hrest, ?_⟩
  rw [readHeaders]
  split
  · rename_i hnone
    cases hread.symm.trans hnone
  · rename_i line q' hsome
    obtain ⟨rfl, rfl⟩ := Prod.mk.inj (Option.some.inj (hread.symm.trans hsome))
    rw [trimLineEnd_lf]

theorem readHeaders_encode (headers : List (Bytes × Bytes)) {more : List (Bytes × Bytes)}
    {rest : Bytes} {r : Reader} (hlines : ∀ h ∈ more, HeaderLine h)
    (hnodup : ((headers ++ more).map Prod.fst).Nodup)
    (hr : r.bytes = more.flatMap encodeHeader ++ [lf] ++ rest) :
    ∃ r', readHeaders headers r = .ok (headers ++ more, r') ∧ r'.bytes = rest := by
  induction more generalizing headers r with
  | nil =>
      have hblank : r.bytes = [] ++ lf :: rest := hr
      obtain ⟨q, hrest, hread⟩ := readHeaders_line headers hblank List.not_mem_nil
      have hempty : trimLineEnd [] = [] := rfl
      rw [if_pos hempty] at hread
      exact ⟨q, by rw [hread, List.append_nil], hrest⟩
  | cons h more ih =>
      have hline : HeaderLine h := hlines h List.mem_cons_self
      have hnew : h.1 ∉ headers.map Prod.fst := by
        rw [List.map_append, List.map_cons, List.nodup_append] at hnodup
        exact fun hmem => hnodup.2.2 _ hmem _ List.mem_cons_self rfl
      obtain ⟨htrim, hadd⟩ := headerLine_encode hline hnew
      have hfirst : r.bytes = (h.1 ++ ascii ": " ++ h.2) ++
          lf :: (more.flatMap encodeHeader ++ [lf] ++ rest) := by
        rw [hr, List.flatMap_cons, encodeHeader]
        simp
      obtain ⟨q, hq, hread⟩ := readHeaders_line headers hfirst (not_mem_line hline)
      have hassoc : headers ++ [h] ++ more = headers ++ h :: more := by simp
      obtain ⟨r', hrest, hbytes⟩ := ih (headers ++ [h])
        (fun x hx => hlines x (List.mem_cons_of_mem _ hx)) (by rwa [hassoc]) hq
      have hne : h.1 ++ ascii ": " ++ h.2 ≠ [] := by simp [ascii]
      rw [htrim, if_neg hne, hadd, hrest, hassoc] at hread
      exact ⟨r', hread, hbytes⟩

-- ============================================================================
-- The body
-- ============================================================================

theorem EslMessage.readFull_bytes {body rest : Bytes} {r : Reader} (hr : r.bytes = body ++ rest) :
    ∃ r', EslMessage.readFull r body.length = some (body, r') ∧ r'.bytes = rest := by
  generalize hn : body.length = n
  induction n using Nat.strongRecOn generalizing body r with
  | ind n ih =>
      rw [EslMessage.readFull]
      by_cases hzero : n = 0
      · obtain rfl : body = [] := List.length_eq_zero_iff.mp (hn.trans hzero)
        rw [dif_pos hzero]
        exact ⟨r, rfl, hr⟩
      · rw [dif_neg hzero]
        have hne : r.bytes ≠ [] := by
          rw [hr]
          intro hnil
          rw [(List.append_eq_nil_iff.mp hnil).1] at hn
          exact hzero hn.symm
        split
        · rename_i hnone
          have hsome := Reader.read_isSome n hne
          rw [hnone] at hsome
          exact absurd hsome (by simp)
        · rename_i chunk q hread
          obtain ⟨hbytes, hle, -⟩ := Reader.read_some hread
          -- the chunk is the front of the body
          have hchunk : chunk = body.take chunk.length := by
            have htake : (chunk ++ q.bytes).take chunk.length = chunk := List.take_left
            rw [← hbytes, hr, List.take_append_of_le_length (by omega)] at htake
            exact htake.symm
          have hq : q.bytes = body.drop chunk.length ++ rest := by
            have hdrop : (chunk ++ q.bytes).drop chunk.length = q.bytes := List.drop_left
            rw [← hbytes, hr, List.drop_append_of_le_length (by omega)] at hdrop
            exact hdrop.symm
          have hlen : (body.drop chunk.length).length = n - chunk.length := by
            rw [List.length_drop, hn]
          obtain ⟨r', hrec, hrest⟩ := ih (n - chunk.length) (read_lt hzero hread) hq hlen
          refine ⟨r', ?_, hrest⟩
          rw [hrec, Option.map_some, hchunk, List.length_take, Nat.min_eq_left (by omega),
            List.take_append_drop]

theorem readBody_encode {msg : EslMessage} (hmsg : Framed msg) {rest : Bytes} {r : Reader}
    (hr : r.bytes = msg.body ++ rest) :
    ∃ r', readBody msg.headers r = .ok (msg, r') ∧ r'.bytes = rest := by
  cases hcl : msg.headers.lookup (ascii "Content-Length") with
  | none =>
      refine ⟨r, ?_, ?_⟩
      · rw [readBody, hcl, ← hmsg.no_body hcl]
      · rw [hr, hmsg.no_body hcl, List.nil_append]
  | some cl =>
      obtain ⟨r', hread, hrest⟩ := EslMessage.readFull_bytes hr
      refine ⟨r', ?_, hrest⟩
      have hneg : ¬ (msg.body.length : Int) < 0 := by omega
      rw [readBody, hcl]
      dsimp only
      rw [hmsg.body cl hcl]
      dsimp only
      rw [if_neg hneg, Int.toNat_natCast, hread]

-- ============================================================================
-- Content-Length
-- ============================================================================

theorem trimLeftWords_of_digit {set : List Bytes} {s : Bytes} {c : UInt8}
    (hset : ∀ w ∈ set, w.head?.map Decimal.isDigit = some false)
    (hc : Decimal.isDigit c = true) (fuel : Nat) :
    trimLeftWords set fuel (c :: s) = c :: s := by
  have hnone : (set.find? fun w => w.isPrefixOf (c :: s)) = none := by
    rw [List.find?_eq_none]
    intro w hw hpre
    have hhead := hset w hw
    cases w with
    | nil => exact absurd hhead (by simp)
    | cons d w =>
        obtain ⟨t, ht⟩ := List.isPrefixOf_iff_prefix.mp hpre
        obtain ⟨rfl, -⟩ := List.cons.inj ht
        rw [List.head?_cons, Option.map_some, hc] at hhead
        exact absurd hhead (by decide)
  cases fuel with
  | zero => rfl
  | succ fuel => rw [trimLeftWords, hnone]

theorem trimSpace_natDigits (n : Nat) : trimSpace (Decimal.natDigits n) = Decimal.natDigits n := by
  have hdigits := Decimal.isDigit_of_mem_natDigits n
  have hne := Decimal.natDigits_ne_nil n
  generalize Decimal.natDigits n = s at hdigits hne
  have hleft : trimLeftWords whiteSpace s.length s = s := by
    cases s with
    | nil => exact absurd rfl hne
    | cons c s =>
        exact trimLeftWords_of_digit (by decide) (hdigits c List.mem_cons_self) _
  have hright : trimLeftWords (whiteSpace.map List.reverse) s.length s.reverse = s.reverse := by
    rcases List.eq_nil_or_concat s with rfl | ⟨front, c, rfl⟩
    · exact absurd rfl hne
    · rw [List.concat_eq_append, List.reverse_append]
      exact trimLeftWords_of_digit (by decide) (hdigits c (by simp)) _
  unfold trimSpace
  dsimp only
  rw [hleft, hright, List.reverse_reverse]

/-- A length in decimal announces that many bytes. -/
theorem atoi_print {n : Nat} (h : n < 2 ^ 63) :
    atoi (trimSpace (Decimal.print n)) = some (n : Int) := by
  have hprint : Decimal.print n = Decimal.natDigits n := by
    rw [Decimal.print, if_neg (by omega), Int.natAbs_natCast]
  have hparse : Decimal.parse (Decimal.natDigits n) = some (n : Int) := by
    rw [← hprint, Decimal.parse_print]
  have hrange : -2 ^ 63 ≤ (n : Int) ∧ (n : Int) < 2 ^ 63 := by omega
  rw [hprint, trimSpace_natDigits, atoi, hparse]
  exact Option.filter_some_pos (decide_eq_true hrange)

/-- The message with the headers and the body, as a sender makes it. -/
def withBody (headers : List (Bytes × Bytes)) (body : Bytes) : EslMessage :=
  ⟨headers ++ [(ascii "Content-Length", Decimal.print body.length)], body⟩

theorem framed_withBody {headers : List (Bytes × Bytes)} {body : Bytes}
    (hnodup : (headers.map Prod.fst).Nodup) (hlines : ∀ h ∈ headers, HeaderLine h)
    (hnew : ascii "Content-Length" ∉ headers.map Prod.fst) (hlen : body.length < 2 ^ 63) :
    Framed (withBody headers body) := by
  have hprint : Decimal.print (body.length : Int) = Decimal.natDigits body.length := by
    rw [Decimal.print, if_neg (by omega), Int.natAbs_natCast]
  have hnone : headers.lookup (ascii "Content-Length") = none := by
    rw [List.lookup_eq_none_iff]
    intro h hh
    have hne : ascii "Content-Length" ≠ h.1 := fun heq => hnew (heq ▸ List.mem_map_of_mem hh)
    simpa using hne
  have hlookup : (withBody headers body).headers.lookup (ascii "Content-Length") =
      some (Decimal.print body.length) := by
    rw [withBody, List.lookup_append, hnone]
    rfl
  refine ⟨?_, fun h hh => ?_, fun cl hcl => ?_, fun hcl => ?_⟩
  · rw [withBody, List.map_append, List.nodup_append]
    refine ⟨hnodup, by simp, fun a ha b hb => ?_⟩
    obtain rfl := List.mem_singleton.mp hb
    rintro rfl
    exact hnew ha
  · rcases List.mem_append.mp hh with hh | hh
    · exact hlines h hh
    · obtain rfl := List.mem_singleton.mp hh
      have hdigits : ∀ c ∈ Decimal.print (body.length : Int), Decimal.isDigit c = true := by
        rw [hprint]
        exact Decimal.isDigit_of_mem_natDigits _
      have hkey : lf ∉ ascii "Content-Length" ∧ ¬ ascii ": " <:+: ascii "Content-Length" := by
        decide +kernel
      refine ⟨hkey.1, hkey.2, fun hmem => ?_, fun hlast => ?_⟩
      · exact absurd (hdigits lf hmem) (by decide)
      · exact absurd (hdigits cr (List.mem_of_getLast? hlast)) (by decide)
  · rw [hlookup] at hcl
    cases hcl
    exact atoi_print hlen
  · rw [hlookup] at hcl
    exact absurd hcl (by simp)

-- ============================================================================
-- Messages
-- ============================================================================

theorem readESLMessage_encode {msg : EslMessage} (hmsg : Framed msg) {rest : Bytes} {r : Reader}
    (hr : r.bytes = encode msg ++ rest) :
    ∃ r', readESLMessage r = .ok (msg, r') ∧ r'.bytes = rest := by
  rw [encode, List.append_assoc] at hr
  obtain ⟨q, hheaders, hq⟩ := readHeaders_encode [] hmsg.lines hmsg.keys_nodup hr
  obtain ⟨r', hbody, hrest⟩ := readBody_encode hmsg hq
  refine ⟨r', ?_, hrest⟩
  rw [readESLMessage, hheaders]
  exact hbody

/-- ESL framing round trip: the messages of a stream come out as they were
    encoded, however the stream arrives, and the reader is left behind the last. -/
theorem readMessages_encode {msgs : List EslMessage} (hmsgs : ∀ msg ∈ msgs, Framed msg)
    {rest : Bytes} {r : Reader} (hr : r.bytes = msgs.flatMap encode ++ rest) :
    ∃ r', readMessages msgs.length r = .ok (msgs, r') ∧ r'.bytes = rest := by
  induction msgs generalizing r with
  | nil => exact ⟨r, rfl, hr⟩
  | cons msg msgs ih =>
      rw [List.flatMap_cons, List.append_assoc] at hr
      obtain ⟨q, hmsg, hq⟩ := readESLMessage_encode (hmsgs msg List.mem_cons_self) hr
      obtain ⟨r', hrest, hbytes⟩ := ih (fun m hm => hmsgs m (List.mem_cons_of_mem _ hm)) hq
      refine ⟨r', ?_, hbytes⟩
      rw [List.length_cons, readMessages, hmsg]
      dsimp only
      rw [hrest]
      rfl

/-- A reply, and behind it a message whose body looks like another reply; the
    stream arrives in two pieces. -/
theorem readMessages_encode_two :
    ∃ r', readMessages 2
        ⟨[], [ascii "Reply-Text: +OK\n\nContent-Type: api/resp",
          ascii "onse\nContent-Length: 11\n\n\n\nReply: no\nnext"], by decide⟩ =
      .ok ([⟨[(ascii "Reply-Text", ascii "+OK")], []⟩,
        withBody [(ascii "Content-Type", ascii "api/response")] (ascii "\n\nReply: no")], r') ∧
      r'.bytes = ascii "\nnext" := by
  have hfirst : Framed ⟨[(ascii "Reply-Text", ascii "+OK")], []⟩ := by
    have hnone : ([(ascii "Reply-Text", ascii "+OK")] : List (Bytes × Bytes)).lookup
        (ascii "Content-Length") = none := by decide
    refine ⟨by decide, fun h hh => ?_, fun cl hcl => ?_, fun _ => rfl⟩
    · obtain rfl := List.mem_singleton.mp hh
      exact ⟨by decide, by decide +kernel, by decide, by decide⟩
    · exact absurd (hnone.symm.trans hcl) (by simp)
  have hsecond : Framed (withBody [(ascii "Content-Type", ascii "api/response")]
      (ascii "\n\nReply: no")) := by
    have hlen : (ascii "\n\nReply: no").length = 11 := by decide
    refine framed_withBody (by decide) (fun h hh => ?_) (by decide) (by omega)
    obtain rfl := List.mem_singleton.mp hh
    exact ⟨by decide, by decide +kernel, by decide, by decide⟩
  have hmsgs : ∀ msg ∈ [⟨[(ascii "Reply-Text", ascii "+OK")], []⟩,
      withBody [(ascii "Content-Type", ascii "api/response")] (ascii "\n\nReply: no")],
      Framed msg := by
    intro msg hmsg
    rcases List.mem_cons.mp hmsg with rfl | hmsg
    · exact hfirst
    · obtain rfl := List.mem_singleton.mp hmsg
      exact hsecond
  exact readMessages_encode hmsgs (by decide)

end FsBridge.Bridge
