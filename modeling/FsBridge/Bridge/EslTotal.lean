/-
  FsBridge.Bridge.EslTotal

  `readESLMessage` on any byte stream (bridge/esl.go): it ends with a message or an
  error, but for the streams whose headers announce a length `make` cannot allocate.

  `limit` is the largest allocation of the Go runtime: `make([]byte, n)` panics above
  it, as it does for a negative length.  Below it the reader is the one of `EslFraming`
  (`readESLMessageWithin_eq`).
-/

import FsBridge.Bridge.EslFraming
import FsBridge.Lib.Json
import FsBridge.Lib.Word

namespace FsBridge.Bridge

open FsBridge.Lib

/-- The body, after the headers. -/
def readBodyWithin (limit : Nat) (headers : List (Bytes × Bytes)) (r : Reader) :
    Except ReadError (EslMessage × Reader) :=
  match headers.lookup (ascii "Content-Length") with
  | none => .ok (⟨headers, []⟩, r)
  | some cl =>
      match atoi (trimSpace cl) with
      | none => .error (.badContentLength cl)
      | some n =>
          if n < 0 ∨ limit < n then .error .panic
          else
            match EslMessage.readFull r n.toNat with
            | none => .error .conn
            | some (body, r') => .ok (⟨headers, body⟩, r')

/-- `readESLMessage`. -/
def readESLMessageWithin (limit : Nat) (r : Reader) : Except ReadError (EslMessage × Reader) :=
  match readHeaders [] r with
  | .error err => .error err
  | .ok (headers, r') => readBodyWithin limit headers r'

/-- Where it does not panic, the limit makes no difference. -/
theorem readESLMessageWithin_eq (limit : Nat) (r : Reader) :
    readESLMessageWithin limit r = readESLMessage r ∨
      readESLMessageWithin limit r = .error .panic := by
  unfold readESLMessageWithin readESLMessage
  cases readHeaders [] r with
  | error err => exact .inl rfl
  | ok p =>
      dsimp only
      unfold readBodyWithin readBody
      cases p.1.lookup (ascii "Content-Length") with
      | none => exact .inl rfl
      | some cl =>
          dsimp only
          cases atoi (trimSpace cl) with
          | none => exact .inl rfl
          | some n =>
              dsimp only
              by_cases h : n < 0 ∨ limit < n
              · rw [if_pos h]
                exact .inr rfl
              · rw [if_neg h, if_neg fun hneg => h (.inl hneg)]
                exact .inl rfl

-- ============================================================================
-- The headers of a stream
-- ============================================================================

/-- The stream begins with these header lines and a blank one. -/
def BeginsWith (s : Bytes) (lines : List Bytes) (rest : Bytes) : Prop :=
  (∀ l ∈ lines, lf ∉ l ∧ trimLineEnd l ≠ []) ∧
    ∃ blank, lf ∉ blank ∧ trimLineEnd blank = [] ∧
      s = lines.flatMap (fun l => l ++ [lf]) ++ blank ++ lf :: rest

/-- The headers the lines make. -/
def headersOf (headers : List (Bytes × Bytes)) (lines : List Bytes) : List (Bytes × Bytes) :=
  lines.foldl (fun hs l => headerLine hs (trimLineEnd l)) headers

theorem readHeaders_error {headers : List (Bytes × Bytes)} {r : Reader} {err : ReadError}
    (h : readHeaders headers r = .error err) : err = .conn := by
  fun_induction readHeaders headers r with
  | case1 headers r hnone =>
      cases h
      rfl
  | case2 headers r line r' hread hblank => cases h
  | case3 headers r line r' hread hblank ih => exact ih h

/-- The reader takes the lines up to the blank one, however the stream arrives. -/
theorem readHeaders_of_beginsWith (headers : List (Bytes × Bytes)) {lines : List Bytes}
    {rest : Bytes} {r : Reader} (h : BeginsWith r.bytes lines rest) :
    ∃ r', readHeaders headers r = .ok (headersOf headers lines, r') ∧ r'.bytes = rest := by
  obtain ⟨hlines, blank, hlf, htrim, hbytes⟩ := h
  induction lines generalizing headers r with
  | nil =>
      rw [List.flatMap_nil, List.nil_append] at hbytes
      obtain ⟨q, hrest, hread⟩ := readHeaders_line headers hbytes hlf
      rw [if_pos htrim] at hread
      exact ⟨q, hread, hrest⟩
  | cons l lines ih =>
      obtain ⟨hl, hne⟩ := hlines l List.mem_cons_self
      have hfirst : r.bytes = l ++ lf :: (lines.flatMap (fun l => l ++ [lf]) ++ blank
          ++ lf :: rest) := by
        rw [hbytes, List.flatMap_cons]
        simp
      obtain ⟨q, hq, hread⟩ := readHeaders_line headers hfirst hl
      obtain ⟨r', hrec, hrest⟩ := ih (headerLine headers (trimLineEnd l))
        (fun x hx => hlines x (List.mem_cons_of_mem l hx)) hq
      rw [if_neg hne, hrec] at hread
      exact ⟨r', hread, hrest⟩

/-- What `ReadString` returns is a line. -/
theorem readString_line {delim : UInt8} {r r' : Reader} {line : Bytes}
    (h : r.readString delim = some (line, r')) : ∃ front, line = front ++ [delim] ∧
      delim ∉ front := by
  fun_induction Reader.readString delim r with
  | case1 r hmem =>
      obtain ⟨front, back, hbuf, hfront⟩ := List.eq_append_cons_of_mem hmem
      obtain ⟨rfl, rfl⟩ := Prod.mk.inj (Option.some.inj h)
      refine ⟨front, ?_, hfront⟩
      rw [hbuf, Query.cut_append_cons hfront]
  | case2 r hmem hfill => cases h
  | case3 r hmem r' hfill ih => exact ih h

/-- Headers that are read are those of the lines the stream begins with. -/
theorem beginsWith_of_readHeaders {headers hs : List (Bytes × Bytes)} {r r' : Reader}
    (h : readHeaders headers r = .ok (hs, r')) :
    ∃ lines, BeginsWith r.bytes lines r'.bytes ∧ hs = headersOf headers lines := by
  fun_induction readHeaders headers r with
  | case1 headers r hnone => cases h
  | case2 headers r line q hread hblank =>
      obtain ⟨rfl, rfl⟩ := Prod.mk.inj (Except.ok.inj h)
      obtain ⟨blank, rfl, hlf⟩ := readString_line hread
      obtain ⟨hbytes, -⟩ := Reader.readString_some hread
      rw [trimLineEnd_lf] at hblank
      refine ⟨[], ⟨by simp, blank, hlf, hblank, ?_⟩, rfl⟩
      rw [hbytes]
      simp
  | case3 headers r line q hread hblank ih =>
      obtain ⟨l, rfl, hlf⟩ := readString_line hread
      obtain ⟨hbytes, -⟩ := Reader.readString_some hread
      obtain ⟨lines, ⟨hlines, blank, hblanklf, htrim, hrest⟩, rfl⟩ := ih h
      rw [trimLineEnd_lf] at hblank
      refine ⟨l :: lines, ⟨?_, blank, hblanklf, htrim, ?_⟩, ?_⟩
      · intro x hx
        rcases List.mem_cons.mp hx with rfl | hx
        · exact ⟨hlf, hblank⟩
        · exact hlines x hx
      · rw [hbytes, hrest, List.flatMap_cons]
        simp
      · rw [trimLineEnd_lf]
        rfl

-- ============================================================================
-- The announced length
-- ============================================================================

/-- The value of a `Content-Length` line. -/
def contentLength (line : Bytes) : Option Bytes :=
  match cutColonSpace (trimLineEnd line) with
  | some (k, v) => if k = ascii "Content-Length" then some v else none
  | none => none

/-- The text of the last one. -/
def lastContentLength (lines : List Bytes) : Option Bytes :=
  (lines.filterMap contentLength).getLast?

theorem lookup_setHeader (headers : List (Bytes × Bytes)) (k v key : Bytes) :
    (setHeader headers k v).lookup key = if key = k then some v else headers.lookup key := by
  rw [setHeader, List.lookup_append]
  by_cases h : key = k
  · have hnone : (headers.filter fun e => e.1 ≠ k).lookup key = none := by
      rw [List.lookup_eq_none_iff]
      intro e he
      have hne : e.1 ≠ k := by simpa using (List.mem_filter.mp he).2
      rw [h]
      simpa using Ne.symm hne
    rw [if_pos h, hnone, h, List.lookup_cons_self]
    rfl
  · have hkey : (key == k) = false := by simpa using h
    rw [if_neg h, Json.StringMap.lookup_filter_ne h, List.lookup_cons, hkey]
    simp

/-- Only such a line sets the header; a bare one sets `Content-Type`. -/
theorem lookup_headerLine (headers : List (Bytes × Bytes)) (line : Bytes) :
    (headerLine headers (trimLineEnd line)).lookup (ascii "Content-Length")
      = (contentLength line).or (headers.lookup (ascii "Content-Length")) := by
  rw [headerLine, contentLength]
  cases cutColonSpace (trimLineEnd line) with
  | none =>
      dsimp only
      rw [lookup_setHeader, if_neg (by decide)]
      rfl
  | some kv =>
      obtain ⟨k, v⟩ := kv
      dsimp only
      rw [lookup_setHeader]
      by_cases h : k = ascii "Content-Length"
      · rw [if_pos h, if_pos h.symm]
        rfl
      · rw [if_neg h, if_neg fun heq => h heq.symm]
        rfl

theorem lookup_headersOf (lines : List Bytes) :
    (headersOf [] lines).lookup (ascii "Content-Length") = lastContentLength lines := by
  induction lines using List.reverseRecOn with
  | nil => rfl
  | append_singleton lines line ih =>
      have hlast : ([line].filterMap contentLength).getLast? = contentLength line := by
        cases h : contentLength line with
        | none => rw [List.filterMap_cons_none h]; rfl
        | some cl => rw [List.filterMap_cons_some h]; rfl
      rw [headersOf] at ih
      rw [headersOf, lastContentLength, List.foldl_append, List.foldl_cons, List.foldl_nil,
        List.filterMap_append, List.getLast?_append, hlast, lookup_headerLine, ih,
        lastContentLength]

/-- The headers announce a length that is negative or above the limit. -/
def AnnouncesTooMuch (limit : Nat) (s : Bytes) : Prop :=
  ∃ lines rest cl n, BeginsWith s lines rest ∧ lastContentLength lines = some cl ∧
    atoi (trimSpace cl) = some n ∧ (n < 0 ∨ limit < n)

theorem readFull_length {r r' : Reader} {n : Nat} {body : Bytes}
    (h : EslMessage.readFull r n = some (body, r')) : body.length = n := by
  fun_induction EslMessage.readFull r n generalizing body r' with
  | case1 r =>
      obtain ⟨rfl, -⟩ := Prod.mk.inj (Option.some.inj h)
      rfl
  | case2 r n hn hread => cases h
  | case3 r n hn chunk q hread ih =>
      obtain ⟨p, hp, heq⟩ := Option.map_eq_some_iff.mp h
      obtain ⟨rfl, rfl⟩ := Prod.mk.inj heq
      obtain ⟨-, hle, -⟩ := Reader.read_some hread
      rw [List.length_append, ih hp]
      omega

/-- The message has the length its headers announce, and no body without one. -/
def BodyAnnounced (msg : EslMessage) : Prop :=
  match msg.headers.lookup (ascii "Content-Length") with
  | none => msg.body = []
  | some cl => atoi (trimSpace cl) = some (msg.body.length : Int)

/-- The reader returns a message with the announced body, or an error. -/
def Total (limit : Nat) (r : Reader) : Prop :=
  match readESLMessageWithin limit r with
  | .error err => err ≠ .panic
  | .ok (msg, _) => BodyAnnounced msg

/-- **The reader is total.**  It panics for the streams that announce a length that cannot
    be allocated, and for no others. -/
theorem total_iff (limit : Nat) (r : Reader) :
    Total limit r ↔ ¬ AnnouncesTooMuch limit r.bytes := by
  rw [Total, readESLMessageWithin]
  cases hheaders : readHeaders [] r with
  | error err =>
      obtain rfl := readHeaders_error hheaders
      refine iff_of_true (fun hno => by cases hno) ?_
      rintro ⟨lines, rest, cl, n, hbegins, -⟩
      obtain ⟨r', hok, -⟩ := readHeaders_of_beginsWith [] hbegins
      cases hheaders.symm.trans hok
  | ok p =>
      obtain ⟨hs, r'⟩ := p
      obtain ⟨lines, hbegins, rfl⟩ := beginsWith_of_readHeaders hheaders
      -- whichever lines the stream is said to begin with, they make the same headers
      have hannounce : AnnouncesTooMuch limit r.bytes ↔ ∃ cl n,
          (headersOf [] lines).lookup (ascii "Content-Length") = some cl ∧
            atoi (trimSpace cl) = some n ∧ (n < 0 ∨ limit < n) := by
        constructor
        · rintro ⟨lines', rest, cl, n, hbegins', hlast, hn⟩
          obtain ⟨q, hok, -⟩ := readHeaders_of_beginsWith [] hbegins'
          obtain ⟨hsame, -⟩ := Prod.mk.inj (Except.ok.inj (hheaders.symm.trans hok))
          refine ⟨cl, n, ?_, hn⟩
          rw [hsame, lookup_headersOf, hlast]
        · rintro ⟨cl, n, hlookup, hn⟩
          exact ⟨lines, r'.bytes, cl, n, hbegins, (lookup_headersOf lines).symm.trans hlookup, hn⟩
      rw [hannounce]
      dsimp only
      rw [readBodyWithin]
      cases hlookup : (headersOf [] lines).lookup (ascii "Content-Length") with
      | none =>
          refine iff_of_true ?_ ?_
          · show BodyAnnounced ⟨headersOf [] lines, []⟩
            rw [BodyAnnounced, hlookup]
          · rintro ⟨cl, n, hno, -⟩
            cases hno
      | some cl =>
          dsimp only
          cases hatoi : atoi (trimSpace cl) with
          | none =>
              refine iff_of_true (by simp) ?_
              rintro ⟨cl', n, hcl, hno, -⟩
              obtain rfl := Option.some.inj hcl
              cases hatoi.symm.trans hno
          | some n =>
              dsimp only
              by_cases hrange : n < 0 ∨ limit < n
              · rw [if_pos hrange]
                refine iff_of_false (fun hne => hne rfl) (not_not_intro ⟨cl, n, rfl, hatoi, hrange⟩)
              · rw [if_neg hrange]
                refine iff_of_true ?_ ?_
                · cases hbody : EslMessage.readFull r' n.toNat with
                  | none => simp
                  | some p =>
                      show BodyAnnounced ⟨headersOf [] lines, p.1⟩
                      rw [BodyAnnounced, hlookup]
                      show atoi (trimSpace cl) = some (p.1.length : Int)
                      rw [hatoi, readFull_length hbody, Int.toNat_of_nonneg (by omega)]
                · rintro ⟨cl', n', hcl, hn', hrange'⟩
                  obtain rfl := Option.some.inj hcl
                  obtain rfl := Option.some.inj (hatoi.symm.trans hn')
                  exact hrange hrange'

/-- `Content-Length: -1` and a blank line. -/
def negativeLength : Reader := ⟨ascii "Content-Length: -1\n\n", [], by simp⟩

theorem negative_length_panics : ¬ Total Word.maxAlloc negativeLength := by
  have hbegins : BeginsWith negativeLength.bytes [ascii "Content-Length: -1"] [] := by
    refine ⟨?_, [], List.not_mem_nil, rfl, by decide⟩
    intro l hl
    rw [List.mem_singleton.mp hl]
    exact ⟨by decide, by decide⟩
  obtain ⟨r', hheaders, -⟩ := readHeaders_of_beginsWith [] hbegins
  have hlookup : (headersOf [] [ascii "Content-Length: -1"]).lookup (ascii "Content-Length")
      = some (ascii "-1") := by decide +kernel
  have hatoi : atoi (trimSpace (ascii "-1")) = some (-1) := by decide +kernel
  rw [Total, readESLMessageWithin, hheaders]
  dsimp only
  rw [readBodyWithin, hlookup]
  dsimp only
  rw [hatoi]
  dsimp only
  rw [if_pos (.inl (by decide))]
  exact fun hne => hne rfl

end FsBridge.Bridge
