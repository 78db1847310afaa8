/-
  FsBridge.Module.UriGrammar

  The URLs `validate_ws_uri` accepts (module/ws_bridge_glue.cpp), and the copy it makes
  of them in the `wsUri[MAX_WS_URI]` of the start command.
-/

import FsBridge.Module.Handshake
import FsBridge.Module.Utf8Check

namespace FsBridge.Module.UriGrammar

open FsBridge.Lib
open FsBridge.Lib.Decimal (isDigit)
open FsBridge.Module.Handshake (afterScheme_scheme eq_scheme_of_afterScheme scheme)
open FsBridge.Module.StreamUri
open FsBridge.Module.Utf8Check (CString)

/-- `strncpy(dest, src, n)`: what `dest` holds. -/
def strncpy (src : Bytes) (n : Nat) : Bytes := (src ++ List.replicate n 0).take n

/-- What `validate_ws_uri` returns, and what it leaves in the buffer. -/
def validateInto (url : CString) (buffer : Bytes) : Int × Bytes :=
  if validateWsUri url.bytes then (1, strncpy url.bytes maxWsUri) else (0, buffer)

-- ============================================================================
-- The grammar
-- ============================================================================

/-- A letter, a digit, a hyphen or a dot. -/
def isHostByte (c : UInt8) : Bool := isAlnum c || c = hyphen || c = dot

/-- Behind the host: nothing, a path, or a port of any digits with nothing or a path. -/
inductive Tail : Bytes → Prop where
  | none : Tail []
  | path (rest : Bytes) : Tail (slash :: rest)
  | port (digits : Bytes) (h : ∀ d ∈ digits, isDigit d) : Tail (colon :: digits)
  | portPath (digits rest : Bytes) (h : ∀ d ∈ digits, isDigit d) :
      Tail (colon :: (digits ++ slash :: rest))

/-- A scheme, a host and what may follow it. -/
def Grammar (url : Bytes) : Prop :=
  ∃ scheme host tail, url = scheme ++ host ++ tail ∧
    (scheme = ascii "ws://" ∨ scheme = ascii "wss://") ∧
    host ≠ [] ∧ (∀ c ∈ host, isHostByte c) ∧ Tail tail

/-- The scanner behind the scheme. -/
def scanHostPort (rest : Bytes) : Bool :=
  let host := rest.takeWhile fun c => c ≠ colon ∧ c ≠ slash
  host.all isHostByte && !host.isEmpty &&
    match rest.drop host.length with
    | [] => true
    | c :: port => c ≠ colon || (port.takeWhile fun d => d ≠ slash).all isDigit

theorem validateWsUri_eq (url : Bytes) :
    validateWsUri url = (afterScheme url).any fun p => scanHostPort p.2 := by
  unfold validateWsUri
  cases afterScheme url with
  | none => rfl
  | some p => rfl

theorem isHostByte_ne {c : UInt8} (h : isHostByte c = true) : c ≠ colon ∧ c ≠ slash := by
  constructor
  · rintro rfl
    exact absurd h (by decide)
  · rintro rfl
    exact absurd h (by decide)

theorem digit_ne_slash {d : UInt8} (h : isDigit d = true) : d ≠ slash := by
  rintro rfl
  exact absurd h (by decide)

/-- The port loop stops at the first slash. -/
theorem portLoop_iff {port : Bytes} :
    (port.takeWhile fun d => d ≠ slash).all isDigit = true ↔ Tail (colon :: port) := by
  constructor
  · intro hall
    rw [List.all_eq_true] at hall
    have hsplit := List.takeWhile_append_dropWhile (p := fun d => decide (d ≠ slash)) (l := port)
    cases hrest : port.dropWhile fun d => d ≠ slash with
    | nil =>
        rw [hrest, List.append_nil] at hsplit
        rw [hsplit] at hall
        exact .port port hall
    | cons d rest =>
        have hd : d = slash := by
          have hstop := List.head?_dropWhile_not (fun d => decide (d ≠ slash)) port
          rw [hrest] at hstop
          simpa using hstop
        rw [hrest, hd] at hsplit
        rw [← hsplit]
        exact .portPath _ rest hall
  · intro htail
    generalize heq : colon :: port = t at htail
    cases htail with
    | none => cases heq
    | path rest => exact absurd (List.cons.inj heq).1 (by decide)
    | port digits hdigits =>
        obtain rfl := (List.cons.inj heq).2
        rw [List.all_eq_true]
        exact fun d hd => hdigits d (List.takeWhile_subset _ hd)
    | portPath digits rest hdigits =>
        obtain rfl := (List.cons.inj heq).2
        rw [List.takeWhile_append_of_pos fun d hd => by simpa using digit_ne_slash (hdigits d hd),
          List.takeWhile_cons_of_neg (by simp), List.append_nil, List.all_eq_true]
        exact hdigits

/-- The host loop stops at the first colon or slash. -/
theorem scanHostPort_iff {rest : Bytes} :
    scanHostPort rest = true ↔ ∃ host tail, rest = host ++ tail ∧ host ≠ [] ∧
      (∀ c ∈ host, isHostByte c) ∧ Tail tail := by
  rw [scanHostPort, Bool.and_eq_true, Bool.and_eq_true, Bool.not_eq_true',
    List.isEmpty_eq_false_iff,
    List.all_eq_true]
  constructor
  · rintro ⟨⟨hhost, hne⟩, hport⟩
    have hsplit := List.takeWhile_append_dropWhile (p := fun c => decide (c ≠ colon ∧ c ≠ slash))
      (l := rest)
    have hdrop : rest.drop (rest.takeWhile fun c => c ≠ colon ∧ c ≠ slash).length
        = rest.dropWhile fun c => c ≠ colon ∧ c ≠ slash := by
      generalize rest.takeWhile (fun c => decide (c ≠ colon ∧ c ≠ slash)) = host at hsplit ⊢
      generalize rest.dropWhile (fun c => decide (c ≠ colon ∧ c ≠ slash)) = tail at hsplit ⊢
      rw [← hsplit, List.drop_left]
    rw [hdrop] at hport
    refine ⟨_, _, hsplit.symm, hne, hhost, ?_⟩
    cases htail : rest.dropWhile fun c => c ≠ colon ∧ c ≠ slash with
    | nil => exact .none
    | cons c port =>
        rw [htail] at hport
        have hstop := List.head?_dropWhile_not (fun c => decide (c ≠ colon ∧ c ≠ slash)) rest
        rw [htail] at hstop
        by_cases hcolon : c = colon
        · rw [hcolon]
          exact portLoop_iff.mp (by simpa [hcolon] using hport)
        · have hslash : c = slash := by simpa [hcolon] using hstop
          rw [hslash]
          exact .path port
  · rintro ⟨host, tail, rfl, hne, hhost, htail⟩
    have hstop : (host ++ tail).takeWhile (fun c => decide (c ≠ colon ∧ c ≠ slash)) = host := by
      rw [List.takeWhile_append_of_pos fun c hc => by simpa using isHostByte_ne (hhost c hc)]
      cases htail with
      | none => simp
      | path rest => rw [List.takeWhile_cons_of_neg (by simp), List.append_nil]
      | port digits h => rw [List.takeWhile_cons_of_neg (by simp), List.append_nil]
      | portPath digits rest h =>
          rw [List.takeWhile_cons_of_neg (by simp), List.append_nil]
    rw [hstop, List.drop_left]
    refine ⟨⟨hhost, hne⟩, ?_⟩
    cases htail with
    | none => rfl
    | path rest => rfl
    | port digits h =>
        have hloop := portLoop_iff.mpr (.port digits h)
        dsimp only
        rw [hloop, Bool.or_true]
    | portPath digits rest h =>
        have hloop := portLoop_iff.mpr (.portPath digits rest h)
        dsimp only
        rw [hloop, Bool.or_true]

theorem validateWsUri_iff_grammar (url : Bytes) : validateWsUri url = true ↔ Grammar url := by
  rw [validateWsUri_eq, Option.any_eq_true]
  constructor
  · rintro ⟨⟨secure, rest⟩, hscheme, hscan⟩
    obtain ⟨host, tail, rfl, hne, hhost, htail⟩ := scanHostPort_iff.mp hscan
    rw [eq_scheme_of_afterScheme hscheme, ← List.append_assoc]
    refine ⟨scheme secure, host, tail, rfl, ?_, hne, hhost, htail⟩
    cases secure with
    | false => exact .inl rfl
    | true => exact .inr rfl
  · rintro ⟨word, host, tail, rfl, hword, hne, hhost, htail⟩
    have hsecure : ∃ secure, word = scheme secure := by
      rcases hword with rfl | rfl
      · exact ⟨false, rfl⟩
      · exact ⟨true, rfl⟩
    obtain ⟨secure, rfl⟩ := hsecure
    refine ⟨(secure, host ++ tail), ?_, scanHostPort_iff.mpr ⟨host, tail, rfl, hne, hhost, htail⟩⟩
    rw [List.append_assoc]
    exact afterScheme_scheme secure (host ++ tail)

-- ============================================================================
-- The copy
-- ============================================================================

theorem strncpy_of_lt {src : Bytes} {n : Nat} (h : src.length < n) :
    strncpy src n = src ++ 0 :: List.replicate (n - src.length - 1) 0 := by
  obtain ⟨k, hk⟩ : ∃ k, n = src.length + 1 + k := ⟨n - src.length - 1, by omega⟩
  have hpad : n - src.length = (n - src.length - 1) + 1 := by omega
  rw [strncpy, List.take_append, List.take_of_length_le (by omega), List.take_replicate,
    Nat.min_eq_left (by omega), hpad, List.replicate_succ, Nat.add_sub_cancel]

theorem strncpy_of_le {src : Bytes} {n : Nat} (h : n ≤ src.length) :
    strncpy src n = src.take n := by
  rw [strncpy, List.take_append_of_le_length h]

theorem length_strncpy (src : Bytes) (n : Nat) : (strncpy src n).length = n := by
  rw [strncpy, List.length_take, List.length_append, List.length_replicate]
  omega

/-- A buffer holds the string and its NUL when it is longer than the string. -/
theorem strncpy_terminated_iff {url : CString} {n : Nat} :
    (∃ pad, strncpy url.bytes n = url.bytes ++ 0 :: pad) ↔ url.bytes.length < n := by
  constructor
  · rintro ⟨pad, hpad⟩
    have hlen := congrArg List.length hpad
    rw [length_strncpy, List.length_append, List.length_cons] at hlen
    omega
  · intro h
    exact ⟨_, strncpy_of_lt h⟩

/-- What a reader finds who stops at the first NUL from the buffer on. -/
theorem copiedUri_eq (url beyond : CString) :
    (strncpy url.bytes maxWsUri ++ beyond.array).takeWhile (· ≠ 0)
      = copiedUri url.bytes beyond.bytes := by
  have hstop : ∀ (s rest : Bytes), (∀ c ∈ s, c ≠ 0) →
      (s ++ 0 :: rest).takeWhile (fun c => decide (c ≠ 0)) = s := by
    intro s rest hs
    rw [List.takeWhile_append_of_pos fun c hc => by simpa using hs c hc,
      List.takeWhile_cons_of_neg (by simp), List.append_nil]
  by_cases h : url.bytes.length < maxWsUri
  · rw [copiedUri, if_pos h, strncpy_of_lt h, List.append_assoc, List.cons_append]
    exact hstop url.bytes _ url.noNul
  · rw [copiedUri, if_neg h, strncpy_of_le (by omega), CString.array, ← List.append_assoc]
    refine hstop _ [] fun c hc => ?_
    rcases List.mem_append.mp hc with hurl | hbeyond
    · exact url.noNul c (List.take_subset _ _ hurl)
    · exact beyond.noNul c hbeyond

/-- What the validator promises for a string. -/
structure Promise (url : CString) (buffer : Bytes) : Prop where
  accepts : (validateInto url buffer).1 = 1 ↔ Grammar url.bytes
  copies : (validateInto url buffer).1 = 1 →
    (validateInto url buffer).2.length = maxWsUri ∧
      ∃ pad, (validateInto url buffer).2 = url.bytes ++ 0 :: pad

theorem validateInto_accepts (url : CString) (buffer : Bytes) :
    (validateInto url buffer).1 = 1 ↔ Grammar url.bytes := by
  rw [← validateWsUri_iff_grammar, validateInto]
  split
  · rename_i h
    exact iff_of_true rfl h
  · rename_i h
    exact iff_of_false Int.zero_ne_one h

/-- **The validator and its copy.**  It accepts the URLs of the grammar; of those it copies
    the ones shorter than its buffer. -/
theorem promise_iff (url : CString) (buffer : Bytes) :
    Promise url buffer ↔ ¬ Grammar url.bytes ∨ url.bytes.length < maxWsUri := by
  have haccepts := validateInto_accepts url buffer
  constructor
  · intro h
    by_cases hgrammar : Grammar url.bytes
    · obtain ⟨-, pad, hpad⟩ := h.copies (haccepts.mpr hgrammar)
      rw [validateInto, if_pos ((validateWsUri_iff_grammar url.bytes).mpr hgrammar)] at hpad
      exact .inr (strncpy_terminated_iff.mp ⟨pad, hpad⟩)
    · exact .inl hgrammar
  · intro h
    refine ⟨haccepts, fun hone => ?_⟩
    have hgrammar := haccepts.mp hone
    rw [validateInto, if_pos ((validateWsUri_iff_grammar url.bytes).mpr hgrammar)]
    exact ⟨length_strncpy _ _, strncpy_terminated_iff.mpr (h.resolve_left (not_not_intro hgrammar))⟩

/-- `ws://aaa…`, of just the size of the buffer. -/
def filling : CString where
  bytes := ascii "ws://" ++ List.replicate 4091 97
  noNul := by
    intro c hc
    rcases List.mem_append.mp hc with hscheme | hhost
    · have hletters : (ascii "ws://").all (fun c => decide (c ≠ 0)) = true := by decide
      exact of_decide_eq_true (List.all_eq_true.mp hletters c hscheme)
    · rw [List.eq_of_mem_replicate hhost]
      decide

/-- It is a URL of the grammar, and its copy has no NUL in the buffer. -/
theorem unterminated : Grammar filling.bytes ∧ ¬ Promise filling [] := by
  have hgrammar : Grammar filling.bytes := by
    refine ⟨ascii "ws://", List.replicate 4091 97, [], (List.append_nil _).symm, .inl rfl, ?_, ?_,
      .none⟩
    · refine List.ne_nil_of_length_pos ?_
      rw [List.length_replicate]
      omega
    · intro c hc
      rw [List.eq_of_mem_replicate hc]
      decide
  have hlen : filling.bytes.length = maxWsUri := by
    show (ascii "ws://" ++ List.replicate 4091 97).length = maxWsUri
    rw [List.length_append, List.length_replicate]
    decide
  refine ⟨hgrammar, fun h => ?_⟩
  obtain ⟨-, pad, hpad⟩ := h.copies ((validateInto_accepts filling []).mpr hgrammar)
  rw [validateInto, if_pos ((validateWsUri_iff_grammar _).mpr hgrammar)] at hpad
  have hroom := strncpy_terminated_iff.mp ⟨pad, hpad⟩
  omega

end FsBridge.Module.UriGrammar
