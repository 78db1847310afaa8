/-
  FsBridge.Lib.JsonString

  What is between the quotes of a JSON string: written by `json.Marshal`, with
  the characters of HTML escaped (`quote`), rewritten by it where it is given JSON
  (`htmlEscape`), and read by a decoder (`unquote`).

  `Tree.toJson` is the value a text stands for.

  * `unquote_quote` — a decoder gets the string back, its bytes that are no UTF-8
    replaced.
  * `decode_of_compacted` — compaction keeps the value.
-/

import FsBridge.Lib.Decimal
import FsBridge.Lib.Json
import FsBridge.Lib.JsonText
import FsBridge.Lib.Utf8

namespace FsBridge.Lib.JsonText

open JsonScan (isSpace isDigit isHexDigit maxNestingDepth)

-- ============================================================================
-- Writing
-- ============================================================================

/-- A digit of `\u`, of a number below 16. -/
def hexDigitByte (n : Nat) : UInt8 := if n < 10 then (0x30 + n).toUInt8 else (0x57 + n).toUInt8

/-- `\u00xx`. -/
def unicodeEscape (c : UInt8) : Bytes :=
  ascii "\\u00" ++ [hexDigitByte (c.toNat / 16), hexDigitByte (c.toNat % 16)]

/-- `htmlSafeSet`. -/
def htmlSafe (c : UInt8) : Bool :=
  0x20 ≤ c && c ∉ ascii "\"\\<>&"

/-- A byte of ASCII that does not stand for itself. -/
def escapeByte (c : UInt8) : Bytes :=
  if c = 0x5C ∨ c = 0x22 then [0x5C, c]
  else if c = 0x08 then ascii "\\b"
  else if c = 0x0C then ascii "\\f"
  else if c = 0x0A then ascii "\\n"
  else if c = 0x0D then ascii "\\r"
  else if c = 0x09 then ascii "\\t"
  else unicodeEscape c

/-- A rune of the string `b :: s`. -/
def quoteRune (b : UInt8) (s : Bytes) : Bytes :=
  if b < 0x80 then if htmlSafe b then [b] else escapeByte b
  else if decodeRune b s = (runeError, 1) then ascii "\\ufffd"
  else if (decodeRune b s).1 = 0x2028 then ascii "\\u2028"
  else if (decodeRune b s).1 = 0x2029 then ascii "\\u2029"
  else (b :: s).take (decodeRune b s).2

def quoteFrom : Nat → Bytes → Bytes
  | _, [] => []
  | skip + 1, _ :: s => quoteFrom skip s
  | 0, b :: s => quoteRune b s ++ quoteFrom ((decodeRune b s).2 - 1) s

/-- `appendString` of encoding/json, without the quotes. -/
def quote (s : Bytes) : Bytes := quoteFrom 0 s

def htmlEscapeFrom : Nat → Bytes → Bytes
  | _, [] => []
  | skip + 1, _ :: s => htmlEscapeFrom skip s
  | 0, c :: s =>
      if c ∈ ascii "<>&" then unicodeEscape c ++ htmlEscapeFrom 0 s
      else if c = 0xE2 ∧ s.take 2 = [0x80, 0xA8] then ascii "\\u2028" ++ htmlEscapeFrom 2 s
      else if c = 0xE2 ∧ s.take 2 = [0x80, 0xA9] then ascii "\\u2029" ++ htmlEscapeFrom 2 s
      else c :: htmlEscapeFrom 0 s

/-- What `appendCompact` makes of the inside of a string. -/
def htmlEscape (body : Bytes) : Bytes := htmlEscapeFrom 0 body

-- ============================================================================
-- Reading
-- ============================================================================

def hexValue (c : UInt8) : Nat :=
  if isDigit c then c.toNat - 0x30
  else if 0x61 ≤ c ∧ c ≤ 0x66 then c.toNat - 0x57
  else c.toNat - 0x37

/-- `getu4`, behind the `\u`. -/
def hex4 : Bytes → Option Nat
  | h1 :: h2 :: h3 :: h4 :: _ =>
      if isHexDigit h1 ∧ isHexDigit h2 ∧ isHexDigit h3 ∧ isHexDigit h4 then
        some (((hexValue h1 * 16 + hexValue h2) * 16 + hexValue h3) * 16 + hexValue h4)
      else none
  | _ => none

/-- The rune of a surrogate half, with the half that may follow it in `s`, and the size
    of both escapes. -/
def surrogate (half : Nat) (s : Bytes) : Nat × Nat :=
  match hex4 (s.drop 2) with
  | some other =>
      if s.take 2 = ascii "\\u" ∧ half < 0xDC00 ∧ 0xDC00 ≤ other ∧ other < 0xE000 then
        (0x10000 + (half - 0xD800) * 1024 + (other - 0xDC00), 12)
      else (runeError, 6)
  | none => (runeError, 6)

/-- What an escape stands for, by what follows its backslash, and its size. -/
def unescape : Bytes → Bytes × Nat
  | [] => ([], 1)
  | e :: s =>
      if e = 0x75 then
        match hex4 s with
        | none => ([], 2)
        | some r =>
            if 0xD800 ≤ r ∧ r < 0xE000 then
              (encodeRune (surrogate r (s.drop 4)).1, (surrogate r (s.drop 4)).2)
            else (encodeRune r, 6)
      else if e = 0x62 then ([0x08], 2)
      else if e = 0x66 then ([0x0C], 2)
      else if e = 0x6E then ([0x0A], 2)
      else if e = 0x72 then ([0x0D], 2)
      else if e = 0x74 then ([0x09], 2)
      else ([e], 2)

def unquoteFrom : Nat → Bytes → Bytes
  | _, [] => []
  | skip + 1, _ :: s => unquoteFrom skip s
  | 0, c :: s =>
      if c = 0x5C then (unescape s).1 ++ unquoteFrom ((unescape s).2 - 1) s
      else c :: unquoteFrom 0 s

/-- The string that is written so between quotes. -/
def unquote (body : Bytes) : Bytes := unquoteFrom 0 body

namespace Tree

mutual

/-- The value a text stands for. -/
def toJson : Tree → Json
  | .scalar token =>
      if token = ascii "null" then .null
      else if token = ascii "true" then .bool true
      else if token = ascii "false" then .bool false
      else .num token
  | .str body => .str (unquote body)
  | .arr elements => .arr (elementsToJson elements)
  | .obj members => .obj (membersToJson members)

def elementsToJson : List Tree → List Json
  | [] => []
  | t :: ts => t.toJson :: elementsToJson ts

def membersToJson : List (Bytes × Tree) → List (Bytes × Json)
  | [] => []
  | (name, t) :: ms => (unquote name, t.toJson) :: membersToJson ms

end

mutual

/-- The text with the inside of every string rewritten. -/
def mapBodies (f : Bytes → Bytes) : Tree → Tree
  | .scalar token => .scalar token
  | .str body => .str (f body)
  | .arr elements => .arr (mapElements f elements)
  | .obj members => .obj (mapMembers f members)

def mapElements (f : Bytes → Bytes) : List Tree → List Tree
  | [] => []
  | t :: ts => t.mapBodies f :: mapElements f ts

def mapMembers (f : Bytes → Bytes) : List (Bytes × Tree) → List (Bytes × Tree)
  | [] => []
  | (name, t) :: ms => (f name, t.mapBodies f) :: mapMembers f ms

end

end Tree

/-- `json.Unmarshal` into an `any` that keeps the order of members. -/
def decode (s : Bytes) : Option Json := (parse maxNestingDepth s).map Tree.toJson

-- ============================================================================
-- encoding/json
-- ============================================================================

/-- What `appendCompact` makes of a text, with the characters of HTML escaped. -/
def compacted (s : Bytes) : Option Tree :=
  (parse maxNestingDepth s).map (Tree.mapBodies htmlEscape)

/-- `json.Indent` of a text without spaces around it, with two spaces for each level. -/
def indent (s : Bytes) : Option Bytes :=
  (parse maxNestingDepth s).map (indentText (ascii "  "))

-- ============================================================================
-- What is written is the inside of a string
-- ============================================================================

theorem hexDigitByte_spec {n : Nat} (h : n < 16) :
    isHexDigit (hexDigitByte n) = true ∧ hexValue (hexDigitByte n) = n := by
  revert n
  decide

theorem isBody_of_high {s : Bytes} (h : ∀ c ∈ s, 0x80 ≤ c) : IsBody s := by
  induction s with
  | nil => exact .nil
  | cons c s ih =>
      have hc := h c List.mem_cons_self
      rw [UInt8.le_iff_toNat_le] at hc
      refine .plain ?_ ?_ ?_ (ih fun d hd => h d (List.mem_cons_of_mem _ hd))
      · rintro rfl
        exact absurd hc (by decide)
      · rintro rfl
        exact absurd hc (by decide)
      · rw [UInt8.not_lt, UInt8.le_iff_toNat_le]
        exact Nat.le_trans (by decide) hc

theorem isBody_unicodeEscape (c : UInt8) : IsBody (unicodeEscape c) := by
  have hlt : c.toNat < 256 := c.toNat_lt
  refine .unicode ⟨rfl, rfl, (hexDigitByte_spec ?_).1, (hexDigitByte_spec ?_).1⟩ .nil
  · omega
  · omega

theorem isBody_escapeByte (c : UInt8) : IsBody (escapeByte c) := by
  rw [escapeByte]
  split
  · rename_i hc
    refine .escape ?_ .nil
    rcases hc with rfl | rfl <;> decide
  · repeat' split
    all_goals first
      | exact .escape (by decide) .nil
      | exact isBody_unicodeEscape c

/-- The bytes that are copied for a rune that is no ASCII. -/
theorem high_of_decodeRune {b : UInt8} {s : Bytes} (hb : ¬ b < 0x80) :
    ∀ c ∈ (b :: s).take (decodeRune b s).2, 0x80 ≤ c := by
  obtain ⟨-, hbytes⟩ := decodeRune_long s hb
  intro c hc
  cases hsize : (decodeRune b s).2 with
  | zero =>
      rw [hsize] at hc
      cases hc
  | succ size =>
      rw [hsize, List.take_succ_cons] at hc
      rw [hsize] at hbytes
      rcases List.mem_cons.mp hc with rfl | hc
      · exact UInt8.not_lt.mp hb
      · exact hbytes c hc

theorem isBody_quoteRune (b : UInt8) (s : Bytes) : IsBody (quoteRune b s) := by
  rw [quoteRune]
  split
  · split
    · rename_i hsafe
      rw [htmlSafe, Bool.and_eq_true, decide_eq_true_iff, decide_eq_true_iff] at hsafe
      refine .plain ?_ ?_ (UInt8.not_lt.mpr hsafe.1) .nil
      · rintro rfl
        exact hsafe.2 (by decide)
      · rintro rfl
        exact hsafe.2 (by decide)
    · exact isBody_escapeByte b
  · rename_i hb
    split
    · exact .unicode (by decide) .nil
    · split
      · exact .unicode (by decide) .nil
      · split
        · exact .unicode (by decide) .nil
        · exact isBody_of_high (high_of_decodeRune hb)

theorem isBody_quote (s : Bytes) : IsBody (quote s) := by
  have hfrom : ∀ skip, IsBody (quoteFrom skip s) := by
    induction s with
    | nil =>
        intro skip
        cases skip <;> exact .nil
    | cons b s ih =>
        intro skip
        cases skip with
        | zero => exact (isBody_quoteRune b s).append (ih _)
        | succ skip => exact ih skip
  exact hfrom 0

theorem htmlEscapeFrom_copy {c : UInt8} (h : c ∉ ascii "<>&" ∧ c ≠ 0xE2) (s : Bytes) :
    htmlEscapeFrom 0 (c :: s) = c :: htmlEscapeFrom 0 s := by
  rw [htmlEscapeFrom, if_neg h.1, if_neg (fun hno => h.2 hno.1), if_neg (fun hno => h.2 hno.1)]

theorem not_html_of_hexDigit {c : UInt8} (h : isHexDigit c = true) :
    c ∉ ascii "<>&" ∧ c ≠ 0xE2 := by
  constructor
  · intro hc
    have hall : (ascii "<>&").all (fun c => !isHexDigit c) = true := by decide
    have hno := List.all_eq_true.mp hall c hc
    rw [h] at hno
    exact Bool.false_ne_true hno
  · rintro rfl
    exact absurd h (by decide)

theorem htmlEscapeFrom_unicode {h1 h2 h3 h4 : UInt8} {s : Bytes}
    (hhex : isHexDigit h1 ∧ isHexDigit h2 ∧ isHexDigit h3 ∧ isHexDigit h4) :
    htmlEscape (0x5C :: 0x75 :: h1 :: h2 :: h3 :: h4 :: s)
      = 0x5C :: 0x75 :: h1 :: h2 :: h3 :: h4 :: htmlEscape s := by
  rw [htmlEscape, htmlEscapeFrom_copy (by decide), htmlEscapeFrom_copy (by decide),
    htmlEscapeFrom_copy (not_html_of_hexDigit hhex.1),
    htmlEscapeFrom_copy (not_html_of_hexDigit hhex.2.1),
    htmlEscapeFrom_copy (not_html_of_hexDigit hhex.2.2.1),
    htmlEscapeFrom_copy (not_html_of_hexDigit hhex.2.2.2)]
  rfl

theorem not_html_of_letter {e : UInt8} (he : e ∈ ascii "bfnrt\\/\"") :
    e ∉ ascii "<>&" ∧ e ≠ 0xE2 := by
  have hall : (ascii "bfnrt\\/\"").all (fun e => e ∉ ascii "<>&" ∧ e ≠ 0xE2) = true := by decide
  exact of_decide_eq_true (List.all_eq_true.mp hall e he)

/-- Behind a byte that is no backslash a body goes on as one. -/
theorem IsBody.tail {c : UInt8} {s : Bytes} (h : IsBody (c :: s)) (hc : c ≠ 0x5C) : IsBody s := by
  cases h with
  | plain _ _ _ h => exact h
  | escape _ _ => exact absurd rfl hc
  | unicode _ _ => exact absurd rfl hc

/-- Inside a string the characters of HTML stand for themselves. -/
theorem isBody_htmlEscape {body : Bytes} (h : IsBody body) : IsBody (htmlEscape body) := by
  induction hlen : body.length using Nat.strongRecOn generalizing body with
  | _ len ih =>
      cases h with
      | nil => exact .nil
      | @plain c s hquote hslash hctl hs =>
          have hrest : IsBody (htmlEscape s) := ih s.length (by simp [← hlen]) hs rfl
          -- a line separator is three bytes, and the body goes on behind them
          have hline : ∀ last : UInt8, last ≠ 0x5C → s.take 2 = [0x80, last] →
              IsBody (htmlEscapeFrom 2 s) := by
            intro last hlast htake
            obtain ⟨s', rfl⟩ : ∃ s', s = 0x80 :: last :: s' := by
              refine ⟨s.drop 2, ?_⟩
              have happend := List.take_append_drop 2 s
              rw [htake] at happend
              exact happend.symm
            exact ih s'.length (by rw [← hlen]; simp only [List.length_cons]; omega)
              ((hs.tail (by decide)).tail hlast) rfl
          rw [htmlEscape, htmlEscapeFrom]
          split
          · exact (isBody_unicodeEscape c).append hrest
          · split
            · rename_i hsep
              exact .unicode (by decide) (hline 0xA8 (by decide) hsep.2)
            · split
              · rename_i hsep
                exact .unicode (by decide) (hline 0xA9 (by decide) hsep.2)
              · exact .plain hquote hslash hctl hrest
      | @escape e s he hs =>
          have hrest : IsBody (htmlEscape s) :=
            ih s.length (by rw [← hlen]; simp only [List.length_cons]; omega) hs rfl
          rw [htmlEscape, htmlEscapeFrom_copy (by decide),
            htmlEscapeFrom_copy (not_html_of_letter he)]
          exact .escape he hrest
      | @unicode h1 h2 h3 h4 s hhex hs =>
          have hrest : IsBody (htmlEscape s) :=
            ih s.length (by rw [← hlen]; simp only [List.length_cons]; omega) hs rfl
          rw [htmlEscapeFrom_unicode hhex]
          exact .unicode hhex hrest

-- ============================================================================
-- Reading what was written
-- ============================================================================

theorem unquoteFrom_plain {c : UInt8} (hc : c ≠ 0x5C) (s : Bytes) :
    unquoteFrom 0 (c :: s) = c :: unquoteFrom 0 s := by
  rw [unquoteFrom, if_neg hc]

theorem unquoteFrom_high {a : Bytes} (h : ∀ c ∈ a, 0x80 ≤ c) (s : Bytes) :
    unquoteFrom 0 (a ++ s) = a ++ unquoteFrom 0 s := by
  induction a with
  | nil => rfl
  | cons c a ih =>
      have hc : c ≠ 0x5C := by
        rintro rfl
        exact absurd (h 0x5C List.mem_cons_self) (by decide)
      rw [List.cons_append, unquoteFrom_plain hc, ih fun d hd => h d (List.mem_cons_of_mem _ hd),
        List.cons_append]

/-- An escape of two bytes. -/
theorem unquoteFrom_escape {e c : UInt8} {s : Bytes} (h : unescape (e :: s) = ([c], 2)) :
    unquoteFrom 0 (0x5C :: e :: s) = c :: unquoteFrom 0 s := by
  rw [unquoteFrom, if_pos rfl, h]
  rfl

/-- An escape of six bytes that is no surrogate. -/
theorem unquoteFrom_unicode {h1 h2 h3 h4 : UInt8} {s : Bytes} {r : Nat}
    (h : hex4 (h1 :: h2 :: h3 :: h4 :: s) = some r) (hr : r < 0xD800 ∨ 0xE000 ≤ r) :
    unquoteFrom 0 (0x5C :: 0x75 :: h1 :: h2 :: h3 :: h4 :: s)
      = encodeRune r ++ unquoteFrom 0 s := by
  have hescape : unescape (0x75 :: h1 :: h2 :: h3 :: h4 :: s) = (encodeRune r, 6) := by
    rw [unescape, if_pos rfl, h]
    dsimp only
    rw [if_neg (by omega)]
  rw [unquoteFrom, if_pos rfl, hescape]
  rfl

theorem hex4_unicodeEscape (c : UInt8) (s : Bytes) :
    hex4 ((unicodeEscape c ++ s).drop 2) = some c.toNat := by
  have hlt : c.toNat < 256 := c.toNat_lt
  obtain ⟨hhex1, hval1⟩ := hexDigitByte_spec (show c.toNat / 16 < 16 by omega)
  obtain ⟨hhex2, hval2⟩ := hexDigitByte_spec (show c.toNat % 16 < 16 by omega)
  show hex4 (0x30 :: 0x30 :: hexDigitByte (c.toNat / 16) :: hexDigitByte (c.toNat % 16) :: s) = _
  rw [hex4, if_pos ⟨rfl, rfl, hhex1, hhex2⟩, hval1, hval2]
  show some (((0 * 16 + 0) * 16 + c.toNat / 16) * 16 + c.toNat % 16) = _
  congr 1
  omega

theorem unquoteFrom_unicodeEscape {c : UInt8} (hc : c < 0x80) (s : Bytes) :
    unquoteFrom 0 (unicodeEscape c ++ s) = c :: unquoteFrom 0 s := by
  have hlt : c.toNat < 0x80 := UInt8.lt_iff_toNat_lt.mp hc
  have hencode : encodeRune c.toNat = [c] := by
    rw [encodeRune, if_pos hlt]
    simp
  have hread := unquoteFrom_unicode (hex4_unicodeEscape c s) (.inl (by omega))
  rw [hencode] at hread
  exact hread

theorem unquoteFrom_escapeByte {c : UInt8} (hc : c < 0x80) (s : Bytes) :
    unquoteFrom 0 (escapeByte c ++ s) = c :: unquoteFrom 0 s := by
  rw [escapeByte]
  split
  · rename_i h
    rcases h with rfl | rfl
    · refine unquoteFrom_escape ?_
      rfl
    · refine unquoteFrom_escape ?_
      rfl
  · repeat' split
    all_goals first
      | exact unquoteFrom_unicodeEscape hc s
      | rename_i h
        subst h
        refine unquoteFrom_escape ?_
        rfl

theorem unquoteFrom_quoteRune (b : UInt8) (s rest : Bytes) :
    unquoteFrom 0 (quoteRune b s ++ rest)
      = encodeRune (decodeRune b s).1 ++ unquoteFrom 0 rest := by
  rw [quoteRune]
  split
  · rename_i hb
    have hlt : b.toNat < 0x80 := UInt8.lt_iff_toNat_lt.mp hb
    have hencode : encodeRune (decodeRune b s).1 = [b] := by
      rw [decodeRune, if_pos hb, encodeRune, if_pos hlt]
      simp
    rw [hencode]
    split
    · rename_i hsafe
      refine unquoteFrom_plain ?_ rest
      rintro rfl
      exact absurd hsafe (by decide)
    · exact unquoteFrom_escapeByte hb rest
  · rename_i hb
    split
    · rename_i herror
      rw [herror]
      exact unquoteFrom_unicode rfl (.inr (by decide))
    · rename_i hvalid
      split
      · rename_i hline
        rw [hline]
        exact unquoteFrom_unicode rfl (.inl (by decide))
      · split
        · rename_i hpara
          rw [hpara]
          exact unquoteFrom_unicode rfl (.inl (by decide))
        · rw [encodeRune_decodeRune hvalid]
          exact unquoteFrom_high (high_of_decodeRune hb) rest

/-- A decoder gets the runes of the string. -/
theorem unquote_quote (s : Bytes) : unquote (quote s) = mapRunes some s := by
  have hfrom : ∀ skip, unquoteFrom 0 (quoteFrom skip s) = (runesFrom skip s).flatMap encodeRune := by
    induction s with
    | nil =>
        intro skip
        cases skip <;> rfl
    | cons b s ih =>
        intro skip
        cases skip with
        | zero =>
            rw [quoteFrom, unquoteFrom_quoteRune, ih, runesFrom, List.flatMap_cons]
        | succ skip => exact ih skip
  rw [unquote, quote, hfrom, mapRunes, runes, List.filterMap_some]

-- ============================================================================
-- Reading what was compacted
-- ============================================================================

/-- What follows an escape of one letter is read as it would be alone. -/
theorem unquoteFrom_letter {e : UInt8} (he : e ≠ 0x75) (s : Bytes) :
    unquoteFrom 0 (0x5C :: e :: s)
      = (unescape (e :: [])).1 ++ unquoteFrom 0 s := by
  have hsize : unescape (e :: s) = ((unescape (e :: [])).1, 2) := by
    rw [unescape, unescape, if_neg he, if_neg he]
    repeat' split
    all_goals rfl
  rw [unquoteFrom, if_pos rfl, hsize]
  rfl

theorem surrogate_size (half : Nat) (s : Bytes) :
    (surrogate half s).2 = 6 ∨ (surrogate half s).2 = 12 := by
  rw [surrogate]
  split
  · split
    · exact .inr rfl
    · exact .inl rfl
  · exact .inl rfl

/-- No surrogate half follows. -/
theorem surrogate_alone {half : Nat} {s : Bytes}
    (h : s.take 2 = ascii "\\u" → ∀ other ∈ hex4 (s.drop 2), other < 0xDC00) :
    surrogate half s = (runeError, 6) := by
  rw [surrogate]
  split
  · rename_i other hother
    rw [if_neg]
    rintro ⟨hu, -, hlow, -⟩
    exact absurd (h hu other hother) (Nat.not_lt.mpr hlow)
  · rfl

/-- The first byte of a body stays, or becomes an escape of a character of its own. -/
theorem htmlEscape_cons (c : UInt8) (s : Bytes) :
    htmlEscape (c :: s) = c :: htmlEscape s ∨
      (c < 0x80 ∧ htmlEscape (c :: s) = unicodeEscape c ++ htmlEscape s) ∨
      (∃ last s', (last = 0xA8 ∨ last = 0xA9) ∧ c :: s = 0xE2 :: 0x80 :: last :: s' ∧
        htmlEscape (c :: s) = ascii "\\u202" ++ (last - 0x70) :: htmlEscape s') := by
  have hline : ∀ last, s.take 2 = [0x80, last] → ∃ s', s = 0x80 :: last :: s' := by
    intro last htake
    refine ⟨s.drop 2, ?_⟩
    have happend := List.take_append_drop 2 s
    rw [htake] at happend
    exact happend.symm
  rw [htmlEscape, htmlEscapeFrom]
  split
  · rename_i hhtml
    have hascii : (ascii "<>&").all (fun c => c < 0x80) = true := by decide
    exact .inr (.inl ⟨of_decide_eq_true (List.all_eq_true.mp hascii c hhtml), rfl⟩)
  · split
    · rename_i hsep
      obtain ⟨s', rfl⟩ := hline 0xA8 hsep.2
      exact .inr (.inr ⟨0xA8, s', .inl rfl, by rw [hsep.1], rfl⟩)
    · split
      · rename_i hsep
        obtain ⟨s', rfl⟩ := hline 0xA9 hsep.2
        exact .inr (.inr ⟨0xA9, s', .inr rfl, by rw [hsep.1], rfl⟩)
      · exact .inl rfl

/-- Behind a surrogate half there is another escape, or compaction makes no other half. -/
theorem surrogate_cases (half : Nat) {s : Bytes} (hs : IsBody s) :
    (surrogate half s = (runeError, 6) ∧ surrogate half (htmlEscape s) = (runeError, 6)) ∨
      ∃ h1 h2 h3 h4 s', (isHexDigit h1 ∧ isHexDigit h2 ∧ isHexDigit h3 ∧ isHexDigit h4) ∧
        s = 0x5C :: 0x75 :: h1 :: h2 :: h3 :: h4 :: s' ∧ IsBody s' := by
  have hother : ∀ (c : UInt8) (s' : Bytes), c ≠ 0x5C → surrogate half (c :: s') = (runeError, 6) := by
    intro c s' hc
    refine surrogate_alone fun htake => absurd ?_ hc
    cases s' with
    | nil => exact (List.cons.inj htake).1
    | cons d s' => exact (List.cons.inj htake).1
  cases hs with
  | nil => exact .inl ⟨rfl, rfl⟩
  | @plain c s hquote hslash hctl hs =>
      refine .inl ⟨hother c s hslash, ?_⟩
      rcases htmlEscape_cons c s with heq | ⟨hc, heq⟩ | ⟨last, s', hlast, hcs, heq⟩
      · rw [heq]
        exact hother c _ hslash
      · rw [heq]
        refine surrogate_alone fun _ other hhex => ?_
        rw [hex4_unicodeEscape] at hhex
        obtain rfl := Option.some.inj hhex
        have hlt : c.toNat < 0x80 := UInt8.lt_iff_toNat_lt.mp hc
        omega
      · rw [heq]
        refine surrogate_alone fun _ other hhex => ?_
        rcases hlast with rfl | rfl
        · obtain rfl := Option.some.inj (show some 0x2028 = some other from hhex)
          decide
        · obtain rfl := Option.some.inj (show some 0x2029 = some other from hhex)
          decide
  | @escape e s he hs =>
      have hu : ∀ s' : Bytes, surrogate half (0x5C :: e :: s') = (runeError, 6) := by
        intro s'
        refine surrogate_alone fun htake => absurd he ?_
        rw [(List.cons.inj (List.cons.inj htake).2).1]
        decide
      refine .inl ⟨hu s, ?_⟩
      rw [htmlEscape, htmlEscapeFrom_copy (by decide), htmlEscapeFrom_copy (not_html_of_letter he)]
      exact hu _
  | @unicode h1 h2 h3 h4 s hhex hs => exact .inr ⟨h1, h2, h3, h4, s, hhex, rfl, hs⟩

/-- An escaped half is read with the escape that follows it, or alone. -/
theorem unquoteFrom_surrogate {h1 h2 h3 h4 : UInt8} {s : Bytes} {r : Nat}
    (h : hex4 (h1 :: h2 :: h3 :: h4 :: s) = some r) (hr : 0xD800 ≤ r ∧ r < 0xE000) :
    unquoteFrom 0 (0x5C :: 0x75 :: h1 :: h2 :: h3 :: h4 :: s)
      = encodeRune (surrogate r s).1 ++ unquoteFrom ((surrogate r s).2 - 6) s := by
  have hescape : unescape (0x75 :: h1 :: h2 :: h3 :: h4 :: s)
      = (encodeRune (surrogate r s).1, (surrogate r s).2) := by
    rw [unescape, if_pos rfl, h]
    dsimp only
    rw [if_pos hr]
    rfl
  rw [unquoteFrom, if_pos rfl, hescape]
  rcases surrogate_size r s with hsize | hsize
  · rw [hsize]
    rfl
  · rw [hsize]
    rfl

/-- Compaction does not change the string that is read. -/
theorem unquote_htmlEscape {body : Bytes} (h : IsBody body) :
    unquote (htmlEscape body) = unquote body := by
  induction hlen : body.length using Nat.strongRecOn generalizing body with
  | _ len ih =>
      rw [unquote, unquote]
      cases h with
      | nil => rfl
      | @plain c s hquote hslash hctl hs =>
          have hrest := ih s.length (by simp [← hlen]) hs rfl
          rw [unquote, unquote] at hrest
          rcases htmlEscape_cons c s with heq | ⟨hc, heq⟩ | ⟨last, s', hlast, hcs, heq⟩
          · rw [heq, unquoteFrom_plain hslash, unquoteFrom_plain hslash, hrest]
          · rw [heq, unquoteFrom_unicodeEscape hc, unquoteFrom_plain hslash, hrest]
          · -- the three bytes of a line separator
            obtain ⟨rfl, rfl⟩ := List.cons.inj hcs
            have hbody : IsBody s' := by
              refine (hs.tail (by decide)).tail ?_
              rcases hlast with rfl | rfl <;> decide
            have hrest' :=
              ih s'.length (by rw [← hlen]; simp only [List.length_cons]; omega) hbody rfl
            rw [unquote, unquote] at hrest'
            rw [heq]
            rcases hlast with rfl | rfl
            · refine (unquoteFrom_unicode (r := 0x2028) rfl (.inl (by decide))).trans ?_
              rw [hrest', unquoteFrom_plain (by decide), unquoteFrom_plain (by decide),
                unquoteFrom_plain (by decide)]
              rfl
            · refine (unquoteFrom_unicode (r := 0x2029) rfl (.inl (by decide))).trans ?_
              rw [hrest', unquoteFrom_plain (by decide), unquoteFrom_plain (by decide),
                unquoteFrom_plain (by decide)]
              rfl
      | @escape e s he hs =>
          have hrest := ih s.length (by rw [← hlen]; simp only [List.length_cons]; omega) hs rfl
          rw [unquote, unquote] at hrest
          have hu : e ≠ 0x75 := by
            rintro rfl
            exact absurd he (by decide)
          rw [htmlEscape, htmlEscapeFrom_copy (by decide),
            htmlEscapeFrom_copy (not_html_of_letter he),
            unquoteFrom_letter hu, unquoteFrom_letter hu, ← hrest]
          rfl
      | @unicode h1 h2 h3 h4 s hhex hs =>
          have hrest := ih s.length (by rw [← hlen]; simp only [List.length_cons]; omega) hs rfl
          rw [unquote, unquote] at hrest
          obtain ⟨r, hr⟩ : ∃ r, ∀ s', hex4 (h1 :: h2 :: h3 :: h4 :: s') = some r :=
            ⟨_, fun _ => if_pos hhex⟩
          rw [htmlEscapeFrom_unicode hhex]
          by_cases hhalf : 0xD800 ≤ r ∧ r < 0xE000
          · rw [unquoteFrom_surrogate (hr _) hhalf, unquoteFrom_surrogate (hr _) hhalf]
            rcases surrogate_cases r hs with ⟨halone, halone'⟩ | ⟨g1, g2, g3, g4, s', hhex', rfl, hs'⟩
            · rw [halone, halone']
              exact congrArg _ hrest
            · have hsame : surrogate r (htmlEscape (0x5C :: 0x75 :: g1 :: g2 :: g3 :: g4 :: s'))
                  = surrogate r (0x5C :: 0x75 :: g1 :: g2 :: g3 :: g4 :: s') := by
                rw [htmlEscapeFrom_unicode hhex']
                rfl
              rw [hsame]
              congr 1
              rcases surrogate_size r (0x5C :: 0x75 :: g1 :: g2 :: g3 :: g4 :: s') with hsize | hsize
              · rw [hsize]
                exact hrest
              · have hrest' :=
                  ih s'.length (by rw [← hlen]; simp only [List.length_cons]; omega) hs' rfl
                rw [unquote, unquote] at hrest'
                rw [hsize, htmlEscapeFrom_unicode hhex']
                exact hrest'
          · rw [unquoteFrom_unicode (hr _) (by omega), unquoteFrom_unicode (hr _) (by omega), hrest]

-- ============================================================================
-- Trees
-- ============================================================================

namespace Tree

theorem elementsToJson_eq (ts : List Tree) : elementsToJson ts = ts.map toJson := by
  induction ts with
  | nil => rfl
  | cons t ts ih => rw [elementsToJson, ih, List.map_cons]

theorem membersToJson_eq (ms : List (Bytes × Tree)) :
    membersToJson ms = ms.map fun m => (unquote m.1, m.2.toJson) := by
  induction ms with
  | nil => rfl
  | cons m ms ih => rw [membersToJson, ih, List.map_cons]

theorem mapElements_eq (f : Bytes → Bytes) (ts : List Tree) :
    mapElements f ts = ts.map (mapBodies f) := by
  induction ts with
  | nil => rfl
  | cons t ts ih => rw [mapElements, ih, List.map_cons]

theorem mapMembers_eq (f : Bytes → Bytes) (ms : List (Bytes × Tree)) :
    mapMembers f ms = ms.map fun m => (f m.1, m.2.mapBodies f) := by
  induction ms with
  | nil => rfl
  | cons m ms ih => rw [mapMembers, ih, List.map_cons]

end Tree

theorem fits_str {depth : Nat} {body : Bytes} : Fits depth (.str body) ↔ IsBody body := by
  cases depth <;> exact Iff.rfl

/-- Rewritten strings change nothing about the nesting of a tree. -/
theorem fits_mapBodies_iff {f : Bytes → Bytes} (hf : ∀ body, IsBody body → IsBody (f body))
    {depth bound : Nat} {t : Tree} (ht : Fits bound t) :
    Fits depth (t.mapBodies f) ↔ Fits depth t := by
  induction bound generalizing depth t with
  | zero =>
      cases t with
      | scalar token => exact Iff.rfl
      | str body =>
          rw [Tree.mapBodies, fits_str, fits_str]
          exact ⟨fun _ => ht, fun _ => hf body ht⟩
      | arr elements => exact ht.elim
      | obj members => exact ht.elim
  | succ bound ih =>
      cases t with
      | scalar token => exact Iff.rfl
      | str body =>
          rw [Tree.mapBodies, fits_str, fits_str]
          exact ⟨fun _ => ht, fun _ => hf body ht⟩
      | arr elements =>
          cases depth with
          | zero => exact Iff.rfl
          | succ depth =>
              rw [Tree.mapBodies, Tree.mapElements_eq, Fits, Fits, List.forall_mem_map]
              exact forall₂_congr fun t hmem => ih (ht t hmem)
      | obj members =>
          cases depth with
          | zero => exact Iff.rfl
          | succ depth =>
              rw [Tree.mapBodies, Tree.mapMembers_eq, Fits, Fits, List.forall_mem_map]
              exact forall₂_congr fun m hmem => and_congr
                ⟨fun _ => (ht m hmem).1, fun h => hf m.1 h⟩ (ih (ht m hmem).2)

/-- Rewritten strings that are read as before change nothing about the value. -/
theorem toJson_mapBodies {f : Bytes → Bytes}
    (hf : ∀ body, IsBody body → unquote (f body) = unquote body)
    {depth : Nat} {t : Tree} (ht : Fits depth t) : (t.mapBodies f).toJson = t.toJson := by
  induction depth generalizing t with
  | zero =>
      cases t with
      | scalar token => rfl
      | str body => rw [Tree.mapBodies, Tree.toJson, Tree.toJson, hf body ht]
      | arr elements => exact ht.elim
      | obj members => exact ht.elim
  | succ depth ih =>
      cases t with
      | scalar token => rfl
      | str body => rw [Tree.mapBodies, Tree.toJson, Tree.toJson, hf body ht]
      | arr elements =>
          rw [Tree.mapBodies, Tree.mapElements_eq, Tree.toJson, Tree.toJson, Tree.elementsToJson_eq,
            Tree.elementsToJson_eq, List.map_map]
          exact congrArg Json.arr (List.map_congr_left fun t hmem => ih (ht t hmem))
      | obj members =>
          rw [Tree.mapBodies, Tree.mapMembers_eq, Tree.toJson, Tree.toJson, Tree.membersToJson_eq,
            Tree.membersToJson_eq, List.map_map]
          refine congrArg Json.obj (List.map_congr_left fun m hmem => ?_)
          exact Prod.ext (hf m.1 (ht m hmem).1) (ih (ht m hmem).2)

/-- Compacted text has the value it had. -/
theorem decode_of_compacted {s : Bytes} {t : Tree} (h : compacted s = some t) :
    decode s = some t.toJson := by
  obtain ⟨v, hv, rfl⟩ := Option.map_eq_some_iff.mp h
  rw [decode, hv, toJson_mapBodies (fun _ => unquote_htmlEscape) (fits_of_parse hv)]
  rfl

-- ============================================================================
-- Texts that stand for themselves
-- ============================================================================

/-- A byte that is neither a quote, a backslash nor a control character. -/
def isPlain (c : UInt8) : Bool := c ≠ 0x22 && c ≠ 0x5C && 0x20 ≤ c

theorem isPlain_spec {c : UInt8} (h : isPlain c = true) : c ≠ 0x22 ∧ c ≠ 0x5C ∧ ¬ c < 0x20 := by
  rw [isPlain, Bool.and_eq_true, Bool.and_eq_true, decide_eq_true_iff, decide_eq_true_iff,
    decide_eq_true_iff] at h
  exact ⟨h.1.1, h.1.2, UInt8.not_lt.mpr h.2⟩

theorem isBody_of_plain {s : Bytes} (h : s.all isPlain = true) : IsBody s := by
  rw [List.all_eq_true] at h
  induction s with
  | nil => exact .nil
  | cons c s ih =>
      obtain ⟨hquote, hslash, hctl⟩ := isPlain_spec (h c List.mem_cons_self)
      exact .plain hquote hslash hctl (ih fun d hd => h d (List.mem_cons_of_mem _ hd))

theorem unquote_plain {s : Bytes} (h : s.all isPlain = true) : unquote s = s := by
  rw [List.all_eq_true] at h
  rw [unquote]
  induction s with
  | nil => rfl
  | cons c s ih =>
      rw [unquoteFrom_plain (isPlain_spec (h c List.mem_cons_self)).2.1,
        ih fun d hd => h d (List.mem_cons_of_mem _ hd)]

-- ============================================================================
-- Whole numbers
-- ============================================================================

theorem isDigit_of_decimal {c : UInt8} (h : Decimal.isDigit c = true) : isDigit c = true := by
  rw [Decimal.isDigit, decide_eq_true_iff] at h
  rw [isDigit, Bool.and_eq_true, decide_eq_true_iff, decide_eq_true_iff]
  exact h

/-- Only zero begins with the digit zero. -/
theorem natDigits_head {n : Nat} {s : Bytes} (h : Decimal.natDigits n = 0x30 :: s) : n = 0 := by
  induction n using Nat.strongRecOn generalizing s with
  | ind n ih =>
      rcases Nat.lt_or_ge n 10 with hlt | hge
      · rw [Decimal.natDigits_of_lt hlt] at h
        have hdigit := (Decimal.digitChar_byte hlt).2
        rw [(List.cons.inj h).1] at hdigit
        exact hdigit.symm
      · rw [Decimal.natDigits_of_le hge] at h
        obtain ⟨c, front, hfront⟩ := List.exists_cons_of_ne_nil (Decimal.natDigits_ne_nil (n / 10))
        rw [hfront, List.cons_append] at h
        have hzero := ih (n / 10) (by omega) (hfront.trans (by rw [(List.cons.inj h).1]))
        omega

theorem isUnsigned_natDigits (n : Nat) : isUnsigned (Decimal.natDigits n) = true := by
  have hdigits : ∀ c ∈ Decimal.natDigits n, isDigit c = true :=
    fun c hc => isDigit_of_decimal (Decimal.isDigit_of_mem_natDigits n c hc)
  obtain ⟨c, s, heq⟩ := List.exists_cons_of_ne_nil (Decimal.natDigits_ne_nil n)
  by_cases hc : c = 0x30
  · have hzero : n = 0 := natDigits_head (heq.trans (by rw [hc]))
    rw [hzero]
    rfl
  · rw [heq] at hdigits ⊢
    have hrest : (s ++ []).dropWhile isDigit = [] :=
      List.dropWhile_append_of_pos fun d hd => hdigits d (List.mem_cons_of_mem _ hd)
    rw [List.append_nil] at hrest
    rw [isUnsigned, if_neg hc, hdigits c List.mem_cons_self, hrest]
    rfl

theorem isNumber_print (n : Int) : isNumber (Decimal.print n) = true := by
  rw [Decimal.print]
  split
  · exact isUnsigned_natDigits _
  · have hunsigned := isUnsigned_natDigits n.natAbs
    obtain ⟨c, s, heq⟩ := List.exists_cons_of_ne_nil (Decimal.natDigits_ne_nil n.natAbs)
    have hc : c ≠ 0x2D :=
      (Decimal.not_sign_of_isDigit (Decimal.isDigit_of_mem_natDigits n.natAbs c (by simp [heq]))).1
    rw [heq] at hunsigned ⊢
    rw [isNumber, if_neg hc]
    exact hunsigned

theorem isTokenByte_print (n : Int) : ∀ c ∈ Decimal.print n, isTokenByte c = true := by
  intro c hc
  rcases Decimal.mem_print hc with rfl | hdigit
  · rfl
  · rw [isTokenByte, isDigit_of_decimal hdigit]
    rfl

theorem fits_print (depth : Nat) (n : Int) : Fits depth (.scalar (Decimal.print n)) := by
  have hscalar : isScalar (Decimal.print n) = true := by
    rw [isScalar, isNumber_print, Bool.or_true]
  cases depth <;> exact ⟨hscalar, isTokenByte_print n⟩

/-- A whole number is read as the number it is. -/
theorem toJson_print (n : Int) : (Tree.scalar (Decimal.print n)).toJson = .num (Decimal.print n) := by
  have hne : ∀ word : Bytes, (∃ c ∈ word, ¬ (c = Decimal.minus ∨ Decimal.isDigit c = true)) →
      Decimal.print n ≠ word := by
    rintro word ⟨c, hc, hno⟩ rfl
    exact hno (Decimal.mem_print hc)
  rw [Tree.toJson, if_neg (hne _ (by decide)), if_neg (hne _ (by decide)),
    if_neg (hne _ (by decide))]

-- ============================================================================
-- Indenting what is compact
-- ============================================================================

/-- `json.Indent` reads a compact text, unless that is nested too deep. -/
theorem indent_compactText {t : Tree} (h : Fits maxNestingDepth t) :
    indent (compactText t) = some (indentText (ascii "  ") t) := by
  rw [indent, parse_compactText h]
  rfl

theorem indent_compactText_isSome_iff {depth : Nat} {t : Tree} (h : Fits depth t) :
    (indent (compactText t)).isSome = true ↔ Fits maxNestingDepth t := by
  rw [indent, Option.isSome_map]
  exact parse_isSome_iff_fits (parse_compactText h)

/-- What it makes is read as the tree. -/
theorem decode_indentText {t : Tree} (h : Fits maxNestingDepth t) :
    decode (indentText (ascii "  ") t) = some t.toJson := by
  rw [decode, parse_indentText (List.all_eq_true.mp (by decide)) h]
  rfl

end FsBridge.Lib.JsonText
