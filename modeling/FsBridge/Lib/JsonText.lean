/-
  FsBridge.Lib.JsonText

  The texts of JSON values, over bytes: a parser that keeps the values as they are
  written, and a printer with any spaces between them.

  `Tree` is a text without its spaces: numbers and the insides of strings are kept
  byte by byte.  `json.Compact` and `json.Indent` are the parser and the printer with
  no spaces, and with a line for each value.

  * `parse_render` — what is printed parses as what it was.
  * `Fits d` — the trees that can be printed and are nested at most `d` deep; the
    parser gives no others (`fits_of_value`), and gives those whatever deeper nesting
    it would have allowed (`value_of_fits`).
-/

import FsBridge.Lib.JsonScan

namespace FsBridge.Lib.JsonText

open JsonScan (isSpace isDigit isHexDigit maxNestingDepth)

inductive Tree where
  /-- A number or a literal. -/
  | scalar (token : Bytes)
  /-- A string, by what is between its quotes. -/
  | str (body : Bytes)
  | arr (elements : List Tree)
  | obj (members : List (Bytes × Tree))
deriving Repr

-- ============================================================================
-- Strings and scalars
-- ============================================================================

/-- What is between the quotes, and what follows them, behind an opening quote. -/
def stringBody : Bytes → Option (Bytes × Bytes)
  | [] => none
  | c :: s =>
      if c = 0x22 then some ([], s)
      else if c = 0x5C then
        match s with
        | [] => none
        | e :: s =>
            if e = 0x75 then
              match s with
              | h1 :: h2 :: h3 :: h4 :: s =>
                  if isHexDigit h1 ∧ isHexDigit h2 ∧ isHexDigit h3 ∧ isHexDigit h4 then
                    (stringBody s).map fun r => (c :: e :: h1 :: h2 :: h3 :: h4 :: r.1, r.2)
                  else none
              | _ => none
            else if e ∈ ascii "bfnrt\\/\"" then
              (stringBody s).map fun r => (c :: e :: r.1, r.2)
            else none
      else if c < 0x20 then none
      else (stringBody s).map fun r => (c :: r.1, r.2)

/-- What may stand between two quotes. -/
inductive IsBody : Bytes → Prop where
  | nil : IsBody []
  | plain {c : UInt8} {s : Bytes} (hquote : c ≠ 0x22) (hslash : c ≠ 0x5C) (hctl : ¬ c < 0x20)
      (h : IsBody s) : IsBody (c :: s)
  | escape {e : UInt8} {s : Bytes} (he : e ∈ ascii "bfnrt\\/\"") (h : IsBody s) :
      IsBody (0x5C :: e :: s)
  | unicode {h1 h2 h3 h4 : UInt8} {s : Bytes}
      (hhex : isHexDigit h1 ∧ isHexDigit h2 ∧ isHexDigit h3 ∧ isHexDigit h4) (h : IsBody s) :
      IsBody (0x5C :: 0x75 :: h1 :: h2 :: h3 :: h4 :: s)

/-- Behind the digits of a number. -/
def isExponent : Bytes → Bool
  | [] => true
  | c :: s =>
      let digits := match s with
        | [] => []
        | sign :: s' => if sign = 0x2B ∨ sign = 0x2D then s' else s
      (c = 0x65 || c = 0x45) && digits ≠ [] && digits.all isDigit

/-- Behind the whole part of a number. -/
def isFraction : Bytes → Bool
  | [] => true
  | c :: s =>
      if c = 0x2E then s.takeWhile isDigit ≠ [] && isExponent (s.dropWhile isDigit)
      else isExponent (c :: s)

/-- A number without its sign. -/
def isUnsigned : Bytes → Bool
  | [] => false
  | c :: s => if c = 0x30 then isFraction s else isDigit c && isFraction (s.dropWhile isDigit)

def isNumber : Bytes → Bool
  | [] => false
  | c :: s => if c = 0x2D then isUnsigned s else isUnsigned (c :: s)

/-- The bytes that numbers and literals are written with. -/
def isTokenByte (c : UInt8) : Bool :=
  isDigit c || (0x61 ≤ c && c ≤ 0x7A) || c = 0x2B || c = 0x2D || c = 0x2E || c = 0x45

def isScalar (token : Bytes) : Bool :=
  token = ascii "null" || token = ascii "true" || token = ascii "false" || isNumber token

-- ============================================================================
-- The parser
-- ============================================================================

section

variable {A : Type}

/-- Items with commas between them, up to the closing bracket. -/
def items (item : Bytes → Option (A × Bytes)) (close : UInt8) :
    Nat → Bytes → Option (List A × Bytes)
  | 0, _ => none
  | fuel + 1, s =>
      match item s with
      | none => none
      | some (a, s) =>
          match s.dropWhile isSpace with
          | [] => none
          | c :: s =>
              if c = close then some ([a], s)
              else if c = 0x2C then (items item close fuel s).map fun r => (a :: r.1, r.2)
              else none

/-- What is between two brackets, behind the opening one. -/
def group (item : Bytes → Option (A × Bytes)) (close : UInt8) (s : Bytes) :
    Option (List A × Bytes) :=
  match s.dropWhile isSpace with
  | [] => none
  | c :: rest => if c = close then some ([], rest) else items item close s.length s

end

/-- A member of an object. -/
def member (value : Bytes → Option (Tree × Bytes)) (s : Bytes) :
    Option ((Bytes × Tree) × Bytes) :=
  match s.dropWhile isSpace with
  | [] => none
  | c :: s =>
      if c = 0x22 then
        match stringBody s with
        | none => none
        | some (name, s) =>
            match s.dropWhile isSpace with
            | [] => none
            | c :: s => if c = 0x3A then (value s).map fun r => ((name, r.1), r.2) else none
      else none

/-- A value, where `inner` is what reads the values in it, if there may be any. -/
def valueWith (inner : Option (Bytes → Option (Tree × Bytes))) (s : Bytes) :
    Option (Tree × Bytes) :=
  match s.dropWhile isSpace with
  | [] => none
  | c :: s =>
      if c = 0x22 then (stringBody s).map fun r => (.str r.1, r.2)
      else if c = 0x5B then
        inner.bind fun value => (group value 0x5D s).map fun r => (.arr r.1, r.2)
      else if c = 0x7B then
        inner.bind fun value => (group (member value) 0x7D s).map fun r => (.obj r.1, r.2)
      else
        let token := (c :: s).takeWhile isTokenByte
        if isScalar token then some (.scalar token, (c :: s).dropWhile isTokenByte) else none

/-- The value the text begins with, nested at most `depth` deep, and what follows it. -/
def value : (depth : Nat) → Bytes → Option (Tree × Bytes)
  | 0 => valueWith none
  | depth + 1 => valueWith (some (value depth))

/-- The value the text is. -/
def parse (depth : Nat) (s : Bytes) : Option Tree :=
  match value depth s with
  | some (t, rest) => if rest.all isSpace then some t else none
  | none => none

-- ============================================================================
-- The printer
-- ============================================================================

section Render

variable (newline : Nat → Bytes) (space : Bytes)

/-- The texts behind the first one between two brackets, and the closing one. -/
def bracketRest (level : Nat) (closing : UInt8) : List Bytes → Bytes
  | [] => newline level ++ [closing]
  | text :: texts => 0x2C :: newline (level + 1) ++ text ++ bracketRest level closing texts

/-- Texts between brackets, with a new line before each and before the closing one. -/
def bracket (level : Nat) (opening closing : UInt8) : List Bytes → Bytes
  | [] => [opening, closing]
  | text :: texts =>
      opening :: newline (level + 1) ++ text ++ bracketRest newline level closing texts

def memberText (name text : Bytes) : Bytes := 0x22 :: name ++ 0x22 :: 0x3A :: space ++ text

mutual

/-- The text of a value at a level: what begins a new line at each level, and what
    stands behind a colon. -/
def render (level : Nat) : Tree → Bytes
  | .scalar token => token
  | .str body => 0x22 :: body ++ [0x22]
  | .arr elements => bracket newline level 0x5B 0x5D (renderElements (level + 1) elements)
  | .obj members => bracket newline level 0x7B 0x7D (renderMembers (level + 1) members)

def renderElements (level : Nat) : List Tree → List Bytes
  | [] => []
  | t :: ts => render level t :: renderElements level ts

def renderMembers (level : Nat) : List (Bytes × Tree) → List Bytes
  | [] => []
  | (name, t) :: ms => memberText space name (render level t) :: renderMembers level ms

end

end Render

/-- The text with no spaces. -/
def compactText (t : Tree) : Bytes := render (fun _ => []) [] 0 t

/-- The text with a line for each value, indented by `indent` for each level. -/
def indentText (indent : Bytes) (t : Tree) : Bytes :=
  render (fun level => 0x0A :: (List.replicate level indent).flatten) [0x20] 0 t

example : (parse 2 (ascii " [1, \x7b\"a\" :true\x7d ,[]]")).map compactText
    = some (ascii "[1,\x7b\"a\":true\x7d,[]]") := by
  decide +kernel

-- ============================================================================
-- Bodies of strings
-- ============================================================================

theorem IsBody.append {a b : Bytes} (ha : IsBody a) (hb : IsBody b) : IsBody (a ++ b) := by
  induction ha with
  | nil => exact hb
  | plain hquote hslash hctl _ ih => exact ih.plain hquote hslash hctl
  | escape he _ ih => exact ih.escape he
  | unicode hhex _ ih => exact ih.unicode hhex

/-- A body is read up to its quote. -/
theorem IsBody.quote {body : Bytes} (h : IsBody body) (s : Bytes) :
    stringBody (body ++ 0x22 :: s) = some (body, s) := by
  induction h with
  | nil =>
      rw [List.nil_append, stringBody.eq_def]
      dsimp only
      rw [if_pos rfl]
  | plain hquote hslash hctl _ ih =>
      rw [List.cons_append, stringBody.eq_def]
      dsimp only
      rw [if_neg hquote, if_neg hslash, if_neg hctl, ih]
      rfl
  | @escape e body he _ ih =>
      have hu : e ≠ 0x75 := by
        rintro rfl
        exact absurd he (by decide)
      rw [List.cons_append, List.cons_append, stringBody.eq_def]
      dsimp only
      rw [if_neg (by decide), if_pos rfl, if_neg hu, if_pos he, ih]
      rfl
  | unicode hhex _ ih =>
      simp only [List.cons_append]
      rw [stringBody.eq_def]
      dsimp only
      rw [if_neg (by decide), if_pos rfl, if_pos rfl, if_pos hhex, ih]
      rfl

/-- What `stringBody` reads is a body and its quote. -/
theorem stringBody_spec {s body rest : Bytes} (h : stringBody s = some (body, rest)) :
    s = body ++ 0x22 :: rest ∧ IsBody body := by
  fun_induction stringBody s generalizing body with
  | case2 s =>
      cases h
      exact ⟨rfl, .nil⟩
  | case4 h1 h2 h3 h4 s hhex hquote ih =>
      obtain ⟨⟨b, r⟩, hr, heq⟩ := Option.map_eq_some_iff.mp h
      cases heq
      obtain ⟨rfl, hb⟩ := ih hr
      exact ⟨rfl, hb.unicode hhex⟩
  | case7 e s hu he hquote ih =>
      obtain ⟨⟨b, r⟩, hr, heq⟩ := Option.map_eq_some_iff.mp h
      cases heq
      obtain ⟨rfl, hb⟩ := ih hr
      exact ⟨rfl, hb.escape he⟩
  | case10 c s hquote hslash hctl ih =>
      obtain ⟨⟨b, r⟩, hr, heq⟩ := Option.map_eq_some_iff.mp h
      cases heq
      obtain ⟨rfl, hb⟩ := ih hr
      exact ⟨rfl, hb.plain hquote hslash hctl⟩
  | case1 | case3 | case5 | case6 | case8 | case9 => cases h

-- ============================================================================
-- Trees that can be printed
-- ============================================================================

/-- The tree is well formed and nested at most `depth` deep. -/
def Fits : (depth : Nat) → Tree → Prop
  | _, .scalar token => isScalar token = true ∧ ∀ c ∈ token, isTokenByte c = true
  | _, .str body => IsBody body
  | 0, .arr _ | 0, .obj _ => False
  | depth + 1, .arr elements => ∀ t ∈ elements, Fits depth t
  | depth + 1, .obj members => ∀ m ∈ members, IsBody m.1 ∧ Fits depth m.2

/-- The text begins with no space, and no bracket closes there. -/
def Opens (s : Bytes) : Prop :=
  ∃ c rest, s = c :: rest ∧ isSpace c = false ∧ c ≠ 0x5D ∧ c ≠ 0x7D

/-- A number or literal ends before the text. -/
def Stops (s : Bytes) : Prop := ∀ c ∈ s.head?, isTokenByte c = false

theorem Opens.dropWhile {s : Bytes} (h : Opens s) (rest : Bytes) :
    (s ++ rest).dropWhile isSpace = s ++ rest := by
  obtain ⟨c, s', rfl, hspace, -⟩ := h
  rw [List.cons_append, List.dropWhile_cons_of_neg (by rw [hspace]; exact Bool.false_ne_true)]

theorem dropWhile_spaces {ws : Bytes} (hws : ∀ c ∈ ws, isSpace c = true) (s : Bytes) :
    (ws ++ s).dropWhile isSpace = s.dropWhile isSpace :=
  List.dropWhile_append_of_pos hws

theorem not_tokenByte_of_space {c : UInt8} (h : isSpace c = true) : isTokenByte c = false := by
  simp only [isSpace, Bool.or_eq_true, decide_eq_true_eq] at h
  rcases h with ((rfl | rfl) | rfl) | rfl <;> decide

theorem opens_of_tokenByte {c : UInt8} (h : isTokenByte c = true) (s : Bytes) : Opens (c :: s) := by
  refine ⟨c, s, rfl, Bool.eq_false_iff.mpr fun hspace => ?_, ?_, ?_⟩
  · exact Bool.false_ne_true ((not_tokenByte_of_space hspace).symm.trans h)
  · rintro rfl
    exact absurd h (by decide)
  · rintro rfl
    exact absurd h (by decide)

theorem not_delimiter_of_tokenByte {c : UInt8} (h : isTokenByte c = true) :
    c ≠ 0x22 ∧ c ≠ 0x5B ∧ c ≠ 0x7B := by
  refine ⟨?_, ?_, ?_⟩
  all_goals
    rintro rfl
    exact absurd h (by decide)

/-- A number or a literal begins with one of their bytes. -/
theorem scalar_cons {token : Bytes} (h : isScalar token = true)
    (hbytes : ∀ c ∈ token, isTokenByte c = true) :
    ∃ c s, token = c :: s ∧ isTokenByte c = true := by
  cases token with
  | nil => exact absurd h (by decide)
  | cons c s => exact ⟨c, s, rfl, hbytes c List.mem_cons_self⟩

theorem Stops.takeWhile {rest token : Bytes} (h : Stops rest)
    (hbytes : ∀ c ∈ token, isTokenByte c = true) :
    (token ++ rest).takeWhile isTokenByte = token ∧
      (token ++ rest).dropWhile isTokenByte = rest := by
  rw [List.takeWhile_append_of_pos hbytes, List.dropWhile_append_of_pos hbytes]
  cases rest with
  | nil => exact ⟨List.append_nil _, rfl⟩
  | cons c s =>
      have hc : ¬ isTokenByte c = true := by
        rw [h c rfl]
        exact Bool.false_ne_true
      rw [List.takeWhile_cons_of_neg hc, List.dropWhile_cons_of_neg hc]
      exact ⟨List.append_nil _, rfl⟩

theorem stops_cons {c : UInt8} (h : isTokenByte c = false) (s : Bytes) : Stops (c :: s) := by
  intro c' hc
  obtain rfl := Option.some.inj hc
  exact h

/-- A number or literal ends before spaces and what ends it without them. -/
theorem stops_spaces {ws s : Bytes} (hws : ∀ c ∈ ws, isSpace c = true) (hs : Stops s) :
    Stops (ws ++ s) := by
  cases ws with
  | nil => exact hs
  | cons c ws => exact stops_cons (not_tokenByte_of_space (hws c List.mem_cons_self)) _

-- ============================================================================
-- Printing and parsing
-- ============================================================================

/-- What begins a new line is spaces. -/
def Blank (newline : Nat → Bytes) : Prop := ∀ level, ∀ c ∈ newline level, isSpace c = true

section Items

variable {A : Type} {item : Bytes → Option (A × Bytes)} {text : A → Bytes}
  {newline : Nat → Bytes} {level : Nat} {close : UInt8}

/-- The text of `x` is read as `x`, whatever spaces are before it, up to where it stops. -/
def Reads (item : Bytes → Option (A × Bytes)) (text : Bytes) (x : A) : Prop :=
  ∀ ws rest, (∀ c ∈ ws, isSpace c = true) → Stops rest →
    item (ws ++ (text ++ rest)) = some (x, rest)

theorem stops_bracketRest (hnewline : Blank newline) (hclose : isTokenByte close = false)
    (texts : List Bytes) (rest : Bytes) :
    Stops (bracketRest newline level close texts ++ rest) := by
  cases texts with
  | nil =>
      rw [bracketRest, List.append_assoc]
      exact stops_spaces (hnewline level) (stops_cons hclose rest)
  | cons text texts => exact stops_cons (by decide) _

theorem length_lt_bracketRest (texts : List Bytes) :
    texts.length < (bracketRest newline level close texts).length := by
  induction texts with
  | nil =>
      rw [bracketRest, List.length_append]
      exact Nat.lt_of_lt_of_le Nat.zero_lt_one (Nat.le_add_left _ _)
  | cons text texts ih =>
      rw [bracketRest, List.length_append, List.length_append, List.length_cons, List.length_cons]
      omega

/-- The printed items are read back. -/
theorem items_texts (hnewline : Blank newline) (hclose : close = 0x5D ∨ close = 0x7D)
    {x : A} {ys : List A} (hitem : ∀ y ∈ x :: ys, Reads item (text y) y) {ws : Bytes}
    (hws : ∀ c ∈ ws, isSpace c = true) {fuel : Nat} (hfuel : ys.length < fuel) (rest : Bytes) :
    items item close fuel
        (ws ++ (text x ++ (bracketRest newline level close (ys.map text) ++ rest)))
      = some (x :: ys, rest) := by
  have htoken : isTokenByte close = false := by
    rcases hclose with rfl | rfl <;> decide
  have hspace : ¬ isSpace close = true := by
    rcases hclose with rfl | rfl <;> decide
  have hcomma : (0x2C : UInt8) ≠ close := by
    rcases hclose with rfl | rfl <;> decide
  induction ys generalizing x ws fuel with
  | nil =>
      cases fuel with
      | zero => exact absurd hfuel (Nat.not_lt_zero _)
      | succ fuel =>
          rw [items, hitem x List.mem_cons_self ws _ hws (stops_bracketRest hnewline htoken _ _)]
          dsimp only
          rw [List.map_nil, bracketRest, List.append_assoc, dropWhile_spaces (hnewline level),
            List.singleton_append, List.dropWhile_cons_of_neg hspace]
          dsimp only
          rw [if_pos rfl]
  | cons y ys ih =>
      cases fuel with
      | zero => exact absurd hfuel (Nat.not_lt_zero _)
      | succ fuel =>
          have hrest := ih (fun z hz => hitem z (List.mem_cons_of_mem _ hz)) (hnewline (level + 1))
            (Nat.lt_of_succ_lt_succ hfuel)
          rw [items, hitem x List.mem_cons_self ws _ hws (stops_bracketRest hnewline htoken _ _)]
          dsimp only
          rw [List.map_cons, bracketRest, List.append_assoc, List.append_assoc, List.cons_append,
            List.dropWhile_cons_of_neg (by decide)]
          dsimp only
          rw [if_neg hcomma, if_pos rfl, hrest]
          rfl

/-- What is printed between two brackets is read back. -/
theorem group_bracket (hnewline : Blank newline) (hclose : close = 0x5D ∨ close = 0x7D)
    {xs : List A} (hitem : ∀ x ∈ xs, Reads item (text x) x ∧ Opens (text x)) {opening : UInt8}
    (rest : Bytes) :
    ∃ s, bracket newline level opening close (xs.map text) ++ rest = opening :: s ∧
      group item close s = some (xs, rest) := by
  cases xs with
  | nil =>
      refine ⟨close :: rest, rfl, ?_⟩
      have hspace : ¬ isSpace close = true := by
        rcases hclose with rfl | rfl <;> decide
      rw [group, List.dropWhile_cons_of_neg hspace]
      dsimp only
      rw [if_pos rfl]
  | cons x ys =>
      refine ⟨newline (level + 1) ++ (text x ++
        (bracketRest newline level close (ys.map text) ++ rest)), ?_, ?_⟩
      · rw [List.map_cons, bracket]
        simp only [List.append_assoc, List.cons_append]
      · obtain ⟨c, s, hc, hspace, hcloses⟩ := (hitem x List.mem_cons_self).2
        have hne : c ≠ close := by
          rcases hclose with rfl | rfl
          · exact hcloses.1
          · exact hcloses.2
        have hlen : (ys.map text).length < (bracketRest newline level close (ys.map text)).length :=
          length_lt_bracketRest _
        rw [List.length_map] at hlen
        have hhead : text x ++ (bracketRest newline level close (ys.map text) ++ rest)
            = c :: (s ++ (bracketRest newline level close (ys.map text) ++ rest)) := by
          rw [hc]
          rfl
        rw [group, dropWhile_spaces (hnewline (level + 1)),
          (hitem x List.mem_cons_self).2.dropWhile, hhead]
        dsimp only
        rw [if_neg hne, ← hhead]
        refine items_texts hnewline hclose (fun y hy => (hitem y hy).1) (hnewline (level + 1)) ?_
          rest
        simp only [List.length_append]
        omega

end Items

theorem renderElements_eq (newline : Nat → Bytes) (space : Bytes) (level : Nat) (ts : List Tree) :
    renderElements newline space level ts = ts.map (render newline space level) := by
  induction ts with
  | nil => rfl
  | cons t ts ih => rw [renderElements, ih, List.map_cons]

theorem renderMembers_eq (newline : Nat → Bytes) (space : Bytes) (level : Nat)
    (ms : List (Bytes × Tree)) :
    renderMembers newline space level ms
      = ms.map fun m => memberText space m.1 (render newline space level m.2) := by
  induction ms with
  | nil => rfl
  | cons m ms ih => rw [renderMembers, ih, List.map_cons]

section Round

variable {newline : Nat → Bytes} {space : Bytes}

theorem opens_bracket (level : Nat) {opening closing : UInt8} (texts : List Bytes)
    (h : opening = 0x5B ∨ opening = 0x7B) :
    Opens (bracket newline level opening closing texts) := by
  have hopens : isSpace opening = false ∧ opening ≠ 0x5D ∧ opening ≠ 0x7D := by
    rcases h with rfl | rfl <;> decide
  cases texts with
  | nil => exact ⟨opening, _, rfl, hopens⟩
  | cons text texts => exact ⟨opening, _, rfl, hopens⟩

theorem opens_render {depth : Nat} {t : Tree} (h : Fits depth t) (level : Nat) :
    Opens (render newline space level t) := by
  cases t with
  | scalar token =>
      have hscalar : isScalar token = true ∧ ∀ c ∈ token, isTokenByte c = true := by
        cases depth <;> exact h
      obtain ⟨c, s, rfl, hc⟩ := scalar_cons hscalar.1 hscalar.2
      exact opens_of_tokenByte hc s
  | str body => exact ⟨0x22, _, rfl, by decide⟩
  | arr elements => exact opens_bracket level _ (.inl rfl)
  | obj members => exact opens_bracket level _ (.inr rfl)

/-- A printed member is read back. -/
theorem reads_member {value : Bytes → Option (Tree × Bytes)} {name text : Bytes} {t : Tree}
    (hspace : ∀ c ∈ space, isSpace c = true) (hname : IsBody name) (ht : Reads value text t) :
    Reads (member value) (memberText space name text) (name, t) := by
  intro ws rest hws hrest
  rw [member, dropWhile_spaces hws, memberText, List.append_assoc, List.append_assoc,
    List.cons_append, List.dropWhile_cons_of_neg (by decide)]
  dsimp only
  rw [if_pos rfl, List.cons_append, hname.quote]
  dsimp only
  rw [List.cons_append, List.dropWhile_cons_of_neg (by decide)]
  dsimp only
  rw [if_pos rfl, ht space rest hspace hrest]
  rfl

theorem reads_scalar (inner : Option (Bytes → Option (Tree × Bytes))) {token : Bytes}
    (hscalar : isScalar token = true) (hbytes : ∀ c ∈ token, isTokenByte c = true) :
    Reads (valueWith inner) token (.scalar token) := by
  intro ws rest hws hrest
  obtain ⟨htake, hdrop⟩ := hrest.takeWhile hbytes
  obtain ⟨c, s, rfl, hc⟩ := scalar_cons hscalar hbytes
  obtain ⟨hquote, harr, hobj⟩ := not_delimiter_of_tokenByte hc
  rw [List.cons_append] at htake hdrop
  rw [valueWith, dropWhile_spaces hws, (opens_of_tokenByte hc s).dropWhile, List.cons_append]
  dsimp only
  rw [if_neg hquote, if_neg harr, if_neg hobj, htake, if_pos hscalar, hdrop]

theorem reads_str (inner : Option (Bytes → Option (Tree × Bytes))) {body : Bytes}
    (h : IsBody body) : Reads (valueWith inner) (0x22 :: body ++ [0x22]) (.str body) := by
  intro ws rest hws _
  rw [valueWith, dropWhile_spaces hws, List.cons_append, List.cons_append,
    List.dropWhile_cons_of_neg (by decide)]
  dsimp only
  rw [if_pos rfl, List.append_assoc, List.singleton_append, h.quote]
  rfl

/-- A printed value is read back, in any spaces. -/
theorem reads_render (hnewline : Blank newline) (hspace : ∀ c ∈ space, isSpace c = true)
    {depth : Nat} {t : Tree} (h : Fits depth t) (level : Nat) :
    Reads (value depth) (render newline space level t) t := by
  induction depth generalizing t level with
  | zero =>
      cases t with
      | scalar token => exact reads_scalar none h.1 h.2
      | str body => exact reads_str none h
      | arr elements => exact h.elim
      | obj members => exact h.elim
  | succ depth ih =>
      cases t with
      | scalar token => exact reads_scalar _ h.1 h.2
      | str body => exact reads_str _ h
      | arr elements =>
          intro ws rest hws _
          have hback : ∃ s, bracket newline level 0x5B 0x5D
                (elements.map (render newline space (level + 1))) ++ rest = 0x5B :: s ∧
              group (value depth) 0x5D s = some (elements, rest) :=
            group_bracket hnewline (.inl rfl)
              (fun t ht => ⟨ih (h t ht) (level + 1), opens_render (h t ht) _⟩) rest
          obtain ⟨s, hs, hgroup⟩ := hback
          rw [value, valueWith, dropWhile_spaces hws, render, renderElements_eq, hs,
            List.dropWhile_cons_of_neg (by decide)]
          dsimp only
          rw [if_neg (by decide), if_pos rfl, Option.bind_some, hgroup]
          rfl
      | obj members =>
          intro ws rest hws _
          have hback : ∃ s, bracket newline level 0x7B 0x7D (members.map fun m =>
                memberText space m.1 (render newline space (level + 1) m.2)) ++ rest = 0x7B :: s ∧
              group (member (value depth)) 0x7D s = some (members, rest) :=
            group_bracket hnewline (.inr rfl)
              (fun m hm => ⟨reads_member hspace (h m hm).1 (ih (h m hm).2 (level + 1)),
                0x22, _, rfl, by decide⟩) rest
          obtain ⟨s, hs, hgroup⟩ := hback
          rw [value, valueWith, dropWhile_spaces hws, render, renderMembers_eq, hs,
            List.dropWhile_cons_of_neg (by decide)]
          dsimp only
          rw [if_neg (by decide), if_neg (by decide), if_pos rfl, Option.bind_some, hgroup]
          rfl

/-- What is printed parses as what it was. -/
theorem parse_render (hnewline : Blank newline) (hspace : ∀ c ∈ space, isSpace c = true)
    {depth : Nat} {t : Tree} (h : Fits depth t) (level : Nat) :
    parse depth (render newline space level t) = some t := by
  have hread := reads_render hnewline hspace h level [] [] (by simp) (by simp [Stops])
  rw [List.nil_append, List.append_nil] at hread
  rw [parse, hread]
  rfl

end Round

-- ============================================================================
-- What the parser gives
-- ============================================================================

section Given

variable {A : Type} {item item' : Bytes → Option (A × Bytes)} {close : UInt8} {P : A → Prop}

theorem items_forall (hitem : ∀ s x rest, item s = some (x, rest) → P x) {fuel : Nat} {s : Bytes}
    {xs : List A} {rest : Bytes} (h : items item close fuel s = some (xs, rest)) :
    ∀ x ∈ xs, P x := by
  induction fuel generalizing s xs rest with
  | zero => cases h
  | succ fuel ih =>
      rw [items] at h
      split at h
      · cases h
      · rename_i x s' hx
        split at h
        · cases h
        · split at h
          · cases h
            intro y hy
            obtain rfl := List.mem_singleton.mp hy
            exact hitem _ _ _ hx
          · split at h
            · obtain ⟨⟨ys, r⟩, hr, heq⟩ := Option.map_eq_some_iff.mp h
              cases heq
              intro y hy
              rcases List.mem_cons.mp hy with rfl | hy
              · exact hitem _ _ _ hx
              · exact ih hr y hy
            · cases h

/-- Another reader that gives the same items gives the same list. -/
theorem items_congr (hitem : ∀ s x rest, item s = some (x, rest) → P x → item' s = some (x, rest))
    {fuel : Nat} {s : Bytes} {xs : List A} {rest : Bytes}
    (h : items item close fuel s = some (xs, rest)) (hP : ∀ x ∈ xs, P x) :
    items item' close fuel s = some (xs, rest) := by
  induction fuel generalizing s xs rest with
  | zero => cases h
  | succ fuel ih =>
      rw [items] at h ⊢
      split at h
      · cases h
      · rename_i x s' hx
        split at h
        · cases h
        · rename_i c s'' hs
          split at h
          · rename_i hc
            cases h
            rw [hitem _ _ _ hx (hP x List.mem_cons_self)]
            dsimp only
            rw [hs]
            dsimp only
            rw [if_pos hc]
          · rename_i hc
            split at h
            · rename_i hcomma
              obtain ⟨⟨ys, r⟩, hr, heq⟩ := Option.map_eq_some_iff.mp h
              cases heq
              rw [hitem _ _ _ hx (hP x List.mem_cons_self)]
              dsimp only
              rw [hs]
              dsimp only
              rw [if_neg hc, if_pos hcomma, ih hr fun y hy => hP y (List.mem_cons_of_mem _ hy)]
              rfl
            · cases h

theorem group_forall (hitem : ∀ s x rest, item s = some (x, rest) → P x) {s : Bytes}
    {xs : List A} {rest : Bytes} (h : group item close s = some (xs, rest)) : ∀ x ∈ xs, P x := by
  rw [group] at h
  split at h
  · cases h
  · split at h
    · cases h
      exact fun x hx => absurd hx List.not_mem_nil
    · exact items_forall hitem h

theorem group_congr (hitem : ∀ s x rest, item s = some (x, rest) → P x → item' s = some (x, rest))
    {s : Bytes} {xs : List A} {rest : Bytes} (h : group item close s = some (xs, rest))
    (hP : ∀ x ∈ xs, P x) : group item' close s = some (xs, rest) := by
  rw [group] at h ⊢
  split at h
  · cases h
  · split at h
    · rename_i hc
      cases h
      rw [if_pos hc]
    · rename_i hc
      rw [if_neg hc]
      exact items_congr hitem h hP

/-- What a member that has been read consists of. -/
theorem member_spec {value : Bytes → Option (Tree × Bytes)} {s : Bytes} {m : Bytes × Tree}
    {rest : Bytes} (h : member value s = some (m, rest)) :
    IsBody m.1 ∧ ∃ s', value s' = some (m.2, rest) ∧
      ∀ value', value' s' = some (m.2, rest) → member value' s = some (m, rest) := by
  rw [member] at h
  split at h
  · cases h
  · rename_i c s1 hs1
    split at h
    · rename_i hc
      split at h
      · cases h
      · rename_i name s2 hname
        split at h
        · cases h
        · rename_i c' s3 hs3
          split at h
          · rename_i hc'
            obtain ⟨⟨t, r⟩, ht, heq⟩ := Option.map_eq_some_iff.mp h
            cases heq
            refine ⟨(stringBody_spec hname).2, s3, ht, fun value' hvalue => ?_⟩
            rw [member, hs1]
            dsimp only
            rw [if_pos hc, hname]
            dsimp only
            rw [hs3]
            dsimp only
            rw [if_pos hc', hvalue]
            rfl
          · cases h
    · cases h

end Given

theorem valueWith_cases {inner : Option (Bytes → Option (Tree × Bytes))} {s rest : Bytes} {t : Tree}
    (h : valueWith inner s = some (t, rest)) :
    (∃ body, t = .str body ∧ IsBody body ∧ ∀ inner', valueWith inner' s = some (t, rest)) ∨
    (∃ token, t = .scalar token ∧ isScalar token = true ∧ (∀ c ∈ token, isTokenByte c = true) ∧
      ∀ inner', valueWith inner' s = some (t, rest)) ∨
    (∃ value ts s', inner = some value ∧ t = .arr ts ∧ group value 0x5D s' = some (ts, rest) ∧
      ∀ value', group value' 0x5D s' = some (ts, rest) →
        valueWith (some value') s = some (t, rest)) ∨
    ∃ value ms s', inner = some value ∧ t = .obj ms ∧
      group (member value) 0x7D s' = some (ms, rest) ∧
      ∀ value', group (member value') 0x7D s' = some (ms, rest) →
        valueWith (some value') s = some (t, rest) := by
  rw [valueWith] at h
  split at h
  · cases h
  · rename_i c s1 hs1
    split at h
    · rename_i hc
      obtain ⟨⟨body, r⟩, hbody, heq⟩ := Option.map_eq_some_iff.mp h
      cases heq
      refine .inl ⟨body, rfl, (stringBody_spec hbody).2, fun inner' => ?_⟩
      rw [valueWith, hs1]
      dsimp only
      rw [if_pos hc, hbody]
      rfl
    · rename_i hquote
      split at h
      · rename_i hc
        obtain ⟨value, rfl, hgroup⟩ := Option.bind_eq_some_iff.mp h
        obtain ⟨⟨ts, r⟩, hts, heq⟩ := Option.map_eq_some_iff.mp hgroup
        cases heq
        refine .inr (.inr (.inl ⟨value, ts, s1, rfl, rfl, hts, fun value' hvalue => ?_⟩))
        rw [valueWith, hs1]
        dsimp only
        rw [if_neg hquote, if_pos hc, Option.bind_some, hvalue]
        rfl
      · rename_i harr
        split at h
        · rename_i hc
          obtain ⟨value, rfl, hgroup⟩ := Option.bind_eq_some_iff.mp h
          obtain ⟨⟨ms, r⟩, hms, heq⟩ := Option.map_eq_some_iff.mp hgroup
          cases heq
          refine .inr (.inr (.inr ⟨value, ms, s1, rfl, rfl, hms, fun value' hvalue => ?_⟩))
          rw [valueWith, hs1]
          dsimp only
          rw [if_neg hquote, if_neg harr, if_pos hc, Option.bind_some, hvalue]
          rfl
        · rename_i hobj
          dsimp only at h
          split at h
          · rename_i hscalar
            cases h
            refine .inr (.inl ⟨_, rfl, hscalar, List.all_eq_true.mp List.all_takeWhile,
              fun inner' => ?_⟩)
            rw [valueWith, hs1]
            dsimp only
            rw [if_neg hquote, if_neg harr, if_neg hobj, if_pos hscalar]
          · cases h

theorem fits_of_value {depth : Nat} {s rest : Bytes} {t : Tree}
    (h : value depth s = some (t, rest)) : Fits depth t := by
  induction depth generalizing s rest t with
  | zero =>
      rcases valueWith_cases h with ⟨body, rfl, hbody, -⟩ | ⟨token, rfl, hscalar, hbytes, -⟩ |
        ⟨value, ts, s', hno, -⟩ | ⟨value, ms, s', hno, -⟩
      · exact hbody
      · exact ⟨hscalar, hbytes⟩
      · cases hno
      · cases hno
  | succ depth ih =>
      rcases valueWith_cases h with ⟨body, rfl, hbody, -⟩ | ⟨token, rfl, hscalar, hbytes, -⟩ |
        ⟨value, ts, s', hvalue, rfl, hts, -⟩ | ⟨value, ms, s', hvalue, rfl, hms, -⟩
      · exact hbody
      · exact ⟨hscalar, hbytes⟩
      · cases hvalue
        exact group_forall (fun _ _ _ ht => ih ht) hts
      · cases hvalue
        refine group_forall (fun _ m _ hm => ?_) hms
        obtain ⟨hname, s', hvalue, -⟩ := member_spec hm
        exact ⟨hname, ih hvalue⟩

/-- A value that is nested no deeper than `depth` is read with that depth. -/
theorem value_of_fits {depth depth' : Nat} {s rest : Bytes} {t : Tree}
    (h : value depth' s = some (t, rest)) (hfits : Fits depth t) :
    value depth s = some (t, rest) := by
  induction depth' generalizing depth s rest t with
  | zero =>
      rcases valueWith_cases h with ⟨body, rfl, -, hall⟩ | ⟨token, rfl, -, -, hall⟩ |
        ⟨value, ts, s', hno, -⟩ | ⟨value, ms, s', hno, -⟩
      · cases depth <;> exact hall _
      · cases depth <;> exact hall _
      · cases hno
      · cases hno
  | succ depth' ih =>
      rcases valueWith_cases h with ⟨body, rfl, -, hall⟩ | ⟨token, rfl, -, -, hall⟩ |
        ⟨value, ts, s', hvalue, rfl, hts, hall⟩ | ⟨value, ms, s', hvalue, rfl, hms, hall⟩
      · cases depth <;> exact hall _
      · cases depth <;> exact hall _
      · cases hvalue
        cases depth with
        | zero => exact hfits.elim
        | succ depth => exact hall _ (group_congr (fun _ _ _ ht hP => ih ht hP) hts hfits)
      · cases hvalue
        cases depth with
        | zero => exact hfits.elim
        | succ depth =>
            refine hall _ (group_congr (fun _ m _ hm hP => ?_) hms hfits)
            obtain ⟨-, s', hvalue, hmember⟩ := member_spec hm
            exact hmember _ (ih hvalue hP.2)

theorem fits_of_parse {depth : Nat} {s : Bytes} {t : Tree} (h : parse depth s = some t) :
    Fits depth t := by
  rw [parse] at h
  split at h
  · rename_i t' rest hvalue
    split at h
    · cases h
      exact fits_of_value hvalue
    · cases h
  · cases h

/-- The same text, parsed with another bound on the depth. -/
theorem parse_of_fits {depth depth' : Nat} {s : Bytes} {t : Tree} (h : parse depth' s = some t)
    (hfits : Fits depth t) : parse depth s = some t := by
  rw [parse] at h
  split at h
  · rename_i t' rest hvalue
    split at h
    · rename_i hrest
      cases h
      rw [parse, value_of_fits hvalue hfits]
      dsimp only
      rw [if_pos hrest]
    · cases h
  · cases h

theorem Fits.mono {depth depth' : Nat} {t : Tree} (h : Fits depth t) (hle : depth ≤ depth') :
    Fits depth' t := by
  induction depth generalizing depth' t with
  | zero =>
      cases t with
      | scalar token => cases depth' <;> exact h
      | str body => cases depth' <;> exact h
      | arr elements => exact h.elim
      | obj members => exact h.elim
  | succ depth ih =>
      cases depth' with
      | zero => exact absurd hle (Nat.not_succ_le_zero _)
      | succ depth' =>
          cases t with
          | scalar token => exact h
          | str body => exact h
          | arr elements => exact fun t ht => ih (h t ht) (Nat.le_of_succ_le_succ hle)
          | obj members =>
              exact fun m hm => ⟨(h m hm).1, ih (h m hm).2 (Nat.le_of_succ_le_succ hle)⟩

/-- A text that parses does so with another bound exactly when the tree is within it. -/
theorem parse_isSome_iff_fits {depth depth' : Nat} {s : Bytes} {t : Tree}
    (h : parse depth' s = some t) : (parse depth s).isSome = true ↔ Fits depth t := by
  constructor
  · intro hsome
    obtain ⟨t', ht'⟩ := Option.isSome_iff_exists.mp hsome
    have hfits : Fits depth t' := fits_of_parse ht'
    -- with the greater of the two bounds the text parses as both
    have hleft : parse (max depth depth') s = some t' :=
      parse_of_fits ht' (hfits.mono (Nat.le_max_left _ _))
    have hright : parse (max depth depth') s = some t :=
      parse_of_fits h ((fits_of_parse h).mono (Nat.le_max_right _ _))
    rw [hleft] at hright
    rwa [← Option.some.inj hright]
  · intro hfits
    rw [parse_of_fits h hfits]
    rfl

/-- With a line for each value, what is printed parses as what it was. -/
theorem parse_indentText {indent : Bytes} (hindent : ∀ c ∈ indent, isSpace c = true) {depth : Nat}
    {t : Tree} (h : Fits depth t) : parse depth (indentText indent t) = some t := by
  refine parse_render (fun level c hc => ?_) (List.all_eq_true.mp (by decide)) h 0
  rcases List.mem_cons.mp hc with rfl | hc
  · rfl
  · obtain ⟨line, hline, hc⟩ := List.mem_flatten.mp hc
    rw [List.eq_of_mem_replicate hline] at hc
    exact hindent c hc

theorem parse_compactText {depth : Nat} {t : Tree} (h : Fits depth t) :
    parse depth (compactText t) = some t :=
  parse_render (fun _ _ hc => absurd hc List.not_mem_nil)
    (fun _ hc => absurd hc List.not_mem_nil) h 0

end FsBridge.Lib.JsonText
