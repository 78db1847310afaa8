/-
  FsBridge.Lib.Framing

  Streams of commands that end at a blank line.

  * `readCommand` reads one command, `splitCommands` all of them.
  * `scan` follows a text through the framing: `none` where the text contains
    a blank line, otherwise whether it ends at the start of a line.  It is
    compositional (`scan_append`), which is what proofs about a text put
    together from pieces use.
  * `HasBlankLine` and `EndsLine` say the same about a piece in plain terms.
-/

import FsBridge.Lib.Ascii

namespace FsBridge.Lib

def lf : UInt8 := 10
def cr : UInt8 := 13

/-- A line that is empty once the carriage returns are stripped from its end. -/
def blankLine (line : Bytes) : Bool := line.all (· = cr)

-- ============================================================================
-- Reading
-- ============================================================================

/-- The lines of `text`, if there are any, and one more. -/
def joinLine (text : Option Bytes) (line : Bytes) : Bytes :=
  match text with
  | none => line
  | some t => t ++ [lf] ++ line

/-- Read lines up to the first blank one.  `text` is what the command has so
    far, `line` the unfinished line. -/
def readLines (text : Option Bytes) (line : Bytes) : Bytes → Option (Bytes × Bytes)
  | [] => none
  | c :: s =>
      if c = lf then
        if blankLine line then some (text.getD [], s)
        else readLines (some (joinLine text line)) [] s
      else readLines text (line ++ [c]) s

/-- The first command of a stream and the rest of the stream. -/
def readCommand (s : Bytes) : Option (Bytes × Bytes) := readLines none [] s

/-- The first commands of a stream, at most `fuel` of them, and what is left. -/
def splitCommandsFuel : Nat → Bytes → List Bytes × Bytes
  | 0, s => ([], s)
  | fuel + 1, s =>
      match readCommand s with
      | some (cmd, rest) =>
          let (cmds, left) := splitCommandsFuel fuel rest
          (cmd :: cmds, left)
      | none => ([], s)

/-- The commands of a stream, and what is left of it.  Every command takes a byte. -/
def splitCommands (s : Bytes) : List Bytes × Bytes := splitCommandsFuel (s.length + 1) s

-- ============================================================================
-- Following a text through the framing
-- ============================================================================

/-- `atStart`: the line has no byte yet but carriage returns. -/
def scan (atStart : Bool) : Bytes → Option Bool
  | [] => some atStart
  | c :: s =>
      if c = lf then if atStart then none else scan true s
      else if c = cr then scan atStart s
      else scan false s

theorem scan_append (b : Bool) (s t : Bytes) : scan b (s ++ t) = (scan b s).bind (scan · t) := by
  induction s generalizing b with
  | nil => rfl
  | cons c s ih =>
      rw [List.cons_append, scan, scan]
      split
      · split
        · rfl
        · exact ih true
      · split
        · exact ih b
        · exact ih false

/-- A byte that is no line end ends the start of the line. -/
theorem scan_cons_of_ne {b : Bool} {c : UInt8} {s : Bytes} (hlf : c ≠ lf) (hcr : c ≠ cr) :
    scan b (c :: s) = scan false s := by
  rw [scan, if_neg hlf, if_neg hcr]

theorem scan_crs {b : Bool} {s : Bytes} (h : ∀ c ∈ s, c = cr) : scan b s = some b := by
  induction s with
  | nil => rfl
  | cons c s ih =>
      obtain rfl := h c List.mem_cons_self
      rw [scan, if_neg (by decide), if_pos rfl]
      exact ih fun d hd => h d (List.mem_cons_of_mem _ hd)

/-- The text contains a blank line: two newlines with nothing but carriage
    returns between them. -/
def HasBlankLine (s : Bytes) : Prop :=
  ∃ p crs q, s = p ++ [lf] ++ crs ++ [lf] ++ q ∧ ∀ c ∈ crs, c = cr

/-- The last line of the text, after a newline, is blank. -/
def EndsLine (s : Bytes) : Prop := ∃ p crs, s = p ++ [lf] ++ crs ∧ ∀ c ∈ crs, c = cr

theorem HasBlankLine.cons {s : Bytes} (c : UInt8) (h : HasBlankLine s) : HasBlankLine (c :: s) := by
  obtain ⟨p, crs, q, rfl, hcrs⟩ := h
  exact ⟨c :: p, crs, q, rfl, hcrs⟩

theorem EndsLine.cons {s : Bytes} (c : UInt8) (h : EndsLine s) : EndsLine (c :: s) := by
  obtain ⟨p, crs, rfl, hcrs⟩ := h
  exact ⟨c :: p, crs, rfl, hcrs⟩

theorem scan_eq_none {b : Bool} {s : Bytes} (h : scan b s = none) :
    (b = true ∧ ∃ crs q, s = crs ++ [lf] ++ q ∧ ∀ c ∈ crs, c = cr) ∨ HasBlankLine s := by
  induction s generalizing b with
  | nil => exact absurd h (by simp [scan])
  | cons c s ih =>
      rw [scan] at h
      split at h
      · rename_i hlf
        subst hlf
        split at h
        · rename_i hb
          exact .inl ⟨hb, [], s, rfl, by simp⟩
        · rcases ih h with ⟨-, crs, q, rfl, hcrs⟩ | hblank
          · exact .inr ⟨[], crs, q, by simp, hcrs⟩
          · exact .inr (hblank.cons _)
      · split at h
        · rename_i hcr
          subst hcr
          rcases ih h with ⟨hb, crs, q, rfl, hcrs⟩ | hblank
          · refine .inl ⟨hb, cr :: crs, q, by simp, ?_⟩
            intro c hc
            rcases List.mem_cons.mp hc with rfl | hc
            · rfl
            · exact hcrs c hc
          · exact .inr (hblank.cons _)
        · rcases ih h with ⟨hb, -⟩ | hblank
          · exact absurd hb (by decide)
          · exact .inr (hblank.cons _)

theorem scan_eq_true {b : Bool} {s : Bytes} (h : scan b s = some true) :
    (b = true ∧ ∀ c ∈ s, c = cr) ∨ EndsLine s := by
  induction s generalizing b with
  | nil => exact .inl ⟨Option.some.inj h, by simp⟩
  | cons c s ih =>
      rw [scan] at h
      split at h
      · rename_i hlf
        subst hlf
        split at h
        · exact absurd h (by simp)
        · rcases ih h with ⟨-, hcrs⟩ | hends
          · exact .inr ⟨[], s, rfl, hcrs⟩
          · exact .inr (hends.cons _)
      · split at h
        · rename_i hcr
          subst hcr
          rcases ih h with ⟨hb, hcrs⟩ | hends
          · refine .inl ⟨hb, ?_⟩
            intro c hc
            rcases List.mem_cons.mp hc with rfl | hc
            · rfl
            · exact hcrs c hc
          · exact .inr (hends.cons _)
        · rcases ih h with ⟨hb, -⟩ | hends
          · exact absurd hb (by decide)
          · exact .inr (hends.cons _)

/-- What follows a newline. -/
theorem scan_lf {p s : Bytes} :
    scan false (p ++ [lf] ++ s) = none ∨ scan false (p ++ [lf] ++ s) = scan true s := by
  rw [List.append_assoc, scan_append]
  cases scan false p with
  | none => exact .inl rfl
  | some b =>
      cases b with
      | true => exact .inl rfl
      | false => exact .inr rfl

/-- In the middle of a line a text contains a blank line exactly when it does so
    in plain terms. -/
theorem scan_none_iff (s : Bytes) : scan false s = none ↔ HasBlankLine s := by
  constructor
  · intro h
    rcases scan_eq_none h with ⟨hb, -⟩ | hblank
    · exact absurd hb (by decide)
    · exact hblank
  · rintro ⟨p, crs, q, rfl, hcrs⟩
    have hassoc : p ++ [lf] ++ crs ++ [lf] ++ q = p ++ [lf] ++ (crs ++ lf :: q) := by simp
    rw [hassoc]
    rcases scan_lf (p := p) (s := crs ++ lf :: q) with hnone | hrest
    · exact hnone
    · rw [hrest, scan_append, scan_crs hcrs]
      rfl

/-- The text neither contains a blank line nor ends in one. -/
theorem scan_false_iff (s : Bytes) :
    scan false s = some false ↔ ¬ HasBlankLine s ∧ ¬ EndsLine s := by
  constructor
  · intro h
    refine ⟨fun hblank => ?_, ?_⟩
    · rw [(scan_none_iff s).mpr hblank] at h
      exact absurd h (by simp)
    · rintro ⟨p, crs, rfl, hcrs⟩
      rcases scan_lf (p := p) (s := crs) with hnone | hrest
      · rw [hnone] at h
        exact absurd h (by simp)
      · rw [hrest, scan_crs hcrs] at h
        exact absurd h (by simp)
  · rintro ⟨hblank, hends⟩
    cases h : scan false s with
    | none => exact absurd ((scan_none_iff s).mp h) hblank
    | some b =>
        cases b with
        | false => rfl
        | true =>
            rcases scan_eq_true h with ⟨hb, -⟩ | he
            · exact absurd hb (by decide)
            · exact absurd he hends

-- ============================================================================
-- Pieces of a line
-- ============================================================================

/-- A piece that is followed by more of its line. -/
theorem scan_piece_iff {s rest : Bytes} {c : UInt8} (hlf : c ≠ lf) (hcr : c ≠ cr) :
    scan false (s ++ c :: rest) = some false ↔
      ¬ HasBlankLine s ∧ scan false rest = some false := by
  rw [scan_append, ← scan_none_iff]
  cases scan false s with
  | none => simp
  | some b =>
      rw [Option.bind_some, scan_cons_of_ne hlf hcr]
      simp

/-- Two pieces of one line. -/
theorem hasBlankLine_piece {s rest : Bytes} {c : UInt8} (hlf : c ≠ lf) (hcr : c ≠ cr) :
    HasBlankLine (s ++ c :: rest) ↔ HasBlankLine s ∨ HasBlankLine rest := by
  rw [← scan_none_iff, ← scan_none_iff, ← scan_none_iff, scan_append]
  cases scan false s with
  | none => simp
  | some b =>
      rw [Option.bind_some, scan_cons_of_ne hlf hcr]
      simp

-- ============================================================================
-- One command
-- ============================================================================

theorem blankLine_snoc (line : Bytes) (c : UInt8) :
    blankLine (line ++ [c]) = (blankLine line && decide (c = cr)) := by
  simp [blankLine]

/-- A text without a blank line is read to its end. -/
theorem readLines_scan (text : Option Bytes) (line : Bytes) {s : Bytes} (rest : Bytes) {b : Bool}
    (h : scan (blankLine line) s = some b) :
    ∃ text' line', readLines text line (s ++ rest) = readLines text' line' rest ∧
      blankLine line' = b ∧ joinLine text' line' = joinLine text line ++ s := by
  induction s generalizing text line with
  | nil => exact ⟨text, line, rfl, Option.some.inj h, (List.append_nil _).symm⟩
  | cons c s ih =>
      rw [scan] at h
      rw [List.cons_append, readLines]
      split at h
      · rename_i hlf
        subst hlf
        split at h
        · exact absurd h (by simp)
        · rename_i hb
          obtain ⟨text', line', hread, hb', hjoin⟩ :=
            ih (some (joinLine text line)) [] h
          refine ⟨text', line', ?_, hb', ?_⟩
          · rw [if_pos rfl, if_neg hb]
            exact hread
          · rw [hjoin]
            simp [joinLine]
      · rename_i hlf
        have hnext : scan (blankLine (line ++ [c])) s = some b := by
          rw [blankLine_snoc]
          split at h
          · rename_i hcr
            simpa [hcr] using h
          · rename_i hcr
            simpa [hcr] using h
        obtain ⟨text', line', hread, hb', hjoin⟩ := ih text _ hnext
        refine ⟨text', line', ?_, hb', ?_⟩
        · rw [if_neg hlf]
          exact hread
        · rw [hjoin]
          cases text <;> simp [joinLine]

/-- A text with a blank line is not read to its end. -/
theorem readLines_blank (text : Option Bytes) (line : Bytes) {s : Bytes} (rest : Bytes)
    (h : scan (blankLine line) s = none) :
    ∃ cmd q, readLines text line (s ++ rest) = some (cmd, q ++ rest) := by
  induction s generalizing text line with
  | nil => exact absurd h (by simp [scan])
  | cons c s ih =>
      rw [scan] at h
      rw [List.cons_append, readLines]
      split at h
      · rename_i hlf
        subst hlf
        rw [if_pos rfl]
        split at h
        · rename_i hb
          rw [if_pos hb]
          exact ⟨_, s, rfl⟩
        · rename_i hb
          rw [if_neg hb]
          exact ih _ _ h
      · rename_i hlf
        rw [if_neg hlf]
        apply ih
        rw [blankLine_snoc]
        split at h
        · rename_i hcr
          simpa [hcr] using h
        · rename_i hcr
          simpa [hcr] using h

/-- A text and a blank line are read as that text exactly when the text has no
    blank line and does not end in one. -/
theorem readCommand_blank_iff (t : Bytes) :
    readCommand (t ++ [lf, lf]) = some (t, []) ↔ scan true t = some false := by
  rw [readCommand]
  constructor
  · intro hread
    cases h : scan true t with
    | none =>
        obtain ⟨cmd, q, hq⟩ := readLines_blank none [] [lf, lf] h
        rw [hq] at hread
        simp at hread
    | some b =>
        cases b with
        | false => rfl
        | true =>
            obtain ⟨text', line', hl, hb, -⟩ :=
              readLines_scan none [] [lf, lf] h
            rw [hl, readLines, if_pos rfl, if_pos hb] at hread
            simp at hread
  · intro h
    obtain ⟨text', line', hl, hb, hjoin⟩ :=
      readLines_scan none [] [lf, lf] h
    rw [hl, readLines, if_pos rfl, if_neg (by rw [hb]; decide), readLines, if_pos rfl]
    have ht : joinLine text' line' = t := hjoin
    rw [← ht]
    rfl

theorem splitCommands_eq_single_iff (s t : Bytes) :
    splitCommands s = ([t], []) ↔ readCommand s = some (t, []) := by
  rw [splitCommands, splitCommandsFuel]
  cases hread : readCommand s with
  | none => simp
  | some r =>
      obtain ⟨cmd, rest⟩ := r
      constructor
      · intro h
        have hcmd : cmd = t ∧ (splitCommandsFuel s.length rest).1 = [] ∧
            (splitCommandsFuel s.length rest).2 = [] := by
          simpa [and_assoc] using h
        obtain ⟨rfl, hnone, hleft⟩ := hcmd
        have hrest : rest = [] := by
          cases hs : s.length with
          | zero =>
              rw [hs] at hleft
              exact hleft
          | succ n =>
              rw [hs, splitCommandsFuel] at hnone hleft
              cases hnext : readCommand rest with
              | none =>
                  rw [hnext] at hleft
                  exact hleft
              | some r =>
                  rw [hnext] at hnone
                  exact absurd hnone (by simp)
        rw [hrest]
      · intro h
        obtain ⟨rfl, rfl⟩ : cmd = t ∧ rest = [] := by simpa using h
        cases s.length <;> rfl

end FsBridge.Lib
