/-
  FsBridge.Libwsc.Utf8Validator

  The two UTF-8 checks of the WebSocket client: the streaming `Utf8Validator`
  (module/libs/libwsc/src/Utf8Validator.cpp), which text messages go through
  fragment by fragment, and `WebSocketReceiver::isValidUtf8`
  (WebSocketReceiver.cpp), which the reason of a close frame goes through.

  `Utf8Validator.owed` reads the five fields of the validator as what the group at
  hand still owes; each byte then is a step of the scan of well-formed UTF-8.
-/

import FsBridge.Lib.Utf8Scan

namespace FsBridge.Libwsc

open FsBridge.Lib

structure Utf8Validator where
  expectedContinuation : Nat
  seenE0 : Bool
  seenED : Bool
  seenF0 : Bool
  seenF4 : Bool
deriving DecidableEq, Repr

namespace Utf8Validator

/-- The constructor and `reset`. -/
def reset : Utf8Validator := ⟨0, false, false, false, false⟩

/-- One turn of the loop of `validateChunk`; `false`: the function returns. -/
def validateByte (v : Utf8Validator) (b : UInt8) : Bool × Utf8Validator :=
  if v.expectedContinuation = 0 then
    if b < 0x80 then (true, v)
    else if b >>> 5 = 0x6 then
      if b < 0xC2 ∨ 0xDF < b then (false, v)
      else (true, { v with expectedContinuation := 1 })
    else if b >>> 4 = 0xE then
      (true, { v with seenE0 := b = 0xE0, seenED := b = 0xED, expectedContinuation := 2 })
    else if b >>> 3 = 0x1E then
      let v := { v with seenF0 := b = 0xF0, seenF4 := b = 0xF4 }
      if b < 0xF0 ∨ 0xF4 < b then (false, v)
      else (true, { v with expectedContinuation := 3 })
    else (false, v)
  else
    if b >>> 6 ≠ 0x2 then (false, v)
    else if v.seenE0 ∧ v.expectedContinuation = 2 ∧ b < 0xA0 then (false, v)
    else if v.seenED ∧ v.expectedContinuation = 2 ∧ 0x9F < b then (false, v)
    else if v.seenF0 ∧ v.expectedContinuation = 3 ∧ b < 0x90 then (false, v)
    else if v.seenF4 ∧ v.expectedContinuation = 3 ∧ 0x8F < b then (false, v)
    else if v.expectedContinuation - 1 = 0 then (true, reset)
    else (true, { v with expectedContinuation := v.expectedContinuation - 1 })

/-- `validateChunk`, and the validator after it. -/
def validateChunk (v : Utf8Validator) : Bytes → Bool × Utf8Validator
  | [] => (true, v)
  | b :: data =>
      let r := v.validateByte b
      if r.1 then validateChunk r.2 data else (false, r.2)

def validateFinal (v : Utf8Validator) : Bool := v.expectedContinuation = 0

/-- `validateChunk` on one chunk after the other, as long as it returns true; `none`
    where it does not. -/
def validateChunks (v : Utf8Validator) (chunks : List Bytes) : Option Utf8Validator :=
  chunks.foldlM (fun v chunk => if (v.validateChunk chunk).1 then some (v.validateChunk chunk).2
    else none) v

end Utf8Validator

/-- `WebSocketReceiver::isValidUtf8`. -/
def isValidUtf8 : Bytes → Bool
  | [] => true
  | a :: s =>
      if a ≤ 0x7F then isValidUtf8 s
      else if 0xF5 ≤ a ∨ (0xC0 ≤ a ∧ a ≤ 0xC1) then false
      else if a &&& 0xE0 = 0xC0 then
        match s with
        | b :: s => if b &&& 0xC0 ≠ 0x80 then false else isValidUtf8 s
        | [] => false
      else if a &&& 0xF0 = 0xE0 then
        match s with
        | b :: c :: s =>
            if b &&& 0xC0 ≠ 0x80 ∨ c &&& 0xC0 ≠ 0x80 then false
            else if a = 0xE0 ∧ b < 0xA0 then false
            else if a = 0xED ∧ 0xA0 ≤ b then false
            else isValidUtf8 s
        | _ => false
      else if a &&& 0xF8 = 0xF0 then
        match s with
        | b :: c :: d :: s =>
            if b &&& 0xC0 ≠ 0x80 ∨ c &&& 0xC0 ≠ 0x80 ∨ d &&& 0xC0 ≠ 0x80 then false
            else if a = 0xF0 ∧ b < 0x90 then false
            else if a = 0xF4 ∧ 0x8F < b then false
            else isValidUtf8 s
        | _ => false
      else false

-- ============================================================================
-- The bit tests of the loop
-- ============================================================================

theorem shift_tail_iff : ∀ b : UInt8, b >>> 6 = 0x2 ↔ 0x80 ≤ b.toNat ∧ b.toNat ≤ 0xBF :=
  forall_byte (by decide +kernel)

-- ============================================================================
-- A byte is a step of the scan
-- ============================================================================

namespace Utf8Validator

/-- What the group at hand still owes. -/
def owed (v : Utf8Validator) : Owed where
  count := v.expectedContinuation
  lo :=
    if v.seenE0 ∧ v.expectedContinuation = 2 then 0xA0
    else if v.seenF0 ∧ v.expectedContinuation = 3 then 0x90
    else 0x80
  hi :=
    if v.seenED ∧ v.expectedContinuation = 2 then 0x9F
    else if v.seenF4 ∧ v.expectedContinuation = 3 then 0x8F
    else 0xBF

/-- The flags are those of the group at hand. -/
def Inv (v : Utf8Validator) : Prop :=
  v.expectedContinuation ≤ 3 ∧ (v.expectedContinuation = 0 → v = reset) ∧
    (v.expectedContinuation = 3 → v.seenE0 = false ∧ v.seenED = false)

instance (v : Utf8Validator) : Decidable v.Inv := inferInstanceAs (Decidable (_ ∧ _ ∧ _))

theorem inv_reset : Inv reset := by decide

theorem owed_reset : owed reset = Owed.done := rfl

/-- The validator takes a byte as the scan does. -/
structure Follows (v : Utf8Validator) (b : UInt8) : Prop where
  fst_eq : (v.validateByte b).1 = (v.owed.step b).isSome
  snd_eq : ∀ o ∈ v.owed.step b, (v.validateByte b).2.Inv ∧ (v.validateByte b).2.owed = o

/-- Between two groups. -/
theorem follows_reset (b : UInt8) : reset.Follows b where
  fst_eq := forall_byte (p := fun b => (reset.validateByte b).1 = (reset.owed.step b).isSome)
    (by decide +kernel) b
  snd_eq := forall_byte (p := fun b => ∀ o ∈ reset.owed.step b,
    (reset.validateByte b).2.Inv ∧ (reset.validateByte b).2.owed = o) (by decide +kernel) b

/-- The range of the next byte, test by test. -/
theorem owed_range_iff (v : Utf8Validator) (b : UInt8) :
    v.owed.lo ≤ b ∧ b ≤ v.owed.hi ↔
      b >>> 6 = 0x2 ∧ ¬ (v.seenE0 ∧ v.expectedContinuation = 2 ∧ b < 0xA0) ∧
        ¬ (v.seenED ∧ v.expectedContinuation = 2 ∧ 0x9F < b) ∧
        ¬ (v.seenF0 ∧ v.expectedContinuation = 3 ∧ b < 0x90) ∧
        ¬ (v.seenF4 ∧ v.expectedContinuation = 3 ∧ 0x8F < b) := by
  rw [shift_tail_iff]
  simp only [owed, UInt8.le_iff_toNat_le, UInt8.lt_iff_toNat_lt, apply_ite UInt8.toNat,
    UInt8.reduceToNat]
  grind

/-- Inside a group. -/
theorem validateByte_tail {v : Utf8Validator} (hpos : v.expectedContinuation ≠ 0) (b : UInt8) :
    v.validateByte b =
      if v.owed.lo ≤ b ∧ b ≤ v.owed.hi then
        (true, if v.expectedContinuation - 1 = 0 then reset
          else { v with expectedContinuation := v.expectedContinuation - 1 })
      else (false, v) := by
  rw [if_congr (owed_range_iff v b) rfl rfl, validateByte, if_neg hpos]
  grind

theorem follows_tail {v : Utf8Validator} (hpos : v.expectedContinuation ≠ 0) (hinv : v.Inv)
    (b : UInt8) : v.Follows b := by
  obtain ⟨hle, -, hthree⟩ := hinv
  have hstep : v.owed.step b = if v.owed.lo ≤ b ∧ b ≤ v.owed.hi then
      some (Owed.tails (v.expectedContinuation - 1)) else none := if_neg hpos
  have hbyte := validateByte_tail hpos b
  by_cases hrange : v.owed.lo ≤ b ∧ b ≤ v.owed.hi
  · rw [if_pos hrange] at hstep hbyte
    refine ⟨by rw [hbyte, hstep]; rfl, fun o ho => ?_⟩
    rw [hstep] at ho
    cases ho
    rw [hbyte]
    by_cases hone : v.expectedContinuation - 1 = 0
    · rw [if_pos hone, hone]
      exact ⟨inv_reset, owed_reset⟩
    · -- the second byte of a group of four, or a byte from the third on
      rw [if_neg hone]
      have hrest : v.expectedContinuation - 1 ≠ 3 := by omega
      have hflags : v.expectedContinuation - 1 = 2 → v.seenE0 = false ∧ v.seenED = false :=
        fun h => hthree (by omega)
      refine ⟨⟨by dsimp only; omega, fun h => absurd h hone, fun h => absurd h hrest⟩, ?_⟩
      simp only [owed, Owed.tails, hrest, and_false, if_false]
      by_cases htwo : v.expectedContinuation - 1 = 2
      · simp [hflags htwo]
      · simp [htwo]
  · rw [if_neg hrange] at hstep hbyte
    refine ⟨by rw [hbyte, hstep]; rfl, fun o ho => ?_⟩
    rw [hstep] at ho
    exact absurd ho (by simp)

theorem follows {v : Utf8Validator} (hinv : v.Inv) (b : UInt8) : v.Follows b := by
  by_cases h : v.expectedContinuation = 0
  · rw [hinv.2.1 h]
    exact follows_reset b
  · exact follows_tail h hinv b

-- ============================================================================
-- Chunks
-- ============================================================================

/-- A chunk is a piece of the scan. -/
theorem validateChunk_scan {v : Utf8Validator} (hinv : v.Inv) (data : Bytes) :
    (v.validateChunk data).1 = (v.owed.scan data).isSome ∧
      ∀ o ∈ v.owed.scan data, (v.validateChunk data).2.Inv ∧ (v.validateChunk data).2.owed = o := by
  induction data generalizing v with
  | nil => exact ⟨rfl, fun o ho => ⟨hinv, Option.some.inj ho⟩⟩
  | cons b data ih =>
      obtain ⟨hfst, hsnd⟩ := follows hinv b
      rw [Owed.scan_cons, validateChunk]
      cases hstep : v.owed.step b with
      | none =>
          rw [hstep] at hfst
          simp [hfst]
      | some o =>
          rw [hstep] at hfst
          obtain ⟨hinv', rfl⟩ := hsnd o hstep
          simpa [hfst] using ih hinv'

/-- So are chunks one after the other. -/
theorem validateChunks_scan {v : Utf8Validator} (hinv : v.Inv) (chunks : List Bytes) :
    (v.validateChunks chunks).map owed = v.owed.scan chunks.flatten := by
  induction chunks generalizing v with
  | nil => rfl
  | cons chunk chunks ih =>
      obtain ⟨hfst, hsnd⟩ := validateChunk_scan hinv chunk
      rw [validateChunks, List.foldlM_cons, List.flatten_cons, Owed.scan_append]
      cases hscan : v.owed.scan chunk with
      | none =>
          rw [hscan] at hfst
          simp [hfst]
      | some o =>
          rw [hscan] at hfst
          obtain ⟨hinv', rfl⟩ := hsnd o hscan
          rw [if_pos (hfst.trans Option.isSome_some)]
          exact ih hinv'

/-- The streaming check, however a text is cut into chunks: the chunks are accepted and
    the final check passes exactly when the text is well-formed, and a chunk is refused
    exactly when no well-formed text begins with what has been seen by then. -/
theorem validateChunks_exact (chunks : List Bytes) :
    ((∃ v, reset.validateChunks chunks = some v ∧ v.validateFinal = true) ↔
        WellFormedUtf8 chunks.flatten) ∧
      (reset.validateChunks chunks = none ↔
        ∀ more, ¬ WellFormedUtf8 (chunks.flatten ++ more)) := by
  have hscan := validateChunks_scan inv_reset chunks
  rw [owed_reset] at hscan
  constructor
  · rw [← Owed.scan_done_iff, ← hscan]
    constructor
    · rintro ⟨v, hv, hfinal⟩
      exact ⟨v.owed, by rw [hv]; rfl, of_decide_eq_true hfinal⟩
    · rintro ⟨o, ho, hcount⟩
      obtain ⟨v, hv, rfl⟩ := Option.map_eq_some_iff.mp ho
      exact ⟨v, hv, decide_eq_true hcount⟩
  · rw [← Owed.scan_done_none_iff, ← hscan, Option.map_eq_none_iff]

/-- `s` has been read since the last reset. -/
def Read (v : Utf8Validator) (s : Bytes) : Prop := v.Inv ∧ Owed.done.scan s = some v.owed

theorem read_reset : reset.Read [] := ⟨inv_reset, rfl⟩

theorem Read.chunk {v : Utf8Validator} {s : Bytes} (h : v.Read s) (data : Bytes) :
    ((v.validateChunk data).1 = true ↔ BeginsUtf8 (s ++ data)) ∧
      ((v.validateChunk data).1 = true → (v.validateChunk data).2.Read (s ++ data)) := by
  obtain ⟨hinv, howed⟩ := h
  obtain ⟨hfst, hsnd⟩ := validateChunk_scan hinv data
  have hscan : Owed.done.scan (s ++ data) = v.owed.scan data := by
    rw [Owed.scan_append, howed, Option.bind_some]
  constructor
  · rw [hfst, ← hscan, Owed.scan_done_isSome_iff]
  · intro hok
    rw [hfst] at hok
    obtain ⟨o, ho⟩ := Option.isSome_iff_exists.mp hok
    obtain ⟨hinv', howed'⟩ := hsnd o ho
    exact ⟨hinv', by rw [hscan, ho, howed']⟩

theorem Read.final {v : Utf8Validator} {s : Bytes} (h : v.Read s) :
    v.validateFinal = true ↔ WellFormedUtf8 s := by
  rw [← Owed.scan_done_iff, h.2]
  constructor
  · exact fun hfinal => ⟨v.owed, rfl, of_decide_eq_true hfinal⟩
  · rintro ⟨o, ho, hcount⟩
    obtain rfl := Option.some.inj ho
    exact decide_eq_true hcount

/-- A text that is checked at once. -/
theorem reset_validate_iff (s : Bytes) :
    (reset.validateChunk s).1 = true ∧ (reset.validateChunk s).2.validateFinal = true ↔
      WellFormedUtf8 s := by
  obtain ⟨hfst, hread⟩ := read_reset.chunk s
  constructor
  · rintro ⟨hok, hfinal⟩
    exact (hread hok).final.mp hfinal
  · intro h
    have hok := hfst.mpr ⟨[], by simpa using h⟩
    exact ⟨hok, (hread hok).final.mpr h⟩

end Utf8Validator

-- ============================================================================
-- The reason of a close frame
-- ============================================================================

/-- Which bytes the tests on the lead byte take for one of two, three or four. -/
theorem lead_tests (a : UInt8) (hascii : ¬ a ≤ 0x7F) (hnever : ¬ (0xF5 ≤ a ∨ 0xC0 ≤ a ∧ a ≤ 0xC1)) :
    (a &&& 0xE0 = 0xC0 → 0xC2 ≤ a.toNat ∧ a.toNat ≤ 0xDF) ∧
      (a &&& 0xF0 = 0xE0 → 0xE0 ≤ a.toNat ∧ a.toNat ≤ 0xEF) ∧
      (a &&& 0xF8 = 0xF0 → 0xF0 ≤ a.toNat ∧ a.toNat ≤ 0xF4) ∧
      (¬ a &&& 0xE0 = 0xC0 → ¬ a &&& 0xF0 = 0xE0 → ¬ a &&& 0xF8 = 0xF0 → firstByte a = none) := by
  rw [two_iff, three_iff, four_iff]
  simp only [firstByte, UInt8.le_iff_toNat_le, UInt8.lt_iff_toNat_lt, ← UInt8.toNat_inj,
    UInt8.reduceToNat] at hascii hnever ⊢
  refine ⟨by omega, by omega, by omega, fun h2 h3 h4 => if_pos (by omega)⟩

/-- The check of a close reason accepts the well-formed strings too. -/
theorem isValidUtf8_iff (s : Bytes) : isValidUtf8 s = true ↔ WellFormedUtf8 s := by
  have hascii : ∀ {a : UInt8}, ¬ a ≤ 0x7F → ¬ a < 0x80 := by
    intro a h
    simp only [UInt8.le_iff_toNat_le, UInt8.lt_iff_toNat_lt, UInt8.reduceToNat] at h ⊢
    omega
  fun_induction isValidUtf8 s with
  | case1 => exact iff_of_true rfl ⟨[], by simp, rfl⟩
  | case2 a s h ih =>
      have ha : a < 0x80 := by
        simp only [UInt8.le_iff_toNat_le, UInt8.lt_iff_toNat_lt, UInt8.reduceToNat] at h ⊢
        omega
      exact ih.trans (Owed.wellFormedUtf8_ascii ha s).symm
  | case3 a s h hnever =>
      have hfirst : firstByte a = none := by
        cases hf : firstByte a with
        | none => rfl
        | some r =>
            have hcases := Owed.firstByte_iff.mp hf
            simp only [UInt8.le_iff_toNat_le, UInt8.reduceToNat] at hnever
            omega
      simp [Owed.not_wellFormedUtf8_of_firstByte (hascii h) hfirst]
  | case4 a h hnever htwo b s htail =>
      obtain ⟨hlo, hhi⟩ := (lead_tests a h hnever).1 htwo
      rw [Owed.wellFormedUtf8_two hlo hhi]
      simp [← tail_iff, htail]
  | case5 a h hnever htwo b s htail ih =>
      obtain ⟨hlo, hhi⟩ := (lead_tests a h hnever).1 htwo
      refine ih.trans ?_
      rw [Owed.wellFormedUtf8_two hlo hhi]
      simp [← tail_iff, not_not.mp htail]
  | case6 a h hnever htwo =>
      obtain ⟨hlo, hhi⟩ := (lead_tests a h hnever).1 htwo
      rw [Owed.wellFormedUtf8_two hlo hhi]
      simp
  | case7 a h hnever _ hthree b c s htails =>
      obtain ⟨hlo, hhi⟩ := (lead_tests a h hnever).2.1 hthree
      rw [Owed.wellFormedUtf8_three hlo hhi]
      simp [← tail_iff]
      grind
  | case8 a h hnever _ hthree b c s htails hE0 =>
      obtain ⟨hlo, hhi⟩ := (lead_tests a h hnever).2.1 hthree
      rw [Owed.wellFormedUtf8_three hlo hhi]
      grind
  | case9 a h hnever _ hthree b c s htails hE0 hED =>
      obtain ⟨hlo, hhi⟩ := (lead_tests a h hnever).2.1 hthree
      rw [Owed.wellFormedUtf8_three hlo hhi]
      grind
  | case10 a h hnever _ hthree b c s htails hE0 hED ih =>
      obtain ⟨hlo, hhi⟩ := (lead_tests a h hnever).2.1 hthree
      refine ih.trans ?_
      rw [Owed.wellFormedUtf8_three hlo hhi]
      simp only [← tail_iff]
      grind
  | case11 a s h hnever _ hthree hshort =>
      obtain ⟨hlo, hhi⟩ := (lead_tests a h hnever).2.1 hthree
      rw [Owed.wellFormedUtf8_three hlo hhi]
      grind
  | case12 a h hnever _ _ hfour b c d s htails =>
      obtain ⟨hlo, hhi⟩ := (lead_tests a h hnever).2.2.1 hfour
      rw [Owed.wellFormedUtf8_four hlo hhi]
      simp only [← tail_iff]
      grind
  | case13 a h hnever _ _ hfour b c d s htails hF0 =>
      obtain ⟨hlo, hhi⟩ := (lead_tests a h hnever).2.2.1 hfour
      rw [Owed.wellFormedUtf8_four hlo hhi]
      grind
  | case14 a h hnever _ _ hfour b c d s htails hF0 hF4 =>
      obtain ⟨hlo, hhi⟩ := (lead_tests a h hnever).2.2.1 hfour
      rw [Owed.wellFormedUtf8_four hlo hhi]
      grind
  | case15 a h hnever _ _ hfour b c d s htails hF0 hF4 ih =>
      obtain ⟨hlo, hhi⟩ := (lead_tests a h hnever).2.2.1 hfour
      refine ih.trans ?_
      rw [Owed.wellFormedUtf8_four hlo hhi]
      simp only [← tail_iff]
      grind
  | case16 a s h hnever _ _ hfour hshort =>
      obtain ⟨hlo, hhi⟩ := (lead_tests a h hnever).2.2.1 hfour
      rw [Owed.wellFormedUtf8_four hlo hhi]
      grind
  | case17 a s h hnever htwo hthree hfour =>
      have hfirst := (lead_tests a h hnever).2.2.2 htwo hthree hfour
      simp [Owed.not_wellFormedUtf8_of_firstByte (hascii h) hfirst]

end FsBridge.Libwsc
