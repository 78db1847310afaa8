/-
  FsBridge.Lib.Utf8Form

  Well-formed UTF-8 (RFC 3629): a string of encodings of scalar values.

  A byte string is a row of groups when every lead byte is followed by as many
  continuation bytes as its high bits ask for.  A string falls into groups in one way
  only (`groups_unique`), and it is well-formed exactly when none of them is overlong,
  a surrogate or above U+10FFFF (`wellFormedUtf8_iff`).
-/

import FsBridge.Lib.Utf8

namespace FsBridge.Lib

/-- A Unicode scalar value: a code point that is no surrogate. -/
def IsScalar (r : Nat) : Prop := r < 0xD800 ∨ 0xE000 ≤ r ∧ r < 0x110000

/-- A string of encodings of scalar values. -/
def WellFormedUtf8 (s : Bytes) : Prop :=
  ∃ rs : List Nat, (∀ r ∈ rs, IsScalar r) ∧ s = rs.flatMap encodeRune

/-- A lead byte with the continuation bytes it asks for. -/
def IsGroup : Bytes → Prop
  | [a] => a < 0x80
  | [a, b] => 0xC0 ≤ a ∧ a < 0xE0 ∧ isTail b
  | [a, b, c] => 0xE0 ≤ a ∧ a < 0xF0 ∧ isTail b ∧ isTail c
  | [a, b, c, d] => 0xF0 ≤ a ∧ a < 0xF8 ∧ isTail b ∧ isTail c ∧ isTail d
  | _ => False

/-- A group that is overlong, a surrogate or above U+10FFFF. -/
def IsForbidden : Bytes → Prop
  | [a, _] => a < 0xC2
  | [a, b, _] => a = 0xE0 ∧ b < 0xA0 ∨ a = 0xED ∧ 0xA0 ≤ b
  | [a, b, _, _] => a = 0xF0 ∧ b < 0x90 ∨ a = 0xF4 ∧ 0x90 ≤ b ∨ 0xF5 ≤ a
  | _ => False

theorem isTail_iff {b : UInt8} : isTail b = true ↔ 0x80 ≤ b.toNat ∧ b.toNat ≤ 0xBF := by
  rw [isTail, decide_eq_true_iff, UInt8.le_iff_toNat_le, UInt8.le_iff_toNat_le]
  rfl

-- ============================================================================
-- The bit tests for lead bytes
-- ============================================================================

theorem forall_byte {p : UInt8 → Prop} (h : ∀ n : Fin 256, p (UInt8.ofFin n)) (c : UInt8) : p c :=
  h c.toFin

theorem one_iff : ∀ a : UInt8, a &&& 0x80 = 0 ↔ a < 0x80 := forall_byte (by decide +kernel)

theorem tail_iff : ∀ a : UInt8, a &&& 0xC0 = 0x80 ↔ isTail a := forall_byte (by decide +kernel)

theorem two_iff : ∀ a : UInt8, a &&& 0xE0 = 0xC0 ↔ 0xC0 ≤ a ∧ a < 0xE0 :=
  forall_byte (by decide +kernel)

theorem three_iff : ∀ a : UInt8, a &&& 0xF0 = 0xE0 ↔ 0xE0 ≤ a ∧ a < 0xF0 :=
  forall_byte (by decide +kernel)

theorem four_iff : ∀ a : UInt8, a &&& 0xF8 = 0xF0 ↔ 0xF0 ≤ a ∧ a < 0xF8 :=
  forall_byte (by decide +kernel)

-- ============================================================================
-- Groups and scalar values
-- ============================================================================

/-- The encoding of a scalar value is a group, and none of the forbidden ones. -/
theorem isGroup_encodeRune {r : Nat} (h : IsScalar r) :
    IsGroup (encodeRune r) ∧ ¬ IsForbidden (encodeRune r) := by
  have hbyte : ∀ n : Nat, n < 256 → n.toUInt8.toNat = n := fun n hn =>
    Nat.mod_eq_of_lt hn
  unfold IsScalar at h
  unfold encodeRune
  split
  · rename_i hone
    refine ⟨?_, id⟩
    show r.toUInt8 < 0x80
    rw [UInt8.lt_iff_toNat_lt, hbyte r (by omega)]
    exact hone
  · split
    · rename_i hone htwo
      have ha := hbyte (0xC0 + r / 64) (by omega)
      have hb := hbyte (0x80 + r % 64) (by omega)
      constructor
      · simp only [IsGroup, isTail_iff, UInt8.le_iff_toNat_le, UInt8.lt_iff_toNat_lt, ha, hb,
          UInt8.reduceToNat]
        omega
      · simp only [IsForbidden, UInt8.lt_iff_toNat_lt, ha, UInt8.reduceToNat]
        omega
    · split
      · rename_i hone htwo hthree
        have ha := hbyte (0xE0 + r / 4096) (by omega)
        have hb := hbyte (0x80 + r / 64 % 64) (by omega)
        have hc := hbyte (0x80 + r % 64) (by omega)
        constructor
        · simp only [IsGroup, isTail_iff, UInt8.le_iff_toNat_le, UInt8.lt_iff_toNat_lt, ha, hb, hc,
            UInt8.reduceToNat]
          omega
        · simp only [IsForbidden, UInt8.le_iff_toNat_le, UInt8.lt_iff_toNat_lt, ← UInt8.toNat_inj,
            ha, hb, UInt8.reduceToNat]
          omega
      · rename_i hone htwo hthree
        have ha := hbyte (0xF0 + r / 262144) (by omega)
        have hb := hbyte (0x80 + r / 4096 % 64) (by omega)
        have hc := hbyte (0x80 + r / 64 % 64) (by omega)
        have hd := hbyte (0x80 + r % 64) (by omega)
        constructor
        · simp only [IsGroup, isTail_iff, UInt8.le_iff_toNat_le, UInt8.lt_iff_toNat_lt, ha, hb, hc,
            hd, UInt8.reduceToNat]
          omega
        · simp only [IsForbidden, UInt8.le_iff_toNat_le, UInt8.lt_iff_toNat_lt, ← UInt8.toNat_inj,
            ha, hb, UInt8.reduceToNat]
          omega

/-- Every other group encodes a scalar value. -/
theorem exists_encodeRune {g : Bytes} (hgroup : IsGroup g) (hallowed : ¬ IsForbidden g) :
    ∃ r, IsScalar r ∧ encodeRune r = g := by
  have hbyte : ∀ (n : Nat) (b : UInt8), n = b.toNat → n.toUInt8 = b := fun n b hn => by
    rw [hn]
    exact UInt8.ofNat_toNat
  unfold IsGroup at hgroup
  split at hgroup
  · rename_i a
    rw [UInt8.lt_iff_toNat_lt] at hgroup
    simp only [UInt8.reduceToNat] at hgroup
    refine ⟨a.toNat, Or.inl (by omega), ?_⟩
    rw [encodeRune, if_pos hgroup, hbyte _ a rfl]
  · rename_i a b
    simp only [isTail_iff, UInt8.le_iff_toNat_le, UInt8.lt_iff_toNat_lt,
      UInt8.reduceToNat] at hgroup
    simp only [IsForbidden, UInt8.lt_iff_toNat_lt, UInt8.reduceToNat] at hallowed
    refine ⟨(a.toNat - 0xC0) * 64 + (b.toNat - 0x80), Or.inl (by omega), ?_⟩
    rw [encodeRune, if_neg (by omega), if_pos (by omega), hbyte _ a (by omega),
      hbyte _ b (by omega)]
  · rename_i a b c
    simp only [isTail_iff, UInt8.le_iff_toNat_le, UInt8.lt_iff_toNat_lt,
      UInt8.reduceToNat] at hgroup
    simp only [IsForbidden, UInt8.le_iff_toNat_le, UInt8.lt_iff_toNat_lt, ← UInt8.toNat_inj,
      UInt8.reduceToNat] at hallowed
    refine ⟨(a.toNat - 0xE0) * 4096 + (b.toNat - 0x80) * 64 + (c.toNat - 0x80), ?_, ?_⟩
    · unfold IsScalar
      omega
    · rw [encodeRune, if_neg (by omega), if_neg (by omega), if_pos (by omega),
        hbyte _ a (by omega), hbyte _ b (by omega), hbyte _ c (by omega)]
  · rename_i a b c d
    simp only [isTail_iff, UInt8.le_iff_toNat_le, UInt8.lt_iff_toNat_lt,
      UInt8.reduceToNat] at hgroup
    simp only [IsForbidden, UInt8.le_iff_toNat_le, UInt8.lt_iff_toNat_lt, ← UInt8.toNat_inj,
      UInt8.reduceToNat] at hallowed
    refine ⟨(a.toNat - 0xF0) * 262144 + (b.toNat - 0x80) * 4096 + (c.toNat - 0x80) * 64
      + (d.toNat - 0x80), ?_, ?_⟩
    · unfold IsScalar
      omega
    · rw [encodeRune, if_neg (by omega), if_neg (by omega), if_neg (by omega),
        hbyte _ a (by omega), hbyte _ b (by omega), hbyte _ c (by omega), hbyte _ d (by omega)]
  · exact absurd hgroup id

/-- The groups of a well-formed string. -/
theorem wellFormedUtf8_iff {s : Bytes} :
    WellFormedUtf8 s ↔
      ∃ gs : List Bytes, s = gs.flatten ∧ ∀ g ∈ gs, IsGroup g ∧ ¬ IsForbidden g := by
  constructor
  · rintro ⟨rs, hscalar, rfl⟩
    refine ⟨rs.map encodeRune, List.flatMap_def, fun g hg => ?_⟩
    obtain ⟨r, hr, rfl⟩ := List.mem_map.mp hg
    exact isGroup_encodeRune (hscalar r hr)
  · rintro ⟨gs, rfl, hgs⟩
    induction gs with
    | nil => exact ⟨[], by simp, rfl⟩
    | cons g gs ih =>
        obtain ⟨rs, hscalar, hrs⟩ := ih fun g' hg' => hgs g' (List.mem_cons_of_mem g hg')
        obtain ⟨hgroup, hallowed⟩ := hgs g List.mem_cons_self
        obtain ⟨r, hr, rfl⟩ := exists_encodeRune hgroup hallowed
        refine ⟨r :: rs, ?_, ?_⟩
        · intro r' hr'
          rcases List.mem_cons.mp hr' with rfl | hin
          · exact hr
          · exact hscalar r' hin
        · rw [List.flatten_cons, List.flatMap_cons, hrs]

-- ============================================================================
-- A string falls into groups in one way
-- ============================================================================

/-- How long the group of a lead byte is. -/
def groupLength (a : UInt8) : Nat :=
  if a < 0x80 then 1 else if a < 0xE0 then 2 else if a < 0xF0 then 3 else 4

/-- A group has a lead byte, and its length. -/
theorem IsGroup.cons_length {g : Bytes} (h : IsGroup g) :
    ∃ a t, g = a :: t ∧ g.length = groupLength a := by
  unfold IsGroup at h
  split at h
  · rename_i a
    exact ⟨a, [], rfl, (if_pos h).symm⟩
  · rename_i a b
    refine ⟨a, [b], rfl, ?_⟩
    simp only [UInt8.le_iff_toNat_le, UInt8.lt_iff_toNat_lt, UInt8.reduceToNat] at h
    simp only [groupLength, UInt8.lt_iff_toNat_lt, UInt8.reduceToNat]
    rw [if_neg (by omega), if_pos (by omega)]
    rfl
  · rename_i a b c
    refine ⟨a, [b, c], rfl, ?_⟩
    simp only [UInt8.le_iff_toNat_le, UInt8.lt_iff_toNat_lt, UInt8.reduceToNat] at h
    simp only [groupLength, UInt8.lt_iff_toNat_lt, UInt8.reduceToNat]
    rw [if_neg (by omega), if_neg (by omega), if_pos (by omega)]
    rfl
  · rename_i a b c d
    refine ⟨a, [b, c, d], rfl, ?_⟩
    simp only [UInt8.le_iff_toNat_le, UInt8.lt_iff_toNat_lt, UInt8.reduceToNat] at h
    simp only [groupLength, UInt8.lt_iff_toNat_lt, UInt8.reduceToNat]
    rw [if_neg (by omega), if_neg (by omega), if_neg (by omega)]
    rfl
  · exact absurd h id

/-- Two groups at the front of a string are the same. -/
theorem group_append_inj {g h s t : Bytes} (hg : IsGroup g) (hh : IsGroup h)
    (heq : g ++ s = h ++ t) : g = h ∧ s = t := by
  obtain ⟨a, u, hgcons, hglen⟩ := hg.cons_length
  obtain ⟨b, v, hhcons, hhlen⟩ := hh.cons_length
  have hlead : a = b := by
    rw [hgcons, hhcons] at heq
    exact (List.cons.inj heq).1
  have hlen : g.length = h.length := by rw [hglen, hhlen, hlead]
  exact List.append_inj heq hlen

theorem groups_unique {gs hs : List Bytes} (hgs : ∀ g ∈ gs, IsGroup g) (hhs : ∀ h ∈ hs, IsGroup h)
    (heq : gs.flatten = hs.flatten) : gs = hs := by
  induction gs generalizing hs with
  | nil =>
      cases hs with
      | nil => rfl
      | cons h hs =>
          obtain ⟨a, t, rfl, -⟩ := (hhs h List.mem_cons_self).cons_length
          exact absurd heq (by simp)
  | cons g gs ih =>
      cases hs with
      | nil =>
          obtain ⟨a, t, rfl, -⟩ := (hgs g List.mem_cons_self).cons_length
          exact absurd heq (by simp)
      | cons h hs =>
          rw [List.flatten_cons, List.flatten_cons] at heq
          obtain ⟨hfirst, hrest⟩ :=
            group_append_inj (hgs g List.mem_cons_self) (hhs h List.mem_cons_self) heq
          rw [hfirst, ih (fun g' hg' => hgs g' (List.mem_cons_of_mem g hg'))
            (fun h' hh' => hhs h' (List.mem_cons_of_mem h hh')) hrest]

end FsBridge.Lib
