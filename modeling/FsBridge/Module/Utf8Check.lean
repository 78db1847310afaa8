/-
  FsBridge.Module.Utf8Check

  `is_valid_utf8` (module/ws_bridge_glue.cpp): which C strings it takes for UTF-8.

  It checks the high bits of each byte, so it takes every row of groups
  (`isValidUtf8_spec`), also the groups that UTF-8 forbids.
-/

import FsBridge.Lib.Utf8Form

namespace FsBridge.Module.Utf8Check

open FsBridge.Lib

/-- A C string: the bytes before its NUL. -/
structure CString where
  bytes : Bytes
  noNul : ∀ c ∈ bytes, c ≠ 0

theorem noNul_of_all {bytes : Bytes} (h : bytes.all (· ≠ 0) = true) : ∀ c ∈ bytes, c ≠ 0 :=
  fun c hc => of_decide_eq_true (List.all_eq_true.mp h c hc)

/-- The array of the string, with its NUL. -/
def CString.array (s : CString) : Bytes := s.bytes ++ [0]

/-- `(c & 0xC0) == 0x80`. -/
def isContinuation (c : UInt8) : Bool := c &&& 0xC0 = 0x80

/-- `is_valid_utf8`, from `str` on: `none` where it reads past the array. -/
def isValidUtf8 : Bytes → Option Bool
  | [] => none
  | a :: s =>
      if a = 0 then some true
      else if a &&& 0x80 = 0 then isValidUtf8 s
      else if a &&& 0xE0 = 0xC0 then
        match s with
        | [] => none
        | b :: s => if isContinuation b then isValidUtf8 s else some false
      else if a &&& 0xF0 = 0xE0 then
        match s with
        | [] => none
        | b :: s =>
            if isContinuation b then
              match s with
              | [] => none
              | c :: s => if isContinuation c then isValidUtf8 s else some false
            else some false
      else if a &&& 0xF8 = 0xF0 then
        match s with
        | [] => none
        | b :: s =>
            if isContinuation b then
              match s with
              | [] => none
              | c :: s =>
                  if isContinuation c then
                    match s with
                    | [] => none
                    | d :: s => if isContinuation d then isValidUtf8 s else some false
                  else some false
            else some false
      else some false

-- ============================================================================
-- The bit tests
-- ============================================================================

theorem isContinuation_eq : ∀ c : UInt8, isContinuation c = isTail c :=
  forall_byte (by decide +kernel)

-- ============================================================================
-- One turn of the loop
-- ============================================================================

/-- How a string begins that begins with a group. -/
theorem of_isGroup_append {a : UInt8} {t g rest : Bytes} (heq : a :: t = g ++ rest)
    (h : IsGroup g) :
    a < 0x80 ∨ (0xC0 ≤ a ∧ a < 0xE0 ∧ ∃ b u, t = b :: u ∧ isTail b) ∨
      (0xE0 ≤ a ∧ a < 0xF0 ∧ ∃ b c u, t = b :: c :: u ∧ isTail b ∧ isTail c) ∨
      (0xF0 ≤ a ∧ a < 0xF8 ∧ ∃ b c d u, t = b :: c :: d :: u ∧ isTail b ∧ isTail c ∧ isTail d) := by
  unfold IsGroup at h
  split at h
  · obtain ⟨rfl, rfl⟩ := List.cons.inj heq
    exact Or.inl h
  · rename_i b
    obtain ⟨rfl, rfl⟩ := List.cons.inj heq
    exact Or.inr (Or.inl ⟨h.1, h.2.1, b, rest, rfl, h.2.2⟩)
  · rename_i b c
    obtain ⟨rfl, rfl⟩ := List.cons.inj heq
    exact Or.inr (Or.inr (Or.inl ⟨h.1, h.2.1, b, c, rest, rfl, h.2.2⟩))
  · rename_i b c d
    obtain ⟨rfl, rfl⟩ := List.cons.inj heq
    exact Or.inr (Or.inr (Or.inr ⟨h.1, h.2.1, b, c, d, rest, rfl, h.2.2⟩))
  · exact absurd h id

/-- What a turn of the loop does: it passes a group, or refuses a string that begins with
    none. -/
def Turn (s : Bytes) : Prop :=
  (∃ g rest, s = g ++ rest ∧ IsGroup g ∧ isValidUtf8 (s ++ [0]) = isValidUtf8 (rest ++ [0])) ∨
    (isValidUtf8 (s ++ [0]) = some false ∧ ¬ ∃ g rest, s = g ++ rest ∧ IsGroup g)

/-- One test of `str[1]`, `str[2]` or `str[3]`, and what is done behind it. -/
def tailThen (next : Bytes → Option Bool) : Bytes → Option Bool
  | [] => none
  | b :: s => if isContinuation b then next s else some false

theorem tailThen_nul (next : Bytes → Option Bool) (s : Bytes) :
    (∃ b u, s = b :: u ∧ isTail b ∧ tailThen next (s ++ [0]) = next (u ++ [0])) ∨
      (tailThen next (s ++ [0]) = some false ∧ ¬ ∃ b u, s = b :: u ∧ isTail b) := by
  cases s with
  | nil => exact Or.inr ⟨rfl, by simp⟩
  | cons b u =>
      rw [List.cons_append, tailThen, isContinuation_eq]
      by_cases hb : isTail b
      · exact Or.inl ⟨b, u, rfl, hb, if_pos hb⟩
      · refine Or.inr ⟨if_neg hb, ?_⟩
        rintro ⟨b', u', heq, hb'⟩
        obtain ⟨rfl, rfl⟩ := List.cons.inj heq
        exact hb hb'

theorem turn_one {a : UInt8} (t : Bytes) (hne : a ≠ 0) (hhi : a < 0x80) : Turn (a :: t) := by
  have hone : a &&& 0x80 = 0 := (one_iff a).mpr hhi
  refine Or.inl ⟨[a], t, rfl, hhi, ?_⟩
  rw [List.cons_append, isValidUtf8.eq_def]
  dsimp only
  rw [if_neg hne, if_pos hone]

theorem turn_two {a : UInt8} (t : Bytes) (hlo : 0xC0 ≤ a) (hhi : a < 0xE0) : Turn (a :: t) := by
  have hloop : isValidUtf8 (a :: t ++ [0]) = tailThen isValidUtf8 (t ++ [0]) := by
    have ha : ¬ a = 0 := by grind
    have hone : ¬ a &&& 0x80 = 0 := by rw [one_iff]; grind
    have htwo : a &&& 0xE0 = 0xC0 := (two_iff a).mpr ⟨hlo, hhi⟩
    rw [List.cons_append, isValidUtf8.eq_def]
    dsimp only
    rw [if_neg ha, if_neg hone, if_pos htwo]
    rfl
  rw [Turn, hloop]
  rcases tailThen_nul isValidUtf8 t with ⟨b, u, rfl, hb, hnext⟩ | ⟨hstop, hlacks⟩
  · exact Or.inl ⟨[a, b], u, rfl, ⟨hlo, hhi, hb⟩, hnext⟩
  · refine Or.inr ⟨hstop, ?_⟩
    rintro ⟨g, rest, heq, hg⟩
    have hbegin := of_isGroup_append heq hg
    grind

theorem turn_three {a : UInt8} (t : Bytes) (hlo : 0xE0 ≤ a) (hhi : a < 0xF0) :
    Turn (a :: t) := by
  have hloop : isValidUtf8 (a :: t ++ [0]) = tailThen (tailThen isValidUtf8) (t ++ [0]) := by
    have ha : ¬ a = 0 := by grind
    have hone : ¬ a &&& 0x80 = 0 := by rw [one_iff]; grind
    have htwo : ¬ a &&& 0xE0 = 0xC0 := by rw [two_iff]; grind
    have hthree : a &&& 0xF0 = 0xE0 := (three_iff a).mpr ⟨hlo, hhi⟩
    rw [List.cons_append, isValidUtf8.eq_def]
    dsimp only
    rw [if_neg ha, if_neg hone, if_neg htwo, if_pos hthree]
    rfl
  rw [Turn, hloop]
  rcases tailThen_nul (tailThen isValidUtf8) t with ⟨b, u, rfl, hb, hnext⟩ | ⟨hstop, hlacks⟩
  · rw [hnext]
    rcases tailThen_nul isValidUtf8 u with ⟨c, v, rfl, hc, hnext⟩ | ⟨hstop, hlacks⟩
    · exact Or.inl ⟨[a, b, c], v, rfl, ⟨hlo, hhi, hb, hc⟩, hnext⟩
    · refine Or.inr ⟨hstop, ?_⟩
      rintro ⟨g, rest, heq, hg⟩
      have hbegin := of_isGroup_append heq hg
      grind
  · refine Or.inr ⟨hstop, ?_⟩
    rintro ⟨g, rest, heq, hg⟩
    have hbegin := of_isGroup_append heq hg
    grind

theorem turn_four {a : UInt8} (t : Bytes) (hlo : 0xF0 ≤ a) (hhi : a < 0xF8) :
    Turn (a :: t) := by
  have hloop : isValidUtf8 (a :: t ++ [0])
      = tailThen (tailThen (tailThen isValidUtf8)) (t ++ [0]) := by
    have ha : ¬ a = 0 := by grind
    have hone : ¬ a &&& 0x80 = 0 := by rw [one_iff]; grind
    have htwo : ¬ a &&& 0xE0 = 0xC0 := by rw [two_iff]; grind
    have hthree : ¬ a &&& 0xF0 = 0xE0 := by rw [three_iff]; grind
    have hfour : a &&& 0xF8 = 0xF0 := (four_iff a).mpr ⟨hlo, hhi⟩
    rw [List.cons_append, isValidUtf8.eq_def]
    dsimp only
    rw [if_neg ha, if_neg hone, if_neg htwo, if_neg hthree, if_pos hfour]
    rfl
  rw [Turn, hloop]
  rcases tailThen_nul (tailThen (tailThen isValidUtf8)) t with
    ⟨b, u, rfl, hb, hnext⟩ | ⟨hstop, hlacks⟩
  · rw [hnext]
    rcases tailThen_nul (tailThen isValidUtf8) u with ⟨c, v, rfl, hc, hnext⟩ | ⟨hstop, hlacks⟩
    · rw [hnext]
      rcases tailThen_nul isValidUtf8 v with ⟨d, w, rfl, hd, hnext⟩ | ⟨hstop, hlacks⟩
      · exact Or.inl ⟨[a, b, c, d], w, rfl, ⟨hlo, hhi, hb, hc, hd⟩, hnext⟩
      · refine Or.inr ⟨hstop, ?_⟩
        rintro ⟨g, rest, heq, hg⟩
        have hbegin := of_isGroup_append heq hg
        grind
    · refine Or.inr ⟨hstop, ?_⟩
      rintro ⟨g, rest, heq, hg⟩
      have hbegin := of_isGroup_append heq hg
      grind
  · refine Or.inr ⟨hstop, ?_⟩
    rintro ⟨g, rest, heq, hg⟩
    have hbegin := of_isGroup_append heq hg
    grind

/-- A byte that leads no group. -/
theorem turn_invalid {a : UInt8} (t : Bytes) (hrange : 0x80 ≤ a ∧ a < 0xC0 ∨ 0xF8 ≤ a) :
    Turn (a :: t) := by
  have ha : ¬ a = 0 := by grind
  have hone : ¬ a &&& 0x80 = 0 := by rw [one_iff]; grind
  have htwo : ¬ a &&& 0xE0 = 0xC0 := by rw [two_iff]; grind
  have hthree : ¬ a &&& 0xF0 = 0xE0 := by rw [three_iff]; grind
  have hfour : ¬ a &&& 0xF8 = 0xF0 := by rw [four_iff]; grind
  refine Or.inr ⟨?_, ?_⟩
  · rw [List.cons_append, isValidUtf8.eq_def]
    dsimp only
    rw [if_neg ha, if_neg hone, if_neg htwo, if_neg hthree, if_neg hfour]
  · rintro ⟨g, rest, heq, hg⟩
    have hbegin := of_isGroup_append heq hg
    grind

theorem turn {a : UInt8} (t : Bytes) (hne : a ≠ 0) : Turn (a :: t) := by
  by_cases hone : a < 0x80
  · exact turn_one t hne hone
  · by_cases htwo : 0xC0 ≤ a ∧ a < 0xE0
    · exact turn_two t htwo.1 htwo.2
    · by_cases hthree : 0xE0 ≤ a ∧ a < 0xF0
      · exact turn_three t hthree.1 hthree.2
      · by_cases hfour : 0xF0 ≤ a ∧ a < 0xF8
        · exact turn_four t hfour.1 hfour.2
        · exact turn_invalid t (by grind)

-- ============================================================================
-- The loop
-- ============================================================================

/-- **The validator.**  It stays within the array, and takes the rows of groups. -/
theorem isValidUtf8_spec (s : CString) :
    ∃ valid, isValidUtf8 s.array = some valid ∧
      (valid = true ↔ ∃ gs : List Bytes, s.bytes = gs.flatten ∧ ∀ g ∈ gs, IsGroup g) := by
  obtain ⟨s, hnul⟩ := s
  show ∃ valid, isValidUtf8 (s ++ [0]) = some valid ∧
    (valid = true ↔ ∃ gs : List Bytes, s = gs.flatten ∧ ∀ g ∈ gs, IsGroup g)
  -- on the length: each turn passes a group, which has a byte
  induction hlen : s.length using Nat.strongRecOn generalizing s with
  | ind n ih =>
      cases s with
      | nil => exact ⟨true, rfl, iff_of_true rfl ⟨[], rfl, by simp⟩⟩
      | cons a t =>
          rcases turn t (hnul a List.mem_cons_self) with
            ⟨g, rest, heq, hg, hpass⟩ | ⟨hrefuse, hnone⟩
          · obtain ⟨b, u, rfl, -⟩ := hg.cons_length
            have hrest : ∀ c ∈ rest, c ≠ 0 := fun c hc => hnul c (by simp [heq, hc])
            have hshort : rest.length < n := by
              rw [← hlen, heq, List.length_append, List.length_cons]
              omega
            obtain ⟨valid, hvalid, hgroups⟩ := ih rest.length hshort rest hrest rfl
            refine ⟨valid, hpass.trans hvalid, hgroups.trans ?_⟩
            rw [heq]
            constructor
            · rintro ⟨gs, rfl, hgs⟩
              exact ⟨(b :: u) :: gs, rfl, by simpa using ⟨hg, hgs⟩⟩
            · rintro ⟨gs, hflat, hgs⟩
              -- the first group is that of the turn
              cases gs with
              | nil => exact absurd hflat (by simp)
              | cons g gs =>
                  obtain ⟨-, hrest⟩ := group_append_inj hg (hgs g List.mem_cons_self) hflat
                  exact ⟨gs, hrest, fun g' hg' => hgs g' (List.mem_cons_of_mem g hg')⟩
          · refine ⟨false, hrefuse, iff_of_false Bool.false_ne_true ?_⟩
            rintro ⟨gs, hflat, hgs⟩
            cases gs with
            | nil => exact absurd hflat (by simp)
            | cons g gs => exact hnone ⟨g, gs.flatten, hflat, hgs g List.mem_cons_self⟩

/-- The validator answers for this string, and its answer is whether it is UTF-8. -/
def Exact (s : CString) : Prop :=
  ∃ valid, isValidUtf8 s.array = some valid ∧ (valid = true ↔ WellFormedUtf8 s.bytes)

/-- **Exactness of the validator.**  It goes wrong exactly for the rows of groups with an
    overlong form, a surrogate or something above U+10FFFF among them. -/
theorem isValidUtf8_exact_iff (s : CString) :
    Exact s ↔ ¬ ∃ gs : List Bytes, s.bytes = gs.flatten ∧ (∀ g ∈ gs, IsGroup g) ∧
      ∃ g ∈ gs, IsForbidden g := by
  obtain ⟨valid, hvalid, hgroups⟩ := isValidUtf8_spec s
  constructor
  · rintro ⟨valid', hvalid', hexact⟩ ⟨gs, hflat, hgs, g, hg, hforbidden⟩
    obtain rfl : valid = valid' := Option.some.inj (hvalid.symm.trans hvalid')
    have hform := hexact.mp (hgroups.mpr ⟨gs, hflat, hgs⟩)
    obtain ⟨hs, hflat', hhs⟩ := wellFormedUtf8_iff.mp hform
    obtain rfl := groups_unique hgs (fun h hh => (hhs h hh).1) (hflat.symm.trans hflat')
    exact (hhs g hg).2 hforbidden
  · intro hnone
    refine ⟨valid, hvalid, hgroups.trans ?_⟩
    rw [wellFormedUtf8_iff]
    constructor
    · rintro ⟨gs, hflat, hgs⟩
      exact ⟨gs, hflat, fun g hg => ⟨hgs g hg, fun hf => hnone ⟨gs, hflat, hgs, g, hg, hf⟩⟩⟩
    · rintro ⟨gs, hflat, hgs⟩
      exact ⟨gs, hflat, fun g hg => (hgs g hg).1⟩

/-- The overlong form of NUL passes. -/
theorem overlong_accepted : ¬ Exact ⟨[0xC0, 0x80], noNul_of_all rfl⟩ := by
  rintro ⟨valid, hvalid, hexact⟩
  have hgroup : IsGroup [0xC0, 0x80] := ⟨by decide, by decide, by decide⟩
  have hpass : isValidUtf8 [0xC0, 0x80, 0] = some true := by decide
  have htrue : valid = true := Option.some.inj (hvalid.symm.trans hpass)
  obtain ⟨hs, hflat, hhs⟩ := wellFormedUtf8_iff.mp (hexact.mp htrue)
  have hone : [[0xC0, 0x80]] = hs := by
    refine groups_unique ?_ (fun h hh => (hhs h hh).1) hflat
    intro g hg
    rw [List.mem_singleton.mp hg]
    exact hgroup
  have hforbidden : IsForbidden [0xC0, 0x80] := by
    show (0xC0 : UInt8) < 0xC2
    decide
  exact (hhs [0xC0, 0x80] (by rw [← hone]; exact List.mem_cons_self)).2 hforbidden

end FsBridge.Module.Utf8Check
