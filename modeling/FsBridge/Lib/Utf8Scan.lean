/-
  FsBridge.Lib.Utf8Scan

  Well-formed UTF-8, read byte by byte.

  Between two bytes all that matters is how many bytes the group still owes, and
  the range of the next one (`Owed`).  `Follows o s` is the language that may come
  behind; `follows_cons` splits it at its first byte, so a scan ends between groups
  exactly on well-formed strings (`scan_done_iff`) and fails exactly where no
  well-formed string begins that way (`scan_done_none_iff`).
-/

import FsBridge.Lib.Utf8Form

namespace FsBridge.Lib

/-- The bytes a group still owes, and the range of the next one. -/
structure Owed where
  count : Nat
  lo : UInt8
  hi : UInt8
deriving DecidableEq, Repr

/-- Some well-formed text begins so. -/
def BeginsUtf8 (s : Bytes) : Prop := ∃ more, WellFormedUtf8 (s ++ more)

namespace Owed

/-- Between two groups, or behind the second byte of one. -/
def tails (count : Nat) : Owed := ⟨count, 0x80, 0xBF⟩

/-- Between two groups. -/
def done : Owed := tails 0

def step (o : Owed) (b : UInt8) : Option Owed :=
  if o.count = 0 then
    if b < 0x80 then some done
    else (firstByte b).map fun (size, lo, hi) => ⟨size - 1, lo, hi⟩
  else if o.lo ≤ b ∧ b ≤ o.hi then some (tails (o.count - 1)) else none

/-- The bytes of `s`, one after the other. -/
def scan (o : Owed) (s : Bytes) : Option Owed := s.foldlM step o

/-- The bytes that pay what is owed. -/
def Pays (o : Owed) (t : Bytes) : Prop :=
  t.length = o.count ∧
    match t with
    | [] => True
    | b :: u => (o.lo ≤ b ∧ b ≤ o.hi) ∧ ∀ c ∈ u, isTail c

/-- The strings that may come behind. -/
def Follows (o : Owed) (s : Bytes) : Prop :=
  ∃ t rest, s = t ++ rest ∧ o.Pays t ∧ WellFormedUtf8 rest

-- ============================================================================
-- Groups
-- ============================================================================

/-- The lead bytes, by the second byte they ask for. -/
theorem firstByte_iff {a : UInt8} {size : Nat} {lo hi : UInt8} :
    firstByte a = some (size, lo, hi) ↔
      (size = 2 ∧ lo.toNat = 0x80 ∧ hi.toNat = 0xBF ∧ 0xC2 ≤ a.toNat ∧ a.toNat ≤ 0xDF) ∨
      (size = 3 ∧ lo.toNat = 0xA0 ∧ hi.toNat = 0xBF ∧ a.toNat = 0xE0) ∨
      (size = 3 ∧ lo.toNat = 0x80 ∧ hi.toNat = 0x9F ∧ a.toNat = 0xED) ∨
      (size = 3 ∧ lo.toNat = 0x80 ∧ hi.toNat = 0xBF ∧ 0xE1 ≤ a.toNat ∧ a.toNat ≤ 0xEF ∧
        a.toNat ≠ 0xED) ∨
      (size = 4 ∧ lo.toNat = 0x90 ∧ hi.toNat = 0xBF ∧ a.toNat = 0xF0) ∨
      (size = 4 ∧ lo.toNat = 0x80 ∧ hi.toNat = 0xBF ∧ 0xF1 ≤ a.toNat ∧ a.toNat ≤ 0xF3) ∨
      (size = 4 ∧ lo.toNat = 0x80 ∧ hi.toNat = 0x8F ∧ a.toNat = 0xF4) := by
  have hsome : ∀ (n : Nat) (l h : UInt8), (some (n, l, h) = some (size, lo, hi)) ↔
      (size = n ∧ lo.toNat = l.toNat ∧ hi.toNat = h.toNat) := by
    intro n l h
    simp only [Option.some.injEq, Prod.mk.injEq, UInt8.toNat_inj, eq_comm]
  simp only [firstByte, UInt8.le_iff_toNat_le, UInt8.lt_iff_toNat_lt, ← UInt8.toNat_inj (a := a),
    UInt8.reduceToNat]
  repeat' split
  all_goals simp only [hsome, reduceCtorEq, UInt8.reduceToNat, false_iff]
  all_goals omega

theorem pays_cons {o : Owed} {b : UInt8} {u : Bytes} :
    o.Pays (b :: u) ↔ u.length + 1 = o.count ∧
      (o.lo.toNat ≤ b.toNat ∧ b.toNat ≤ o.hi.toNat) ∧ ∀ c ∈ u, isTail c := by
  rw [Pays, List.length_cons, UInt8.le_iff_toNat_le, UInt8.le_iff_toNat_le]

/-- A group that is allowed is a lead byte and what it asks for. -/
theorem allowed_iff (a : UInt8) (t : Bytes) :
    IsGroup (a :: t) ∧ ¬ IsForbidden (a :: t) ↔
      (a < 0x80 ∧ t = []) ∨ (¬ a < 0x80 ∧
        ∃ size lo hi, firstByte a = some (size, lo, hi) ∧ Pays ⟨size - 1, lo, hi⟩ t) := by
  have hrange : ∀ {size : Nat} {lo hi : UInt8}, firstByte a = some (size, lo, hi) →
      2 ≤ size ∧ size ≤ 4 := by
    intro size lo hi hfirst
    have hcases := firstByte_iff.mp hfirst
    omega
  match t with
  | [] =>
      constructor
      · exact fun h => Or.inl ⟨h.1, rfl⟩
      · rintro (⟨ha, -⟩ | ⟨-, size, lo, hi, hfirst, hlen, -⟩)
        · exact ⟨ha, id⟩
        · have hsize := hrange hfirst
          dsimp only [List.length_nil] at hlen
          omega
  | [b] =>
      simp only [IsGroup, IsForbidden, pays_cons, isTail_iff, UInt8.le_iff_toNat_le,
        UInt8.lt_iff_toNat_lt, UInt8.reduceToNat, List.length_nil]
      constructor
      · rintro ⟨⟨hlo, hhi, hb⟩, hallowed⟩
        have hfirst : firstByte a = some (2, 0x80, 0xBF) :=
          firstByte_iff.mpr (Or.inl ⟨rfl, rfl, rfl, by omega, by omega⟩)
        exact Or.inr ⟨by omega, _, _, _, hfirst, rfl, hb, by simp⟩
      · rintro (⟨-, ht⟩ | ⟨-, size, lo, hi, hfirst, hlen, hb, -⟩)
        · exact absurd ht (by simp)
        · have hcases := firstByte_iff.mp hfirst
          omega
  | [b, c] =>
      simp only [IsGroup, IsForbidden, pays_cons, isTail_iff, UInt8.le_iff_toNat_le,
        UInt8.lt_iff_toNat_lt, UInt8.reduceToNat, List.length_cons, List.length_nil,
        List.mem_cons, List.not_mem_nil, or_false, forall_eq, ← UInt8.toNat_inj (a := a)]
      constructor
      · rintro ⟨⟨hlo, hhi, hb, hc⟩, hallowed⟩
        have hlead : ∃ lo hi, firstByte a = some (3, lo, hi) ∧ lo.toNat ≤ b.toNat ∧
            b.toNat ≤ hi.toNat := by
          by_cases hE0 : a.toNat = 0xE0
          · refine ⟨0xA0, 0xBF, firstByte_iff.mpr ?_, ?_, hb.2⟩
            · exact Or.inr (Or.inl ⟨rfl, rfl, rfl, hE0⟩)
            · show 0xA0 ≤ b.toNat
              omega
          by_cases hED : a.toNat = 0xED
          · refine ⟨0x80, 0x9F, firstByte_iff.mpr ?_, hb.1, ?_⟩
            · exact Or.inr (Or.inr (Or.inl ⟨rfl, rfl, rfl, hED⟩))
            · show b.toNat ≤ 0x9F
              omega
          · refine ⟨0x80, 0xBF, firstByte_iff.mpr ?_, hb⟩
            exact Or.inr (Or.inr (Or.inr (Or.inl ⟨rfl, rfl, rfl, by omega, by omega, hED⟩)))
        obtain ⟨lo, hi, hfirst, hrange⟩ := hlead
        exact Or.inr ⟨by omega, _, _, _, hfirst, rfl, hrange, hc⟩
      · rintro (⟨-, ht⟩ | ⟨-, size, lo, hi, hfirst, hlen, hb, hc⟩)
        · exact absurd ht (by simp)
        · have hcases := firstByte_iff.mp hfirst
          omega
  | [b, c, d] =>
      simp only [IsGroup, IsForbidden, pays_cons, isTail_iff, UInt8.le_iff_toNat_le,
        UInt8.lt_iff_toNat_lt, UInt8.reduceToNat, List.length_cons, List.length_nil,
        List.mem_cons, List.not_mem_nil, or_false, forall_eq_or_imp, forall_eq,
        ← UInt8.toNat_inj (a := a)]
      constructor
      · rintro ⟨⟨hlo, hhi, hb, hc, hd⟩, hallowed⟩
        have hlead : ∃ lo hi, firstByte a = some (4, lo, hi) ∧ lo.toNat ≤ b.toNat ∧
            b.toNat ≤ hi.toNat := by
          by_cases hF0 : a.toNat = 0xF0
          · refine ⟨0x90, 0xBF, firstByte_iff.mpr ?_, ?_, hb.2⟩
            · exact Or.inr (Or.inr (Or.inr (Or.inr (Or.inl ⟨rfl, rfl, rfl, hF0⟩))))
            · show 0x90 ≤ b.toNat
              omega
          by_cases hF4 : a.toNat = 0xF4
          · refine ⟨0x80, 0x8F, firstByte_iff.mpr ?_, hb.1, ?_⟩
            · exact Or.inr (Or.inr (Or.inr (Or.inr (Or.inr (Or.inr ⟨rfl, rfl, rfl, hF4⟩)))))
            · show b.toNat ≤ 0x8F
              omega
          · refine ⟨0x80, 0xBF, firstByte_iff.mpr ?_, hb⟩
            exact Or.inr (Or.inr (Or.inr (Or.inr (Or.inr (Or.inl
              ⟨rfl, rfl, rfl, by omega, by omega⟩)))))
        obtain ⟨lo, hi, hfirst, hrange⟩ := hlead
        exact Or.inr ⟨by omega, _, _, _, hfirst, rfl, hrange, hc, hd⟩
      · rintro (⟨-, ht⟩ | ⟨-, size, lo, hi, hfirst, hlen, hb, hc, hd⟩)
        · exact absurd ht (by simp)
        · have hcases := firstByte_iff.mp hfirst
          omega
  | b :: c :: d :: e :: u =>
      constructor
      · exact fun h => absurd h.1 id
      · rintro (⟨-, ht⟩ | ⟨-, size, lo, hi, hfirst, hlen, -⟩)
        · exact absurd ht (by simp)
        · have hsize := hrange hfirst
          dsimp only [List.length_cons] at hlen
          omega

-- ============================================================================
-- What may follow
-- ============================================================================

theorem step_of_count_zero {o : Owed} (h : o.count = 0) (b : UInt8) :
    step o b = if b < 0x80 then some done
      else (firstByte b).map fun (size, lo, hi) => ⟨size - 1, lo, hi⟩ :=
  if_pos h

theorem follows_of_count_zero {o : Owed} (h : o.count = 0) (s : Bytes) :
    o.Follows s ↔ WellFormedUtf8 s := by
  constructor
  · rintro ⟨t, rest, rfl, ⟨hlen, -⟩, hrest⟩
    rw [h] at hlen
    rw [List.length_eq_zero_iff.mp hlen]
    exact hrest
  · exact fun hs => ⟨[], s, rfl, ⟨h.symm, trivial⟩, hs⟩

/-- A well-formed string, split at its first byte. -/
theorem wellFormedUtf8_cons (b : UInt8) (s : Bytes) :
    WellFormedUtf8 (b :: s) ↔ ∃ o, step done b = some o ∧ o.Follows s := by
  constructor
  · intro h
    obtain ⟨gs, hgs, hallowed⟩ := wellFormedUtf8_iff.mp h
    cases gs with
    | nil => exact absurd hgs (by simp)
    | cons g gs =>
        obtain ⟨hgroup, hg⟩ := hallowed g List.mem_cons_self
        have hrest : WellFormedUtf8 gs.flatten := wellFormedUtf8_iff.mpr
          ⟨gs, rfl, fun g' hg' => hallowed g' (List.mem_cons_of_mem g hg')⟩
        obtain ⟨a, t, rfl, -⟩ := hgroup.cons_length
        rw [List.flatten_cons, List.cons_append] at hgs
        obtain ⟨rfl, rfl⟩ := List.cons.inj hgs
        rcases (allowed_iff b t).mp ⟨hgroup, hg⟩ with ⟨hb, rfl⟩ | ⟨hb, size, lo, hi, hfirst, hpays⟩
        · refine ⟨done, ?_, (follows_of_count_zero rfl _).mpr hrest⟩
          rw [step_of_count_zero rfl, if_pos hb]
        · refine ⟨⟨size - 1, lo, hi⟩, ?_, t, _, rfl, hpays, hrest⟩
          rw [step_of_count_zero rfl, if_neg hb, hfirst]
          rfl
  · rintro ⟨o, hstep, hfollows⟩
    have hgroup : ∃ t rest, s = t ++ rest ∧ (IsGroup (b :: t) ∧ ¬ IsForbidden (b :: t)) ∧
        WellFormedUtf8 rest := by
      rw [step_of_count_zero rfl] at hstep
      by_cases hb : b < 0x80
      · rw [if_pos hb] at hstep
        cases hstep
        have hs := (follows_of_count_zero rfl s).mp hfollows
        exact ⟨[], s, rfl, (allowed_iff b []).mpr (Or.inl ⟨hb, rfl⟩), hs⟩
      · rw [if_neg hb, Option.map_eq_some_iff] at hstep
        obtain ⟨⟨size, lo, hi⟩, hfirst, rfl⟩ := hstep
        obtain ⟨t, rest, rfl, hpays, hrest⟩ := hfollows
        exact ⟨t, rest, rfl, (allowed_iff b t).mpr (Or.inr ⟨hb, size, lo, hi, hfirst, hpays⟩),
          hrest⟩
    obtain ⟨t, rest, rfl, hallowed, hrest⟩ := hgroup
    obtain ⟨gs, rfl, hgs⟩ := wellFormedUtf8_iff.mp hrest
    refine wellFormedUtf8_iff.mpr ⟨(b :: t) :: gs, by simp, ?_⟩
    intro g hg
    rcases List.mem_cons.mp hg with rfl | hin
    · exact hallowed
    · exact hgs g hin

/-- What may follow, split at its first byte: a step of the scan. -/
theorem follows_cons (o : Owed) (b : UInt8) (s : Bytes) :
    o.Follows (b :: s) ↔ ∃ o', step o b = some o' ∧ o'.Follows s := by
  by_cases h : o.count = 0
  · have hstep : step o b = step done b := by
      rw [step_of_count_zero h, step_of_count_zero rfl]
    rw [follows_of_count_zero h, hstep, wellFormedUtf8_cons]
  · rw [step, if_neg h]
    constructor
    · rintro ⟨t, rest, heq, hpays, hrest⟩
      cases t with
      | nil => exact absurd hpays.1.symm h
      | cons c u =>
          obtain ⟨hlen, hc, hu⟩ := hpays
          obtain ⟨rfl, rfl⟩ := List.cons.inj heq
          refine ⟨tails (o.count - 1), if_pos hc, u, rest, rfl, ⟨?_, ?_⟩, hrest⟩
          · show u.length = o.count - 1
            rw [← hlen, List.length_cons, Nat.add_sub_cancel]
          · cases u with
            | nil => trivial
            | cons d v =>
                have hd := hu d List.mem_cons_self
                rw [isTail, decide_eq_true_iff] at hd
                exact ⟨hd, fun e he => hu e (List.mem_cons_of_mem d he)⟩
    · rintro ⟨o', hstep, u, rest, rfl, ⟨hlen, hu⟩, hrest⟩
      split at hstep
      · rename_i hb
        cases hstep
        have hlen' : u.length = o.count - 1 := hlen
        refine ⟨b :: u, rest, rfl, ⟨?_, hb, ?_⟩, hrest⟩
        · rw [List.length_cons, hlen']
          omega
        · cases u with
          | nil => simp
          | cons d v =>
              intro e he
              rcases List.mem_cons.mp he with rfl | hin
              · rw [isTail, decide_eq_true_iff]
                exact hu.1
              · exact hu.2 e hin
      · exact absurd hstep (by simp)

/-- What may follow inside a group. -/
theorem follows_succ_iff {o : Owed} {n : Nat} (h : o.count = n + 1) (s : Bytes) :
    o.Follows s ↔ ∃ b t, s = b :: t ∧ (o.lo ≤ b ∧ b ≤ o.hi) ∧ (tails n).Follows t := by
  have hne : o.count ≠ 0 := by omega
  cases s with
  | nil =>
      constructor
      · rintro ⟨t, rest, heq, ⟨hlen, -⟩, -⟩
        obtain ⟨rfl, -⟩ := List.append_eq_nil_iff.mp heq.symm
        exact absurd hlen.symm hne
      · rintro ⟨b, t, heq, -⟩
        exact absurd heq (by simp)
  | cons b s =>
      rw [follows_cons, step, if_neg hne, h, Nat.add_sub_cancel]
      constructor
      · rintro ⟨o', hstep, hfollows⟩
        split at hstep
        · rename_i hb
          cases hstep
          exact ⟨b, s, rfl, hb, hfollows⟩
        · exact absurd hstep (by simp)
      · rintro ⟨c, t, heq, hc, hfollows⟩
        obtain ⟨rfl, rfl⟩ := List.cons.inj heq
        exact ⟨tails n, if_pos hc, hfollows⟩

/-- A string that begins with a lead byte. -/
theorem wellFormedUtf8_lead {a : UInt8} {size : Nat} {lo hi : UInt8}
    (h : firstByte a = some (size, lo, hi)) (s : Bytes) :
    WellFormedUtf8 (a :: s) ↔ Follows ⟨size - 1, lo, hi⟩ s := by
  have ha : ¬ a < 0x80 := by
    have hcases := firstByte_iff.mp h
    simp only [UInt8.lt_iff_toNat_lt, UInt8.reduceToNat]
    omega
  rw [wellFormedUtf8_cons, step_of_count_zero rfl, if_neg ha, h]
  simp

theorem wellFormedUtf8_ascii {a : UInt8} (h : a < 0x80) (s : Bytes) :
    WellFormedUtf8 (a :: s) ↔ WellFormedUtf8 s := by
  rw [wellFormedUtf8_cons, step_of_count_zero rfl, if_pos h]
  simp [follows_of_count_zero (o := done) rfl]

theorem follows_tails_succ (n : Nat) (s : Bytes) :
    (tails (n + 1)).Follows s ↔ ∃ b t, s = b :: t ∧ isTail b ∧ (tails n).Follows t := by
  rw [follows_succ_iff rfl]
  simp only [isTail, decide_eq_true_iff]
  rfl

/-- The strings that begin with a lead byte of two, three or four bytes. -/
theorem wellFormedUtf8_two {a : UInt8} (hlo : 0xC2 ≤ a.toNat) (hhi : a.toNat ≤ 0xDF) (s : Bytes) :
    WellFormedUtf8 (a :: s) ↔ ∃ b t, s = b :: t ∧ isTail b ∧ WellFormedUtf8 t := by
  have hfirst : firstByte a = some (2, 0x80, 0xBF) :=
    firstByte_iff.mpr (Or.inl ⟨rfl, rfl, rfl, hlo, hhi⟩)
  rw [wellFormedUtf8_lead hfirst, ← tails, follows_tails_succ 0]
  simp only [follows_of_count_zero (o := tails 0) rfl]

theorem wellFormedUtf8_three {a : UInt8} (hlo : 0xE0 ≤ a.toNat) (hhi : a.toNat ≤ 0xEF)
    (s : Bytes) :
    WellFormedUtf8 (a :: s) ↔ ∃ b c t, s = b :: c :: t ∧ (isTail b ∧ isTail c) ∧
      ¬ (a = 0xE0 ∧ b < 0xA0) ∧ ¬ (a = 0xED ∧ 0xA0 ≤ b) ∧ WellFormedUtf8 t := by
  have hlead : ∃ lo hi, firstByte a = some (3, lo, hi) ∧ ∀ b : UInt8, (lo ≤ b ∧ b ≤ hi) ↔
      isTail b ∧ ¬ (a = 0xE0 ∧ b < 0xA0) ∧ ¬ (a = 0xED ∧ 0xA0 ≤ b) := by
    simp only [isTail_iff, UInt8.le_iff_toNat_le, UInt8.lt_iff_toNat_lt,
      ← UInt8.toNat_inj (a := a), UInt8.reduceToNat]
    by_cases hE0 : a.toNat = 0xE0
    · refine ⟨0xA0, 0xBF, firstByte_iff.mpr (Or.inr (Or.inl ⟨rfl, rfl, rfl, hE0⟩)), ?_⟩
      intro b
      simp only [UInt8.reduceToNat]
      omega
    by_cases hED : a.toNat = 0xED
    · refine ⟨0x80, 0x9F, firstByte_iff.mpr (Or.inr (Or.inr (Or.inl ⟨rfl, rfl, rfl, hED⟩))), ?_⟩
      intro b
      simp only [UInt8.reduceToNat]
      omega
    · refine ⟨0x80, 0xBF, firstByte_iff.mpr (Or.inr (Or.inr (Or.inr (Or.inl
        ⟨rfl, rfl, rfl, by omega, by omega, hED⟩)))), ?_⟩
      intro b
      simp only [UInt8.reduceToNat]
      omega
  obtain ⟨lo, hi, hfirst, hrange⟩ := hlead
  rw [wellFormedUtf8_lead hfirst, follows_succ_iff (n := 1) rfl]
  simp only [follows_tails_succ, follows_of_count_zero (o := tails 0) rfl, hrange]
  grind

theorem wellFormedUtf8_four {a : UInt8} (hlo : 0xF0 ≤ a.toNat) (hhi : a.toNat ≤ 0xF4)
    (s : Bytes) :
    WellFormedUtf8 (a :: s) ↔ ∃ b c d t, s = b :: c :: d :: t ∧
      (isTail b ∧ isTail c ∧ isTail d) ∧ ¬ (a = 0xF0 ∧ b < 0x90) ∧ ¬ (a = 0xF4 ∧ 0x8F < b) ∧
        WellFormedUtf8 t := by
  have hlead : ∃ lo hi, firstByte a = some (4, lo, hi) ∧ ∀ b : UInt8, (lo ≤ b ∧ b ≤ hi) ↔
      isTail b ∧ ¬ (a = 0xF0 ∧ b < 0x90) ∧ ¬ (a = 0xF4 ∧ 0x8F < b) := by
    simp only [isTail_iff, UInt8.le_iff_toNat_le, UInt8.lt_iff_toNat_lt,
      ← UInt8.toNat_inj (a := a), UInt8.reduceToNat]
    by_cases hF0 : a.toNat = 0xF0
    · refine ⟨0x90, 0xBF, firstByte_iff.mpr (Or.inr (Or.inr (Or.inr (Or.inr (Or.inl
        ⟨rfl, rfl, rfl, hF0⟩))))), ?_⟩
      intro b
      simp only [UInt8.reduceToNat]
      omega
    by_cases hF4 : a.toNat = 0xF4
    · refine ⟨0x80, 0x8F, firstByte_iff.mpr (Or.inr (Or.inr (Or.inr (Or.inr (Or.inr (Or.inr
        ⟨rfl, rfl, rfl, hF4⟩)))))), ?_⟩
      intro b
      simp only [UInt8.reduceToNat]
      omega
    · refine ⟨0x80, 0xBF, firstByte_iff.mpr (Or.inr (Or.inr (Or.inr (Or.inr (Or.inr (Or.inl
        ⟨rfl, rfl, rfl, by omega, by omega⟩)))))), ?_⟩
      intro b
      simp only [UInt8.reduceToNat]
      omega
  obtain ⟨lo, hi, hfirst, hrange⟩ := hlead
  rw [wellFormedUtf8_lead hfirst, follows_succ_iff (n := 2) rfl]
  simp only [follows_tails_succ, follows_of_count_zero (o := tails 0) rfl, hrange]
  grind

/-- A string that begins with a byte that leads no group. -/
theorem not_wellFormedUtf8_of_firstByte {a : UInt8} (ha : ¬ a < 0x80) (h : firstByte a = none)
    (s : Bytes) : ¬ WellFormedUtf8 (a :: s) := by
  rw [wellFormedUtf8_cons, step_of_count_zero rfl, if_neg ha, h]
  simp

-- ============================================================================
-- The scan
-- ============================================================================

theorem scan_cons (o : Owed) (b : UInt8) (s : Bytes) :
    scan o (b :: s) = (step o b).bind fun o' => scan o' s := by
  rw [scan, List.foldlM_cons]
  rfl

theorem scan_append (o : Owed) (s t : Bytes) :
    scan o (s ++ t) = (scan o s).bind fun o' => scan o' t := by
  rw [scan, List.foldlM_append]
  rfl

/-- A scan ends between two groups exactly on what may follow. -/
theorem scan_ends_iff (o : Owed) (s : Bytes) :
    (∃ o', scan o s = some o' ∧ o'.count = 0) ↔ o.Follows s := by
  induction s generalizing o with
  | nil =>
      constructor
      · rintro ⟨o', hscan, hcount⟩
        cases hscan
        exact (follows_of_count_zero hcount []).mpr ⟨[], by simp, rfl⟩
      · rintro ⟨t, rest, heq, ⟨hlen, -⟩, -⟩
        obtain ⟨rfl, -⟩ := List.append_eq_nil_iff.mp heq.symm
        exact ⟨o, rfl, hlen.symm⟩
  | cons b s ih =>
      rw [follows_cons]
      constructor
      · rintro ⟨o', hscan, hcount⟩
        rw [scan_cons] at hscan
        obtain ⟨p, hstep, hrest⟩ := Option.bind_eq_some_iff.mp hscan
        exact ⟨p, hstep, (ih p).mp ⟨o', hrest, hcount⟩⟩
      · rintro ⟨p, hstep, hfollows⟩
        obtain ⟨o', hrest, hcount⟩ := (ih p).mpr hfollows
        refine ⟨o', ?_, hcount⟩
        rw [scan_cons, hstep]
        exact hrest

theorem scan_done_iff (s : Bytes) :
    (∃ o, scan done s = some o ∧ o.count = 0) ↔ WellFormedUtf8 s := by
  rw [scan_ends_iff, follows_of_count_zero rfl]

/-- What is owed can be paid. -/
def Payable (o : Owed) : Prop := o.lo ≤ o.hi

theorem Payable.step {o o' : Owed} {b : UInt8} (h : step o b = some o') : o'.Payable := by
  rw [Owed.step] at h
  split at h
  · split at h
    · cases h
      exact (by decide : (0x80 : UInt8) ≤ 0xBF)
    · obtain ⟨⟨size, lo, hi⟩, hfirst, rfl⟩ := Option.map_eq_some_iff.mp h
      have hcases := firstByte_iff.mp hfirst
      show lo ≤ hi
      rw [UInt8.le_iff_toNat_le]
      omega
  · split at h
    · cases h
      exact (by decide : (0x80 : UInt8) ≤ 0xBF)
    · exact absurd h (by simp)

theorem Payable.scan {o o' : Owed} {s : Bytes} (ho : o.Payable) (h : scan o s = some o') :
    o'.Payable := by
  induction s generalizing o with
  | nil =>
      cases h
      exact ho
  | cons b s ih =>
      rw [scan_cons] at h
      obtain ⟨p, hstep, hrest⟩ := Option.bind_eq_some_iff.mp h
      exact ih (Payable.step hstep) hrest

theorem Payable.exists_follows {o : Owed} (h : o.Payable) : ∃ s, o.Follows s := by
  have hnil : WellFormedUtf8 [] := ⟨[], by simp, rfl⟩
  cases hcount : o.count with
  | zero => exact ⟨[], (follows_of_count_zero hcount []).mpr hnil⟩
  | succ n =>
      refine ⟨o.lo :: List.replicate n 0x80, o.lo :: List.replicate n 0x80, [],
        (List.append_nil _).symm, ⟨?_, ⟨UInt8.le_refl _, h⟩, ?_⟩, hnil⟩
      · rw [List.length_cons, List.length_replicate, hcount]
      · intro c hc
        rw [List.eq_of_mem_replicate hc]
        rfl

/-- A scan fails exactly where nothing that may follow begins that way. -/
theorem scan_none_iff {o : Owed} (ho : o.Payable) (s : Bytes) :
    scan o s = none ↔ ∀ more, ¬ o.Follows (s ++ more) := by
  constructor
  · intro h more hfollows
    obtain ⟨o', hscan, -⟩ := (scan_ends_iff o (s ++ more)).mpr hfollows
    rw [scan_append, h] at hscan
    exact absurd hscan (by simp)
  · intro h
    cases hscan : scan o s with
    | none => rfl
    | some p =>
        obtain ⟨more, hmore⟩ := (ho.scan hscan).exists_follows
        obtain ⟨o', hrest, hcount⟩ := (scan_ends_iff p more).mpr hmore
        refine absurd ((scan_ends_iff o (s ++ more)).mp ⟨o', ?_, hcount⟩) (h more)
        rw [scan_append, hscan]
        exact hrest

theorem scan_done_none_iff (s : Bytes) :
    scan done s = none ↔ ∀ more, ¬ WellFormedUtf8 (s ++ more) := by
  have hpay : done.Payable := (by decide : (0x80 : UInt8) ≤ 0xBF)
  rw [scan_none_iff hpay]
  exact forall_congr' fun more => by rw [follows_of_count_zero rfl]

theorem scan_done_isSome_iff (s : Bytes) : (scan done s).isSome = true ↔ BeginsUtf8 s := by
  rw [Option.isSome_iff_ne_none, ne_eq, scan_done_none_iff, BeginsUtf8]
  exact not_forall_not

end Owed

end FsBridge.Lib
