/-
  FsBridge.Lib.Decimal

  Whole numbers in decimal, over bytes: printed the way `std::to_string` and Go's
  `strconv.Itoa` do, parsed strictly (all of the text is the number, as for
  `strconv.Atoi`) or scanned from the front (`strtol`).

  * `parse_print` — a printed number parses as itself.
  * `parse_take_print` — a printed number that has been cut does not.
-/

import FsBridge.Lib.Ascii

namespace FsBridge.Lib.Decimal

def isDigit (c : UInt8) : Bool := 48 ≤ c ∧ c ≤ 57

def minus : UInt8 := 45
def plus : UInt8 := 43

/-- The value of a string of digits. -/
def ofDigits (ds : Bytes) : Nat := ds.foldl (fun n c => n * 10 + (c.toNat - 48)) 0

def natDigits (n : Nat) : Bytes := (Nat.toDigits 10 n).map fun c => c.toNat.toUInt8

def print (n : Int) : Bytes :=
  if n < 0 then minus :: natDigits n.natAbs else natDigits n.natAbs

/-- The sign (set for a minus) and what follows it. -/
def splitSign : Bytes → Bool × Bytes
  | [] => (false, [])
  | c :: s => if c = minus then (true, s) else if c = plus then (false, s) else (false, c :: s)

/-- The digits with their sign, `none` where there is no digit. -/
def signed (neg : Bool) (ds : Bytes) : Option Int :=
  if ds = [] then none else some (if neg then -ofDigits ds else ofDigits ds)

/-- The number the text is. -/
def parse (s : Bytes) : Option Int :=
  if (splitSign s).2.all isDigit then signed (splitSign s).1 (splitSign s).2 else none

/-- The characters `isspace` accepts. -/
def isSpace (c : UInt8) : Bool := c = 32 ∨ 9 ≤ c ∧ c ≤ 13

/-- The number the text starts with. -/
def scan (s : Bytes) : Option Int :=
  let t := splitSign (s.dropWhile isSpace)
  signed t.1 (t.2.takeWhile isDigit)

-- ============================================================================
-- Digits
-- ============================================================================

theorem digitChar_byte {d : Nat} (h : d < 10) :
    isDigit (Nat.digitChar d).toNat.toUInt8 ∧ (Nat.digitChar d).toNat.toUInt8.toNat - 48 = d := by
  revert d
  decide

theorem natDigits_of_lt {n : Nat} (h : n < 10) :
    natDigits n = [(Nat.digitChar n).toNat.toUInt8] := by
  rw [natDigits, Nat.toDigits_of_lt_base h, List.map_singleton]

theorem natDigits_of_le {n : Nat} (h : 10 ≤ n) :
    natDigits n = natDigits (n / 10) ++ [(Nat.digitChar (n % 10)).toNat.toUInt8] := by
  rw [natDigits, Nat.toDigits_of_base_le (by omega) h, List.map_append, List.map_singleton]
  rfl

theorem ofDigits_snoc (ds : Bytes) (c : UInt8) :
    ofDigits (ds ++ [c]) = ofDigits ds * 10 + (c.toNat - 48) := by
  rw [ofDigits, List.foldl_append]
  rfl

theorem natDigits_ne_nil (n : Nat) : natDigits n ≠ [] := by
  rcases Nat.lt_or_ge n 10 with h | h
  · rw [natDigits_of_lt h]
    simp
  · rw [natDigits_of_le h]
    simp

theorem isDigit_of_mem_natDigits (n : Nat) : ∀ c ∈ natDigits n, isDigit c := by
  induction n using Nat.strongRecOn with
  | ind n ih =>
      rcases Nat.lt_or_ge n 10 with h | h
      · intro c hc
        rw [natDigits_of_lt h] at hc
        obtain rfl := List.mem_singleton.mp hc
        exact (digitChar_byte h).1
      · intro c hc
        rw [natDigits_of_le h] at hc
        rcases List.mem_append.mp hc with hfront | hlast
        · exact ih (n / 10) (by omega) c hfront
        · obtain rfl := List.mem_singleton.mp hlast
          exact (digitChar_byte (by omega)).1

/-- The digits of a number are read as the number. -/
theorem ofDigits_natDigits (n : Nat) : ofDigits (natDigits n) = n := by
  induction n using Nat.strongRecOn with
  | ind n ih =>
      rcases Nat.lt_or_ge n 10 with h | h
      · have hvalue := (digitChar_byte h).2
        rw [natDigits_of_lt h, ← List.nil_append [_], ofDigits_snoc, hvalue]
        simp [ofDigits]
      · have hfront := ih (n / 10) (by omega)
        have hvalue := (digitChar_byte (d := n % 10) (by omega)).2
        rw [natDigits_of_le h, ofDigits_snoc, hfront, hvalue]
        omega

/-- The first digits of a number are the number without its last ones. -/
theorem ofDigits_take_le (n k : Nat) : ofDigits ((natDigits n).take k) ≤ n := by
  induction n using Nat.strongRecOn with
  | ind n ih =>
      rcases Nat.lt_or_ge k (natDigits n).length with hk | hk
      · rcases Nat.lt_or_ge n 10 with h | h
        · have hzero : k = 0 := by
            rw [natDigits_of_lt h, List.length_singleton] at hk
            omega
          subst hzero
          exact Nat.zero_le n
        · have hfront := ih (n / 10) (by omega)
          rw [natDigits_of_le h, List.length_append, List.length_singleton] at hk
          rw [natDigits_of_le h, List.take_append_of_le_length (by omega)]
          omega
      · have hall : ofDigits ((natDigits n).take k) = n := by
          rw [List.take_of_length_le hk, ofDigits_natDigits]
        omega

/-- Fewer of them are read as a smaller number. -/
theorem ofDigits_take_lt {n k : Nat} (hk : k < (natDigits n).length) (hpos : 0 < k) :
    ofDigits ((natDigits n).take k) < n := by
  rcases Nat.lt_or_ge n 10 with h | h
  · rw [natDigits_of_lt h, List.length_singleton] at hk
    omega
  · have hfront := ofDigits_take_le (n / 10) k
    rw [natDigits_of_le h, List.length_append, List.length_singleton] at hk
    rw [natDigits_of_le h, List.take_append_of_le_length (by omega)]
    omega

-- ============================================================================
-- Printing and parsing
-- ============================================================================

theorem not_sign_of_isDigit {c : UInt8} (h : isDigit c) : c ≠ minus ∧ c ≠ plus := by
  constructor
  · rintro rfl
    exact absurd h (by decide)
  · rintro rfl
    exact absurd h (by decide)

theorem splitSign_of_all {s : Bytes} (h : ∀ c ∈ s, isDigit c) : splitSign s = (false, s) := by
  cases s with
  | nil => rfl
  | cons c s =>
      obtain ⟨hminus, hplus⟩ := not_sign_of_isDigit (h c List.mem_cons_self)
      rw [splitSign, if_neg hminus, if_neg hplus]

theorem parse_digits {ds : Bytes} (h : ∀ c ∈ ds, isDigit c) : parse ds = signed false ds := by
  rw [parse, splitSign_of_all h, if_pos (List.all_eq_true.mpr h)]

theorem parse_minus {ds : Bytes} (h : ∀ c ∈ ds, isDigit c) :
    parse (minus :: ds) = signed true ds := by
  rw [parse, splitSign, if_pos rfl, if_pos (List.all_eq_true.mpr h)]

/-- What is printed is parsed again. -/
theorem parse_print (n : Int) : parse (print n) = some n := by
  have hdigits := isDigit_of_mem_natDigits n.natAbs
  rw [print]
  split
  · rw [parse_minus hdigits, signed, if_neg (natDigits_ne_nil _), ofDigits_natDigits]
    simp only [if_true, Option.some.injEq]
    omega
  · rw [parse_digits hdigits, signed, if_neg (natDigits_ne_nil _), ofDigits_natDigits]
    simp only [Bool.false_eq_true, if_false, Option.some.injEq]
    omega

theorem print_ne_nil (n : Int) : print n ≠ [] := by
  rw [print]
  split
  · simp
  · exact natDigits_ne_nil _

/-- A number that is cut off is read as another one. -/
theorem signed_take_ne {n : Nat} {k : Nat} (hk : k < (natDigits n).length) (neg : Bool) :
    signed neg ((natDigits n).take k) ≠ some (if neg then -(n : Int) else n) := by
  rw [signed]
  split
  · simp
  · rename_i hne
    have hpos : 0 < k := by
      rcases Nat.eq_zero_or_pos k with hzero | hpos
      · exact absurd (by rw [hzero, List.take_zero]) hne
      · exact hpos
    have hlt := ofDigits_take_lt hk hpos
    intro heq
    have hvalue := Option.some.inj heq
    cases neg with
    | true =>
        simp only [if_true] at hvalue
        omega
    | false =>
        simp only [Bool.false_eq_true, if_false] at hvalue
        omega

/-- A printed number that has been cut does not parse as itself. -/
theorem parse_take_print {n : Int} {k : Nat} (hk : k < (print n).length) :
    parse ((print n).take k) ≠ some n := by
  have hdigits : ∀ j, ∀ c ∈ (natDigits n.natAbs).take j, isDigit c :=
    fun j c hc => isDigit_of_mem_natDigits n.natAbs c (List.mem_of_mem_take hc)
  rw [print] at hk ⊢
  split at hk
  · rename_i hneg
    rw [if_pos hneg]
    cases k with
    | zero => simp [parse, splitSign, signed]
    | succ k =>
        rw [List.length_cons] at hk
        have hne := signed_take_ne (by omega : k < (natDigits n.natAbs).length) true
        rw [if_pos rfl, show -(n.natAbs : Int) = n by omega] at hne
        rw [List.take_succ_cons, parse_minus (hdigits k)]
        exact hne
  · rename_i hnonneg
    have hne := signed_take_ne hk false
    rw [if_neg (by simp), show (n.natAbs : Int) = n by omega] at hne
    rw [if_neg hnonneg, parse_digits (hdigits k)]
    exact hne

/-- The first digits of a number that has no sign parse as a number up to it. -/
theorem parse_take_print_nonneg {n : Int} (hn : 0 ≤ n) {k : Nat} (hk : 0 < k) :
    ∃ m, parse ((print n).take k) = some m ∧ 0 ≤ m ∧ m ≤ n := by
  have hdigits : ∀ c ∈ (natDigits n.natAbs).take k, isDigit c :=
    fun c hc => isDigit_of_mem_natDigits n.natAbs c (List.mem_of_mem_take hc)
  have hne : (natDigits n.natAbs).take k ≠ [] := by
    rw [ne_eq, List.take_eq_nil_iff, not_or]
    exact ⟨by omega, natDigits_ne_nil _⟩
  have hle := ofDigits_take_le n.natAbs k
  refine ⟨ofDigits ((natDigits n.natAbs).take k), ?_, by omega, by omega⟩
  rw [print, if_neg (by omega), parse_digits hdigits, signed, if_neg hne]
  rfl

/-- What a printed number is written with. -/
theorem mem_print {n : Int} {c : UInt8} (h : c ∈ print n) : c = minus ∨ isDigit c := by
  rw [print] at h
  split at h
  · rcases List.mem_cons.mp h with hminus | hdigit
    · exact .inl hminus
    · exact .inr (isDigit_of_mem_natDigits _ c hdigit)
  · exact .inr (isDigit_of_mem_natDigits _ c h)

end FsBridge.Lib.Decimal
