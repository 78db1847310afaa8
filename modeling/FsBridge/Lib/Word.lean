/-
  FsBridge.Lib.Word

  Signed words of 64 bits, which wrap around.  What fits in a word is what exact
  arithmetic says: `toInt_add`, `toInt_sub`, `toInt_mul`, `toInt_div`.

  `makeLen` is what `make([]byte, n)` allocates: sizes are words too, and those that are
  negative or above the largest allocation of the runtime panic.
-/

import Mathlib.Data.Int.Init

namespace FsBridge.Lib.Word

/-- A number is the value of a word. -/
def Fits (x : Int) : Prop := -9223372036854775808 ≤ x ∧ x < 9223372036854775808

instance (x : Int) : Decidable (Fits x) := inferInstanceAs (Decidable (_ ∧ _))

theorem fits_toInt (a : Int64) : Fits a.toInt := ⟨a.le_toInt, a.toInt_lt⟩

/-- What fits does not wrap. -/
theorem Fits.bmod {x : Int} (h : Fits x) : x.bmod 18446744073709551616 = x :=
  Int.bmod_eq_of_le (by have := h.1; omega) (by have := h.2; omega)

section

variable {a b : Int64}

/-- A sum that fits is exact. -/
theorem toInt_add (h : Fits (a.toInt + b.toInt)) : (a + b).toInt = a.toInt + b.toInt := by
  rw [Int64.toInt_add]
  exact h.bmod

theorem toInt_sub (h : Fits (a.toInt - b.toInt)) : (a - b).toInt = a.toInt - b.toInt := by
  rw [Int64.toInt_sub]
  exact h.bmod

/-- A product that fits is exact. -/
theorem toInt_mul (h : Fits (a.toInt * b.toInt)) : (a * b).toInt = a.toInt * b.toInt := by
  rw [Int64.toInt_mul]
  exact h.bmod

/-- Only the quotient of the least word by -1 would not fit. -/
theorem toInt_div (hb : 0 < b.toInt) : (a / b).toInt = a.toInt.tdiv b.toInt :=
  Int64.toInt_div_of_ne_right a b fun hneg => by
    rw [hneg] at hb
    exact absurd hb (by decide)

end

theorem toInt_ofNat {n : Nat} (h : Fits n) : (Int64.ofNat n).toInt = n :=
  Int64.toInt_ofNat_of_lt (by have := h.2; omega)

-- ============================================================================
-- Allocation
-- ============================================================================

/-- The largest allocation on a 64-bit machine. -/
def maxAlloc : Nat := 281474976710656

/-- The length of `make([]byte, n)`; `none` is a panic. -/
def makeLen (n : Int64) : Option Nat :=
  if n < 0 ∨ (maxAlloc : Int) < n.toInt then none else some n.toInt.toNat

/-- A length that can be allocated. -/
theorem makeLen_eq {n : Int64} {k : Nat} (h : n.toInt = k) (hk : k ≤ maxAlloc) :
    makeLen n = some k := by
  have hin : ¬ (n < 0 ∨ (maxAlloc : Int) < n.toInt) := by
    rw [Int64.lt_iff_toInt_lt, h]
    show ¬ ((k : Int) < 0 ∨ _)
    omega
  rw [makeLen, if_neg hin, h, Int.toNat_natCast]

/-- One that cannot. -/
theorem makeLen_eq_none {n : Int64} (h : (maxAlloc : Int) < n.toInt) : makeLen n = none :=
  if_pos (.inr h)

end FsBridge.Lib.Word
