/-
  FsBridge.Lib.Slice

  A Go slice over an array of its own: the cells up to the capacity, and how many of
  them are in use.  An append writes into the next cell, or makes a larger array when
  there is none; `s[:0]` keeps the cells.
-/

import Mathlib.Data.List.Basic

namespace FsBridge.Lib

structure Slice (α : Type*) where
  cells : List α
  len : Nat
  len_le : len ≤ cells.length
deriving DecidableEq, Repr

namespace Slice

variable {α : Type*}

/-- `make([]T, 0, cap)`. -/
def make (zero : α) (cap : Nat) : Slice α := ⟨List.replicate cap zero, 0, Nat.zero_le _⟩

/-- What the slice holds. -/
def toList (s : Slice α) : List α := s.cells.take s.len

/-- `append(s, a)`. -/
def append (s : Slice α) (a : α) : Slice α where
  cells := if s.len < s.cells.length then s.cells.set s.len a else s.cells ++ [a]
  len := s.len + 1
  len_le := by
    split
    · rw [List.length_set]
      omega
    · rw [List.length_append, List.length_singleton]
      have hle := s.len_le
      omega

/-- `s[:0]`. -/
def truncate (s : Slice α) : Slice α := ⟨s.cells, 0, Nat.zero_le _⟩

@[simp] theorem toList_make (zero : α) (cap : Nat) : (make zero cap).toList = [] := rfl

@[simp] theorem toList_truncate (s : Slice α) : s.truncate.toList = [] := rfl

@[simp] theorem length_toList (s : Slice α) : s.toList.length = s.len := by
  rw [toList, List.length_take, Nat.min_eq_left s.len_le]

@[simp] theorem toList_append (s : Slice α) (a : α) : (s.append a).toList = s.toList ++ [a] := by
  have hle := s.len_le
  show (if s.len < s.cells.length then s.cells.set s.len a else s.cells ++ [a]).take (s.len + 1)
    = s.cells.take s.len ++ [a]
  split
  · rename_i hlt
    rw [List.take_add_one, List.take_set_of_le (Nat.le_refl _), List.getElem?_set_self hlt]
    rfl
  · rename_i hge
    have hlen : s.cells.length = s.len := by omega
    rw [List.take_of_length_le (by rw [List.length_append, List.length_singleton]; omega),
      List.take_of_length_le (by omega)]

theorem toList_eq_nil_iff {s : Slice α} : s.toList = [] ↔ s.len = 0 := by
  rw [← List.length_eq_zero_iff, length_toList]

end Slice

end FsBridge.Lib
