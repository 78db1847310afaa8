/-
  FsBridge.Lib.Chan

  A bounded FIFO channel.  The capacity bound is a field of the structure, so
  no sequence of operations can build an overfull channel.

  `trySend` and `tryRecv` are the non-blocking operations; a blocking send or
  receive is enabled exactly when the corresponding `try` succeeds.
-/

import Mathlib.Data.List.Basic

namespace FsBridge.Lib

/-- A buffered channel of capacity `cap`, oldest element first. -/
structure Chan (α : Type*) (cap : Nat) where
  buf : List α
  length_le : buf.length ≤ cap
deriving DecidableEq, Repr

namespace Chan

variable {α : Type*} {cap : Nat}

/-- The channel as `make` returns it. -/
def empty : Chan α cap := ⟨[], Nat.zero_le _⟩

/-- Send without blocking: `none` when the buffer is full. -/
def trySend (ch : Chan α cap) (a : α) : Option (Chan α cap) :=
  if h : ch.buf.length < cap then some ⟨ch.buf ++ [a], by simpa using Nat.succ_le_of_lt h⟩ else none

/-- Receive without blocking: `none` when the buffer is empty. -/
def tryRecv (ch : Chan α cap) : Option (α × Chan α cap) :=
  match ch with
  | ⟨[], _⟩ => none
  | ⟨a :: rest, h⟩ => some (a, ⟨rest, Nat.le_of_succ_le h⟩)

@[simp] theorem buf_empty : (empty : Chan α cap).buf = [] := rfl

theorem ext_buf {ch ch' : Chan α cap} (h : ch.buf = ch'.buf) : ch = ch' := by
  cases ch
  cases ch'
  cases h
  rfl

theorem trySend_eq_some {ch ch' : Chan α cap} {a : α} :
    ch.trySend a = some ch' ↔ ch.buf.length < cap ∧ ch'.buf = ch.buf ++ [a] := by
  unfold trySend
  constructor
  · intro h
    split at h
    · rename_i hlt
      cases h
      exact ⟨hlt, rfl⟩
    · exact absurd h (by simp)
  · rintro ⟨hlt, hbuf⟩
    rw [dif_pos hlt]
    exact congrArg some (ext_buf hbuf.symm)

theorem trySend_eq_none {ch : Chan α cap} {a : α} :
    ch.trySend a = none ↔ ch.buf.length = cap := by
  have hle := ch.length_le
  unfold trySend
  split
  · simp only [reduceCtorEq, false_iff]
    omega
  · simp only [true_iff]
    omega

theorem tryRecv_eq_some {ch ch' : Chan α cap} {a : α} :
    ch.tryRecv = some (a, ch') ↔ ch.buf = a :: ch'.buf := by
  obtain ⟨buf, hle⟩ := ch
  cases buf with
  | nil => simp [tryRecv]
  | cons b rest =>
      simp only [tryRecv, Option.some.injEq, Prod.mk.injEq, List.cons.injEq]
      constructor
      · rintro ⟨rfl, rfl⟩
        exact ⟨rfl, rfl⟩
      · rintro ⟨rfl, hrest⟩
        exact ⟨rfl, ext_buf hrest⟩

theorem tryRecv_eq_none {ch : Chan α cap} : ch.tryRecv = none ↔ ch.buf = [] := by
  obtain ⟨buf, hle⟩ := ch
  cases buf <;> simp [tryRecv]

/-- A send into a buffer with room. -/
theorem exists_send {ch : Chan α cap} (h : ch.buf.length < cap) (a : α) :
    ∃ ch', ch.trySend a = some ch' ∧ ch'.buf = ch.buf ++ [a] := by
  refine ⟨⟨ch.buf ++ [a], by simpa using Nat.succ_le_of_lt h⟩, ?_, rfl⟩
  exact trySend_eq_some.mpr ⟨h, rfl⟩

/-- A receive takes the oldest element. -/
theorem exists_recv {ch : Chan α cap} {a : α} {l : List α} (h : ch.buf = a :: l) :
    ∃ ch', ch.tryRecv = some (a, ch') ∧ ch'.buf = l := by
  have hle := ch.length_le
  rw [h, List.length_cons] at hle
  refine ⟨⟨l, Nat.le_of_succ_le hle⟩, ?_, rfl⟩
  exact tryRecv_eq_some.mpr h

/-- A channel of capacity one is empty after a receive. -/
theorem buf_nil_of_recv {ch ch' : Chan α 1} {a : α} (h : ch.buf = a :: ch'.buf) :
    ch'.buf = [] := by
  have hle := ch.length_le
  rw [h, List.length_cons] at hle
  exact List.length_eq_zero_iff.mp (by omega)

end Chan

end FsBridge.Lib
