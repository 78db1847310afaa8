/-
  FsBridge.Lib.Ascii

  Byte strings.  A string of the program is the list of its bytes, so text that
  is not valid UTF-8 is covered too; `ascii` writes the literals of a program,
  all of which are ASCII.
-/

import Mathlib.Data.List.Basic

namespace FsBridge.Lib

/-- A byte string. -/
abbrev Bytes := List UInt8

/-- The bytes of an ASCII literal. -/
def ascii (s : String) : Bytes := s.toList.map fun c => c.toNat.toUInt8

/-- The UTF-8 encodings of the characters with the Unicode property White_Space. -/
def whiteSpace : List Bytes :=
  [[9], [10], [11], [12], [13], [32], [0xC2, 0x85], [0xC2, 0xA0], [0xE1, 0x9A, 0x80],
    [0xE2, 0x80, 0x80], [0xE2, 0x80, 0x81], [0xE2, 0x80, 0x82], [0xE2, 0x80, 0x83],
    [0xE2, 0x80, 0x84], [0xE2, 0x80, 0x85], [0xE2, 0x80, 0x86], [0xE2, 0x80, 0x87],
    [0xE2, 0x80, 0x88], [0xE2, 0x80, 0x89], [0xE2, 0x80, 0x8A], [0xE2, 0x80, 0xA8],
    [0xE2, 0x80, 0xA9], [0xE2, 0x80, 0xAF], [0xE2, 0x81, 0x9F], [0xE3, 0x80, 0x80]]

/-- Remove words of `set` from the front, at most `fuel` of them. -/
def trimLeftWords (set : List Bytes) : Nat → Bytes → Bytes
  | 0, s => s
  | fuel + 1, s =>
      match set.find? fun w => w.isPrefixOf s with
      | some w => trimLeftWords set fuel (s.drop w.length)
      | none => s

/-- `strings.TrimSpace`. -/
def trimSpace (s : Bytes) : Bytes :=
  let t := trimLeftWords whiteSpace s.length s
  (trimLeftWords (whiteSpace.map List.reverse) t.length t.reverse).reverse

/-- `strings.TrimPrefix`. -/
def trimPrefix (s : Bytes) (pre : Bytes) : Bytes :=
  if pre <+: s then s.drop pre.length else s

/-- `strings.Join`. -/
def joinWith (sep : Bytes) : List Bytes → Bytes
  | [] => []
  | [s] => s
  | s :: t :: rest => s ++ sep ++ joinWith sep (t :: rest)

example : trimSpace (ascii " +OK\n") = ascii "+OK" := by decide

-- ============================================================================
-- Splitting
-- ============================================================================

theorem not_mem_splitOn {c : UInt8} {s part : Bytes} (h : part ∈ s.splitOn c) : c ∉ part := by
  induction s generalizing part with
  | nil =>
      rw [List.mem_singleton.mp h]
      simp
  | cons d s ih =>
      rw [List.splitOn_cons_eq_if_modifyHead] at h
      by_cases hd : d = c
      · rw [if_pos (by simp [hd])] at h
        rcases List.mem_cons.mp h with rfl | h
        · simp
        · exact ih h
      · rw [if_neg (by simpa using hd)] at h
        cases hsplit : s.splitOn c with
        | nil => exact absurd hsplit (List.splitOn_ne_nil c s)
        | cons e es =>
            rw [hsplit] at h ih
            rcases List.mem_cons.mp h with rfl | h
            · rw [List.mem_cons, not_or]
              exact ⟨Ne.symm hd, ih List.mem_cons_self⟩
            · exact ih (List.mem_cons_of_mem _ h)

theorem mem_of_mem_splitOn {c x : UInt8} {s part : Bytes} (h : part ∈ s.splitOn c)
    (hx : x ∈ part) : x ∈ s := by
  induction s generalizing part with
  | nil =>
      rw [List.mem_singleton.mp h] at hx
      exact hx
  | cons d s ih =>
      rw [List.splitOn_cons_eq_if_modifyHead] at h
      by_cases hd : d = c
      · rw [if_pos (by simp [hd])] at h
        rcases List.mem_cons.mp h with rfl | h
        · exact absurd hx List.not_mem_nil
        · exact List.mem_cons_of_mem d (ih h hx)
      · rw [if_neg (by simpa using hd)] at h
        cases hsplit : s.splitOn c with
        | nil => exact absurd hsplit (List.splitOn_ne_nil c s)
        | cons e es =>
            rw [hsplit] at h ih
            rcases List.mem_cons.mp h with rfl | h
            · rcases List.mem_cons.mp hx with rfl | hx
              · exact List.mem_cons_self
              · exact List.mem_cons_of_mem d (ih List.mem_cons_self hx)
            · exact List.mem_cons_of_mem d (ih (List.mem_cons_of_mem _ h) hx)

theorem mem_joinWith {c x : UInt8} {parts : List Bytes} (h : x ∈ joinWith [c] parts) :
    x = c ∨ ∃ part ∈ parts, x ∈ part := by
  induction parts with
  | nil => exact absurd h List.not_mem_nil
  | cons part parts ih =>
      cases parts with
      | nil => exact .inr ⟨part, List.mem_cons_self, h⟩
      | cons next parts =>
          rw [joinWith, List.mem_append, List.mem_append, List.mem_singleton] at h
          rcases h with (hx | hx) | hx
          · exact .inr ⟨part, List.mem_cons_self, hx⟩
          · exact .inl hx
          · rcases ih hx with hc | ⟨p, hp, hin⟩
            · exact .inl hc
            · exact .inr ⟨p, List.mem_cons_of_mem _ hp, hin⟩

/-- What was joined, split again. -/
theorem splitOn_joinWith {c : UInt8} {parts : List Bytes} (hparts : ∀ part ∈ parts, c ∉ part)
    (hne : parts ≠ []) : (joinWith [c] parts).splitOn c = parts := by
  induction parts with
  | nil => exact absurd rfl hne
  | cons part parts ih =>
      cases parts with
      | nil => exact List.splitOn_eq_singleton (hparts part List.mem_cons_self)
      | cons next parts =>
          have hassoc : joinWith [c] (part :: next :: parts)
              = part ++ c :: joinWith [c] (next :: parts) := by
            simp [joinWith]
          rw [hassoc, List.splitOn_append_cons_self_of_not_mem (hparts part List.mem_cons_self),
            ih (fun p hp => hparts p (List.mem_cons_of_mem _ hp)) (by simp)]

end FsBridge.Lib
