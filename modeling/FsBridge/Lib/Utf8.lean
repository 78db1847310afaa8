/-
  FsBridge.Lib.Utf8

  The runes of a byte string, decoded as Go's unicode/utf8 does: a byte that
  starts no valid encoding is one `runeError`.

  `mapRunes` is `strings.Map`.  A mapping that drops all runes but some of the
  one-byte ones is a filter of the bytes (`mapRunes_keep`), since no other rune
  has such a byte in its encoding.
-/

import FsBridge.Lib.Ascii

namespace FsBridge.Lib

/-- `utf8.RuneError`. -/
def runeError : Nat := 0xFFFD

/-- What a first byte from 0x80 on says: the size of the encoding, and the range
    of the second byte. -/
def firstByte (b : UInt8) : Option (Nat × UInt8 × UInt8) :=
  if b < 0xC2 then none
  else if b ≤ 0xDF then some (2, 0x80, 0xBF)
  else if b = 0xE0 then some (3, 0xA0, 0xBF)
  else if b = 0xED then some (3, 0x80, 0x9F)
  else if b ≤ 0xEF then some (3, 0x80, 0xBF)
  else if b = 0xF0 then some (4, 0x90, 0xBF)
  else if b ≤ 0xF3 then some (4, 0x80, 0xBF)
  else if b = 0xF4 then some (4, 0x80, 0x8F)
  else none

/-- A byte after the second one. -/
def isTail (b : UInt8) : Bool := 0x80 ≤ b ∧ b ≤ 0xBF

/-- `utf8.DecodeRune` of the string `b :: s`: the rune and its size. -/
def decodeRune (b : UInt8) (s : Bytes) : Nat × Nat :=
  if b < 0x80 then (b.toNat, 1)
  else
    match firstByte b with
    | none => (runeError, 1)
    | some (size, lo, hi) =>
        match s with
        | [] => (runeError, 1)
        | c :: s =>
            if c < lo ∨ hi < c then (runeError, 1)
            else if size = 2 then (b.toNat % 32 * 64 + c.toNat % 64, 2)
            else
              match s with
              | [] => (runeError, 1)
              | d :: s =>
                  if isTail d = false then (runeError, 1)
                  else if size = 3 then
                    (b.toNat % 16 * 4096 + c.toNat % 64 * 64 + d.toNat % 64, 3)
                  else
                    match s with
                    | [] => (runeError, 1)
                    | e :: _ =>
                        if isTail e = false then (runeError, 1)
                        else (b.toNat % 8 * 262144 + c.toNat % 64 * 4096 + d.toNat % 64 * 64
                          + e.toNat % 64, 4)

/-- The runes behind the first `skip` bytes. -/
def runesFrom : Nat → Bytes → List Nat
  | _, [] => []
  | skip + 1, _ :: s => runesFrom skip s
  | 0, b :: s => (decodeRune b s).1 :: runesFrom ((decodeRune b s).2 - 1) s

/-- The runes of a string. -/
def runes (s : Bytes) : List Nat := runesFrom 0 s

/-- `utf8.AppendRune`, for a valid rune. -/
def encodeRune (r : Nat) : Bytes :=
  if r < 0x80 then [r.toUInt8]
  else if r < 0x800 then [(0xC0 + r / 64).toUInt8, (0x80 + r % 64).toUInt8]
  else if r < 0x10000 then
    [(0xE0 + r / 4096).toUInt8, (0x80 + r / 64 % 64).toUInt8, (0x80 + r % 64).toUInt8]
  else
    [(0xF0 + r / 262144).toUInt8, (0x80 + r / 4096 % 64).toUInt8, (0x80 + r / 64 % 64).toUInt8,
      (0x80 + r % 64).toUInt8]

/-- `strings.Map`: `none` drops the rune. -/
def mapRunes (mapping : Nat → Option Nat) (s : Bytes) : Bytes :=
  ((runes s).filterMap mapping).flatMap encodeRune

example : runes [0x61, 0xC3, 0xA9, 0xFF, 0xE2, 0x82, 0xAC] = [0x61, 0xE9, runeError, 0x20AC] := by
  decide

-- ============================================================================
-- Mappings that keep one-byte runes only
-- ============================================================================

/-- What the first byte and the range of the second say about the rune. -/
theorem firstByte_bounds {b : UInt8} {size : Nat} {lo hi : UInt8}
    (h : firstByte b = some (size, lo, hi)) :
    0x80 ≤ lo.toNat ∧ hi.toNat ≤ 0xBF ∧
      ((size = 2 ∧ 0xC2 ≤ b.toNat ∧ b.toNat ≤ 0xDF) ∨
        (size = 3 ∧ 0xE0 ≤ b.toNat ∧ b.toNat ≤ 0xEF ∧ (0xE1 ≤ b.toNat ∨ lo.toNat = 0xA0)) ∨
        (size = 4 ∧ 0xF0 ≤ b.toNat ∧ b.toNat ≤ 0xF4 ∧ (0xF1 ≤ b.toNat ∨ lo.toNat = 0x90))) := by
  simp only [firstByte, UInt8.lt_iff_toNat_lt, UInt8.le_iff_toNat_le, ← UInt8.toNat_inj,
    UInt8.reduceToNat] at h
  have hA0 : (0xA0 : UInt8).toNat = 0xA0 := rfl
  have h90 : (0x90 : UInt8).toNat = 0x90 := rfl
  repeat' split at h
  all_goals simp only [Option.some.injEq, Prod.mk.injEq, reduceCtorEq] at h
  all_goals
    obtain ⟨rfl, rfl, rfl⟩ := h
    refine ⟨by decide, by decide, ?_⟩
    omega

/-- A byte of an encoding behind its first one. -/
def Continues (c : UInt8) : Prop := 0x80 ≤ c.toNat ∧ c.toNat ≤ 0xBF

theorem continues_of_isTail {c : UInt8} (h : ¬ isTail c = false) : Continues c := by
  have htail : isTail c = true := by simpa using h
  rw [isTail, decide_eq_true_iff, UInt8.le_iff_toNat_le, UInt8.le_iff_toNat_le] at htail
  exact htail

theorem Continues.le {c : UInt8} (h : Continues c) : 0x80 ≤ c := UInt8.le_iff_toNat_le.mpr h.1

/-- What `decodeRune` finds, by the length of the encoding; the last bound of a rune keeps
    its encoding from being too long. -/
inductive Decoded (b : UInt8) : Bytes → Nat × Nat → Prop where
  | ascii (s : Bytes) (hb : b.toNat < 0x80) : Decoded b s (b.toNat, 1)
  | invalid (s : Bytes) (hb : 0x80 ≤ b.toNat) : Decoded b s (runeError, 1)
  | two (c : UInt8) (s : Bytes) (hb : 0xC2 ≤ b.toNat ∧ b.toNat ≤ 0xDF) (hc : Continues c) :
      Decoded b (c :: s) (b.toNat % 32 * 64 + c.toNat % 64, 2)
  | three (c d : UInt8) (s : Bytes) (hb : 0xE0 ≤ b.toNat ∧ b.toNat ≤ 0xEF) (hc : Continues c)
      (hd : Continues d) (hlong : 0xE1 ≤ b.toNat ∨ 0xA0 ≤ c.toNat) :
      Decoded b (c :: d :: s)
        (b.toNat % 16 * 4096 + c.toNat % 64 * 64 + d.toNat % 64, 3)
  | four (c d e : UInt8) (s : Bytes) (hb : 0xF0 ≤ b.toNat ∧ b.toNat ≤ 0xF4) (hc : Continues c)
      (hd : Continues d) (he : Continues e) (hlong : 0xF1 ≤ b.toNat ∨ 0x90 ≤ c.toNat) :
      Decoded b (c :: d :: e :: s)
        (b.toNat % 8 * 262144 + c.toNat % 64 * 4096 + d.toNat % 64 * 64 + e.toNat % 64, 4)

theorem decodeRune_decoded (b : UInt8) (s : Bytes) : Decoded b s (decodeRune b s) := by
  rw [decodeRune]
  by_cases hascii : b < 0x80
  · rw [if_pos hascii]
    exact .ascii s (UInt8.lt_iff_toNat_lt.mp hascii)
  have hb : 0x80 ≤ b.toNat := UInt8.le_iff_toNat_le.mp (UInt8.not_lt.mp hascii)
  rw [if_neg hascii]
  cases hfirst : firstByte b with
  | none => exact .invalid s hb
  | some range =>
      obtain ⟨size, lo, hi⟩ := range
      obtain ⟨hlo, hhi, hsize⟩ := firstByte_bounds hfirst
      rcases s with _ | ⟨c, s⟩
      · exact .invalid [] hb
      dsimp only
      by_cases hrange : c < lo ∨ hi < c
      · rw [if_pos hrange]
        exact .invalid _ hb
      rw [if_neg hrange]
      rw [not_or, UInt8.not_lt, UInt8.not_lt, UInt8.le_iff_toNat_le,
        UInt8.le_iff_toNat_le] at hrange
      have hc : Continues c := ⟨Nat.le_trans hlo hrange.1, Nat.le_trans hrange.2 hhi⟩
      by_cases htwo : size = 2
      · rw [if_pos htwo]
        exact .two c s (by omega) hc
      rw [if_neg htwo]
      rcases s with _ | ⟨d, s⟩
      · exact .invalid _ hb
      dsimp only
      by_cases htail : isTail d = false
      · rw [if_pos htail]
        exact .invalid _ hb
      rw [if_neg htail]
      have hd := continues_of_isTail htail
      by_cases hthree : size = 3
      · rw [if_pos hthree]
        exact .three c d s (by omega) hc hd (by omega)
      rw [if_neg hthree]
      rcases s with _ | ⟨e, s⟩
      · exact .invalid _ hb
      dsimp only
      by_cases hlast : isTail e = false
      · rw [if_pos hlast]
        exact .invalid _ hb
      rw [if_neg hlast]
      exact .four c d e s (by omega) hc hd (continues_of_isTail hlast) (by omega)

/-- A rune that is no ASCII, and so are the bytes of its encoding in `s`. -/
def LongRune (s : Bytes) (r : Nat × Nat) : Prop :=
  0x80 ≤ r.1 ∧ ∀ c ∈ s.take (r.2 - 1), 0x80 ≤ c

theorem decodeRune_long {b : UInt8} (s : Bytes) (hb : ¬ b < 0x80) :
    LongRune s (decodeRune b s) := by
  rw [UInt8.lt_iff_toNat_lt] at hb
  have hdecoded := decodeRune_decoded b s
  generalize decodeRune b s = r at hdecoded
  cases hdecoded with
  | ascii s hascii => exact absurd hascii hb
  | invalid s hhigh => exact ⟨by decide, by simp⟩
  | two c s hfirst hc =>
      refine ⟨?_, by simpa using hc.le⟩
      dsimp only
      omega
  | three c d s hfirst hc hd hlong =>
      obtain ⟨hlo, hhi⟩ := id hc
      refine ⟨?_, by simpa using ⟨hc.le, hd.le⟩⟩
      dsimp only
      omega
  | four c d e s hfirst hc hd he hlong =>
      obtain ⟨hlo, hhi⟩ := id hc
      refine ⟨?_, by simpa using ⟨hc.le, hd.le, he.le⟩⟩
      dsimp only
      omega

/-- The mapping keeps the bytes of `keep` and drops all other runes. -/
def keepBytes (keep : UInt8 → Bool) (r : Nat) : Option Nat :=
  if r < 0x80 ∧ keep r.toUInt8 then some r else none

theorem filterMap_runesFrom (keep : UInt8 → Bool) (skip : Nat) (s : Bytes)
    (hkeep : ∀ c, keep c → c < 0x80) (hskip : ∀ c ∈ s.take skip, 0x80 ≤ c) :
    ((runesFrom skip s).filterMap (keepBytes keep)).flatMap encodeRune = s.filter keep := by
  have hdrop : ∀ c : UInt8, 0x80 ≤ c → ¬ keep c := by
    intro c hc hk
    exact absurd (hkeep c hk) (UInt8.not_lt.mpr hc)
  induction s generalizing skip with
  | nil => cases skip <;> rfl
  | cons b s ih =>
      cases skip with
      | succ skip =>
          have hb : ¬ keep b := hdrop b (hskip b (by simp))
          rw [runesFrom, ih skip fun c hc => hskip c (by simp [hc]), List.filter_cons_of_neg hb]
      | zero =>
          rw [runesFrom]
          by_cases hb : b < 0x80
          · have hdecode : decodeRune b s = (b.toNat, 1) := by rw [decodeRune, if_pos hb]
            have hlt : b.toNat < 0x80 := UInt8.lt_iff_toNat_lt.mp hb
            rw [hdecode]
            by_cases hk : keep b
            · have hmap : keepBytes keep b.toNat = some b.toNat := by
                rw [keepBytes, if_pos ⟨hlt, by simpa using hk⟩]
              have hencode : encodeRune b.toNat = [b] := by
                rw [encodeRune, if_pos hlt]
                simp
              rw [List.filterMap_cons_some hmap, List.flatMap_cons, hencode,
                List.filter_cons_of_pos hk]
              exact congrArg (b :: ·) (ih 0 (by simp))
            · have hmap : keepBytes keep b.toNat = none := by
                rw [keepBytes, if_neg (by simp [hk])]
              rw [List.filterMap_cons_none hmap, List.filter_cons_of_neg hk]
              exact ih 0 (by simp)
          · obtain ⟨hrune, hbytes⟩ := decodeRune_long s hb
            have hmap : keepBytes keep (decodeRune b s).1 = none := by
              rw [keepBytes, if_neg (by omega)]
            rw [List.filterMap_cons_none hmap, ih _ hbytes,
              List.filter_cons_of_neg (hdrop b (UInt8.not_lt.mp hb))]

/-- Such a mapping filters the bytes. -/
theorem mapRunes_keep {keep : UInt8 → Bool} (hkeep : ∀ c, keep c → c < 0x80) (s : Bytes) :
    mapRunes (keepBytes keep) s = s.filter keep :=
  filterMap_runesFrom keep 0 s hkeep (by simp)

-- ============================================================================
-- Encoding what has been decoded
-- ============================================================================

theorem toUInt8_of_eq {n : Nat} {c : UInt8} (h : n = c.toNat) : n.toUInt8 = c := by
  rw [h]
  exact UInt8.ofNat_toNat

/-- A rune that has been decoded is encoded as it was. -/
theorem encodeRune_decodeRune {b : UInt8} {s : Bytes} (h : decodeRune b s ≠ (runeError, 1)) :
    encodeRune (decodeRune b s).1 = (b :: s).take (decodeRune b s).2 := by
  have hdecoded := decodeRune_decoded b s
  generalize decodeRune b s = r at h hdecoded
  cases hdecoded with
  | ascii s hb =>
      rw [encodeRune, if_pos hb]
      simp
  | invalid s hb => exact absurd rfl h
  | two c s hb hc =>
      obtain ⟨hlo, hhi⟩ := hc
      dsimp only
      rw [encodeRune, if_neg (by omega), if_pos (by omega), toUInt8_of_eq (c := b) (by omega),
        toUInt8_of_eq (c := c) (by omega)]
      rfl
  | three c d s hb hc hd hlong =>
      obtain ⟨hlo, hhi⟩ := hc
      obtain ⟨hdlo, hdhi⟩ := hd
      dsimp only
      rw [encodeRune, if_neg (by omega), if_neg (by omega), if_pos (by omega),
        toUInt8_of_eq (c := b) (by omega), toUInt8_of_eq (c := c) (by omega),
        toUInt8_of_eq (c := d) (by omega)]
      rfl
  | four c d e s hb hc hd he hlong =>
      obtain ⟨hlo, hhi⟩ := hc
      obtain ⟨hdlo, hdhi⟩ := hd
      obtain ⟨helo, hehi⟩ := he
      dsimp only
      rw [encodeRune, if_neg (by omega), if_neg (by omega), if_neg (by omega),
        toUInt8_of_eq (c := b) (by omega), toUInt8_of_eq (c := c) (by omega),
        toUInt8_of_eq (c := d) (by omega), toUInt8_of_eq (c := e) (by omega)]
      rfl

/-- ASCII is what it decodes to. -/
theorem mapRunes_some_of_ascii {s : Bytes} (h : ∀ c ∈ s, c < 0x80) : mapRunes some s = s := by
  rw [mapRunes, List.filterMap_some, runes]
  induction s with
  | nil => rfl
  | cons b s ih =>
      have hb : b < 0x80 := h b List.mem_cons_self
      have hlt : b.toNat < 0x80 := UInt8.lt_iff_toNat_lt.mp hb
      have hrune : encodeRune b.toNat = [b] := by
        rw [encodeRune, if_pos hlt]
        simp
      have hrest := ih fun c hc => h c (List.mem_cons_of_mem _ hc)
      rw [runesFrom, decodeRune, if_pos hb, List.flatMap_cons, hrune]
      exact congrArg (b :: ·) hrest

end FsBridge.Lib
