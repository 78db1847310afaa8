/-
  FsBridge.Lib.Query

  The query of a URL as Go's net/url reads it (`ParseQuery`, `QueryUnescape`,
  `Values.Get`): parts between `&`, each a key and a value around the first `=`; a
  part with a `;` or a bad escape is dropped.

  The pairs are kept in the order of the text, so the first value of a key is what
  `lookup` finds.

  * `parseQuery_append` — the query of two texts around a `&`.
  * `get_take_head`, `get_take_skip` — what a key has in a query that has been cut.
  * `length_of_mem_parseQuery` — a value is shorter than the query.
-/

import FsBridge.Lib.Ascii

namespace FsBridge.Lib.Query

def amp : UInt8 := 38
def eq : UInt8 := 61
def semicolon : UInt8 := 59
def percent : UInt8 := 37
def plus : UInt8 := 43

/-- `strings.Cut`: what is before the first `c`, and what is behind it. -/
def cut (c : UInt8) (s : Bytes) : Bytes × Bytes :=
  (s.takeWhile (· != c), (s.dropWhile (· != c)).tail)

/-- The value of a hexadecimal digit. -/
def unhex (c : UInt8) : Option UInt8 :=
  if 48 ≤ c ∧ c ≤ 57 then some (c - 48)
  else if 97 ≤ c ∧ c ≤ 102 then some (c - 97 + 10)
  else if 65 ≤ c ∧ c ≤ 70 then some (c - 65 + 10)
  else none

/-- `QueryUnescape`. -/
def unescape : Bytes → Option Bytes
  | [] => some []
  | c :: s =>
      if c = percent then
        match s with
        | a :: b :: t =>
            match unhex a, unhex b with
            | some x, some y => (unescape t).map ((x * 16 + y) :: ·)
            | _, _ => none
        | _ => none
      else if c = plus then (unescape s).map (32 :: ·)
      else (unescape s).map (c :: ·)

/-- A part between two `&`. -/
def parsePair (part : Bytes) : Option (Bytes × Bytes) :=
  if semicolon ∈ part then none
  else if part = [] then none
  else
    match unescape (cut eq part).1, unescape (cut eq part).2 with
    | some key, some value => some (key, value)
    | _, _ => none

/-- `ParseQuery`, what it finds next to its error. -/
def parseQuery (query : Bytes) : List (Bytes × Bytes) := (query.splitOn amp).filterMap parsePair

/-- `Values.Get`. -/
def get (values : List (Bytes × Bytes)) (key : Bytes) : Bytes := (values.lookup key).getD []

-- ============================================================================
-- Cut
-- ============================================================================

theorem bne_of_not_mem {c : UInt8} {s : Bytes} (h : c ∉ s) : ∀ x ∈ s, (x != c) = true := by
  intro x hx
  simp only [bne_iff_ne]
  rintro rfl
  exact h hx

theorem cut_append_cons {c : UInt8} {a : Bytes} (h : c ∉ a) (b : Bytes) :
    cut c (a ++ c :: b) = (a, b) := by
  have hall := bne_of_not_mem h
  rw [cut, List.takeWhile_append_of_pos hall, List.dropWhile_append_of_pos hall]
  simp

theorem cut_of_not_mem {c : UInt8} {s : Bytes} (h : c ∉ s) : cut c s = (s, []) := by
  have hall := bne_of_not_mem h
  have htake : (s ++ []).takeWhile (· != c) = s ++ [] := List.takeWhile_append_of_pos hall
  have hdrop : (s ++ []).dropWhile (· != c) = [] := List.dropWhile_append_of_pos hall
  rw [List.append_nil] at htake hdrop
  rw [cut, htake, hdrop]
  rfl

theorem not_mem_cut_fst (c : UInt8) (s : Bytes) : c ∉ (cut c s).1 := by
  by_cases h : c ∈ s
  · obtain ⟨a, b, rfl, ha⟩ := List.eq_append_cons_of_mem h
    rw [cut_append_cons ha]
    exact ha
  · rw [cut_of_not_mem h]
    exact h

theorem cut_snd_append_of_mem {c : UInt8} {a : Bytes} (h : c ∈ a) (b : Bytes) :
    (cut c (a ++ b)).2 = (cut c a).2 ++ b := by
  obtain ⟨x, y, rfl, hx⟩ := List.eq_append_cons_of_mem h
  rw [List.append_assoc, List.cons_append, cut_append_cons hx, cut_append_cons hx]

theorem cut_snd_append_of_not_mem {c : UInt8} {a : Bytes} (h : c ∉ a) (b : Bytes) :
    (cut c (a ++ b)).2 = (cut c b).2 := by
  by_cases hb : c ∈ b
  · obtain ⟨x, y, rfl, hx⟩ := List.eq_append_cons_of_mem hb
    have hax : c ∉ a ++ x := by
      rw [List.mem_append]
      exact fun hmem => hmem.elim h hx
    rw [← List.append_assoc, cut_append_cons hax, cut_append_cons hx]
  · have hab : c ∉ a ++ b := by
      rw [List.mem_append]
      exact fun hmem => hmem.elim h hb
    rw [cut_of_not_mem hab, cut_of_not_mem hb]

theorem length_cut_snd_le (c : UInt8) (s : Bytes) : (cut c s).2.length ≤ s.length := by
  by_cases h : c ∈ s
  · obtain ⟨x, y, rfl, hx⟩ := List.eq_append_cons_of_mem h
    rw [cut_append_cons hx, List.length_append, List.length_cons]
    show y.length ≤ x.length + (y.length + 1)
    omega
  · rw [cut_of_not_mem h]
    exact Nat.zero_le _

-- ============================================================================
-- Escapes
-- ============================================================================

/-- Unescaping makes nothing longer. -/
theorem length_unescape_le {s t : Bytes} (h : unescape s = some t) : t.length ≤ s.length := by
  fun_induction unescape s generalizing t with
  | case1 =>
      obtain rfl := Option.some.inj h
      exact Nat.le_refl _
  | case2 a b rest x y hx hy ih =>
      obtain ⟨u, hu, rfl⟩ := Option.map_eq_some_iff.mp h
      have hle := ih hu
      simp only [List.length_cons]
      omega
  | case3 => exact absurd h (by simp)
  | case4 => exact absurd h (by simp)
  | case5 s hne ih =>
      obtain ⟨u, hu, rfl⟩ := Option.map_eq_some_iff.mp h
      have hle := ih hu
      simp only [List.length_cons]
      omega
  | case6 c s hne hne' ih =>
      obtain ⟨u, hu, rfl⟩ := Option.map_eq_some_iff.mp h
      have hle := ih hu
      simp only [List.length_cons]
      omega

/-- A byte that stands for itself in a key or a value. -/
def IsLiteral (c : UInt8) : Prop := c ≠ percent ∧ c ≠ plus

instance (c : UInt8) : Decidable (IsLiteral c) := by
  unfold IsLiteral
  infer_instance

/-- What needs no escape is taken as it is. -/
theorem unescape_of_literal {s : Bytes} (h : ∀ c ∈ s, IsLiteral c) : unescape s = some s := by
  induction s with
  | nil => rfl
  | cons c s ih =>
      obtain ⟨hpercent, hplus⟩ := h c List.mem_cons_self
      have hrest := ih fun d hd => h d (List.mem_cons_of_mem _ hd)
      unfold unescape
      rw [if_neg hpercent, if_neg hplus, hrest, Option.map_some]

/-- Only literal text is its own unescaped form. -/
theorem literal_of_unescape {s : Bytes} (h : unescape s = some s) : ∀ c ∈ s, IsLiteral c := by
  fun_induction unescape s with
  | case1 => simp
  | case2 a b rest x y hx hy ih =>
      obtain ⟨u, hu, heq⟩ := Option.map_eq_some_iff.mp h
      have hle := length_unescape_le hu
      have hlen := congrArg List.length heq
      simp only [List.length_cons] at hlen
      omega
  | case3 => exact absurd h (by simp)
  | case4 => exact absurd h (by simp)
  | case5 s hne ih =>
      obtain ⟨u, hu, heq⟩ := Option.map_eq_some_iff.mp h
      exact absurd (List.cons.inj heq).1 (by decide)
  | case6 c s hne hne' ih =>
      obtain ⟨u, hu, heq⟩ := Option.map_eq_some_iff.mp h
      obtain ⟨-, rfl⟩ := List.cons.inj heq
      intro d hd
      rcases List.mem_cons.mp hd with rfl | hd
      · exact ⟨hne, hne'⟩
      · exact ih hu d hd

-- ============================================================================
-- Pairs
-- ============================================================================

theorem parseQuery_nil : parseQuery [] = [] := rfl

/-- A query is parsed part by part. -/
theorem parseQuery_append (a b : Bytes) :
    parseQuery (a ++ amp :: b) = parseQuery a ++ parseQuery b := by
  rw [parseQuery, List.splitOn_append_cons_self, List.filterMap_append]
  rfl

theorem parseQuery_part {s : Bytes} (h : amp ∉ s) : parseQuery s = (parsePair s).toList := by
  rw [parseQuery, List.splitOn_eq_singleton h]
  cases hpair : parsePair s with
  | none => simp [hpair]
  | some pair => simp [hpair]

theorem length_of_parsePair {part key value : Bytes} (h : parsePair part = some (key, value))
    (hvalue : value ≠ []) : value.length + 1 + key.length ≤ part.length := by
  unfold parsePair at h
  split at h
  · exact absurd h (by simp)
  · split at h
    · exact absurd h (by simp)
    · split at h
      · rename_i k v hk hv
        obtain ⟨rfl, rfl⟩ := Prod.mk.inj (Option.some.inj h)
        have hklen := length_unescape_le hk
        have hvlen := length_unescape_le hv
        by_cases heq : eq ∈ part
        · obtain ⟨x, y, rfl, hx⟩ := List.eq_append_cons_of_mem heq
          rw [cut_append_cons hx] at hklen hvlen
          simp only at hklen hvlen
          rw [List.length_append, List.length_cons]
          omega
        · -- without a `=` the value is empty
          rw [cut_of_not_mem heq] at hv
          exact absurd (Option.some.inj hv).symm hvalue
      · exact absurd h (by simp)

theorem length_le_of_mem_splitOn {c : UInt8} {s part : Bytes} (h : part ∈ s.splitOn c) :
    part.length ≤ s.length := by
  induction hlen : s.length using Nat.strongRecOn generalizing s with
  | ind n ih =>
      by_cases hc : c ∈ s
      · obtain ⟨x, y, rfl, hx⟩ := List.eq_append_cons_of_mem hc
        rw [List.length_append, List.length_cons] at hlen
        rw [List.splitOn_append_cons_self_of_not_mem hx] at h
        rcases List.mem_cons.mp h with rfl | h
        · omega
        · have hle := ih y.length (by omega) h rfl
          omega
      · rw [List.splitOn_eq_singleton hc] at h
        obtain rfl := List.mem_singleton.mp h
        omega

/-- A value is shorter than the query, by its key and the `=` at least. -/
theorem length_of_mem_parseQuery {s key value : Bytes} (h : (key, value) ∈ parseQuery s)
    (hvalue : value ≠ []) : value.length + 1 + key.length ≤ s.length := by
  obtain ⟨part, hpart, hpair⟩ := List.mem_filterMap.mp h
  have hle := length_le_of_mem_splitOn hpart
  have hpairlen := length_of_parsePair hpair hvalue
  omega

theorem mem_of_lookup {values : List (Bytes × Bytes)} {key value : Bytes}
    (h : values.lookup key = some value) : (key, value) ∈ values := by
  induction values with
  | nil => exact absurd h (by simp)
  | cons pair values ih =>
      obtain ⟨k, v⟩ := pair
      rw [List.lookup_cons] at h
      split at h
      · rename_i hkey
        obtain rfl := Option.some.inj h
        obtain rfl := eq_of_beq hkey
        exact List.mem_cons_self
      · exact List.mem_cons_of_mem _ (ih h)

/-- A parameter with a value is there in full length. -/
theorem length_of_get {s key : Bytes} (h : get (parseQuery s) key ≠ []) :
    (get (parseQuery s) key).length + 1 + key.length ≤ s.length := by
  unfold get at h ⊢
  cases hlookup : (parseQuery s).lookup key with
  | none => exact absurd (by rw [hlookup]; rfl) h
  | some value =>
      rw [hlookup] at h
      exact length_of_mem_parseQuery (mem_of_lookup hlookup) h

theorem get_append_of_some {a b : List (Bytes × Bytes)} {key value : Bytes}
    (h : a.lookup key = some value) : get (a ++ b) key = value := by
  rw [get, List.lookup_append, h]
  rfl

theorem get_append_of_none {a b : List (Bytes × Bytes)} {key : Bytes}
    (h : a.lookup key = none) : get (a ++ b) key = get b key := by
  rw [get, List.lookup_append, h]
  rfl

/-- Text that a value consists of without any escape. -/
def IsValue (s : Bytes) : Prop := ∀ c ∈ s, IsLiteral c ∧ c ≠ amp ∧ c ≠ semicolon

instance (s : Bytes) : Decidable (IsValue s) := List.decidableBAll _ s

structure IsKey (s : Bytes) : Prop where
  value : IsValue s
  no_eq : eq ∉ s
  ne_nil : s ≠ []

theorem IsValue.take {s : Bytes} (h : IsValue s) (k : Nat) : IsValue (s.take k) :=
  fun c hc => h c (List.mem_of_mem_take hc)

theorem IsValue.literal {s : Bytes} (h : IsValue s) : ∀ c ∈ s, IsLiteral c := fun c hc => (h c hc).1

theorem IsValue.no_amp {s : Bytes} (h : IsValue s) : amp ∉ s := fun hmem => (h amp hmem).2.1 rfl

theorem IsValue.no_semicolon {s : Bytes} (h : IsValue s) : semicolon ∉ s :=
  fun hmem => (h semicolon hmem).2.2 rfl

theorem IsKey.take {s : Bytes} (h : IsKey s) {k : Nat} (hk : 0 < k) : IsKey (s.take k) where
  value := h.value.take k
  no_eq := fun hmem => h.no_eq (List.mem_of_mem_take hmem)
  ne_nil := by
    rw [ne_eq, List.take_eq_nil_iff, not_or]
    exact ⟨by omega, h.ne_nil⟩

theorem parseQuery_key {key : Bytes} (h : IsKey key) : parseQuery key = [(key, [])] := by
  rw [parseQuery_part h.value.no_amp, parsePair, if_neg h.value.no_semicolon, if_neg h.ne_nil,
    cut_of_not_mem h.no_eq]
  simp only [unescape_of_literal h.value.literal]
  rfl

/-- A key that needs no escape, and any value. -/
theorem parsePair_pair {key : Bytes} (hkey : IsKey key) (value : Bytes) :
    parsePair (key ++ eq :: value)
      = if semicolon ∈ value then none else (unescape value).map fun v => (key, v) := by
  have hsemicolon : semicolon ∈ key ++ eq :: value ↔ semicolon ∈ value := by
    rw [List.mem_append, List.mem_cons]
    constructor
    · rintro (hmem | heq | hmem)
      · exact absurd hmem hkey.value.no_semicolon
      · exact absurd heq (by decide)
      · exact hmem
    · intro hmem
      exact .inr (.inr hmem)
  unfold parsePair
  rw [if_neg (by simp : ¬ key ++ eq :: value = []), cut_append_cons hkey.no_eq]
  simp only [hsemicolon, unescape_of_literal hkey.value.literal]
  cases unescape value with
  | none => rfl
  | some v => rfl

theorem no_amp_pair {key value : Bytes} (hkey : IsKey key) (hvalue : amp ∉ value) :
    amp ∉ key ++ eq :: value := by
  rw [List.mem_append, List.mem_cons, not_or, not_or]
  exact ⟨hkey.value.no_amp, by decide, hvalue⟩

/-- One parameter. -/
theorem parseQuery_pair {key value : Bytes} (hkey : IsKey key) (hvalue : IsValue value) :
    parseQuery (key ++ eq :: value) = [(key, value)] := by
  rw [parseQuery_part (no_amp_pair hkey hvalue.no_amp), parsePair_pair hkey,
    if_neg hvalue.no_semicolon, unescape_of_literal hvalue.literal]
  rfl

/-- With a `&` in it a text does not come back from behind its key: nothing in the query
    is long enough to be it. -/
theorem no_amp_of_get_pair {key value : Bytes} (hne : value ≠ [])
    (hget : get (parseQuery (key ++ eq :: value)) key = value) : amp ∉ value := by
  intro hmem
  obtain ⟨a, b, hsplit, -⟩ := List.eq_append_cons_of_mem hmem
  have hlen := congrArg List.length hsplit
  rw [List.length_append, List.length_cons] at hlen
  have hparts : parseQuery (key ++ eq :: value) = parseQuery (key ++ eq :: a) ++ parseQuery b := by
    rw [hsplit, ← parseQuery_append, List.append_assoc, List.cons_append]
  rw [hparts] at hget
  cases hfirst : (parseQuery (key ++ eq :: a)).lookup key with
  | some v =>
      rw [get_append_of_some hfirst] at hget
      subst hget
      have hle := length_of_mem_parseQuery (mem_of_lookup hfirst) hne
      rw [List.length_append, List.length_cons] at hle
      omega
  | none =>
      rw [get_append_of_none hfirst] at hget
      have hfound : get (parseQuery b) key ≠ [] := by
        rw [hget]
        exact hne
      have hle := length_of_get hfound
      rw [hget] at hle
      omega

/-- A text that stands behind its key as it is comes back only if it needs no escape. -/
theorem get_pair_eq_self {key value : Bytes} (hkey : IsKey key) :
    get (parseQuery (key ++ eq :: value)) key = value ↔ IsValue value := by
  constructor
  · intro hget
    by_cases hne : value = []
    · subst hne
      exact fun c hc => absurd hc (by simp)
    have hamp := no_amp_of_get_pair hne hget
    rw [parseQuery_part (no_amp_pair hkey hamp), parsePair_pair hkey] at hget
    split at hget
    · exact absurd hget.symm hne
    · rename_i hsemicolon
      cases hunescape : unescape value with
      | none =>
          rw [hunescape] at hget
          exact absurd hget.symm hne
      | some v =>
          have hv : v = value := by
            rw [hunescape] at hget
            simpa [get] using hget
          rw [hv] at hunescape
          have hliteral := literal_of_unescape hunescape
          intro c hc
          refine ⟨hliteral c hc, ?_, ?_⟩
          · rintro rfl
            exact hamp hc
          · rintro rfl
            exact hsemicolon hc
  · intro hvalue
    rw [parseQuery_pair hkey hvalue, get]
    simp

-- ============================================================================
-- Queries that have been cut
-- ============================================================================

/-- One parameter that is cut off. -/
theorem parseQuery_take_pair {key value : Bytes} (hkey : IsKey key) (hvalue : IsValue value)
    {k : Nat} (hk : 0 < k) :
    parseQuery ((key ++ eq :: value).take k) = [(key.take k, value.take (k - key.length - 1))] := by
  rcases Nat.lt_or_ge key.length k with hlong | hshort
  · obtain ⟨j, rfl⟩ : ∃ j, k = key.length + (j + 1) := ⟨k - key.length - 1, by omega⟩
    rw [List.take_length_add_append, List.take_succ_cons, parseQuery_pair hkey (hvalue.take j),
      List.take_of_length_le (by omega : key.length ≤ key.length + (j + 1)),
      show key.length + (j + 1) - key.length - 1 = j by omega]
  · rw [List.take_append_of_le_length hshort, parseQuery_key (hkey.take hk),
      show k - key.length - 1 = 0 by omega, List.take_zero]

theorem lookup_pair_ne {key key' : Bytes} (h : key' ≠ key) (value : Bytes) :
    [(key, value)].lookup key' = none := by
  rw [List.lookup_cons, beq_eq_false_iff_ne.mpr h]
  rfl

/-- Another key is not found, unless the key is cut down to it. -/
theorem lookup_take_pair_ne {key key' value : Bytes} (hkey : IsKey key) (hvalue : IsValue value)
    (hne : ¬ key' <+: key) (k : Nat) :
    (parseQuery ((key ++ eq :: value).take k)).lookup key' = none := by
  rcases Nat.eq_zero_or_pos k with rfl | hk
  · rfl
  · have hdiff : key' ≠ key.take k := by
      rintro rfl
      exact hne (List.take_prefix k key)
    rw [parseQuery_take_pair hkey hvalue hk, lookup_pair_ne hdiff]

/-- A query that is cut off in its first part or behind it. -/
theorem parseQuery_take_append (a b : Bytes) (k : Nat) :
    parseQuery ((a ++ amp :: b).take k)
      = parseQuery (a.take k) ++ parseQuery (b.take (k - a.length - 1)) := by
  rcases Nat.lt_or_ge a.length k with hlong | hshort
  · obtain ⟨j, rfl⟩ : ∃ j, k = a.length + (j + 1) := ⟨k - a.length - 1, by omega⟩
    rw [List.take_length_add_append, List.take_succ_cons, parseQuery_append,
      List.take_of_length_le (by omega : a.length ≤ a.length + (j + 1)),
      show a.length + (j + 1) - a.length - 1 = j by omega]
  · rw [List.take_append_of_le_length hshort, show k - a.length - 1 = 0 by omega, List.take_zero,
      parseQuery_nil, List.append_nil]

/-- The first key of a query that has been cut: what is left of its value. -/
theorem get_take_head {key value : Bytes} (hkey : IsKey key) (hvalue : IsValue value)
    (rest : Bytes) (k : Nat) :
    get (parseQuery ((key ++ eq :: value ++ amp :: rest).take k)) key
      = value.take (k - key.length - 1) := by
  rw [parseQuery_take_append]
  rcases Nat.lt_or_ge k key.length with hshort | hlong
  · -- the key itself is cut, and nothing is left behind it
    have hnone : (parseQuery ((key ++ eq :: value).take k)).lookup key = none := by
      rcases Nat.eq_zero_or_pos k with rfl | hk
      · rfl
      · have hdiff : key ≠ key.take k := by
          intro heq
          have hlen := congrArg List.length heq
          rw [List.length_take] at hlen
          omega
        rw [parseQuery_take_pair hkey hvalue hk, lookup_pair_ne hdiff]
    have hrest : k - (key ++ eq :: value).length - 1 = 0 := by
      rw [List.length_append, List.length_cons]
      omega
    rw [get_append_of_none hnone, hrest, List.take_zero, parseQuery_nil,
      show k - key.length - 1 = 0 by omega, List.take_zero]
    rfl
  · have hpos : 0 < k := Nat.lt_of_lt_of_le (List.length_pos_iff.mpr hkey.ne_nil) hlong
    refine get_append_of_some ?_
    rw [parseQuery_take_pair hkey hvalue hpos, List.take_of_length_le hlong, List.lookup_cons]
    simp

/-- Past the first key. -/
theorem get_take_skip {key key' value : Bytes} (hkey : IsKey key) (hvalue : IsValue value)
    (hne : ¬ key' <+: key) (rest : Bytes) (k : Nat) :
    get (parseQuery ((key ++ eq :: value ++ amp :: rest).take k)) key'
      = get (parseQuery (rest.take (k - (key ++ eq :: value).length - 1))) key' := by
  rw [parseQuery_take_append, get_append_of_none (lookup_take_pair_ne hkey hvalue hne k)]

end FsBridge.Lib.Query
