/-
  FsBridge.Lib.Json

  JSON values as a decoder of them sees them: strings are unescaped, the
  members of an object are in the order of the text, repeated names included.

  `stringField` and `mapField` fill the fields of a struct the way Go's
  encoding/json does: a member belongs to a field when its name is that of the
  field up to the case of letters, later members overwrite earlier ones, null
  leaves a string as it is, and a value of another type is an error.
-/

import FsBridge.Lib.Ascii

namespace FsBridge.Lib

inductive Json where
  | null
  | bool (b : Bool)
  | num (literal : Bytes)
  | str (s : Bytes)
  | arr (elements : List Json)
  | obj (members : List (Bytes × Json))
deriving Repr

namespace Json

/-- The name with every letter in lower case; besides the ASCII letters the
    Kelvin sign and the long s are letters of the ASCII alphabet in that sense. -/
def foldName : Bytes → Bytes
  | 0xE2 :: 0x84 :: 0xAA :: s => 107 :: foldName s
  | 0xC5 :: 0xBF :: s => 115 :: foldName s
  | c :: s => (if 65 ≤ c ∧ c ≤ 90 then c + 32 else c) :: foldName s
  | [] => []

/-- The member belongs to the field `name`, which is in lower case. -/
def isField (name : Bytes) (member : Bytes × Json) : Bool := foldName member.1 = name

/-- The string field `name` of a struct after `json.Unmarshal`, or `none` where
    that returns an error because of this field or of the value itself.  An
    absent value is an empty text, which is no JSON. -/
def stringField (name : Bytes) : Option Json → Option Bytes
  | some .null => some []
  | some (.obj members) =>
      (members.filter (isField name)).foldlM (fun acc member =>
        match member.2 with
        | .str s => some s
        | .null => some acc
        | _ => none) []
  | _ => none

/-- A `map[string]string`. -/
structure StringMap where
  entries : List (Bytes × Bytes)
  keys_nodup : (entries.map Prod.fst).Nodup

namespace StringMap

def empty : StringMap := ⟨[], List.nodup_nil⟩

/-- `m[key] = value`. -/
def insert (m : StringMap) (key value : Bytes) : StringMap where
  entries := (m.entries.filter fun e => e.1 ≠ key) ++ [(key, value)]
  keys_nodup := by
    have hsub : ((m.entries.filter fun e => e.1 ≠ key).map Prod.fst).Sublist
        (m.entries.map Prod.fst) := List.filter_sublist.map _
    rw [List.map_append, List.nodup_append]
    refine ⟨m.keys_nodup.sublist hsub, by simp, ?_⟩
    intro a ha b hb
    obtain ⟨e, he, rfl⟩ := List.mem_map.mp ha
    obtain rfl := List.mem_singleton.mp hb
    simpa using (List.mem_filter.mp he).2

/-- `m[key]`: a missing key reads as the empty string. -/
def get (m : StringMap) (key : Bytes) : Bytes := (m.entries.lookup key).getD []

theorem lookup_filter_ne {entries : List (Bytes × Bytes)} {key k : Bytes} (h : k ≠ key) :
    (entries.filter fun e => e.1 ≠ key).lookup k = entries.lookup k := by
  induction entries with
  | nil => rfl
  | cons e entries ih =>
      by_cases he : e.1 = key
      · have hk : (k == e.1) = false := by
          rw [he]
          simpa using h
        rw [List.filter_cons_of_neg (by simpa using he), ih, List.lookup_cons, hk]
      · rw [List.filter_cons_of_pos (by simpa using he), List.lookup_cons, List.lookup_cons, ih]

theorem get_insert_self (m : StringMap) (key value : Bytes) :
    (m.insert key value).get key = value := by
  have hnone : (m.entries.filter fun e => e.1 ≠ key).lookup key = none := by
    rw [List.lookup_eq_none_iff]
    intro e he
    have hne : e.1 ≠ key := by simpa using (List.mem_filter.mp he).2
    simpa using Ne.symm hne
  rw [get, insert, List.lookup_append, hnone, List.lookup_cons_self]
  rfl

theorem get_insert_of_ne (m : StringMap) {key k : Bytes} (value : Bytes) (h : k ≠ key) :
    (m.insert key value).get k = m.get k := by
  have hk : (k == key) = false := by simpa using h
  rw [get, insert, List.lookup_append, lookup_filter_ne h, List.lookup_cons, hk]
  simp [get]

end StringMap

/-- The value fits a string. -/
def isText : Json → Bool
  | .str _ | .null => true
  | _ => false

/-- One member of an object into a `map[string]string`. -/
def insertText (m : StringMap) (member : Bytes × Json) : Option StringMap :=
  match member.2 with
  | .str s => some (m.insert member.1 s)
  | .null => some (m.insert member.1 [])
  | _ => none

/-- `json.Unmarshal` into a `map[string]string`, `none` where it returns an error. -/
def stringMap : Json → Option StringMap
  | .null => some .empty
  | .obj members => members.foldlM insertText .empty
  | _ => none

theorem insertText_isSome (m : StringMap) (member : Bytes × Json) :
    (insertText m member).isSome = member.2.isText := by
  obtain ⟨name, value⟩ := member
  cases value <;> rfl

/-- The members of an object fit a `map[string]string` when they all are texts. -/
theorem foldlM_insertText_isSome (members : List (Bytes × Json)) (m : StringMap) :
    (members.foldlM insertText m).isSome = members.all fun member => member.2.isText := by
  induction members generalizing m with
  | nil => rfl
  | cons member members ih =>
      rw [List.foldlM_cons, List.all_cons, ← insertText_isSome m member]
      cases insertText m member with
      | none => rfl
      | some m' => exact ih m'

/-- The field `name` of type `map[string]string`; `null` empties the map. -/
def mapField (name : Bytes) : Option Json → Option StringMap
  | some .null => some .empty
  | some (.obj members) =>
      (members.filter (isField name)).foldlM (fun m member =>
        match member.2 with
        | .obj entries => entries.foldlM (fun m entry =>
            match entry.2 with
            | .str s => some (m.insert entry.1 s)
            | .null => some (m.insert entry.1 [])
            | _ => none) m
        | .null => some .empty
        | _ => none) .empty
  | _ => none

end Json

end FsBridge.Lib
