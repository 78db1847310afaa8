/-
  FsBridge.Bridge.LokiLines

  What a record leaves in the local log and in Loki (bridge/loki.go, `LokiHandler` over
  a `slog.JSONHandler`).

  The inner handler is told of every WithAttrs and WithGroup; the line for Loki is made of
  the record alone.  `JSONHandler` is the one of log/slog: it resolves LogValuers, inlines
  groups without a key, leaves out empty groups and the zero attribute, and writes an error
  as its text.  The line for Loki goes through encoding/json, which knows nothing of that.

  An attribute is named by the groups it is under and its key.
-/

import Mathlib.Data.List.AList
import Mathlib.Data.List.Induction
import FsBridge.Lib.Decimal
import FsBridge.Lib.Json

namespace FsBridge.Bridge.Loki

open FsBridge.Lib

-- ============================================================================
-- Attributes
-- ============================================================================

/-- The values of the kinds that both encoders write alike; a time and a float by their
    text. -/
inductive Scalar where
  | string (s : Bytes)
  | int64 (n : Int64)
  | uint64 (n : UInt64)
  | float64 (literal : Bytes)
  | bool (b : Bool)
  | duration (ns : Int64)
  | time (text : Bytes)

def Scalar.json : Scalar → Json
  | .string s => .str s
  | .int64 n => .num (Decimal.print n.toInt)
  | .uint64 n => .num (Decimal.print n.toNat)
  | .float64 literal => .num literal
  | .bool b => .bool b
  | .duration ns => .num (Decimal.print ns.toInt)
  | .time text => .str text

/-- Any other Go value: what `json.Marshal` makes of it, its text if it is an error, and
    whether it is a `json.Marshaler`. -/
structure AnyValue where
  json : Except Bytes Json
  error : Option Bytes
  marshaler : Bool

/-- `slog.Value`; a LogValuer with what encoding/json makes of it and what it resolves to
    (as such a `*slog.Source`, which the handler writes as a group). -/
inductive Value where
  | scalar (s : Scalar)
  | nil
  | any (v : AnyValue)
  /-- `GroupValue()`: a nil slice. -/
  | nilGroup
  /-- Any other group; what `GroupValue` has left of its arguments may be empty as well. -/
  | group (attrs : List (Bytes × Value))
  | logValuer (json : Except Bytes Json) (resolved : Value)

/-- `slog.Attr`. -/
abbrev Attr := Bytes × Value

/-- `slog.Record`; the time as encoding/json writes it, if it does. -/
structure Record where
  time : Option Bytes
  level : Bytes
  msg : Bytes
  attrs : List Attr

-- ============================================================================
-- The inner handler
-- ============================================================================

/-- `appendJSONMarshal`, and what stands for its error. -/
def marshaled : Except Bytes Json → Json
  | .ok j => j
  | .error err => .str (ascii "!ERROR:" ++ err)

/-- `appendJSONValue` of an `any`. -/
def AnyValue.content (v : AnyValue) : Json :=
  match v.error, v.marshaler with
  | some text, false => .str text
  | _, _ => marshaled v.json

/-- What the handler writes for a value, where it is no group. -/
def Value.content : Value → Option Json
  | .scalar s => some s.json
  | .nil => some .null
  | .any v => some v.content
  | .nilGroup | .group _ => none
  | .logValuer _ v => v.content

/-- The value is a nil. -/
def Value.isNil : Value → Bool
  | .nil => true
  | .logValuer _ v => v.isNil
  | _ => false

mutual

/-- `appendAttr`: the attributes it writes, with their names. -/
def Value.shown (groups : List Bytes) (key : Bytes) : Value → List (List Bytes × Json)
  | .scalar s => [(groups ++ [key], s.json)]
  | .nil => if key = [] then [] else [(groups ++ [key], .null)]
  | .any v => [(groups ++ [key], v.content)]
  | .nilGroup => []
  | .group attrs => shownAttrs (if key = [] then groups else groups ++ [key]) attrs
  | .logValuer _ v => v.shown groups key

/-- `appendAttrs`. -/
def shownAttrs (groups : List Bytes) : List Attr → List (List Bytes × Json)
  | [] => []
  | (key, v) :: attrs => v.shown groups key ++ shownAttrs groups attrs

end

/-- `slog.JSONHandler`: the open groups, and what is preformatted. -/
structure JSONHandler where
  groups : List Bytes
  attrs : List (List Bytes × Json)

def JSONHandler.withAttrs (h : JSONHandler) (attrs : List Attr) : JSONHandler :=
  { h with attrs := h.attrs ++ shownAttrs h.groups attrs }

def JSONHandler.withGroup (h : JSONHandler) (name : Bytes) : JSONHandler :=
  { h with groups := h.groups ++ [name] }

/-- A line of the local log. -/
structure LocalLine where
  level : Bytes
  msg : Bytes
  attrs : List (List Bytes × Json)

def JSONHandler.handle (h : JSONHandler) (r : Record) : LocalLine :=
  ⟨r.level, r.msg, h.attrs ++ shownAttrs h.groups r.attrs⟩

-- ============================================================================
-- LokiHandler
-- ============================================================================

/-- encoding/json of `a.Value.Any()`; a group is a slice of `slog.Attr`, whose `Value` has
    no exported field, and a nil slice is null. -/
def Value.json : Value → Except Bytes Json
  | .scalar s => .ok s.json
  | .nil => .ok .null
  | .any v => v.json
  | .nilGroup => .ok .null
  | .group attrs =>
      .ok (.arr (attrs.map fun a => .obj [(ascii "Key", .str a.1), (ascii "Value", .obj [])]))
  | .logValuer json _ => json

/-- A line for Loki. -/
structure LokiLine where
  time : Bytes
  level : Bytes
  msg : Bytes
  attrs : List (Bytes × Json)

/-- The map `attrs` of `Handle`: the last attribute of a key stays. -/
def attrsMap (attrs : List Attr) : AList fun _ : Bytes => Except Bytes Json :=
  attrs.foldl (fun m a => m.insert a.1 a.2.json) ∅

/-- The encoder stops at the first value it cannot encode. -/
def encodeAttrs : List (Sigma fun _ : Bytes => Except Bytes Json) → Option (List (Bytes × Json))
  | [] => some []
  | ⟨key, .ok j⟩ :: rest => (encodeAttrs rest).map fun attrs => (key, j) :: attrs
  | ⟨_, .error _⟩ :: _ => none

structure LokiHandler where
  inner : JSONHandler

def LokiHandler.withAttrs (h : LokiHandler) (attrs : List Attr) : LokiHandler :=
  ⟨h.inner.withAttrs attrs⟩

def LokiHandler.withGroup (h : LokiHandler) (name : Bytes) : LokiHandler :=
  ⟨h.inner.withGroup name⟩

/-- `Handle`: the line of the inner handler, and the line for `Send`, if there is one. -/
def LokiHandler.handle (h : LokiHandler) (r : Record) : LocalLine × Option LokiLine :=
  (h.inner.handle r,
    match r.time, encodeAttrs (attrsMap r.attrs).entries with
    | some time, some attrs => some ⟨time, r.level, r.msg, attrs⟩
    | _, _ => none)

/-- A call that derives a handler. -/
inductive Derive where
  | withAttrs (attrs : List Attr)
  | withGroup (name : Bytes)

def LokiHandler.derive (h : LokiHandler) : Derive → LokiHandler
  | .withAttrs attrs => h.withAttrs attrs
  | .withGroup name => h.withGroup name

/-- The handler at the end of a chain. -/
def derived (chain : List Derive) : LokiHandler := chain.foldl LokiHandler.derive ⟨⟨[], []⟩⟩

/-- The line for Loki has what the local line has. -/
def Carries (chain : List Derive) (r : Record) : Prop :=
  ∃ line, ((derived chain).handle r).2 = some line ∧
    line.level = ((derived chain).handle r).1.level ∧
    line.msg = ((derived chain).handle r).1.msg ∧
    ∀ name c, (name, c) ∈ ((derived chain).handle r).1.attrs →
      ∃ key, name = [key] ∧ (key, c) ∈ line.attrs

-- ============================================================================
-- The condition
-- ============================================================================

/-- encoding/json writes the value as the handler does.  No group is such a value; an error
    is one if it marshals itself or is encoded as its text. -/
def Value.Faithful : Value → Prop
  | .scalar _ | .nil => True
  | .any v =>
      match v.error, v.marshaler with
      | some text, false => v.json = .ok (.str text)
      | _, _ => ∃ j, v.json = .ok j
  | .nilGroup | .group _ => False
  | .logValuer json v => ∃ c, v.content = some c ∧ json = .ok c

/-- The last attribute of its key. -/
def IsLast (attrs : List Attr) (a : Attr) : Prop :=
  ∃ l r, attrs = l ++ a :: r ∧ ∀ b ∈ r, b.1 ≠ a.1

/-- The handler writes the attribute under its own key. -/
def IsShown (a : Attr) : Prop := a.2.content.isSome ∧ ¬ (a.1 = [] ∧ a.2.isNil = true)

/-- The record has the attribute for encoding/json. -/
def Repeats (r : Record) (key : Bytes) (c : Json) : Prop :=
  ∃ a, IsLast r.attrs a ∧ a.1 = key ∧ a.2.json = .ok c

/-- What Loki is told suffices. -/
structure Told (chain : List Derive) (r : Record) : Prop where
  time : r.time.isSome
  encodable : ∀ a, IsLast r.attrs a → ∃ j, a.2.json = .ok j
  ungrouped : ∀ name c, (name, c) ∈ ((derived chain).handle r).1.attrs → ∃ key, name = [key]
  own : ∀ a, IsLast r.attrs a → IsShown a → a.2.Faithful
  chained : ∀ key c, ([key], c) ∈ (derived chain).inner.attrs → Repeats r key c
  others : ∀ l a rest, r.attrs = l ++ a :: rest → (∃ b ∈ rest, b.1 = a.1) ∨ ¬ IsShown a →
    ∀ key c, ([key], c) ∈ a.2.shown (derived chain).inner.groups a.1 → Repeats r key c

-- ============================================================================
-- The map of the record
-- ============================================================================

theorem isLast_append {attrs : List Attr} {a b : Attr} :
    IsLast (attrs ++ [b]) a ↔ a = b ∨ b.1 ≠ a.1 ∧ IsLast attrs a := by
  constructor
  · rintro ⟨l, r, heq, hlast⟩
    rcases List.eq_nil_or_concat r with rfl | ⟨front, last, rfl⟩
    · obtain ⟨-, hab⟩ := List.append_inj' heq rfl
      exact .inl (List.cons.inj hab).1.symm
    · have hsplit : attrs ++ [b] = (l ++ a :: front) ++ [last] := by
        rw [heq]
        simp
      obtain ⟨rfl, hb⟩ := List.append_inj' hsplit rfl
      obtain rfl := (List.cons.inj hb).1
      refine .inr ⟨hlast b (by simp), l, front, rfl, fun c hc => hlast c ?_⟩
      simp [hc]
  · rintro (rfl | ⟨hne, l, r, rfl, hlast⟩)
    · exact ⟨attrs, [], rfl, by simp⟩
    · refine ⟨l, r ++ [b], by simp, fun c hc => ?_⟩
      rcases List.mem_append.mp hc with hc | hc
      · exact hlast c hc
      · rw [List.mem_singleton.mp hc]
        exact hne

/-- Under each key the map has the last attribute of that key. -/
theorem lookup_attrsMap {attrs : List Attr} {key : Bytes} {j : Except Bytes Json} :
    (attrsMap attrs).lookup key = some j ↔ ∃ a, IsLast attrs a ∧ a.1 = key ∧ a.2.json = j := by
  induction attrs using List.reverseRecOn with
  | nil =>
      rw [attrsMap, List.foldl_nil, AList.lookup_empty]
      refine iff_of_false (by simp) ?_
      rintro ⟨a, ⟨l, r, hno, -⟩, -⟩
      exact absurd hno (by simp)
  | append_singleton attrs b ih =>
      have hmap : attrsMap (attrs ++ [b]) = (attrsMap attrs).insert b.1 b.2.json := by
        rw [attrsMap, List.foldl_append]
        rfl
      rw [hmap]
      by_cases hkey : key = b.1
      · rw [hkey, AList.lookup_insert]
        constructor
        · intro hj
          exact ⟨b, isLast_append.mpr (.inl rfl), rfl, Option.some.inj hj⟩
        · rintro ⟨a, hlast, ha, hj⟩
          rcases isLast_append.mp hlast with rfl | ⟨hne, -⟩
          · rw [hj]
          · exact absurd ha.symm hne
      · rw [AList.lookup_insert_ne hkey, ih]
        constructor
        · rintro ⟨a, hlast, ha, hj⟩
          exact ⟨a, isLast_append.mpr (.inr ⟨fun hb => hkey (ha.symm.trans hb.symm), hlast⟩), ha,
            hj⟩
        · rintro ⟨a, hlast, ha, hj⟩
          rcases isLast_append.mp hlast with rfl | ⟨-, hlast⟩
          · exact absurd ha.symm hkey
          · exact ⟨a, hlast, ha, hj⟩

theorem encodeAttrs_isSome {es : List (Sigma fun _ : Bytes => Except Bytes Json)} :
    (encodeAttrs es).isSome ↔ ∀ e ∈ es, ∃ j, e.2 = .ok j := by
  induction es with
  | nil => exact iff_of_true rfl (by simp)
  | cons e es ih =>
      obtain ⟨key, value⟩ := e
      rw [List.forall_mem_cons]
      cases value with
      | error err =>
          refine iff_of_false (by simp [encodeAttrs]) ?_
          rintro ⟨⟨j, hno⟩, -⟩
          cases hno
      | ok j =>
          rw [encodeAttrs, Option.isSome_map, ih]
          exact ⟨fun h => ⟨⟨j, rfl⟩, h⟩, fun h => h.2⟩

theorem mem_encodeAttrs {es : List (Sigma fun _ : Bytes => Except Bytes Json)}
    {attrs : List (Bytes × Json)} (h : encodeAttrs es = some attrs) {key : Bytes} {j : Json} :
    (key, j) ∈ attrs ↔ ⟨key, .ok j⟩ ∈ es := by
  induction es generalizing attrs with
  | nil =>
      obtain rfl := Option.some.inj h
      simp
  | cons e es ih =>
      obtain ⟨k, value⟩ := e
      cases value with
      | error err => cases h
      | ok i =>
          obtain ⟨rest, hrest, rfl⟩ := Option.map_eq_some_iff.mp h
          rw [List.mem_cons, List.mem_cons, ih hrest]
          refine or_congr ?_ Iff.rfl
          simp

/-- What the line has for the record. -/
theorem mem_line_iff {r : Record} {attrs : List (Bytes × Json)}
    (h : encodeAttrs (attrsMap r.attrs).entries = some attrs) {key : Bytes} {c : Json} :
    (key, c) ∈ attrs ↔ Repeats r key c := by
  rw [mem_encodeAttrs h, ← AList.mem_lookup_iff, Option.mem_def, lookup_attrsMap]
  rfl

theorem encodable_iff {r : Record} :
    (encodeAttrs (attrsMap r.attrs).entries).isSome ↔
      ∀ a, IsLast r.attrs a → ∃ j, a.2.json = .ok j := by
  rw [encodeAttrs_isSome]
  constructor
  · intro h a hlast
    have hmem := AList.mem_lookup_iff.mp (lookup_attrsMap.mpr ⟨a, hlast, rfl, rfl⟩)
    exact h _ hmem
  · intro h e he
    obtain ⟨a, hlast, -, hj⟩ := lookup_attrsMap.mp (AList.mem_lookup_iff.mpr he)
    rw [← hj]
    exact h a hlast

-- ============================================================================
-- What the handler shows
-- ============================================================================

/-- A value with a content, under its key. -/
theorem shown_of_content (groups : List Bytes) (key : Bytes) :
    ∀ (v : Value) (c : Json), v.content = some c → ¬ (key = [] ∧ v.isNil = true) →
      v.shown groups key = [(groups ++ [key], c)]
  | .scalar s, c, h, _ => by
      rw [← Option.some.inj h, Value.shown]
  | .nil, c, h, hkey => by
      rw [← Option.some.inj h, Value.shown, if_neg fun hempty => hkey ⟨hempty, rfl⟩]
  | .any v, c, h, _ => by
      rw [← Option.some.inj h, Value.shown]
  | .nilGroup, c, h, _ => by cases h
  | .group attrs, c, h, _ => by cases h
  | .logValuer _ v, c, h, hkey => by
      rw [Value.shown]
      exact shown_of_content groups key v c h hkey

theorem ok_marshaled_iff {json : Except Bytes Json} :
    json = .ok (marshaled json) ↔ ∃ j, json = .ok j := by
  cases json with
  | ok j => exact iff_of_true rfl ⟨j, rfl⟩
  | error err => exact iff_of_false (fun hno => by cases hno) (fun ⟨j, hno⟩ => by cases hno)

theorem json_eq_content_iff {v : Value} {c : Json} (h : v.content = some c) :
    v.json = .ok c ↔ v.Faithful := by
  cases v with
  | scalar s =>
      obtain rfl := Option.some.inj h
      exact iff_of_true rfl trivial
  | nil =>
      obtain rfl := Option.some.inj h
      exact iff_of_true rfl trivial
  | any v =>
      obtain rfl := Option.some.inj h
      obtain ⟨json, error, marshaler⟩ := v
      cases error with
      | none => exact ok_marshaled_iff
      | some text =>
          cases marshaler with
          | true => exact ok_marshaled_iff
          | false => exact Iff.rfl
  | nilGroup => cases h
  | group attrs => cases h
  | logValuer json v =>
      have hcontent : v.content = some c := h
      show json = .ok c ↔ ∃ d, v.content = some d ∧ json = .ok d
      constructor
      · intro hjson
        exact ⟨c, hcontent, hjson⟩
      · rintro ⟨d, hd, hjson⟩
        obtain rfl := Option.some.inj (hcontent.symm.trans hd)
        exact hjson

theorem mem_shownAttrs {groups : List Bytes} {attrs : List Attr} {e : List Bytes × Json} :
    e ∈ shownAttrs groups attrs ↔ ∃ a ∈ attrs, e ∈ a.2.shown groups a.1 := by
  induction attrs with
  | nil => exact iff_of_false (by simp [shownAttrs]) (by simp)
  | cons a attrs ih =>
      obtain ⟨key, v⟩ := a
      rw [shownAttrs, List.mem_append, ih]
      simp

-- ============================================================================
-- The two lines
-- ============================================================================

/-- The local line has the attributes of the chain, and those of the record under the open
    groups. -/
theorem mem_local_iff {chain : List Derive} {r : Record} {e : List Bytes × Json} :
    e ∈ ((derived chain).handle r).1.attrs ↔ e ∈ (derived chain).inner.attrs ∨
      ∃ a ∈ r.attrs, e ∈ a.2.shown (derived chain).inner.groups a.1 := by
  show e ∈ (derived chain).inner.attrs ++ shownAttrs (derived chain).inner.groups r.attrs ↔ _
  rw [List.mem_append, mem_shownAttrs]

/-- The line for Loki, if there is one. -/
theorem line_eq_some {chain : List Derive} {r : Record} {line : LokiLine}
    (h : ((derived chain).handle r).2 = some line) :
    ∃ time attrs, r.time = some time ∧ encodeAttrs (attrsMap r.attrs).entries = some attrs ∧
      line = ⟨time, r.level, r.msg, attrs⟩ := by
  simp only [LokiHandler.handle] at h
  split at h
  · rename_i time attrs htime hattrs
    exact ⟨time, attrs, htime, hattrs, (Option.some.inj h).symm⟩
  · cases h

theorem name_of_singleton {groups : List Bytes} {key key' : Bytes} (h : groups ++ [key] = [key']) :
    groups = [] ∧ key = key' := by
  cases groups with
  | nil => exact ⟨rfl, (List.cons.inj h).1⟩
  | cons g groups => exact absurd (congrArg List.length h) (by simp)

theorem told_of_carries {chain : List Derive} {r : Record} (h : Carries chain r) :
    Told chain r := by
  obtain ⟨line, hline, -, -, hattrs⟩ := h
  obtain ⟨time, attrs, htime, hencode, rfl⟩ := line_eq_some hline
  have hrepeats : ∀ {key c}, ([key], c) ∈ ((derived chain).handle r).1.attrs →
      Repeats r key c := by
    intro key c hmem
    obtain ⟨key', heq, hin⟩ := hattrs _ _ hmem
    obtain rfl := (List.cons.inj heq).1
    exact (mem_line_iff hencode).mp hin
  refine ⟨by rw [htime]; rfl, encodable_iff.mp (by rw [hencode]; rfl), ?_, ?_, ?_, ?_⟩
  · intro name c hmem
    obtain ⟨key, hname, -⟩ := hattrs name c hmem
    exact ⟨key, hname⟩
  · rintro a hlast ⟨hcontent, hkey⟩
    obtain ⟨c, hc⟩ := Option.isSome_iff_exists.mp hcontent
    obtain ⟨l, rest, heq, -⟩ := id hlast
    have hshown := shown_of_content (derived chain).inner.groups a.1 a.2 c hc hkey
    obtain ⟨key, hname, hin⟩ := hattrs _ c (mem_local_iff.mpr
      (.inr ⟨a, by rw [heq]; simp, by rw [hshown]; exact List.mem_singleton_self _⟩))
    obtain rfl : a.1 = key := (name_of_singleton hname).2
    obtain ⟨b, hb, hbkey, hbjson⟩ := (mem_line_iff hencode).mp hin
    have hsame := (lookup_attrsMap.mpr ⟨a, hlast, rfl, rfl⟩).symm.trans
      (lookup_attrsMap.mpr ⟨b, hb, hbkey, hbjson⟩)
    exact (json_eq_content_iff hc).mp (Option.some.inj hsame)
  · intro key c hmem
    exact hrepeats (mem_local_iff.mpr (.inl hmem))
  · intro l a rest heq _ key c hmem
    exact hrepeats (mem_local_iff.mpr (.inr ⟨a, by rw [heq]; simp, hmem⟩))

theorem carries_of_told {chain : List Derive} {r : Record} (h : Told chain r) :
    Carries chain r := by
  obtain ⟨time, htime⟩ := Option.isSome_iff_exists.mp h.time
  obtain ⟨attrs, hencode⟩ := Option.isSome_iff_exists.mp (encodable_iff.mpr h.encodable)
  have hline : ((derived chain).handle r).2 = some ⟨time, r.level, r.msg, attrs⟩ := by
    simp only [LokiHandler.handle, htime, hencode]
  refine ⟨_, hline, rfl, rfl, fun name c hmem => ?_⟩
  obtain ⟨key, rfl⟩ := h.ungrouped name c hmem
  refine ⟨key, rfl, (mem_line_iff hencode).mpr ?_⟩
  rcases mem_local_iff.mp hmem with hchain | ⟨a, ha, hshown⟩
  · exact h.chained key c hchain
  · obtain ⟨l, rest, heq⟩ := List.append_of_mem ha
    by_cases hother : (∃ b ∈ rest, b.1 = a.1) ∨ ¬ IsShown a
    · exact h.others l a rest heq hother key c hshown
    · rw [not_or, not_not] at hother
      obtain ⟨hnone, hcontent, hkey⟩ := hother
      have hlast : IsLast r.attrs a := ⟨l, rest, heq, fun b hb hbkey => hnone ⟨b, hb, hbkey⟩⟩
      obtain ⟨d, hd⟩ := Option.isSome_iff_exists.mp hcontent
      rw [shown_of_content _ a.1 a.2 d hd hkey] at hshown
      obtain ⟨hname, rfl⟩ := Prod.mk.inj (List.mem_singleton.mp hshown)
      exact ⟨a, hlast, (name_of_singleton hname.symm).2,
        (json_eq_content_iff hd).mpr (h.own a hlast ⟨hcontent, hkey⟩)⟩

/-- **Loki lines.** -/
theorem carries_iff_told (chain : List Derive) (r : Record) : Carries chain r ↔ Told chain r :=
  ⟨told_of_carries, carries_of_told⟩

/-- The logger of a call: `logger.With("id", 7)`. -/
def perCall : List Derive := [.withAttrs [(ascii "id", .scalar (.int64 7))]]

def started : Record := ⟨some (ascii "2025-01-01T00:00:00Z"), ascii "INFO", ascii "started", []⟩

/-- The line for Loki does not say which call it is about. -/
theorem chain_attribute_lost : ¬ Carries perCall started := by
  intro h
  obtain ⟨a, ⟨l, r, hno, -⟩, -⟩ :=
    (told_of_carries h).chained (ascii "id") (.num (Decimal.print 7)) List.mem_cons_self
  exact absurd hno (by simp [started])

end FsBridge.Bridge.Loki
