/-
  FsBridge.Lib.ServeMux

  Dispatch of requests by pattern, as net/http's ServeMux documents it: of the
  patterns that match a request the most specific one handles it, a pattern with
  a host wins over one without, and two patterns that match a request in common
  without one winning may not both be registered.

  A pattern is more specific than another when it matches a strict subset of its
  requests.  `Pattern.le` computes the subset relation (`le_iff`) and
  `Pattern.overlaps` whether there is a request in common (`overlaps_iff`), so
  that registration and dispatch can be run.
-/

import FsBridge.Lib.Ascii
import Mathlib.Data.List.Pairwise

namespace FsBridge.Lib

/-- What a request is dispatched by.  The path is the list of its decoded
    elements; a trailing slash is an empty last element. -/
structure Target where
  method : Bytes
  host : Bytes
  path : List Bytes

/-- An element of a pattern: `{$}` is the literal empty element. -/
inductive Seg where
  | lit (s : Bytes)
  | wild
deriving DecidableEq, Repr

/-- A pattern.  `method = none`: every method; `host = []`: every host;
    `multi`: any elements may follow, at least one of them. -/
structure Pattern where
  method : Option Bytes
  host : Bytes
  segs : List Seg
  multi : Bool
deriving DecidableEq, Repr

-- ============================================================================
-- Matching
-- ============================================================================

def Seg.matches : Seg → Bytes → Bool
  | .lit l, s => s = l
  | .wild, s => s ≠ []

def matchPath : List Seg → Bool → List Bytes → Bool
  | [], multi, path => multi == !path.isEmpty
  | _ :: _, _, [] => false
  | seg :: segs, multi, s :: path => seg.matches s && matchPath segs multi path

/-- GET stands for HEAD too. -/
def matchMethod : Option Bytes → Bytes → Bool
  | none, _ => true
  | some m, method => method = m ∨ m = ascii "GET" ∧ method = ascii "HEAD"

def matchHost (h host : Bytes) : Bool := h = [] ∨ host = h

def Pattern.matches (p : Pattern) (t : Target) : Bool :=
  matchMethod p.method t.method && matchHost p.host t.host && matchPath p.segs p.multi t.path

-- ============================================================================
-- The subset relation
-- ============================================================================

def Seg.le : Seg → Seg → Bool
  | .lit l, .lit l' => l = l'
  | .lit l, .wild => l ≠ []
  | .wild, .lit _ => false
  | .wild, .wild => true

def lePath : List Seg → Bool → List Seg → Bool → Bool
  | [], m, [], m' => m == m'
  | _ :: _, _, [], m' => m'
  | [], _, _ :: _, _ => false
  | seg :: segs, m, seg' :: segs', m' => seg.le seg' && lePath segs m segs' m'

def leMethod : Option Bytes → Option Bytes → Bool
  | _, none => true
  | none, some _ => false
  | some m, some m' => m = m' ∨ m' = ascii "GET" ∧ m = ascii "HEAD"

def leHost (h h' : Bytes) : Bool := h' = [] ∨ h = h'

/-- Every request of `p` is one of `q`. -/
def Pattern.le (p q : Pattern) : Bool :=
  leMethod p.method q.method && leHost p.host q.host && lePath p.segs p.multi q.segs q.multi

/-- `p` is more specific than `q`. -/
def Pattern.moreSpecific (p q : Pattern) : Bool := p.le q && !q.le p

/-- `p` handles the requests that `q` matches too. -/
def Pattern.precedes (p q : Pattern) : Bool :=
  p.moreSpecific q || (p.host ≠ [] && q.host = [])

-- ============================================================================
-- Overlap
-- ============================================================================

def Seg.overlaps : Seg → Seg → Bool
  | .lit l, .lit l' => l = l'
  | .lit l, .wild => l ≠ []
  | .wild, .lit l => l ≠ []
  | .wild, .wild => true

def overlapPath : List Seg → Bool → List Seg → Bool → Bool
  | [], m, [], m' => m == m'
  | _ :: _, _, [], m' => m'
  | [], m, _ :: _, _ => m
  | seg :: segs, m, seg' :: segs', m' => seg.overlaps seg' && overlapPath segs m segs' m'

def overlapMethod : Option Bytes → Option Bytes → Bool
  | some m, some m' =>
      m = m' ∨ m = ascii "GET" ∧ m' = ascii "HEAD" ∨ m = ascii "HEAD" ∧ m' = ascii "GET"
  | _, _ => true

def overlapHost (h h' : Bytes) : Bool := h = [] ∨ h' = [] ∨ h = h'

/-- Some request is one of both. -/
def Pattern.overlaps (p q : Pattern) : Bool :=
  overlapMethod p.method q.method && overlapHost p.host q.host &&
    overlapPath p.segs p.multi q.segs q.multi

/-- The two may not both be registered. -/
def Pattern.conflicts (p q : Pattern) : Bool :=
  p.overlaps q && !p.precedes q && !q.precedes p

-- ============================================================================
-- Registration and dispatch
-- ============================================================================

/-- The registered patterns with their handlers, in the order of registration. -/
abbrev Routes (H : Type) := List (Pattern × H)

namespace Routes

variable {H : Type}

/-- `mux.Handle`: `none` where it panics. -/
def handle (mux : Routes H) (e : Pattern × H) : Option (Routes H) :=
  if mux.any fun f => f.1.conflicts e.1 then none else some (mux ++ [e])

/-- Registrations, one after the other. -/
def handleAll (mux : Routes H) : Routes H → Option (Routes H)
  | [] => some mux
  | e :: es =>
      match mux.handle e with
      | none => none
      | some mux => handleAll mux es

/-- The entry matches, and so does no other but those it precedes. -/
def isBest (mux : Routes H) (t : Target) (e : Pattern × H) : Bool :=
  e.1.matches t && mux.all fun f => !f.1.matches t || f.1 = e.1 || e.1.precedes f.1

/-- The entry that handles a request. -/
def lookup (mux : Routes H) (t : Target) : Option (Pattern × H) := mux.find? (mux.isBest t)

/-- What registration keeps. -/
def NoConflict (mux : Routes H) : Prop := mux.Pairwise fun e f => e.1.conflicts f.1 = false

end Routes

-- ============================================================================
-- What the computed relations mean
-- ============================================================================

theorem Seg.exists_match (seg : Seg) : ∃ s, seg.matches s := by
  cases seg with
  | lit l => exact ⟨l, by simp [Seg.matches]⟩
  | wild => exact ⟨[0], by simp [Seg.matches]⟩

theorem exists_matchPath (segs : List Seg) (m : Bool) : ∃ path, matchPath segs m path := by
  induction segs with
  | nil =>
      cases m with
      | false => exact ⟨[], rfl⟩
      | true => exact ⟨[[]], rfl⟩
  | cons seg segs ih =>
      obtain ⟨s, hs⟩ := seg.exists_match
      obtain ⟨path, hpath⟩ := ih
      exact ⟨s :: path, by rw [matchPath, hs, hpath]; rfl⟩

/-- A segment is more specific than another when it matches nothing else. -/
theorem Seg.le_iff (a b : Seg) : a.le b ↔ ∀ s, a.matches s → b.matches s := by
  cases a with
  | lit l =>
      cases b with
      | lit l' => simp [Seg.le, Seg.matches]
      | wild => simp [Seg.le, Seg.matches]
  | wild =>
      cases b with
      | wild => simp [Seg.le]
      | lit l =>
          refine iff_of_false (by simp [Seg.le]) fun h => ?_
          have hone : [1] = l := by simpa [Seg.matches] using h [1] (by simp [Seg.matches])
          have htwo : [2] = l := by simpa [Seg.matches] using h [2] (by simp [Seg.matches])
          rw [← hone] at htwo
          exact absurd htwo (by decide)

/-- Two segments overlap when something matches both. -/
theorem Seg.overlaps_iff (a b : Seg) : a.overlaps b ↔ ∃ s, a.matches s ∧ b.matches s := by
  cases a with
  | lit l =>
      cases b with
      | lit l' => simp [Seg.overlaps, Seg.matches]
      | wild => simp [Seg.overlaps, Seg.matches]
  | wild =>
      cases b with
      | lit l => simp [Seg.overlaps, Seg.matches]
      | wild => exact iff_of_true rfl ⟨[0], by simp [Seg.matches], by simp [Seg.matches]⟩

theorem Seg.exists_not_match (seg : Seg) : ∃ s, seg.matches s = false := by
  cases seg with
  | lit l =>
      by_cases hl : l = []
      · exact ⟨[0], by simp [Seg.matches, hl]⟩
      · exact ⟨[], by simpa [Seg.matches] using Ne.symm hl⟩
  | wild => exact ⟨[], by simp [Seg.matches]⟩

theorem matchPath_nil_true {path : List Bytes} : matchPath [] true path ↔ path ≠ [] := by
  cases path <;> simp [matchPath]

theorem matchPath_nil_false {path : List Bytes} : matchPath [] false path ↔ path = [] := by
  cases path <;> simp [matchPath]

theorem matchPath_cons {seg : Seg} {segs : List Seg} {m : Bool} {path : List Bytes} :
    matchPath (seg :: segs) m path ↔
      ∃ s rest, path = s :: rest ∧ seg.matches s ∧ matchPath segs m rest := by
  cases path with
  | nil => simp [matchPath]
  | cons s rest => simp [matchPath]

/-- A path is more specific than another when it matches no other path. -/
theorem lePath_iff (segs : List Seg) (m : Bool) (segs' : List Seg) (m' : Bool) :
    lePath segs m segs' m' ↔ ∀ path, matchPath segs m path → matchPath segs' m' path := by
  induction segs generalizing segs' with
  | nil =>
      cases segs' with
      | nil =>
          cases m <;> cases m' <;> simp only [lePath, matchPath_nil_true, matchPath_nil_false]
          · simp
          · exact iff_of_false (by decide) fun h => h [] rfl rfl
          · exact iff_of_false (by decide) fun h => absurd (h [[]] (by simp)) (by simp)
          · simp
      | cons seg' segs' =>
          obtain ⟨s, hs⟩ := seg'.exists_not_match
          refine iff_of_false (by simp [lePath]) fun h => ?_
          cases m with
          | false =>
              have hnil := h [] rfl
              exact absurd hnil (by simp [matchPath])
          | true =>
              have hone := h [s] rfl
              rw [matchPath, hs] at hone
              exact absurd hone (by simp)
  | cons seg segs ih =>
      cases segs' with
      | nil =>
          cases m' with
          | true =>
              refine iff_of_true rfl fun path hpath => ?_
              obtain ⟨s, rest, rfl, -, -⟩ := matchPath_cons.mp hpath
              rfl
          | false =>
              obtain ⟨path, hpath⟩ := exists_matchPath (seg :: segs) m
              refine iff_of_false (by simp [lePath]) fun h => ?_
              obtain ⟨s, rest, rfl, -, -⟩ := matchPath_cons.mp hpath
              exact absurd (h _ hpath) (by simp [matchPath])
      | cons seg' segs' =>
          rw [lePath, Bool.and_eq_true, Seg.le_iff, ih]
          constructor
          · rintro ⟨hseg, hsegs⟩ path hpath
            obtain ⟨s, rest, rfl, hs, hrest⟩ := matchPath_cons.mp hpath
            exact matchPath_cons.mpr ⟨s, rest, rfl, hseg s hs, hsegs rest hrest⟩
          · -- any element with any rest is a path of the pattern
            intro h
            have hboth : ∀ s rest, seg.matches s → matchPath segs m rest →
                seg'.matches s ∧ matchPath segs' m' rest := by
              intro s rest hs hrest
              have hpath := h (s :: rest) (matchPath_cons.mpr ⟨s, rest, rfl, hs, hrest⟩)
              rwa [matchPath, Bool.and_eq_true] at hpath
            obtain ⟨s, hs⟩ := seg.exists_match
            obtain ⟨rest, hrest⟩ := exists_matchPath segs m
            exact ⟨fun s hs => (hboth s rest hs hrest).1,
              fun rest hrest => (hboth s rest hs hrest).2⟩

/-- Two paths overlap when some path matches both. -/
theorem overlapPath_iff (segs : List Seg) (m : Bool) (segs' : List Seg) (m' : Bool) :
    overlapPath segs m segs' m' ↔ ∃ path, matchPath segs m path ∧ matchPath segs' m' path := by
  induction segs generalizing segs' with
  | nil =>
      cases segs' with
      | nil =>
          cases m <;> cases m' <;> simp only [overlapPath, matchPath_nil_true, matchPath_nil_false]
          · simp
          · exact iff_of_false (by decide) fun ⟨path, hnil, hcons⟩ => hcons hnil
          · exact iff_of_false (by decide) fun ⟨path, hcons, hnil⟩ => hcons hnil
          · exact iff_of_true rfl ⟨[[]], by simp, by simp⟩
      | cons seg' segs' =>
          obtain ⟨path, hpath⟩ := exists_matchPath (seg' :: segs') m'
          obtain ⟨s, rest, rfl, -, -⟩ := matchPath_cons.mp hpath
          cases m with
          | true => exact iff_of_true rfl ⟨_, rfl, hpath⟩
          | false =>
              refine iff_of_false (by simp [overlapPath]) ?_
              rintro ⟨path, hnil, hcons⟩
              rw [matchPath_nil_false.mp hnil] at hcons
              exact absurd hcons (by simp [matchPath])
  | cons seg segs ih =>
      cases segs' with
      | nil =>
          obtain ⟨path, hpath⟩ := exists_matchPath (seg :: segs) m
          obtain ⟨s, rest, rfl, -, -⟩ := matchPath_cons.mp hpath
          cases m' with
          | true => exact iff_of_true rfl ⟨_, hpath, rfl⟩
          | false =>
              refine iff_of_false (by simp [overlapPath]) ?_
              rintro ⟨path, hcons, hnil⟩
              rw [matchPath_nil_false.mp hnil] at hcons
              exact absurd hcons (by simp [matchPath])
      | cons seg' segs' =>
          rw [overlapPath, Bool.and_eq_true, Seg.overlaps_iff, ih]
          constructor
          · rintro ⟨⟨s, hs, hs'⟩, rest, hrest, hrest'⟩
            exact ⟨s :: rest, matchPath_cons.mpr ⟨s, rest, rfl, hs, hrest⟩,
              matchPath_cons.mpr ⟨s, rest, rfl, hs', hrest'⟩⟩
          · rintro ⟨path, hpath, hpath'⟩
            obtain ⟨s, rest, rfl, hs, hrest⟩ := matchPath_cons.mp hpath
            obtain ⟨s', rest', heq, hs', hrest'⟩ := matchPath_cons.mp hpath'
            obtain ⟨rfl, rfl⟩ := List.cons.inj heq
            exact ⟨⟨s, hs, hs'⟩, rest, hrest, hrest'⟩

theorem exists_matchMethod (m : Option Bytes) : ∃ method, matchMethod m method := by
  cases m with
  | none => exact ⟨[], rfl⟩
  | some m => exact ⟨m, by simp [matchMethod]⟩

/-- The same for the methods. -/
theorem leMethod_iff (m m' : Option Bytes) :
    leMethod m m' ↔ ∀ method, matchMethod m method → matchMethod m' method := by
  cases m' with
  | none => simp [leMethod, matchMethod]
  | some m' =>
      cases m with
      | none =>
          refine iff_of_false (by simp [leMethod]) fun h => ?_
          -- no pattern with a method has more than two methods
          have hzero := h [0] rfl
          have hone := h [1] rfl
          have hhead : ascii "HEAD" = [72, 69, 65, 68] := by decide
          simp [matchMethod, hhead] at hzero hone
          rw [← hzero] at hone
          exact absurd hone (by decide)
      | some m =>
          have hne : ascii "GET" ≠ ascii "HEAD" := by decide
          simp only [leMethod, matchMethod, decide_eq_true_eq]
          constructor
          · rintro (rfl | ⟨rfl, rfl⟩) method hmethod
            · exact hmethod
            · rcases hmethod with rfl | ⟨hget, -⟩
              · exact .inr ⟨rfl, rfl⟩
              · exact absurd hget.symm hne
          · intro h
            exact h m (.inl rfl)

theorem overlapMethod_iff (m m' : Option Bytes) :
    overlapMethod m m' ↔ ∃ method, matchMethod m method ∧ matchMethod m' method := by
  cases m with
  | none =>
      obtain ⟨method, h⟩ := exists_matchMethod m'
      exact iff_of_true (by cases m' <;> rfl) ⟨method, rfl, h⟩
  | some m =>
      cases m' with
      | none => exact iff_of_true rfl ⟨m, by simp [matchMethod], rfl⟩
      | some m' =>
          simp only [overlapMethod, matchMethod, decide_eq_true_eq]
          constructor
          · rintro (rfl | ⟨rfl, rfl⟩ | ⟨rfl, rfl⟩)
            · exact ⟨m, .inl rfl, .inl rfl⟩
            · exact ⟨_, .inr ⟨rfl, rfl⟩, .inl rfl⟩
            · exact ⟨_, .inl rfl, .inr ⟨rfl, rfl⟩⟩
          · rintro ⟨method, rfl | ⟨rfl, rfl⟩, h⟩
            · rcases h with h | ⟨rfl, h⟩
              · exact .inl h
              · exact .inr (.inr ⟨h, rfl⟩)
            · rcases h with rfl | ⟨rfl, -⟩
              · exact .inr (.inl ⟨rfl, rfl⟩)
              · exact .inl rfl

/-- The same for the hosts. -/
theorem leHost_iff (h h' : Bytes) : leHost h h' ↔ ∀ host, matchHost h host → matchHost h' host := by
  simp only [leHost, matchHost, decide_eq_true_eq]
  constructor
  · rintro (rfl | rfl) host hhost
    · exact .inl rfl
    · exact hhost
  · intro hall
    by_cases hnil : h = []
    · -- a pattern without a host has more than one host
      rcases hall [0] (.inl hnil) with h' | h0
      · exact .inl h'
      · rcases hall [1] (.inl hnil) with h' | h1
        · exact .inl h'
        · rw [← h0] at h1
          exact absurd h1 (by decide)
    · rcases hall h (.inr rfl) with h' | h'
      · exact .inl h'
      · exact .inr h'

theorem overlapHost_iff (h h' : Bytes) :
    overlapHost h h' ↔ ∃ host, matchHost h host ∧ matchHost h' host := by
  simp only [overlapHost, matchHost, decide_eq_true_eq]
  constructor
  · rintro (rfl | rfl | rfl)
    · exact ⟨h', .inl rfl, .inr rfl⟩
    · exact ⟨h, .inr rfl, .inl rfl⟩
    · exact ⟨h, .inr rfl, .inr rfl⟩
  · rintro ⟨host, rfl | rfl, hhost⟩
    · exact .inl rfl
    · rcases hhost with rfl | rfl
      · exact .inr (.inl rfl)
      · exact .inr (.inr rfl)

theorem Pattern.matches_iff {p : Pattern} {t : Target} :
    p.matches t ↔
      matchMethod p.method t.method ∧ matchHost p.host t.host ∧ matchPath p.segs p.multi t.path := by
  rw [Pattern.matches, Bool.and_eq_true, Bool.and_eq_true, and_assoc]

theorem exists_matchHost (h : Bytes) : ∃ host, matchHost h host := ⟨h, by simp [matchHost]⟩

/-- The computed relation is the subset relation on requests. -/
theorem Pattern.le_iff (p q : Pattern) : p.le q ↔ ∀ t, p.matches t → q.matches t := by
  rw [Pattern.le, Bool.and_eq_true, Bool.and_eq_true, and_assoc, leMethod_iff, leHost_iff,
    lePath_iff]
  constructor
  · rintro ⟨hmethod, hhost, hpath⟩ t ht
    obtain ⟨ht1, ht2, ht3⟩ := Pattern.matches_iff.mp ht
    exact Pattern.matches_iff.mpr ⟨hmethod _ ht1, hhost _ ht2, hpath _ ht3⟩
  · intro h
    have hall : ∀ method host path, matchMethod p.method method → matchHost p.host host →
        matchPath p.segs p.multi path → matchMethod q.method method ∧ matchHost q.host host ∧
          matchPath q.segs q.multi path := by
      intro method host path hmethod hhost hpath
      exact Pattern.matches_iff.mp
        (h ⟨method, host, path⟩ (Pattern.matches_iff.mpr ⟨hmethod, hhost, hpath⟩))
    obtain ⟨method, hmethod⟩ := exists_matchMethod p.method
    obtain ⟨host, hhost⟩ := exists_matchHost p.host
    obtain ⟨path, hpath⟩ := exists_matchPath p.segs p.multi
    exact ⟨fun m hm => (hall m host path hm hhost hpath).1,
      fun h hh => (hall method h path hmethod hh hpath).2.1,
      fun s hs => (hall method host s hmethod hhost hs).2.2⟩

/-- The computed overlap is the existence of a request in common. -/
theorem Pattern.overlaps_iff (p q : Pattern) :
    p.overlaps q ↔ ∃ t, p.matches t ∧ q.matches t := by
  rw [Pattern.overlaps, Bool.and_eq_true, Bool.and_eq_true, overlapMethod_iff, overlapHost_iff,
    overlapPath_iff]
  constructor
  · rintro ⟨⟨⟨method, hp1, hq1⟩, host, hp2, hq2⟩, path, hp3, hq3⟩
    exact ⟨⟨method, host, path⟩, Pattern.matches_iff.mpr ⟨hp1, hp2, hp3⟩,
      Pattern.matches_iff.mpr ⟨hq1, hq2, hq3⟩⟩
  · rintro ⟨t, hp, hq⟩
    obtain ⟨hp1, hp2, hp3⟩ := Pattern.matches_iff.mp hp
    obtain ⟨hq1, hq2, hq3⟩ := Pattern.matches_iff.mp hq
    exact ⟨⟨⟨_, hp1, hq1⟩, _, hp2, hq2⟩, _, hp3, hq3⟩

-- ============================================================================
-- What dispatch does
-- ============================================================================

/-- Of two patterns at most one has precedence. -/
theorem Pattern.precedes_asymm {p q : Pattern} (h : p.precedes q) : q.precedes p = false := by
  rw [Pattern.precedes, Pattern.moreSpecific, Bool.or_eq_true, Bool.and_eq_true,
    Bool.not_eq_true'] at h
  rw [Pattern.precedes, Pattern.moreSpecific]
  rcases h with ⟨hle, hnot⟩ | hhost
  · have hq : (q.host ≠ [] && p.host = [] : Bool) = false := by
      -- a pattern without a host is no subset of one with a host
      rw [Pattern.le, Bool.and_eq_true, Bool.and_eq_true] at hle
      have hhost : q.host = [] ∨ p.host = q.host := by simpa [leHost] using hle.1.2
      rcases hhost with h | h <;> simp [h]
    rw [hle, hnot, hq]
    rfl
  · have hhost : p.host ≠ [] ∧ q.host = [] := by simpa using hhost
    have hle : q.le p = false := by
      have hleHost : leHost q.host p.host = false := by
        simp [leHost, hhost.1, hhost.2, Ne.symm hhost.1]
      rw [Pattern.le, hleHost]
      simp
    rw [hle, hhost.2]
    simp

/-- A pattern cannot be registered twice. -/
theorem Pattern.conflicts_self (p : Pattern) : p.conflicts p = true := by
  have hself : p.precedes p = false := by
    cases h : p.precedes p with
    | false => rfl
    | true => rw [← h]; exact Pattern.precedes_asymm h
  have hoverlaps : p.overlaps p = true := by
    obtain ⟨method, hmethod⟩ := exists_matchMethod p.method
    obtain ⟨host, hhost⟩ := exists_matchHost p.host
    obtain ⟨path, hpath⟩ := exists_matchPath p.segs p.multi
    have hmatch := Pattern.matches_iff (p := p) (t := ⟨method, host, path⟩)
    exact (Pattern.overlaps_iff p p).mpr
      ⟨_, hmatch.mpr ⟨hmethod, hhost, hpath⟩, hmatch.mpr ⟨hmethod, hhost, hpath⟩⟩
  rw [Pattern.conflicts, hoverlaps, hself]
  rfl

theorem Pattern.conflicts_comm (p q : Pattern) : p.conflicts q = q.conflicts p := by
  have hoverlaps : p.overlaps q = q.overlaps p := by
    rw [Bool.eq_iff_iff, Pattern.overlaps_iff, Pattern.overlaps_iff]
    exact exists_congr fun t => and_comm
  rw [Pattern.conflicts, Pattern.conflicts, hoverlaps, Bool.and_right_comm]

/-- Two patterns that match a request and do not conflict: one precedes. -/
theorem Pattern.precedes_or {p q : Pattern} {t : Target} (h : p.conflicts q = false)
    (hp : p.matches t) (hq : q.matches t) : p.precedes q ∨ q.precedes p := by
  have hoverlaps : p.overlaps q = true := (Pattern.overlaps_iff p q).mpr ⟨t, hp, hq⟩
  rw [Pattern.conflicts, hoverlaps] at h
  cases hpq : p.precedes q with
  | true => exact .inl rfl
  | false =>
      cases hqp : q.precedes p with
      | true => exact .inr rfl
      | false =>
          rw [hpq, hqp] at h
          exact absurd h (by decide)

namespace Routes

variable {H : Type} {mux : Routes H}

theorem NoConflict.of_ne (h : mux.NoConflict) {e f : Pattern × H} (he : e ∈ mux) (hf : f ∈ mux)
    (hne : e ≠ f) : e.1.conflicts f.1 = false := by
  have hsymm : Std.Symm fun e f : Pattern × H => e.1.conflicts f.1 = false := by
    refine ⟨fun a b hab => ?_⟩
    rw [Pattern.conflicts_comm]
    exact hab
  exact List.Pairwise.forall h he hf hne

/-- A pattern is added when it is in conflict with none before it. -/
theorem handle_eq_some {mux' : Routes H} {e : Pattern × H} (h : mux.handle e = some mux') :
    mux' = mux ++ [e] ∧ (mux.NoConflict → mux'.NoConflict) := by
  rw [handle] at h
  split at h
  · exact absurd h (by simp)
  · rename_i hany
    obtain rfl := Option.some.inj h
    refine ⟨rfl, fun hmux => ?_⟩
    rw [NoConflict, List.pairwise_append]
    refine ⟨hmux, List.pairwise_singleton _ _, ?_⟩
    intro f hf g hg
    rw [List.mem_singleton.mp hg]
    have hall : ∀ f ∈ mux, f.1.conflicts e.1 = false := by simpa using hany
    exact hall f hf

/-- The same for the patterns of a list. -/
theorem handleAll_eq_some {mux' es : Routes H} (h : mux.handleAll es = some mux') :
    mux' = mux ++ es ∧ (mux.NoConflict → mux'.NoConflict) := by
  induction es generalizing mux with
  | nil =>
      obtain rfl := Option.some.inj h
      exact ⟨(List.append_nil _).symm, id⟩
  | cons e es ih =>
      rw [handleAll] at h
      split at h
      · exact absurd h (by simp)
      · rename_i next hnext
        obtain ⟨rfl, hstep⟩ := handle_eq_some hnext
        obtain ⟨heq, hrest⟩ := ih h
        refine ⟨?_, fun hmux => hrest (hstep hmux)⟩
        rw [heq, List.append_assoc]
        rfl

/-- The rule of dispatch: the entry whose pattern matches and precedes every
    other that does. -/
theorem lookup_eq_some_iff (h : mux.NoConflict) (t : Target) (e : Pattern × H) :
    mux.lookup t = some e ↔
      e ∈ mux ∧ e.1.matches t ∧ ∀ f ∈ mux, f.1.matches t → f = e ∨ e.1.precedes f.1 := by
  have hbest : ∀ e, mux.isBest t e ↔
      e.1.matches t ∧ ∀ f ∈ mux, f.1.matches t → f.1 = e.1 ∨ e.1.precedes f.1 := by
    intro e
    rw [isBest, Bool.and_eq_true, List.all_eq_true]
    refine and_congr_right fun _ => forall₂_congr fun f _ => ?_
    cases f.1.matches t <;> simp
  -- entries with one pattern are one entry
  have hsame : ∀ e ∈ mux, ∀ f ∈ mux, f.1 = e.1 → f = e := by
    intro e he f hf heq
    by_contra hne
    have hno := h.of_ne hf he hne
    rw [heq, Pattern.conflicts_self] at hno
    exact absurd hno (by decide)
  constructor
  · intro hlookup
    have he := List.mem_of_find?_eq_some hlookup
    obtain ⟨hmatch, hall⟩ := (hbest e).mp (List.find?_some hlookup)
    refine ⟨he, hmatch, fun f hf hft => ?_⟩
    rcases hall f hf hft with heq | hprec
    · exact .inl (hsame e he f hf heq)
    · exact .inr hprec
  · rintro ⟨he, hmatch, hall⟩
    have hisBest : mux.isBest t e := by
      rw [hbest]
      refine ⟨hmatch, fun f hf hft => ?_⟩
      rcases hall f hf hft with rfl | hprec
      · exact .inl rfl
      · exact .inr hprec
    cases hlookup : mux.lookup t with
    | none => exact absurd hisBest (List.find?_eq_none.mp hlookup e he)
    | some e' =>
        have he' := List.mem_of_find?_eq_some hlookup
        obtain ⟨hmatch', hall'⟩ := (hbest e').mp (List.find?_some hlookup)
        rcases hall e' he' hmatch' with heq | hprec
        · rw [heq]
        · rcases hall' e he hmatch with heq | hprec'
          · rw [hsame e' he' e he heq]
          · rw [Pattern.precedes_asymm hprec] at hprec'
            exact absurd hprec' (by decide)

end Routes

end FsBridge.Lib
