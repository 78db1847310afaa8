/-
  FsBridge.Lib.Path

  Slash-separated paths: `clean` and `join` of Go's path/filepath, and where a
  path leads.

  A directory is the list of the names that lead to it from the root, the last
  one its own.  `resolve cwd p` is the directory the path `p` leads to from the
  working directory `cwd`; symbolic links are not followed.  `clean` does not
  change where a path leads (`resolve_clean`).
-/

import FsBridge.Lib.Ascii

namespace FsBridge.Lib.Path

def slash : UInt8 := 47
def dot : Bytes := ascii "."
def dotdot : Bytes := ascii ".."

/-- A name a directory can have. -/
structure Name (n : Bytes) : Prop where
  ne_nil : n ≠ []
  ne_dot : n ≠ dot
  ne_dotdot : n ≠ dotdot
  no_slash : slash ∉ n

/-- The path starts at the root. -/
def rooted (p : Bytes) : Bool := p.head? = some slash

-- ============================================================================
-- Where a path leads
-- ============================================================================

/-- Follow one element of a path. -/
def follow (dir : List Bytes) (e : Bytes) : List Bytes :=
  if e = [] ∨ e = dot then dir
  else if e = dotdot then dir.dropLast
  else dir ++ [e]

/-- Follow elements. -/
def walk (dir : List Bytes) (es : List Bytes) : List Bytes := es.foldl follow dir

/-- Where the path leads from `cwd`. -/
def resolve (cwd : List Bytes) (p : Bytes) : List Bytes :=
  walk (if rooted p then [] else cwd) (p.splitOn slash)

-- ============================================================================
-- Cleaning and joining
-- ============================================================================

/-- One element of `filepath.Clean`: `out` are the elements written so far. -/
def cleanStep (rooted : Bool) (out : List Bytes) (e : Bytes) : List Bytes :=
  if e = [] ∨ e = dot then out
  else if e = dotdot then
    match out.getLast? with
    | some d => if d = dotdot then out ++ [dotdot] else out.dropLast
    | none => if rooted then [] else [dotdot]
  else out ++ [e]

/-- The elements of the cleaned path. -/
def cleanElements (p : Bytes) : List Bytes := (p.splitOn slash).foldl (cleanStep (rooted p)) []

/-- `filepath.Clean`. -/
def clean (p : Bytes) : Bytes :=
  let s := (if rooted p then [slash] else []) ++ joinWith [slash] (cleanElements p)
  if s = [] then dot else s

/-- `filepath.Join`. -/
def join : List Bytes → Bytes
  | [] => []
  | e :: es => if e = [] then join es else clean (joinWith [slash] (e :: es))

example : join [ascii "/srv/rec/", ascii ".."] = ascii "/srv" := by decide

-- ============================================================================
-- Cleaning does not change where a path leads
-- ============================================================================

theorem walk_append (dir : List Bytes) (es fs : List Bytes) :
    walk dir (es ++ fs) = walk (walk dir es) fs := by
  rw [walk, List.foldl_append]
  rfl

theorem follow_name {dir : List Bytes} {n : Bytes} (h : Name n) : follow dir n = dir ++ [n] := by
  rw [follow, if_neg (not_or.mpr ⟨h.ne_nil, h.ne_dot⟩), if_neg h.ne_dotdot]

/-- What the elements written so far look like. -/
structure CleanInv (rooted : Bool) (out : List Bytes) : Prop where
  no_slash : ∀ e ∈ out, slash ∉ e
  real : ∀ e ∈ out, e ≠ [] ∧ e ≠ dot
  no_dotdot : rooted = true → dotdot ∉ out

theorem dotdot_no_slash : slash ∉ dotdot := by decide

theorem CleanInv.nil (rooted : Bool) : CleanInv rooted [] := ⟨by simp, by simp, by simp⟩

theorem CleanInv.dropLast {rooted : Bool} {out : List Bytes} (h : CleanInv rooted out) :
    CleanInv rooted out.dropLast :=
  ⟨fun e he => h.no_slash e (out.dropLast_subset he),
    fun e he => h.real e (out.dropLast_subset he),
    fun hr he => h.no_dotdot hr (out.dropLast_subset he)⟩

theorem CleanInv.snoc {rooted : Bool} {out : List Bytes} {e : Bytes} (h : CleanInv rooted out)
    (hslash : slash ∉ e) (hreal : e ≠ [] ∧ e ≠ dot) (hdotdot : rooted = true → e ≠ dotdot) :
    CleanInv rooted (out ++ [e]) := by
  refine ⟨?_, ?_, ?_⟩
  · intro d hd
    rcases List.mem_append.mp hd with hd | hd
    · exact h.no_slash d hd
    · rw [List.mem_singleton.mp hd]
      exact hslash
  · intro d hd
    rcases List.mem_append.mp hd with hd | hd
    · exact h.real d hd
    · rw [List.mem_singleton.mp hd]
      exact hreal
  · intro hr hd
    rcases List.mem_append.mp hd with hd | hd
    · exact h.no_dotdot hr hd
    · exact hdotdot hr (List.mem_singleton.mp hd).symm

/-- One element: the invariant stays and the elements lead on as the element does. -/
theorem cleanStep_spec {rooted : Bool} (base : List Bytes) {out : List Bytes} {e : Bytes}
    (h : CleanInv rooted out) (hbase : rooted = true → base = []) (he : slash ∉ e) :
    CleanInv rooted (cleanStep rooted out e) ∧
      walk base (cleanStep rooted out e) = follow (walk base out) e := by
  rw [cleanStep, follow]
  by_cases hskip : e = [] ∨ e = dot
  · rw [if_pos hskip, if_pos hskip]
    exact ⟨h, rfl⟩
  · rw [if_neg hskip, if_neg hskip]
    by_cases hup : e = dotdot
    · rw [if_pos hup, if_pos hup]
      rcases List.eq_nil_or_concat' out with rfl | ⟨out, d, rfl⟩
      · cases rooted with
        | true =>
            rw [hbase rfl]
            exact ⟨CleanInv.nil _, rfl⟩
        | false => exact ⟨(CleanInv.nil false).snoc dotdot_no_slash (by decide) (by simp), rfl⟩
      · rw [List.getLast?_concat]
        dsimp only
        by_cases hd : d = dotdot
        · -- only a relative path has dots to keep
          have hrel : rooted ≠ true := fun hr => h.no_dotdot hr (by simp [hd])
          rw [if_pos hd, walk_append]
          exact ⟨h.snoc dotdot_no_slash (by decide) fun hr => absurd hr hrel, rfl⟩
        · have hname : Name d :=
            ⟨(h.real d (by simp)).1, (h.real d (by simp)).2, hd, h.no_slash d (by simp)⟩
          have hlast : walk base (out ++ [d]) = walk base out ++ [d] := by
            rw [walk_append]
            exact follow_name hname
          rw [if_neg hd, hlast, List.dropLast_concat, List.dropLast_concat]
          exact ⟨by simpa using h.dropLast, rfl⟩
    · rw [if_neg hup, if_neg hup, walk_append]
      refine ⟨h.snoc he (not_or.mp hskip) fun _ => hup, ?_⟩
      exact follow_name ⟨(not_or.mp hskip).1, (not_or.mp hskip).2, hup, he⟩

theorem foldl_cleanStep {rooted : Bool} (base : List Bytes) {out es : List Bytes}
    (h : CleanInv rooted out) (hbase : rooted = true → base = []) (hes : ∀ e ∈ es, slash ∉ e) :
    CleanInv rooted (es.foldl (cleanStep rooted) out) ∧
      walk base (es.foldl (cleanStep rooted) out) = walk (walk base out) es := by
  induction es generalizing out with
  | nil => exact ⟨h, rfl⟩
  | cons e es ih =>
      obtain ⟨hinv, hwalk⟩ := cleanStep_spec base h hbase (hes e List.mem_cons_self)
      obtain ⟨hinv', hwalk'⟩ := ih hinv fun d hd => hes d (List.mem_cons_of_mem _ hd)
      refine ⟨hinv', ?_⟩
      rw [List.foldl_cons, hwalk', hwalk]
      rfl

/-- A relative path stays one. -/
theorem not_rooted_joinWith {es : List Bytes} (h : CleanInv false es) :
    rooted (joinWith [slash] es) = false := by
  cases es with
  | nil => rfl
  | cons e es =>
      obtain ⟨hne, -⟩ := h.real e List.mem_cons_self
      have hslash := h.no_slash e List.mem_cons_self
      cases e with
      | nil => exact absurd rfl hne
      | cons c e =>
          have hc : c ≠ slash := fun hc => hslash (by rw [hc]; exact List.mem_cons_self)
          cases es <;> simp [joinWith, rooted, hc]

/-- Cleaning a path does not change where it leads. -/
theorem resolve_clean (cwd : List Bytes) (p : Bytes) : resolve cwd (clean p) = resolve cwd p := by
  obtain ⟨hinv, hwalk⟩ := foldl_cleanStep (if rooted p then [] else cwd)
    (CleanInv.nil (rooted p)) (fun hr => by rw [hr]; rfl) fun e he => not_mem_splitOn (s := p) he
  have hresolve : resolve cwd p = walk (if rooted p then [] else cwd) (cleanElements p) := by
    rw [cleanElements, hwalk]
    rfl
  have hinv : CleanInv (rooted p) (cleanElements p) := hinv
  rw [hresolve, clean]
  cases hr : rooted p with
  | true =>
      rw [hr] at hinv
      have hne : slash :: joinWith [slash] (cleanElements p) ≠ [] := by simp
      have hsplit : (slash :: joinWith [slash] (cleanElements p)).splitOn slash
          = [] :: (joinWith [slash] (cleanElements p)).splitOn slash := by
        have hnil : slash ∉ ([] : Bytes) := by simp
        exact List.splitOn_append_cons_self_of_not_mem hnil _
      show resolve cwd (if slash :: joinWith [slash] (cleanElements p) = [] then dot else _) = _
      rw [if_neg hne]
      show walk [] ((slash :: joinWith [slash] (cleanElements p)).splitOn slash) = _
      rw [hsplit]
      by_cases hnil : cleanElements p = []
      · rw [hnil]
        rfl
      · rw [splitOn_joinWith hinv.no_slash hnil]
        rfl
  | false =>
      rw [hr] at hinv
      show resolve cwd (if joinWith [slash] (cleanElements p) = [] then dot else _) = _
      by_cases hnil : cleanElements p = []
      · rw [hnil]
        rfl
      · have hsplit := splitOn_joinWith hinv.no_slash hnil
        have hne : joinWith [slash] (cleanElements p) ≠ [] := by
          intro hempty
          rw [hempty] at hsplit
          exact (hinv.real [] (by rw [← hsplit]; simp)).1 rfl
        rw [if_neg hne]
        show resolve cwd (joinWith [slash] (cleanElements p)) = _
        rw [resolve, not_rooted_joinWith hinv, hsplit]

theorem clean_ne_nil (p : Bytes) : clean p ≠ [] := by
  rw [clean]
  by_cases h : (if rooted p then [slash] else []) ++ joinWith [slash] (cleanElements p) = []
  · rw [if_pos h]
    decide
  · rw [if_neg h]
    exact h

/-- The parts of a joined path, one after the other. -/
theorem resolve_append (cwd : List Bytes) {p : Bytes} (hp : p ≠ []) (q : Bytes) :
    resolve cwd (p ++ slash :: q) = walk (resolve cwd p) (q.splitOn slash) := by
  have hroot : rooted (p ++ slash :: q) = rooted p := by
    cases p with
    | nil => exact absurd rfl hp
    | cons c p => rfl
  rw [resolve, List.splitOn_append_cons_self, walk_append, hroot]
  rfl

/-- Elements below a path. -/
theorem resolve_join (cwd : List Bytes) {dir : Bytes} (hdir : dir ≠ []) {es : List Bytes}
    (hes : ∀ e ∈ es, slash ∉ e) : resolve cwd (join (dir :: es)) = walk (resolve cwd dir) es := by
  rw [join, if_neg hdir, resolve_clean]
  cases es with
  | nil => rfl
  | cons e es =>
      have hassoc : joinWith [slash] (dir :: e :: es)
          = dir ++ slash :: joinWith [slash] (e :: es) := by
        simp [joinWith]
      rw [hassoc, resolve_append cwd hdir, splitOn_joinWith hes (by simp)]

-- ============================================================================
-- Children
-- ============================================================================

/-- The directory is a child of `root`, and neither `root` nor above it. -/
structure DirectChild (root dir : List Bytes) : Prop where
  child : ∃ n, Name n ∧ dir = root ++ [n]
  not_above : ¬ dir <+: root

/-- The elements that do not lead to a child. -/
theorem follow_directChild_iff (root : List Bytes) {e : Bytes} (hne : e ≠ [])
    (hslash : slash ∉ e) : DirectChild root (follow root e) ↔ e ≠ dot ∧ e ≠ dotdot := by
  constructor
  · intro h
    constructor
    · intro hdot
      have hself : follow root e = root := by rw [follow, if_pos (.inr hdot)]
      have hprefix : follow root e <+: root := ⟨[], by rw [hself, List.append_nil]⟩
      exact h.not_above hprefix
    · intro hup
      have hparent : follow root e = root.dropLast := congrArg (follow root) hup
      exact h.not_above (by rw [hparent]; exact root.dropLast_prefix)
  · rintro ⟨hdot, hup⟩
    have hname : Name e := ⟨hne, hdot, hup, hslash⟩
    rw [follow_name hname]
    refine ⟨⟨e, hname, rfl⟩, fun hprefix => ?_⟩
    have hlen := hprefix.length_le
    rw [List.length_append, List.length_singleton] at hlen
    omega

end FsBridge.Lib.Path
