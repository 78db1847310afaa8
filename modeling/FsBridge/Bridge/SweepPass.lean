/-
  FsBridge.Bridge.SweepPass

  One pass of `Recorder.sweep` (bridge/recorder.go) over content that does not change
  meanwhile: which bundles go, and what is left.

  What the disk answers is given: the entries of the directory, what `filepath.Walk`
  finds under each, and which calls of `os.RemoveAll` fail, with what they leave: a call
  goes on behind what it cannot remove, and removes the rest.  `sort.Slice` may leave any
  sorted permutation.  `size` and `total` are the `int64` of the source, and wrap; what
  the files really hold is `bytes`, and the invariant of both loops is that the one is
  the other modulo 2^64 (`Int64.ofInt`).  `Sweeper` has the pass beside the sessions.
-/

import Mathlib.Algebra.Order.BigOperators.Group.List
import Mathlib.Algebra.Ring.Int.Defs
import Mathlib.Data.List.Sort
import FsBridge.Bridge.Sweeper

namespace FsBridge.Bridge.SweepPass

open FsBridge.Lib
open FsBridge.Bridge.Sweeper (Time)

-- ============================================================================
-- The pass
-- ============================================================================

/-- The fields of the recorder the sweep reads. -/
structure Recorder extends Bridge.Recorder where
  retention : Int64
  maxBytes : Int64

/-- `os.FileInfo`. -/
structure FileInfo where
  isDir : Bool
  size : Int64
  size_nonneg : 0 ≤ size.toInt
  modTime : Time
deriving DecidableEq

/-- What `filepath.Walk` gives its function: `none` is a place it could not look at. -/
abbrev Visit := Option FileInfo

/-- The files of a bundle. -/
def files (visits : List Visit) : List FileInfo :=
  visits.filterMap fun v => v.filter fun info => !info.isDir

/-- `os.RemoveAll` on each directory: it removes all of it, or fails and leaves some of its
    files. -/
structure RemoveAll (walk : Bytes → List Visit) where
  left : Bytes → Option (List FileInfo)
  left_sublist : ∀ dir infos, left dir = some infos → infos.Sublist (files (walk dir))

/-- `os.DirEntry`. -/
structure DirEntry where
  name : Bytes
  isDir : Bool

/-- `bundle` of `sweep`. -/
structure Bundle where
  dir : Bytes
  mod : Time
  size : Int64
deriving DecidableEq

/-- `sort.Slice(bundles, …)` by `mod.Before`: it is not stable. -/
structure SortSlice where
  sort : List Bundle → List Bundle
  perm : ∀ bundles, (sort bundles).Perm bundles
  sorted : ∀ bundles, (sort bundles).Pairwise fun b b' => ¬ b'.mod < b.mod

/-- The function of the walk, on `size` and `mod`. -/
def visit (acc : Int64 × Time) : Visit → Int64 × Time
  | none => acc
  | some info =>
      if info.isDir then acc
      else (acc.1 + info.size, if acc.2 < info.modTime then info.modTime else acc.2)

/-- The bundle of a directory; an empty one has the zero time. -/
def walked (walk : Bytes → List Visit) (dir : Bytes) : Bundle :=
  let acc := (walk dir).foldl visit (0, 0)
  ⟨dir, acc.2, acc.1⟩

/-- The first loop, on `bundles` and `total`. -/
def collect (r : Recorder) (walk : Bytes → List Visit) (acc : List Bundle × Int64)
    (e : DirEntry) : List Bundle × Int64 :=
  if e.isDir then
    let b := walked walk (Path.join [r.dir, e.name])
    (acc.1 ++ [b], acc.2 + b.size)
  else acc

/-- What the pass does with a bundle. -/
inductive Outcome where
  | kept
  /-- `os.RemoveAll` failed, and these files are left. -/
  | failed (left : List FileInfo)
  | removed
deriving DecidableEq

/-- `over` of the second loop. -/
def overMaxBytes (r : Recorder) (total : Int64) : Bool := 0 < r.maxBytes ∧ r.maxBytes < total

/-- The second loop: the directories in order, with what is done with each. -/
def sweepBundles (r : Recorder) (left : Bytes → Option (List FileInfo)) (cutoff : Time) :
    Int64 → List Bundle → List (Bytes × Outcome)
  | _, [] => []
  | total, b :: bundles =>
      if ¬ b.mod < cutoff ∧ overMaxBytes r total = false then
        (b.dir, .kept) :: sweepBundles r left cutoff total bundles
      else
        match left b.dir with
        | some infos => (b.dir, .failed infos) :: sweepBundles r left cutoff total bundles
        | none => (b.dir, .removed) :: sweepBundles r left cutoff (total - b.size) bundles

/-- `time.Now().Add(-r.Retention)`. -/
def cutoff (r : Recorder) (now : Time) : Time := now + (-r.retention).toInt

/-- `sweep`. -/
def sweep (r : Recorder) (s : SortSlice) (walk : Bytes → List Visit) (removeAll : RemoveAll walk)
    (now : Time) : Option (List DirEntry) → List (Bytes × Outcome)
  | none => []
  | some entries =>
      let (bundles, total) := entries.foldl (collect r walk) ([], 0)
      sweepBundles r removeAll.left (cutoff r now) total (s.sort bundles)

/-- The decision is the one of `Sweeper`, whose total is a sum. -/
theorem condemned_eq {S : Type} (r : Recorder) (cfg : Sweeper.Setup S)
    (hmax : cfg.maxBytes = r.maxBytes.toInt) (t : Time) (b : Sweeper.Bundle) (total : Int64) :
    Sweeper.condemned cfg t b total.toInt = (decide (b.mod < t) || overMaxBytes r total) := by
  rw [Sweeper.condemned, overMaxBytes, hmax, Bool.decide_or]
  refine congrArg (decide (b.mod < t) || ·) (decide_eq_decide.mpr ?_)
  rw [Int64.lt_iff_toInt_lt, Int64.lt_iff_toInt_lt]
  rfl

-- ============================================================================
-- What is on the disk, and the property
-- ============================================================================

/-- What some files hold together. -/
def sizes (infos : List FileInfo) : Int := (infos.map fun info => info.size.toInt).sum

/-- What the files of a bundle hold together. -/
def bytes (visits : List Visit) : Int := sizes (files visits)

/-- The latest time of a file, or the zero time. -/
def latest (visits : List Visit) : Time :=
  ((files visits).map fun info => info.modTime).foldr max 0

/-- The bundle directories. -/
def bundleDirs (r : Recorder) (entries : List DirEntry) : List Bytes :=
  (entries.filter fun e => e.isDir).map fun e => Path.join [r.dir, e.name]

/-- What the bundles of some directories hold. -/
def held (walk : Bytes → List Visit) (dirs : List Bytes) : Int :=
  (dirs.map fun dir => bytes (walk dir)).sum

/-- What is there of a bundle behind its turn. -/
def present (walk : Bytes → List Visit) (x : Bytes × Outcome) : Int :=
  match x.2 with
  | .kept => bytes (walk x.1)
  | .failed infos => sizes infos
  | .removed => 0

/-- What the total has of it: one whose removal has failed counts with all it held. -/
def counted (walk : Bytes → List Visit) (x : Bytes × Outcome) : Int :=
  match x.2 with
  | .kept | .failed _ => bytes (walk x.1)
  | .removed => 0

section Property

variable (r : Recorder) {walk : Bytes → List Visit} (removeAll : RemoveAll walk) (now : Time)
  (entries : List DirEntry) (swept : List (Bytes × Outcome))

/-- What the pass has done to each bundle, in the order of the times; `measure` is what a
    bundle counts for behind its turn. -/
structure Exact (measure : Bytes × Outcome → Int) : Prop where
  all : (swept.map Prod.fst).Perm (bundleDirs r entries)
  sorted : swept.Pairwise fun x y => latest (walk x.1) ≤ latest (walk y.1)
  /-- An old bundle is removed, unless its removal fails. -/
  aged : ∀ x ∈ swept, latest (walk x.1) < cutoff r now →
    x.2 = match removeAll.left x.1 with
      | some infos => .failed infos
      | none => .removed
  /-- Another one is removed only where no bundle before it was kept and those that are
      still there are too much. -/
  needed : ∀ before x after, swept = before ++ x :: after → cutoff r now ≤ latest (walk x.1) →
    x.2 = .removed → (∀ y ∈ before, y.2 ≠ .kept) ∧ 0 < r.maxBytes ∧
      r.maxBytes.toInt < (before.map measure).sum + held walk ((x :: after).map Prod.fst)

/-- Where a bundle is kept, what is left is not too much. -/
def Capped (walk : Bytes → List Visit) : Prop :=
  0 < r.maxBytes → (∃ x ∈ swept, x.2 = .kept) →
    (swept.map (present walk)).sum ≤ r.maxBytes.toInt

end Property

-- ============================================================================
-- The first loop
-- ============================================================================

section Collect

variable {walk : Bytes → List Visit}

theorem latest_nonneg (visits : List Visit) : 0 ≤ latest visits := by
  rw [latest]
  induction (files visits).map fun info => info.modTime with
  | nil => exact le_rfl
  | cons t times ih => exact ih.trans (le_max_right t _)

theorem sizes_nonneg {infos : List FileInfo} :
    ∀ n ∈ infos.map fun info => info.size.toInt, 0 ≤ n := by
  intro n hn
  obtain ⟨info, -, rfl⟩ := List.mem_map.mp hn
  exact info.size_nonneg

theorem bytes_nonneg (visits : List Visit) : 0 ≤ bytes visits := List.sum_nonneg sizes_nonneg

theorem sizes_le_of_sublist {infos infos' : List FileInfo} (h : infos.Sublist infos') :
    sizes infos ≤ sizes infos' := (h.map _).sum_le_sum sizes_nonneg

theorem held_append (dirs dirs' : List Bytes) :
    held walk (dirs ++ dirs') = held walk dirs + held walk dirs' := by
  rw [held, List.map_append, List.sum_append]
  rfl

theorem held_cons (dir : Bytes) (dirs : List Bytes) :
    held walk (dir :: dirs) = bytes (walk dir) + held walk dirs := by
  rw [held, List.map_cons, List.sum_cons]
  rfl

theorem held_singleton (dir : Bytes) : held walk [dir] = bytes (walk dir) := by
  rw [held_cons]
  exact Int.add_zero _

theorem held_nonneg (dirs : List Bytes) : 0 ≤ held walk dirs := by
  refine List.sum_nonneg fun n hn => ?_
  obtain ⟨dir, -, rfl⟩ := List.mem_map.mp hn
  exact bytes_nonneg (walk dir)

/-- The walk adds the sizes modulo 2^64, and keeps the latest time. -/
theorem foldl_visit (visits : List Visit) (size : Int) (mod : Time) (hmod : 0 ≤ mod) :
    visits.foldl visit (Int64.ofInt size, mod) =
      (Int64.ofInt (size + bytes visits), max mod (latest visits)) := by
  induction visits generalizing size mod with
  | nil =>
      show (Int64.ofInt size, mod) = (Int64.ofInt (size + 0), max mod 0)
      rw [Int.add_zero, max_eq_left hmod]
  | cons v visits ih =>
      rw [List.foldl_cons]
      cases v with
      | none => exact ih size mod hmod
      | some info =>
          cases hdir : info.isDir with
          | true =>
              have hfiles : files (some info :: visits) = files visits := by
                rw [files, List.filterMap_cons_none (by rw [Option.filter_some, hdir]; rfl)]
                rfl
              rw [visit, if_pos hdir, ih size mod hmod, bytes, latest, bytes, latest, hfiles]
          | false =>
              have hfiles : files (some info :: visits) = info :: files visits := by
                rw [files, List.filterMap_cons_some (by rw [Option.filter_some, hdir]; rfl)]
                rfl
              have hsize : Int64.ofInt size + info.size = Int64.ofInt (size + info.size.toInt) := by
                rw [Int64.ofInt_add, Int64.ofInt_toInt]
              have hmax : (if mod < info.modTime then info.modTime else mod) =
                  max mod info.modTime := by
                rw [max_def_lt]
              rw [visit, if_neg (by rw [hdir]; exact Bool.false_ne_true), hsize, hmax,
                ih _ _ (hmod.trans (le_max_left _ _)), bytes, latest, bytes, latest, hfiles,
                sizes, sizes, List.map_cons, List.map_cons, List.sum_cons, List.foldr_cons,
                Int.add_assoc, max_assoc]

/-- What the source has of a bundle. -/
theorem walked_eq (dir : Bytes) :
    walked walk dir = ⟨dir, latest (walk dir), Int64.ofInt (bytes (walk dir))⟩ := by
  have hfold := foldl_visit (walk dir) 0 0 le_rfl
  rw [Int.zero_add, max_eq_right (latest_nonneg _)] at hfold
  rw [walked, show ((0 : Int64), (0 : Time)) = (Int64.ofInt 0, 0) from rfl, hfold]

/-- The first loop leaves the bundles of the directories, and what they hold modulo
    2^64. -/
theorem foldl_collect (walk : Bytes → List Visit) (r : Recorder) (entries : List DirEntry)
    (dirs : List Bytes) :
    entries.foldl (collect r walk) (dirs.map (walked walk), Int64.ofInt (held walk dirs)) =
      ((dirs ++ bundleDirs r entries).map (walked walk),
        Int64.ofInt (held walk (dirs ++ bundleDirs r entries))) := by
  induction entries generalizing dirs with
  | nil => rw [bundleDirs, List.filter_nil, List.map_nil, List.append_nil]; rfl
  | cons e entries ih =>
      rw [List.foldl_cons]
      cases hdir : e.isDir with
      | true =>
          have hdirs : bundleDirs r (e :: entries) =
              Path.join [r.dir, e.name] :: bundleDirs r entries := by
            rw [bundleDirs, List.filter_cons_of_pos hdir]
            rfl
          have hheld : Int64.ofInt (held walk dirs) +
              (walked walk (Path.join [r.dir, e.name])).size =
                Int64.ofInt (held walk (dirs ++ [Path.join [r.dir, e.name]])) := by
            rw [walked_eq, held_append, Int64.ofInt_add, held_singleton]
          rw [collect, if_pos hdir]
          dsimp only
          have hmap : dirs.map (walked walk) ++ [walked walk (Path.join [r.dir, e.name])] =
              (dirs ++ [Path.join [r.dir, e.name]]).map (walked walk) := by
            rw [List.map_append]
            rfl
          rw [hheld, hmap, ih, hdirs, List.append_assoc, List.singleton_append]
      | false =>
          have hdirs : bundleDirs r (e :: entries) = bundleDirs r entries := by
            rw [bundleDirs, List.filter_cons_of_neg (by rw [hdir]; exact Bool.false_ne_true)]
            rfl
          rw [collect, if_neg (by rw [hdir]; exact Bool.false_ne_true), ih, hdirs]

end Collect

-- ============================================================================
-- The second loop
-- ============================================================================

section Loop

variable {r : Recorder} {walk : Bytes → List Visit} {removeAll : RemoveAll walk} {t : Time}

/-- A total that is above the cap is so whatever it has lost. -/
theorem lt_of_over {n : Int} (hn : 0 ≤ n) (h : overMaxBytes r (Int64.ofInt n) = true) :
    0 < r.maxBytes ∧ r.maxBytes.toInt < n := by
  obtain ⟨hpos, hlt⟩ := of_decide_eq_true h
  refine ⟨hpos, (Int64.lt_iff_toInt_lt.mp hlt).trans_le ?_⟩
  rw [Int64.toInt_ofInt]
  show n.bmod 18446744073709551616 ≤ n
  rw [Int.bmod_eq_emod]
  split
  · omega
  · omega

/-- A total that has lost nothing and is not above the cap. -/
theorem le_of_not_over {n : Int} (hn : 0 ≤ n) (hlt : n < 9223372036854775808)
    (hpos : 0 < r.maxBytes) (h : overMaxBytes r (Int64.ofInt n) = false) :
    n ≤ r.maxBytes.toInt := by
  have hnot : ¬ r.maxBytes < Int64.ofInt n := fun hover => of_decide_eq_false h ⟨hpos, hover⟩
  rw [Int64.lt_iff_toInt_lt, Int64.toInt_ofInt_of_le (by omega) hlt] at hnot
  omega

/-- The loop on the directories, where `n` bytes are there. -/
def loop (r : Recorder) (removeAll : RemoveAll walk) (t : Time) (n : Int) (dirs : List Bytes) :
    List (Bytes × Outcome) :=
  sweepBundles r removeAll.left t (Int64.ofInt n) (dirs.map (walked walk))

/-- What one round does. -/
theorem loop_cons (n : Int) (dir : Bytes) (dirs : List Bytes) :
    (t ≤ latest (walk dir) ∧ overMaxBytes r (Int64.ofInt n) = false ∧
      loop r removeAll t n (dir :: dirs) = (dir, .kept) :: loop r removeAll t n dirs) ∨
    (t ≤ latest (walk dir) → overMaxBytes r (Int64.ofInt n) = true) ∧ (
      (∃ infos, removeAll.left dir = some infos ∧
        loop r removeAll t n (dir :: dirs) = (dir, .failed infos) :: loop r removeAll t n dirs) ∨
      removeAll.left dir = none ∧ loop r removeAll t n (dir :: dirs) =
        (dir, .removed) :: loop r removeAll t (n - bytes (walk dir)) dirs) := by
  rw [loop, List.map_cons, walked_eq, sweepBundles]
  dsimp only
  by_cases hkeep : ¬ latest (walk dir) < t ∧ overMaxBytes r (Int64.ofInt n) = false
  · rw [if_pos hkeep]
    exact .inl ⟨not_lt.mp hkeep.1, hkeep.2, rfl⟩
  · rw [if_neg hkeep]
    refine .inr ⟨fun hnew => ?_, ?_⟩
    · exact Bool.of_not_eq_false fun hover => hkeep ⟨not_lt.mpr hnew, hover⟩
    · cases hleft : removeAll.left dir with
      | some infos => exact .inl ⟨infos, rfl, rfl⟩
      | none =>
          refine .inr ⟨rfl, ?_⟩
          dsimp only
          rw [← Int64.ofInt_sub]
          rfl

theorem loop_dirs (n : Int) (dirs : List Bytes) :
    (loop r removeAll t n dirs).map Prod.fst = dirs := by
  induction dirs generalizing n with
  | nil => rfl
  | cons dir dirs ih =>
      rcases loop_cons n dir dirs with ⟨-, -, h⟩ | ⟨-, ⟨infos, -, h⟩ | ⟨-, h⟩⟩
      · rw [h, List.map_cons, ih]
      · rw [h, List.map_cons, ih]
      · rw [h, List.map_cons, ih]

theorem loop_aged (n : Int) (dirs : List Bytes) :
    ∀ x ∈ loop r removeAll t n dirs, latest (walk x.1) < t →
      x.2 = match removeAll.left x.1 with
        | some infos => .failed infos
        | none => .removed := by
  induction dirs generalizing n with
  | nil => intro x hx; cases hx
  | cons dir dirs ih =>
      intro x hx hold
      rcases loop_cons n dir dirs with ⟨hnew, -, h⟩ | ⟨-, ⟨infos, hleft, h⟩ | ⟨hleft, h⟩⟩
      · rw [h] at hx
        rcases List.mem_cons.mp hx with rfl | hx
        · exact absurd hold (not_lt.mpr hnew)
        · exact ih n x hx hold
      · rw [h] at hx
        rcases List.mem_cons.mp hx with rfl | hx
        · rw [hleft]
        · exact ih n x hx hold
      · rw [h] at hx
        rcases List.mem_cons.mp hx with rfl | hx
        · rw [hleft]
        · exact ih _ x hx hold

/-- What a failed removal leaves is no more than there was. -/
theorem loop_present_le (n : Int) (dirs : List Bytes) :
    ∀ x ∈ loop r removeAll t n dirs, present walk x ≤ counted walk x := by
  induction dirs generalizing n with
  | nil => intro x hx; cases hx
  | cons dir dirs ih =>
      intro x hx
      rcases loop_cons n dir dirs with ⟨-, -, h⟩ | ⟨-, ⟨infos, hleft, h⟩ | ⟨-, h⟩⟩
      · rw [h] at hx
        rcases List.mem_cons.mp hx with rfl | hx
        · exact le_rfl
        · exact ih n x hx
      · rw [h] at hx
        rcases List.mem_cons.mp hx with rfl | hx
        · exact sizes_le_of_sublist (removeAll.left_sublist dir infos hleft)
        · exact ih n x hx
      · rw [h] at hx
        rcases List.mem_cons.mp hx with rfl | hx
        · exact le_rfl
        · exact ih _ x hx

/-- Where a new bundle is kept, so are all that come after it. -/
theorem loop_kept {n : Int} {dirs : List Bytes} (hnew : ∀ dir ∈ dirs, t ≤ latest (walk dir))
    (hover : overMaxBytes r (Int64.ofInt n) = false) :
    ∀ x ∈ loop r removeAll t n dirs, x.2 = .kept := by
  induction dirs with
  | nil => intro x hx; cases hx
  | cons dir dirs ih =>
      intro x hx
      rcases loop_cons n dir dirs with ⟨-, -, h⟩ | ⟨hcond, -⟩
      · rw [h] at hx
        rcases List.mem_cons.mp hx with rfl | hx
        · rfl
        · exact ih (fun dir hdir => hnew dir (List.mem_cons_of_mem _ hdir)) x hx
      · exact (Bool.false_ne_true (hover.symm.trans (hcond (hnew dir List.mem_cons_self)))).elim

theorem counted_of_kept {swept : List (Bytes × Outcome)} (h : ∀ x ∈ swept, x.2 = .kept) :
    (swept.map (counted walk)).sum = held walk (swept.map Prod.fst) := by
  rw [held, List.map_map]
  refine congrArg List.sum (List.map_congr_left fun x hx => ?_)
  rw [counted, h x hx]
  rfl

theorem kept_of_cons {y : Bytes × Outcome} {swept : List (Bytes × Outcome)} (hy : y.2 ≠ .kept)
    (h : ∃ x ∈ y :: swept, x.2 = .kept) : ∃ x ∈ swept, x.2 = .kept := by
  obtain ⟨x, hx, hkept⟩ := h
  rcases List.mem_cons.mp hx with rfl | hx
  · exact absurd hkept hy
  · exact ⟨x, hx, hkept⟩

/-- With the order of the times, all that comes after is new too. -/
theorem loop_cons_sorted {n : Int} {dir : Bytes} {dirs : List Bytes}
    (hsorted : (dir :: dirs).Pairwise fun d d' => latest (walk d) ≤ latest (walk d'))
    (hnew : t ≤ latest (walk dir)) (hover : overMaxBytes r (Int64.ofInt n) = false) :
    ∀ x ∈ loop r removeAll t n (dir :: dirs), x.2 = .kept := by
  refine loop_kept (fun d hd => ?_) hover
  rcases List.mem_cons.mp hd with rfl | hd
  · exact hnew
  · exact hnew.trans (List.rel_of_pairwise_cons hsorted hd)

/-- `left` is what the bundles hold whose removal has failed. -/
theorem loop_capped {dirs : List Bytes} {left : Int} (hleft : 0 ≤ left)
    (hsorted : dirs.Pairwise fun d d' => latest (walk d) ≤ latest (walk d'))
    (hlt : left + held walk dirs < 9223372036854775808) (hpos : 0 < r.maxBytes)
    (hkept : ∃ x ∈ loop r removeAll t (left + held walk dirs) dirs, x.2 = .kept) :
    left + ((loop r removeAll t (left + held walk dirs) dirs).map (counted walk)).sum ≤
      r.maxBytes.toInt := by
  induction dirs generalizing left with
  | nil =>
      obtain ⟨x, hx, -⟩ := hkept
      cases hx
  | cons dir dirs ih =>
      have hbytes : 0 ≤ bytes (walk dir) := bytes_nonneg _
      have hdirs : 0 ≤ held walk dirs := held_nonneg dirs
      have hcons : held walk (dir :: dirs) = bytes (walk dir) + held walk dirs :=
        held_cons dir dirs
      rcases loop_cons (left + held walk (dir :: dirs)) dir dirs with
        ⟨hnew, hover, -⟩ | ⟨-, ⟨infos, -, h⟩ | ⟨-, h⟩⟩
      · rw [counted_of_kept (loop_cons_sorted hsorted hnew hover), loop_dirs]
        exact le_of_not_over (by omega) hlt hpos hover
      · have hn : left + held walk (dir :: dirs) = left + bytes (walk dir) + held walk dirs := by
          omega
        rw [h] at hkept ⊢
        have hcounted : counted walk (dir, .failed infos) = bytes (walk dir) := rfl
        rw [List.map_cons, List.sum_cons, hcounted, ← Int.add_assoc, hn]
        rw [hn] at hkept hlt
        exact ih (by omega) hsorted.of_cons hlt (kept_of_cons Outcome.noConfusion hkept)
      · have hn : left + held walk (dir :: dirs) - bytes (walk dir) = left + held walk dirs := by
          omega
        rw [hn] at h
        rw [h] at hkept ⊢
        rw [List.map_cons, List.sum_cons]
        have hrest := ih hleft hsorted.of_cons (by omega) (kept_of_cons Outcome.noConfusion hkept)
        show left + (0 + _) ≤ _
        omega

theorem loop_needed {dirs : List Bytes} {left : Int} (hleft : 0 ≤ left)
    (hsorted : dirs.Pairwise fun d d' => latest (walk d) ≤ latest (walk d'))
    {before after : List (Bytes × Outcome)} {x : Bytes × Outcome}
    (hswept : loop r removeAll t (left + held walk dirs) dirs = before ++ x :: after)
    (hnew : t ≤ latest (walk x.1)) (hremoved : x.2 = .removed) :
    (∀ y ∈ before, y.2 ≠ .kept) ∧ 0 < r.maxBytes ∧
      r.maxBytes.toInt <
        left + ((before.map (counted walk)).sum + held walk ((x :: after).map Prod.fst)) := by
  induction dirs generalizing left before with
  | nil => cases (List.append_eq_nil_iff.mp hswept.symm).2
  | cons dir dirs ih =>
      have hbytes : 0 ≤ bytes (walk dir) := bytes_nonneg _
      have hdirs : 0 ≤ held walk dirs := held_nonneg dirs
      have hcons : held walk (dir :: dirs) = bytes (walk dir) + held walk dirs :=
        held_cons dir dirs
      rcases loop_cons (left + held walk (dir :: dirs)) dir dirs with
        ⟨hkeep, hover, -⟩ | ⟨hcond, hround⟩
      · have hkept := loop_cons_sorted hsorted hkeep hover x
          (hswept ▸ List.mem_append_right _ List.mem_cons_self)
        cases hremoved.symm.trans hkept
      · cases before with
        | nil =>
            have hall : (x :: after).map Prod.fst = dir :: dirs := by
              rw [← List.nil_append (x :: after), ← hswept, loop_dirs]
            have hx : x.1 = dir := List.head_eq_of_cons_eq hall
            rw [hx] at hnew
            obtain ⟨hpos, hlt⟩ := lt_of_over (by omega) (hcond hnew)
            refine ⟨fun y hy => (List.not_mem_nil hy).elim, hpos, ?_⟩
            rw [hall, List.map_nil, List.sum_nil, Int.zero_add]
            exact hlt
        | cons y before =>
            rcases hround with ⟨infos, -, h⟩ | ⟨-, h⟩
            · have hn : left + held walk (dir :: dirs) =
                  left + bytes (walk dir) + held walk dirs := by omega
              obtain ⟨rfl, htail⟩ := List.cons.inj (h.symm.trans hswept)
              rw [hn] at htail
              obtain ⟨hbefore, hpos, hlt⟩ := ih (by omega) hsorted.of_cons htail
              refine ⟨fun z hz => ?_, hpos, ?_⟩
              · rcases List.mem_cons.mp hz with rfl | hz
                · exact Outcome.noConfusion
                · exact hbefore z hz
              · rw [List.map_cons, List.sum_cons]
                show _ < left + (bytes (walk dir) + _ + _)
                omega
            · have hn : left + held walk (dir :: dirs) - bytes (walk dir) =
                  left + held walk dirs := by omega
              obtain ⟨rfl, htail⟩ := List.cons.inj (h.symm.trans hswept)
              rw [hn] at htail
              obtain ⟨hbefore, hpos, hlt⟩ := ih hleft hsorted.of_cons htail
              refine ⟨fun z hz => ?_, hpos, ?_⟩
              · rcases List.mem_cons.mp hz with rfl | hz
                · exact Outcome.noConfusion
                · exact hbefore z hz
              · rw [List.map_cons, List.sum_cons]
                show _ < left + (0 + _ + _)
                omega

end Loop

-- ============================================================================
-- The pass as a whole
-- ============================================================================

/-- `NewRecorder` on a directory that is there. -/
def newRecorder (dir : Bytes) (dir_ne : dir ≠ []) : Recorder :=
  { dir, dir_ne, bus := false, retention := 86400000000000, maxBytes := 1073741824 }

/-- The bundles are those of some sorting of the directories. -/
theorem sweep_eq_loop (r : Recorder) (s : SortSlice) (walk : Bytes → List Visit)
    (removeAll : RemoveAll walk) (now : Time) (entries : List DirEntry) :
    ∃ dirs, dirs.Perm (bundleDirs r entries) ∧
      dirs.Pairwise (fun d d' => latest (walk d) ≤ latest (walk d')) ∧
      sweep r s walk removeAll now (some entries) =
        loop r removeAll (cutoff r now) (held walk dirs) dirs := by
  have hfold := foldl_collect walk r entries []
  rw [List.nil_append] at hfold
  -- a permutation of the bundles is made of a permutation of their directories
  have hcomp := congrFun (congrFun (List.eq_map_comp_perm (walked walk))
    (s.sort ((bundleDirs r entries).map (walked walk)))) (bundleDirs r entries)
  obtain ⟨dirs, hmap, hdirs⟩ := hcomp.mpr (s.perm ((bundleDirs r entries).map (walked walk)))
  refine ⟨dirs, hdirs, ?_, ?_⟩
  · have hsorted := s.sorted ((bundleDirs r entries).map (walked walk))
    rw [hmap, List.pairwise_map] at hsorted
    refine hsorted.imp fun {d d'} hle => ?_
    rw [walked_eq, walked_eq] at hle
    exact not_lt.mp hle
  · have hheld : held walk (bundleDirs r entries) = held walk dirs := (hdirs.map _).sum_eq.symm
    rw [sweep, show (([] : List Bundle), (0 : Int64)) =
      (([] : List Bytes).map (walked walk), Int64.ofInt (held walk [])) from rfl, hfold]
    dsimp only
    rw [hmap, hheld]
    rfl

/-- The pass removes every old bundle but for failures, and no new one without need, which
    is judged by what those whose removal has failed held before; and it keeps to the cap,
    where the bundles hold less than 2^63 bytes together. -/
theorem sweep_exact (r : Recorder) (s : SortSlice) (walk : Bytes → List Visit)
    (removeAll : RemoveAll walk) (now : Time) (entries : List DirEntry) :
    Exact r removeAll now entries (sweep r s walk removeAll now (some entries)) (counted walk) ∧
      (held walk (bundleDirs r entries) < 9223372036854775808 →
        Capped r (sweep r s walk removeAll now (some entries)) walk) := by
  obtain ⟨dirs, hperm, hsorted, hsweep⟩ := sweep_eq_loop r s walk removeAll now entries
  rw [hsweep]
  have hall : (loop r removeAll (cutoff r now) (held walk dirs) dirs).map Prod.fst = dirs :=
    loop_dirs _ _
  constructor
  · constructor
    · rw [hall]
      exact hperm
    · rw [← hall, List.pairwise_map] at hsorted
      exact hsorted
    · exact loop_aged _ _
    · intro before x after hswept hnew hremoved
      rw [← Int.zero_add (held walk dirs)] at hswept
      have hneeded := loop_needed le_rfl hsorted hswept hnew hremoved
      rw [Int.zero_add] at hneeded
      exact hneeded
  · intro hlt hpos hkept
    have hheld : held walk (bundleDirs r entries) = held walk dirs := (hperm.map _).sum_eq.symm
    rw [hheld] at hlt
    rw [← Int.zero_add (held walk dirs)] at hlt hkept
    have hcapped := loop_capped le_rfl hsorted hlt hpos hkept
    rw [Int.zero_add, Int.zero_add] at hcapped
    exact (List.sum_le_sum (loop_present_le _ _)).trans hcapped

-- A sort that leaves equal times as they are; two bundles of 2^62 bytes; and two of 600
-- bytes, of which the first is emptied before its removal fails.

def insertionSlice : SortSlice where
  sort := List.insertionSort fun b b' => b.mod ≤ b'.mod
  perm := List.perm_insertionSort _
  sorted := fun bundles => by
    have htotal : Std.Total fun b b' : Bundle => b.mod ≤ b'.mod := ⟨fun b b' => le_total _ _⟩
    have htrans : IsTrans Bundle fun b b' => b.mod ≤ b'.mod := ⟨fun _ _ _ h h' => le_trans h h'⟩
    exact (List.pairwise_insertionSort _ bundles).imp not_lt.mpr

theorem rec_ne : ascii "/r" ≠ [] := by decide

def standing : Recorder := newRecorder (ascii "/r") rec_ne

theorem huge_nonneg : 0 ≤ Int64.toInt 4611686018427387904 := by decide

theorem small_nonneg : 0 ≤ Int64.toInt 600 := by decide

def hugeFile : FileInfo := ⟨false, 4611686018427387904, huge_nonneg, 63900000000000000000⟩

def smallFile : FileInfo := ⟨false, 600, small_nonneg, 63900000000000000000⟩

def twoCalls : List DirEntry := [⟨ascii "a", true⟩, ⟨ascii "b", true⟩]

def hugeWalk : Bytes → List Visit := fun _ => [some hugeFile]

def smallWalk : Bytes → List Visit := fun _ => [some smallFile]

/-- Nothing fails. -/
def allRemoved : RemoveAll hugeWalk := ⟨fun _ => none, fun _ _ h => nomatch h⟩

/-- The directory of the first bundle cannot be removed, but its file can. -/
def firstEmptied : RemoveAll smallWalk where
  left dir := if dir = Path.join [ascii "/r", ascii "a"] then some [] else none
  left_sublist dir infos h := by
    split at h
    · obtain rfl := Option.some.inj h
      exact List.nil_sublist _
    · exact nomatch h

def hugeSweep : List (Bytes × Outcome) :=
  sweep standing insertionSlice hugeWalk allRemoved 63900000000000000000 (some twoCalls)

def smallSweep : List (Bytes × Outcome) :=
  sweep { standing with maxBytes := 1000 } insertionSlice smallWalk firstEmptied
    63900000000000000000 (some twoCalls)

/-- `int64` has no room for the total of two bundles of 2^62 bytes: nothing is over the cap.
    And the total still has the bundle that has been emptied: the second is removed at 600
    bytes, below a cap of 1000. -/
theorem huge_uncapped_emptied_counted :
    ¬ (Exact standing allRemoved 63900000000000000000 twoCalls hugeSweep (present hugeWalk) ∧
        Capped standing hugeSweep hugeWalk) ∧
      ¬ (Exact { standing with maxBytes := 1000 } firstEmptied 63900000000000000000 twoCalls
          smallSweep (present smallWalk) ∧
        Capped { standing with maxBytes := 1000 } smallSweep smallWalk) := by
  constructor
  · rintro ⟨-, hcapped⟩
    exact absurd (hcapped (by decide) (by decide +kernel)) (by decide +kernel)
  · rintro ⟨hexact, -⟩
    have hswept : smallSweep = [(Path.join [ascii "/r", ascii "a"], .failed [])] ++
        (Path.join [ascii "/r", ascii "b"], .removed) :: [] := by decide +kernel
    obtain ⟨-, -, hlt⟩ := hexact.needed _ _ _ hswept (by decide +kernel) rfl
    exact absurd hlt (by decide +kernel)

end FsBridge.Bridge.SweepPass
