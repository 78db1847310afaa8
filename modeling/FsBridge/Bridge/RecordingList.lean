/-
  FsBridge.Bridge.RecordingList

  `GET /recordings` (bridge/recordings.go): the array of what is in the meta.json of
  each bundle, for every content of the recording directory.

  The texts are sorted as they are, so what comes first is decided by the first member
  in which they differ; and one text that is no JSON leaves nothing of the array.
-/

import FsBridge.Bridge.Control
import FsBridge.Lib.JsonString
import FsBridge.Lib.Rfc3339

namespace FsBridge.Bridge

open FsBridge.Lib FsBridge.Lib.JsonText
open JsonScan (maxNestingDepth)

/-- An entry that `os.ReadDir` returns, with what `os.ReadFile` reads of the meta.json in
    it. -/
structure DirEntry where
  name : Bytes
  isDir : Bool
  metaFile : Option Bytes
deriving DecidableEq, Repr

/-- `metas` of `handleList`: the texts of the bundles that have one. -/
def metas (entries : List DirEntry) : List Bytes :=
  entries.filterMap fun e => if e.isDir then e.metaFile else none

/-- What `json.Marshal` makes of the texts; nothing where it returns an error. -/
def marshalMetas (texts : List Bytes) : Bytes :=
  match texts.mapM compacted with
  | some ts => compactText (.arr ts)
  | none => []

/-- `handleList`: the status of the reply and its body. -/
def handleList : (readDir : Except Bytes (List DirEntry)) → Nat × Bytes
  | .error err => (500, err ++ ascii "\n")
  | .ok entries => (200, marshalMetas ((metas entries).mergeSort fun a b => bytesLe b a))

-- ============================================================================
-- The list
-- ============================================================================

/-- The string that is the member of this name. -/
def strMember (members : List (Bytes × Json)) (name : Bytes) : Option Bytes :=
  match members.lookup name with
  | some (.str s) => some s
  | _ => none

/-- When the recording started, as far as its meta says so. -/
def startedAt : Json → Option Int
  | .obj members => (strMember members (ascii "started")).bind Rfc3339.instant
  | _ => none

/-- The first recording did not start before the second one. -/
def NotBefore (a b : Json) : Prop := ∀ s ∈ startedAt a, ∀ t ∈ startedAt b, t ≤ s

/-- The body is an array of the values of all texts that are JSON, each once, from the
    newest to the oldest. -/
def ListsNewestFirst (texts : List Bytes) (body : Bytes) : Prop :=
  ∃ values, decode body = some (.arr values) ∧ values.Perm (texts.filterMap decode) ∧
    values.Pairwise NotBefore

/-- Every text is JSON, and so it is inside of an array. -/
def AllJson (texts : List Bytes) : Prop :=
  ∀ text ∈ texts, (parse (maxNestingDepth - 1) text).isSome = true

/-- What comes first as a text did not start before. -/
def TextOrder (texts : List Bytes) : Prop :=
  ∀ a ∈ texts, ∀ b ∈ texts, bytesLe a b = false →
    ∀ va ∈ decode a, ∀ vb ∈ decode b, NotBefore va vb

-- ============================================================================
-- The order of strings
-- ============================================================================

theorem bytesLe_total (s t : Bytes) : bytesLe s t = true ∨ bytesLe t s = true := by
  induction s generalizing t with
  | nil => exact .inl rfl
  | cons a s ih =>
      cases t with
      | nil => exact .inr rfl
      | cons b t =>
          simp only [bytesLe, Bool.or_eq_true, Bool.and_eq_true, decide_eq_true_eq]
          rcases Nat.lt_trichotomy a.toNat b.toNat with hlt | heq | hlt
          · exact .inl (.inl (UInt8.lt_iff_toNat_lt.mpr hlt))
          · obtain rfl := UInt8.toNat_inj.mp heq
            exact (ih t).imp (fun h => .inr ⟨rfl, h⟩) fun h => .inr ⟨rfl, h⟩
          · exact .inr (.inl (UInt8.lt_iff_toNat_lt.mpr hlt))

theorem bytesLe_trans {s t u : Bytes} (hst : bytesLe s t = true) (htu : bytesLe t u = true) :
    bytesLe s u = true := by
  induction s generalizing t u with
  | nil => rfl
  | cons a s ih =>
      cases t with
      | nil => cases hst
      | cons b t =>
          cases u with
          | nil => cases htu
          | cons c u =>
              simp only [bytesLe, Bool.or_eq_true, Bool.and_eq_true, decide_eq_true_eq]
                at hst htu ⊢
              rcases hst with hab | ⟨rfl, hst⟩
              · rcases htu with hbc | ⟨rfl, -⟩
                · exact .inl (UInt8.lt_trans hab hbc)
                · exact .inl hab
              · rcases htu with hbc | ⟨rfl, htu⟩
                · exact .inl hbc
                · exact .inr ⟨rfl, ih hst htu⟩

theorem bytesLe_antisymm {s t : Bytes} (hst : bytesLe s t = true) (hts : bytesLe t s = true) :
    s = t := by
  induction s generalizing t with
  | nil =>
      cases t with
      | nil => rfl
      | cons b t => cases hts
  | cons a s ih =>
      cases t with
      | nil => cases hst
      | cons b t =>
          simp only [bytesLe, Bool.or_eq_true, Bool.and_eq_true, decide_eq_true_eq] at hst hts
          rcases hst with hab | ⟨rfl, hst⟩
          · rcases hts with hba | ⟨rfl, -⟩
            · exact absurd hba (UInt8.lt_asymm hab)
            · exact absurd hab (UInt8.lt_irrefl _)
          · rcases hts with hba | ⟨-, hts⟩
            · exact absurd hba (UInt8.lt_irrefl _)
            · rw [ih hst hts]

/-- The texts, the last one first. -/
theorem pairwise_sorted (texts : List Bytes) :
    (texts.mergeSort fun a b => bytesLe b a).Pairwise fun a b => bytesLe b a = true := by
  refine List.pairwise_mergeSort (fun a b c hab hbc => ?_) (fun a b => ?_) texts
  · exact bytesLe_trans hbc hab
  · rw [Bool.or_eq_true]
    exact bytesLe_total b a

-- ============================================================================
-- The array
-- ============================================================================

theorem mapM_of_isSome {A B : Type} {f : A → Option B} {as : List A}
    (h : ∀ a ∈ as, (f a).isSome = true) : as.mapM f = some (as.filterMap f) := by
  induction as with
  | nil => rfl
  | cons a as ih =>
      obtain ⟨b, hb⟩ := Option.isSome_iff_exists.mp (h a List.mem_cons_self)
      rw [List.mapM_cons, hb, ih fun c hc => h c (List.mem_cons_of_mem _ hc),
        List.filterMap_cons_some hb]
      rfl

theorem isSome_of_mapM {A B : Type} {f : A → Option B} {as : List A} {bs : List B}
    (h : as.mapM f = some bs) : ∀ a ∈ as, (f a).isSome = true := by
  induction as generalizing bs with
  | nil => exact fun a ha => absurd ha (List.not_mem_nil)
  | cons a as ih =>
      rw [List.mapM_cons] at h
      obtain ⟨b, hb, h⟩ := Option.bind_eq_some_iff.mp h
      obtain ⟨bs', hbs, -⟩ := Option.bind_eq_some_iff.mp h
      intro c hc
      rcases List.mem_cons.mp hc with rfl | hc
      · rw [hb]
        rfl
      · exact ih hbs c hc

/-- The values of compacted texts. -/
theorem map_toJson_compacted (texts : List Bytes) :
    (texts.filterMap compacted).map Tree.toJson = texts.filterMap decode := by
  rw [List.map_filterMap]
  refine List.filterMap_congr fun text _ => ?_
  cases hc : compacted text with
  | none =>
      rw [compacted, Option.map_eq_none_iff] at hc
      rw [decode, hc]
  | some t => exact (decode_of_compacted hc).symm

/-- A text is nested as deep when it is compacted. -/
theorem fits_compacted {text : Bytes} {t : Tree} (h : compacted text = some t) (depth : Nat) :
    Fits depth t ↔ (parse depth text).isSome = true := by
  obtain ⟨v, hv, rfl⟩ := Option.map_eq_some_iff.mp h
  rw [fits_mapBodies_iff (fun _ => isBody_htmlEscape) (fits_of_parse hv),
    parse_isSome_iff_fits hv]

/-- The elements of an array are nested one level less. -/
theorem fits_arr_iff (ts : List Tree) :
    Fits maxNestingDepth (.arr ts) ↔ ∀ t ∈ ts, Fits (maxNestingDepth - 1) t := Iff.rfl

theorem compacted_isSome {text : Bytes} (h : (parse (maxNestingDepth - 1) text).isSome = true) :
    (compacted text).isSome = true := by
  obtain ⟨v, hv⟩ := Option.isSome_iff_exists.mp h
  rw [compacted, Option.isSome_map,
    parse_of_fits hv ((fits_of_parse hv).mono (Nat.sub_le _ _))]
  rfl

theorem parse_nil (depth : Nat) : parse depth [] = none := by
  cases depth <;> rfl

theorem decode_marshalMetas {texts : List Bytes} (h : AllJson texts) :
    decode (marshalMetas texts) = some (.arr (texts.filterMap decode)) := by
  have hfits : Fits maxNestingDepth (.arr (texts.filterMap compacted)) := by
    rw [fits_arr_iff]
    intro t ht
    obtain ⟨text, htext, hc⟩ := List.mem_filterMap.mp ht
    exact (fits_compacted hc _).mpr (h text htext)
  rw [marshalMetas, mapM_of_isSome fun text htext => compacted_isSome (h text htext)]
  dsimp only
  rw [decode, parse_compactText hfits, Option.map_some, Tree.toJson, Tree.elementsToJson_eq,
    map_toJson_compacted]

theorem allJson_of_decode {texts : List Bytes}
    (h : (decode (marshalMetas texts)).isSome = true) : AllJson texts := by
  rw [decode, Option.isSome_map, marshalMetas] at h
  cases hts : texts.mapM compacted with
  | none =>
      rw [hts] at h
      exact absurd h (by rw [parse_nil]; exact Bool.false_ne_true)
  | some ts =>
      rw [hts] at h
      have hsome := isSome_of_mapM hts
      rw [mapM_of_isSome hsome] at hts
      obtain rfl := Option.some.inj hts
      have hdeep : Fits (maxNestingDepth + 1) (.arr (texts.filterMap compacted)) := by
        intro t ht
        obtain ⟨text, -, hc⟩ := List.mem_filterMap.mp ht
        obtain ⟨v, hv, -⟩ := Option.map_eq_some_iff.mp hc
        exact (fits_compacted hc maxNestingDepth).mpr (by rw [hv]; rfl)
      have hfits := (parse_isSome_iff_fits (parse_compactText hdeep)).mp h
      rw [fits_arr_iff] at hfits
      intro text htext
      obtain ⟨t, hc⟩ := Option.isSome_iff_exists.mp (hsome text htext)
      exact (fits_compacted hc _).mp (hfits t (List.mem_filterMap.mpr ⟨text, htext, hc⟩))

-- ============================================================================
-- The order
-- ============================================================================

theorem notBefore_refl (v : Json) : NotBefore v v := by
  intro s hs t ht
  rw [Option.mem_def] at hs ht
  rw [hs] at ht
  exact Int.le_of_eq (Option.some.inj ht).symm

/-- The texts as they are sorted are from the newest to the oldest exactly when the order
    of the texts is that of their times. -/
theorem pairwise_newest_iff (texts : List Bytes) :
    ((texts.mergeSort fun a b => bytesLe b a).filterMap decode).Pairwise NotBefore ↔
      TextOrder texts := by
  have hmem : ∀ a, a ∈ (texts.mergeSort fun a b => bytesLe b a) ↔ a ∈ texts :=
    fun a => List.mem_mergeSort
  rw [List.pairwise_filterMap]
  constructor
  · intro h a ha b hb
    refine List.Pairwise.forall_of_forall_of_flip (R := fun a b => bytesLe a b = false →
      ∀ va ∈ decode a, ∀ vb ∈ decode b, NotBefore va vb) ?_ ?_ ?_ ((hmem a).mpr ha) ((hmem b).mpr hb)
    · intro a _ hlt
      rcases bytesLe_total a a with hle | hle
      · exact absurd hle (by rw [hlt]; exact Bool.false_ne_true)
      · exact absurd hle (by rw [hlt]; exact Bool.false_ne_true)
    · exact h.imp fun hab _ va hva vb hvb => hab va hva vb hvb
    · -- of two texts the greater one comes first
      exact (pairwise_sorted texts).imp fun hle hlt =>
        absurd hle (by rw [hlt]; exact Bool.false_ne_true)
  · intro h
    refine (pairwise_sorted texts).imp_of_mem fun {a b} ha hb hle va hva vb hvb => ?_
    cases hlt : bytesLe a b with
    | false => exact h a ((hmem a).mp ha) b ((hmem b).mp hb) hlt va hva vb hvb
    | true =>
        obtain rfl := bytesLe_antisymm hlt hle
        rw [hva] at hvb
        rw [Option.some.inj hvb]
        exact notBefore_refl vb

-- ============================================================================
-- GET /recordings
-- ============================================================================

theorem listsNewestFirst_iff (texts : List Bytes) :
    ListsNewestFirst texts (marshalMetas (texts.mergeSort fun a b => bytesLe b a)) ↔
      AllJson texts ∧ TextOrder texts := by
  have hperm : (texts.mergeSort fun a b => bytesLe b a).Perm texts := List.mergeSort_perm _ _
  have hall : AllJson (texts.mergeSort fun a b => bytesLe b a) ↔ AllJson texts :=
    forall_congr' fun text => by rw [List.mem_mergeSort]
  constructor
  · rintro ⟨values, hdecode, -, hnewest⟩
    have hjson := allJson_of_decode (by rw [hdecode]; rfl)
    rw [decode_marshalMetas hjson] at hdecode
    obtain rfl := Json.arr.inj (Option.some.inj hdecode)
    exact ⟨hall.mp hjson, (pairwise_newest_iff texts).mp hnewest⟩
  · rintro ⟨hjson, horder⟩
    exact ⟨_, decode_marshalMetas (hall.mpr hjson), hperm.filterMap decode,
      (pairwise_newest_iff texts).mpr horder⟩

/-- For every content of the directory: the reply is the array of all meta objects from
    the newest to the oldest exactly when every meta.json is JSON, inside of an array
    too, and the order of the texts is that of their times. -/
theorem handleList_lists_iff (entries : List DirEntry) :
    (handleList (.ok entries)).1 = 200 ∧
      (ListsNewestFirst (metas entries) (handleList (.ok entries)).2 ↔
        AllJson (metas entries) ∧ TextOrder (metas entries)) :=
  ⟨rfl, listsNewestFirst_iff (metas entries)⟩

/-- The meta.json of a bundle, cut to two of its members. -/
def shortMeta (uuid started : String) : Bytes :=
  ascii "\x7b\"uuid\":\"" ++ ascii uuid ++ ascii "\",\"started\":\"" ++ ascii started
    ++ ascii "\"\x7d"

/-- Two calls; the one whose UUID comes last in the alphabet was first. -/
def twoBundles : List DirEntry :=
  [⟨ascii "f3", true, some (shortMeta "f3" "2025-08-13T14:23:11.456Z")⟩,
    ⟨ascii "a1", true, some (shortMeta "a1" "2025-08-13T15:00:00Z")⟩]

/-- A bundle whose meta.json is being written, with nothing in it yet. -/
def openBundle : List DirEntry := [⟨ascii "f3", true, some []⟩]

/-- Nothing is replied but the status while a meta.json is written, and the older of two
    calls can come first. -/
theorem handleList_omits :
    ¬ ListsNewestFirst (metas openBundle) (handleList (.ok openBundle)).2 ∧
      ¬ ListsNewestFirst (metas twoBundles) (handleList (.ok twoBundles)).2 := by
  have hopen : metas openBundle = [[]] := rfl
  constructor
  · intro hlists
    have hjson := ((listsNewestFirst_iff (metas openBundle)).mp hlists).1
    rw [hopen] at hjson
    have hsome := hjson [] List.mem_cons_self
    rw [parse_nil] at hsome
    exact Bool.false_ne_true hsome
  · intro hlists
    have horder := ((listsNewestFirst_iff (metas twoBundles)).mp hlists).2
    have hearlier : (decode (shortMeta "f3" "2025-08-13T14:23:11.456Z")).bind startedAt
        = some 1755094991456000000 := by decide +kernel
    have hlater : (decode (shortMeta "a1" "2025-08-13T15:00:00Z")).bind startedAt
        = some 1755097200000000000 := by decide +kernel
    obtain ⟨va, hva, hsa⟩ := Option.bind_eq_some_iff.mp hearlier
    obtain ⟨vb, hvb, hsb⟩ := Option.bind_eq_some_iff.mp hlater
    have hnot := horder _ (List.mem_cons_self) _ (List.mem_cons_of_mem _ List.mem_cons_self)
      (by decide +kernel) va hva vb hvb _ hsa _ hsb
    exact absurd hnot (by decide)

end FsBridge.Bridge
