/-
  FsBridge.Bridge.RecordingPaths

  Which directories the recorder makes, serves from and removes, for every uuid:
  the bundle of a name of dots alone is not below the recording root.
-/

import FsBridge.Bridge.Bundle

namespace FsBridge.Bridge

open FsBridge.Lib

/-- What carries a uuid to the recorder. -/
inductive BundleRequest where
  /-- A session with this `uuid` query value starts. -/
  | begin (fsUUID : Bytes) (id : SessionID)
  /-- `GET /recordings/{uuid}/{file}`. -/
  | file (uuid file : Bytes)
  /-- `DELETE /recordings/{uuid}`. -/
  | delete (uuid : Bytes)

/-- The directory that is made, served from or removed, as a place in the file
    system; `none` if the request is refused. -/
def BundleRequest.place (cwd : List Bytes) (r : Recorder) (disk : Disk) :
    BundleRequest → Option (List Bytes)
  | .begin fsUUID id => (r.mkdirBundle disk fsUUID id).map (Path.resolve cwd)
  | .file uuid f =>
      match r.handleFile disk uuid f with
      | .ok path => some (Path.resolve cwd path).dropLast
      | .error _ => none
  | .delete uuid =>
      match r.handleDelete disk uuid with
      | .ok dir => some (Path.resolve cwd dir)
      | .error _ => none

/-- The request stays below the recording root, or is refused. -/
def BundleRequest.StaysInside (cwd : List Bytes) (r : Recorder) (disk : Disk)
    (req : BundleRequest) : Prop :=
  ∀ dir ∈ req.place cwd r disk, Path.DirectChild (Path.resolve cwd r.dir) dir

-- ============================================================================
-- The condition
-- ============================================================================

/-- The only allowed bytes of the uuid are one dot, or two. -/
def DotsOnly (uuid : Bytes) : Prop :=
  (∀ c ∈ uuid, nameByte c → c = 46) ∧ (uuid.count 46 = 1 ∨ uuid.count 46 = 2)

/-- The uuid is dots, and nothing else about the request or the disk refuses it. -/
def BundleRequest.Escapes (r : Recorder) (disk : Disk) : BundleRequest → Prop
  | .begin fsUUID _ =>
      DotsOnly fsUUID ∧ disk.mkdirAll (Path.join [r.dir, sanitizeName fsUUID]) = true
  | .file uuid f =>
      DotsOnly uuid ∧ f ∈ bundleFiles ∧ containsDotDot (fileURLPath uuid f) = false ∧
        disk.openError (Path.join [r.dir, sanitizeName uuid, f]) = none
  | .delete uuid => DotsOnly uuid ∧ disk.stat (Path.join [r.dir, sanitizeName uuid]) = true

/-- A number of dots is what stays of a string with that number and no other
    allowed byte. -/
theorem sanitizeName_eq_dots (uuid : Bytes) (n : Nat) :
    sanitizeName uuid = List.replicate n 46 ↔
      (∀ c ∈ uuid, nameByte c → c = 46) ∧ uuid.count 46 = n := by
  have hcount : (sanitizeName uuid).count 46 = uuid.count 46 := by
    rw [sanitizeName_eq_filter, List.count_filter (by decide)]
  rw [List.eq_replicate_iff]
  constructor
  · rintro ⟨hlen, hdots⟩
    refine ⟨fun c hc hname => hdots c ?_, ?_⟩
    · rw [sanitizeName_eq_filter]
      exact List.mem_filter.mpr ⟨hc, hname⟩
    · rw [← hcount, ← hlen, List.count_eq_length]
      intro c hc
      exact (hdots c hc).symm
  · rintro ⟨hdots, hn⟩
    have hall : ∀ c ∈ sanitizeName uuid, c = 46 := by
      intro c hc
      rw [sanitizeName_eq_filter] at hc
      obtain ⟨hc, hname⟩ := List.mem_filter.mp hc
      exact hdots c hc hname
    refine ⟨?_, hall⟩
    rw [← hn, ← hcount]
    exact (List.count_eq_length.mpr fun c hc => (hall c hc).symm).symm

theorem dotsOnly_iff (uuid : Bytes) :
    DotsOnly uuid ↔ sanitizeName uuid = Path.dot ∨ sanitizeName uuid = Path.dotdot := by
  have hone : Path.dot = List.replicate 1 46 := by decide
  have htwo : Path.dotdot = List.replicate 2 46 := by decide
  rw [hone, htwo, sanitizeName_eq_dots, sanitizeName_eq_dots, DotsOnly, and_or_left]

-- ============================================================================
-- Below the root
-- ============================================================================

/-- The place of a bundle with a name from a uuid. -/
theorem resolve_bundle (cwd : List Bytes) (r : Recorder) (uuid : Bytes) :
    Path.resolve cwd (Path.join [r.dir, sanitizeName uuid])
      = Path.follow (Path.resolve cwd r.dir) (sanitizeName uuid) := by
  rw [Path.resolve_join cwd r.dir_ne]
  · rfl
  · intro e he
    rw [List.mem_singleton.mp he]
    exact slash_not_mem_sanitizeName uuid

/-- The place of one of its files. -/
theorem resolve_bundleFile (cwd : List Bytes) (r : Recorder) (uuid : Bytes) {file : Bytes}
    (hfile : file ∈ bundleFiles) :
    Path.resolve cwd (Path.join [r.dir, sanitizeName uuid, file])
      = Path.follow (Path.resolve cwd r.dir) (sanitizeName uuid) ++ [file] := by
  have hname : Path.Name file := by
    have hall : ∀ f ∈ bundleFiles, f ≠ [] ∧ f ≠ Path.dot ∧ f ≠ Path.dotdot ∧ Path.slash ∉ f := by
      decide
    obtain ⟨hne, hdot, hup, hslash⟩ := hall file hfile
    exact ⟨hne, hdot, hup, hslash⟩
  rw [Path.resolve_join cwd r.dir_ne]
  · exact Path.follow_name hname
  · intro e he
    rcases List.mem_pair.mp he with rfl | rfl
    · exact slash_not_mem_sanitizeName uuid
    · exact hname.no_slash

/-- The bundle of a name that is left of a uuid is below the root unless the
    name is dots. -/
theorem bundle_directChild_iff (root : List Bytes) {uuid : Bytes} (h : sanitizeName uuid ≠ []) :
    Path.DirectChild root (Path.follow root (sanitizeName uuid)) ↔ ¬ DotsOnly uuid := by
  rw [Path.follow_directChild_iff root h (slash_not_mem_sanitizeName uuid), dotsOnly_iff, not_or]

theorem sanitizeName_ne_nil_of_dotsOnly {uuid : Bytes} (h : DotsOnly uuid) :
    sanitizeName uuid ≠ [] := by
  rcases (dotsOnly_iff uuid).mp h with hdot | hup
  · rw [hdot]
    decide
  · rw [hup]
    decide

-- ============================================================================
-- The requests
-- ============================================================================

theorem begin_staysInside_iff (cwd : List Bytes) (r : Recorder) (disk : Disk) (fsUUID : Bytes)
    (id : SessionID) :
    (BundleRequest.begin fsUUID id).StaysInside cwd r disk ↔
      ¬ (BundleRequest.begin fsUUID id).Escapes r disk := by
  rw [BundleRequest.StaysInside, BundleRequest.place, Recorder.mkdirBundle,
    Recorder.bundleDir, BundleRequest.Escapes]
  by_cases hname : sanitizeName fsUUID = []
  · have hbundle : bundleName fsUUID id = ascii "session-" ++ id.id := if_pos hname
    have hdots : ¬ DotsOnly fsUUID := fun h => sanitizeName_ne_nil_of_dotsOnly h hname
    have hplace : Path.resolve cwd (Path.join [r.dir, bundleName fsUUID id])
        = Path.follow (Path.resolve cwd r.dir) (ascii "session-" ++ id.id) := by
      rw [hbundle, Path.resolve_join cwd r.dir_ne]
      · rfl
      · intro e he
        rw [List.mem_singleton.mp he]
        exact (sessionName id).no_slash
    refine iff_of_true ?_ fun h => hdots h.1
    intro dir hdir
    have hdir : dir = Path.follow (Path.resolve cwd r.dir) (ascii "session-" ++ id.id) := by
      rw [← hplace]
      split at hdir <;> simp_all
    rw [hdir, Path.follow_directChild_iff _ (sessionName id).ne_nil (sessionName id).no_slash]
    exact ⟨(sessionName id).ne_dot, (sessionName id).ne_dotdot⟩
  · have hbundle : bundleName fsUUID id = sanitizeName fsUUID := if_neg hname
    rw [hbundle]
    cases hmkdir : disk.mkdirAll (Path.join [r.dir, sanitizeName fsUUID]) with
    | false => simp
    | true =>
        simp only [if_true, Option.map_some, Option.mem_some_iff, forall_eq', and_true]
        rw [resolve_bundle, bundle_directChild_iff _ hname]

theorem file_staysInside_iff (cwd : List Bytes) (r : Recorder) (disk : Disk)
    (uuid file : Bytes) :
    (BundleRequest.file uuid file).StaysInside cwd r disk ↔
      ¬ (BundleRequest.file uuid file).Escapes r disk := by
  rw [BundleRequest.StaysInside, BundleRequest.place, Recorder.handleFile, BundleRequest.Escapes]
  by_cases hrefused : sanitizeName uuid = [] ∨ file ∉ bundleFiles
  · have hescapes : ¬ (DotsOnly uuid ∧ file ∈ bundleFiles) := by
      rintro ⟨hdots, hfile⟩
      rcases hrefused with hname | hno
      · exact sanitizeName_ne_nil_of_dotsOnly hdots hname
      · exact hno hfile
    simp only [if_pos hrefused]
    refine iff_of_true (by simp) fun h => hescapes ⟨h.1, h.2.1⟩
  · obtain ⟨hname, hfile⟩ := not_or.mp hrefused
    have hfile : file ∈ bundleFiles := by simpa using hfile
    simp only [if_neg hrefused, serveFile]
    cases hdots : containsDotDot (fileURLPath uuid file) with
    | true => simp
    | false =>
        cases hopen : disk.openError (Path.join [r.dir, sanitizeName uuid, file]) with
        | some status => simp
        | none =>
            have hplace := resolve_bundleFile cwd r uuid hfile
            simp [hplace, bundle_directChild_iff _ hname, hfile]

theorem delete_staysInside_iff (cwd : List Bytes) (r : Recorder) (disk : Disk) (uuid : Bytes) :
    (BundleRequest.delete uuid).StaysInside cwd r disk ↔
      ¬ (BundleRequest.delete uuid).Escapes r disk := by
  rw [BundleRequest.StaysInside, BundleRequest.place, Recorder.handleDelete,
    BundleRequest.Escapes]
  by_cases hname : sanitizeName uuid = []
  · have hdots : ¬ DotsOnly uuid := fun h => sanitizeName_ne_nil_of_dotsOnly h hname
    simp only [if_pos hname]
    exact iff_of_true (by simp) fun h => hdots h.1
  · simp only [if_neg hname]
    cases hstat : disk.stat (Path.join [r.dir, sanitizeName uuid]) with
    | false => simp
    | true => simp [resolve_bundle, bundle_directChild_iff _ hname]

/-- Whatever the uuid, wherever it comes from: the request stays below the
    recording root exactly when it is refused or its uuid is not dots alone. -/
theorem staysInside_iff_not_escapes (cwd : List Bytes) (r : Recorder) (disk : Disk)
    (req : BundleRequest) : req.StaysInside cwd r disk ↔ ¬ req.Escapes r disk := by
  cases req with
  | begin fsUUID id => exact begin_staysInside_iff cwd r disk fsUUID id
  | file uuid file => exact file_staysInside_iff cwd r disk uuid file
  | delete uuid => exact delete_staysInside_iff cwd r disk uuid

/-- Every directory is there, every file can be opened. -/
def fullDisk : Disk := ⟨fun _ => true, fun _ => true, fun _ => none⟩

/-- Deleting the recording of two dots removes the directory above the root. -/
theorem delete_dots_escapes :
    ∃ r : Recorder, r.dir = ascii "/srv/rec" ∧
      (BundleRequest.delete (ascii "..")).place [] r fullDisk = some [ascii "srv"] ∧
      ¬ (BundleRequest.delete (ascii "..")).StaysInside [] r fullDisk := by
  have hplace : (BundleRequest.delete (ascii "..")).place [] ⟨ascii "/srv/rec", by decide, true⟩ fullDisk
      = some [ascii "srv"] := by decide +kernel
  refine ⟨⟨ascii "/srv/rec", by decide, true⟩, rfl, hplace, fun h => ?_⟩
  have habove := (h _ hplace).not_above
  exact habove (by decide +kernel)

end FsBridge.Bridge
