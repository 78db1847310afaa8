/-
  FsBridge.Bridge.Bundle

  The directories of the recorder (bridge/recorder.go, bridge/recordings.go):
  the name of a session's bundle, and the paths that a session's start and the
  two requests for a bundle use.
-/

import FsBridge.Lib.Path
import FsBridge.Lib.Utf8

namespace FsBridge.Bridge

open FsBridge.Lib

/-- The runes `sanitizeName` keeps. -/
def nameByte (c : UInt8) : Bool :=
  97 ≤ c ∧ c ≤ 122 ∨ 65 ≤ c ∧ c ≤ 90 ∨ 48 ≤ c ∧ c ≤ 57 ∨ c = 45 ∨ c = 95 ∨ c = 46

/-- `sanitizeName`. -/
def sanitizeName (s : Bytes) : Bytes := mapRunes (keepBytes nameByte) s

/-- A digit of `hex.EncodeToString`. -/
def hexDigit (c : UInt8) : Bool := 48 ≤ c ∧ c ≤ 57 ∨ 97 ≤ c ∧ c ≤ 102

/-- A session id, as `newSessionID` makes it. -/
structure SessionID where
  id : Bytes
  isHex : ∀ c ∈ id, hexDigit c

/-- The name of a session's bundle: `uuid` of `Begin`. -/
def bundleName (fsUUID : Bytes) (id : SessionID) : Bytes :=
  let uuid := sanitizeName fsUUID
  if uuid = [] then ascii "session-" ++ id.id else uuid

/-- `Recorder`: `NewRecorder` refuses an empty `Dir`; `bus`: `Bus` is set. -/
structure Recorder where
  dir : Bytes
  dir_ne : dir ≠ []
  bus : Bool

/-- What the disk answers: whether `os.MkdirAll` succeeds, whether `os.Stat`
    does, and the status `http.ServeFile` replies with where it cannot open the
    file. -/
structure Disk where
  mkdirAll : Bytes → Bool
  stat : Bytes → Bool
  openError : Bytes → Option Nat

/-- `bundleFiles`. -/
def bundleFiles : List Bytes := [ascii "audio.wav", ascii "meta.json", ascii "events.jsonl"]

/-- The directory of a session's bundle. -/
def Recorder.bundleDir (r : Recorder) (fsUUID : Bytes) (id : SessionID) : Bytes :=
  Path.join [r.dir, bundleName fsUUID id]

/-- `Recorder.Begin` up to the files: the directory made, if it could be made. -/
def Recorder.mkdirBundle (r : Recorder) (disk : Disk) (fsUUID : Bytes) (id : SessionID) :
    Option Bytes :=
  let dir := r.bundleDir fsUUID id
  if disk.mkdirAll dir then some dir else none

/-- `containsDotDot` of net/http: some element between slashes or backslashes is
    two dots. -/
def containsDotDot (v : Bytes) : Bool :=
  (v.splitOnP fun c => c = 47 ∨ c = 92).contains Path.dotdot

/-- `r.URL.Path` of a request for a file, from its two decoded path values. -/
def fileURLPath (uuid file : Bytes) : Bytes := ascii "/recordings/" ++ uuid ++ ascii "/" ++ file

/-- `http.ServeFile`: the file served, or the error status. -/
def serveFile (disk : Disk) (urlPath name : Bytes) : Except Nat Bytes :=
  if containsDotDot urlPath then .error 400
  else
    match disk.openError name with
    | some status => .error status
    | none => .ok name

/-- `handleFile`: the file served, or the error status. -/
def Recorder.handleFile (r : Recorder) (disk : Disk) (uuidValue file : Bytes) : Except Nat Bytes :=
  let uuid := sanitizeName uuidValue
  if uuid = [] ∨ file ∉ bundleFiles then .error 404
  else serveFile disk (fileURLPath uuidValue file) (Path.join [r.dir, uuid, file])

/-- `handleDelete` up to `os.RemoveAll`: the directory it removes, or the error
    status. -/
def Recorder.handleDelete (r : Recorder) (disk : Disk) (uuidValue : Bytes) : Except Nat Bytes :=
  let uuid := sanitizeName uuidValue
  if uuid = [] then .error 404
  else
    let dir := Path.join [r.dir, uuid]
    if disk.stat dir then .ok dir else .error 404

-- ============================================================================
-- Names
-- ============================================================================

theorem nameByte_ascii (c : UInt8) (h : nameByte c) : c < 0x80 := by
  rw [nameByte, decide_eq_true_iff] at h
  simp only [UInt8.le_iff_toNat_le, ← UInt8.toNat_inj, UInt8.lt_iff_toNat_lt,
    UInt8.reduceToNat] at h ⊢
  omega

/-- The allowed bytes, in their order. -/
theorem sanitizeName_eq_filter (s : Bytes) : sanitizeName s = s.filter nameByte :=
  mapRunes_keep nameByte_ascii s

theorem slash_not_mem_sanitizeName (s : Bytes) : Path.slash ∉ sanitizeName s := by
  rw [sanitizeName_eq_filter, List.mem_filter]
  rintro ⟨-, h⟩
  exact absurd h (by decide)

/-- A session id makes a name of its own. -/
theorem sessionName (id : SessionID) : Path.Name (ascii "session-" ++ id.id) := by
  have hlen : 2 < (ascii "session-" ++ id.id).length := by
    rw [List.length_append]
    have hword : (ascii "session-").length = 8 := by decide
    omega
  refine ⟨?_, ?_, ?_, ?_⟩
  · intro h
    rw [h] at hlen
    exact absurd hlen (by decide)
  · intro h
    rw [h] at hlen
    exact absurd hlen (by decide)
  · intro h
    rw [h] at hlen
    exact absurd hlen (by decide)
  · intro h
    rcases List.mem_append.mp h with h | h
    · exact absurd h (by decide)
    · exact absurd (id.isHex _ h) (by decide)

end FsBridge.Bridge
