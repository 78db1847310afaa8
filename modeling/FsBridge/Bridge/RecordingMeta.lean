/-
  FsBridge.Bridge.RecordingMeta

  The meta.json of a recording: `json.MarshalIndent` of a `recordingMeta`, and what
  Finish leaves in the bundle, for every sequence of what the pumps of a session do.

  The module's text frame goes from `readPump` to the session, with the next audio
  frame to the recorder, and unread into a `json.RawMessage`.  `MarshalIndent` reads it
  twice: `Marshal` compacts it, and `Indent` reads all of the object, in which it is
  nested one level deeper.
-/

import FsBridge.Bridge.RecordingList
import FsBridge.Bridge.RecordingPaths
import FsBridge.Bridge.RecordingTracks

namespace FsBridge.Bridge

open FsBridge.Lib FsBridge.Lib.Fs FsBridge.Lib.JsonText
open JsonScan (maxNestingDepth)

-- ============================================================================
-- json.MarshalIndent
-- ============================================================================

/-- A `time.Time` as it is written between quotes: in RFC 3339. -/
structure Timestamp where
  text : Bytes
  plain : ∀ c ∈ text, Decimal.isDigit c ∨ c ∈ ascii "-:.+TZ"

/-- The members that are always there. -/
def RecordingMeta.members (m : RecordingMeta) (started ended : Timestamp) : List (Bytes × Tree) :=
  [(ascii "uuid", .str (quote m.uuid)),
    (ascii "session", .str (quote m.session)),
    (ascii "rate", .scalar (Decimal.print m.rate)),
    (ascii "mix", .str (quote m.mix)),
    (ascii "started", .str started.text),
    (ascii "ended", .str ended.text),
    (ascii "duration_ms", .scalar (Decimal.print m.durationMs)),
    (ascii "caller_bytes", .scalar (Decimal.print m.callerPCM)),
    (ascii "agent_bytes", .scalar (Decimal.print m.agentPCM))]

/-- What `json.Marshal` writes of a `recordingMeta`; a `json.RawMessage` without bytes
    is left out, any other is compacted. -/
def RecordingMeta.tree (started ended : Timestamp) (m : RecordingMeta) : Option Tree :=
  match m.metadata with
  | none | some [] => some (.obj (m.members started ended))
  | some raw =>
      (compacted raw).map fun t => .obj (m.members started ended ++ [(ascii "metadata", t)])

/-- `json.MarshalIndent(m, "", "  ")`. -/
def RecordingMeta.marshalIndent (started ended : Timestamp) (m : RecordingMeta) : Option Bytes :=
  (m.tree started ended).bind fun t => indent (compactText t)

/-- The metadata is absent, or JSON that is so as the value of a member too. -/
def RecordingMeta.Embeds (m : RecordingMeta) : Prop :=
  ∀ raw ∈ m.metadata, raw ≠ [] → (parse (maxNestingDepth - 1) raw).isSome = true

theorem Timestamp.isPlain (ts : Timestamp) : ts.text.all isPlain = true := by
  refine List.all_eq_true.mpr fun c hc => ?_
  rcases ts.plain c hc with hdigit | hmark
  · have hall : ∀ c : UInt8, Decimal.isDigit c = true → JsonText.isPlain c = true := by
      intro c hc
      rw [Decimal.isDigit, decide_eq_true_iff] at hc
      simp only [UInt8.le_iff_toNat_le, UInt8.reduceToNat] at hc
      simp only [JsonText.isPlain, Bool.and_eq_true, decide_eq_true_eq, ne_eq, ← UInt8.toNat_inj,
        UInt8.le_iff_toNat_le, UInt8.reduceToNat]
      omega
    exact hall c hdigit
  · have hall : (ascii "-:.+TZ").all JsonText.isPlain = true := by decide
    exact List.all_eq_true.mp hall c hmark

section Marshal

variable (started ended : Timestamp) (m : RecordingMeta)

theorem fits_members (depth : Nat) :
    ∀ member ∈ m.members started ended, IsBody member.1 ∧ Fits depth member.2 := by
  have hname : ∀ name : Bytes, name.all isPlain = true → IsBody name :=
    fun _ h => isBody_of_plain h
  have hstr : ∀ s, Fits depth (.str (quote s)) := fun s => fits_str.mpr (isBody_quote s)
  have htime : ∀ ts : Timestamp, Fits depth (.str ts.text) :=
    fun ts => fits_str.mpr (isBody_of_plain ts.isPlain)
  simp only [RecordingMeta.members, List.forall_mem_cons]
  exact ⟨⟨hname _ (by decide), hstr _⟩, ⟨hname _ (by decide), hstr _⟩,
    ⟨hname _ (by decide), fits_print depth _⟩, ⟨hname _ (by decide), hstr _⟩,
    ⟨hname _ (by decide), htime _⟩, ⟨hname _ (by decide), htime _⟩,
    ⟨hname _ (by decide), fits_print depth _⟩, ⟨hname _ (by decide), fits_print depth _⟩,
    ⟨hname _ (by decide), fits_print depth _⟩, by simp⟩

/-- The value of the members. -/
def RecordingMeta.fields : List (Bytes × Json) :=
  [(ascii "uuid", .str (mapRunes some m.uuid)),
    (ascii "session", .str (mapRunes some m.session)),
    (ascii "rate", .num (Decimal.print m.rate)),
    (ascii "mix", .str (mapRunes some m.mix)),
    (ascii "started", .str started.text),
    (ascii "ended", .str ended.text),
    (ascii "duration_ms", .num (Decimal.print m.durationMs)),
    (ascii "caller_bytes", .num (Decimal.print m.callerPCM)),
    (ascii "agent_bytes", .num (Decimal.print m.agentPCM))]

theorem membersToJson_members :
    Tree.membersToJson (m.members started ended) = m.fields started ended := by
  have hname : ∀ name : Bytes, name.all isPlain = true → unquote name = name :=
    fun _ h => unquote_plain h
  have hstr : ∀ s, (Tree.str (quote s)).toJson = .str (mapRunes some s) := by
    intro s
    rw [Tree.toJson, unquote_quote]
  have htime : ∀ ts : Timestamp, (Tree.str ts.text).toJson = .str ts.text := by
    intro ts
    rw [Tree.toJson, unquote_plain ts.isPlain]
  simp only [RecordingMeta.members, RecordingMeta.fields, Tree.membersToJson, toJson_print, hstr,
    htime]
  rw [hname (ascii "uuid") (by decide), hname (ascii "session") (by decide),
    hname (ascii "rate") (by decide), hname (ascii "mix") (by decide),
    hname (ascii "started") (by decide), hname (ascii "ended") (by decide),
    hname (ascii "duration_ms") (by decide), hname (ascii "caller_bytes") (by decide),
    hname (ascii "agent_bytes") (by decide)]

/-- What is written, if the metadata is JSON at all: the members, and the metadata. -/
theorem RecordingMeta.tree_cases {t : Tree} (h : m.tree started ended = some t) :
    (t = .obj (m.members started ended) ∧ ∀ raw ∈ m.metadata, raw = []) ∨
      ∃ raw v, m.metadata = some raw ∧ raw ≠ [] ∧ parse maxNestingDepth raw = some v ∧
        t = .obj (m.members started ended ++ [(ascii "metadata", v.mapBodies htmlEscape)]) := by
  rw [RecordingMeta.tree] at h
  split at h
  · rename_i hnone
    refine .inl ⟨(Option.some.inj h).symm, fun raw hraw => ?_⟩
    rw [hnone] at hraw
    cases hraw
  · rename_i hempty
    refine .inl ⟨(Option.some.inj h).symm, fun raw hraw => ?_⟩
    rw [hempty] at hraw
    exact (Option.some.inj hraw).symm
  · rename_i raw hne hraw
    obtain ⟨c, hc, rfl⟩ := Option.map_eq_some_iff.mp h
    obtain ⟨v, hv, rfl⟩ := Option.map_eq_some_iff.mp hc
    exact .inr ⟨raw, v, hraw, hne, hv, rfl⟩

theorem fits_obj_append_iff {depth : Nat} {a b : List (Bytes × Tree)}
    (ha : ∀ member ∈ a, IsBody member.1 ∧ Fits depth member.2) :
    Fits (depth + 1) (.obj (a ++ b)) ↔ ∀ member ∈ b, IsBody member.1 ∧ Fits depth member.2 := by
  rw [Fits, List.forall_mem_append]
  exact and_iff_right ha

/-- The object is written as it is, or with one level too many. -/
theorem RecordingMeta.tree_fits {t : Tree} (h : m.tree started ended = some t) :
    Fits (maxNestingDepth + 1) t ∧ (Fits maxNestingDepth t ↔ m.Embeds) := by
  obtain ⟨depth, hdepth⟩ : ∃ depth, maxNestingDepth = depth + 1 := ⟨9999, rfl⟩
  rw [RecordingMeta.Embeds]
  rcases m.tree_cases started ended h with ⟨rfl, hempty⟩ | ⟨raw, v, hraw, hne, hv, rfl⟩
  · have hfits : ∀ d, Fits (d + 1) (.obj (m.members started ended)) := fits_members started ended m
    refine ⟨hfits _, iff_of_true ?_ fun raw hraw hne => absurd (hempty raw hraw) hne⟩
    rw [hdepth]
    exact hfits depth
  · have hname : IsBody (ascii "metadata") := isBody_of_plain (by decide)
    have hmember : ∀ d, Fits (d + 1) (.obj (m.members started ended ++
        [(ascii "metadata", v.mapBodies htmlEscape)])) ↔ Fits d v := by
      intro d
      rw [fits_obj_append_iff (fits_members started ended m d), List.forall_mem_singleton,
        fits_mapBodies_iff (fun _ => isBody_htmlEscape) (fits_of_parse hv)]
      exact and_iff_right hname
    refine ⟨(hmember _).mpr (fits_of_parse hv), ?_⟩
    rw [hraw]
    simp only [Option.mem_some_iff, forall_eq']
    rw [parse_isSome_iff_fits hv, hdepth, hmember, Nat.add_sub_cancel]
    exact ⟨fun hfits _ => hfits, fun hfits => hfits hne⟩

/-- Metadata that is JSON inside of another value is so on its own. -/
theorem RecordingMeta.tree_isSome (h : m.Embeds) : ∃ t, m.tree started ended = some t := by
  rw [RecordingMeta.tree]
  split
  · exact ⟨_, rfl⟩
  · exact ⟨_, rfl⟩
  · rename_i raw hne hraw
    have hsome := h raw (by rw [hraw]; rfl) hne
    obtain ⟨v, hv⟩ := Option.isSome_iff_exists.mp hsome
    have hparse : parse maxNestingDepth raw = some v :=
      parse_of_fits hv ((fits_of_parse hv).mono (Nat.sub_le _ _))
    rw [compacted, hparse]
    exact ⟨_, rfl⟩

/-- `MarshalIndent` fails exactly on metadata that is no JSON, or is nested too deep. -/
theorem marshalIndent_isSome_iff : (m.marshalIndent started ended).isSome = true ↔ m.Embeds := by
  rw [RecordingMeta.marshalIndent]
  constructor
  · intro hsome
    obtain ⟨data, hdata⟩ := Option.isSome_iff_exists.mp hsome
    obtain ⟨t, ht, hindent⟩ := Option.bind_eq_some_iff.mp hdata
    obtain ⟨hdeep, hfits⟩ := m.tree_fits started ended ht
    exact hfits.mp ((indent_compactText_isSome_iff hdeep).mp (by rw [hindent]; rfl))
  · intro hembeds
    obtain ⟨t, ht⟩ := m.tree_isSome started ended hembeds
    obtain ⟨hdeep, hfits⟩ := m.tree_fits started ended ht
    rw [ht]
    exact (indent_compactText_isSome_iff hdeep).mpr (hfits.mpr hembeds)

/-- What it writes is read as the fields, and the metadata. -/
theorem decode_marshalIndent {data : Bytes} (h : m.marshalIndent started ended = some data) :
    ∃ rest, decode data = some (.obj (m.fields started ended ++ rest)) ∧
      (rest = [] ∨ ∃ v, rest = [(ascii "metadata", v)]) := by
  obtain ⟨t, ht, hindent⟩ := Option.bind_eq_some_iff.mp h
  obtain ⟨-, hfits⟩ := m.tree_fits started ended ht
  have hembeds : m.Embeds := (marshalIndent_isSome_iff started ended m).mp (by rw [h]; rfl)
  rw [indent_compactText (hfits.mpr hembeds)] at hindent
  obtain rfl := Option.some.inj hindent
  rw [decode_indentText (hfits.mpr hembeds)]
  rcases m.tree_cases started ended ht with ⟨rfl, -⟩ | ⟨raw, v, -, -, -, rfl⟩
  · refine ⟨[], ?_, .inl rfl⟩
    rw [Tree.toJson, membersToJson_members, List.append_nil]
  · refine ⟨[(ascii "metadata", (v.mapBodies htmlEscape).toJson)], ?_, .inr ⟨_, rfl⟩⟩
    rw [Tree.toJson, Tree.membersToJson_eq, List.map_append, ← Tree.membersToJson_eq,
      membersToJson_members, List.map_singleton]
    have hname : unquote (ascii "metadata") = ascii "metadata" := unquote_plain (by decide)
    rw [hname]

end Marshal

-- ============================================================================
-- What a meta.json says
-- ============================================================================

/-- The whole number that is the member of this name. -/
def intMember (members : List (Bytes × Json)) (name : Bytes) : Option Int :=
  match members.lookup name with
  | some (.num literal) => Decimal.parse literal
  | _ => none

/-- The uuid of a session; one without is named by its id. -/
def SessionInfo.uuid (s : SessionInfo) : Bytes :=
  if s.fsUUID = [] then ascii "session-" ++ s.id.id else s.fsUUID

/-- The members are those of a session with so many bytes of each side. -/
structure Describes (s : SessionInfo) (up down : Nat) (members : List (Bytes × Json)) : Prop where
  nodup : (members.map Prod.fst).Nodup
  uuid : strMember members (ascii "uuid") = some s.uuid
  session : strMember members (ascii "session") = some s.id.id
  rate : intMember members (ascii "rate") = some s.sampleRate
  mix : strMember members (ascii "mix") = some s.mixType
  callerBytes : intMember members (ascii "caller_bytes") = some up
  agentBytes : intMember members (ascii "agent_bytes") = some down
  durationMs : 0 < s.sampleRate →
    intMember members (ascii "duration_ms") = some ((up / 2 * 1000 : Nat) / s.sampleRate)

/-- The text is an object with such members. -/
def DescribesText (s : SessionInfo) (up down : Nat) (text : Bytes) : Prop :=
  ∃ members, decode text = some (.obj members) ∧ Describes s up down members

/-- The strings of the session are such that meta.json has them as they are: nothing of
    its uuid is dropped from the name of the bundle, and its mix type is UTF-8. -/
def SessionInfo.Verbatim (s : SessionInfo) : Prop :=
  (∀ c ∈ s.fsUUID, nameByte c = true) ∧ mapRunes some s.mixType = s.mixType

theorem nameByte_of_mem_bundleName (fsUUID : Bytes) (id : SessionID) :
    ∀ c ∈ bundleName fsUUID id, nameByte c = true := by
  intro c hc
  rw [bundleName] at hc
  split at hc
  · rcases List.mem_append.mp hc with hword | hid
    · have hall : (ascii "session-").all nameByte = true := by decide
      exact List.all_eq_true.mp hall c hword
    · have hhex := id.isHex c hid
      rw [hexDigit, decide_eq_true_iff] at hhex
      rw [nameByte, decide_eq_true_iff]
      rcases hhex with hdigit | hletter
      · exact .inr (.inr (.inl hdigit))
      · refine .inl ⟨hletter.1, ?_⟩
        rw [UInt8.le_iff_toNat_le] at hletter ⊢
        exact Nat.le_trans hletter.2 (by decide)
  · rw [sanitizeName_eq_filter] at hc
    exact (List.mem_filter.mp hc).2

theorem bundleName_eq_uuid_iff (s : SessionInfo) :
    bundleName s.fsUUID s.id = s.uuid ↔ ∀ c ∈ s.fsUUID, nameByte c = true := by
  constructor
  · intro heq
    have hall := nameByte_of_mem_bundleName s.fsUUID s.id
    rw [heq, SessionInfo.uuid] at hall
    split at hall
    · rename_i hnil
      rw [hnil]
      exact fun c hc => absurd hc (List.not_mem_nil)
    · exact hall
  · intro hall
    rw [bundleName, SessionInfo.uuid, sanitizeName_eq_filter, List.filter_eq_self.mpr hall]

/-- The meta of a session with so many bytes of each side. -/
def SessionInfo.recordingMeta (s : SessionInfo) (up down : Nat) (metadata : Option Bytes) :
    RecordingMeta where
  uuid := bundleName s.fsUUID s.id
  session := s.id.id
  rate := s.sampleRate
  mix := s.mixType
  durationMs := if s.sampleRate > 0 then (up / 2 * 1000 : Nat) / s.sampleRate else 0
  callerPCM := up
  agentPCM := down
  metadata := metadata

/-- The names of the fields that are always there. -/
def fieldNames : List Bytes :=
  [ascii "uuid", ascii "session", ascii "rate", ascii "mix", ascii "started", ascii "ended",
    ascii "duration_ms", ascii "caller_bytes", ascii "agent_bytes"]

theorem lookup_fields (m : RecordingMeta) (started ended : Timestamp)
    (rest : List (Bytes × Json)) :
    strMember (m.fields started ended ++ rest) (ascii "uuid") = some (mapRunes some m.uuid) ∧
      strMember (m.fields started ended ++ rest) (ascii "session")
        = some (mapRunes some m.session) ∧
      strMember (m.fields started ended ++ rest) (ascii "mix") = some (mapRunes some m.mix) ∧
      intMember (m.fields started ended ++ rest) (ascii "rate") = some m.rate ∧
      intMember (m.fields started ended ++ rest) (ascii "caller_bytes") = some m.callerPCM ∧
      intMember (m.fields started ended ++ rest) (ascii "agent_bytes") = some m.agentPCM ∧
      intMember (m.fields started ended ++ rest) (ascii "duration_ms") = some m.durationMs :=
  ⟨rfl, rfl, rfl, Decimal.parse_print _, Decimal.parse_print _, Decimal.parse_print _,
    Decimal.parse_print _⟩

/-- The members that `MarshalIndent` writes for a session are the session's exactly when
    its strings can be written so. -/
theorem describes_fields_iff (s : SessionInfo) (up down : Nat) (metadata : Option Bytes)
    (started ended : Timestamp) {rest : List (Bytes × Json)}
    (hrest : rest = [] ∨ ∃ v, rest = [(ascii "metadata", v)]) :
    Describes s up down ((s.recordingMeta up down metadata).fields started ended ++ rest) ↔
      s.Verbatim := by
  obtain ⟨huuid, hsession, hmix, hrate, hcaller, hagent, hduration⟩ :=
    lookup_fields (s.recordingMeta up down metadata) started ended rest
  have hname : mapRunes some (bundleName s.fsUUID s.id) = bundleName s.fsUUID s.id :=
    mapRunes_some_of_ascii fun c hc =>
      nameByte_ascii c (nameByte_of_mem_bundleName s.fsUUID s.id c hc)
  have hid : mapRunes some s.id.id = s.id.id := by
    refine mapRunes_some_of_ascii fun c hc => ?_
    have hhex := s.id.isHex c hc
    rw [hexDigit, decide_eq_true_iff] at hhex
    simp only [UInt8.le_iff_toNat_le, UInt8.lt_iff_toNat_lt, UInt8.reduceToNat] at hhex ⊢
    omega
  constructor
  · intro h
    refine ⟨(bundleName_eq_uuid_iff s).mp ?_, ?_⟩
    · exact hname.symm.trans (Option.some.inj (huuid.symm.trans h.uuid))
    · exact Option.some.inj (hmix.symm.trans h.mix)
  · rintro ⟨hplain, hutf8⟩
    refine ⟨?_, huuid.trans ?_, hsession.trans (congrArg some hid), hrate,
      hmix.trans (congrArg some hutf8), hcaller, hagent, fun hpos => hduration.trans ?_⟩
    · have hnames : (fieldNames ++ [ascii "metadata"]).Nodup := by decide
      rcases hrest with rfl | ⟨v, rfl⟩
      · exact hnames.sublist (List.sublist_append_left fieldNames [ascii "metadata"])
      · exact hnames
    · exact congrArg some (hname.trans ((bundleName_eq_uuid_iff s).mpr hplain))
    · exact congrArg some (if_pos hpos)

-- ============================================================================
-- The recorder's counters
-- ============================================================================

variable {B : Type}

/-- The metadata that Uplink keeps: the first that is not empty. -/
def keptMetadata : List (Frame B) → Option Bytes
  | [] => none
  | .up sMetadata _ :: rest => (sMetadata.filter (· ≠ [])).or (keptMetadata rest)
  | .down _ :: rest => keptMetadata rest

/-- The recording has had these frames: all but its open files follows from that. -/
def CallRecording.Has (cr : CallRecording) (frames : List (Frame B)) (cr' : CallRecording) : Prop :=
  cr' = { cr with
    callerFile := cr'.callerFile
    agentFile := cr'.agentFile
    callerBytes := cr.callerBytes + (frames.flatMap Frame.upBytes).length
    agentBytes := cr.agentBytes + (frames.flatMap Frame.downBytes).length
    metadata := cr.metadata.or (keptMetadata frames) }

theorem returns_frame (cr : CallRecording) (f : Frame B) :
    (cr.frame f).Returns fun cr' => cr.Has [f] cr' := by
  cases f with
  | up sMetadata pcm =>
      refine Prog.returns_bind _ fun callerFile => ?_
      simp [Prog.Returns, CallRecording.Has, keptMetadata, Frame.upBytes, Frame.downBytes]
  | down pcm =>
      refine Prog.returns_bind _ fun agentFile => ?_
      simp [Prog.Returns, CallRecording.Has, keptMetadata, Frame.upBytes, Frame.downBytes]

theorem keptMetadata_cons (f : Frame B) (rest : List (Frame B)) :
    keptMetadata (f :: rest) = (keptMetadata [f]).or (keptMetadata rest) := by
  cases f with
  | up sMetadata pcm => simp [keptMetadata]
  | down pcm => rfl

theorem returns_frames (cr : CallRecording) (frames : List (Frame B)) :
    (cr.frames frames).Returns fun cr' => cr.Has frames cr' := by
  induction frames generalizing cr with
  | nil => simp [CallRecording.frames, Prog.Returns, CallRecording.Has, keptMetadata]
  | cons f rest ih =>
      rw [CallRecording.frames]
      refine (returns_frame cr f).bind fun cr1 h1 => (ih cr1).mono fun cr2 h2 => ?_
      rw [CallRecording.Has] at h1 h2 ⊢
      rw [h2, h1, keptMetadata_cons f rest]
      simp [Nat.add_assoc, Option.or_assoc]

/-- What Begin returns, if it does not give up. -/
def SessionInfo.Begun (s : SessionInfo) (dir : Bytes) (o : Option CallRecording) : Prop :=
  ∀ cr ∈ o, ∃ caller agent, cr = s.callRecording dir caller agent

theorem returns_begin (r : Recorder) (s : SessionInfo) :
    (r.begin s : FsProg B _).Returns (s.Begun (r.bundleDir s.fsUUID s.id)) := by
  have hnone : (Prog.ret none : FsProg B (Option CallRecording)).Returns
      (s.Begun (r.bundleDir s.fsUUID s.id)) := by
    intro cr hcr
    cases hcr
  have hsome : ∀ caller agent, (Prog.ret (some (s.callRecording (r.bundleDir s.fsUUID s.id) caller
      agent)) : FsProg B (Option CallRecording)).Returns
        (s.Begun (r.bundleDir s.fsUUID s.id)) :=
    fun caller agent cr hcr => ⟨caller, agent, (Option.some.inj hcr).symm⟩
  rw [Recorder.begin]
  refine Prog.returns_bind _ fun made => ?_
  split
  · refine Prog.returns_bind _ fun caller => ?_
    cases caller with
    | none => exact hnone
    | some caller =>
        refine Prog.returns_bind _ fun agent => ?_
        cases agent with
        | none => exact hnone
        | some agent =>
            dsimp only
            split
            · exact Prog.returns_bind _ fun _ => hsome caller agent
            · exact hsome caller agent
  · exact hnone

/-- What `writeMeta` gives to `MarshalIndent`. -/
def CallRecording.recordingMeta (cr : CallRecording) : RecordingMeta :=
  ⟨cr.uuid, cr.sessionID, cr.rate, cr.mix, cr.durationMs, cr.callerBytes, cr.agentBytes,
    cr.metadata⟩

/-- The meta of a session with these frames. -/
def SessionInfo.metaOf (s : SessionInfo) (frames : List (Frame B)) : RecordingMeta :=
  s.recordingMeta (frames.flatMap Frame.upBytes).length (frames.flatMap Frame.downBytes).length
    (keptMetadata frames)

theorem recordingMeta_eq {s : SessionInfo} {dir : Bytes} {caller agent : Handle}
    {frames : List (Frame B)} {cr : CallRecording}
    (h : (s.callRecording dir caller agent).Has frames cr) :
    cr.recordingMeta = s.metaOf frames ∧ cr.dir = dir := by
  rw [CallRecording.Has] at h
  rw [h]
  simp [CallRecording.recordingMeta, CallRecording.durationMs, SessionInfo.metaOf,
    SessionInfo.recordingMeta, SessionInfo.callRecording]

-- ============================================================================
-- The places
-- ============================================================================

section Disk

variable [Octet B] {cwd : List Bytes} {fs : List Bytes → Slot B}

/-- Begin works on the directory and on three of its files. -/
theorem uses_begin_places (cwd : List Bytes) (r : Recorder) (s : SessionInfo) :
    (cells B cwd).Uses (fun q => q = Path.resolve cwd (r.bundleDir s.fsUUID s.id) ∨
      ∃ f ∈ [callerRaw, agentRaw, eventsJsonl],
        q = filePlace cwd (r.bundleDir s.fsUUID s.id) f) (r.begin s) := by
  have hfile : ∀ f ∈ [callerRaw, agentRaw, eventsJsonl],
      filePlace cwd (r.bundleDir s.fsUUID s.id) f
          = Path.resolve cwd (r.bundleDir s.fsUUID s.id) ∨
        ∃ f' ∈ [callerRaw, agentRaw, eventsJsonl], filePlace cwd (r.bundleDir s.fsUUID s.id) f
          = filePlace cwd (r.bundleDir s.fsUUID s.id) f' := fun f hf => .inr ⟨f, hf, rfl⟩
  refine uses_mkdirAll (.inl rfl) fun made => ?_
  cases made with
  | false => trivial
  | true =>
      refine uses_create (hfile callerRaw (by decide)) trivial fun callerGen => ?_
      refine uses_create (hfile agentRaw (by decide)) trivial fun agentGen => ?_
      dsimp only
      split
      · exact uses_create (hfile eventsJsonl (by decide)) trivial fun _ => trivial
      · trivial

/-- Frames work on the files that are open. -/
theorem uses_frames {K : List Bytes → Prop} {cr : CallRecording}
    (hcaller : K (Path.resolve cwd cr.callerFile.path))
    (hagent : K (Path.resolve cwd cr.agentFile.path)) (frames : List (Frame B)) :
    (cells B cwd).Uses K (cr.frames frames) := by
  induction frames generalizing cr with
  | nil => trivial
  | cons f rest ih =>
      cases f with
      | up sMetadata pcm => exact ⟨hcaller, fun _ => ih hcaller hagent⟩
      | down pcm => exact ⟨hagent, fun _ => ih hcaller hagent⟩

omit [Octet B] in
/-- A track is written where it is. -/
theorem Track.place {dir f : Bytes} {h : Handle} {bytes : List B}
    (ht : Track cwd fs dir f h bytes) : Path.resolve cwd h.path = filePlace cwd dir f := by
  obtain ⟨gen, rfl, -⟩ := ht
  rfl

/-- `writeMeta` replaces the file, or leaves it as it is. -/
theorem run_writeMeta (cr : CallRecording) (marshal : RecordingMeta → Option Bytes)
    (h : (fs (filePlace cwd cr.dir metaJson)).node ≠ some .dir) :
    (((cells B cwd).run (cr.writeMeta marshal) fs).2 (filePlace cwd cr.dir metaJson)).content
      = match marshal cr.recordingMeta with
        | some data => some (own data)
        | none => (fs (filePlace cwd cr.dir metaJson)).content := by
  unfold CallRecording.writeMeta
  rw [CallRecording.recordingMeta]
  cases marshal ⟨cr.uuid, cr.sessionID, cr.rate, cr.mix, cr.durationMs, cr.callerBytes,
    cr.agentBytes, cr.metadata⟩ with
  | none => rfl
  | some data =>
      obtain ⟨gen, slot, hcreate, hslot⟩ := run_create h
      have hempty : (Function.update fs (filePlace cwd cr.dir metaJson) slot
          (Path.resolve cwd (Path.join [cr.dir, metaJson]))).Holds gen [] := by
        rw [filePlace, Function.update_self]
        exact hslot
      obtain ⟨slot', hwrite, hslot'⟩ := Fs.run_write (own data) hempty
      have hwrite' : (cells B cwd).run (write ⟨Path.join [cr.dir, metaJson], gen, 0⟩ (own data))
          (Function.update fs (Path.resolve cwd (Path.join [cr.dir, metaJson])) slot)
          = (_, Function.update _ (filePlace cwd cr.dir metaJson) slot') := hwrite
      dsimp only
      rw [Cells.run_bind, hcreate]
      dsimp only
      rw [Cells.run_bind, hwrite']
      show Slot.content (Function.update (Function.update fs (filePlace cwd cr.dir metaJson) slot)
        (filePlace cwd cr.dir metaJson) slot' (filePlace cwd cr.dir metaJson)) = _
      rw [Function.update_self]
      exact hslot'.content

/-- What Finish does to the file once audio.wav is written. -/
theorem run_cleanup_meta {cr : CallRecording} (hdir : cr.dir ≠ [])
    (marshal : RecordingMeta → Option Bytes)
    (h : (fs (filePlace cwd cr.dir metaJson)).node ≠ some .dir) :
    (((cells B cwd).run (cr.cleanup marshal) fs).2 (filePlace cwd cr.dir metaJson)).content
      = match marshal cr.recordingMeta with
        | some data => some (own data)
        | none => (fs (filePlace cwd cr.dir metaJson)).content := by
  have hremove : ∀ f ∈ bundleEntries, f ≠ metaJson → ∀ fs' : List Bytes → Slot B,
      ((cells B cwd).exec (.remove (Path.join [cr.dir, f])) fs').2 (filePlace cwd cr.dir metaJson)
        = fs' (filePlace cwd cr.dir metaJson) :=
    fun f hf hne fs' => Cells.exec_frame _ fs' (filePlace_ne hdir (by decide) hf (Ne.symm hne))
  have hkept := (hremove agentRaw (by decide) (by decide) _).trans
    (hremove callerRaw (by decide) (by decide) fs)
  refine (run_writeMeta cr marshal (by rw [hkept]; exact h)).trans ?_
  rw [hkept]

/-- The meta.json of a session is what `MarshalIndent` makes of its meta, or what was
    there before. -/
theorem run_record_meta (cwd : List Bytes) {fs : List Bytes → Slot B} (r : Recorder)
    (s : SessionInfo) (marshal : RecordingMeta → Option Bytes) (frames : List (Frame B))
    (hclear : Clear cwd (r.bundleDir s.fsUUID s.id) fs) :
    (((cells B cwd).run (r.record s marshal frames) fs).2
        (Path.resolve cwd (r.bundleDir s.fsUUID s.id))).node = some .dir ∧
      (((cells B cwd).run (r.record s marshal frames) fs).2
          (filePlace cwd (r.bundleDir s.fsUUID s.id) metaJson)).content
        = match marshal (s.metaOf frames) with
          | some data => some (own data)
          | none => (fs (filePlace cwd (r.bundleDir s.fsUUID s.id) metaJson)).content := by
  have hdirNe := bundleDir_ne r s.fsUUID s.id
  obtain ⟨cr, fs1, hbegin, hrec, hdir, -⟩ := run_begin r s hclear
  obtain ⟨cr2, fs2, hframes, hrec2, hdir2, -⟩ := hrec.run_frames frames
  obtain ⟨fs3, hfinish, -, hmade⟩ := hrec2.run_finish marshal
  obtain ⟨gen, slot, hfinalize, -⟩ := hrec2.run_finalizeWAV
  -- what the recorder knows of the session
  obtain ⟨caller, agent, hcr⟩ : ∃ caller agent,
      cr = s.callRecording (r.bundleDir s.fsUUID s.id) caller agent := by
    have hbegun := (cells B cwd).run_returns (returns_begin r s) fs
    rw [hbegin] at hbegun
    exact hbegun cr rfl
  have hmeta : cr2.recordingMeta = s.metaOf frames ∧ cr2.dir = r.bundleDir s.fsUUID s.id := by
    have hhas := (cells B cwd).run_returns (returns_frames cr frames) fs1
    rw [hframes, hcr] at hhas
    exact recordingMeta_eq hhas
  -- nothing but `writeMeta` works on the file
  have hkept1 : fs1 (filePlace cwd cr2.dir metaJson) = fs (filePlace cwd cr2.dir metaJson) := by
    have hframe := (uses_begin_places (B := B) cwd r s).frame fs
      (q := filePlace cwd cr2.dir metaJson) (by
        rw [hmeta.2]
        rintro (heq | ⟨f, hf, heq⟩)
        · exact dirPlace_ne hdirNe (by decide) heq.symm
        · have hsub : ∀ f ∈ [callerRaw, agentRaw, eventsJsonl], f ∈ bundleEntries ∧ f ≠ metaJson := by
            decide
          exact filePlace_ne hdirNe (by decide) (hsub f hf).1 (Ne.symm (hsub f hf).2) heq)
    rw [hbegin] at hframe
    exact hframe
  have hkept2 : fs2 (filePlace cwd cr2.dir metaJson) = fs1 (filePlace cwd cr2.dir metaJson) := by
    have huses : (cells B cwd).Uses (fun q => ∃ f ∈ [callerRaw, agentRaw],
        q = filePlace cwd cr.dir f) (cr.frames frames) :=
      uses_frames ⟨callerRaw, by decide, hrec.caller.place⟩ ⟨agentRaw, by decide, hrec.agent.place⟩
        frames
    have hframe := huses.frame fs1 (q := filePlace cwd cr2.dir metaJson) (by
      rw [hdir2]
      rintro ⟨f, hf, heq⟩
      have hsub : ∀ f ∈ [callerRaw, agentRaw], f ∈ bundleEntries ∧ f ≠ metaJson := by decide
      exact filePlace_ne hrec.dir_ne (by decide) (hsub f hf).1 (Ne.symm (hsub f hf).2) heq)
    rw [hframes] at hframe
    exact hframe
  have hrun : (cells B cwd).run (r.record s marshal frames) fs = (some true, fs3) := by
    rw [Recorder.record, Cells.run_bind, hbegin]
    show (cells B cwd).run (cr.frames frames >>= _) fs1 = _
    rw [Cells.run_bind, hframes, Cells.run_bind, hfinish]
    rfl
  rw [hrun]
  refine ⟨by rw [← hmeta.2]; exact hmade, ?_⟩
  have hkept3 : Function.update fs2 (filePlace cwd cr2.dir audioWav) slot
      (filePlace cwd cr2.dir metaJson) = fs (filePlace cwd cr2.dir metaJson) := by
    rw [Function.update_of_ne (filePlace_ne hrec2.dir_ne (by decide) (by decide) (by decide)),
      hkept2,
      hkept1]
  have hfs3 : fs3 = ((cells B cwd).run (cr2.cleanup marshal)
      (Function.update fs2 (filePlace cwd cr2.dir audioWav) slot)).2 := by
    rw [CallRecording.finish, Cells.run_bind, hfinalize, Cells.run_bind] at hfinish
    exact (congrArg Prod.snd hfinish).symm
  have hfree : (Function.update fs2 (filePlace cwd cr2.dir audioWav) slot
      (filePlace cwd cr2.dir metaJson)).node ≠ some .dir := by
    rw [hkept3, hmeta.2]
    exact hclear.noDir metaJson (by decide)
  have hcleanup := run_cleanup_meta hrec2.dir_ne marshal hfree
  rw [← hfs3, hkept3, hmeta.1, hmeta.2] at hcleanup
  exact hcleanup

end Disk

-- ============================================================================
-- GET /recordings
-- ============================================================================

/-- What `os.ReadDir` returns of the recording directory, and `os.ReadFile` of the
    meta.json in each entry: every name that is there is listed. -/
structure Listing (cwd : List Bytes) (r : Recorder) (fs : List Bytes → Slot UInt8)
    (entries : List DirEntry) : Prop where
  complete : ∀ name, Path.Name name →
    (fs (Path.resolve cwd (Path.join [r.dir, name]))).node ≠ none → ∃ e ∈ entries, e.name = name
  isDir : ∀ e ∈ entries, e.isDir
    = decide ((fs (Path.resolve cwd (Path.join [r.dir, e.name]))).node = some .dir)
  metaFile : ∀ e ∈ entries, e.metaFile
    = (fs (Path.resolve cwd (Path.join [r.dir, e.name, metaJson]))).content

/-- The text of the bundle's meta.json is in the reply, wherever the other ones are JSON. -/
def Listed (cwd : List Bytes) (r : Recorder) (dir : Bytes) (fs : List Bytes → Slot UInt8)
    (text : Bytes) : Prop :=
  ∃ name, Path.Name name ∧
    Path.resolve cwd (Path.join [r.dir, name]) = Path.resolve cwd dir ∧
    ∀ entries, Listing cwd r fs entries →
      (∀ other ∈ metas entries, (compacted other).isSome = true) →
      ∃ t ts, compacted text = some t ∧ t ∈ ts ∧
        (handleList (.ok entries)).2 = compactText (.arr ts)

/-- What is there after Finish can be used: meta.json is JSON and says what the session
    was, and the list has it. -/
def UsableMeta (cwd : List Bytes) (r : Recorder) (s : SessionInfo) (up down : Nat)
    (fs : List Bytes → Slot UInt8) : Prop :=
  ∃ text, (fs (filePlace cwd (r.bundleDir s.fsUUID s.id) metaJson)).content = some text ∧
    DescribesText s up down text ∧ Listed cwd r (r.bundleDir s.fsUUID s.id) fs text

/-- The bundle of a session is a directory below the root unless its uuid is dots. -/
theorem bundle_name_iff (cwd : List Bytes) (r : Recorder) (s : SessionInfo) :
    (∃ name, Path.Name name ∧ Path.resolve cwd (Path.join [r.dir, name])
        = Path.resolve cwd (r.bundleDir s.fsUUID s.id)) ↔ ¬ DotsOnly s.fsUUID := by
  have hplace : ∀ name, Path.slash ∉ name → Path.resolve cwd (Path.join [r.dir, name])
      = Path.follow (Path.resolve cwd r.dir) name := by
    intro name hslash
    rw [Path.resolve_join cwd r.dir_ne]
    · rfl
    · intro e he
      rw [List.mem_singleton.mp he]
      exact hslash
  rw [Recorder.bundleDir]
  by_cases hname : sanitizeName s.fsUUID = []
  · refine iff_of_true ⟨bundleName s.fsUUID s.id, ?_, rfl⟩
      fun h => sanitizeName_ne_nil_of_dotsOnly h hname
    rw [bundleName, if_pos hname]
    exact sessionName s.id
  · have hbundle : bundleName s.fsUUID s.id = sanitizeName s.fsUUID := if_neg hname
    rw [hbundle, hplace _ (slash_not_mem_sanitizeName s.fsUUID)]
    have hchild := bundle_directChild_iff (Path.resolve cwd r.dir) hname
    constructor
    · rintro ⟨name, hnm, heq⟩ hdots
      refine hchild.mp ?_ hdots
      rw [← heq, hplace _ hnm.no_slash]
      exact (Path.follow_directChild_iff _ hnm.ne_nil hnm.no_slash).mpr
        ⟨hnm.ne_dot, hnm.ne_dotdot⟩
    · intro hdots
      have hne : sanitizeName s.fsUUID ≠ Path.dot ∧ sanitizeName s.fsUUID ≠ Path.dotdot :=
        not_or.mp fun h => hdots ((dotsOnly_iff s.fsUUID).mpr h)
      exact ⟨sanitizeName s.fsUUID, ⟨hname, hne.1, hne.2, slash_not_mem_sanitizeName s.fsUUID⟩,
        hplace _ (slash_not_mem_sanitizeName s.fsUUID)⟩

/-- Where the list reads a bundle's meta.json. -/
theorem resolve_metaJson (cwd : List Bytes) (r : Recorder) {name dir : Bytes}
    (hname : Path.Name name) (hdir : dir ≠ [])
    (h : Path.resolve cwd (Path.join [r.dir, name]) = Path.resolve cwd dir) :
    Path.resolve cwd (Path.join [r.dir, name, metaJson]) = filePlace cwd dir metaJson := by
  have hmeta : Path.Name metaJson := name_of_mem_bundleEntries (by decide)
  rw [filePlace_eq hdir (by decide), ← h, Path.resolve_join cwd r.dir_ne,
    Path.resolve_join cwd r.dir_ne]
  · exact Path.follow_name hmeta
  · intro e he
    rw [List.mem_singleton.mp he]
    exact hname.no_slash
  · intro e he
    rcases List.mem_pair.mp he with rfl | rfl
    · exact hname.no_slash
    · exact hmeta.no_slash

/-- A bundle below the root is in the list. -/
theorem listed_iff {cwd : List Bytes} {r : Recorder} {s : SessionInfo}
    {fs : List Bytes → Slot UInt8} {text : Bytes}
    (hmade : (fs (Path.resolve cwd (r.bundleDir s.fsUUID s.id))).node = some .dir)
    (htext : (fs (filePlace cwd (r.bundleDir s.fsUUID s.id) metaJson)).content = some text) :
    Listed cwd r (r.bundleDir s.fsUUID s.id) fs text ↔ ¬ DotsOnly s.fsUUID := by
  rw [← bundle_name_iff cwd r s]
  constructor
  · rintro ⟨name, hname, heq, -⟩
    exact ⟨name, hname, heq⟩
  · rintro ⟨name, hname, heq⟩
    refine ⟨name, hname, heq, fun entries hlisting hall => ?_⟩
    obtain ⟨e, he, rfl⟩ := hlisting.complete name hname (by rw [heq, hmade]; simp)
    have hmem : text ∈ metas entries := by
      refine List.mem_filterMap.mpr ⟨e, he, ?_⟩
      rw [hlisting.isDir e he, hlisting.metaFile e he, heq, hmade, decide_eq_true rfl, if_pos rfl,
        resolve_metaJson cwd r hname (bundleDir_ne r s.fsUUID s.id) heq, htext]
    obtain ⟨t, ht⟩ := Option.isSome_iff_exists.mp (hall text hmem)
    have hsorted : ∀ other ∈ ((metas entries).mergeSort fun a b => bytesLe b a),
        (compacted other).isSome = true := fun other hother => hall other (List.mem_mergeSort.mp hother)
    refine ⟨t, ((metas entries).mergeSort fun a b => bytesLe b a).filterMap compacted, ht,
      List.mem_filterMap.mpr ⟨text, List.mem_mergeSort.mpr hmem, ht⟩, ?_⟩
    rw [handleList, marshalMetas, mapM_of_isSome hsorted]

-- ============================================================================
-- The pumps of a session
-- ============================================================================

/-- What the pumps do, up to Finish. -/
inductive PumpStep where
  /-- `readPump` reads a text frame. -/
  | text (data : Bytes)
  /-- `readPump` reads an audio frame. -/
  | audio (pcm : Bytes)
  /-- `writePump` writes an audio frame. -/
  | sent (pcm : Bytes)
deriving DecidableEq, Repr

/-- The calls of Uplink and Downlink, from a time on when the session has this metadata. -/
def framesFrom (sMetadata : Option Bytes) : List PumpStep → List (Frame UInt8)
  | [] => []
  | .text data :: rest => framesFrom (some data) rest
  | .audio pcm :: rest => .up sMetadata pcm :: framesFrom sMetadata rest
  | .sent pcm :: rest => .down pcm :: framesFrom sMetadata rest

/-- The bytes that Uplink and Downlink are given. -/
def uplinked : List PumpStep → Nat
  | [] => 0
  | .audio pcm :: rest => pcm.length + uplinked rest
  | .text _ :: rest | .sent _ :: rest => uplinked rest

def downlinked : List PumpStep → Nat
  | [] => 0
  | .sent pcm :: rest => pcm.length + downlinked rest
  | .text _ :: rest | .audio _ :: rest => downlinked rest

theorem length_framesFrom (sMetadata : Option Bytes) (history : List PumpStep) :
    ((framesFrom sMetadata history).flatMap Frame.upBytes).length = uplinked history ∧
      ((framesFrom sMetadata history).flatMap Frame.downBytes).length = downlinked history := by
  induction history generalizing sMetadata with
  | nil => exact ⟨rfl, rfl⟩
  | cons a rest ih =>
      cases a with
      | text data => exact ih (some data)
      | audio pcm =>
          obtain ⟨hup, hdown⟩ := ih sMetadata
          rw [framesFrom, List.flatMap_cons, List.flatMap_cons, List.length_append, hup, uplinked,
            downlinked]
          exact ⟨rfl, hdown⟩
      | sent pcm =>
          obtain ⟨hup, hdown⟩ := ih sMetadata
          rw [framesFrom, List.flatMap_cons, List.flatMap_cons, List.length_append,
            List.length_append,
            hdown, uplinked, downlinked]
          exact ⟨by rw [← hup]; exact Nat.zero_add _, rfl⟩

/-- The session, recorded. -/
def Recorder.recordHistory (r : Recorder) (s : SessionInfo) (started ended : Timestamp)
    (history : List PumpStep) : FsProg UInt8 (Option Bool) :=
  r.record s (RecordingMeta.marshalIndent started ended) (framesFrom none history)

/-- The text frame that the session has at the first audio frame that finds one is JSON,
    as the value of a member too. -/
def MetadataJson (history : List PumpStep) : Prop :=
  ∀ raw ∈ keptMetadata (framesFrom none history), raw ≠ [] →
    (parse (maxNestingDepth - 1) raw).isSome = true

section Finish

variable {cwd : List Bytes} {fs : List Bytes → Slot UInt8} {r : Recorder} {s : SessionInfo}
  {started ended : Timestamp} {history : List PumpStep}

theorem metaOf_framesFrom : s.metaOf (framesFrom none history)
    = s.recordingMeta (uplinked history) (downlinked history)
      (keptMetadata (framesFrom none history)) := by
  obtain ⟨hup, hdown⟩ := length_framesFrom none history
  rw [SessionInfo.metaOf, hup, hdown]

/-- A meta.json that Finish writes says what the session was. -/
theorem describesText_iff {data : Bytes} (h : RecordingMeta.marshalIndent started ended
      (s.recordingMeta (uplinked history) (downlinked history)
        (keptMetadata (framesFrom none history))) = some data) :
    DescribesText s (uplinked history) (downlinked history) data ↔ s.Verbatim := by
  obtain ⟨rest, hdecode, hrest⟩ := decode_marshalIndent started ended _ h
  rw [← describes_fields_iff s (uplinked history) (downlinked history)
    (keptMetadata (framesFrom none history)) started ended hrest]
  constructor
  · rintro ⟨members, hmembers, hdescribes⟩
    rw [hdecode] at hmembers
    rwa [Json.obj.inj (Option.some.inj hmembers)]
  · exact fun hdescribes => ⟨_, hdecode, hdescribes⟩

/-- The meta.json after Finish, as the text it holds. -/
theorem content_recordHistory (started ended : Timestamp) (history : List PumpStep)
    (hclear : Clear cwd (r.bundleDir s.fsUUID s.id) fs) :
    (((cells UInt8 cwd).run (r.recordHistory s started ended history) fs).2
        (filePlace cwd (r.bundleDir s.fsUUID s.id) metaJson)).content
      = match RecordingMeta.marshalIndent started ended (s.recordingMeta (uplinked history)
          (downlinked history) (keptMetadata (framesFrom none history))) with
        | some data => some data
        | none => (fs (filePlace cwd (r.bundleDir s.fsUUID s.id) metaJson)).content := by
  have hcontent := (run_record_meta cwd r s (RecordingMeta.marshalIndent started ended)
    (framesFrom none history) hclear).2
  rw [metaOf_framesFrom] at hcontent
  rw [Recorder.recordHistory, hcontent]
  split
  · exact congrArg some (List.map_id _)
  · rfl

/-- For every history, on every disk where the operations succeed: what Finish leaves can
    be used exactly when the metadata is JSON and the strings of the session can be
    written as they are, and its uuid is not dots; or nothing is written, and the bundle's
    old meta.json says the same. -/
theorem recordHistory_usableMeta_iff (started ended : Timestamp) (history : List PumpStep)
    (hclear : Clear cwd (r.bundleDir s.fsUUID s.id) fs) :
    UsableMeta cwd r s (uplinked history) (downlinked history)
        ((cells UInt8 cwd).run (r.recordHistory s started ended history) fs).2 ↔
      ¬ DotsOnly s.fsUUID ∧
        (MetadataJson history ∧ s.Verbatim ∨
          ¬ MetadataJson history ∧
            ∃ old, (fs (filePlace cwd (r.bundleDir s.fsUUID s.id) metaJson)).content = some old ∧
              DescribesText s (uplinked history) (downlinked history) old) := by
  have hmade : (((cells UInt8 cwd).run (r.recordHistory s started ended history) fs).2
      (Path.resolve cwd (r.bundleDir s.fsUUID s.id))).node = some .dir :=
    (run_record_meta cwd r s _ (framesFrom none history) hclear).1
  have hcontent := content_recordHistory started ended history hclear
  have hembeds : MetadataJson history ↔ (RecordingMeta.marshalIndent started ended (s.recordingMeta
      (uplinked history) (downlinked history)
        (keptMetadata (framesFrom none history)))).isSome = true :=
    (marshalIndent_isSome_iff started ended (s.recordingMeta (uplinked history)
      (downlinked history) (keptMetadata (framesFrom none history)))).symm
  rw [UsableMeta]
  cases hmarshal : RecordingMeta.marshalIndent started ended (s.recordingMeta (uplinked history)
      (downlinked history) (keptMetadata (framesFrom none history))) with
  | none =>
      rw [hmarshal] at hcontent hembeds
      have hno : ¬ MetadataJson history := fun h => Bool.false_ne_true (hembeds.mp h)
      constructor
      · rintro ⟨text, htext, hdescribes, hlisted⟩
        exact ⟨(listed_iff hmade htext).mp hlisted,
          .inr ⟨hno, text, hcontent.symm.trans htext, hdescribes⟩⟩
      · rintro ⟨hdots, ⟨hjson, -⟩ | ⟨-, old, hold, hdescribes⟩⟩
        · exact absurd hjson hno
        · have htext := hcontent.trans hold
          exact ⟨old, htext, hdescribes, (listed_iff hmade htext).mpr hdots⟩
  | some data =>
      rw [hmarshal] at hcontent hembeds
      have hjson : MetadataJson history := hembeds.mpr rfl
      have hdescribes := describesText_iff (s := s) hmarshal
      constructor
      · rintro ⟨text, htext, htells, hlisted⟩
        obtain rfl := Option.some.inj (hcontent.symm.trans htext)
        exact ⟨(listed_iff hmade htext).mp hlisted, .inl ⟨hjson, hdescribes.mp htells⟩⟩
      · rintro ⟨hdots, ⟨-, hverbatim⟩ | ⟨hno, -⟩⟩
        · exact ⟨data, hcontent, hdescribes.mpr hverbatim, (listed_iff hmade hcontent).mpr hdots⟩
        · exact absurd hjson hno

end Finish

/-- A moment. -/
def noon : Timestamp where
  text := ascii "2025-08-13T12:00:00Z"
  plain := by
    have hall : (ascii "2025-08-13T12:00:00Z").all
        (fun c => Decimal.isDigit c ∨ c ∈ ascii "-:.+TZ") = true := by decide
    exact fun c hc => of_decide_eq_true (List.all_eq_true.mp hall c hc)

/-- Metadata, and a sample of each side. -/
def withMetadata (metadata : String) : List PumpStep :=
  [.text (ascii metadata), .audio [1, 2], .sent [3, 4]]

theorem recordHistory_usableMeta_iff_json :
    UsableMeta [] spoolRecorder plainSession (uplinked (withMetadata "\x7b\"id\":42\x7d"))
        (downlinked (withMetadata "\x7b\"id\":42\x7d"))
        ((cells UInt8 []).run (spoolRecorder.recordHistory plainSession noon noon
          (withMetadata "\x7b\"id\":42\x7d")) emptyFs).2 ↔
      ¬ DotsOnly plainSession.fsUUID ∧
        (MetadataJson (withMetadata "\x7b\"id\":42\x7d") ∧ plainSession.Verbatim ∨
          ¬ MetadataJson (withMetadata "\x7b\"id\":42\x7d") ∧
            ∃ old, ((emptyFs : List Bytes → Slot UInt8) (filePlace []
              (spoolRecorder.bundleDir plainSession.fsUUID plainSession.id) metaJson)).content
                = some old ∧
              DescribesText plainSession (uplinked (withMetadata "\x7b\"id\":42\x7d"))
                (downlinked (withMetadata "\x7b\"id\":42\x7d")) old) :=
  recordHistory_usableMeta_iff noon noon (withMetadata "\x7b\"id\":42\x7d") (clear_emptyFs _)

/-- A module that sends `hi`, which is no JSON: Finish leaves no meta.json. -/
theorem text_leaves_no_meta :
    ((((cells UInt8 []).run (spoolRecorder.recordHistory plainSession noon noon
        (withMetadata "hi")) emptyFs).2
      (filePlace [] (spoolRecorder.bundleDir plainSession.fsUUID plainSession.id)
        metaJson)).content = none) ∧
      ¬ UsableMeta [] spoolRecorder plainSession (uplinked (withMetadata "hi"))
        (downlinked (withMetadata "hi"))
        ((cells UInt8 []).run (spoolRecorder.recordHistory plainSession noon noon
          (withMetadata "hi")) emptyFs).2 := by
  have hclear : Clear [] (spoolRecorder.bundleDir plainSession.fsUUID plainSession.id)
      (emptyFs : List Bytes → Slot UInt8) := clear_emptyFs _
  have hcontent := content_recordHistory noon noon (withMetadata "hi") hclear
  have hno : RecordingMeta.marshalIndent noon noon (plainSession.recordingMeta
      (uplinked (withMetadata "hi")) (downlinked (withMetadata "hi"))
      (keptMetadata (framesFrom none (withMetadata "hi")))) = none := by
    refine Option.not_isSome_iff_eq_none.mp fun hsome => ?_
    have hembeds := (marshalIndent_isSome_iff noon noon _).mp hsome
    have hparse := hembeds (ascii "hi") rfl (by decide)
    exact absurd hparse (by decide +kernel)
  rw [hno] at hcontent
  refine ⟨hcontent, ?_⟩
  rintro ⟨text, htext, -⟩
  have hnone : none = some text := hcontent.symm.trans htext
  cases hnone

end FsBridge.Bridge
