/-
  FsBridge.Bridge.RecordingContent

  What a session leaves in its audio.wav: one lemma for each of Begin, Uplink,
  Downlink and Finish, over the state of the disk between them (`Recording`), and
  from them the content of the file for every sequence of frames.
-/

import FsBridge.Bridge.RecordingAudio

namespace FsBridge.Bridge

open FsBridge.Lib FsBridge.Lib.Fs

variable {B : Type} [Octet B]

-- ============================================================================
-- The places of a bundle
-- ============================================================================

/-- The files of a bundle. -/
def bundleEntries : List Bytes := [callerRaw, agentRaw, audioWav, metaJson, eventsJsonl]

/-- Where a file of a bundle is. -/
def filePlace (cwd : List Bytes) (dir f : Bytes) : List Bytes :=
  Path.resolve cwd (Path.join [dir, f])

theorem name_of_mem_bundleEntries {f : Bytes} (h : f ∈ bundleEntries) : Path.Name f := by
  have hall : ∀ f ∈ bundleEntries, f ≠ [] ∧ f ≠ Path.dot ∧ f ≠ Path.dotdot ∧ Path.slash ∉ f := by
    decide
  obtain ⟨hne, hdot, hup, hslash⟩ := hall f h
  exact ⟨hne, hdot, hup, hslash⟩

theorem filePlace_eq {cwd : List Bytes} {dir f : Bytes} (hdir : dir ≠ [])
    (hf : f ∈ bundleEntries) : filePlace cwd dir f = Path.resolve cwd dir ++ [f] := by
  have hname := name_of_mem_bundleEntries hf
  rw [filePlace, Path.resolve_join cwd hdir]
  · exact Path.follow_name hname
  · intro e he
    rw [List.mem_singleton.mp he]
    exact hname.no_slash

theorem filePlace_ne {cwd : List Bytes} {dir f g : Bytes} (hdir : dir ≠ [])
    (hf : f ∈ bundleEntries) (hg : g ∈ bundleEntries) (hne : f ≠ g) :
    filePlace cwd dir f ≠ filePlace cwd dir g := by
  rw [filePlace_eq hdir hf, filePlace_eq hdir hg]
  intro h
  exact hne (by simpa using h)

theorem dirPlace_ne {cwd : List Bytes} {dir f : Bytes} (hdir : dir ≠ [])
    (hf : f ∈ bundleEntries) : Path.resolve cwd dir ≠ filePlace cwd dir f := by
  rw [filePlace_eq hdir hf]
  intro h
  exact absurd (congrArg List.length h) (by simp)

theorem bundleDir_ne (r : Recorder) (fsUUID : Bytes) (id : SessionID) :
    r.bundleDir fsUUID id ≠ [] := by
  rw [Recorder.bundleDir, Path.join, if_neg r.dir_ne]
  exact Path.clean_ne_nil _

-- ============================================================================
-- The disk between the calls
-- ============================================================================

/-- Nothing is in the way of a bundle in this directory: every operation of its
    recording succeeds. -/
structure Clear (cwd : List Bytes) (dir : Bytes) (fs : List Bytes → Slot B) : Prop where
  noFile : ∀ gen, (fs (Path.resolve cwd dir)).node ≠ some (.file gen)
  noDir : ∀ f ∈ bundleEntries, (fs (filePlace cwd dir f)).node ≠ some .dir

instance (cwd : List Bytes) (dir : Bytes) (fs : List Bytes → Slot B) :
    Decidable (Clear cwd dir fs) :=
  decidable_of_iff ((∀ gen, (fs (Path.resolve cwd dir)).node ≠ some (.file gen)) ∧
      ∀ f ∈ bundleEntries, (fs (filePlace cwd dir f)).node ≠ some .dir)
    ⟨fun h => ⟨h.1, h.2⟩, fun h => ⟨h.noFile, h.noDir⟩⟩

/-- The open file is the one of that name, and has been written to its end. -/
def Track (cwd : List Bytes) (fs : List Bytes → Slot B) (dir f : Bytes) (h : Handle)
    (bytes : List B) : Prop :=
  ∃ gen, h = ⟨Path.join [dir, f], gen, bytes.length⟩ ∧ (fs (filePlace cwd dir f)).Holds gen bytes

/-- The disk while a session is recorded that has had these bytes. -/
structure Recording (cwd : List Bytes) (fs : List Bytes → Slot B) (cr : CallRecording)
    (up down : List B) : Prop where
  dir_ne : cr.dir ≠ []
  callerBytes : cr.callerBytes = up.length
  caller : Track cwd fs cr.dir callerRaw cr.callerFile up
  agent : Track cwd fs cr.dir agentRaw cr.agentFile down
  wav : (fs (filePlace cwd cr.dir audioWav)).node ≠ some .dir
  made : (fs (Path.resolve cwd cr.dir)).node = some .dir

section

variable {cwd : List Bytes} {fs : List Bytes → Slot B}

omit [Octet B] in
theorem Track.of_eq {fs' : List Bytes → Slot B} {dir f : Bytes} {h : Handle} {bytes : List B}
    (ht : Track cwd fs dir f h bytes)
    (heq : fs' (filePlace cwd dir f) = fs (filePlace cwd dir f)) :
    Track cwd fs' dir f h bytes := by
  obtain ⟨gen, hh, hslot⟩ := ht
  exact ⟨gen, hh, by rw [heq]; exact hslot⟩

/-- A write extends the track and changes one place. -/
theorem Track.run_write {dir f : Bytes} {h : Handle} {bytes : List B}
    (ht : Track cwd fs dir f h bytes) (pcm : List B) :
    ∃ h' slot, (cells B cwd).run (write h pcm) fs
        = (h', Function.update fs (filePlace cwd dir f) slot) ∧
      Track cwd (Function.update fs (filePlace cwd dir f) slot) dir f h' (bytes ++ pcm) := by
  obtain ⟨gen, rfl, hslot⟩ := ht
  obtain ⟨slot, hrun, hslot'⟩ := Fs.run_write pcm hslot
  refine ⟨_, slot, hrun, gen, rfl, ?_⟩
  rw [Function.update_self]
  exact hslot'

omit [Octet B] in
/-- The disk has the same there. -/
theorem Recording.of_eq {fs' : List Bytes → Slot B} {cr : CallRecording} {up down : List B}
    (h : Recording cwd fs cr up down)
    (hfiles : ∀ f ∈ [callerRaw, agentRaw, audioWav],
      fs' (filePlace cwd cr.dir f) = fs (filePlace cwd cr.dir f))
    (hdir : fs' (Path.resolve cwd cr.dir) = fs (Path.resolve cwd cr.dir)) :
    Recording cwd fs' cr up down where
  dir_ne := h.dir_ne
  callerBytes := h.callerBytes
  caller := h.caller.of_eq (hfiles _ (by decide))
  agent := h.agent.of_eq (hfiles _ (by decide))
  wav := by
    rw [hfiles _ (by decide)]
    exact h.wav
  made := by
    rw [hdir]
    exact h.made

-- ============================================================================
-- Begin, Uplink and Downlink
-- ============================================================================

/-- The raw files, once the directory is there. -/
theorem run_createRaw (s : SessionInfo) (fs : List Bytes → Slot B) {dir : Bytes} (hdir : dir ≠ [])
    (hclear : ∀ f ∈ bundleEntries, (fs (filePlace cwd dir f)).node ≠ some .dir)
    (hmade : (fs (Path.resolve cwd dir)).node = some .dir) :
    ∃ caller fs1 agent fs2,
      (cells B cwd).run (create (Path.join [dir, callerRaw])) fs = (some caller, fs1) ∧
      (cells B cwd).run (create (Path.join [dir, agentRaw])) fs1 = (some agent, fs2) ∧
      (fs2 (filePlace cwd dir eventsJsonl)).node ≠ some .dir ∧
      Recording cwd fs2 (s.callRecording dir caller agent) [] [] := by
  have hne : ∀ f ∈ bundleEntries, ∀ g ∈ bundleEntries, f ≠ g →
      filePlace cwd dir f ≠ filePlace cwd dir g := fun f hf g hg => filePlace_ne hdir hf hg
  obtain ⟨callerGen, callerSlot, hcreate1, hcaller⟩ := run_create (hclear callerRaw (by decide))
  have hagent1 : (Function.update fs (filePlace cwd dir callerRaw) callerSlot
      (filePlace cwd dir agentRaw)).node ≠ some .dir := by
    rw [Function.update_of_ne (hne _ (by decide) _ (by decide) (by decide))]
    exact hclear agentRaw (by decide)
  obtain ⟨agentGen, agentSlot, hcreate2, hagent⟩ := run_create hagent1
  refine ⟨_, _, _, _, hcreate1, hcreate2, ?_, ?_⟩
  · show (Function.update (Function.update fs (filePlace cwd dir callerRaw) callerSlot)
      (filePlace cwd dir agentRaw) agentSlot (filePlace cwd dir eventsJsonl)).node ≠ some .dir
    rw [Function.update_of_ne (hne _ (by decide) _ (by decide) (by decide)),
      Function.update_of_ne (hne _ (by decide) _ (by decide) (by decide))]
    exact hclear eventsJsonl (by decide)
  · refine ⟨hdir, rfl, ⟨callerGen, rfl, ?_⟩, ⟨agentGen, rfl, ?_⟩, ?_, ?_⟩
    · show (Function.update (Function.update fs (filePlace cwd dir callerRaw) callerSlot)
        (filePlace cwd dir agentRaw) agentSlot (filePlace cwd dir callerRaw)).Holds callerGen []
      rw [Function.update_of_ne (hne _ (by decide) _ (by decide) (by decide)),
        Function.update_self]
      exact hcaller
    · show (Function.update (Function.update fs (filePlace cwd dir callerRaw) callerSlot)
        (filePlace cwd dir agentRaw) agentSlot (filePlace cwd dir agentRaw)).Holds agentGen []
      rw [Function.update_self]
      exact hagent
    · show (Function.update (Function.update fs (filePlace cwd dir callerRaw) callerSlot)
        (filePlace cwd dir agentRaw) agentSlot (filePlace cwd dir audioWav)).node ≠ some .dir
      rw [Function.update_of_ne (hne _ (by decide) _ (by decide) (by decide)),
        Function.update_of_ne (hne _ (by decide) _ (by decide) (by decide))]
      exact hclear audioWav (by decide)
    · show (Function.update (Function.update fs (filePlace cwd dir callerRaw) callerSlot)
        (filePlace cwd dir agentRaw) agentSlot (Path.resolve cwd dir)).node = some .dir
      rw [Function.update_of_ne (dirPlace_ne hdir (by decide)),
        Function.update_of_ne (dirPlace_ne hdir (by decide))]
      exact hmade

theorem run_begin (r : Recorder) (s : SessionInfo)
    (hclear : Clear cwd (r.bundleDir s.fsUUID s.id) fs) :
    ∃ cr fs', (cells B cwd).run (r.begin s) fs = (some cr, fs') ∧
      Recording cwd fs' cr [] [] ∧ cr.dir = r.bundleDir s.fsUUID s.id ∧
      cr.rate = s.sampleRate := by
  have hdir := bundleDir_ne r s.fsUUID s.id
  have hmkdir := run_mkdirAll hclear.noFile
  rw [Recorder.begin]
  generalize r.bundleDir s.fsUUID s.id = dir at hclear hdir hmkdir
  have hclear1 : ∀ f ∈ bundleEntries, (Function.update fs (Path.resolve cwd dir)
      (fs (Path.resolve cwd dir)).mkdir (filePlace cwd dir f)).node ≠ some .dir := by
    intro f hf
    rw [Function.update_of_ne (Ne.symm (dirPlace_ne hdir hf))]
    exact hclear.noDir f hf
  have hmade1 : (Function.update fs (Path.resolve cwd dir) (fs (Path.resolve cwd dir)).mkdir
      (Path.resolve cwd dir)).node = some .dir := by
    rw [Function.update_self]
    rfl
  generalize Function.update fs (Path.resolve cwd dir) (fs (Path.resolve cwd dir)).mkdir = fs1
    at hmkdir hclear1 hmade1
  obtain ⟨caller, fs2, agent, fs3, hcaller, hagent, hevents, hrec⟩ :=
    run_createRaw s fs1 hdir hclear1 hmade1
  cases hbus : r.bus with
  | false =>
      refine ⟨_, fs3, ?_, hrec, rfl, rfl⟩
      rw [Cells.run_bind, hmkdir]
      show (cells B cwd).run (create (Path.join [dir, callerRaw]) >>= _) fs1 = _
      rw [Cells.run_bind, hcaller]
      show (cells B cwd).run (create (Path.join [dir, agentRaw]) >>= _) fs2 = _
      rw [Cells.run_bind, hagent]
      rfl
  | true =>
      obtain ⟨eventsGen, eventsSlot, hcreate, -⟩ := run_create hevents
      refine ⟨_, Function.update fs3 (filePlace cwd dir eventsJsonl) eventsSlot, ?_,
        hrec.of_eq ?_ ?_, rfl, rfl⟩
      · rw [Cells.run_bind, hmkdir]
        show (cells B cwd).run (create (Path.join [dir, callerRaw]) >>= _) fs1 = _
        rw [Cells.run_bind, hcaller]
        show (cells B cwd).run (create (Path.join [dir, agentRaw]) >>= _) fs2 = _
        rw [Cells.run_bind, hagent]
        show (cells B cwd).run (create (Path.join [dir, eventsJsonl]) >>= _) fs3 = _
        rw [Cells.run_bind, hcreate]
        rfl
      · intro f hf
        refine Function.update_of_ne (filePlace_ne hdir ?_ (by decide) ?_) _ _
        · exact List.mem_append_left [metaJson, eventsJsonl] hf
        · rintro rfl
          exact absurd hf (by decide)
      · exact Function.update_of_ne (dirPlace_ne hdir (by decide)) _ _

omit [Octet B] in
/-- A write to another file of the bundle leaves audio.wav alone. -/
theorem Recording.wav_update {cr : CallRecording} {up down : List B}
    (h : Recording cwd fs cr up down) {f : Bytes} (hf : f ∈ bundleEntries) (hne : f ≠ audioWav)
    (slot : Slot B) :
    (Function.update fs (filePlace cwd cr.dir f) slot (filePlace cwd cr.dir audioWav)).node
      ≠ some .dir := by
  rw [Function.update_of_ne (filePlace_ne h.dir_ne (by decide) hf (Ne.symm hne))]
  exact h.wav

omit [Octet B] in
/-- A write to a file of the bundle leaves its directory alone. -/
theorem Recording.made_update {cr : CallRecording} {up down : List B}
    (h : Recording cwd fs cr up down) {f : Bytes} (hf : f ∈ bundleEntries) (slot : Slot B) :
    (Function.update fs (filePlace cwd cr.dir f) slot (Path.resolve cwd cr.dir)).node
      = some .dir := by
  rw [Function.update_of_ne (dirPlace_ne h.dir_ne hf)]
  exact h.made

/-- A frame of the caller extends the caller's track. -/
theorem Recording.run_uplink {cr : CallRecording} {up down : List B}
    (h : Recording cwd fs cr up down) (sMetadata : Option Bytes) (pcm : List B) :
    ∃ cr' slot, (cells B cwd).run (cr.uplink sMetadata pcm) fs
        = (cr', Function.update fs (filePlace cwd cr.dir callerRaw) slot) ∧
      Recording cwd (Function.update fs (filePlace cwd cr.dir callerRaw) slot) cr'
        (up ++ pcm) down ∧ cr'.dir = cr.dir ∧ cr'.rate = cr.rate := by
  obtain ⟨h', slot, hrun, htrack⟩ := h.caller.run_write pcm
  refine ⟨{ cr with
      callerFile := h'
      callerBytes := cr.callerBytes + pcm.length
      metadata := cr.metadata.or (sMetadata.filter (· ≠ [])) }, slot, ?_,
    ⟨h.dir_ne, ?_, htrack, h.agent.of_eq ?_, ?_, ?_⟩, rfl, rfl⟩
  · rw [CallRecording.uplink, Cells.run_bind, hrun]
    rfl
  · show cr.callerBytes + pcm.length = _
    rw [h.callerBytes, List.length_append]
  · exact Function.update_of_ne (filePlace_ne h.dir_ne (by decide) (by decide) (by decide)) _ _
  · exact h.wav_update (by decide) (by decide) slot
  · exact h.made_update (by decide) slot

/-- A frame of the agent extends the agent's track. -/
theorem Recording.run_downlink {cr : CallRecording} {up down : List B}
    (h : Recording cwd fs cr up down) (pcm : List B) :
    ∃ cr' slot, (cells B cwd).run (cr.downlink pcm) fs
        = (cr', Function.update fs (filePlace cwd cr.dir agentRaw) slot) ∧
      Recording cwd (Function.update fs (filePlace cwd cr.dir agentRaw) slot) cr'
        up (down ++ pcm) ∧ cr'.dir = cr.dir ∧ cr'.rate = cr.rate := by
  obtain ⟨h', slot, hrun, htrack⟩ := h.agent.run_write pcm
  refine ⟨{ cr with agentFile := h', agentBytes := cr.agentBytes + pcm.length }, slot, ?_,
    ⟨h.dir_ne, h.callerBytes, h.caller.of_eq ?_, htrack, ?_, ?_⟩, rfl, rfl⟩
  · rw [CallRecording.downlink, Cells.run_bind, hrun]
    rfl
  · exact Function.update_of_ne (filePlace_ne h.dir_ne (by decide) (by decide) (by decide)) _ _
  · exact h.wav_update (by decide) (by decide) slot
  · exact h.made_update (by decide) slot

-- ============================================================================
-- The loop of finalizeWAV
-- ============================================================================

/-- The loop at `q`, between two blocks: the handles and files are where `q` bytes
    of the tracks leave them, and the agent buffer holds the bytes of a block before. -/
structure LoopInv (cwd : List Bytes) (dir : Bytes) (size : Nat) (up down head : List B)
    (callerGen agentGen outGen q : Nat) (abuf : List B) (fs : List Bytes → Slot B) : Prop where
  bound : q ≤ up.length
  even : q % 2 = 0
  buffer : q + 1 < up.length → abuf = (List.range size).map fun i => prevByte size down (q + i)
  caller : (fs (filePlace cwd dir callerRaw)).Holds callerGen up
  agent : (fs (filePlace cwd dir agentRaw)).Holds agentGen down
  out : (fs (filePlace cwd dir audioWav)).Holds outGen
    (head ++ interleave (up.take q) (held size down q))

/-- One block. -/
theorem LoopInv.block {dir : Bytes} {size : Nat} {up down head : List B}
    {callerGen agentGen outGen q n : Nat} {abuf : List B} (hdir : dir ≠ []) (hsize : 0 < size)
    (h : LoopInv cwd dir size up down head callerGen agentGen outGen q abuf fs) (hn : n ≤ size)
    (hnup : q + n ≤ up.length) (hpos : 0 < n) (heven : n % 2 = 0)
    (hlast : q + n + 1 < up.length → n = size) (slot : Slot B)
    (hslot : slot.Holds outGen ((head ++ interleave (up.take q) (held size down q))
      ++ interleave ((up.drop q).take n)
        (((down.drop q).take n ++ abuf.drop ((down.drop q).take n).length).take n))) :
    LoopInv cwd dir size up down head callerGen agentGen outGen (q + n)
      ((down.drop q).take n ++ abuf.drop ((down.drop q).take n).length)
      (Function.update fs (filePlace cwd dir audioWav) slot) := by
  have hbuf := h.buffer (by omega)
  have hfill := refill_eq hsize down q n hn
  rw [← hbuf] at hfill
  have hne : ∀ f ∈ [callerRaw, agentRaw], filePlace cwd dir f ≠ filePlace cwd dir audioWav := by
    intro f hf
    refine filePlace_ne hdir ?_ (by decide) ?_
    · rcases List.mem_pair.mp hf with rfl | rfl <;> decide
    · rcases List.mem_pair.mp hf with rfl | rfl <;> decide
  have hq := h.even
  refine ⟨hnup, by omega, fun hmore => ?_, ?_, ?_, ?_⟩
  · -- a full block: all of the buffer has been filled
    have hfull := hlast hmore
    have hlen : ((down.drop q).take n ++ abuf.drop ((down.drop q).take n).length).length = n := by
      rw [hbuf]
      simp only [List.length_append, List.length_take, List.length_drop, List.length_map,
        List.length_range]
      omega
    rw [← List.take_length (l := (down.drop q).take n ++ _), hlen, hfill, hfull]
    refine List.map_congr_left fun i hi => ?_
    rw [prevByte, if_pos (by omega)]
    congr 1
    omega
  · rw [Function.update_of_ne (hne _ (by decide))]
    exact h.caller
  · rw [Function.update_of_ne (hne _ (by decide))]
    exact h.agent
  · have htake : (up.take q).length = q := by
      rw [List.length_take]
      have hb := h.bound
      omega
    have hheld : (held size down q).length = q := by rw [held, List.length_map, List.length_range]
    rw [Function.update_self, List.take_add, held_add,
      interleave_append _ _ (by rw [htake, hheld]) (by rw [htake]; exact hq), ← List.append_assoc,
      ← hfill]
    exact hslot

/-- A byte that is no sample is in no block. -/
theorem interleave_take (size : Nat) (up down : List B) {q : Nat} (heven : q % 2 = 0)
    (hle : q ≤ up.length) (hlast : up.length ≤ q + 1) :
    interleave (up.take q) (held size down q) = interleave up (held size down up.length) := by
  obtain hall | hodd : up.length = q ∨ up.length = q + 1 := by omega
  · rw [← hall, List.take_length]
  · have hone : (up.drop q).length = 1 := by
      rw [List.length_drop]
      omega
    obtain ⟨b, hb⟩ := List.length_eq_one_iff.mp hone
    have htake : (up.take q).length = q := by
      rw [List.length_take]
      omega
    have hheld : (held size down q).length = q := by rw [held, List.length_map, List.length_range]
    have hsplit : interleave up (held size down up.length)
        = interleave (up.take q ++ up.drop q) (held size down (q + 1)) := by
      rw [List.take_append_drop, hodd]
    rw [hsplit, held_add, interleave_append _ _ (by rw [htake, hheld]) (by rw [htake]; exact heven),
      hb]
    exact (List.append_nil _).symm

/-- The whole loop: it ends with all samples of the caller's track interleaved. -/
theorem run_wavLoop {dir : Bytes} {size : Nat} {up down head : List B}
    {callerGen agentGen outGen : Nat} (hdir : dir ≠ []) (hsize : 2 ≤ size) (hsize2 : size % 2 = 0)
    (fuel q : Nat) (hfuel : up.length ≤ q + fuel) (abuf : List B)
    (fs : List Bytes → Slot B)
    (h : LoopInv cwd dir size up down head callerGen agentGen outGen q abuf fs) :
    ∃ slot, (cells B cwd).run (wavLoop size fuel ⟨Path.join [dir, callerRaw], callerGen, q⟩
        ⟨Path.join [dir, agentRaw], agentGen, min q down.length⟩
        ⟨Path.join [dir, audioWav], outGen,
          (head ++ interleave (up.take q) (held size down q)).length⟩ abuf (up.length - q)) fs
        = (true, Function.update fs (filePlace cwd dir audioWav) slot) ∧
      slot.Holds outGen (head ++ interleave up (held size down up.length)) := by
  induction fuel generalizing q abuf fs with
  | zero =>
      have hq : q = up.length := by
        have hbound := h.bound
        omega
      subst hq
      refine ⟨fs (filePlace cwd dir audioWav), ?_, ?_⟩
      · rw [Function.update_eq_self]
        rfl
      · simpa using h.out
  | succ fuel ih =>
      have hbound := h.bound
      have hqeven := h.even
      rw [wavLoop]
      by_cases hn : min size (up.length - q) / 2 * 2 = 0
      · refine ⟨fs (filePlace cwd dir audioWav), ?_, ?_⟩
        · rw [if_pos hn, Function.update_eq_self]
          rfl
        · have hout := h.out
          rw [interleave_take size up down hqeven hbound (by omega)] at hout
          exact hout
      · rw [if_neg hn]
        generalize hsome : min size (up.length - q) / 2 * 2 = n at hn
        have hcbuf : ((up.drop q).take n).length = n := by
          rw [List.length_take, List.length_drop]
          omega
        have hread : (down.drop (min q down.length)).take n = (down.drop q).take n := by
          by_cases hq : q ≤ down.length
          · rw [Nat.min_eq_left hq]
          · rw [Nat.min_eq_right (by omega), List.drop_length, List.drop_of_length_le (by omega)]
        have hoffset : min q down.length + ((down.drop q).take n).length
            = min (q + n) down.length := by
          rw [List.length_take, List.length_drop]
          omega
        obtain ⟨slot, hwrite, hslot⟩ := Fs.run_write (interleave ((up.drop q).take n)
          (((down.drop q).take n ++ abuf.drop ((down.drop q).take n).length).take n)) h.out
        have hnext := h.block hdir (by omega) (n := n) (by omega) (by omega) (by omega) (by omega)
          (by omega) slot hslot
        obtain ⟨slot', hrun, hslot'⟩ := ih (q + n) (by omega) _ _ hnext
        refine ⟨slot', ?_, hslot'⟩
        rw [Cells.run_bind, run_readFull q n h.caller]
        dsimp only
        rw [if_neg (by omega), Cells.run_bind, run_readFull _ n h.agent]
        dsimp only
        rw [hread, Cells.run_bind, hwrite]
        have hcontent := hnext.out.gens
        rw [Function.update_self, hslot.gens] at hcontent
        rw [Function.update_idem] at hrun
        rw [hcbuf, hoffset, hcontent, Nat.sub_sub]
        exact hrun

-- ============================================================================
-- Finish
-- ============================================================================

/-- The audio.wav of a session with these bytes. -/
def wavFile (rate : Int) (up down : List B) : List B :=
  own (writeWAVHeader (UInt32.ofNat (up.length * 2)) (UInt32.ofInt rate))
    ++ interleave up (held blockSize down up.length)

theorem Recording.run_finalizeWAV {cr : CallRecording} {up down : List B}
    (h : Recording cwd fs cr up down) :
    ∃ gen slot, (cells B cwd).run cr.finalizeWAV fs
        = (true, Function.update fs (filePlace cwd cr.dir audioWav) slot) ∧
      slot.Holds gen (wavFile cr.rate up down) := by
  obtain ⟨callerGen, -, hcaller⟩ := h.caller
  obtain ⟨agentGen, -, hagent⟩ := h.agent
  obtain ⟨outGen, slot1, hcreate, hslot1⟩ := run_create h.wav
  have hne : ∀ f ∈ [callerRaw, agentRaw],
      filePlace cwd cr.dir f ≠ filePlace cwd cr.dir audioWav := by
    intro f hf
    refine filePlace_ne h.dir_ne ?_ (by decide) ?_
    · rcases List.mem_pair.mp hf with rfl | rfl <;> decide
    · rcases List.mem_pair.mp hf with rfl | rfl <;> decide
  generalize hheader : (own (writeWAVHeader (UInt32.ofNat (up.length * 2))
    (UInt32.ofInt cr.rate)) : List B) = header
  have hslot1' : (Function.update fs (filePlace cwd cr.dir audioWav) slot1
      (Path.resolve cwd (Path.join [cr.dir, audioWav]))).Holds outGen [] := by
    rw [filePlace, Function.update_self]
    exact hslot1
  obtain ⟨slot2, hwrite, hslot2⟩ := Fs.run_write header hslot1'
  rw [List.nil_append] at hwrite hslot2
  have hinv : LoopInv cwd cr.dir blockSize up down header callerGen agentGen outGen 0
      (List.replicate blockSize (Octet.ofByte 0))
      (Function.update fs (filePlace cwd cr.dir audioWav) slot2) := by
    refine ⟨Nat.zero_le _, rfl, fun _ => ?_, ?_, ?_, ?_⟩
    · have hzero : ∀ i ∈ List.range blockSize, prevByte blockSize down (0 + i)
          = (Octet.ofByte 0 : B) := by
        intro i hi
        have hlt := List.mem_range.mp hi
        rw [prevByte, if_neg (by omega)]
      rw [List.map_congr_left hzero, List.map_const', List.length_range]
    · rw [Function.update_of_ne (hne _ (by decide))]
      exact hcaller
    · rw [Function.update_of_ne (hne _ (by decide))]
      exact hagent
    · rw [Function.update_self]
      simpa [held, interleave] using hslot2
  obtain ⟨slot3, hloop, hslot3⟩ := run_wavLoop h.dir_ne (by decide) (by decide) up.length 0
    (by omega) _ _ hinv
  have hwrite' : (cells B cwd).run (write ⟨Path.join [cr.dir, audioWav], outGen, 0⟩ header)
      (Function.update fs (Path.resolve cwd (Path.join [cr.dir, audioWav])) slot1)
      = (⟨Path.join [cr.dir, audioWav], outGen, header.length⟩,
        Function.update fs (filePlace cwd cr.dir audioWav) slot2) := by
    refine hwrite.trans ?_
    show (_, Function.update (Function.update fs (filePlace cwd cr.dir audioWav) slot1)
      (filePlace cwd cr.dir audioWav) slot2) = _
    rw [Function.update_idem]
  have hstart : header ++ interleave (up.take 0) (held blockSize down 0) = header := by
    simp [held, interleave]
  rw [hstart, Nat.zero_min, Nat.sub_zero, Function.update_idem] at hloop
  refine ⟨outGen, slot3, ?_, ?_⟩
  · rw [CallRecording.finalizeWAV, Cells.run_bind, run_openFile hcaller]
    show (cells B cwd).run (openFile (Path.join [cr.dir, agentRaw]) >>= _) fs = _
    rw [Cells.run_bind, run_openFile hagent]
    show (cells B cwd).run (create (Path.join [cr.dir, audioWav]) >>= _) fs = _
    rw [Cells.run_bind, hcreate]
    dsimp only
    rw [h.callerBytes, hheader, Cells.run_bind, hwrite']
    exact hloop
  · rw [wavFile, hheader]
    exact hslot3

theorem uses_cleanup (cr : CallRecording) (marshal : RecordingMeta → Option Bytes) :
    (cells B cwd).Uses (fun q => ∃ f ∈ [callerRaw, agentRaw, metaJson], q = filePlace cwd cr.dir f)
      (cr.cleanup marshal) := by
  refine uses_remove ⟨callerRaw, by decide, rfl⟩ (uses_remove ⟨agentRaw, by decide, rfl⟩ ?_)
  rw [CallRecording.writeMeta]
  split
  · trivial
  · refine uses_create ⟨metaJson, by decide, rfl⟩ trivial fun gen => ?_
    show (cells B cwd).Uses _ (write _ _ >>= _)
    exact uses_write ⟨metaJson, by decide, rfl⟩ _ fun _ => trivial

/-- Finish leaves the audio.wav of the session, and its directory. -/
theorem Recording.run_finish {cr : CallRecording} {up down : List B}
    (h : Recording cwd fs cr up down)
    (marshal : RecordingMeta → Option Bytes) :
    ∃ fs', (cells B cwd).run (cr.finish marshal) fs = (true, fs') ∧
      (∃ gen, (fs' (filePlace cwd cr.dir audioWav)).Holds gen (wavFile cr.rate up down)) ∧
      (fs' (Path.resolve cwd cr.dir)).node = some .dir := by
  obtain ⟨gen, slot, hfinalize, hslot⟩ := h.run_finalizeWAV
  have huses : (cells B cwd).Uses _ (cr.cleanup marshal) := uses_cleanup cr marshal
  have hsub : ∀ f ∈ [callerRaw, agentRaw, metaJson], f ∈ bundleEntries ∧ f ≠ audioWav := by decide
  refine ⟨_, by rw [CallRecording.finish, Cells.run_bind, hfinalize, Cells.run_bind]; rfl,
    ⟨gen, ?_⟩, ?_⟩
  · dsimp only
    rw [huses.frame, Function.update_self]
    · exact hslot
    · rintro ⟨f, hf, heq⟩
      exact filePlace_ne h.dir_ne (by decide) (hsub f hf).1 (Ne.symm (hsub f hf).2) heq
  · dsimp only
    rw [huses.frame, Function.update_of_ne (dirPlace_ne h.dir_ne (by decide))]
    · exact h.made
    · rintro ⟨f, hf, heq⟩
      exact dirPlace_ne h.dir_ne (hsub f hf).1 heq

end

end FsBridge.Bridge
