/-
  FsBridge.Bridge.OriginateVars

  The variables of an originate command, read back from what is sent (bridge/control.go,
  `buildOriginateVars` and `execute`).

  The reader follows the rule stated there: the block ends at the first closing brace,
  its entries stand between commas, and a key ends at the first equals sign.  Nothing is
  escaped and nothing is refused, so the requests that come back are those whose strings
  keep clear of the three separators (`Separable`).
-/

import Mathlib.Data.List.Nodup
import FsBridge.Bridge.Control
import FsBridge.Lib.Query

namespace FsBridge.Bridge

open FsBridge.Lib

def braceOpen : UInt8 := 123
def braceClose : UInt8 := 125
def comma : UInt8 := 44

def callerIdKey : Bytes := ascii "origination_caller_id_number"
def metadataKey : Bytes := ascii "ws_bridge_metadata"

/-- The variables that were asked for. -/
def Requested (args : OriginateArgs) (k v : Bytes) : Prop :=
  args.cid ≠ [] ∧ k = callerIdKey ∧ v = args.cid ∨ (k, v) ∈ args.vars.entries ∨
    args.metadata ≠ [] ∧ k = metadataKey ∧ v = args.metadata

/-- The dial string, and what follows it. -/
def OriginateArgs.dialString (args : OriginateArgs) : Bytes :=
  if args.app ≠ [] then args.dest ++ ascii " &" ++ trimPrefix args.app (ascii "&")
  else args.dest ++ ascii " " ++ (if args.ext = [] then ascii "9999" else args.ext) ++
    ascii " XML default"

-- ============================================================================
-- The reader
-- ============================================================================

/-- An entry of the block. -/
def readEntry (entry : Bytes) : Bytes × Bytes := Query.cut Query.eq entry

/-- The entries of the block a text begins with, if it begins with one, and what follows;
    `none` for a block without an end. -/
def readVars (s : Bytes) : Option (List (Bytes × Bytes) × Bytes) :=
  if s.head? = some braceOpen then
    if braceClose ∈ s.tail then
      some (((Query.cut braceClose s.tail).1.splitOn comma).map readEntry,
        (Query.cut braceClose s.tail).2)
    else none
  else some ([], s)

/-- Behind `originate `, the text reads back as the request. -/
def ReadsBack (args : OriginateArgs) (sent : Bytes) : Prop :=
  ∃ text entries, sent = ascii "originate " ++ text ∧
    readVars text = some (entries, args.dialString) ∧
    (∀ k v, (k, v) ∈ entries ↔ Requested args k v) ∧
    ∀ k v w, (k, v) ∈ entries → (k, w) ∈ entries → v = w

/-- An originate command that is not refused is sent as it reads back. -/
def RoundTrips (cmd : ControlCommand) : Prop :=
  ∀ args, decodeAction cmd = .ok (.call (.originate args)) →
    ∃ sent, controlEslCmd cmd = some sent ∧ ReadsBack args sent

-- ============================================================================
-- The condition
-- ============================================================================

/-- The strings keep clear of the separators, the reserved variables are not asked for a
    second time with another value, and without variables the destination does not begin
    with a brace. -/
structure Separable (args : OriginateArgs) : Prop where
  keys : ∀ k v, Requested args k v → Query.eq ∉ k ∧ comma ∉ k ∧ braceClose ∉ k
  values : ∀ k v, Requested args k v → comma ∉ v ∧ braceClose ∉ v
  callerId : args.cid ≠ [] → ∀ v, (callerIdKey, v) ∈ args.vars.entries → v = args.cid
  metadata : args.metadata ≠ [] → ∀ v, (metadataKey, v) ∈ args.vars.entries → v = args.metadata
  dest : (∀ k v, ¬ Requested args k v) → args.dest.head? ≠ some braceOpen

-- ============================================================================
-- The parts
-- ============================================================================

/-- An entry as it is rendered. -/
def renderEntry (e : Bytes × Bytes) : Bytes := e.1 ++ Query.eq :: e.2

/-- The requested variables, in the order they are rendered. -/
def requestedList (args : OriginateArgs) : List (Bytes × Bytes) :=
  (if args.cid ≠ [] then [(callerIdKey, args.cid)] else []) ++
    (args.vars.entries.mergeSort fun e f => bytesLe e.1 f.1) ++
    if args.metadata ≠ [] then [(metadataKey, args.metadata)] else []

theorem mem_requestedList {args : OriginateArgs} {k v : Bytes} :
    (k, v) ∈ requestedList args ↔ Requested args k v := by
  have hone : ∀ (word : Bytes) (key : Bytes), ((k, v) ∈ if word ≠ [] then [(key, word)] else []) ↔
      word ≠ [] ∧ k = key ∧ v = word := by
    intro word key
    split
    · rename_i hword
      rw [List.mem_singleton, Prod.mk.injEq]
      exact ⟨fun h => ⟨hword, h⟩, fun h => h.2⟩
    · rename_i hword
      exact ⟨fun h => absurd h List.not_mem_nil, fun h => absurd h.1 hword⟩
  rw [requestedList, List.mem_append, List.mem_append, hone, hone, List.mem_mergeSort, or_assoc]
  rfl

theorem originateParts_eq (args : OriginateArgs) :
    originateParts args.cid args.vars args.metadata = (requestedList args).map renderEntry := by
  have hcid : (if args.cid ≠ [] then [ascii "origination_caller_id_number=" ++ args.cid] else [])
      = (if args.cid ≠ [] then [(callerIdKey, args.cid)] else []).map renderEntry := by
    split <;> rfl
  have hmeta : (if args.metadata ≠ [] then [ascii "ws_bridge_metadata=" ++ args.metadata] else [])
      = (if args.metadata ≠ [] then [(metadataKey, args.metadata)] else []).map renderEntry := by
    split <;> rfl
  have hentry : (fun e : Bytes × Bytes => e.1 ++ ascii "=" ++ e.2) = renderEntry := by
    funext e
    rw [renderEntry, List.append_assoc]
    rfl
  rw [originateParts, requestedList, List.map_append, List.map_append, hcid, hmeta, hentry]

/-- The block, read. -/
theorem readVars_block {entries : List (Bytes × Bytes)} (hne : entries ≠ []) (rest : Bytes)
    (hkeys : ∀ e ∈ entries, Query.eq ∉ e.1 ∧ comma ∉ e.1 ∧ braceClose ∉ e.1)
    (hvalues : ∀ e ∈ entries, comma ∉ e.2 ∧ braceClose ∉ e.2) :
    readVars (ascii "\x7b" ++ joinWith (ascii ",") (entries.map renderEntry) ++ ascii "\x7d" ++
        rest)
      = some (entries, rest) := by
  have hblock : braceClose ∉ joinWith [comma] (entries.map renderEntry) := by
    intro hin
    rcases mem_joinWith hin with hno | ⟨part, hpart, hin⟩
    · exact absurd hno (by decide)
    · obtain ⟨e, he, rfl⟩ := List.mem_map.mp hpart
      rw [renderEntry, List.mem_append, List.mem_cons] at hin
      rcases hin with hkey | hno | hvalue
      · exact (hkeys e he).2.2 hkey
      · exact absurd hno (by decide)
      · exact (hvalues e he).2 hvalue
  have htext : ascii "\x7b" ++ joinWith (ascii ",") (entries.map renderEntry) ++ ascii "\x7d" ++
        rest
      = braceOpen :: (joinWith [comma] (entries.map renderEntry) ++ braceClose :: rest) := by
    simp [ascii, braceOpen, braceClose, comma]
  have hparts : ∀ part ∈ entries.map renderEntry, comma ∉ part := by
    intro part hpart
    obtain ⟨e, he, rfl⟩ := List.mem_map.mp hpart
    rw [renderEntry, List.mem_append, List.mem_cons, not_or, not_or]
    exact ⟨(hkeys e he).2.1, by decide, (hvalues e he).1⟩
  rw [htext, readVars, List.head?_cons, if_pos rfl, List.tail_cons, if_pos (by simp),
    Query.cut_append_cons hblock]
  dsimp only
  rw [splitOn_joinWith hparts (by simpa using hne), List.map_map]
  have hread : ∀ e ∈ entries, (readEntry ∘ renderEntry) e = e := by
    intro e he
    exact Query.cut_append_cons (hkeys e he).1 e.2
  rw [List.map_congr_left hread, List.map_id']

/-- What is read has no separators in it. -/
theorem readVars_clear {s rest : Bytes} {entries : List (Bytes × Bytes)}
    (h : readVars s = some (entries, rest)) {k v : Bytes} (hmem : (k, v) ∈ entries) :
    Query.eq ∉ k ∧ (comma ∉ k ∧ braceClose ∉ k) ∧ comma ∉ v ∧ braceClose ∉ v := by
  unfold readVars at h
  split at h
  · split at h
    · obtain ⟨rfl, -⟩ := Prod.mk.inj (Option.some.inj h)
      obtain ⟨entry, hentry, heq⟩ := List.mem_map.mp hmem
      obtain ⟨hkey, hvalue⟩ := Prod.mk.inj heq
      have hcomma : comma ∉ entry := not_mem_splitOn hentry
      have hbrace : braceClose ∉ entry := fun hin =>
        Query.not_mem_cut_fst braceClose s.tail (mem_of_mem_splitOn hentry hin)
      have hsub : ∀ x, x ∈ k ∨ x ∈ v → x ∈ entry := by
        rintro x (hx | hx)
        · rw [← hkey] at hx
          exact (List.takeWhile_sublist _).subset hx
        · rw [← hvalue] at hx
          exact (List.dropWhile_sublist _).subset (List.mem_of_mem_tail hx)
      refine ⟨?_, ⟨?_, ?_⟩, ?_, ?_⟩
      · rw [← hkey]
        exact Query.not_mem_cut_fst Query.eq entry
      · exact fun hin => hcomma (hsub comma (.inl hin))
      · exact fun hin => hbrace (hsub braceClose (.inl hin))
      · exact fun hin => hcomma (hsub comma (.inr hin))
      · exact fun hin => hbrace (hsub braceClose (.inr hin))
    · cases h
  · obtain ⟨rfl, -⟩ := Prod.mk.inj (Option.some.inj h)
    exact absurd hmem List.not_mem_nil

/-- What follows a block is shorter than the text. -/
theorem readVars_shorter {s rest : Bytes} {entries : List (Bytes × Bytes)}
    (h : readVars s = some (entries, rest)) (hblock : s.head? = some braceOpen) :
    rest.length < s.length := by
  rw [readVars, if_pos hblock] at h
  split at h
  · obtain ⟨-, rfl⟩ := Prod.mk.inj (Option.some.inj h)
    have hle := Query.length_cut_snd_le braceClose s.tail
    cases s with
    | nil => cases hblock
    | cons c s => exact Nat.lt_succ_of_le hle
  · cases h

theorem eslCmd_originate (args : OriginateArgs) :
    (CallAction.originate args).eslCmd = ascii "originate " ++
      (buildOriginateVars args.cid args.vars args.metadata ++ args.dialString) := by
  rw [CallAction.eslCmd, OriginateArgs.dialString]
  dsimp only
  split <;> simp

theorem buildOriginateVars_eq (args : OriginateArgs) :
    buildOriginateVars args.cid args.vars args.metadata =
      if requestedList args = [] then []
      else ascii "\x7b" ++ joinWith (ascii ",") ((requestedList args).map renderEntry)
        ++ ascii "\x7d" := by
  rw [buildOriginateVars, originateParts_eq]
  by_cases h : requestedList args = []
  · rw [if_pos h, h, List.map_nil, if_pos rfl]
  · rw [if_neg h, if_neg fun hnil => h (List.map_eq_nil_iff.mp hnil)]

theorem head?_dialString {args : OriginateArgs} (h : args.dest ≠ []) :
    args.dialString.head? = args.dest.head? := by
  rw [OriginateArgs.dialString]
  split
  · rw [List.append_assoc, List.head?_append_of_ne_nil _ h]
  · rw [List.append_assoc, List.append_assoc, List.head?_append_of_ne_nil _ h]

theorem separable_of_readsBack {args : OriginateArgs} (hdest : args.dest ≠ [])
    (h : ReadsBack args (CallAction.originate args).eslCmd) : Separable args := by
  obtain ⟨text, entries, hsent, hread, hset, hone⟩ := h
  rw [eslCmd_originate] at hsent
  obtain rfl := List.append_cancel_left hsent
  have hclear : ∀ k v, Requested args k v → _ := fun k v hreq =>
    readVars_clear hread ((hset k v).mpr hreq)
  refine ⟨fun k v hreq => ?_, fun k v hreq => (hclear k v hreq).2.2, ?_, ?_, ?_⟩
  · obtain ⟨heq, ⟨hcomma, hbrace⟩, -⟩ := hclear k v hreq
    exact ⟨heq, hcomma, hbrace⟩
  · intro hcid v hv
    exact hone callerIdKey v args.cid ((hset _ _).mpr (.inr (.inl hv)))
      ((hset _ _).mpr (.inl ⟨hcid, rfl, rfl⟩))
  · intro hmeta v hv
    exact hone metadataKey v args.metadata ((hset _ _).mpr (.inr (.inl hv)))
      ((hset _ _).mpr (.inr (.inr ⟨hmeta, rfl, rfl⟩)))
  · intro hnone hbrace
    have hlist : requestedList args = [] :=
      List.eq_nil_iff_forall_not_mem.mpr fun e he => hnone e.1 e.2 (mem_requestedList.mp he)
    rw [buildOriginateVars_eq, if_pos hlist, List.nil_append] at hread
    have hshorter := readVars_shorter hread ((head?_dialString hdest).trans hbrace)
    omega

/-- A variable is requested with one value: the keys of the map differ, and the reserved
    ones agree with it. -/
theorem requested_unique {args : OriginateArgs} (h : Separable args) {k v w : Bytes}
    (hv : Requested args k v) (hw : Requested args k w) : v = w := by
  have hreserved : callerIdKey ≠ metadataKey := by decide
  rcases hv with ⟨hcid, rfl, rfl⟩ | hv | ⟨hmeta, rfl, rfl⟩
  · rcases hw with ⟨-, -, rfl⟩ | hw | ⟨-, hkey, -⟩
    · rfl
    · exact (h.callerId hcid w hw).symm
    · exact absurd hkey hreserved
  · rcases hw with ⟨hcid, rfl, rfl⟩ | hw | ⟨hmeta, rfl, rfl⟩
    · exact h.callerId hcid v hv
    · exact (Prod.mk.inj (List.inj_on_of_nodup_map args.vars.keys_nodup hv hw rfl)).2
    · exact h.metadata hmeta v hv
  · rcases hw with ⟨-, hkey, -⟩ | hw | ⟨-, -, rfl⟩
    · exact absurd hkey.symm hreserved
    · exact (h.metadata hmeta w hw).symm
    · rfl

theorem readsBack_of_separable {args : OriginateArgs} (hdest : args.dest ≠ [])
    (h : Separable args) : ReadsBack args (CallAction.originate args).eslCmd := by
  refine ⟨_, requestedList args, eslCmd_originate args, ?_, fun k v => mem_requestedList, ?_⟩
  · rw [buildOriginateVars_eq]
    by_cases hlist : requestedList args = []
    · have hnone : ∀ k v, ¬ Requested args k v := fun k v hreq => by
        have hmem := mem_requestedList.mpr hreq
        rw [hlist] at hmem
        exact List.not_mem_nil hmem
      rw [if_pos hlist, List.nil_append, hlist, readVars, head?_dialString hdest,
        if_neg (h.dest hnone)]
    · rw [if_neg hlist]
      exact readVars_block hlist _ (fun e he => h.keys e.1 e.2 (mem_requestedList.mp he))
        fun e he => h.values e.1 e.2 (mem_requestedList.mp he)
  · intro k v w hv hw
    exact requested_unique h (mem_requestedList.mp hv) (mem_requestedList.mp hw)

theorem readsBack_iff (args : OriginateArgs) (hdest : args.dest ≠ []) :
    ReadsBack args (CallAction.originate args).eslCmd ↔ Separable args :=
  ⟨separable_of_readsBack hdest, readsBack_of_separable hdest⟩

/-- An originate command with a destination is not refused, whatever its variables are. -/
theorem decodeAction_originate {cmd : ControlCommand} {args : OriginateArgs}
    (h : decodeAction cmd = .ok (.call (.originate args))) :
    args.dest ≠ [] ∧ controlEslCmd cmd = some (CallAction.originate args).eslCmd := by
  refine ⟨?_, by rw [controlEslCmd, h]⟩
  unfold decodeAction at h
  split at h
  · split at h
    · split at h
      · cases h
      · rename_i hdest
        cases h
        exact hdest
    · cases h
  · -- no other command ends in an originate
    have hmap : ∀ {α : Type} {e : Except ControlError α} {f : α → ControlAction},
        (∀ a, f a ≠ .call (.originate args)) → e.map f ≠ .ok (.call (.originate args)) := by
      intro α e f hother heq
      cases e with
      | error err => cases heq
      | ok a => exact hother a (Except.ok.inj heq)
    iterate 6
      split at h
      · exact absurd h (hmap fun a ha => by cases ha)
    cases h

/-- **The variables.**  A request comes back exactly when its strings keep clear of the
    separators; every other one is sent all the same. -/
theorem roundTrips_iff (cmd : ControlCommand) :
    RoundTrips cmd ↔
      ∀ args, decodeAction cmd = .ok (.call (.originate args)) → Separable args := by
  constructor
  · intro h args hdecode
    obtain ⟨hdest, hcmd⟩ := decodeAction_originate hdecode
    obtain ⟨sent, hsent, hreads⟩ := h args hdecode
    obtain rfl := Option.some.inj (hcmd.symm.trans hsent)
    exact separable_of_readsBack hdest hreads
  · intro h args hdecode
    obtain ⟨hdest, hcmd⟩ := decodeAction_originate hdecode
    exact ⟨_, hcmd, readsBack_of_separable hdest (h args hdecode)⟩

/-- Metadata that ends in a brace, as every JSON object does, never comes back. -/
theorem not_separable_of_brace {args : OriginateArgs} (h : braceClose ∈ args.metadata) :
    ¬ Separable args := by
  intro hsep
  have hne : args.metadata ≠ [] := List.ne_nil_of_mem h
  exact (hsep.values metadataKey args.metadata (.inr (.inr ⟨hne, rfl, rfl⟩))).2 h

/-- `{"dest": "loopback/9999", "metadata": "{}"}`. -/
def objectMetadata : ControlCommand where
  id := []
  cmd := ascii "originate"
  args := some (.obj [(ascii "dest", .str (ascii "loopback/9999")),
    (ascii "metadata", .str (ascii "\x7b\x7d"))])

/-- The block ends inside of the metadata. -/
theorem object_metadata_lost : ¬ RoundTrips objectMetadata := by
  intro h
  have hdecode : decodeAction objectMetadata = .ok (.call (.originate
      ⟨ascii "loopback/9999", [], [], [], .empty, ascii "\x7b\x7d"⟩)) := rfl
  obtain ⟨hdest, hcmd⟩ := decodeAction_originate hdecode
  obtain ⟨sent, hsent, hreads⟩ := h _ hdecode
  obtain rfl := Option.some.inj (hcmd.symm.trans hsent)
  exact not_separable_of_brace (by decide) (separable_of_readsBack hdest hreads)

end FsBridge.Bridge
