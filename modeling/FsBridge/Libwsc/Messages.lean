/-
  FsBridge.Libwsc.Messages

  What the frames of a server come to, and that the receiver makes just that of them.

  `assemble` puts the frames of a stream together: fragments are collected until the
  last one, control frames may stand between them, and nothing is read behind a
  close or an error.  A text message is refused as soon as no well-formed text
  begins with what has come of it; there is no validator here, no buffer and no
  loop over bytes.  `onSegments_encode` says that the sinks are told the same,
  however the bytes of the frames arrive.

  A sink may be terminating at any time, for its own reasons; it is told nothing
  from then on (`Sinks.take`).
-/

import FsBridge.Libwsc.ReceiverFrames

namespace FsBridge.Libwsc

open FsBridge.Lib

/-- What the sinks can be told of. -/
inductive Event where
  | text (message : Bytes)
  | binary (message : Bytes)
  | ping (payload : Bytes)
  | close (code : Nat) (reason : Bytes)
  | error (code : Nat) (why : String)
deriving DecidableEq, Repr

/-- A message of which fragments have come. -/
structure Partial where
  text : Bool
  compressed : Bool
  payload : Bytes
deriving DecidableEq, Repr

/-- What a frame comes to: an event that is the last, or perhaps an event, and what
    the reassembly goes on with. -/
inductive FrameStep (δ : Type*) where
  | last (e : Event)
  | go (e : Option Event) (d : δ) (p : Option Partial)

-- ============================================================================
-- Putting frames together
-- ============================================================================

section Assemble

variable {δ : Type*} (decode : δ → Bytes → Option Bytes × δ)

/-- A message is whole and decompressed. -/
def WellFormed (text : Bool) (message : Bytes) : Prop := text = true → WellFormedUtf8 message

open Classical in
noncomputable def messageStep (d : δ) (text : Bool) (message : Bytes) : FrameStep δ :=
  if WellFormed text message then
    .go (some (if text then .text message else .binary message)) d none
  else .last (.error 1007 "Invalid UTF-8 in text message")

open Classical in
/-- A fragment has come; `p` is the message with it. -/
noncomputable def fragmentStep (d : δ) (p : Partial) (fin : Bool) : FrameStep δ :=
  if p.text ∧ ¬ p.compressed ∧ ¬ BeginsUtf8 p.payload then
    .last (.error 1007 "Invalid UTF-8 in text message")
  else if ¬ fin then .go none d (some p)
  else if p.compressed then
    match decode d p.payload with
    | (none, _) => .last (.error 1007 "Decompression failed")
    | (some message, d) => messageStep d p.text message
  else messageStep d p.text p.payload

open Classical in
/-- The code and the reason of a close; what is wrong is reported as 1002. -/
noncomputable def closeEvent : Bytes → Event
  | [] => .close 1000 []
  | [_] => .close 1002 []
  | b0 :: b1 :: reason =>
      if isCloseCode (beNat [b0, b1]) ∧ WellFormedUtf8 reason then .close (beNat [b0, b1]) reason
      else .close 1002 []

/-- A fragment that is not the first. -/
noncomputable def continuationStep (d : δ) (payload : Bytes) (fin : Bool) :
    Option Partial → FrameStep δ
  | none => .last (.error 1002 "continuation frame without initial frame")
  | some p => fragmentStep decode d { p with payload := p.payload ++ payload } fin

/-- A first fragment. -/
noncomputable def dataStep (d : δ) (first : Partial) (fin : Bool) : Option Partial → FrameStep δ
  | none => fragmentStep decode d first fin
  | some _ => .last (.error 1002 "Received new data frame when expecting continuation frame")

noncomputable def frameStep (compression : Bool) (d : δ) (p : Option Partial) (f : WsFrame) :
    FrameStep δ :=
  match frameError compression f with
  | some why => .last (.error 1002 why)
  | none =>
      match f.opcode.val with
      | 0 => continuationStep decode d f.payload f.fin p
      | 1 | 2 => dataStep decode d ⟨f.opcode.val = 1, f.rsv1 && compression, f.payload⟩ f.fin p
      | 8 => .last (closeEvent f.payload)
      | 9 => .go (some (.ping f.payload)) d p
      | 10 => .go none d p
      | _ => .last (.error 1002 "Unsupported opcode")

theorem fragmentStep_refused (d : δ) {p : Partial} (fin : Bool) (htext : p.text = true)
    (hplain : p.compressed = false) (h : ¬ BeginsUtf8 p.payload) :
    fragmentStep decode d p fin = .last (.error 1007 "Invalid UTF-8 in text message") :=
  if_pos ⟨htext, by simp [hplain], h⟩

/-- The last fragment of what is not compressed: the text is checked as a whole. -/
theorem fragmentStep_plain (d : δ) {p : Partial} (hplain : p.compressed = false) :
    fragmentStep decode d p true = messageStep d p.text p.payload := by
  by_cases h : p.text = true ∧ ¬ BeginsUtf8 p.payload
  · have hbad : ¬ WellFormed p.text p.payload := fun hok =>
      h.2 ⟨[], by rw [List.append_nil]; exact hok h.1⟩
    rw [fragmentStep_refused decode d true h.1 hplain h.2, messageStep, if_neg hbad]
  · rw [fragmentStep, if_neg fun hrefused => h ⟨hrefused.1, hrefused.2.2⟩, if_neg (by simp),
      if_neg (by simp [hplain])]

/-- What a stream of frames comes to. -/
noncomputable def assemble (compression : Bool) (d : δ) (p : Option Partial) :
    List WsFrame → List Event
  | [] => []
  | f :: fs =>
      match frameStep decode compression d p f with
      | .last e => [e]
      | .go e d p => e.toList ++ assemble compression d p fs

end Assemble

-- ============================================================================
-- Telling the sinks
-- ============================================================================

section Sinks

variable {σ : Type*} (sinks : Sinks σ)

def Sinks.on (s : σ) : Event → σ
  | .text message => sinks.onRxText s message
  | .binary message => sinks.onRxBinary s message
  | .ping payload => sinks.onRxPing s payload
  | .close code reason => sinks.onRxClose s code reason
  | .error code why => sinks.onRxProtocolError s code why

/-- One event after the other, until the sinks are terminating. -/
def Sinks.take (s : σ) : List Event → σ
  | [] => s
  | e :: es => if sinks.rxIsTerminating s then s else Sinks.take (sinks.on s e) es

variable {sinks} {I : σ → Prop}

theorem Sinks.take_terminating {s : σ} (h : sinks.rxIsTerminating s = true) (es : List Event) :
    sinks.take s es = s := by
  cases es with
  | nil => rfl
  | cons e es => exact if_pos h

/-- Events behind which nothing is read. -/
def Event.IsLast : Event → Prop
  | .close _ _ => True
  | .error _ _ => True
  | _ => False

theorem Sinks.Lawful.on (hlaw : sinks.Lawful I) {s : σ} (hs : I s)
    (hrun : sinks.rxIsTerminating s = false) (e : Event) :
    I (sinks.on s e) ∧
      (e.IsLast → sinks.rxIsTerminating (sinks.on s e) = true) ∧
      (¬ e.IsLast → sinks.rxCompressionEnabled (sinks.on s e) = sinks.rxCompressionEnabled s) := by
  cases e with
  | text message => exact ⟨(hlaw.text s message hs hrun).1, False.elim,
      fun _ => (hlaw.text s message hs hrun).2⟩
  | binary message => exact ⟨(hlaw.binary s message hs hrun).1, False.elim,
      fun _ => (hlaw.binary s message hs hrun).2⟩
  | ping payload => exact ⟨(hlaw.ping s payload hs hrun).1, False.elim,
      fun _ => (hlaw.ping s payload hs hrun).2⟩
  | close code reason => exact ⟨(hlaw.close s code reason hs hrun).1,
      fun _ => (hlaw.close s code reason hs hrun).2, fun h => absurd trivial h⟩
  | error code why => exact ⟨(hlaw.error s code why hs hrun).1,
      fun _ => (hlaw.error s code why hs hrun).2, fun h => absurd trivial h⟩

end Sinks

-- ============================================================================
-- The handlers put frames together
-- ============================================================================

section Handlers

variable {Z : Zlib} {σ : Type*} {sinks : Sinks σ} {I : σ → Prop}

/-- `decompressMessage`, with what is done with the stream behind a message. -/
def Inflater.decode (i : Inflater Z) (message : Bytes) : Option Bytes × Inflater Z :=
  match i.rxInflate message with
  | (none, i) => (none, i)
  | (some output, i) => (some output, i.rxMaybeResetAfterMessage)

/-- The receiver has put together what the reassembly has. -/
structure Receiver.Holds (r : Receiver Z) (d : Inflater Z) (p : Option Partial) : Prop where
  inflater : r.inflater = d
  in_progress : r.message_in_progress = p.isSome
  compressed : ∀ q ∈ p, r.compressed_message_in_progress = q.compressed
  opcode : ∀ q ∈ p, r.fragmented_opcode = if q.text then 1 else 2
  message : ∀ q ∈ p, r.fragmented_message = q.payload
  validator : ∀ q ∈ p, q.text = true → q.compressed = false → r.utf8Validator.Read q.payload

/-- A handler has done what the step of the frame says. -/
def Did (sinks : Sinks σ) (s : σ) (out : Receiver Z × σ) : FrameStep (Inflater Z) → Prop
  | .last e => e.IsLast ∧ out.2 = sinks.on s e
  | .go e d p => (∀ e' ∈ e, ¬ e'.IsLast) ∧ out.2 = e.elim s (sinks.on s) ∧ out.1.Holds d p

theorem Receiver.holds_some_iff {r : Receiver Z} {d : Inflater Z} {p : Partial} :
    r.Holds d (some p) ↔ ∃ v : Utf8Validator,
      r = ⟨d, true, p.compressed, if p.text then 1 else 2, p.payload, v⟩ ∧
        (p.text = true → p.compressed = false → v.Read p.payload) := by
  constructor
  · rintro ⟨rfl, hprogress, hcompressed, hopcode, hmessage, hread⟩
    refine ⟨r.utf8Validator, ?_, hread p rfl⟩
    rw [← hcompressed p rfl, ← hopcode p rfl, ← hmessage p rfl,
      ← hprogress.trans (Option.isSome_some)]
  · rintro ⟨v, rfl, hread⟩
    exact ⟨rfl, rfl, fun q hq => by rw [← Option.some.inj hq],
      fun q hq => by rw [← Option.some.inj hq], fun q hq => by rw [← Option.some.inj hq],
      fun q hq => by rw [← Option.some.inj hq]; exact hread⟩

theorem Receiver.holds_init (inflater : Inflater Z) :
    (Receiver.init inflater).Holds inflater none :=
  ⟨rfl, rfl, by simp, by simp, by simp, by simp⟩

theorem did_messageStep {s : σ} {d : Inflater Z} {text : Bool} {message : Bytes}
    {out : Receiver Z × σ}
    (hok : WellFormed text message →
      out.2 = sinks.on s (if text then .text message else .binary message) ∧ out.1.Holds d none)
    (hbad : ¬ WellFormed text message →
      out.2 = sinks.onRxProtocolError s 1007 "Invalid UTF-8 in text message") :
    Did sinks s out (messageStep d text message) := by
  unfold messageStep
  by_cases h : WellFormed text message
  · rw [if_pos h]
    refine ⟨fun e' he' => ?_, hok h⟩
    rw [← Option.some.inj he']
    cases text <;> exact id
  · rw [if_neg h]
    exact ⟨trivial, hbad h⟩

theorem holds_resetFragments (r : Receiver Z) : r.resetFragments.Holds r.inflater none :=
  ⟨rfl, rfl, by simp, by simp, by simp, by simp⟩

/-- The check at the end of a fragmented text. -/
theorem finish_check {r : Receiver Z} {message : Bytes}
    (hread : r.compressed_message_in_progress = false → r.utf8Validator.Read message) :
    (if r.compressed_message_in_progress = true then
        (Utf8Validator.reset.validateChunk message).1 = true ∧
          (Utf8Validator.reset.validateChunk message).2.validateFinal = true
      else r.utf8Validator.validateFinal = true) ↔ WellFormedUtf8 message := by
  by_cases hcompressed : r.compressed_message_in_progress = true
  · rw [if_pos hcompressed]
    exact Utf8Validator.reset_validate_iff message
  · rw [if_neg hcompressed]
    exact (hread (Bool.eq_false_iff.mpr hcompressed)).final

theorem did_finishMessage {r : Receiver Z} {s : σ} {text : Bool} {message : Bytes}
    (hopcode : r.fragmented_opcode = if text then 1 else 2)
    (hmessage : r.fragmented_message = message)
    (hread : text = true → r.compressed_message_in_progress = false →
      r.utf8Validator.Read message) :
    Did sinks s (r.finishMessage sinks s) (messageStep r.inflater text message) := by
  cases text with
  | false =>
      have hwhole : r.finishMessage sinks s = (r.resetFragments, sinks.onRxBinary s message) := by
        rw [Receiver.finishMessage, hopcode, hmessage]
        rfl
      rw [hwhole]
      exact did_messageStep (fun _ => ⟨rfl, holds_resetFragments r⟩)
        (fun hbad => absurd (fun h => absurd h (by decide)) hbad)
  | true =>
      have hcheck := finish_check (hread rfl)
      subst hmessage
      refine did_messageStep (fun hok => ?_) (fun hbad => ?_)
      · have hfinish : r.finishMessage sinks s =
            ({ r with utf8Validator := .reset }.resetFragments,
              sinks.onRxText s r.fragmented_message) := by
          rw [Receiver.finishMessage, hopcode]
          exact if_neg (not_not.mpr (hcheck.mpr (hok rfl)))
        rw [hfinish]
        exact ⟨rfl, holds_resetFragments { r with utf8Validator := .reset }⟩
      · have hfinish : r.finishMessage sinks s = ({ r with utf8Validator := .reset },
            sinks.onRxProtocolError s 1007 "Invalid UTF-8 in text message") := by
          rw [Receiver.finishMessage, hopcode]
          exact if_pos fun h => hbad fun _ => hcheck.mp h
        rw [hfinish]

theorem decode_none {i i' : Inflater Z} {m : Bytes} (h : i.rxInflate m = (none, i')) :
    i.decode m = (none, i') := by
  rw [Inflater.decode, h]

theorem decode_some {i i' : Inflater Z} {m output : Bytes}
    (h : i.rxInflate m = (some output, i')) :
    i.decode m = (some output, i'.rxMaybeResetAfterMessage) := by
  rw [Inflater.decode, h]

/-- A fragment that may belong to a text has been collected. -/
theorem did_collected {r : Receiver Z} {d : Inflater Z} {p : Partial} (hr : r.Holds d (some p))
    (hbegins : ¬ (p.text = true ∧ ¬ p.compressed = true ∧ ¬ BeginsUtf8 p.payload)) (s : σ)
    (fin : Bool) :
    Did sinks s (r.collected sinks s fin) (fragmentStep Inflater.decode d p fin) := by
  obtain ⟨v, rfl, hread⟩ := Receiver.holds_some_iff.mp hr
  unfold Receiver.collected fragmentStep
  rw [if_neg hbegins]
  dsimp only
  by_cases hfin : fin = true
  · rw [if_neg (not_not.mpr hfin), if_neg (not_not.mpr hfin)]
    by_cases hc : p.compressed = true
    · rw [if_pos hc, if_pos hc]
      cases hinflate : d.rxInflate p.payload with
      | mk output inflater =>
          cases output with
          | none =>
              rw [decode_none hinflate]
              exact ⟨trivial, rfl⟩
          | some output =>
              rw [decode_some hinflate]
              refine did_finishMessage rfl rfl fun _ hplain => ?_
              exact absurd (hplain.symm.trans hc) (by decide)
    · rw [if_neg hc, if_neg hc]
      exact did_finishMessage rfl rfl fun htext _ => hread htext (Bool.eq_false_iff.mpr hc)
  · rw [if_pos hfin, if_pos hfin]
    exact ⟨by simp, rfl, hr⟩

/-- Only an uncompressed text is checked as its fragments come. -/
theorem plain_iff (p : Partial) :
    (¬ p.compressed = true ∧ (if p.text = true then 1 else 2) = 1) ↔
      p.text = true ∧ p.compressed = false := by
  cases p.text <;> cases p.compressed <;> decide

theorem did_continuation {r : Receiver Z} {d : Inflater Z} {p : Partial} (hr : r.Holds d (some p))
    (s : σ) (payload : Bytes) (fin : Bool) :
    Did sinks s (r.handleContinuationFrame sinks s payload fin)
      (fragmentStep Inflater.decode d { p with payload := p.payload ++ payload } fin) := by
  obtain ⟨v, rfl, hread⟩ := Receiver.holds_some_iff.mp hr
  unfold Receiver.handleContinuationFrame
  rw [if_neg (not_not.mpr rfl)]
  dsimp only
  by_cases hplain : p.text = true ∧ p.compressed = false
  · -- the validator has read the fragments so far
    obtain ⟨hfst, hsnd⟩ := (hread hplain.1 hplain.2).chunk payload
    rw [if_pos ((plain_iff p).mpr hplain)]
    by_cases hok : (v.validateChunk payload).1 = true
    · rw [if_neg (not_not.mpr hok)]
      exact did_collected (p := { p with payload := p.payload ++ payload })
        (Receiver.holds_some_iff.mpr ⟨_, rfl, fun _ _ => hsnd hok⟩) (fun h => h.2.2 (hfst.mp hok))
        s fin
    · rw [if_pos hok, fragmentStep_refused Inflater.decode d
        (p := { p with payload := p.payload ++ payload }) fin hplain.1 hplain.2
        fun h => hok (hfst.mpr h)]
      exact ⟨trivial, rfl⟩
  · rw [if_neg fun h => hplain ((plain_iff p).mp h), if_neg (not_not.mpr rfl)]
    exact did_collected (p := { p with payload := p.payload ++ payload })
      (Receiver.holds_some_iff.mpr ⟨v, rfl, fun htext hc => absurd ⟨htext, hc⟩ hplain⟩)
      (fun h => hplain ⟨h.1, Bool.eq_false_iff.mpr h.2.1⟩) s fin

/-- An unfragmented message is one whose first fragment is the last. -/
theorem did_wholeMessage {r : Receiver Z} (hr : r.message_in_progress = false) (s : σ)
    {opcode : Nat} (hopcode : opcode = 1 ∨ opcode = 2) (message : Bytes) :
    Did sinks s (r.wholeMessage sinks s opcode message)
      (messageStep r.inflater (opcode = 1) message) := by
  have hnone : ∀ v, ({ r with utf8Validator := v } : Receiver Z).Holds r.inflater none := fun v =>
    ⟨rfl, hr, by simp, by simp, by simp, by simp⟩
  have hcheck := Utf8Validator.reset_validate_iff message
  rcases hopcode with rfl | rfl
  · refine did_messageStep (fun hok => ?_) (fun hbad => ?_)
    · obtain ⟨hchunk, hfinal⟩ := hcheck.mpr (hok rfl)
      have hwhole : r.wholeMessage sinks s 1 message =
          ({ r with utf8Validator := (Utf8Validator.reset.validateChunk message).2 },
            sinks.onRxText s message) := by
        rw [Receiver.wholeMessage, if_pos rfl]
        exact if_neg (by simp [hchunk, hfinal])
      rw [hwhole]
      exact ⟨rfl, hnone _⟩
    · have hwhole : r.wholeMessage sinks s 1 message = ({ r with utf8Validator := .reset },
          sinks.onRxProtocolError s 1007 "Invalid UTF-8 in text message") := by
        rw [Receiver.wholeMessage, if_pos rfl]
        refine if_pos ?_
        rw [← not_and_or]
        exact fun h => hbad fun _ => hcheck.mp h
      rw [hwhole]
  · exact did_messageStep (fun _ => ⟨rfl, hnone r.utf8Validator⟩)
      (fun hbad => absurd (fun h => absurd h (by decide)) hbad)

theorem did_dataFrame_whole {r : Receiver Z} (hr : r.message_in_progress = false) (s : σ)
    (payload : Bytes) {opcode : Nat} (hopcode : opcode = 1 ∨ opcode = 2) (rsv1 : Bool) :
    Did sinks s (r.handleDataFrame sinks s payload true opcode rsv1)
      (fragmentStep Inflater.decode r.inflater
        ⟨opcode = 1, rsv1 && sinks.rxCompressionEnabled s, payload⟩ true) := by
  by_cases hc : rsv1 = true ∧ sinks.rxCompressionEnabled s = true
  · have hframe : r.handleDataFrame sinks s payload true opcode rsv1 =
        match r.inflater.rxInflate payload with
        | (none, inflater) => ({ r with inflater := inflater },
            sinks.onRxProtocolError s 1007 "Decompression failed")
        | (some message, inflater) =>
            { r with inflater := inflater.rxMaybeResetAfterMessage }.wholeMessage sinks s
              opcode message := by
      rw [Receiver.handleDataFrame, if_neg (by simp [hr])]
      exact (if_neg (by simp)).trans (if_pos hc)
    rw [hframe, Bool.and_eq_true_iff.mpr hc, fragmentStep, if_neg (by simp), if_neg (by simp),
      if_pos rfl]
    cases hinflate : r.inflater.rxInflate payload with
    | mk output inflater =>
        cases output with
        | none =>
            rw [decode_none hinflate]
            exact ⟨trivial, rfl⟩
        | some message =>
            rw [decode_some hinflate]
            exact did_wholeMessage (r := { r with
              inflater := inflater.rxMaybeResetAfterMessage }) hr s hopcode message
  · have hframe : r.handleDataFrame sinks s payload true opcode rsv1 =
        r.wholeMessage sinks s opcode payload := by
      rw [Receiver.handleDataFrame, if_neg (by simp [hr])]
      exact (if_neg (by simp)).trans (if_neg hc)
    rw [hframe, fragmentStep_plain Inflater.decode r.inflater
      (Bool.eq_false_iff.mpr fun h => hc (Bool.and_eq_true_iff.mp h))]
    exact did_wholeMessage hr s hopcode payload

theorem did_dataFrame_first {r : Receiver Z} (hr : r.message_in_progress = false) (s : σ)
    (payload : Bytes) {opcode : Nat} (hopcode : opcode = 1 ∨ opcode = 2) (rsv1 : Bool) :
    Did sinks s (r.handleDataFrame sinks s payload false opcode rsv1)
      (fragmentStep Inflater.decode r.inflater
        ⟨opcode = 1, rsv1 && sinks.rxCompressionEnabled s, payload⟩ false) := by
  have hcode : opcode = if decide (opcode = 1) = true then 1 else 2 := by
    rcases hopcode with rfl | rfl <;> rfl
  have hand : decide (rsv1 = true ∧ sinks.rxCompressionEnabled s = true) =
      (rsv1 && sinks.rxCompressionEnabled s) := by
    rw [Bool.decide_and, Bool.decide_eq_true, Bool.decide_eq_true]
  unfold Receiver.handleDataFrame
  rw [if_neg (by simp [hr])]
  dsimp only
  rw [if_pos (by decide), hand]
  by_cases hplain : opcode = 1 ∧ ¬ (rsv1 = true ∧ sinks.rxCompressionEnabled s = true)
  · obtain ⟨hfst, hsnd⟩ := Utf8Validator.read_reset.chunk payload
    rw [List.nil_append] at hfst hsnd
    have hc : (rsv1 && sinks.rxCompressionEnabled s) = false :=
      Bool.eq_false_iff.mpr fun h => hplain.2 (Bool.and_eq_true_iff.mp h)
    rw [if_pos hplain]
    by_cases hok : (Utf8Validator.reset.validateChunk payload).1 = true
    · rw [if_neg (not_not.mpr hok), fragmentStep, if_neg fun h => h.2.2 (hfst.mp hok),
        if_pos (by decide)]
      refine ⟨by simp, rfl, Receiver.holds_some_iff.mpr ⟨_, ?_, fun _ _ => hsnd hok⟩⟩
      exact congrArg (fun o => (⟨r.inflater, true, _, o, payload, _⟩ : Receiver Z)) hcode
    · rw [if_pos hok, fragmentStep_refused Inflater.decode r.inflater false
        (decide_eq_true hplain.1) hc fun h => hok (hfst.mpr h)]
      exact ⟨trivial, rfl⟩
  · rw [if_neg hplain, fragmentStep, if_neg, if_pos (by decide)]
    · refine ⟨by simp, rfl, Receiver.holds_some_iff.mpr ⟨r.utf8Validator, ?_, ?_⟩⟩
      · exact congrArg (fun o => (⟨r.inflater, true, _, o, payload, _⟩ : Receiver Z)) hcode
      · intro htext hc
        refine absurd ⟨of_decide_eq_true htext, fun h => ?_⟩ hplain
        exact absurd (hc.symm.trans (Bool.and_eq_true_iff.mpr h)) (by decide)
    · exact fun h => hplain ⟨of_decide_eq_true h.1, fun hc => h.2.1 (Bool.and_eq_true_iff.mpr hc)⟩

theorem closeReply_eq {payload : Bytes} (hlen : payload.length ≤ 125) (s : σ) :
    sinks.onRxClose s (closeReply payload).1 (closeReply payload).2 =
      sinks.on s (closeEvent payload) := by
  unfold closeReply
  rw [if_neg (by omega)]
  match payload with
  | [] => rfl
  | [_] => rfl
  | b0 :: b1 :: reason =>
      have htake : reason.take 123 = reason :=
        List.take_of_length_le (by simp only [List.length_cons] at hlen; omega)
      dsimp only
      rw [htake, closeEvent]
      by_cases hcode : isCloseCode (beNat [b0, b1]) = true
      · rw [if_neg (not_not.mpr hcode)]
        by_cases hreason : isValidUtf8 reason = true
        · rw [if_neg (not_not.mpr hreason), if_pos ⟨hcode, (isValidUtf8_iff reason).mp hreason⟩]
          rfl
        · rw [if_pos hreason, if_neg fun h => hreason ((isValidUtf8_iff reason).mpr h.2)]
          rfl
      · rw [if_pos hcode, if_neg fun h => hcode h.1]
        rfl

theorem closeEvent_isLast (payload : Bytes) : (closeEvent payload).IsLast := by
  unfold closeEvent
  split
  · trivial
  · trivial
  · split <;> trivial

/-- A control frame without an error is short. -/
theorem length_le_of_frameError {compression : Bool} {f : WsFrame}
    (h : frameError compression f = none) (hcontrol : isControl f.opcode.val = true) :
    f.payload.length ≤ 125 := by
  by_contra hlong
  unfold frameError at h
  rw [if_pos (c := isControl f.opcode.val = true ∧ 125 < f.payload.length)
    ⟨hcontrol, by omega⟩] at h
  split at h <;> try cases h
  split at h <;> try cases h
  split at h <;> cases h

theorem did_continuationFrame {r : Receiver Z} {d : Inflater Z} {p : Option Partial}
    (hr : r.Holds d p) (s : σ) (payload : Bytes) (fin : Bool) :
    Did sinks s (r.handleContinuationFrame sinks s payload fin)
      (continuationStep Inflater.decode d payload fin p) := by
  cases p with
  | none =>
      have hframe : r.handleContinuationFrame sinks s payload fin =
          (r, sinks.onRxProtocolError s 1002 "continuation frame without initial frame") :=
        if_pos (by simp [hr.in_progress])
      rw [hframe]
      exact ⟨trivial, rfl⟩
  | some p => exact did_continuation hr s payload fin

theorem did_dataFrame {r : Receiver Z} {d : Inflater Z} {p : Option Partial} (hr : r.Holds d p)
    (s : σ) (payload : Bytes) (fin : Bool) {opcode : Nat} (hopcode : opcode = 1 ∨ opcode = 2)
    (rsv1 : Bool) :
    Did sinks s (r.handleDataFrame sinks s payload fin opcode rsv1)
      (dataStep Inflater.decode d ⟨opcode = 1, rsv1 && sinks.rxCompressionEnabled s, payload⟩ fin
        p) := by
  cases p with
  | none =>
      obtain rfl := hr.inflater
      cases fin with
      | true => exact did_dataFrame_whole hr.in_progress s payload hopcode rsv1
      | false => exact did_dataFrame_first hr.in_progress s payload hopcode rsv1
  | some p =>
      have hframe : r.handleDataFrame sinks s payload fin opcode rsv1 =
          (r, sinks.onRxProtocolError s 1002
            "Received new data frame when expecting continuation frame") :=
        if_pos hr.in_progress
      rw [hframe]
      exact ⟨trivial, rfl⟩

/-- A turn on a whole frame does what the step of the frame says. -/
theorem turn_frameStep {x : Rx Z σ} (hx : ¬ x.Ended sinks) {d : Inflater Z} {p : Option Partial}
    (hr : x.receiver.Holds d p) {f : WsFrame} {form : LengthForm}
    (hfits : form.Fits f.payload.length) (hmax : f.payload.length ≤ maxSize) (rest : Bytes) :
    ∃ x' : Rx Z σ, x'.thrown = false ∧
      Did sinks x.sinks (x'.receiver, x'.sinks)
        (frameStep Inflater.decode (sinks.rxCompressionEnabled x.sinks) d p f) ∧
      (x.onDataTurn sinks (f.encode form ++ rest) = .next x' (f.encode form).length ∨
        x.onDataTurn sinks (f.encode form ++ rest) = .stop x' ∧
          ∃ e, frameStep Inflater.decode (sinks.rxCompressionEnabled x.sinks) d p f = .last e) := by
  obtain ⟨hthrown, -⟩ := Rx.not_ended hx
  rw [Rx.onDataTurn_encode hx hfits hmax]
  unfold frameStep
  cases herror : frameError (sinks.rxCompressionEnabled x.sinks) f with
  | some why =>
      exact ⟨{ x with sinks := sinks.onRxProtocolError x.sinks 1002 why }, hthrown,
        ⟨trivial, rfl⟩, .inr ⟨rfl, _, rfl⟩⟩
  | none =>
      have hshort := length_le_of_frameError herror
      have hcontinuation := @did_continuationFrame Z σ sinks _ _ _ hr x.sinks f.payload f.fin
      have hdata := fun opcode (hopcode : opcode = 1 ∨ opcode = 2) =>
        @did_dataFrame Z σ sinks _ _ _ hr x.sinks f.payload f.fin _ hopcode f.rsv1
      dsimp only
      generalize f.opcode.val = opcode at hshort ⊢
      match opcode, hshort with
      | 0, _ => exact ⟨⟨_, _, false⟩, rfl, hcontinuation, .inl rfl⟩
      | 1, _ => exact ⟨⟨_, _, false⟩, rfl, hdata 1 (.inl rfl), .inl rfl⟩
      | 2, _ => exact ⟨⟨_, _, false⟩, rfl, hdata 2 (.inr rfl), .inl rfl⟩
      | 8, hshort =>
          exact ⟨{ x with sinks :=
              sinks.onRxClose x.sinks (closeReply f.payload).1 (closeReply f.payload).2 },
            hthrown, ⟨closeEvent_isLast f.payload, closeReply_eq (hshort rfl) x.sinks⟩, .inl rfl⟩
      | 9, hshort =>
          have hping : handlePingFrame sinks x.sinks f.payload =
              sinks.onRxPing x.sinks f.payload := if_neg (Nat.not_lt.mpr (hshort rfl))
          refine ⟨{ x with sinks := handlePingFrame sinks x.sinks f.payload }, hthrown,
            ⟨fun e' he' => ?_, hping, hr⟩, .inl rfl⟩
          cases he'
          exact id
      | 10, _ => exact ⟨x, hthrown, ⟨by simp, rfl, hr⟩, .inl rfl⟩
      | 3, _ | 4, _ | 5, _ | 6, _ | 7, _ | _ + 11, _ =>
          exact ⟨{ x with sinks := sinks.onRxProtocolError x.sinks 1002 "Unsupported opcode" },
            hthrown, ⟨trivial, rfl⟩, .inr ⟨rfl, _, rfl⟩⟩

-- ============================================================================
-- Streams of frames
-- ============================================================================

/-- Frames on the wire, each with its length in some form. -/
def wire (fs : List (WsFrame × LengthForm)) : Bytes := fs.flatMap fun f => f.1.encode f.2

/-- The lengths can be written so, and are within what a vector can hold. -/
def Writable (fs : List (WsFrame × LengthForm)) : Prop :=
  ∀ f ∈ fs, f.2.Fits f.1.payload.length ∧ f.1.payload.length ≤ maxSize

instance (fs : List (WsFrame × LengthForm)) : Decidable (Writable fs) :=
  inferInstanceAs (Decidable (∀ f ∈ fs, f.2.Fits f.1.payload.length ∧ f.1.payload.length ≤ maxSize))

theorem onData_wire (hlaw : sinks.Lawful I) {fs : List (WsFrame × LengthForm)} (hfs : Writable fs)
    {x : Rx Z σ} (hthrown : x.thrown = false) (hI : I x.sinks) {d : Inflater Z}
    {p : Option Partial} (hr : x.receiver.Holds d p) :
    (x.onData sinks (wire fs)).1.thrown = false ∧
      (x.onData sinks (wire fs)).1.sinks = sinks.take x.sinks
        (assemble Inflater.decode (sinks.rxCompressionEnabled x.sinks) d p (fs.map Prod.fst)) := by
  induction fs generalizing x d p with
  | nil =>
      rw [wire, List.flatMap_nil, Rx.onData_nil]
      exact ⟨hthrown, rfl⟩
  | cons f fs ih =>
      obtain ⟨hf, hfs⟩ := List.forall_mem_cons.mp hfs
      by_cases hrun : sinks.rxIsTerminating x.sinks = true
      · rw [Rx.onData, Consumer.drain_stop (Rx.onDataTurn_ended (.inr hrun) _),
          Sinks.take_terminating hrun]
        exact ⟨hthrown, rfl⟩
      have hended : ¬ x.Ended sinks := by
        rintro (h | h)
        · exact absurd (h.symm.trans hthrown) (by decide)
        · exact hrun h
      have hwire : wire (f :: fs) = f.1.encode f.2 ++ wire fs := List.flatMap_cons
      obtain ⟨x', hthrown', hdid, hturn⟩ := turn_frameStep hended hr hf.1 hf.2 (wire fs)
      rw [hwire, List.map_cons, assemble]
      cases hstep : frameStep Inflater.decode (sinks.rxCompressionEnabled x.sinks) d p f.1 with
      | last e =>
          rw [hstep] at hdid hturn
          obtain ⟨hlast, hsinks⟩ := hdid
          have hsinks : x'.sinks = sinks.on x.sinks e := hsinks
          have hstop : x'.Ended sinks := .inr (by
            rw [hsinks]
            exact (hlaw.on hI (Bool.eq_false_iff.mpr hrun) e).2.1 hlast)
          have htake : sinks.take x.sinks [e] = x'.sinks := by
            rw [hsinks]
            exact if_neg hrun
          have hdrain : (x.onData sinks (f.1.encode f.2 ++ wire fs)).1 = x' := by
            rcases hturn with hnext | ⟨hdone, -⟩
            · rw [Rx.onData, (Rx.onDataTurn_incremental hlaw).drain_next hI hnext,
                Consumer.drain_stop (Rx.onDataTurn_ended hstop _)]
            · rw [Rx.onData, Consumer.drain_stop hdone]
          rw [hdrain, htake]
          exact ⟨hthrown', rfl⟩
      | go e d' p' =>
          rw [hstep] at hdid hturn
          obtain ⟨hgo, hsinks, hr'⟩ := hdid
          have hsinks : x'.sinks = e.elim x.sinks (sinks.on x.sinks) := hsinks
          have hnext : x.onDataTurn sinks (f.1.encode f.2 ++ wire fs) =
              .next x' (f.1.encode f.2).length := by
            rcases hturn with hnext | ⟨-, e', habsurd⟩
            · exact hnext
            · exact absurd habsurd (by simp)
          have hkept : I x'.sinks ∧
              sinks.rxCompressionEnabled x'.sinks = sinks.rxCompressionEnabled x.sinks := by
            rw [hsinks]
            cases e with
            | none => exact ⟨hI, rfl⟩
            | some e =>
                obtain ⟨hinv, -, hsame⟩ := hlaw.on hI (Bool.eq_false_iff.mpr hrun) e
                exact ⟨hinv, hsame (hgo e rfl)⟩
          have htake : ∀ es, sinks.take x.sinks (e.toList ++ es) = sinks.take x'.sinks es := by
            intro es
            rw [hsinks]
            cases e with
            | none => rfl
            | some e => exact if_neg hrun
          have hrest : x.onData sinks (f.1.encode f.2 ++ wire fs) = x'.onData sinks (wire fs) := by
            rw [Rx.onData, (Rx.onDataTurn_incremental hlaw).drain_next hI hnext,
              List.drop_left]
            rfl
          rw [hrest, htake, ← hkept.2]
          exact ih hfs hthrown' hkept.1 hr'

/-- The frames of a server, in whatever segments their bytes arrive and in whatever
    form their lengths are written, are put together as `assemble` says: the sinks are
    told just that, and nothing is thrown. -/
theorem onSegments_wire (hlaw : sinks.Lawful I) {s : σ} (hs : I s) (inflater : Inflater Z)
    {fs : List (WsFrame × LengthForm)} (hfs : Writable fs) {segs : List Bytes}
    (hsegs : segs.flatten = wire fs) :
    (Rx.onSegments sinks ⟨.init inflater, s, false⟩ segs).1.thrown = false ∧
      (Rx.onSegments sinks ⟨.init inflater, s, false⟩ segs).1.sinks = sinks.take s
        (assemble Inflater.decode (sinks.rxCompressionEnabled s) inflater none
          (fs.map Prod.fst)) := by
  rw [Rx.onSegments_eq_onData hlaw hs, hsegs]
  exact onData_wire hlaw hfs rfl hs (Receiver.holds_init inflater)

/-- A ping, and a text that is closed in the middle. -/
theorem onSegments_wire_close :
    (Rx.onSegments Sinks.log Rx.logging
      [[0x89, 1, 7, 0x01, 1], [104, 0x88, 126, 0, 2, 3, 232]]).1.sinks =
        Sinks.log.take ([], false) (assemble (Inflater.decode (Z := .absent)) false
          ⟨.default, none⟩ none
          [⟨true, false, false, false, 9, none, [7]⟩, ⟨false, false, false, false, 1, none, [104]⟩,
            ⟨true, false, false, false, 8, none, [3, 232]⟩]) :=
  (@onSegments_wire .absent _ Sinks.log _ Sinks.log_lawful _ trivial ⟨.default, none⟩
    [(⟨true, false, false, false, 9, none, [7]⟩, .short),
      (⟨false, false, false, false, 1, none, [104]⟩, .short),
      (⟨true, false, false, false, 8, none, [3, 232]⟩, .medium)]
    (by decide) _ (by decide)).2

end Handlers

end FsBridge.Libwsc
