/-
  FsBridge.Libwsc.Delivery

  What a conforming server sends arrives.

  A server sends pings, pongs and messages; a message may be compressed and cut into
  fragments, and pings and pongs may stand between them.  `onSegments_items` says that
  the sinks are told of every ping and every message, whole and in order, and of
  nothing else.
-/

import FsBridge.Libwsc.Messages

namespace FsBridge.Libwsc

open FsBridge.Lib

/-- A control frame that may stand anywhere. -/
inductive Control where
  | ping (payload : Bytes)
  | pong (payload : Bytes)
deriving DecidableEq, Repr

/-- A fragment that is not the first, and what is sent before it. -/
structure Fragment where
  before : List Control
  payload : Bytes
deriving DecidableEq, Repr

/-- What a server sends; a compressed message by what the compressor gave. -/
inductive Item where
  | control (c : Control)
  | message (text compressed : Bool) (first : Bytes) (rest : List Fragment)
deriving DecidableEq, Repr

/-- A frame of a server, with no bits set that an extension would set. -/
def plainFrame (fin : Bool) (opcode : Fin 16) (payload : Bytes) : WsFrame :=
  ⟨fin, false, false, false, opcode, none, payload⟩

namespace Control

def payload : Control → Bytes
  | ping p => p
  | pong p => p

def frame : Control → WsFrame
  | ping p => plainFrame true 9 p
  | pong p => plainFrame true 10 p

/-- A pong is not told of. -/
def events : Control → List Event
  | ping p => [.ping p]
  | pong _ => []

end Control

/-- The frames behind the first one of a message. -/
def fragmentFrames : List Fragment → List WsFrame
  | [] => []
  | g :: rest => g.before.map Control.frame ++
      plainFrame rest.isEmpty 0 g.payload :: fragmentFrames rest

namespace Item

def frames : Item → List WsFrame
  | control c => [c.frame]
  | message text compressed first rest =>
      { plainFrame rest.isEmpty (if text then 1 else 2) first with rsv1 := compressed } ::
        fragmentFrames rest

def messageEvent (text : Bool) (m : Bytes) : Event := if text then .text m else .binary m

end Item

section Assemble

variable {δ : Type*} (decode : δ → Bytes → Option Bytes × δ) (compression : Bool) (d : δ)

/-- The message `m` has been sent as `sent`, to a client whose decompressor is `d`. -/
def SentAs (compressed : Bool) (d : δ) (sent m : Bytes) (d' : δ) : Prop :=
  if compressed then compression = true ∧ decode d sent = (some m, d') else sent = m ∧ d = d'

/-- A server keeps to the protocol in what it sends, and this is what it says: control
    frames are short, texts are well-formed, and what is compressed, where that has been
    agreed on, is what the decompressor of the client turns into the message. -/
inductive Conforms : δ → List Item → List Event → Prop where
  | nil (d : δ) : Conforms d [] []
  | control {d : δ} {c : Control} {items : List Item} {es : List Event}
      (hshort : c.payload.length ≤ 125) (hitems : Conforms d items es) :
      Conforms d (.control c :: items) (c.events ++ es)
  | message {d d' : δ} {text compressed : Bool} {first m : Bytes} {rest : List Fragment}
      {items : List Item} {es : List Event}
      (hshort : ∀ g ∈ rest, ∀ c ∈ g.before, c.payload.length ≤ 125)
      (hsent : SentAs decode compression compressed d (first ++ rest.flatMap Fragment.payload) m d')
      (htext : text = true → WellFormedUtf8 m) (hitems : Conforms d' items es) :
      Conforms d (.message text compressed first rest :: items)
        ((rest.flatMap Fragment.before).flatMap Control.events ++
          Item.messageEvent text m :: es)

theorem frameError_plain (fin : Bool) (opcode : Fin 16) (payload : Bytes)
    (h : isControl opcode.val = true → fin = true ∧ payload.length ≤ 125) :
    frameError compression (plainFrame fin opcode payload) = none := by
  unfold frameError plainFrame
  dsimp only
  rw [if_neg (by simp), if_neg fun hc => hc.2 (h hc.1).1, if_neg (by simp),
    if_neg fun hc => absurd (h hc.1).2 (Nat.not_le.mpr hc.2)]

/-- A control frame is told of, and the message at hand goes on. -/
theorem assemble_control (p : Option Partial) {c : Control} (h : c.payload.length ≤ 125)
    (fs : List WsFrame) :
    assemble decode compression d p (c.frame :: fs) =
      c.events ++ assemble decode compression d p fs := by
  cases c with
  | ping payload =>
      rw [assemble, frameStep, Control.frame, frameError_plain compression true 9 payload
        fun _ => ⟨rfl, h⟩]
      rfl
  | pong payload =>
      rw [assemble, frameStep, Control.frame, frameError_plain compression true 10 payload
        fun _ => ⟨rfl, h⟩]
      rfl

theorem assemble_controls (p : Option Partial) {cs : List Control}
    (h : ∀ c ∈ cs, c.payload.length ≤ 125) (fs : List WsFrame) :
    assemble decode compression d p (cs.map Control.frame ++ fs) =
      cs.flatMap Control.events ++ assemble decode compression d p fs := by
  induction cs with
  | nil => rfl
  | cons c cs ih =>
      obtain ⟨hc, hcs⟩ := List.forall_mem_cons.mp h
      rw [List.map_cons, List.cons_append, assemble_control decode compression d p hc, ih hcs,
        List.flatMap_cons, List.append_assoc]

/-- A fragment of a message that is well-formed as a whole. -/
theorem fragmentStep_prefix {text compressed : Bool} {payload more m : Bytes} {d' : δ}
    (hsent : SentAs decode compression compressed d (payload ++ more) m d')
    (htext : text = true → WellFormedUtf8 m) (fin : Bool) (hfin : fin = true → more = []) :
    fragmentStep decode d ⟨text, compressed, payload⟩ fin =
      if fin then .go (some (Item.messageEvent text m)) d' none
      else .go none d (some ⟨text, compressed, payload⟩) := by
  cases compressed with
  | true =>
      obtain ⟨-, hdecode⟩ := hsent
      rw [fragmentStep, if_neg fun hbad => hbad.2.1 rfl]
      cases fin with
      | false => rfl
      | true =>
          rw [hfin rfl, List.append_nil] at hdecode
          rw [if_neg (by simp), if_pos rfl, if_pos rfl]
          dsimp only
          rw [hdecode]
          exact if_pos htext
  | false =>
      obtain ⟨rfl, rfl⟩ := hsent
      cases fin with
      | true =>
          have hmore := hfin rfl
          subst hmore
          rw [List.append_nil] at htext ⊢
          rw [fragmentStep_plain decode d rfl]
          exact if_pos htext
      | false =>
          rw [fragmentStep, if_neg fun hbad => hbad.2.2 ⟨more, htext hbad.1⟩]
          rfl

theorem frameStep_continuation (p : Partial) (fin : Bool) (payload : Bytes) :
    frameStep decode compression d (some p) (plainFrame fin 0 payload) =
      fragmentStep decode d { p with payload := p.payload ++ payload } fin := by
  rw [frameStep, frameError_plain compression fin 0 payload fun h => absurd h (by decide)]
  rfl

theorem frameStep_data (text fin : Bool) {compressed : Bool}
    (hcompression : compressed = true → compression = true) (payload : Bytes) :
    frameStep decode compression d none
        { plainFrame fin (if text then 1 else 2) payload with rsv1 := compressed } =
      fragmentStep decode d ⟨text, compressed, payload⟩ fin := by
  have hagreed : (compressed && compression) = compressed := by
    cases compressed with
    | true => exact hcompression rfl
    | false => rfl
  have hnone : frameError compression
      { plainFrame fin (if text then 1 else 2) payload with rsv1 := compressed } = none := by
    unfold frameError plainFrame
    dsimp only
    have hdata : isControl (if text then 1 else 2 : Fin 16).val = false := by cases text <;> rfl
    have hbits : ¬ ((¬ compression = true ∧ compressed = true) ∨ false = true ∨ false = true) := by
      rintro (⟨hoff, hset⟩ | hset | hset)
      · exact hoff (hcompression hset)
      · cases hset
      · cases hset
    rw [if_neg hbits, if_neg (by simp [hdata]), if_neg (by simp), if_neg (by simp [hdata])]
  rw [frameStep, hnone]
  cases text <;> (show fragmentStep decode d ⟨_, compressed && compression, payload⟩ fin = _) <;>
    rw [hagreed] <;> rfl

/-- The rest of a message. -/
theorem assemble_fragments {text compressed : Bool} {rest : List Fragment} (hrest : rest ≠ [])
    {payload m : Bytes} {d' : δ} (hshort : ∀ g ∈ rest, ∀ c ∈ g.before, c.payload.length ≤ 125)
    (hsent : SentAs decode compression compressed d (payload ++ rest.flatMap Fragment.payload) m d')
    (htext : text = true → WellFormedUtf8 m) (fs : List WsFrame) :
    assemble decode compression d (some ⟨text, compressed, payload⟩) (fragmentFrames rest ++ fs) =
      (rest.flatMap Fragment.before).flatMap Control.events ++
        Item.messageEvent text m :: assemble decode compression d' none fs := by
  induction rest generalizing payload with
  | nil => exact absurd rfl hrest
  | cons g rest ih =>
      obtain ⟨hg, hshort⟩ := List.forall_mem_cons.mp hshort
      rw [List.flatMap_cons, ← List.append_assoc] at hsent
      have hstep := fragmentStep_prefix decode compression d hsent htext rest.isEmpty fun h => by
        rw [List.isEmpty_iff.mp h]
        rfl
      rw [fragmentFrames, List.append_assoc, assemble_controls decode compression d _ hg,
        List.cons_append, assemble, frameStep_continuation, hstep, List.flatMap_cons,
        List.flatMap_append]
      cases rest with
      | nil => simp [fragmentFrames]
      | cons g' rest =>
          have hnext := ih (List.cons_ne_nil _ _) hshort hsent
          simp only [List.isEmpty_cons, Bool.false_eq_true, if_false, Option.toList_none,
            List.nil_append]
          rw [hnext]
          simp only [List.append_assoc]

/-- What a server that keeps to the protocol sends comes to what it says. -/
theorem assemble_items {items : List Item} {es : List Event}
    (h : Conforms decode compression d items es) :
    assemble decode compression d none (items.flatMap Item.frames) = es := by
  induction h with
  | nil d => rfl
  | @control d c items es hshort hitems ih =>
      show assemble decode compression d none (c.frame :: items.flatMap Item.frames) = _
      rw [assemble_control decode compression d none hshort, ih]
  | @message d d' text compressed first m rest items es hshort hsent htext hitems ih =>
      have hcompression : compressed = true → compression = true := by
        rintro rfl
        exact hsent.1
      have hstep := fragmentStep_prefix decode compression d hsent htext rest.isEmpty fun h => by
        rw [List.isEmpty_iff.mp h]
        rfl
      rw [List.flatMap_cons, Item.frames, List.cons_append, assemble,
        frameStep_data decode compression d text rest.isEmpty hcompression, hstep]
      cases rest with
      | nil => simp [fragmentFrames, ih]
      | cons g rest =>
          simp only [List.isEmpty_cons, Bool.false_eq_true, if_false, Option.toList_none,
            List.nil_append]
          rw [assemble_fragments decode compression d (List.cons_ne_nil _ _) hshort hsent htext, ih]

end Assemble

section Delivery

variable {Z : Zlib} {σ : Type*} {sinks : Sinks σ} {I : σ → Prop}

/-- However a server cuts its messages into fragments, compresses them, writes the
    lengths and puts control frames between, and however the bytes arrive: the sinks are
    told of each ping and each message, whole and in order, until they are terminating. -/
theorem onSegments_items (hlaw : sinks.Lawful I) {s : σ} (hs : I s) {inflater : Inflater Z}
    {items : List Item} {es : List Event}
    (hitems : Conforms Inflater.decode (sinks.rxCompressionEnabled s) inflater items es)
    {fs : List (WsFrame × LengthForm)} (hframes : fs.map Prod.fst = items.flatMap Item.frames)
    (hfs : Writable fs) {segs : List Bytes} (hsegs : segs.flatten = wire fs) :
    (Rx.onSegments sinks ⟨.init inflater, s, false⟩ segs).1.sinks = sinks.take s es := by
  rw [Rx.onSegments_eq_onData hlaw hs, hsegs,
    (onData_wire hlaw hfs rfl hs (Receiver.holds_init inflater)).2, hframes,
    assemble_items Inflater.decode _ inflater hitems]

/-- Sinks that keep a log, of a client that has agreed on compression. -/
def Sinks.logCompressed : Sinks (List (Nat × Bytes) × Bool) :=
  { Sinks.log with rxCompressionEnabled := fun _ => true }

theorem Sinks.logCompressed_lawful : Sinks.logCompressed.Lawful fun _ => True where
  ping _ _ _ _ := ⟨trivial, rfl⟩
  text _ _ _ _ := ⟨trivial, rfl⟩
  binary _ _ _ _ := ⟨trivial, rfl⟩
  close _ _ _ _ _ := ⟨trivial, rfl⟩
  error _ _ _ _ _ := ⟨trivial, rfl⟩

/-- A message that is nothing but stored blocks, and short. -/
theorem decode_stored {cfg : PerMessageDeflateConfig} (henabled : cfg.enabled = true)
    (z : Zlib.stored.Inflate) {payload m : Bytes} (hshort : m.length < inflateChunk)
    (hblocks : storedBlocks (payload ++ syncFlushTrailer).length (payload ++ syncFlushTrailer) =
      ((payload ++ syncFlushTrailer).length, m)) :
    (⟨cfg, some z⟩ : Inflater Zlib.stored).decode payload = (some m, ⟨cfg, some z⟩) := by
  have hcall : ∀ z : Zlib.stored.Inflate,
      Zlib.stored.inflate z (payload ++ syncFlushTrailer) inflateChunk =
        ⟨.ok, (payload ++ syncFlushTrailer).length, m, z⟩ := by
    intro z
    simp only [Zlib.stored]
    rw [hblocks, List.length_append]
    rfl
  have hloop : ∀ z : Zlib.stored.Inflate, inflateLoop z (payload ++ syncFlushTrailer) [] =
      (true, m, z) := by
    intro z
    rw [inflateLoop]
    simp only [hcall]
    split <;> rename_i hret <;> rw [hcall] at hret <;> cases hret
    exact if_pos ⟨Nat.sub_self _, by omega⟩
  unfold Inflater.decode Inflater.rxInflate
  dsimp only
  rw [if_neg (not_not.mpr henabled), hloop]
  show (some m, (⟨cfg, some _⟩ : Inflater Zlib.stored).rxMaybeResetAfterMessage) = _
  unfold Inflater.rxMaybeResetAfterMessage
  dsimp only
  split <;> split <;> rfl

/-- The bytes 5 and 6, as a message that is compressed. -/
def packed : Bytes := [0, 2, 0, 0xFD, 0xFF, 5, 6, 0]

/-- A character that is cut in two, with a ping between its halves, and a binary message
    that is compressed. -/
theorem onSegments_items_cut :
    (Rx.onSegments Sinks.logCompressed
      ⟨.init (⟨{ PerMessageDeflateConfig.default with enabled := true }, some ()⟩ :
        Inflater Zlib.stored), ([], false), false⟩
      [[0x01, 1, 0xC3, 0x89, 1], [7, 0x80], [126, 0, 1, 0xA9, 0xC2, 8, 0, 2, 0],
        [0xFD, 0xFF, 5, 6, 0]]).1.sinks =
        Sinks.logCompressed.take ([], false) [.ping [7], .text [0xC3, 0xA9], .binary [5, 6]] := by
  have htext : WellFormedUtf8 [0xC3, 0xA9] := (isValidUtf8_iff _).mp (by decide +kernel)
  exact @onSegments_items .stored _ Sinks.logCompressed _ Sinks.logCompressed_lawful _ trivial _
    [.message true false [0xC3] [⟨[.ping [7]], [0xA9]⟩], .message false true packed []] _
    (.message (by decide) ⟨rfl, rfl⟩ (fun _ => htext)
      (.message (by decide) ⟨rfl, decode_stored rfl () (by decide) rfl⟩
        (fun h => absurd h (by decide)) (.nil _)))
    [(plainFrame false 1 [0xC3], .short), (plainFrame true 9 [7], .short),
      (plainFrame true 0 [0xA9], .medium),
      ({ plainFrame true 2 packed with rsv1 := true }, .short)]
    rfl (by decide) _ rfl

end Delivery

end FsBridge.Libwsc
