/-
  FsBridge.Module.InitialMetadata

  A stream that starts with metadata (`start_capture`, module/mod_ws_bridge.c;
  `stream_data_init`, `send_initial_metadata`, module/ws_bridge_glue.cpp), and which
  frames its connection carries.

  Three threads take part: the one of the start command, the event thread of the
  WebSocket client, running since `connect()`, and the media thread, running since
  the media bug was added.  The client (module/libs/libwsc) counts as connected
  while it is connecting, and queues what is written then.

  Strings are C strings: their bytes before the NUL.
-/

import FsBridge.Lib.Ascii
import FsBridge.Lib.Machine

namespace FsBridge.Module.InitialMetadata

open FsBridge.Lib

/-- `MAX_METADATA_LEN`. -/
def maxMetadataLen : Nat := 8192

/-- `MAX_QUEUE_SIZE` of the client. -/
def maxQueueSize : Nat := 1024

/-- A frame on the connection. -/
inductive WsFrame where
  | text (payload : Bytes)
  | binary (payload : Bytes)
deriving DecidableEq, Repr

/-- `strncpy(initialMetadata, metadata, MAX_METADATA_LEN)` as `strlen` reads it:
    without room for a NUL, on into the bytes `beyond` the field. -/
def storedMetadata (metadata beyond : Bytes) : Bytes :=
  if metadata.length < maxMetadataLen then metadata
  else metadata.take maxMetadataLen ++ beyond

/-- Where the thread of the start command is.  `created`: `AudioStreamer::create` has
    called `connect()`. -/
inductive StartPc where
  | metadataCopied
  | created
  | initialised
  | bugAdded
  | privateSet
  | failed
deriving DecidableEq, Repr

/-- Where the event thread is: not there, before the connect, at the handshake,
    upgraded (`CONNECTED`), past the flush of the queue, past the open callback. -/
inductive EventPc where
  | notStarted
  | started
  | connecting
  | upgraded
  | flushed
  | opened
deriving DecidableEq, Repr

/-- `WebSocketContext::isConnected`. -/
def EventPc.isConnected : EventPc → Bool
  | .notStarted | .started => false
  | .connecting | .upgraded | .flushed | .opened => true

/-- The media bug exists, so `capture_callback` is called. -/
def StartPc.hasBug : StartPc → Bool
  | .bugAdded | .privateSet => true
  | _ => false

structure State where
  start : StartPc
  event : EventPc
  /-- `send_queue`: only the media thread writes into it. -/
  queue : List Bytes
  /-- The frames sent, in order. -/
  wire : List WsFrame
deriving DecidableEq, Repr

inductive Act where
  | connect
  | initDone
  | initFails
  | addBug
  | addBugFails
  | setPrivate
  | run
  | upgrade
  | flush
  | openCallback
  | flushLater
  | writeBinary (chunk : Bytes)
deriving DecidableEq, Repr

section Step

variable (metadata beyond : Bytes)

/-- `send_initial_metadata`, on the event thread of an upgraded connection: what it
    sends.  `hasPrivate`: `get_media_bug` finds the bug. -/
def sendInitialMetadata (hasPrivate : Bool) : List WsFrame :=
  if hasPrivate ∧ 0 < (storedMetadata metadata beyond).length then
    [.text (storedMetadata metadata beyond)]
  else []

/-- One atomic step of a thread. -/
def step (s : State) : Act → Option State
  | .connect =>
      if s.start = .metadataCopied then some { s with start := .created, event := .started }
      else none
  | .initDone => if s.start = .created then some { s with start := .initialised } else none
  | .initFails => if s.start = .created then some { s with start := .failed } else none
  | .addBug => if s.start = .initialised then some { s with start := .bugAdded } else none
  | .addBugFails => if s.start = .initialised then some { s with start := .failed } else none
  | .setPrivate => if s.start = .bugAdded then some { s with start := .privateSet } else none
  | .run => if s.event = .started then some { s with event := .connecting } else none
  | .upgrade => if s.event = .connecting then some { s with event := .upgraded } else none
  | .flush =>
      if s.event = .upgraded then
        some { s with event := .flushed, queue := [], wire := s.wire ++ s.queue.map .binary }
      else none
  | .openCallback =>
      if s.event = .flushed then
        some { s with
          event := .opened
          wire := s.wire ++ sendInitialMetadata metadata beyond (s.start = .privateSet) }
      else none
  | .flushLater =>
      if s.event = .opened then
        some { s with queue := [], wire := s.wire ++ s.queue.map .binary }
      else none
  | .writeBinary chunk =>
      if s.start.hasBug ∧ s.event.isConnected then
        if s.queue.length < maxQueueSize then some { s with queue := s.queue ++ [chunk] }
        else some s
      else none

/-- The metadata has been copied, nothing is connected. -/
def initial : State where
  start := .metadataCopied
  event := .notStarted
  queue := []
  wire := []

def machine : Machine State Act where
  init := initial
  step := step metadata beyond

end Step

-- ============================================================================
-- Delivery
-- ============================================================================

/-- Once it has opened, and as soon as it carries anything, the connection carries
    the metadata in one text frame, and binary frames behind it. -/
def Delivered (metadata : Bytes) (s : State) : Prop :=
  s.event = .opened ∨ s.wire ≠ [] →
    ∃ chunks : List Bytes, s.wire = .text metadata :: chunks.map .binary

/-- The open callback finds the channel private, and in the field what was given;
    nothing was queued while the client was connecting. -/
def InTime (metadata beyond : Bytes) (s : State) : Act → Prop
  | .flush => s.queue = []
  | .openCallback =>
      s.start = .privateSet ∧ metadata ≠ [] ∧ storedMetadata metadata beyond = metadata
  | _ => True

variable {metadata beyond : Bytes}

/-- Nothing is sent before the open callback; from then on the metadata stands first. -/
structure DeliveryInv (metadata : Bytes) (s : State) : Prop where
  notStarted : s.start = .metadataCopied → s.event = .notStarted
  silent : s.event ≠ .opened → s.wire = []
  first : s.event = .opened → ∃ chunks : List Bytes, s.wire = .text metadata :: chunks.map .binary

theorem deliveryInv_initial : DeliveryInv metadata initial where
  notStarted := fun _ => rfl
  silent := fun _ => rfl
  first := fun h => absurd h (by simp [initial])

theorem DeliveryInv.delivered {s : State} (h : DeliveryInv metadata s) : Delivered metadata s := by
  intro hsent
  by_cases hopened : s.event = .opened
  · exact h.first hopened
  · exact absurd (h.silent hopened) (hsent.resolve_left hopened)

/-- A step that sends nothing, and is not the open callback. -/
theorem DeliveryInv.quiet {s s' : State} (h : DeliveryInv metadata s) (hwire : s'.wire = s.wire)
    (hevent : s'.event = .opened ↔ s.event = .opened)
    (hstart : s'.start = .metadataCopied → s'.event = .notStarted) : DeliveryInv metadata s' where
  notStarted := hstart
  silent := by
    rw [hwire, ne_eq, hevent]
    exact h.silent
  first := by
    rw [hwire, hevent]
    exact h.first

theorem deliveryInv_step {s s' : State} {a : Act} (h : DeliveryInv metadata s)
    (hintime : InTime metadata beyond s a) (hstep : step metadata beyond s a = some s') :
    DeliveryInv metadata s' := by
  have hstart := h.notStarted
  cases a with
  | flush =>
      obtain ⟨hevent, rfl⟩ := Machine.of_guard hstep
      have hqueue : s.queue = [] := hintime
      have hwire := h.silent (by rw [hevent]; simp)
      refine h.quiet ?_ (by simp [hevent]) fun hcopied => ?_
      · show s.wire ++ s.queue.map WsFrame.binary = s.wire
        rw [hqueue, List.map_nil, List.append_nil]
      · exact absurd ((hstart hcopied).symm.trans hevent) (by simp)
  | openCallback =>
      obtain ⟨hevent, rfl⟩ := Machine.of_guard hstep
      obtain ⟨hprivate, hne, hstored⟩ := hintime
      have hwire := h.silent (by rw [hevent]; simp)
      have hlen : 0 < metadata.length := List.length_pos_iff.mpr hne
      refine ⟨fun hcopied => ?_, fun hne' => absurd rfl hne', fun _ => ⟨[], ?_⟩⟩
      · exact absurd ((hstart hcopied).symm.trans hevent) (by simp)
      · simp [hwire, sendInitialMetadata, hprivate, hstored, hlen]
  | flushLater =>
      obtain ⟨hevent, rfl⟩ := Machine.of_guard hstep
      obtain ⟨chunks, hwire⟩ := h.first hevent
      refine ⟨hstart, fun hne => absurd hevent hne, fun _ => ⟨chunks ++ s.queue, ?_⟩⟩
      rw [hwire, List.map_append]
      rfl
  | writeBinary chunk =>
      simp only [step] at hstep
      split at hstep
      · split at hstep
        · obtain rfl := Option.some.inj hstep
          exact h.quiet rfl Iff.rfl hstart
        · obtain rfl := Option.some.inj hstep
          exact h
      · exact absurd hstep (by simp)
  | connect | initDone | initFails | addBug | addBugFails | setPrivate | run | upgrade =>
      obtain ⟨hpc, rfl⟩ := Machine.of_guard hstep
      refine h.quiet rfl ?_ ?_
      · grind
      · grind

/-- A connection that stays as claimed was in time at each step. -/
theorem inTime_of_delivered {s s' : State} {a : Act} (h : DeliveryInv metadata s)
    (hstep : step metadata beyond s a = some s') (hdelivered : Delivered metadata s') :
    InTime metadata beyond s a := by
  cases a with
  | flush =>
      obtain ⟨hevent, rfl⟩ := Machine.of_guard hstep
      have hwire := h.silent (by rw [hevent]; simp)
      by_contra hqueue
      have hsent : s.wire ++ s.queue.map WsFrame.binary ≠ [] := by
        simp [hwire, show s.queue ≠ [] from hqueue]
      obtain ⟨chunks, hfirst⟩ := hdelivered (.inr hsent)
      have hbinary : s.queue.map WsFrame.binary = .text metadata :: chunks.map .binary := by
        rw [← hfirst, hwire]
        rfl
      cases hq : s.queue with
      | nil => exact hqueue hq
      | cons chunk rest =>
          rw [hq] at hbinary
          exact absurd (List.cons.inj hbinary).1 (by simp)
  | openCallback =>
      obtain ⟨hevent, rfl⟩ := Machine.of_guard hstep
      have hwire := h.silent (by rw [hevent]; simp)
      obtain ⟨chunks, hfirst⟩ := hdelivered (.inl rfl)
      have hsent : sendInitialMetadata metadata beyond (s.start = .privateSet)
          = .text metadata :: chunks.map .binary := by
        rw [← hfirst, hwire]
        rfl
      unfold sendInitialMetadata at hsent
      split at hsent
      · rename_i hfound
        obtain ⟨htext, -⟩ := List.cons.inj hsent
        have hstored := WsFrame.text.inj htext
        refine ⟨by simpa using hfound.1, ?_, hstored⟩
        rw [← hstored]
        exact List.length_pos_iff.mp hfound.2
      · exact absurd hsent (by simp)
  | _ => trivial

/-- **Initial metadata.**  In a run the connection carries the metadata once, whole and
    first exactly when every flush at the upgrade finds an empty queue and every open
    callback finds the channel private and the metadata as given. -/
theorem delivered_iff_inTime (metadata beyond : Bytes) (as : List Act) (s : State)
    (hrun : (machine metadata beyond).run initial as = some s) :
    (machine metadata beyond).Always (Delivered metadata) initial as ↔
      (machine metadata beyond).Guarded (InTime metadata beyond) initial as := by
  constructor
  · intro halways
    exact Machine.guarded_of_always
      (fun t a t' h hintime hstep => deliveryInv_step h hintime hstep)
      (fun t a t' h hstep hdelivered => inTime_of_delivered h hstep hdelivered)
      hrun deliveryInv_initial halways
  · intro hintime
    have hall : (machine metadata beyond).Always (DeliveryInv metadata) initial as :=
      Machine.always_of_guarded
        (fun t a t' h hintime hstep => deliveryInv_step h hintime hstep) hintime deliveryInv_initial
    exact hall.mono fun t h => h.delivered

/-- Short metadata is stored as given. -/
theorem storedMetadata_of_lt (h : metadata.length < maxMetadataLen) (beyond : Bytes) :
    storedMetadata metadata beyond = metadata := if_pos h

/-- Longer metadata is stored as given only if the bytes behind the field happen to be
    those that did not fit. -/
theorem storedMetadata_eq_iff (h : maxMetadataLen ≤ metadata.length) (beyond : Bytes) :
    storedMetadata metadata beyond = metadata ↔ beyond = metadata.drop maxMetadataLen := by
  have hsplit := List.take_append_drop maxMetadataLen metadata
  rw [storedMetadata, if_neg (by omega)]
  constructor
  · intro heq
    exact List.append_cancel_left (heq.trans hsplit.symm)
  · intro hbeyond
    rw [hbeyond, hsplit]

/-- The start command is through before the connection is up. -/
def startFirst : List Act :=
  [.connect, .initDone, .addBug, .setPrivate, .run, .upgrade, .flush, .openCallback,
    .writeBinary [1, 2], .flushLater]

theorem delivered_iff_inTime_startFirst :
    (machine (ascii "hi") []).Always (Delivered (ascii "hi")) initial startFirst := by
  apply (delivered_iff_inTime (ascii "hi") [] startFirst _ rfl).mpr
  simp [startFirst, Machine.Guarded, InTime, machine, step, initial, storedMetadata,
    maxMetadataLen, ascii]

/-- The connection opens before `start_capture` sets the channel private: it carries no
    metadata at all. -/
theorem opened_before_private :
    ¬ (machine (ascii "hi") []).Always (Delivered (ascii "hi")) initial
      [.connect, .run, .upgrade, .flush, .openCallback, .initDone, .addBug, .setPrivate] := by
  intro h
  have hlast := h.last rfl
  obtain ⟨chunks, hwire⟩ := hlast (.inl rfl)
  have hnothing : ([] : List WsFrame) = .text (ascii "hi") :: chunks.map .binary := hwire
  exact absurd hnothing (by simp)

end FsBridge.Module.InitialMetadata
