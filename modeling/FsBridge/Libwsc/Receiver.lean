/-
  FsBridge.Libwsc.Receiver

  The receiving half of the WebSocket client (`WebSocketReceiver`,
  module/libs/libwsc/src/WebSocketReceiver.cpp): frames are taken from the input
  buffer one by one, fragments are put together, and what comes of it is handed to
  the sinks.

  `IWebSocketSinks` is an interface, so the model is over any implementation of it;
  `Sinks.Lawful` is what the receiver relies on.  `onDataTurn` is one turn of the
  loop of `onData`.  `thrown` is set where `std::length_error` leaves `onData`, which
  nothing catches.

  Opcodes are the four bits of the header as a number.
-/

import FsBridge.Lib.Consumer
import FsBridge.Lib.WsFrame
import FsBridge.Libwsc.Deflate
import FsBridge.Libwsc.Utf8Validator

namespace FsBridge.Libwsc

open FsBridge.Lib

/-- `IWebSocketSinks`, as far as the receiver calls it, over a state `σ`. -/
structure Sinks (σ : Type*) where
  rxCompressionEnabled : σ → Bool
  rxIsTerminating : σ → Bool
  onRxPing : σ → Bytes → σ
  onRxClose : σ → (code : Nat) → (reason : Bytes) → σ
  onRxProtocolError : σ → (closeCode : Nat) → (why : String) → σ
  onRxText : σ → Bytes → σ
  onRxBinary : σ → Bytes → σ

/-- The fields of the class: those of the fragmented message, and the inflate half. -/
structure Receiver (Z : Zlib) where
  inflater : Inflater Z
  message_in_progress : Bool
  compressed_message_in_progress : Bool
  fragmented_opcode : Nat
  fragmented_message : Bytes
  utf8Validator : Utf8Validator

/-- The receiver as it is constructed, with the inflate half that the handshake left. -/
def Receiver.init {Z : Zlib} (inflater : Inflater Z) : Receiver Z where
  inflater := inflater
  message_in_progress := false
  compressed_message_in_progress := false
  fragmented_opcode := 0
  fragmented_message := []
  utf8Validator := .reset

/-- The receiver with its sinks. -/
structure Rx (Z : Zlib) (σ : Type*) where
  receiver : Receiver Z
  sinks : σ
  thrown : Bool

/-- `std::vector<uint8_t>::max_size()`. -/
def maxSize : Nat := 2 ^ 63 - 1

/-- `0x08`: the opcode is one of a control frame. -/
def isControl (opcode : Nat) : Bool := 8 ≤ opcode

section Receiver

variable {Z : Zlib} {σ : Type*} (sinks : Sinks σ)

-- ============================================================================
-- The handlers
-- ============================================================================

/-- `Reset fragmentation state`. -/
def Receiver.resetFragments (r : Receiver Z) : Receiver Z :=
  { r with
    message_in_progress := false
    compressed_message_in_progress := false
    fragmented_message := []
    fragmented_opcode := 0 }

/-- The end of `handleContinuationFrame`: the message is whole and decompressed. -/
def Receiver.finishMessage (r : Receiver Z) (s : σ) : Receiver Z × σ :=
  match r.fragmented_opcode with
  | 0x01 =>
      let message := r.fragmented_message
      let ok :=
        if r.compressed_message_in_progress then
          (Utf8Validator.reset.validateChunk message).1 ∧
            (Utf8Validator.reset.validateChunk message).2.validateFinal
        else r.utf8Validator.validateFinal
      if ¬ ok then
        ({ r with utf8Validator := .reset },
          sinks.onRxProtocolError s 1007 "Invalid UTF-8 in text message")
      else
        ({ r with utf8Validator := .reset }.resetFragments, sinks.onRxText s message)
  | 0x02 => (r.resetFragments, sinks.onRxBinary s r.fragmented_message)
  | _ => (r, sinks.onRxProtocolError s 1002 "Unknown fragmented opcode")

/-- `handleContinuationFrame` behind the check of the fragment, which is collected. -/
def Receiver.collected (r : Receiver Z) (s : σ) (fin : Bool) : Receiver Z × σ :=
  if ¬ fin then (r, s)
  else if r.compressed_message_in_progress then
    match r.inflater.rxInflate r.fragmented_message with
    | (none, inflater) =>
        ({ r with inflater := inflater, utf8Validator := .reset },
          sinks.onRxProtocolError s 1007 "Decompression failed")
    | (some output, inflater) =>
        { r with
          inflater := inflater.rxMaybeResetAfterMessage
          fragmented_message := output }.finishMessage sinks s
  else r.finishMessage sinks s

/-- `handleContinuationFrame`. -/
def Receiver.handleContinuationFrame (r : Receiver Z) (s : σ) (payload : Bytes) (fin : Bool) :
    Receiver Z × σ :=
  if ¬ r.message_in_progress then
    (r, sinks.onRxProtocolError s 1002 "continuation frame without initial frame")
  else
    let r := { r with fragmented_message := r.fragmented_message ++ payload }
    -- only the fragments of an uncompressed text are checked as they come
    let checked :=
      if ¬ r.compressed_message_in_progress ∧ r.fragmented_opcode = 0x01 then
        r.utf8Validator.validateChunk payload
      else (true, r.utf8Validator)
    if ¬ checked.1 then
      ({ r with utf8Validator := .reset },
        sinks.onRxProtocolError s 1007 "Invalid UTF-8 in text message")
    else { r with utf8Validator := checked.2 }.collected sinks s fin

/-- The end of `handleDataFrame`: an unfragmented message, decompressed. -/
def Receiver.wholeMessage (r : Receiver Z) (s : σ) (opcode : Nat) (message : Bytes) :
    Receiver Z × σ :=
  if opcode = 0x01 then
    let checked := Utf8Validator.reset.validateChunk message
    if ¬ checked.1 ∨ ¬ checked.2.validateFinal then
      ({ r with utf8Validator := .reset },
        sinks.onRxProtocolError s 1007 "Invalid UTF-8 in text message")
    else ({ r with utf8Validator := checked.2 }, sinks.onRxText s message)
  else if opcode = 0x02 then (r, sinks.onRxBinary s message)
  else (r, sinks.onRxProtocolError s 1002 "Unsupported opcode")

/-- `handleDataFrame`. -/
def Receiver.handleDataFrame (r : Receiver Z) (s : σ) (payload : Bytes) (fin : Bool)
    (opcode : Nat) (rsv1 : Bool) : Receiver Z × σ :=
  if r.message_in_progress then
    (r, sinks.onRxProtocolError s 1002
      "Received new data frame when expecting continuation frame")
  else
    let compressed := rsv1 ∧ sinks.rxCompressionEnabled s
    if ¬ fin then
      let r := { r with
        message_in_progress := true
        fragmented_opcode := opcode
        fragmented_message := payload
        compressed_message_in_progress := compressed }
      if opcode = 0x01 ∧ ¬ compressed then
        let checked := Utf8Validator.reset.validateChunk payload
        if ¬ checked.1 then
          ({ r with utf8Validator := .reset },
            sinks.onRxProtocolError s 1007 "Invalid UTF-8 in text message")
        else ({ r with utf8Validator := checked.2 }, s)
      else (r, s)
    else if compressed then
      match r.inflater.rxInflate payload with
      | (none, inflater) =>
          ({ r with inflater := inflater }, sinks.onRxProtocolError s 1007 "Decompression failed")
      | (some message, inflater) =>
          { r with inflater := inflater.rxMaybeResetAfterMessage }.wholeMessage sinks s opcode
            message
    else r.wholeMessage sinks s opcode payload

/-- The close codes a peer may send. -/
def isCloseCode (code : Nat) : Bool :=
  (1000 ≤ code ∧ code ≤ 1011 ∧ code ≠ 1004 ∧ code ≠ 1005 ∧ code ≠ 1006) ∨
    (3000 ≤ code ∧ code ≤ 4999)

/-- `handleCloseFrame`: the code and the reason that are replied. -/
def closeReply (payload : Bytes) : Nat × Bytes :=
  if 125 < payload.length then (1002, [])
  else
    match payload with
    | [] => (1000, [])
    | [_] => (1002, [])
    | b0 :: b1 :: reason =>
        let code := beNat [b0, b1]
        let reason := reason.take 123
        if ¬ isCloseCode code then (1002, [])
        else if ¬ isValidUtf8 reason then (1002, [])
        else (code, reason)

/-- `handlePingFrame`. -/
def handlePingFrame (s : σ) (payload : Bytes) : σ :=
  if 125 < payload.length then sinks.onRxProtocolError s 1002 "Control frame payload too large"
  else sinks.onRxPing s payload

-- ============================================================================
-- The loop
-- ============================================================================

namespace Rx

/-- The sinks are told of an error, and `onData` returns. -/
def fail (x : Rx Z σ) (why : String) : Consumer.Turn (Rx Z σ) :=
  .stop { x with sinks := sinks.onRxProtocolError x.sinks 1002 why }

/-- `switch (opcode)`: what is done with a whole frame. -/
def dispatch (x : Rx Z σ) (opcode : Nat) (fin rsv1 : Bool) (payload : Bytes) (need : Nat) :
    Consumer.Turn (Rx Z σ) :=
  match opcode with
  | 0x00 =>
      let (receiver, s) := x.receiver.handleContinuationFrame sinks x.sinks payload fin
      .next ⟨receiver, s, false⟩ need
  | 0x01 | 0x02 =>
      let (receiver, s) := x.receiver.handleDataFrame sinks x.sinks payload fin opcode rsv1
      .next ⟨receiver, s, false⟩ need
  | 0x08 =>
      let (code, reason) := closeReply payload
      .next { x with sinks := sinks.onRxClose x.sinks code reason } need
  | 0x09 => .next { x with sinks := handlePingFrame sinks x.sinks payload } need
  | 0x0A => .next x need
  | _ => x.fail sinks "Unsupported opcode"

/-- The length bytes have been read: wait for the frame, take it and handle it. -/
def wholeFrame (x : Rx Z σ) (buf : Bytes) (opcode : Nat) (fin rsv1 : Bool)
    (header_len payload_len : Nat) : Consumer.Turn (Rx Z σ) :=
  if isControl opcode ∧ 125 < payload_len then x.fail sinks "Control frame payload too large"
  else
    -- `size_t` arithmetic
    let need := (header_len + payload_len) % 2 ^ 64
    if buf.length < need then .wait
    -- `evbuffer_pullup` of no bytes gives no pointer
    else if need = 0 then x.fail sinks "Failed to pullup frame buffer"
    else if maxSize < payload_len then .stop { x with thrown := true }
    else x.dispatch sinks opcode fin rsv1 ((buf.drop header_len).take payload_len) need

/-- A turn of the loop of `onData`, behind the test at its head. -/
def frameTurn (x : Rx Z σ) (buf : Bytes) : Consumer.Turn (Rx Z σ) :=
  match buf with
  | h0 :: h1 :: _ =>
      let fin := h0 &&& 0x80 ≠ 0
      let rsv1 := h0 &&& 0x40 ≠ 0
      let rsv2 := h0 &&& 0x20 ≠ 0
      let rsv3 := h0 &&& 0x10 ≠ 0
      let opcode := (h0 &&& 0x0F).toNat
      let mask := h1 &&& 0x80 ≠ 0
      let payload_len := (h1 &&& 0x7F).toNat
      if (¬ sinks.rxCompressionEnabled x.sinks ∧ rsv1) ∨ rsv2 ∨ rsv3 then
        x.fail sinks "Unexpected RSV bits"
      else if isControl opcode ∧ ¬ fin then x.fail sinks "Control frame fragmented"
      else if mask then x.fail sinks "Masked frame from server"
      else if payload_len = 126 then
        if buf.length < 4 then .wait
        else x.wholeFrame sinks buf opcode fin rsv1 4 (beNat ((buf.drop 2).take 2))
      else if payload_len = 127 then
        if buf.length < 10 then .wait
        else x.wholeFrame sinks buf opcode fin rsv1 10 (beNat ((buf.drop 2).take 8))
      else x.wholeFrame sinks buf opcode fin rsv1 2 payload_len
  | _ => .wait

/-- One turn of the loop of `onData`. -/
def onDataTurn (x : Rx Z σ) (buf : Bytes) : Consumer.Turn (Rx Z σ) :=
  if x.thrown then .stop x
  else if sinks.rxIsTerminating x.sinks then .stop x
  else x.frameTurn sinks buf

/-- `onData` on what is in the buffer: the receiver and its sinks, and what is left
    there. -/
def onData (x : Rx Z σ) (buf : Bytes) : Rx Z σ × Bytes := Consumer.drain (onDataTurn sinks) x buf

/-- `onData` after each segment that is read from the connection. -/
def onSegments (x : Rx Z σ) (segs : List Bytes) : Rx Z σ × Bytes :=
  Consumer.feed (onDataTurn sinks) x [] segs

end Rx

end Receiver

end FsBridge.Libwsc
