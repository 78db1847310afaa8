/-
  FsBridge.Libwsc.Send

  `WebSocketContext::send` (module/libs/libwsc/src/WebSocketContext.cpp): a message or
  a control frame becomes the bytes of one masked frame.

  The masking key comes from a generator whose state is thread-local; `seed` is what
  the clock and the address give where that state is zero.
-/

import FsBridge.Lib.Utf8Form
import FsBridge.Lib.WsFrame
import FsBridge.Libwsc.Deflate

namespace FsBridge.Libwsc

open FsBridge.Lib

/-- `MessageType`. -/
inductive MessageType where
  | text
  | binary
  | ping
  | pong
  | close
deriving DecidableEq, Repr

namespace MessageType

def isControl : MessageType → Bool
  | text => false
  | binary => false
  | ping => true
  | pong => true
  | close => true

/-- `switch (type)`: the opcode. -/
def opcode : MessageType → Fin 16
  | text => 0x01
  | binary => 0x02
  | close => 0x08
  | ping => 0x09
  | pong => 0x0A

end MessageType

-- ============================================================================
-- The masking key
-- ============================================================================

/-- `next_u32`: the state of the generator, and the number. -/
def nextU32 (s : UInt32) : UInt32 × UInt32 :=
  let s := s + 0x9E3779B9
  let z := s
  let z := z ^^^ (z >>> 16)
  let z := z * 0x85EBCA6B
  let z := z ^^^ (z >>> 13)
  let z := z * 0xC2B2AE35
  let z := z ^^^ (z >>> 16)
  (s, z)

/-- The key of the next frame: the four bytes of the number as they lie in memory. -/
def maskKey (seed s : UInt32) : UInt32 × MaskKey :=
  let (s, mask32) := nextU32 (if s = 0 then seed ||| 1 else s)
  (s, ⟨mask32.toUInt8, (mask32 >>> 8).toUInt8, (mask32 >>> 16).toUInt8, (mask32 >>> 24).toUInt8⟩)

-- ============================================================================
-- The bytes of a frame
-- ============================================================================

/-- The two length bits of `b2` and the bytes behind it. -/
def lengthCode (payload_len : Nat) : UInt8 :=
  if payload_len ≤ 125 then payload_len.toUInt8 else if payload_len ≤ 65535 then 126 else 127

/-- What `send` adds to the output buffer. -/
def frameBytes (type : MessageType) (do_compress : Bool) (payload : Bytes) (mask_key : MaskKey) :
    Bytes :=
  let b1 : UInt8 := 0x80 ||| (if do_compress then 0x40 else 0) ||| type.opcode.val.toUInt8
  let b2 : UInt8 := 0x80 ||| lengthCode payload.length
  let len :=
    if b2 &&& 0x7F = 126 then beBytes 2 payload.length
    else if b2 &&& 0x7F = 127 then beBytes 8 payload.length
    else []
  b1 :: b2 :: (len ++ ([mask_key.k0, mask_key.k1, mask_key.k2, mask_key.k3] ++
    mask mask_key payload))

section Send

variable {Z : Zlib}

/-- What sending has to do with: the deflate half, the state of the generator and the
    output buffer. -/
structure Sender (Z : Zlib) where
  deflater : Deflater Z
  mask_state : UInt32
  output : Bytes

/-- `send`. -/
def Sender.send (x : Sender Z) (seed : UInt32) (use_compression : Bool) (type : MessageType)
    (raw : Bytes) : Sender Z :=
  if type.isControl ∧ 125 < raw.length then x
  else
    let (payload, do_compress, deflater) :=
      x.deflater.txPrepare raw (¬ type.isControl ∧ use_compression)
    let (s, mask_key) := maskKey seed x.mask_state
    { deflater := deflater
      mask_state := s
      output := x.output ++ frameBytes type do_compress payload mask_key }

-- ============================================================================
-- One frame in the shortest form
-- ============================================================================

/-- The frame that is sent. -/
def clientFrame (type : MessageType) (do_compress : Bool) (payload : Bytes) (mask_key : MaskKey) :
    WsFrame :=
  ⟨true, do_compress, false, false, type.opcode, some mask_key, payload⟩

theorem or_eq_add : ∀ n : UInt8, n.toNat < 128 → 0x80 ||| n = (128 + n.toNat).toUInt8 ∧
    (0x80 ||| n) &&& 0x7F = n :=
  forall_byte (by decide +kernel)

theorem lengthCode_eq (n : Nat) :
    (lengthCode n).toNat = (LengthForm.minimal n).code n ∧ (lengthCode n).toNat < 128 := by
  unfold lengthCode LengthForm.minimal
  by_cases hshort : n ≤ 125
  · have hn : n.toUInt8.toNat = n := Nat.mod_eq_of_lt (by omega)
    rw [if_pos hshort, if_pos hshort, hn]
    exact ⟨rfl, by omega⟩
  · rw [if_neg hshort, if_neg hshort]
    by_cases hmedium : n ≤ 65535
    · rw [if_pos hmedium, if_pos (by omega)]
      exact ⟨rfl, by decide⟩
    · rw [if_neg hmedium, if_neg (by omega)]
      exact ⟨rfl, by decide⟩

theorem extended_eq (n : Nat) :
    (if lengthCode n = 126 then beBytes 2 n else if lengthCode n = 127 then beBytes 8 n else []) =
      (LengthForm.minimal n).extended n := by
  unfold lengthCode LengthForm.minimal
  by_cases hshort : n ≤ 125
  · have hn : n.toUInt8.toNat = n := Nat.mod_eq_of_lt (by omega)
    have hcode : ∀ m : UInt8, 125 < m.toNat → n.toUInt8 ≠ m := by
      rintro m hm rfl
      omega
    rw [if_pos hshort, if_pos hshort, if_neg (hcode 126 (by decide)),
      if_neg (hcode 127 (by decide))]
    rfl
  · rw [if_neg hshort, if_neg hshort]
    by_cases hmedium : n ≤ 65535
    · rw [if_pos hmedium, if_pos rfl, if_pos (by omega)]
      rfl
    · rw [if_neg hmedium, if_neg (by decide), if_pos rfl, if_neg (by omega)]
      rfl

theorem b1_eq (type : MessageType) (do_compress : Bool) :
    0x80 ||| (if do_compress then 0x40 else 0) ||| type.opcode.val.toUInt8 =
      (128 + do_compress.toNat * 64 + type.opcode.val).toUInt8 := by
  cases type <;> cases do_compress <;> rfl

/-- What is added to the buffer is the frame in the shortest form. -/
theorem frameBytes_eq (type : MessageType) (do_compress : Bool) (payload : Bytes)
    (mask_key : MaskKey) :
    frameBytes type do_compress payload mask_key =
      (clientFrame type do_compress payload mask_key).encode (.minimal payload.length) := by
  obtain ⟨hcode, hlt⟩ := lengthCode_eq payload.length
  obtain ⟨hor, hand⟩ := or_eq_add (lengthCode payload.length) hlt
  have hhead : (clientFrame type do_compress payload mask_key).headByte =
      (128 + do_compress.toNat * 64 + type.opcode.val).toUInt8 := by
    cases type <;> cases do_compress <;> rfl
  have hlength : (clientFrame type do_compress payload mask_key).lengthByte
      (.minimal payload.length) = (128 + (lengthCode payload.length).toNat).toUInt8 := by
    rw [hcode]
    rfl
  have hextended : (if lengthCode payload.length = 126 then beBytes 2 payload.length
      else if lengthCode payload.length = 127 then beBytes 8 payload.length else []) =
        (LengthForm.minimal payload.length).extended payload.length :=
    extended_eq payload.length
  unfold frameBytes
  dsimp only
  rw [hand, hor, b1_eq, hextended, WsFrame.encode, hhead, hlength]
  rfl

/-- A frame carries what was given to `send`: as it is, or as the compressor's output. -/
structure Carries (Z : Zlib) (sent : MessageType × Bytes) (f : WsFrame) : Prop where
  fin : f.fin = true
  rsv2 : f.rsv2 = false
  rsv3 : f.rsv3 = false
  opcode : f.opcode = sent.1.opcode
  masked : f.maskKey.isSome = true
  plain : f.rsv1 = false → f.payload = sent.2
  compressed : f.rsv1 = true → Compresses Z sent.2 f.payload
  control : sent.1.isControl = true → f.rsv1 = false ∧ f.payload.length ≤ 125

theorem send_spec (x : Sender Z) (seed : UInt32) (use_compression : Bool) (type : MessageType)
    (raw : Bytes) :
    (type.isControl = true ∧ 125 < raw.length ∧ x.send seed use_compression type raw = x) ∨
    (¬ (type.isControl = true ∧ 125 < raw.length) ∧ ∃ f, Carries Z (type, raw) f ∧
      (x.send seed use_compression type raw).output =
        x.output ++ f.encode (.minimal f.payload.length)) := by
  unfold Sender.send
  by_cases hlarge : type.isControl = true ∧ 125 < raw.length
  · exact .inl ⟨hlarge.1, hlarge.2, if_pos hlarge⟩
  · refine .inr ⟨hlarge, ?_⟩
    rw [if_neg hlarge]
    obtain ⟨hplain, hcompressed⟩ :=
      x.deflater.txPrepare_spec raw (¬ type.isControl = true ∧ use_compression = true)
    generalize x.deflater.txPrepare raw (¬ type.isControl = true ∧ use_compression = true) = r
      at hplain hcompressed ⊢
    obtain ⟨payload, do_compress, deflater⟩ := r
    refine ⟨clientFrame type do_compress payload (maskKey seed x.mask_state).2, ?_, ?_⟩
    · refine ⟨rfl, rfl, rfl, rfl, rfl, hplain, fun hset => (hcompressed hset).2, ?_⟩
      intro hcontrol
      have hno : do_compress = false := by
        by_contra hset
        have hrequested := (hcompressed (Bool.not_eq_false _ ▸ hset)).1
        exact (of_decide_eq_true hrequested).1 hcontrol
      refine ⟨hno, ?_⟩
      have hraw : payload = raw := hplain hno
      show payload.length ≤ 125
      rw [hraw]
      by_contra hlong
      exact hlarge ⟨hcontrol, Nat.not_le.mp hlong⟩
    · show x.output ++ frameBytes type do_compress payload (maskKey seed x.mask_state).2 = _
      rw [frameBytes_eq]
      rfl

end Send

end FsBridge.Libwsc
