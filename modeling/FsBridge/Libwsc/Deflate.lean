/-
  FsBridge.Libwsc.Deflate

  permessage-deflate in the WebSocket client (`rxInflate`, `txDeflate` and
  `txPrepare` of module/libs/libwsc/src/WebSocketReceiver.cpp).

  zlib is a parameter.  A call consumes some of its input, gives some output and
  leaves a stream; the laws are those of its manual that the loop of `rxInflate`
  needs to end: `Z_OK` means progress, `Z_BUF_ERROR` that there was none.

  The receiving and the sending half of the class have no state in common but the
  configuration, and are two structures here.
-/

import FsBridge.Lib.Ascii

namespace FsBridge.Libwsc

open FsBridge.Lib

structure PerMessageDeflateConfig where
  enabled : Bool
  client_no_context_takeover : Bool
  server_no_context_takeover : Bool
  client_max_window_bits : Int
  server_max_window_bits : Int
  compression_level : Int
deriving DecidableEq, Repr

/-- The initialisers of the fields; `Z_DEFAULT_COMPRESSION` is -1. -/
def PerMessageDeflateConfig.default : PerMessageDeflateConfig := ⟨false, false, false, 15, 15, -1⟩

inductive ZReturn where
  | ok
  | streamEnd
  | bufError
  | error (code : Int)
deriving DecidableEq, Repr

/-- One call of `inflate` or `deflate`. -/
structure ZCall (Stream : Type) where
  ret : ZReturn
  /-- How much of `next_in` was consumed. -/
  consumed : Nat
  out : Bytes
  stream : Stream

structure Zlib where
  Inflate : Type
  Deflate : Type
  /-- `none`: the initialisation fails. -/
  inflateInit2 : (windowBits : Int) → Option Inflate
  inflateReset : Inflate → Inflate
  inflate : Inflate → (next_in : Bytes) → (avail_out : Nat) → ZCall Inflate
  deflateInit2 : (level windowBits : Int) → Option Deflate
  deflateReset : Deflate → Deflate
  deflateBound : Deflate → (sourceLen : Nat) → Nat
  deflate : Deflate → (next_in : Bytes) → (avail_out : Nat) → ZCall Deflate
  /-- What is left to do for an input. -/
  work : Inflate → Bytes → Nat
  ok_progress : ∀ z input n, 0 < n → (inflate z input n).ret = .ok →
    work (inflate z input n).stream (input.drop (inflate z input n).consumed) < work z input
  bufError_out : ∀ z input n, (inflate z input n).ret = .bufError → (inflate z input n).out = []

/-- A zlib that cannot be set up. -/
def Zlib.absent : Zlib where
  Inflate := Empty
  Deflate := Empty
  inflateInit2 _ := none
  inflateReset z := z
  inflate z _ _ := z.elim
  deflateInit2 _ _ := none
  deflateReset z := z
  deflateBound z _ := z.elim
  deflate z _ _ := z.elim
  work z _ := z.elim
  ok_progress z := z.elim
  bufError_out z := z.elim

/-- The stored blocks at the head of the input: how many bytes they take, and what is in
    them. -/
def storedBlocks : (fuel : Nat) → Bytes → Nat × Bytes
  | fuel + 1, 0x00 :: l0 :: l1 :: n0 :: n1 :: input =>
      let len := l0.toNat + 256 * l1.toNat
      if n0 = ~~~l0 ∧ n1 = ~~~l1 ∧ len ≤ input.length then
        let (consumed, out) := storedBlocks fuel (input.drop len)
        (5 + len + consumed, input.take len ++ out)
      else (0, [])
  | _, _ => (0, [])

/-- A zlib that knows stored blocks only, which is what becomes of bytes that do not get
    shorter; a message is one block, and the flush an empty one. -/
def Zlib.stored : Zlib where
  Inflate := Unit
  Deflate := Unit
  inflateInit2 _ := some ()
  inflateReset z := z
  inflate z input _ :=
    match storedBlocks input.length input with
    | (0, _) => ⟨.bufError, 0, [], z⟩
    | (consumed + 1, out) => ⟨.ok, consumed + 1, out, z⟩
  deflateInit2 _ _ := some ()
  deflateReset z := z
  deflateBound _ sourceLen := sourceLen + 13
  deflate z input _ :=
    let len := [input.length.toUInt8, (input.length / 256).toUInt8]
    ⟨.ok, input.length, 0x00 :: (len ++ len.map (~~~ ·) ++ input ++ [0x00, 0x00, 0x00, 0xFF, 0xFF]),
      z⟩
  work _ input := input.length
  ok_progress z input n hn hok := by
    cases input with
    | nil => cases hok
    | cons b input =>
        generalize storedBlocks (b :: input).length (b :: input) = blocks at hok ⊢
        obtain ⟨_ | consumed, out⟩ := blocks
        · cases hok
        · simp only [List.length_drop, List.length_cons]
          omega
  bufError_out z input n h := by
    generalize storedBlocks input.length input = blocks at h ⊢
    obtain ⟨_ | consumed, out⟩ := blocks
    · rfl
    · cases h

section Deflate

variable {Z : Zlib}

-- ============================================================================
-- Receiving
-- ============================================================================

/-- `sizeof(tmp)`. -/
def inflateChunk : Nat := 4096

/-- The loop of `rxInflate`: whether it succeeds, the output and the stream. -/
def inflateLoop (z : Z.Inflate) (next_in out : Bytes) : Bool × Bytes × Z.Inflate :=
  let call := Z.inflate z next_in inflateChunk
  let avail_in := next_in.length - call.consumed
  let avail_out := inflateChunk - call.out.length
  match _hret : call.ret with
  | .bufError =>
      if _hfull : avail_out = 0 then inflateLoop call.stream (next_in.drop call.consumed) out
      else if avail_in = 0 then (true, out, call.stream)
      else (false, out, call.stream)
  | .error _ => (false, out, call.stream)
  | .streamEnd => (true, out ++ call.out, call.stream)
  | .ok =>
      if avail_in = 0 ∧ avail_out ≠ 0 then (true, out ++ call.out, call.stream)
      else inflateLoop call.stream (next_in.drop call.consumed) (out ++ call.out)
termination_by Z.work z next_in
decreasing_by
  · have hnone := Z.bufError_out z next_in inflateChunk _hret
    refine absurd _hfull ?_
    show inflateChunk - (Z.inflate z next_in inflateChunk).out.length ≠ 0
    rw [hnone]
    decide
  · exact Z.ok_progress z next_in inflateChunk (by decide) _hret

/-- The configuration and the inflate stream; `none`: not initialised. -/
structure Inflater (Z : Zlib) where
  cfg : PerMessageDeflateConfig
  inflate_stream : Option Z.Inflate

/-- The trailer of a `Z_SYNC_FLUSH`, which messages do not carry. -/
def syncFlushTrailer : Bytes := [0x00, 0x00, 0xFF, 0xFF]

/-- `rxInflate`; `none`: it returns false. -/
def Inflater.rxInflate (i : Inflater Z) (input : Bytes) : Option Bytes × Inflater Z :=
  match i.inflate_stream with
  | none => (some input, i)
  | some z =>
      if ¬ i.cfg.enabled then (some input, i)
      else
        let z := if i.cfg.server_no_context_takeover then Z.inflateReset z else z
        let (ok, out, z) := inflateLoop z (input ++ syncFlushTrailer) []
        (if ok then some out else none, { i with inflate_stream := some z })

/-- `rxMaybeResetAfterMessage`. -/
def Inflater.rxMaybeResetAfterMessage (i : Inflater Z) : Inflater Z :=
  if i.cfg.enabled ∧ i.cfg.server_no_context_takeover then
    { i with inflate_stream :=
        i.inflate_stream.bind fun _ => Z.inflateInit2 (-i.cfg.server_max_window_bits) }
  else i

-- ============================================================================
-- Sending
-- ============================================================================

/-- The configuration and the deflate stream. -/
structure Deflater (Z : Zlib) where
  cfg : PerMessageDeflateConfig
  deflate_stream : Option Z.Deflate

/-- `deflateInit2` with the arguments of the configuration. -/
def Deflater.txInitDeflate (d : Deflater Z) : Option Z.Deflate :=
  Z.deflateInit2 d.cfg.compression_level (-d.cfg.client_max_window_bits)

/-- The loop of `txDeflate` from `attempt` on: the payload, and the stream. -/
def deflateAttempts (z : Z.Deflate) (input : Bytes) : List Nat → Option Bytes × Z.Deflate
  | [] => (none, z)
  | attempt :: attempts =>
      let z := Z.deflateReset z
      let bound := Z.deflateBound z input.length + 64 * (attempt + 1)
      let call := Z.deflate z input bound
      let produced := call.out.length
      if call.ret ≠ .ok then
        if call.ret = .bufError ∨ bound - produced = 0 then
          deflateAttempts call.stream input attempts
        else (none, call.stream)
      else if produced < 4 then deflateAttempts call.stream input attempts
      else if call.out.drop (produced - 4) ≠ syncFlushTrailer then
        deflateAttempts call.stream input attempts
      else (some (call.out.take (produced - 4)), call.stream)

/-- `txDeflate`; `none`: it returns false. -/
def Deflater.txDeflate (d : Deflater Z) (input : Bytes) : Option Bytes × Deflater Z :=
  match d.deflate_stream with
  | none => (none, d)
  | some z =>
      match deflateAttempts z input [0, 1, 2, 3] with
      | (none, z) => (none, { d with deflate_stream := some z })
      | (some payload, z) =>
          if d.cfg.client_no_context_takeover then
            match d.txInitDeflate with
            | none => (none, { d with deflate_stream := none })
            | some z => (some payload, { d with deflate_stream := some z })
          else (some payload, { d with deflate_stream := some z })

/-- `txPrepare`: the payload and whether it is compressed. -/
def Deflater.txPrepare (d : Deflater Z) (original : Bytes) (request_compress : Bool) :
    Bytes × Bool × Deflater Z :=
  if ¬ request_compress ∨ ¬ d.cfg.enabled ∨ d.deflate_stream.isNone then (original, false, d)
  else
    match d.txDeflate original with
    | (none, d) => (original, false, d)
    | (some payload, d) => (payload, true, d)

/-- `payload` is what `deflate` makes of `raw` on a stream that has just been reset, less
    the trailer. -/
def Compresses (Z : Zlib) (raw payload : Bytes) : Prop :=
  ∃ (z : Z.Deflate) (bound : Nat), (Z.deflate (Z.deflateReset z) raw bound).ret = .ok ∧
    (Z.deflate (Z.deflateReset z) raw bound).out = payload ++ syncFlushTrailer

theorem deflateAttempts_spec {z z' : Z.Deflate} {raw payload : Bytes} {attempts : List Nat}
    (h : deflateAttempts z raw attempts = (some payload, z')) : Compresses Z raw payload := by
  induction attempts generalizing z with
  | nil => cases h
  | cons attempt attempts ih =>
      simp only [deflateAttempts] at h
      generalize hbound : Z.deflateBound (Z.deflateReset z) raw.length + 64 * (attempt + 1) =
        bound at h
      split at h
      · -- refused: one of the later attempts, or none
        split at h
        · exact ih h
        · cases h
      · rename_i hok
        split at h
        · exact ih h
        · split at h
          · exact ih h
          · rename_i htrailer
            obtain ⟨hpayload, -⟩ := Prod.mk.inj h
            refine ⟨z, bound, Decidable.of_not_not hok, ?_⟩
            rw [← Option.some.inj hpayload, ← Decidable.of_not_not htrailer, List.take_append_drop]

theorem Deflater.txDeflate_spec {d d' : Deflater Z} {raw payload : Bytes}
    (h : d.txDeflate raw = (some payload, d')) : Compresses Z raw payload := by
  unfold txDeflate at h
  cases hstream : d.deflate_stream with
  | none =>
      rw [hstream] at h
      cases h
  | some z =>
      rw [hstream] at h
      cases hattempts : deflateAttempts z raw [0, 1, 2, 3] with
      | mk result z' =>
          cases result with
          | none =>
              simp only [hattempts] at h
              cases h
          | some out =>
              have hsame : out = payload := by
                simp only [hattempts] at h
                split at h
                · split at h
                  · cases h
                  · exact Option.some.inj (Prod.mk.inj h).1
                · exact Option.some.inj (Prod.mk.inj h).1
              exact hsame ▸ deflateAttempts_spec hattempts

/-- The payload is the original, or what the compressor makes of it, where that was
    asked for. -/
theorem Deflater.txPrepare_spec (d : Deflater Z) (original : Bytes) (request_compress : Bool) :
    ((d.txPrepare original request_compress).2.1 = false →
        (d.txPrepare original request_compress).1 = original) ∧
      ((d.txPrepare original request_compress).2.1 = true → request_compress = true ∧
        Compresses Z original (d.txPrepare original request_compress).1) := by
  unfold txPrepare
  split
  · exact ⟨fun _ => rfl, fun hno => absurd hno Bool.false_ne_true⟩
  · rename_i hrequest
    have hrequested : request_compress = true := by
      by_contra hno
      exact hrequest (.inl hno)
    cases hdeflate : d.txDeflate original with
    | mk result d' =>
        cases result with
        | none => exact ⟨fun _ => rfl, fun hno => absurd hno Bool.false_ne_true⟩
        | some payload =>
            exact ⟨fun hno => absurd hno.symm Bool.false_ne_true,
              fun _ => ⟨hrequested, txDeflate_spec hdeflate⟩⟩

end Deflate

end FsBridge.Libwsc
