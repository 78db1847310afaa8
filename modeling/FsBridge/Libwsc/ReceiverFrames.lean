/-
  FsBridge.Libwsc.ReceiverFrames

  The loop of `onData` frame by frame.

  A turn is decided by the bytes of one frame (`onDataTurn_incremental`), so the
  segments in which a stream arrives do not matter, and on a whole frame it does
  what `headerError` and `handleFrame` say (`onDataTurn_encode`).
-/

import FsBridge.Libwsc.Receiver

namespace FsBridge.Libwsc

open FsBridge.Lib

section ReceiverFrames

variable {Z : Zlib} {σ : Type*} {sinks : Sinks σ} {I : σ → Prop}

/-- What the receiver relies on: sinks that have been told of an error or a close are
    terminating, and whether messages may be compressed does not change. -/
structure Sinks.Lawful (sinks : Sinks σ) (I : σ → Prop) : Prop where
  ping : ∀ s p, I s → sinks.rxIsTerminating s = false → I (sinks.onRxPing s p) ∧
    sinks.rxCompressionEnabled (sinks.onRxPing s p) = sinks.rxCompressionEnabled s
  text : ∀ s m, I s → sinks.rxIsTerminating s = false → I (sinks.onRxText s m) ∧
    sinks.rxCompressionEnabled (sinks.onRxText s m) = sinks.rxCompressionEnabled s
  binary : ∀ s m, I s → sinks.rxIsTerminating s = false → I (sinks.onRxBinary s m) ∧
    sinks.rxCompressionEnabled (sinks.onRxBinary s m) = sinks.rxCompressionEnabled s
  close : ∀ s code reason, I s → sinks.rxIsTerminating s = false →
    I (sinks.onRxClose s code reason) ∧
      sinks.rxIsTerminating (sinks.onRxClose s code reason) = true
  error : ∀ s code why, I s → sinks.rxIsTerminating s = false →
    I (sinks.onRxProtocolError s code why) ∧
      sinks.rxIsTerminating (sinks.onRxProtocolError s code why) = true

/-- Sinks that keep a log: of messages and pings by their opcode, of what is the last
    by its code. -/
def Sinks.log : Sinks (List (Nat × Bytes) × Bool) where
  rxCompressionEnabled _ := false
  rxIsTerminating s := s.2
  onRxPing s p := (s.1 ++ [(9, p)], s.2)
  onRxClose s code reason := (s.1 ++ [(code, reason)], true)
  onRxProtocolError s code why := (s.1 ++ [(code, ascii why)], true)
  onRxText s m := (s.1 ++ [(1, m)], s.2)
  onRxBinary s m := (s.1 ++ [(2, m)], s.2)

theorem Sinks.log_lawful : Sinks.log.Lawful fun _ => True where
  ping _ _ _ _ := ⟨trivial, rfl⟩
  text _ _ _ _ := ⟨trivial, rfl⟩
  binary _ _ _ _ := ⟨trivial, rfl⟩
  close _ _ _ _ _ := ⟨trivial, rfl⟩
  error _ _ _ _ _ := ⟨trivial, rfl⟩

/-- A receiver that logs. -/
def Rx.logging : Rx Zlib.absent (List (Nat × Bytes) × Bool) :=
  ⟨.init ⟨.default, none⟩, ([], false), false⟩

-- ============================================================================
-- The handlers keep the invariant of the sinks
-- ============================================================================

/-- One of the calls of a handler has been made, or none. -/
inductive Told (sinks : Sinks σ) (s : σ) : σ → Prop where
  | nothing : Told sinks s s
  | ping (p : Bytes) : Told sinks s (sinks.onRxPing s p)
  | text (m : Bytes) : Told sinks s (sinks.onRxText s m)
  | binary (m : Bytes) : Told sinks s (sinks.onRxBinary s m)
  | close (code : Nat) (reason : Bytes) : Told sinks s (sinks.onRxClose s code reason)
  | error (code : Nat) (why : String) : Told sinks s (sinks.onRxProtocolError s code why)

theorem Told.inv (hlaw : sinks.Lawful I) {s s' : σ} (hs : I s)
    (hrun : sinks.rxIsTerminating s = false) (h : Told sinks s s') : I s' := by
  cases h with
  | nothing => exact hs
  | ping p => exact (hlaw.ping s p hs hrun).1
  | text m => exact (hlaw.text s m hs hrun).1
  | binary m => exact (hlaw.binary s m hs hrun).1
  | close code reason => exact (hlaw.close s code reason hs hrun).1
  | error code why => exact (hlaw.error s code why hs hrun).1

/-- Both ways of a test tell the sinks at most once. -/
theorem Told.ite {p : Prop} [Decidable p] {s : σ} {a b : Receiver Z × σ} (ha : Told sinks s a.2)
    (hb : Told sinks s b.2) : Told sinks s (if p then a else b).2 := by
  split
  · exact ha
  · exact hb

theorem told_finishMessage (r : Receiver Z) (s : σ) : Told sinks s (r.finishMessage sinks s).2 := by
  unfold Receiver.finishMessage
  split
  · exact .ite (.error _ _) (.text _)
  · exact .binary _
  · exact .error _ _

theorem told_collected (r : Receiver Z) (s : σ) (fin : Bool) :
    Told sinks s (r.collected sinks s fin).2 := by
  unfold Receiver.collected
  refine .ite .nothing (.ite ?_ (told_finishMessage r s))
  split
  · exact .error _ _
  · exact told_finishMessage _ s

theorem told_continuation (r : Receiver Z) (s : σ) (payload : Bytes) (fin : Bool) :
    Told sinks s (r.handleContinuationFrame sinks s payload fin).2 := by
  unfold Receiver.handleContinuationFrame
  exact .ite (.error _ _) (.ite (.error _ _) (told_collected _ s fin))

theorem told_wholeMessage (r : Receiver Z) (s : σ) (opcode : Nat) (message : Bytes) :
    Told sinks s (r.wholeMessage sinks s opcode message).2 := by
  unfold Receiver.wholeMessage
  exact .ite (.ite (.error _ _) (.text _)) (.ite (.binary _) (.error _ _))

theorem told_dataFrame (r : Receiver Z) (s : σ) (payload : Bytes) (fin : Bool) (opcode : Nat)
    (rsv1 : Bool) : Told sinks s (r.handleDataFrame sinks s payload fin opcode rsv1).2 := by
  unfold Receiver.handleDataFrame
  refine .ite (.error _ _) (.ite (.ite (.ite (.error _ _) .nothing) .nothing)
    (.ite ?_ (told_wholeMessage r s opcode payload)))
  split
  · exact .error _ _
  · exact told_wholeMessage _ s opcode _

theorem told_ping (s : σ) (payload : Bytes) : Told sinks s (handlePingFrame sinks s payload) := by
  unfold handlePingFrame
  split
  · exact .error _ _
  · exact .ping _

-- ============================================================================
-- What a turn can do
-- ============================================================================

/-- The header of a frame, as the bit tests read it. -/
structure Header where
  fin : Bool
  rsv1 : Bool
  rsv2 : Bool
  rsv3 : Bool
  opcode : Nat
  mask : Bool
  code : Nat
deriving DecidableEq, Repr

def Header.ofBytes (h0 h1 : UInt8) : Header where
  fin := h0 &&& 0x80 ≠ 0
  rsv1 := h0 &&& 0x40 ≠ 0
  rsv2 := h0 &&& 0x20 ≠ 0
  rsv3 := h0 &&& 0x10 ≠ 0
  opcode := (h0 &&& 0x0F).toNat
  mask := h1 &&& 0x80 ≠ 0
  code := (h1 &&& 0x7F).toNat

/-- What is wrong with a header by itself. -/
def Header.error (compression : Bool) (h : Header) : Option String :=
  if (¬ compression ∧ h.rsv1) ∨ h.rsv2 ∨ h.rsv3 then some "Unexpected RSV bits"
  else if isControl h.opcode ∧ ¬ h.fin then some "Control frame fragmented"
  else if h.mask then some "Masked frame from server"
  else none

/-- The bytes of the header, with those of the length. -/
def headerLen (code : Nat) : Nat := if code = 126 then 4 else if code = 127 then 10 else 2

theorem headerLen_le (code : Nat) : headerLen code ≤ 10 := by
  unfold headerLen
  split
  · decide
  · split <;> decide

theorem takeLength_append {code len : Nat} {s rest : Bytes}
    (h : WsFrame.takeLength code s = some (len, rest)) (more : Bytes) :
    WsFrame.takeLength code (s ++ more) = some (len, rest ++ more) := by
  unfold WsFrame.takeLength at h ⊢
  split at h
  · rename_i hmedium
    split at h
    · cases h
    · obtain ⟨rfl, rfl⟩ := Prod.mk.inj (Option.some.inj h)
      rw [if_pos hmedium, if_neg (by rw [List.length_append]; omega),
        List.take_append_of_le_length (by omega), List.drop_append_of_le_length (by omega)]
  · rename_i hmedium
    rw [if_neg hmedium]
    split at h
    · rename_i hlong
      split at h
      · cases h
      · obtain ⟨rfl, rfl⟩ := Prod.mk.inj (Option.some.inj h)
        rw [if_pos hlong, if_neg (by rw [List.length_append]; omega),
          List.take_append_of_le_length (by omega), List.drop_append_of_le_length (by omega)]
    · rename_i hlong
      obtain ⟨rfl, rfl⟩ := Prod.mk.inj (Option.some.inj h)
      rw [if_neg hlong]

namespace Rx

/-- A turn, by the header and the length that follows it. -/
theorem onDataTurn_cons (x : Rx Z σ) (h0 h1 : UInt8) (s : Bytes) (hthrown : x.thrown = false)
    (hrun : sinks.rxIsTerminating x.sinks = false) :
    x.onDataTurn sinks (h0 :: h1 :: s) =
      match (Header.ofBytes h0 h1).error (sinks.rxCompressionEnabled x.sinks) with
      | some why => x.fail sinks why
      | none =>
          match WsFrame.takeLength (Header.ofBytes h0 h1).code s with
          | none => .wait
          | some (len, _) => x.wholeFrame sinks (h0 :: h1 :: s) (Header.ofBytes h0 h1).opcode
              (Header.ofBytes h0 h1).fin (Header.ofBytes h0 h1).rsv1
              (headerLen (Header.ofBytes h0 h1).code) len := by
  rw [onDataTurn, if_neg (by simp [hthrown]), if_neg (by simp [hrun]), frameTurn]
  simp only [Header.ofBytes, Header.error, decide_eq_true_eq]
  by_cases hrsv : (¬ sinks.rxCompressionEnabled x.sinks = true ∧ h0 &&& 0x40 ≠ 0) ∨
      h0 &&& 0x20 ≠ 0 ∨ h0 &&& 0x10 ≠ 0
  · rw [if_pos hrsv, if_pos hrsv]
  rw [if_neg hrsv, if_neg hrsv]
  by_cases hfragment : isControl (h0 &&& 0x0F).toNat = true ∧ ¬ h0 &&& 0x80 ≠ 0
  · rw [if_pos hfragment, if_pos hfragment]
  rw [if_neg hfragment, if_neg hfragment]
  by_cases hmask : h1 &&& 0x80 ≠ 0
  · rw [if_pos hmask, if_pos hmask]
  rw [if_neg hmask, if_neg hmask]
  generalize (h1 &&& 0x7F).toNat = code
  have hlength : (h0 :: h1 :: s).length = s.length + 2 := rfl
  by_cases hmedium : code = 126
  · subst hmedium
    by_cases hlen : s.length < 2
    · rw [if_pos rfl, if_pos (by omega), WsFrame.takeLength, if_pos rfl, if_pos hlen]
    · rw [if_pos rfl, if_neg (by omega), WsFrame.takeLength, if_pos rfl, if_neg hlen]
      rfl
  by_cases hlong : code = 127
  · subst hlong
    by_cases hlen : s.length < 8
    · rw [if_neg hmedium, if_pos rfl, if_pos (by omega), WsFrame.takeLength, if_neg hmedium,
        if_pos rfl, if_pos hlen]
    · rw [if_neg hmedium, if_pos rfl, if_neg (by omega), WsFrame.takeLength, if_neg hmedium,
        if_pos rfl, if_neg hlen]
      rfl
  · rw [if_neg hmedium, if_neg hlong, WsFrame.takeLength, if_neg hmedium, if_neg hlong, headerLen,
      if_neg hmedium, if_neg hlong]

-- ============================================================================
-- A turn is decided by the bytes of its frame
-- ============================================================================

/-- `onData` has nothing more to do: it has thrown, or the sinks are terminating. -/
def Ended (sinks : Sinks σ) (x : Rx Z σ) : Prop :=
  x.thrown = true ∨ sinks.rxIsTerminating x.sinks = true

theorem onDataTurn_ended {x : Rx Z σ} (h : x.Ended sinks) (buf : Bytes) :
    x.onDataTurn sinks buf = .stop x := by
  unfold onDataTurn
  rcases h with hthrown | hrun
  · rw [if_pos hthrown]
  · rw [if_pos hrun, ite_self]

theorem not_ended {x : Rx Z σ} (h : ¬ x.Ended sinks) :
    x.thrown = false ∧ sinks.rxIsTerminating x.sinks = false :=
  ⟨Bool.eq_false_iff.mpr fun hthrown => h (.inl hthrown),
    Bool.eq_false_iff.mpr fun hrun => h (.inr hrun)⟩

/-- A frame has been handled: it is taken, or its opcode is none. -/
theorem dispatch_cases (x : Rx Z σ) (opcode : Nat) (fin rsv1 : Bool) (payload : Bytes) (need : Nat)
    (hthrown : x.thrown = false) :
    (∃ x', x.dispatch sinks opcode fin rsv1 payload need = .next x' need ∧ x'.thrown = false ∧
      Told sinks x.sinks x'.sinks) ∨
    x.dispatch sinks opcode fin rsv1 payload need = x.fail sinks "Unsupported opcode" := by
  unfold dispatch
  split
  · exact .inl ⟨_, rfl, rfl, told_continuation x.receiver x.sinks payload fin⟩
  · exact .inl ⟨_, rfl, rfl, told_dataFrame x.receiver x.sinks payload fin 1 rsv1⟩
  · exact .inl ⟨_, rfl, rfl, told_dataFrame x.receiver x.sinks payload fin 2 rsv1⟩
  · exact .inl ⟨_, rfl, hthrown, .close _ _⟩
  · exact .inl ⟨_, rfl, hthrown, told_ping x.sinks payload⟩
  · exact .inl ⟨_, rfl, hthrown, .nothing⟩
  · exact .inr rfl

/-- What `wholeFrame` can do. -/
theorem wholeFrame_cases (x : Rx Z σ) (buf : Bytes) (opcode : Nat) (fin rsv1 : Bool)
    (header_len payload_len : Nat) :
    x.wholeFrame sinks buf opcode fin rsv1 header_len payload_len = .wait ∨
    (∃ why, ∀ more, x.wholeFrame sinks (buf ++ more) opcode fin rsv1 header_len payload_len
      = x.fail sinks why) ∨
    (maxSize < payload_len ∧ ∀ more,
      x.wholeFrame sinks (buf ++ more) opcode fin rsv1 header_len payload_len
        = .stop { x with thrown := true }) ∨
    (payload_len ≤ maxSize ∧ (header_len + payload_len) % 2 ^ 64 ≤ buf.length ∧
      0 < (header_len + payload_len) % 2 ^ 64 ∧ ∀ more,
      x.wholeFrame sinks (buf ++ more) opcode fin rsv1 header_len payload_len =
        x.dispatch sinks opcode fin rsv1 (((buf ++ more).drop header_len).take payload_len)
          ((header_len + payload_len) % 2 ^ 64)) := by
  by_cases hlarge : isControl opcode = true ∧ 125 < payload_len
  · exact .inr (.inl ⟨_, fun more => by rw [wholeFrame, if_pos hlarge]⟩)
  by_cases hneed : buf.length < (header_len + payload_len) % 2 ^ 64
  · exact .inl (by rw [wholeFrame, if_neg hlarge]; exact if_pos hneed)
  have hmore : ∀ more, ¬ (buf ++ more).length < (header_len + payload_len) % 2 ^ 64 := by
    intro more
    rw [List.length_append]
    omega
  by_cases hzero : (header_len + payload_len) % 2 ^ 64 = 0
  · refine .inr (.inl ⟨"Failed to pullup frame buffer", fun more => ?_⟩)
    rw [wholeFrame, if_neg hlarge]
    exact (if_neg (hmore more)).trans (if_pos hzero)
  by_cases hmax : maxSize < payload_len
  · refine .inr (.inr (.inl ⟨hmax, fun more => ?_⟩))
    rw [wholeFrame, if_neg hlarge]
    exact (if_neg (hmore more)).trans ((if_neg hzero).trans (if_pos hmax))
  · refine .inr (.inr (.inr ⟨by omega, by omega, by omega, fun more => ?_⟩))
    rw [wholeFrame, if_neg hlarge]
    exact (if_neg (hmore more)).trans ((if_neg hzero).trans (if_neg hmax))

/-- What a turn can do, and that bytes behind it do not change it. -/
theorem onDataTurn_cases {x : Rx Z σ} (hx : ¬ x.Ended sinks) (buf : Bytes) :
    x.onDataTurn sinks buf = .wait ∨
    (∃ why, ∀ more, x.onDataTurn sinks (buf ++ more) = x.fail sinks why) ∨
    (∀ more, x.onDataTurn sinks (buf ++ more) = .stop { x with thrown := true }) ∨
    (∃ x' n, x'.thrown = false ∧ Told sinks x.sinks x'.sinks ∧ 0 < n ∧ n ≤ buf.length ∧
      ∀ more, x.onDataTurn sinks (buf ++ more) = .next x' n) := by
  obtain ⟨hthrown, hrun⟩ := not_ended hx
  match buf with
  | [] => exact .inl (by simp [onDataTurn, frameTurn, hthrown, hrun])
  | [_] => exact .inl (by simp [onDataTurn, frameTurn, hthrown, hrun])
  | h0 :: h1 :: s =>
      rw [onDataTurn_cons x h0 h1 s hthrown hrun]
      have hturn : ∀ more, x.onDataTurn sinks (h0 :: h1 :: s ++ more) = _ := fun more =>
        onDataTurn_cons x h0 h1 (s ++ more) hthrown hrun
      cases herror : (Header.ofBytes h0 h1).error (sinks.rxCompressionEnabled x.sinks) with
      | some why => exact .inr (.inl ⟨why, fun more => by rw [hturn, herror]⟩)
      | none =>
          cases hlength : WsFrame.takeLength (Header.ofBytes h0 h1).code s with
          | none => exact .inl rfl
          | some r =>
              obtain ⟨len, rest⟩ := r
              have hwhole : ∀ more, x.onDataTurn sinks (h0 :: h1 :: s ++ more) =
                  x.wholeFrame sinks (h0 :: h1 :: s ++ more) (Header.ofBytes h0 h1).opcode
                    (Header.ofBytes h0 h1).fin (Header.ofBytes h0 h1).rsv1
                    (headerLen (Header.ofBytes h0 h1).code) len := fun more => by
                rw [hturn, herror, takeLength_append hlength]
                rfl
              have hheader := headerLen_le (Header.ofBytes h0 h1).code
              rcases @wholeFrame_cases Z σ sinks x (h0 :: h1 :: s)
                (Header.ofBytes h0 h1).opcode (Header.ofBytes h0 h1).fin
                (Header.ofBytes h0 h1).rsv1 (headerLen (Header.ofBytes h0 h1).code) len with
                hwait | ⟨why, hfail⟩ | ⟨-, hthrow⟩ | ⟨hmax, hneed, hpos, hnext⟩
              · exact .inl hwait
              · exact .inr (.inl ⟨why, fun more => (hwhole more).trans (hfail more)⟩)
              · exact .inr (.inr (.inl fun more => (hwhole more).trans (hthrow more)))
              · -- a length that is handled does not wrap around
                have hwrap : (headerLen (Header.ofBytes h0 h1).code + len) % 2 ^ 64 =
                    headerLen (Header.ofBytes h0 h1).code + len := by
                  unfold maxSize at hmax
                  omega
                rw [hwrap] at hneed hpos
                have hpayload : ∀ more, ((h0 :: h1 :: s ++ more).drop
                    (headerLen (Header.ofBytes h0 h1).code)).take len =
                      ((h0 :: h1 :: s).drop (headerLen (Header.ofBytes h0 h1).code)).take len := by
                  intro more
                  rw [List.drop_append_of_le_length (by omega),
                    List.take_append_of_le_length (by rw [List.length_drop]; omega)]
                rw [hwrap] at hnext
                rcases @dispatch_cases Z σ sinks x (Header.ofBytes h0 h1).opcode
                  (Header.ofBytes h0 h1).fin (Header.ofBytes h0 h1).rsv1
                  (((h0 :: h1 :: s).drop (headerLen (Header.ofBytes h0 h1).code)).take len)
                  (headerLen (Header.ofBytes h0 h1).code + len) hthrown with
                  ⟨x', hx', hthrown', htold⟩ | hfail
                · exact .inr (.inr (.inr ⟨x', _, hthrown', htold, hpos, hneed, fun more => by
                    rw [hwhole, hnext, hpayload, hx']⟩))
                · exact .inr (.inl ⟨_, fun more => by rw [hwhole, hnext, hpayload, hfail]⟩)

/-- The loop of `onData` is decided by the bytes it takes. -/
theorem onDataTurn_incremental (hlaw : sinks.Lawful I) :
    Consumer.Incremental (onDataTurn (Z := Z) sinks) fun x => I x.sinks where
  next := by
    intro x x' buf n hI h
    by_cases hended : x.Ended sinks
    · rw [onDataTurn_ended hended] at h
      cases h
    rcases onDataTurn_cases hended buf with
      hwait | ⟨why, hfail⟩ | hthrow | ⟨x₁, n₁, -, htold, hpos, hle, hnext⟩
    · rw [hwait] at h
      cases h
    · have hturn := hfail []
      rw [List.append_nil, h] at hturn
      cases hturn
    · have hturn := hthrow []
      rw [List.append_nil, h] at hturn
      cases hturn
    · have hturn := hnext []
      rw [List.append_nil, h] at hturn
      obtain ⟨rfl, rfl⟩ := Consumer.Turn.next.inj hturn
      exact ⟨htold.inv hlaw hI (not_ended hended).2, hpos, hle, hnext⟩
  stop := by
    intro x x' buf hI h
    by_cases hended : x.Ended sinks
    · rw [onDataTurn_ended hended] at h
      cases h
      exact ⟨hI, onDataTurn_ended hended, fun more => onDataTurn_ended hended _⟩
    obtain ⟨hthrown, hrun⟩ := not_ended hended
    rcases onDataTurn_cases hended buf with
      hwait | ⟨why, hfail⟩ | hthrow | ⟨x₁, n₁, -, -, -, -, hnext⟩
    · rw [hwait] at h
      cases h
    · have hturn := hfail []
      rw [List.append_nil, h] at hturn
      obtain rfl := Consumer.Turn.stop.inj hturn
      obtain ⟨herror, hstop⟩ := hlaw.error x.sinks 1002 why hI hrun
      exact ⟨herror, onDataTurn_ended (.inr hstop), hfail⟩
    · have hturn := hthrow []
      rw [List.append_nil, h] at hturn
      obtain rfl := Consumer.Turn.stop.inj hturn
      exact ⟨hI, onDataTurn_ended (.inl rfl), hthrow⟩
    · have hturn := hnext []
      rw [List.append_nil, h] at hturn
      cases hturn

theorem onData_nil (x : Rx Z σ) : x.onData sinks [] = (x, []) := by
  by_cases hended : x.Ended sinks
  · exact Consumer.drain_stop (onDataTurn_ended hended [])
  · obtain ⟨hthrown, hrun⟩ := not_ended hended
    exact Consumer.drain_wait (by simp [onDataTurn, frameTurn, hthrown, hrun])

/-- The segments come to what their bytes come to. -/
theorem onSegments_eq_onData (hlaw : sinks.Lawful I) {x : Rx Z σ} (hs : I x.sinks)
    (segs : List Bytes) : x.onSegments sinks segs = x.onData sinks segs.flatten :=
  (onDataTurn_incremental hlaw).feed_eq_drain hs [] segs (onData_nil x)

/-- However bytes are cut into segments, the same comes of them: what the receiver holds,
    what the sinks have been told, and what is left in the buffer. -/
theorem onSegments_congr (hlaw : sinks.Lawful I) {x : Rx Z σ} (hs : I x.sinks)
    {segs segs' : List Bytes} (h : segs.flatten = segs'.flatten) :
    x.onSegments sinks segs = x.onSegments sinks segs' := by
  rw [onSegments_eq_onData hlaw hs, onSegments_eq_onData hlaw hs, h]

/-- A text of two bytes, cut inside its header and inside its payload. -/
theorem onSegments_congr_text :
    logging.onSegments Sinks.log [[0x81], [2, 104], [105, 0x89]] =
      logging.onSegments Sinks.log [[0x81, 2, 104, 105, 0x89]] :=
  onSegments_congr Sinks.log_lawful trivial rfl

end Rx

-- ============================================================================
-- Whole frames
-- ============================================================================

theorem and_bit_iff : ∀ b : UInt8,
    (b &&& 0x80 ≠ 0 ↔ b.toNat / 128 % 2 = 1) ∧ (b &&& 0x40 ≠ 0 ↔ b.toNat / 64 % 2 = 1) ∧
      (b &&& 0x20 ≠ 0 ↔ b.toNat / 32 % 2 = 1) ∧ (b &&& 0x10 ≠ 0 ↔ b.toNat / 16 % 2 = 1) ∧
      (b &&& 0x0F).toNat = b.toNat % 16 ∧ (b &&& 0x7F).toNat = b.toNat % 128 ∧
      (b &&& 0x80 ≠ 0 ↔ 128 ≤ b.toNat) :=
  forall_byte (by decide +kernel)

/-- The header of a frame as it is written. -/
theorem header_encode (f : WsFrame) (form : LengthForm) (h : form.Fits f.payload.length) :
    Header.ofBytes f.headByte (f.lengthByte form) =
      ⟨f.fin, f.rsv1, f.rsv2, f.rsv3, f.opcode.val, f.maskKey.isSome,
        form.code f.payload.length⟩ := by
  obtain ⟨hfin, hrsv1, hrsv2, hrsv3, hop⟩ := WsFrame.headByte_bits f
  obtain ⟨hcode, hmasked⟩ := WsFrame.lengthByte_bits h
  obtain ⟨b1, b2, b3, b4, bop, -, -⟩ := and_bit_iff f.headByte
  obtain ⟨-, -, -, -, -, bcode, bmask⟩ := and_bit_iff (f.lengthByte form)
  simp only [Header.ofBytes, b1, b2, b3, b4, bop, bcode, bmask, hfin, hrsv1, hrsv2, hrsv3, hop,
    hcode, hmasked, Bool.decide_eq_true]

/-- What is wrong with a frame by its header, with the length of the payload. -/
def frameError (compression : Bool) (f : WsFrame) : Option String :=
  if (¬ compression ∧ f.rsv1) ∨ f.rsv2 ∨ f.rsv3 then some "Unexpected RSV bits"
  else if isControl f.opcode ∧ ¬ f.fin then some "Control frame fragmented"
  else if f.maskKey.isSome then some "Masked frame from server"
  else if isControl f.opcode ∧ 125 < f.payload.length then some "Control frame payload too large"
  else none

theorem length_encode {f : WsFrame} {form : LengthForm} (hmask : f.maskKey = none)
    (h : form.Fits f.payload.length) :
    (f.encode form).length = headerLen (form.code f.payload.length) + f.payload.length ∧
      (f.encode form).drop (headerLen (form.code f.payload.length)) = f.payload := by
  have hsent : f.sent = f.payload := by
    unfold WsFrame.sent
    rw [hmask]
  rw [WsFrame.encode, hmask, hsent, WsFrame.keyBytes, List.nil_append]
  cases form with
  | short =>
      have hle : f.payload.length ≤ 125 := h
      have hlen : headerLen f.payload.length = 2 := by
        rw [headerLen, if_neg (by omega), if_neg (by omega)]
      rw [LengthForm.code, LengthForm.extended, hlen]
      exact ⟨by simp only [List.length_cons, List.nil_append]; omega, rfl⟩
  | medium =>
      rw [LengthForm.code, LengthForm.extended]
      refine ⟨?_, List.drop_left' (length_beBytes 2 _)⟩
      simp only [List.length_cons, List.length_append, length_beBytes, headerLen, if_pos]
      omega
  | long =>
      rw [LengthForm.code, LengthForm.extended]
      refine ⟨?_, List.drop_left' (length_beBytes 8 _)⟩
      simp only [List.length_cons, List.length_append, length_beBytes]
      show 8 + f.payload.length + 1 + 1 = 10 + f.payload.length
      omega

namespace Rx

/-- A turn on a frame that has come whole. -/
theorem onDataTurn_encode {x : Rx Z σ} (hx : ¬ x.Ended sinks) {f : WsFrame} {form : LengthForm}
    (h : form.Fits f.payload.length) (hmax : f.payload.length ≤ maxSize) (rest : Bytes) :
    x.onDataTurn sinks (f.encode form ++ rest) =
      match frameError (sinks.rxCompressionEnabled x.sinks) f with
      | some why => x.fail sinks why
      | none => x.dispatch sinks f.opcode.val f.fin f.rsv1 f.payload (f.encode form).length := by
  obtain ⟨hthrown, hrun⟩ := not_ended hx
  have hcons : f.encode form ++ rest = f.headByte :: f.lengthByte form ::
      (form.extended f.payload.length ++ (WsFrame.keyBytes f.maskKey ++ f.sent ++ rest)) := by
    rw [WsFrame.encode, List.cons_append, List.cons_append, List.append_assoc]
  have hturn := onDataTurn_cons x f.headByte (f.lengthByte form)
    (form.extended f.payload.length ++ (WsFrame.keyBytes f.maskKey ++ f.sent ++ rest)) hthrown hrun
  rw [← hcons, header_encode f form h, WsFrame.takeLength_extended h] at hturn
  rw [hturn]
  unfold frameError Header.error
  dsimp only
  by_cases hrsv : (¬ sinks.rxCompressionEnabled x.sinks = true ∧ f.rsv1 = true) ∨
      f.rsv2 = true ∨ f.rsv3 = true
  · rw [if_pos hrsv, if_pos hrsv]
  rw [if_neg hrsv, if_neg hrsv]
  by_cases hfragment : isControl f.opcode.val = true ∧ ¬ f.fin = true
  · rw [if_pos hfragment, if_pos hfragment]
  rw [if_neg hfragment, if_neg hfragment]
  by_cases hmask : f.maskKey.isSome = true
  · rw [if_pos hmask, if_pos hmask]
  rw [if_neg hmask, if_neg hmask]
  obtain ⟨hlen, hpayload⟩ := length_encode (Option.not_isSome_iff_eq_none.mp hmask) h
  have hneed : (headerLen (form.code f.payload.length) + f.payload.length) % 2 ^ 64 =
      (f.encode form).length := by
    rw [hlen, Nat.mod_eq_of_lt]
    have hheader : headerLen (form.code f.payload.length) ≤ 10 := headerLen_le _
    unfold maxSize at hmax
    omega
  have hpos : 0 < (f.encode form).length := by
    rw [WsFrame.encode]
    exact Nat.succ_pos _
  dsimp only
  unfold wholeFrame
  rw [hneed]
  by_cases hlarge : isControl f.opcode.val = true ∧ 125 < f.payload.length
  · rw [if_pos hlarge, if_pos hlarge]
  rw [if_neg hlarge, if_neg hlarge]
  dsimp only
  rw [if_neg (by rw [List.length_append]; omega), if_neg (by omega), if_neg (by omega),
    List.drop_append_of_le_length (by omega), hpayload, List.take_left]

end Rx

-- ============================================================================
-- Lengths that wrap around
-- ============================================================================

/-- A frame whose length, with that of its header, is past the end of a `size_t` by
    one or more: `need` is less than the header, which has come. -/
def WrapsAround (compression : Bool) : Bytes → Prop
  | h0 :: h1 :: rest =>
      (Header.ofBytes h0 h1).error compression = none ∧
        isControl (Header.ofBytes h0 h1).opcode = false ∧ (Header.ofBytes h0 h1).code = 127 ∧
        8 ≤ rest.length ∧ 2 ^ 64 < 10 + beNat (rest.take 8)
  | _ => False

instance (compression : Bool) : (buf : Bytes) → Decidable (WrapsAround compression buf)
  | [] => inferInstanceAs (Decidable False)
  | [_] => inferInstanceAs (Decidable False)
  | h0 :: h1 :: rest => inferInstanceAs (Decidable
      ((Header.ofBytes h0 h1).error compression = none ∧
        isControl (Header.ofBytes h0 h1).opcode = false ∧ (Header.ofBytes h0 h1).code = 127 ∧
        8 ≤ rest.length ∧ 2 ^ 64 < 10 + beNat (rest.take 8)))

namespace Rx

/-- A length of 63 bits or more is not waited for only where it wraps around. -/
theorem wholeFrame_throws_iff (x : Rx Z σ) (hthrown : x.thrown = false) {buf : Bytes}
    (hbuf : buf.length < 2 ^ 63) (opcode : Nat) (fin rsv1 : Bool) {header_len payload_len : Nat}
    (hheader : header_len ≤ 10) (hle : header_len ≤ buf.length) (hlen : payload_len < 2 ^ 64) :
    (∃ x', x.wholeFrame sinks buf opcode fin rsv1 header_len payload_len = .stop x' ∧
        x'.thrown = true) ↔
      isControl opcode = false ∧ 2 ^ 64 < header_len + payload_len := by
  have hfail : ∀ why, ¬ ∃ x', x.fail sinks why = .stop x' ∧ x'.thrown = true := by
    rintro why ⟨x', hx', hthrown'⟩
    obtain rfl := Consumer.Turn.stop.inj hx'
    exact absurd (hthrown.symm.trans hthrown') (by decide)
  unfold wholeFrame
  by_cases hcontrol : isControl opcode = true ∧ 125 < payload_len
  · rw [if_pos hcontrol]
    exact iff_of_false (hfail _) fun h => absurd (h.1.symm.trans hcontrol.1) (by decide)
  rw [if_neg hcontrol]
  dsimp only
  by_cases hwrap : header_len + payload_len < 2 ^ 64
  · -- what has come whole is shorter than the buffer
    rw [Nat.mod_eq_of_lt hwrap]
    refine iff_of_false ?_ fun h => absurd h.2 (by omega)
    by_cases hneed : buf.length < header_len + payload_len
    · rw [if_pos hneed]
      rintro ⟨x', hx', -⟩
      cases hx'
    rw [if_neg hneed]
    by_cases hzero : header_len + payload_len = 0
    · rw [if_pos hzero]
      exact hfail _
    rw [if_neg hzero, if_neg (by unfold maxSize; omega)]
    rcases @dispatch_cases Z σ sinks x opcode fin rsv1
      ((buf.drop header_len).take payload_len) (header_len + payload_len) hthrown with
      ⟨x₁, hx₁, -, -⟩ | hx₁
    · rw [hx₁]
      rintro ⟨x', hx', -⟩
      cases hx'
    · rw [hx₁]
      exact hfail _
  · have hmod : (header_len + payload_len) % 2 ^ 64 = header_len + payload_len - 2 ^ 64 := by
      omega
    rw [hmod, if_neg (by omega)]
    by_cases hzero : header_len + payload_len - 2 ^ 64 = 0
    · rw [if_pos hzero]
      exact iff_of_false (hfail _) fun h => absurd h.2 (by omega)
    · rw [if_neg hzero, if_pos (by unfold maxSize; omega)]
      refine iff_of_true ⟨_, rfl, rfl⟩ ⟨?_, by omega⟩
      exact Bool.eq_false_iff.mpr fun h => hcontrol ⟨h, by omega⟩

/-- One turn throws exactly at a length that wraps around. -/
theorem onDataTurn_throws_iff {x : Rx Z σ} (hx : ¬ x.Ended sinks) {buf : Bytes}
    (hbuf : buf.length < 2 ^ 63) :
    (∃ x', x.onDataTurn sinks buf = .stop x' ∧ x'.thrown = true) ↔
      WrapsAround (sinks.rxCompressionEnabled x.sinks) buf := by
  obtain ⟨hthrown, hrun⟩ := not_ended hx
  match buf with
  | [] => simp [onDataTurn, frameTurn, hthrown, hrun, WrapsAround]
  | [_] => simp [onDataTurn, frameTurn, hthrown, hrun, WrapsAround]
  | h0 :: h1 :: rest =>
      rw [onDataTurn_cons x h0 h1 rest hthrown hrun, WrapsAround]
      cases herror : (Header.ofBytes h0 h1).error (sinks.rxCompressionEnabled x.sinks) with
      | some why =>
          refine iff_of_false ?_ fun h => absurd h.1 (by simp)
          rintro ⟨x', hx', hthrown'⟩
          obtain rfl := Consumer.Turn.stop.inj hx'
          exact absurd (hthrown.symm.trans hthrown') (by decide)
      | none =>
          have hcode : (Header.ofBytes h0 h1).code < 128 := by
            show (h1 &&& 0x7F).toNat < 128
            rw [(and_bit_iff h1).2.2.2.2.2.1]
            exact Nat.mod_lt _ (by decide)
          have htwo := beNat_lt (rest.take 2)
          have height := beNat_lt (rest.take 8)
          have hlength : (h0 :: h1 :: rest).length = rest.length + 2 := rfl
          generalize (Header.ofBytes h0 h1).code = code at hcode ⊢
          by_cases hlong : code = 127
          · subst hlong
            by_cases hcome : rest.length < 8
            · rw [WsFrame.takeLength, if_neg (by decide), if_pos rfl, if_pos hcome]
              refine iff_of_false ?_ fun h => absurd h.2.2.2.1 (by omega)
              rintro ⟨x', hx', -⟩
              cases hx'
            · rw [WsFrame.takeLength, if_neg (by decide), if_pos rfl, if_neg hcome]
              have hlen : (rest.take 8).length = 8 := by
                rw [List.length_take]
                omega
              rw [hlen] at height
              refine (wholeFrame_throws_iff x hthrown hbuf _ _ _ (headerLen_le 127)
                (by rw [hlength]; show 10 ≤ _; omega) height).trans ?_
              exact ⟨fun h => ⟨rfl, h.1, rfl, by omega, h.2⟩, fun h => ⟨h.2.1, h.2.2.2.2⟩⟩
          · refine iff_of_false ?_ fun h => absurd h.2.2.1 hlong
            have hsmall : ∀ n r, WsFrame.takeLength code rest = some (n, r) →
                n < 65536 ∧ headerLen code ≤ rest.length + 2 := by
              intro n r h
              unfold WsFrame.takeLength at h
              unfold headerLen
              rw [if_neg hlong]
              by_cases hmedium : code = 126
              · rw [if_pos hmedium] at h ⊢
                by_cases hcome : rest.length < 2
                · rw [if_pos hcome] at h
                  cases h
                · rw [if_neg hcome] at h
                  obtain ⟨rfl, rfl⟩ := Prod.mk.inj (Option.some.inj h)
                  have hlen : (rest.take 2).length = 2 := by
                    rw [List.length_take]
                    omega
                  rw [hlen] at htwo
                  exact ⟨htwo, by omega⟩
              · rw [if_neg hmedium, if_neg hlong] at h
                obtain ⟨rfl, rfl⟩ := Prod.mk.inj (Option.some.inj h)
                rw [if_neg hmedium]
                omega
            cases htake : WsFrame.takeLength code rest with
            | none =>
                rintro ⟨x', hx', -⟩
                cases hx'
            | some r =>
                obtain ⟨n, r⟩ := r
                obtain ⟨hn, hheader⟩ := hsmall n r htake
                intro h
                have hthrows := (wholeFrame_throws_iff x hthrown hbuf _ _ _ (headerLen_le code)
                  (by rw [hlength]; exact hheader) (by omega)).mp h
                have hle := headerLen_le code
                omega

/-- `std::length_error` leaves `onData`, whatever has arrived and in whatever
    segments, exactly when a frame is at the head of the buffer whose length wraps
    around, and the sinks would still be told of it. -/
theorem onSegments_thrown_iff (hlaw : sinks.Lawful I) {x : Rx Z σ} (hs : I x.sinks)
    (hthrown : x.thrown = false) {segs : List Bytes} (hbuf : segs.flatten.length < 2 ^ 63) :
    (x.onSegments sinks segs).1.thrown = true ↔
      sinks.rxIsTerminating (x.onSegments sinks segs).1.sinks = false ∧
        WrapsAround (sinks.rxCompressionEnabled (x.onSegments sinks segs).1.sinks)
          (x.onSegments sinks segs).2 := by
  rw [onSegments_eq_onData hlaw hs]
  generalize segs.flatten = buf at hbuf ⊢
  unfold onData
  have hturn := onDataTurn_incremental (Z := Z) hlaw
  revert hthrown hbuf
  refine hturn.drain_induction (P := fun x buf => x.thrown = false → buf.length < 2 ^ 63 →
    ((Consumer.drain (onDataTurn sinks) x buf).1.thrown = true ↔
      sinks.rxIsTerminating (Consumer.drain (onDataTurn sinks) x buf).1.sinks = false ∧
        WrapsAround (sinks.rxCompressionEnabled
          (Consumer.drain (onDataTurn sinks) x buf).1.sinks)
          (Consumer.drain (onDataTurn sinks) x buf).2)) ?_ ?_ ?_ hs buf
  · intro x buf hI hwait hthrown hbuf
    rw [Consumer.drain_wait hwait]
    refine iff_of_false (by simp [hthrown]) ?_
    rintro ⟨hrun, hwrap⟩
    have hx : ¬ x.Ended sinks := by simp [Ended, hthrown, hrun]
    obtain ⟨x', hx', -⟩ := (onDataTurn_throws_iff hx hbuf).mpr hwrap
    rw [hwait] at hx'
    cases hx'
  · intro x x' buf hI hstop hthrown hbuf
    rw [Consumer.drain_stop hstop]
    by_cases hx : x.Ended sinks
    · rw [onDataTurn_ended hx] at hstop
      cases hstop
      have hrun : sinks.rxIsTerminating x.sinks = true :=
        hx.resolve_left fun h => absurd (hthrown.symm.trans h) (by decide)
      exact iff_of_false (by simp [hthrown]) fun h => absurd (hrun.symm.trans h.1) (by decide)
    obtain ⟨-, hrun⟩ := not_ended hx
    have hthrows := onDataTurn_throws_iff hx hbuf
    rcases onDataTurn_cases hx buf with hwait | ⟨why, hfail⟩ | hthrow | ⟨x₁, n, -, -, -, -, hnext⟩
    · rw [hstop] at hwait
      cases hwait
    · have heq := hfail []
      rw [List.append_nil, hstop] at heq
      obtain rfl := Consumer.Turn.stop.inj heq
      have hend := (hlaw.error x.sinks 1002 why hI hrun).2
      exact iff_of_false (by simp [hthrown]) fun h => absurd (hend.symm.trans h.1) (by decide)
    · have heq := hthrow []
      rw [List.append_nil, hstop] at heq
      obtain rfl := Consumer.Turn.stop.inj heq
      exact iff_of_true rfl ⟨hrun, hthrows.mp ⟨_, hstop, rfl⟩⟩
    · have heq := hnext []
      rw [List.append_nil, hstop] at heq
      cases heq
  · intro x x' buf n hI hnext ih hthrown hbuf
    have hx : ¬ x.Ended sinks := fun hx => by
      rw [onDataTurn_ended hx] at hnext
      cases hnext
    rw [hturn.drain_next hI hnext]
    refine ih ?_ (by rw [List.length_drop]; omega)
    rcases onDataTurn_cases hx buf with hwait | ⟨why, hfail⟩ | hthrow | ⟨x₁, n₁, hx₁, -, -, -, hn⟩
    · rw [hnext] at hwait
      cases hwait
    · have heq := hfail []
      rw [List.append_nil, hnext] at heq
      cases heq
    · have heq := hthrow []
      rw [List.append_nil, hnext] at heq
      cases heq
    · have heq := hn []
      rw [List.append_nil, hnext] at heq
      obtain ⟨rfl, -⟩ := Consumer.Turn.next.inj heq
      exact hx₁

/-- The frame whose length is the largest there is. -/
theorem onSegments_thrown_iff_largest :
    (logging.onSegments Sinks.log
      [[0x82, 127], [255, 255, 255, 255], [255, 255, 255, 255]]).1.thrown = true :=
  (onSegments_thrown_iff Sinks.log_lawful trivial rfl (by decide)).mpr
    (by decide +kernel)

end Rx

end ReceiverFrames

end FsBridge.Libwsc
