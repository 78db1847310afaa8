/-
  FsBridge.Libwsc.Outbound

  What the server reads of a client, behind the request of the handshake: the frames
  carry what was given to `send`, in order, however the bytes are cut on their way.
-/

import FsBridge.Lib.WsStream
import FsBridge.Libwsc.ContextWire

namespace FsBridge.Libwsc

open FsBridge.Lib

section Outbound

variable {Z : Zlib} {app : App} {cfg : Config}

theorem wireFrames_eq (fs : List WsFrame) :
    wireFrames fs = WsFrame.written (fun f => .minimal f.payload.length) fs := rfl

theorem length_payload_le (form : LengthForm) (f : WsFrame) :
    f.payload.length ≤ (f.encode form).length := by
  rw [← WsFrame.length_sent f, WsFrame.encode]
  simp only [List.length_cons, List.length_append]
  omega

theorem fits_long_of_le {m n : Nat} (hle : m ≤ n) (h : LengthForm.long.Fits n) :
    LengthForm.long.Fits m := Nat.lt_of_le_of_lt hle h

/-- The lengths on a wire of less than 2^64 bytes fit their form. -/
theorem minimal_fits_wire {fs : List WsFrame}
    (hlen : LengthForm.long.Fits (wireFrames fs).length) :
    ∀ f ∈ fs, (LengthForm.minimal f.payload.length).Fits f.payload.length := by
  intro f hf
  have hmem : (f.encode (.minimal f.payload.length)).Sublist (wireFrames fs) := by
    rw [wireFrames, List.flatMap_def]
    exact List.sublist_flatten_of_mem (List.mem_map_of_mem hf)
  have hle : f.payload.length ≤ (wireFrames fs).length :=
    Nat.le_trans (length_payload_le (.minimal f.payload.length) f) hmem.length_le
  exact LengthForm.minimal_fits (fits_long_of_le hle hlen)

/-- A request begins with a letter. -/
theorem handshakeRequest_head (cfg : Config) : ∃ rest, handshakeRequest cfg = 71 :: rest := by
  unfold handshakeRequest
  simp only [List.append_assoc]
  exact ⟨_, rfl⟩

/-- A frame does not. -/
theorem head_of_carries {sent : MessageType × Bytes} {f : WsFrame} (h : Carries Z sent f) :
    f.headByte ≠ 71 := by
  intro hhead
  have hfin := (WsFrame.headByte_bits f).1.mpr h.fin
  rw [hhead] at hfin
  exact absurd hfin (by decide)

theorem wireFrames_head (f : WsFrame) (fs : List WsFrame) :
    ∃ rest, wireFrames (f :: fs) = f.headByte :: rest := ⟨_, rfl⟩

namespace Client

/-- What stands behind the request is the frames. -/
theorem frames_behind_request {s : Client Z} (h : WireInv cfg s) {sent : Bytes}
    (hwire : s.ctx.sender.output = handshakeRequest cfg ++ sent) :
    ∃ fs, sent = wireFrames fs ∧ List.Forall₂ (Carries Z) s.ctx.frames fs := by
  obtain ⟨request, hsound, hrequest, -⟩ := h.wire
  obtain ⟨fs, houtput, hall⟩ := hsound.wire
  rw [houtput] at hwire
  rcases hrequest with hnone | hrequest
  · -- nothing is sent before the request
    obtain ⟨rest, hletter⟩ := handshakeRequest_head cfg
    rw [hnone, hletter, List.nil_append, List.cons_append] at hwire
    generalize s.ctx.frames = frames at hall
    cases hall with
    | nil => exact absurd hwire (List.cons_ne_nil _ _).symm
    | @cons _ f _ fs hcarries _ =>
        obtain ⟨later, hhead⟩ := wireFrames_head f fs
        rw [hhead] at hwire
        exact absurd (List.cons.inj hwire).1 (head_of_carries hcarries)
  · rw [hrequest] at hwire
    exact ⟨fs, (List.append_cancel_left hwire).symm, hall⟩

/-- A server that has got some of what the client has written, in any segments, has
    read frames that carry the first of the messages, in order; when it has got all of
    it, it has read them all, and nothing is left over. -/
theorem read_of_reachable {s : Client Z} (h : (machine cfg app).Reachable s)
    (hlen : LengthForm.long.Fits s.ctx.sender.output.length) {segs : List Bytes} {more : Bytes}
    (hwire : s.ctx.sender.output = handshakeRequest cfg ++ (segs.flatten ++ more)) :
    List.Forall₂ (Carries Z) (s.ctx.frames.take (WsFrame.read segs).1.length) (WsFrame.read segs).1 ∧
      (more = [] → List.Forall₂ (Carries Z) s.ctx.frames (WsFrame.read segs).1 ∧
        (WsFrame.read segs).2 = []) := by
  obtain ⟨fs, hsent, hall⟩ := frames_behind_request (wireInv_of_reachable h) hwire
  have hle : (wireFrames fs).length ≤ s.ctx.sender.output.length := by
    rw [← hsent, hwire]
    exact (List.sublist_append_right (handshakeRequest cfg) _).length_le
  have hfits := minimal_fits_wire (fits_long_of_le hle hlen)
  refine ⟨?_, fun hmore => ?_⟩
  · have hprefix : (WsFrame.read segs).1 <+: fs :=
      WsFrame.read_prefix hfits ⟨more, hsent.trans (wireFrames_eq fs)⟩
    have htake := List.forall₂_take (WsFrame.read segs).1.length hall
    rwa [← List.prefix_iff_eq_take.mp hprefix] at htake
  · rw [hmore, List.append_nil] at hsent
    rw [WsFrame.read_written hfits (hsent.trans (wireFrames_eq fs))]
    exact ⟨hall, rfl⟩

/-- A message that another thread sends, compressed, read in two segments. -/
theorem read_of_reachable_compressed :
    let s := ranDeflate [.run, .connected none, .read deflateResponse, .load 0 (.binary noise),
      .push 0, .exchange 0, .activate 0, .flush] (by decide +kernel)
    let sent := s.ctx.sender.output.drop (handshakeRequest .deflate).length
    let segs := [sent.take 3, sent.drop 3]
    List.Forall₂ (Carries .stored) (s.ctx.frames.take (WsFrame.read segs).1.length)
        (WsFrame.read segs).1 ∧
      (([] : Bytes) = [] → List.Forall₂ (Carries .stored) s.ctx.frames (WsFrame.read segs).1 ∧
        (WsFrame.read segs).2 = []) := by
  intro s sent segs
  have hwire : s.ctx.sender.output = handshakeRequest .deflate ++ (segs.flatten ++ []) := by
    decide +kernel
  have hreach : (machine .deflate .idle).Reachable s := Lib.Machine.reachable_get _
  have hlen : LengthForm.long.Fits s.ctx.sender.output.length := by decide +kernel
  exact read_of_reachable hreach hlen hwire

end Client

end Outbound

end FsBridge.Libwsc
