/-
  FsBridge.Libwsc.ContextWire

  What a client puts on the wire, whatever the application does, whatever the server
  sends and however the threads are scheduled: the request of the handshake and then
  masked frames, each in the shortest form, at most one of them a close frame and
  nothing behind it.
-/

import FsBridge.Libwsc.ClientLaws
import Mathlib.Data.List.Forall2

namespace FsBridge.Libwsc

open FsBridge.Lib

section ContextWire

variable {Z : Zlib} {app : App} {cfg : Config} {request : Bytes}

/-- At most one close frame has been sent, as the last. -/
def Orderly (frames : List (MessageType × Bytes)) : Prop :=
  ∃ body last, frames = body ++ last ∧ (∀ f ∈ body, f.1 ≠ .close) ∧
    (last = [] ∨ ∃ payload, last = [(.close, payload)])

/-- The frames in the output buffer, each in the shortest form. -/
def wireFrames (fs : List WsFrame) : Bytes :=
  fs.flatMap fun f => f.encode (.minimal f.payload.length)

/-- The output buffer holds what was written before the handshake, and the frames. -/
def OnWire (Z : Zlib) (request output : Bytes) (frames : List (MessageType × Bytes)) : Prop :=
  ∃ fs, output = request ++ wireFrames fs ∧ List.Forall₂ (Carries Z) frames fs

theorem OnWire.snoc {output : Bytes} {frames : List (MessageType × Bytes)}
    (h : OnWire Z request output frames) {sent : MessageType × Bytes} {f : WsFrame}
    (hf : Carries Z sent f) :
    OnWire Z request (output ++ f.encode (.minimal f.payload.length)) (frames ++ [sent]) := by
  obtain ⟨fs, rfl, hall⟩ := h
  refine ⟨fs ++ [f], ?_, List.rel_append hall (List.Forall₂.cons hf .nil)⟩
  rw [wireFrames, wireFrames, List.flatMap_append, List.flatMap_singleton, List.append_assoc]

namespace Context

/-- The frames of a context: none is a close frame before `close_sent`. -/
structure Sound (request : Bytes) (x : Context Z) : Prop where
  before : x.close_sent = false → ∀ f ∈ x.frames, f.1 ≠ .close
  orderly : Orderly x.frames
  wire : OnWire Z request x.sender.output x.frames

/-- A frame is sent, or it is too large and nothing happens. -/
theorem send_cases (x : Context Z) (type : MessageType) (raw : Bytes) :
    x.send app type raw = x ∨
    (∃ f, Carries Z (type, raw) f ∧ (x.send app type raw).frames = x.frames ++ [(type, raw)] ∧
      (x.send app type raw).sender.output =
        x.sender.output ++ f.encode (.minimal f.payload.length)) := by
  unfold send
  rcases send_spec x.sender (app.seed x.frames.length) x.use_compression type raw with
    ⟨hcontrol, hlarge, heq⟩ | ⟨hsmall, f, hcarries, houtput⟩
  · left
    rw [heq, if_pos ⟨hcontrol, hlarge⟩]
  · exact .inr ⟨f, hcarries, if_neg hsmall, houtput⟩

/-- Before the close frame anything may be sent; `x'` is the context behind the frame,
    whatever else has changed. -/
theorem Sound.send {x x' : Context Z} (h : Sound request x) (hopen : x.close_sent = false)
    (type : MessageType) (raw : Bytes) (hframes : x'.frames = (x.send app type raw).frames)
    (houtput : x'.sender = (x.send app type raw).sender)
    (hclose : x'.close_sent = false → type ≠ .close) : Sound request x' := by
  have hbefore := h.before hopen
  rcases @send_cases Z app x type raw with heq | ⟨f, hcarries, hsent, hbytes⟩
  · rw [heq] at hframes houtput
    exact ⟨fun _ => hframes ▸ hbefore, hframes ▸ h.orderly, by
      rw [hframes, houtput]
      exact h.wire⟩
  · rw [hsent] at hframes
    refine ⟨fun hx' g hg => ?_, ?_, ?_⟩
    · rw [hframes] at hg
      rcases List.mem_append.mp hg with hg | hg
      · exact hbefore g hg
      · rw [List.mem_singleton.mp hg]
        exact hclose hx'
    · rw [hframes]
      by_cases htype : type = .close
      · exact ⟨x.frames, [(type, raw)], rfl, hbefore, .inr ⟨raw, by rw [htype]⟩⟩
      · refine ⟨x.frames ++ [(type, raw)], [], (List.append_nil _).symm, fun g hg => ?_, .inl rfl⟩
        rcases List.mem_append.mp hg with hg | hg
        · exact hbefore g hg
        · rw [List.mem_singleton.mp hg]
          exact htype
    · rw [hframes, houtput, hbytes]
      exact h.wire.snoc hcarries

theorem Quiet1.sound {x x' : Context Z} (hinv : Inv x) (h : Sound request x)
    (hstep : Quiet1 app x x') : Sound request x' := by
  have hnotSent : x.isClosing = false → x.close_sent = false := fun hopen => by
    by_contra hsent
    have := hinv.sent (Bool.not_eq_false _ ▸ hsent)
    exact absurd (this.symm.trans hopen) (by decide)
  cases hstep with
  | send type raw hup hopen htype =>
      exact @Sound.send Z app _ _ _ h (hnotSent hopen) type raw rfl rfl fun _ => htype
  | pop p rest hqueue =>
      rcases @flushOne_cases Z app { x with send_queue := rest }
        (x.connection_state = .connected) p with
        hone | ⟨type, raw, htype, -, hstate, -, hone⟩ | ⟨payload, -, hsent, -, hone⟩
      · rw [hone]
        exact ⟨h.before, h.orderly, h.wire⟩
      · have hopen : x.isClosing = false := by
          have hstate : x.connection_state = .connected := hstate
          simp [isClosing, hstate]
        rw [hone]
        refine @Sound.send Z app _ _ _ h (hnotSent hopen) type raw rfl rfl fun _ => ?_
        rcases htype with ⟨-, rfl⟩ | ⟨-, rfl⟩ <;> decide
      · rw [hone]
        exact @Sound.send Z app _ _ _ h hsent .close payload rfl rfl
          fun hx' => absurd (show true = false from hx') (by decide)
  | push p hp =>
      unfold Context.push
      split <;> exact ⟨h.before, h.orderly, h.wire⟩
  | mark x' hmark =>
      obtain ⟨-, hrest⟩ := hmark
      rw [hrest]
      exact ⟨h.before, h.orderly, h.wire⟩

theorem Move.sound {x x' : Context Z} (hinv : Inv x) (h : Sound request x) (hmove : Move app x x') :
    Sound request x' := by
  cases hmove with
  | quiet x' hstep => exact hstep.sound hinv h
  | flags x' hflags =>
      have hrest := hflags.rest
      rw [hrest]
      exact ⟨h.before, h.orderly, h.wire⟩
  | closing state hstate => exact ⟨h.before, h.orderly, h.wire⟩
  | queueClose payload hlen hup hclosing hroom => exact ⟨h.before, h.orderly, h.wire⟩
  | clearQueue hup => exact ⟨h.before, h.orderly, h.wire⟩

theorem Moves.sound {x x' : Context Z} (h : Moves app x x') (hinv : Inv x) (hx : Sound request x) :
    Inv x' ∧ Sound request x' :=
  h.keeps (P := fun x => Inv x ∧ Sound request x)
    (fun _ _ hx hmove => ⟨hmove.inv hx.1, hmove.sound hx.1 hx.2⟩) ⟨hinv, hx⟩

theorem Evolve.sound {x x' : Context Z} (h : Evolve app x x') (hinv : Inv x)
    (hx : Sound request x) : Inv x' ∧ Sound request x' := by
  refine h.keeps (P := fun x => Inv x ∧ Sound request x) (fun y y' hy hstep => ?_) ⟨hinv, hx⟩
  refine ⟨hstep.inv hy.1, ?_⟩
  obtain ⟨hinv, hbefore, horderly, hwire⟩ := hy
  cases hstep with
  | move hmove => exact hmove.sound hinv ⟨hbefore, horderly, hwire⟩
  | fresh hup heq =>
      rw [heq]
      exact ⟨hbefore, horderly, hwire⟩
  | settle heq =>
      rw [heq]
      exact ⟨hbefore, horderly, hwire⟩

end Context

namespace Client

/-- What has been written before the first frame. -/
structure WireInv (cfg : Config) (s : Client Z) : Prop where
  phase : Phase s
  inv : s.ctx.Inv
  wire : ∃ request, s.ctx.Sound request ∧ (request = [] ∨ request = handshakeRequest cfg) ∧
    (s.link = .connecting → request = [])

theorem wireInv_init : WireInv cfg (init : Client Z) where
  phase := phase_init
  inv := inv_init
  wire := ⟨[], ⟨fun _ _ hf => absurd hf List.not_mem_nil,
      ⟨[], [], rfl, fun _ hf => absurd hf List.not_mem_nil, .inl rfl⟩, [], rfl, .nil⟩,
    .inl rfl, fun _ => rfl⟩

theorem wireInv_step {s s' : Client Z} {a : Act} (h : WireInv cfg s)
    (hstep : (machine cfg app).step s a = some s') : WireInv cfg s' := by
  have hphase := step_phase h.phase hstep
  obtain ⟨request, hsound, hrequest, hlink⟩ := h.wire
  rcases step_evolve h.phase hstep with hevolve | ⟨hconnecting, hup, heq⟩
  · obtain ⟨hinv, hsound'⟩ := hevolve.sound h.inv hsound
    exact ⟨hphase, hinv, request, hsound', hrequest, fun hc =>
      hlink (connecting_of_step hstep hc)⟩
  · -- the request is the first that is written
    obtain ⟨hframes, -, -⟩ := h.inv.fresh (h.phase.connecting hconnecting)
    obtain ⟨fs, houtput, hall⟩ := hsound.wire
    rw [hframes] at hall
    cases hall
    rw [hlink hconnecting] at houtput
    have hempty : s.ctx.sender.output = [] := houtput
    have houtput' : s'.ctx.sender.output = handshakeRequest cfg ++ wireFrames [] := by
      rw [heq]
      show s.ctx.sender.output ++ handshakeRequest cfg = handshakeRequest cfg ++ []
      rw [hempty, List.append_nil, List.nil_append]
    have hframes' : s'.ctx.frames = [] := by
      rw [heq]
      exact hframes
    refine ⟨hphase, step_inv h.phase h.inv hstep, handshakeRequest cfg,
      ⟨?_, ?_, [], houtput', ?_⟩, .inr rfl, fun hc => ?_⟩
    · rw [hframes']
      exact fun _ f hf => absurd hf List.not_mem_nil
    · rw [hframes']
      exact ⟨[], [], rfl, fun f hf => absurd hf List.not_mem_nil, .inl rfl⟩
    · rw [hframes']
      exact .nil
    · exact absurd (hup.symm.trans hc) (by decide)

theorem wireInv_of_reachable {s : Client Z} (h : (machine cfg app).Reachable s) :
    WireInv cfg s :=
  h.invariant wireInv_init fun _ _ _ hs hstep => wireInv_step hs hstep

end Client

end ContextWire

end FsBridge.Libwsc
