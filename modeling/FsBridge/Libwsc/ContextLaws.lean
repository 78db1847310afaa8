/-
  FsBridge.Libwsc.ContextLaws

  The context is what the receiver relies on (`sinks_lawful`): once it has been told of
  an error or of a close frame it terminates, and nothing it does behind a message
  takes the compression away.

  `Inv`: a close frame has been sent or is queued only where the connection is closing.
-/

import FsBridge.Libwsc.ContextMoves

namespace FsBridge.Libwsc

open FsBridge.Lib

section ContextLaws

variable {Z : Zlib} {app : App}

namespace Context

-- ============================================================================
-- The close frame
-- ============================================================================

/-- A close frame has been sent or is queued only where the connection is closing. -/
structure Inv (x : Context Z) : Prop where
  sent : x.close_sent = true → x.isClosing = true
  queued : ∀ p, .close p ∈ x.send_queue → x.isClosing = true ∧ p.length ≤ 125
  timer : x.close_timer = true → x.close_sent = true
  fresh : x.upgraded = false →
    x.frames = [] ∧ x.close_sent = false ∧ ∀ p, .close p ∉ x.send_queue

theorem Quiet1.inv {x x' : Context Z} (h : Inv x) (hstep : Quiet1 app x x') : Inv x' := by
  have hclosing := hstep.sameState.isClosing
  cases hstep with
  | send type raw hup hopen htype =>
      refine ⟨h.sent, h.queued, h.timer, fun hfresh => ?_⟩
      exact absurd (hup.symm.trans hfresh) (by decide)
  | pop p rest hqueue =>
      have hrest : ∀ q, .close q ∈ rest → x.isClosing = true ∧ q.length ≤ 125 := fun q hq =>
        h.queued q (by rw [hqueue]; exact List.mem_cons_of_mem _ hq)
      have hnone : x.upgraded = false → ∀ q, .close q ∉ rest := fun hfresh q hq =>
        (h.fresh hfresh).2.2 q (by rw [hqueue]; exact List.mem_cons_of_mem _ hq)
      rcases @flushOne_cases Z app { x with send_queue := rest }
        (x.connection_state = .connected) p with
        hone | ⟨type, raw, -, -, -, hup, hone⟩ | ⟨payload, rfl, -, -, hone⟩
      · rw [hone]
        exact ⟨h.sent, hrest, h.timer, fun hfresh =>
          ⟨(h.fresh hfresh).1, (h.fresh hfresh).2.1, hnone hfresh⟩⟩
      · rw [hone]
        exact ⟨h.sent, hrest, h.timer, fun hfresh => absurd (hup.symm.trans hfresh) (by decide)⟩
      · have hhead : .close payload ∈ x.send_queue := by
          rw [hqueue]
          exact List.mem_cons_self
        rw [hone]
        exact ⟨fun _ => (h.queued payload hhead).1, hrest, fun _ => rfl, fun hfresh =>
          absurd hhead ((h.fresh hfresh).2.2 payload)⟩
  | push p hp =>
      unfold Context.push
      split
      · exact h
      · have hmem : ∀ q, .close q ∈ x.send_queue ++ [p] → .close q ∈ x.send_queue := by
          intro q hq
          rcases List.mem_append.mp hq with hq | hq
          · exact hq
          · exact absurd (List.mem_singleton.mp hq).symm (hp q)
        exact ⟨h.sent, fun q hq => h.queued q (hmem q hq), h.timer, fun hfresh =>
          ⟨(h.fresh hfresh).1, (h.fresh hfresh).2.1, fun q hq =>
            (h.fresh hfresh).2.2 q (hmem q hq)⟩⟩
  | mark x' hmark =>
      obtain ⟨-, hrest⟩ := hmark
      rw [hrest]
      exact ⟨h.sent, h.queued, h.timer, h.fresh⟩

/-- Each move keeps the invariant. -/
theorem Move.inv {x x' : Context Z} (h : Inv x) (hmove : Move app x x') : Inv x' := by
  cases hmove with
  | quiet x' hstep => exact hstep.inv h
  | flags x' hflags =>
      have hrest := hflags.rest
      rw [hrest]
      exact ⟨h.sent, h.queued, h.timer, h.fresh⟩
  | closing state hstate =>
      have hclosing : { x with connection_state := state }.isClosing = true :=
        decide_eq_true hstate
      exact ⟨fun _ => hclosing, fun p hp => ⟨hclosing, (h.queued p hp).2⟩, h.timer, h.fresh⟩
  | queueClose payload hlen hup hclosing hroom =>
      refine ⟨h.sent, fun p hp => ?_, h.timer, fun hfresh => ?_⟩
      · rcases List.mem_append.mp hp with hp | hp
        · exact h.queued p hp
        · obtain rfl := Pending.close.inj (List.mem_singleton.mp hp)
          exact ⟨hclosing, hlen⟩
      · exact absurd (hup.symm.trans hfresh) (by decide)
  | clearQueue hup =>
      exact ⟨h.sent, fun p hp => absurd hp List.not_mem_nil, h.timer, fun hfresh =>
        ⟨(h.fresh hfresh).1, (h.fresh hfresh).2.1, fun _ => List.not_mem_nil⟩⟩

theorem Moves.inv {x x' : Context Z} (h : Moves app x x') (hx : Inv x) : Inv x' :=
  h.keeps (P := Inv) (fun _ _ hx hmove => hmove.inv hx) hx

-- ============================================================================
-- The context is what the receiver relies on
-- ============================================================================

/-- The invariant with which the context is handed to the receiver. -/
structure RxInv (x : Context Z) : Prop where
  inv : Inv x
  received : x.close_received = true → x.isClosing = true
  failed : x.protocol_failed = true → x.rxIsTerminating = true

/-- Quiet steps keep it, and so does what is done in a callback. -/
theorem RxInv.quiet {x x' : Context Z} (h : RxInv x) (hstep : Quiet app x x') : RxInv x' := by
  have hsame := hstep.sameState
  refine ⟨hstep.moves.inv h.inv, fun hr => ?_, fun hf => ?_⟩
  · rw [hsame.isClosing]
    exact h.received (hsame.close_received ▸ hr)
  · exact hsame.rxIsTerminating (h.failed (hsame.protocol_failed ▸ hf))

theorem RxInv.callback {x : Context Z} (h : RxInv x) (cb : Callback) :
    RxInv (x.callback app cb) := by
  have hlogged : RxInv { x with callbacks := x.callbacks ++ [cb] } :=
    ⟨⟨h.inv.sent, h.inv.queued, h.inv.timer, h.inv.fresh⟩, h.received, h.failed⟩
  exact hlogged.quiet (quiet_callback x cb)

/-- A close of the peer leaves the connection closing, with what the receiver relies on. -/
theorem onRxClose_spec {x : Context Z} (h : RxInv x) (code : Nat) (reason : Bytes) :
    RxInv (x.onRxClose app code reason) ∧
      (x.onRxClose app code reason).isClosing = true ∧
      (x.onRxClose app code reason).upgraded = x.upgraded := by
  have hreceived : Inv { x with close_received := true } :=
    ⟨h.inv.sent, h.inv.queued, h.inv.timer, h.inv.fresh⟩
  -- the connection is closing already, or it is closed and the close frame is flushed
  have hclosed : ∀ y : Context Z, Inv y → y.isClosing = true → y.upgraded = x.upgraded →
      RxInv (y.sendCloseCallback app code reason) ∧
        (y.sendCloseCallback app code reason).isClosing = true ∧
        (y.sendCloseCallback app code reason).upgraded = x.upgraded := by
    intro y hy hclosing hup
    obtain ⟨hstate, -, -, hup', -⟩ := @sendCloseCallback_state Z app y code reason
    have hclosing' := hstate.trans hclosing
    exact ⟨⟨(@acts_sendCloseCallback Z app y code reason).moves.inv hy, fun _ => hclosing',
      fun _ => rxIsTerminating_of_isClosing hclosing'⟩, hclosing', hup'.trans hup⟩
  unfold onRxClose
  dsimp only
  by_cases hsent : x.close_sent = true
  · rw [if_pos hsent]
    exact hclosed _ hreceived (h.inv.sent hsent) rfl
  · rw [if_neg hsent]
    have hflush := @quiet_flushSendQueue Z app
      ({ x with close_received := true }.close code reason)
    refine hclosed _ (((@acts_close Z app _ code reason).moves.trans hflush.moves).inv hreceived) ?_ ?_
    · rw [hflush.sameState.isClosing]
      exact isClosing_close _ code reason
    · rw [hflush.sameState.upgraded, upgraded_close]

/-- An error of the peer leaves a receiver that is terminating. -/
theorem onRxProtocolError_spec {x : Context Z} (h : RxInv x) (hup : x.upgraded = true)
    (hrun : x.rxIsTerminating = false) (closeCode : Nat) (why : String) :
    RxInv (x.onRxProtocolError app closeCode why) ∧
      (x.onRxProtocolError app closeCode why).rxIsTerminating = true ∧
      (x.onRxProtocolError app closeCode why).upgraded = true := by
  have hnew : ¬ x.protocol_failed = true := fun hfailed =>
    absurd ((h.failed hfailed).symm.trans hrun) (by decide)
  unfold onRxProtocolError
  rw [if_neg hnew]
  dsimp only
  have hfailed : Inv { x with protocol_failed := true } :=
    ⟨h.inv.sent, h.inv.queued, h.inv.timer, h.inv.fresh⟩
  have hsame := @callback_sameState Z app { x with protocol_failed := true }
    (.error .protocol (protocolMessage closeCode why))
  have hinv := (@acts_sendError Z app { x with protocol_failed := true } .protocol
    (protocolMessage closeCode why)).moves.inv hfailed
  unfold sendError at hinv ⊢
  generalize { x with protocol_failed := true }.callback app
    (.error .protocol (protocolMessage closeCode why)) = y at hsame hinv ⊢
  have hupy : y.upgraded = true := hsame.upgraded.trans hup
  split
  · have hflush := @quiet_requestSendFlush Z app (y.close closeCode (ascii why))
    have hclosing : (y.close closeCode (ascii why)).requestSendFlush.isClosing = true := by
      rw [hflush.sameState.isClosing]
      exact isClosing_close y closeCode (ascii why)
    refine ⟨⟨((@acts_close Z app y closeCode (ascii why)).moves.trans hflush.moves).inv hinv,
      fun _ => hclosing, fun _ => rxIsTerminating_of_isClosing hclosing⟩,
      rxIsTerminating_of_isClosing hclosing, ?_⟩
    rw [hflush.sameState.upgraded, upgraded_close, hupy]
  · obtain ⟨hexit, hclosing, -, hstop⟩ := requestLoopExit_fields y
    have hterm : y.requestLoopExit.rxIsTerminating = true := by
      rw [rxIsTerminating, hstop, Bool.or_true]
    have hreceived : y.requestLoopExit.close_received = x.close_received := by
      rw [← hsame.close_received]
      unfold requestLoopExit
      split <;> rfl
    refine ⟨⟨(@moves_requestLoopExit Z app y).inv hinv, fun hr => ?_, fun _ => hterm⟩, hterm,
      hexit.trans hupy⟩
    rw [hclosing, hsame.isClosing]
    exact h.received (hreceived ▸ hr)

/-- A context whose handshake is done is what the receiver relies on. -/
theorem sinks_lawful :
    (sinks (Z := Z) app).Lawful fun x => RxInv x ∧ x.upgraded = true where
  ping := by
    rintro x payload ⟨h, hup⟩ hrun
    have hopen : x.isClosing = false := by
      by_contra hclosing
      have := rxIsTerminating_of_isClosing (Bool.not_eq_false _ ▸ hclosing)
      exact absurd (this.symm.trans hrun) (by decide)
    have hquiet : Quiet app x (x.onRxPing app payload) := by
      unfold onRxPing
      split
      · exact Quiet1.quiet (.send .pong payload hup hopen (by decide))
      · exact .refl x
    exact ⟨⟨h.quiet hquiet, hquiet.sameState.upgraded.trans hup⟩,
      hquiet.sameState.use_compression⟩
  text := by
    rintro x m ⟨h, hup⟩ -
    have hsame := @callback_sameState Z app x (.message m)
    exact ⟨⟨h.callback _, hsame.upgraded.trans hup⟩, hsame.use_compression⟩
  binary := by
    rintro x m ⟨h, hup⟩ -
    have hsame := @callback_sameState Z app x (.binary m)
    exact ⟨⟨h.callback _, hsame.upgraded.trans hup⟩, hsame.use_compression⟩
  close := by
    rintro x code reason ⟨h, hup⟩ -
    obtain ⟨hinv, hclosing, hup'⟩ := @onRxClose_spec Z app _ h code reason
    exact ⟨⟨hinv, hup'.trans hup⟩, rxIsTerminating_of_isClosing hclosing⟩
  error := by
    rintro x code why ⟨h, hup⟩ hrun
    obtain ⟨hinv, hterm, hup'⟩ := @onRxProtocolError_spec Z app _ h hup hrun code why
    exact ⟨⟨hinv, hup'⟩, hterm⟩

end Context

end ContextLaws

end FsBridge.Libwsc
