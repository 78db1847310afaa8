/-
  FsBridge.Libwsc.SendQueue

  The queue between the threads that send and the event thread.

  * `queue_of_reachable` — no entry is lost inside it, taken out twice or overtaken,
    and it never holds more than `maxQueueSize`.
  * `awaited_of_inTurn` — while a client is connected, a message in the queue has its
    flush coming, if no thread exchanges the flag between the flush and the end of
    `sendCallback`, and none pushes for a state that has passed.
  * `lost_in_window` — in the first of these windows a message is stranded: until some
    thread sends again it is not sent.
-/

import FsBridge.Libwsc.ClientSteps
import FsBridge.Libwsc.ContextWire

namespace FsBridge.Libwsc

open FsBridge.Lib

-- ============================================================================
-- The order of the entries
-- ============================================================================

/-- The frame an entry is sent as. -/
def Pending.frame : Pending → MessageType × Bytes
  | .text s => (.text, s)
  | .binary b => (.binary, b)
  | .close payload => (.close, payload)

/-- The frames of the entries that were sent. -/
def sentFrames (flushed : List (Pending × Bool)) : List (MessageType × Bytes) :=
  (flushed.filter Prod.snd).map fun e => e.1.frame

theorem sentFrames_append (flushed later : List (Pending × Bool)) :
    sentFrames (flushed ++ later) = sentFrames flushed ++ sentFrames later := by
  rw [sentFrames, List.filter_append, List.map_append]
  rfl

section SendQueue

variable {Z : Zlib} {app : App} {cfg : Config}

namespace Context

/-- What was put into the queue has been taken out in this order or is still in it, and
    what was sent of it was sent in this order. -/
structure Account (x : Context Z) : Prop where
  order : x.queued = x.flushed.map Prod.fst ++ x.send_queue
  sent : (sentFrames x.flushed).Sublist x.frames
  bound : x.send_queue.length ≤ maxQueueSize

theorem frames_send (x : Context Z) {type : MessageType} {raw : Bytes}
    (h : ¬ (type.isControl ∧ 125 < raw.length)) :
    (x.send app type raw).frames = x.frames ++ [(type, raw)] := if_neg h

theorem sublist_frames_send (x : Context Z) (type : MessageType) (raw : Bytes) :
    x.frames.Sublist (x.send app type raw).frames := by
  unfold send
  dsimp only
  split
  · exact .refl _
  · exact List.sublist_append_left _ _

theorem Quiet1.account {x x' : Context Z} (hinv : Inv x) (h : Account x)
    (hstep : Quiet1 app x x') : Account x' := by
  cases hstep with
  | send type raw hup hopen htype =>
      exact ⟨h.order, h.sent.trans (sublist_frames_send x type raw), h.bound⟩
  | pop p rest hqueue =>
      have horder : ∀ sent : Bool, x.queued = (x.flushed ++ [(p, sent)]).map Prod.fst ++ rest := by
        intro sent
        rw [h.order, hqueue, List.map_append, List.append_assoc]
        rfl
      have hbound : rest.length ≤ maxQueueSize := by
        have hle := h.bound
        rw [hqueue, List.length_cons] at hle
        omega
      have hdropped : (sentFrames (x.flushed ++ [(p, false)])).Sublist x.frames := by
        rw [sentFrames_append]
        exact (List.append_nil _).symm ▸ h.sent
      have hsent : (sentFrames (x.flushed ++ [(p, true)])).Sublist (x.frames ++ [p.frame]) := by
        rw [sentFrames_append]
        exact h.sent.append (.refl _)
      rcases @flushOne_cases Z app { x with send_queue := rest }
        (x.connection_state = .connected) p with
        hone | ⟨type, raw, htype, -, -, -, hone⟩ | ⟨payload, rfl, -, -, hone⟩
      · rw [hone]
        exact ⟨horder false, hdropped, hbound⟩
      · rw [hone]
        refine ⟨horder true, ?_, hbound⟩
        have hframe : p.frame = (type, raw) ∧ ¬ (type.isControl ∧ 125 < raw.length) := by
          rcases htype with ⟨rfl, rfl⟩ | ⟨rfl, rfl⟩ <;> exact ⟨rfl, fun hc => absurd hc.1 (by decide)⟩
        show List.Sublist _ (Context.send app { x with send_queue := rest } type raw).frames
        rw [frames_send _ hframe.2, ← hframe.1]
        exact hsent
      · rw [hone]
        refine ⟨horder true, ?_, hbound⟩
        have hsmall := (hinv.queued payload (by rw [hqueue]; exact List.mem_cons_self)).2
        show List.Sublist _ (Context.send app { x with send_queue := rest } .close payload).frames
        rw [frames_send _ fun hc => absurd hc.2 (by omega)]
        exact hsent
  | push p hp =>
      unfold Context.push
      split
      · exact h
      · rename_i hroom
        refine ⟨?_, h.sent, ?_⟩
        · show x.queued ++ [p] = _ ++ (x.send_queue ++ [p])
          rw [h.order, List.append_assoc]
        · show (x.send_queue ++ [p]).length ≤ _
          rw [List.length_append, List.length_singleton]
          omega
  | mark x' hmark =>
      obtain ⟨-, hrest⟩ := hmark
      rw [hrest]
      exact ⟨h.order, h.sent, h.bound⟩

theorem Move.account {x x' : Context Z} (hinv : Inv x) (h : Account x) (hmove : Move app x x') :
    Account x' := by
  cases hmove with
  | quiet x' hstep => exact hstep.account hinv h
  | flags x' hflags =>
      have hrest := hflags.rest
      rw [hrest]
      exact ⟨h.order, h.sent, h.bound⟩
  | closing state hstate => exact ⟨h.order, h.sent, h.bound⟩
  | queueClose payload hlen hup hclosing hroom =>
      refine ⟨?_, h.sent, ?_⟩
      · show x.queued ++ _ = _ ++ (x.send_queue ++ _)
        rw [h.order, List.append_assoc]
      · show (x.send_queue ++ _).length ≤ _
        rw [List.length_append, List.length_singleton]
        omega
  | clearQueue hup =>
      refine ⟨?_, ?_, Nat.zero_le _⟩
      · show x.queued = (x.flushed ++ x.send_queue.map fun p => (p, false)).map Prod.fst ++ []
        rw [h.order, List.map_append, List.map_map, List.append_nil]
        exact congrArg _ (List.map_id x.send_queue).symm
      · show (sentFrames (x.flushed ++ x.send_queue.map fun p => (p, false))).Sublist x.frames
        have hnone : (x.send_queue.map fun p => (p, false)).filter Prod.snd = [] := by
          rw [List.filter_eq_nil_iff]
          intro e he
          obtain ⟨p, -, rfl⟩ := List.mem_map.mp he
          exact Bool.false_ne_true
        rw [sentFrames_append, sentFrames, sentFrames, hnone]
        exact (List.append_nil _).symm ▸ h.sent

theorem Evolve.account {x x' : Context Z} (h : Evolve app x x') (hinv : Inv x) (hx : Account x) :
    Account x' := by
  refine (h.keeps (P := fun y => Inv y ∧ Account y) (fun y y' hy hstep => ?_) ⟨hinv, hx⟩).2
  refine ⟨hstep.inv hy.1, ?_⟩
  obtain ⟨hinv, horder, hsent, hbound⟩ := hy
  cases hstep with
  | move hmove => exact hmove.account hinv ⟨horder, hsent, hbound⟩
  | fresh hup heq =>
      rw [heq]
      exact ⟨horder, hsent, hbound⟩
  | settle heq =>
      rw [heq]
      exact ⟨horder, hsent, hbound⟩

end Context

namespace Client

open Context

end Client

-- ============================================================================
-- No wakeup is lost
-- ============================================================================

namespace Context

/-- What the event thread does to the queue of a connection: nothing while it stays
    connected, but for emptying it; a flush that was asked for stays asked for. -/
structure Kept (x x' : Context Z) : Prop where
  queue : x'.connection_state = .connected →
    x'.send_queue = [] ∨ x.connection_state = .connected ∧ x'.send_queue = x.send_queue
  active : x.send_active = true → x'.send_active = true
  flag : x'.send_flush_pending = true → x.send_flush_pending = true ∨ x'.send_active = true
  base : x'.base = x.base

theorem Kept.refl (x : Context Z) : Kept x x := ⟨fun h => .inr ⟨h, rfl⟩, id, .inl, rfl⟩

theorem Kept.trans {x y z : Context Z} (h : Kept x y) (h' : Kept y z) : Kept x z where
  queue hz := by
    rcases h'.queue hz with hnil | ⟨hy, hsame⟩
    · exact .inl hnil
    · rw [hsame]
      exact h.queue hy
  active hx := h'.active (h.active hx)
  flag hz := by
    rcases h'.flag hz with hy | ha
    · exact (h.flag hy).imp_right h'.active
    · exact .inr ha
  base := h'.base.trans h.base

theorem kept_requestLoopExit (x : Context Z) : Kept x x.requestLoopExit := by
  unfold requestLoopExit
  split <;> exact ⟨fun h => .inr ⟨h, rfl⟩, id, .inl, rfl⟩

theorem kept_requestSendFlush (x : Context Z) : Kept x x.requestSendFlush := by
  unfold requestSendFlush
  split
  · exact .refl x
  · split
    · exact ⟨fun h => .inr ⟨h, rfl⟩, fun _ => rfl, fun _ => .inr rfl, rfl⟩
    · exact .refl x

/-- A connection that is not connected any more may have anything in its queue. -/
theorem kept_of_notConnected {x x' : Context Z} (h : x'.connection_state ≠ .connected)
    (hactive : x'.send_active = x.send_active)
    (hflag : x'.send_flush_pending = x.send_flush_pending) (hbase : x'.base = x.base) :
    Kept x x' :=
  ⟨fun hc => absurd hc h, fun ha => hactive.trans ha, fun hf => .inl (hflag ▸ hf), hbase⟩

theorem connection_state_of_isClosing {x : Context Z} (h : x.isClosing = true) :
    x.connection_state ≠ .connected := by
  intro hc
  rw [isClosing, hc] at h
  exact absurd h (by decide)

theorem kept_flush (x : Context Z) : Kept x (x.flushSendQueue app) := by
  have hpopped := @popped_flushSendQueue Z app x
  exact ⟨fun _ => .inl (flushSendQueue_queue x), fun ha => hpopped.send_active.trans ha,
    fun hf => .inl (hpopped.send_flush_pending ▸ hf), (quiet_flushSendQueue x).sameState.base⟩

theorem push_fields (x : Context Z) (p : Pending) :
    (x.push p).2.connection_state = x.connection_state ∧ (x.push p).2.base = x.base ∧
      (x.push p).2.send_active = x.send_active ∧
      (x.push p).2.send_flush_pending = x.send_flush_pending := by
  unfold Context.push
  split <;> exact ⟨rfl, rfl, rfl, rfl⟩

theorem Call1.kept {x x' : Context Z} (h : Call1 app x x') : Kept x x' := by
  cases h with
  | send type raw hup hopen htype => exact ⟨fun h => .inr ⟨h, rfl⟩, id, .inl, rfl⟩
  | push p hp hconnecting =>
      unfold Context.push
      split
      · exact .refl x
      · refine kept_of_notConnected ?_ rfl rfl rfl
        show x.connection_state ≠ .connected
        rw [hconnecting]
        decide
  | stop =>
      unfold Context.stop requestWakeup
      split <;> exact ⟨fun h => .inr ⟨h, rfl⟩, id, .inl, rfl⟩

theorem Acts.kept {x x' : Context Z} (h : Acts app x x') : Kept x x' := by
  refine h.keeps (P := Kept x) (fun y y' hy hact => hy.trans ?_) (.refl x)
  cases hact with
  | call y' hcall => exact hcall.kept
  | log cb hmessage => exact ⟨fun h => .inr ⟨h, rfl⟩, id, .inl, rfl⟩
  | note y' hnotes =>
      obtain ⟨-, -, -, -, hrest⟩ := hnotes
      rw [hrest]
      exact ⟨fun h => .inr ⟨h, rfl⟩, id, .inl, rfl⟩
  | exit => exact kept_requestLoopExit y
  | abort state hstate =>
      refine Kept.trans (y := { y with connection_state := state }) ?_ (kept_requestLoopExit _)
      refine kept_of_notConnected ?_ rfl rfl rfl
      rcases hstate with rfl | rfl <;> exact fun hc => (by cases hc)
  | close payload hlen hup hbase hopen hsent hroom =>
      refine Kept.trans ?_ (kept_requestSendFlush _)
      exact kept_of_notConnected (fun hc => (by cases hc)) rfl rfl rfl
  | closeAgain hopen hsent =>
      exact kept_of_notConnected (fun hc => (by cases hc)) rfl rfl rfl
  | requestFlush hclosing => exact kept_requestSendFlush y
  | flush hclosing => exact kept_flush y
  | clearQueue hup => exact ⟨fun _ => .inl rfl, id, .inl, rfl⟩

theorem Fired.kept {x x' : Context Z} (h : Fired x x') : Kept x x' := by
  cases h <;> exact ⟨fun h => .inr ⟨h, rfl⟩, id, .inl, rfl⟩

/-- Behind the handshake the queue is empty. -/
theorem kept_opened {x y : Context Z} (hy : Negotiated app x y) : Kept x (y.opened app) := by
  obtain ⟨x₀, hx₀, hacts⟩ := hy.acts
  have hfresh : Kept x x₀ := by
    rw [hx₀]
    exact ⟨fun h => .inr ⟨h, rfl⟩, id, .inl, rfl⟩
  have hflush := @kept_flush Z app { y with upgraded := true, connection_state := .connected }
  have hcallback := (@acts_callback Z app ({ y with
    upgraded := true, connection_state := .connected }.flushSendQueue app) .opened
      fun hc => (by cases hc)).kept
  have hkept := hfresh.trans hacts.kept
  refine ⟨fun hc => .inl ?_, fun ha => hcallback.active (hflush.active (hkept.active ha)),
    fun hf => ?_, hcallback.base.trans (hflush.base.trans hkept.base)⟩
  · rcases hcallback.queue hc with hnil | ⟨-, hsame⟩
    · exact hnil
    · exact hsame.trans (flushSendQueue_queue _)
  · rcases (hflush.trans hcallback).flag hf with hy | ha
    · rcases hkept.flag hy with hx | ha
      · exact .inl hx
      · exact .inr (hcallback.active (hflush.active ha))
    · exact .inr ha

end Context

namespace Client

open Context

/-- A message in the queue of a connected client has its flush coming: the event is
    active, or a thread is on its way to make it so. -/
def Awaited (s : Client Z) : Prop :=
  s.ctx.connection_state = .connected → s.ctx.base = true → s.ctx.send_queue ≠ [] →
    s.ctx.send_active = true ∨ ∃ i, s.senders i = .pushed ∨ s.senders i = .raised

/-- No thread exchanges the flag while `sendCallback` is between its flush and its end,
    and none pushes for a state `CONNECTING` that has passed. -/
def InTurn (s : Client Z) : Act → Prop
  | .exchange _ => s.pc ≠ .unflag
  | .push i => ∀ p, s.senders i = .loaded true p → s.ctx.connection_state = .connecting
  | _ => True

instance : (s : Client Z) → (a : Act) → Decidable (InTurn s a)
  | s, .exchange _ => inferInstanceAs (Decidable (s.pc ≠ .unflag))
  | s, .push i =>
      match h : s.senders i with
      | .loaded true p => decidable_of_iff (s.ctx.connection_state = .connecting)
          ⟨fun hc _ _ => hc, fun hall => hall p h⟩
      | .loaded false _ => isTrue fun _ hp => by simp [h] at hp
      | .idle | .pushed | .raised => isTrue fun _ hp => by simp [h] at hp
  | _, .run | _, .connected _ | _, .read _ | _, .frame | _, .event _ | _, .timeout | _, .ping
  | _, .wakeup | _, .flush | _, .unflag | _, .closeTimer | _, .exit | _, .load _ _
  | _, .activate _ | _, .stop => isTrue trivial

/-- A flag that is set is set for a flush that comes, or for the one that was just done. -/
structure FlagInv (s : Client Z) : Prop where
  core : Core s
  flag : s.ctx.send_flush_pending = true → s.pc ≠ .exited →
    s.ctx.send_active = true ∨ (∃ i, s.senders i = .raised) ∨ s.pc = .unflag

theorem flagInv_init : FlagInv (init : Client Z) := ⟨core_init, fun h => (by cases h)⟩

theorem set_of_ne (senders : Nat → SenderPc) {i j : Nat} (pc : SenderPc) (h : j ≠ i) :
    Client.set senders i pc j = senders j := if_neg h

/-- What thread `i` does leaves the other threads where they are. -/
theorem raised_set {senders : Nat → SenderPc} {i : Nat} {pc : SenderPc}
    (h : ∃ j, senders j = .raised) (hi : senders i ≠ .raised) :
    ∃ j, Client.set senders i pc j = .raised := by
  obtain ⟨j, hj⟩ := h
  have hne : j ≠ i := by
    rintro rfl
    exact hi hj
  exact ⟨j, (set_of_ne senders pc hne).trans hj⟩

theorem coming_set {senders : Nat → SenderPc} {i : Nat} {pc : SenderPc}
    (h : ∃ j, senders j = .pushed ∨ senders j = .raised) (hi : senders i ≠ .pushed)
    (hi' : senders i ≠ .raised) :
    ∃ j, Client.set senders i pc j = .pushed ∨ Client.set senders i pc j = .raised := by
  obtain ⟨j, hj⟩ := h
  have hne : j ≠ i := by
    rintro rfl
    exact hj.elim hi hi'
  exact ⟨j, by rw [set_of_ne senders pc hne]; exact hj⟩

/-- A callback of the loop keeps the queue. -/
theorem Awaited.kept {s s' : Client Z} (h : Awaited s) (hkept : Kept s.ctx s'.ctx)
    (hsenders : s'.senders = s.senders) : Awaited s' := by
  intro hc hb hne
  rw [hsenders]
  rcases hkept.queue hc with hnil | ⟨hstate, hsame⟩
  · exact absurd hnil hne
  · exact (h hstate (hkept.base ▸ hb) (hsame ▸ hne)).imp_left hkept.active

/-- What a step does with the flag, and what it does with the queue in its turn. -/
theorem flagInv_step {s s' : Client Z} {a : Act} (h : FlagInv s)
    (hstep : (machine cfg app).step s a = some s') :
    FlagInv s' ∧ (InTurn s a → Awaited s → Awaited s') := by
  have hcore := h.core.step hstep
  have hstepped := h.core.stepped hstep
  -- a callback of the loop
  have hloop : Kept s.ctx s'.ctx → s'.senders = s.senders → s.pc = .idle ∨ s.pc = .reading →
      FlagInv s' ∧ (InTurn s a → Awaited s → Awaited s') := by
    intro hkept hsenders hpc
    refine ⟨⟨hcore, fun hf _ => ?_⟩, fun _ hawaited => hawaited.kept hkept hsenders⟩
    rw [hsenders]
    rcases hkept.flag hf with hf | hactive
    · rcases h.flag hf (by rcases hpc with hpc | hpc <;> simp [hpc]) with
        hactive | hraised | hunflag
      · exact .inl (hkept.active hactive)
      · exact .inr (.inl hraised)
      · rcases hpc with hpc | hpc <;> exact absurd (hpc.symm.trans hunflag) (by decide)
    · exact .inl hactive
  cases hstepped with
  | run hpc heq =>
      rw [heq] at hcore ⊢
      refine ⟨⟨hcore, fun hf _ => ?_⟩, fun _ _ hc => (by cases hc)⟩
      rcases h.flag hf (by simp [hpc]) with hactive | hraised | hunflag
      · exact .inl hactive
      · exact .inr (.inl hraised)
      · exact absurd (hpc.symm.trans hunflag) (by decide)
  | request hpc hlink heq =>
      refine hloop ?_ (heq ▸ rfl) (.inl hpc)
      rw [heq]
      exact ⟨fun h => .inr ⟨h, rfl⟩, id, .inl, rfl⟩
  | failed hpc hup hacts hpc' hsenders =>
      refine hloop (Kept.trans ?_ hacts.kept) hsenders (.inl hpc)
      exact kept_of_notConnected (fun hc => (by cases hc)) rfl rfl rfl
  | opened hpc hup y hy hctx hpc' hsenders =>
      exact hloop (hctx ▸ kept_opened hy) hsenders (.inl hpc)
  | acts x hpc hx hacts hpc' hsenders htimer hwakeup =>
      exact hloop (hx.kept.trans hacts.kept) hsenders hpc
  | flush hpc hactive heq =>
      rw [heq] at hcore ⊢
      exact ⟨⟨hcore, fun _ _ => .inr (.inr rfl)⟩, fun _ _ _ _ hne =>
        absurd (flushSendQueue_queue _) hne⟩
  | unflag hpc heq =>
      rw [heq] at hcore ⊢
      exact ⟨⟨hcore, fun hc => absurd hc Bool.false_ne_true⟩, fun _ hawaited => hawaited⟩
  | exit hpc hexit heq =>
      rw [heq] at hcore ⊢
      exact ⟨⟨hcore, fun _ hc => absurd rfl hc⟩, fun _ _ _ hc => absurd hc Bool.false_ne_true⟩
  | load i p ha hp hidle heq =>
      rw [heq] at hcore ⊢
      refine ⟨⟨hcore, fun hf hlive => ?_⟩, fun _ hawaited hc hb hne => ?_⟩
      · exact (h.flag hf hlive).imp_right (.imp_left (raised_set · (by simp [hidle])))
      · exact (hawaited hc hb hne).imp_right (coming_set · (by simp [hidle]) (by simp [hidle]))
  | push i connecting p ha hp hloaded heq =>
      obtain ⟨hstate, -, hactive, hflag⟩ := push_fields s.ctx p
      rw [heq] at hcore ⊢
      refine ⟨⟨hcore, fun hf hlive => ?_⟩, fun hturn hawaited hc hb hne => ?_⟩
      · rw [hactive]
        exact (h.flag (hflag ▸ hf) hlive).imp_right
          (.imp_left (raised_set · (by simp [hloaded])))
      · rw [hactive]
        have hconnected := hstate.symm.trans hc
        by_cases hroom : maxQueueSize ≤ s.ctx.send_queue.length
        · have hsame : s.ctx.push p = (false, s.ctx) := if_pos hroom
          rw [hsame] at hne hb
          exact (hawaited hconnected hb hne).imp_right
            (coming_set · (by simp [hloaded]) (by simp [hloaded]))
        · have hpushed : (s.ctx.push p).1 = true := by
            rw [Context.push, if_neg hroom]
          refine .inr ⟨i, .inl ?_⟩
          dsimp only
          rw [hpushed, Client.set, if_pos rfl]
          cases connecting with
          | false => rfl
          | true =>
              have hnow := (ha ▸ hturn : InTurn s (.push i)) p hloaded
              exact absurd (hnow.symm.trans hconnected) (by decide)
  | exchange i ha hpushed heq =>
      rw [heq] at hcore ⊢
      by_cases hset : s.ctx.send_flush_pending = true
      · -- the flag is another thread's
        have hcoming : s.pc ≠ .exited → s.ctx.send_active = true ∨
            (∃ j, Client.set s.senders i (if s.ctx.send_flush_pending then .idle else .raised) j =
              .raised) ∨ s.pc = .unflag := fun hlive =>
          (h.flag hset hlive).imp_right (.imp_left (raised_set · (by simp [hpushed])))
        refine ⟨⟨hcore, fun _ hlive => hcoming hlive⟩, fun hturn _ _ hb _ => ?_⟩
        have hturn : s.pc ≠ .unflag := (ha ▸ hturn : InTurn s (.exchange i))
        have hlive : s.pc ≠ .exited := fun hc =>
          absurd (hb.symm.trans (h.core.live.exited hc)) (by simp)
        rcases hcoming hlive with hactive | ⟨j, hj⟩ | hunflag
        · exact .inl hactive
        · exact .inr ⟨j, .inr hj⟩
        · exact absurd hunflag hturn
      · have hraised : Client.set s.senders i
            (if s.ctx.send_flush_pending then .idle else .raised) i = .raised := by
          rw [Client.set, if_pos rfl, if_neg hset]
        exact ⟨⟨hcore, fun _ _ => .inr (.inl ⟨i, hraised⟩)⟩, fun _ _ _ _ _ =>
          .inr ⟨i, .inr hraised⟩⟩
  | activate i ha hraised heq =>
      rw [heq] at hcore ⊢
      by_cases hbase : s.ctx.base = true
      · dsimp only at hcore ⊢
        rw [if_pos hbase] at hcore ⊢
        exact ⟨⟨hcore, fun _ _ => .inl rfl⟩, fun _ _ _ _ _ => .inl rfl⟩
      · dsimp only at hcore ⊢
        rw [if_neg hbase] at hcore ⊢
        exact ⟨⟨hcore, fun hc => absurd hc Bool.false_ne_true⟩, fun _ _ _ hb => absurd hb hbase⟩
  | stop ha heq =>
      have hstop : s.ctx.stop = { s.ctx with
          stop_requested := s.ctx.stop.stop_requested
          wakeup_active := s.ctx.stop.wakeup_active } := by
        unfold Context.stop requestWakeup
        split <;> rfl
      rw [heq] at hcore ⊢
      rw [hstop] at hcore ⊢
      exact ⟨⟨hcore, h.flag⟩, fun _ hawaited => hawaited⟩

/-- No wakeup is lost while every thread acts in its turn. -/
theorem awaited_of_inTurn {as : List Act}
    (h : (machine cfg app).Guarded InTurn (init : Client Z) as) :
    (machine cfg app).Always Awaited (init : Client Z) as := by
  refine (Lib.Machine.always_of_guarded (I := fun s => FlagInv s ∧ Awaited s) ?_ h
    ⟨flagInv_init, fun hc => (by cases hc)⟩).mono fun _ hs => hs.2
  intro s a s' hs hturn hstep
  obtain ⟨hflag, hawaited⟩ := flagInv_step hs.1 hstep
  exact ⟨hflag, hawaited hturn hs.2⟩

/-- Two threads, one of which finds the flag set. -/
theorem awaited_of_inTurn_two :
    (machine (Z := .absent) .plain .idle).Always Awaited init
      (handshake ++ [.load 0 (.text [104]), .load 1 (.text [105]), .push 0, .exchange 0, .push 1,
        .exchange 1, .activate 0]) :=
  awaited_of_inTurn (by decide +kernel)

end Client

-- ============================================================================
-- The window in which one is lost
-- ============================================================================

/-- The entry is a close frame. -/
def Pending.IsClose (p : Pending) : Prop := ∃ payload, p = .close payload

namespace Context

/-- No message of the queue has been sent since, and only close frames came behind
    them. -/
structure Mute (flushed : List (Pending × Bool)) (queue : List Pending) (x : Context Z) :
    Prop where
  upgraded : x.upgraded = true
  state : x.connection_state = .connected ∧ x.send_active = false ∨ x.isClosing = true
  since : ∃ later closes, x.flushed = flushed ++ later ∧
    later.map Prod.fst ++ x.send_queue = queue ++ closes ∧
    (∀ e ∈ later, e.2 = true → e.1.IsClose) ∧ ∀ p ∈ closes, Pending.IsClose p

variable {flushed : List (Pending × Bool)} {queue : List Pending}

/-- The queue is left alone. -/
theorem Mute.keep {x x' : Context Z} (h : Mute flushed queue x) (hup : x'.upgraded = x.upgraded)
    (hstate : x'.connection_state = x.connection_state ∧ x'.send_active = x.send_active ∨
      x'.isClosing = true)
    (hqueue : x'.send_queue = x.send_queue) (hflushed : x'.flushed = x.flushed) :
    Mute flushed queue x' := by
  refine ⟨hup.trans h.upgraded, ?_, by rw [hqueue, hflushed]; exact h.since⟩
  rcases hstate with ⟨hstate, hactive⟩ | hclosing
  · rcases h.state with ⟨hc, ha⟩ | hc
    · exact .inl ⟨hstate.trans hc, hactive.trans ha⟩
    · exact .inr (by rw [isClosing, hstate]; exact hc)
  · exact .inr hclosing

theorem Mute.not_connecting {x : Context Z} (h : Mute flushed queue x) :
    x.connection_state ≠ .connecting := by
  intro hc
  rcases h.state with ⟨hconnected, -⟩ | hclosing
  · exact absurd (hc.symm.trans hconnected) (by decide)
  · rw [isClosing, hc] at hclosing
    exact absurd hclosing (by decide)

theorem requestSendFlush_fields (x : Context Z) :
    x.requestSendFlush.upgraded = x.upgraded ∧
      x.requestSendFlush.connection_state = x.connection_state ∧
      x.requestSendFlush.send_queue = x.send_queue ∧ x.requestSendFlush.flushed = x.flushed := by
  unfold requestSendFlush
  split
  · exact ⟨rfl, rfl, rfl, rfl⟩
  · split <;> exact ⟨rfl, rfl, rfl, rfl⟩

theorem Mute.requestSendFlush {x : Context Z} (h : Mute flushed queue x)
    (hclosing : x.isClosing = true) : Mute flushed queue x.requestSendFlush := by
  obtain ⟨hup, hstate, hqueue, hflushed⟩ := requestSendFlush_fields x
  exact h.keep hup (.inr (by rw [isClosing, hstate]; exact hclosing)) hqueue hflushed

theorem Mute.requestLoopExit {x : Context Z} (h : Mute flushed queue x) :
    Mute flushed queue x.requestLoopExit := by
  unfold Context.requestLoopExit
  split <;> exact h.keep rfl (.inl ⟨rfl, rfl⟩) rfl rfl

/-- A flush of a connection that is closing drops the messages. -/
theorem Mute.flush {x : Context Z} (h : Mute flushed queue x) (hclosing : x.isClosing = true) :
    Mute flushed queue (x.flushSendQueue app) := by
  have hsame := (@quiet_flushSendQueue Z app x).sameState
  obtain ⟨later, closes, hlater, hmap, hnone, hcloses⟩ := h.since
  obtain ⟨more, hmore, htaken, hdropped⟩ := (@popped_flushSendQueue Z app x).flushed
  refine ⟨hsame.upgraded.trans h.upgraded, .inr (hsame.isClosing.trans hclosing), later ++ more,
    closes, ?_, ?_, fun e he hsent => ?_, hcloses⟩
  · rw [hmore, hlater, List.append_assoc]
  · rw [List.map_append, List.append_assoc, htaken, hmap]
  · rcases List.mem_append.mp he with he | he
    · exact hnone e he hsent
    · exact hdropped (connection_state_of_isClosing hclosing) e he hsent

theorem Mute.acts {x x' : Context Z} (h : Mute flushed queue x) (hacts : Acts app x x') :
    Mute flushed queue x' := by
  refine hacts.keeps (P := Mute flushed queue) (fun y y' hy hact => ?_) h
  cases hact with
  | call y' hcall =>
      cases hcall with
      | send type raw hup hopen htype => exact hy.keep rfl (.inl ⟨rfl, rfl⟩) rfl rfl
      | push p hp hconnecting => exact absurd hconnecting hy.not_connecting
      | stop =>
          unfold Context.stop requestWakeup
          split <;> exact hy.keep rfl (.inl ⟨rfl, rfl⟩) rfl rfl
  | log cb hmessage => exact hy.keep rfl (.inl ⟨rfl, rfl⟩) rfl rfl
  | note y' hnotes =>
      obtain ⟨-, -, -, -, hrest⟩ := hnotes
      rw [hrest]
      exact hy.keep rfl (.inl ⟨rfl, rfl⟩) rfl rfl
  | exit => exact hy.requestLoopExit
  | abort state hstate =>
      have hclosing : Mute flushed queue { y with connection_state := state } :=
        hy.keep rfl (.inr (decide_eq_true hstate)) rfl rfl
      exact hclosing.requestLoopExit
  | close payload hlen hup hbase hopen hsent hroom =>
      obtain ⟨later, closes, hlater, hmap, hnone, hcloses⟩ := hy.since
      have hqueued : Mute flushed queue { y with
          connection_state := .disconnecting
          send_queue := y.send_queue ++ [Pending.close payload]
          queued := y.queued ++ [Pending.close payload] } := by
        refine ⟨hy.upgraded, .inr rfl, later, closes ++ [.close payload], hlater, ?_, hnone,
          fun p hp => ?_⟩
        · show later.map Prod.fst ++ (y.send_queue ++ [Pending.close payload]) = _
          rw [← List.append_assoc, hmap, List.append_assoc]
        · rcases List.mem_append.mp hp with hp | hp
          · exact hcloses p hp
          · exact ⟨payload, List.mem_singleton.mp hp⟩
      exact hqueued.requestSendFlush rfl
  | closeAgain hopen hsent => exact hy.keep rfl (.inr rfl) rfl rfl
  | requestFlush hclosing => exact hy.requestSendFlush hclosing
  | flush hclosing => exact hy.flush hclosing
  | clearQueue hup => exact absurd (hy.upgraded.symm.trans hup) (by decide)

end Context

namespace Client

open Context

/-- Thread `i` has put its message into the queue while `sendCallback` is between its
    flush and its end, with the flag set, and no other thread is sending. -/
structure Window (s : Client Z) (i : Nat) : Prop where
  pc : s.pc = .unflag
  connected : s.ctx.connection_state = .connected
  pending : s.ctx.send_flush_pending = true
  active : s.ctx.send_active = false
  pushed : s.senders i = .pushed
  others : ∀ j, j ≠ i → s.senders j = .idle

theorem mute_step {s s' : Client Z} {a : Act} {flushed : List (Pending × Bool)}
    {queue : List Pending} (hcore : Core s) (hmute : Mute flushed queue s.ctx)
    (hidle : ∀ j, s.senders j = .idle) (ha : ∀ j p, a ≠ .load j p)
    (hstep : (machine cfg app).step s a = some s') :
    Mute flushed queue s'.ctx ∧ ∀ j, s'.senders j = .idle := by
  have hnot : s.ctx.upgraded = false → False := fun hup =>
    absurd (hmute.upgraded.symm.trans hup) (by decide)
  have hsender : ∀ {j pc}, s.senders j = pc → pc ≠ .idle → False := fun {j pc} hj hne =>
    hne (hj.symm.trans (hidle j))
  cases hcore.stepped hstep with
  | run hpc heq => exact absurd (hcore.phase.notStarted hpc) hnot
  | request hpc hlink heq => exact absurd (hcore.phase.connecting hlink) hnot
  | failed hpc hup hacts hpc' hsenders => exact absurd hup hnot
  | opened hpc hup y hy hctx hpc' hsenders => exact absurd hup hnot
  | acts x hpc hx hacts hpc' hsenders htimer hwakeup =>
      refine ⟨Mute.acts ?_ hacts, fun j => by rw [hsenders]; exact hidle j⟩
      cases hx <;> exact hmute.keep rfl (.inl ⟨rfl, rfl⟩) rfl rfl
  | flush hpc hactive heq =>
      rw [heq]
      refine ⟨?_, hidle⟩
      rcases hmute.state with ⟨-, hinactive⟩ | hclosing
      · exact absurd (hactive.symm.trans hinactive) (by decide)
      · have htaken : Mute flushed queue { s.ctx with send_active := false } :=
          hmute.keep rfl (.inr hclosing) rfl rfl
        exact htaken.flush hclosing
  | unflag hpc heq =>
      rw [heq]
      exact ⟨hmute.keep rfl (.inl ⟨rfl, rfl⟩) rfl rfl, hidle⟩
  | exit hpc hexit heq =>
      rw [heq]
      refine ⟨hmute.keep rfl ?_ rfl rfl, hidle⟩
      rcases hmute.state with ⟨-, hinactive⟩ | hclosing
      · exact .inl ⟨rfl, hinactive.symm⟩
      · exact .inr hclosing
  | load i p hload hp hfree heq => exact absurd hload (ha i p)
  | push i connecting p hload hp hloaded heq => exact (hsender hloaded (by simp)).elim
  | exchange i hload hpushed heq => exact (hsender hpushed (by simp)).elim
  | activate i hload hraised heq => exact (hsender hraised (by simp)).elim
  | stop hload heq =>
      rw [heq]
      have hcall : Acts app s.ctx s.ctx.stop := Act1.acts (.call _ .stop)
      exact ⟨hmute.acts hcall, hidle⟩

/-- A thread that exchanges the flag in the window does not have its message sent: until
    another message is handed to the client, whatever else happens, the messages of the
    queue stay in it or are dropped. -/
theorem lost_in_window {s t : Client Z} {i : Nat} {as : List Act}
    (hreach : (machine cfg app).Reachable s) (h : Window s i)
    (hrun : (machine cfg app).run s (.exchange i :: .unflag :: as) = some t)
    (hload : ∀ a ∈ as, ∀ j p, a ≠ .load j p) :
    ∃ later closes, t.ctx.flushed = s.ctx.flushed ++ later ∧
      later.map Prod.fst ++ t.ctx.send_queue = s.ctx.send_queue ++ closes ∧
      (∀ e ∈ later, e.2 = true → e.1.IsClose) ∧ ∀ p ∈ closes, Pending.IsClose p := by
  have hcore := core_of_reachable hreach
  have hup := hcore.opens h.connected
  obtain ⟨s₁, hexchange, hrest⟩ := Lib.Machine.run_cons_some hrun
  obtain ⟨s₂, hunflag, hrest⟩ := Lib.Machine.run_cons_some hrest
  have hcore₁ := hcore.step hexchange
  have hcore₂ := hcore₁.step hunflag
  obtain ⟨-, rfl⟩ := Lib.Machine.of_guard hexchange
  obtain ⟨-, rfl⟩ := Lib.Machine.of_guard hunflag
  have hmute : Mute s.ctx.flushed s.ctx.send_queue s.ctx :=
    ⟨hup, .inl ⟨h.connected, h.active⟩, [], [], (List.append_nil _).symm,
      (List.append_nil _).symm, fun e he => absurd he List.not_mem_nil,
      fun p hp => absurd hp List.not_mem_nil⟩
  have hstart : Mute s.ctx.flushed s.ctx.send_queue
      { s.ctx with send_flush_pending := false } := hmute.keep rfl (.inl ⟨rfl, rfl⟩) rfl rfl
  -- the thread goes away without a flush having been asked for
  have hidle : ∀ j, Client.set s.senders i
      (if s.ctx.send_flush_pending then .idle else .raised) j = .idle := by
    intro j
    by_cases hj : j = i
    · rw [hj, Client.set, if_pos rfl, if_pos h.pending]
    · rw [set_of_ne _ _ hj]
      exact h.others j hj
  have hinv := Lib.Machine.run_invariant_of_forall (M := machine cfg app)
    (I := fun s' : Client Z => Core s' ∧ Mute s.ctx.flushed s.ctx.send_queue s'.ctx ∧
      ∀ j, s'.senders j = .idle)
    (G := fun a => ∀ j p, a ≠ .load j p)
    (fun s₁ a s₂ ⟨hc, hm, hi⟩ ha hstep => ⟨hc.step hstep, mute_step hc hm hi ha hstep⟩)
    hload hrest ⟨hcore₂, hstart, hidle⟩
  exact hinv.2.1.since

/-- The second of two threads, whose message comes behind the flush of the first. -/
theorem lost_in_window_second :
    let before := handshake ++ [.load 0 (.text [104]), .load 1 (.text [105]), .push 0, .exchange 0,
      .activate 0, .flush, .push 1]
    let s := ran before (by decide +kernel)
    let t := ran (before ++ [.exchange 1, .unflag, .stop, .wakeup]) (by decide +kernel)
    ∃ later closes, t.ctx.flushed = s.ctx.flushed ++ later ∧
      later.map Prod.fst ++ t.ctx.send_queue = s.ctx.send_queue ++ closes ∧
      (∀ e ∈ later, e.2 = true → e.1.IsClose) ∧ ∀ p ∈ closes, Pending.IsClose p :=
  lost_in_window (i := 1) (reachable_ran _ _)
    ⟨by decide +kernel, by decide +kernel, by decide +kernel, by decide +kernel, by decide +kernel,
      fun j hj => by
        match j with
        | 0 => rfl
        | 1 => exact absurd rfl hj
        | j + 2 => rfl⟩
    (run_ran _ _) (by simp)

end Client

end SendQueue

end FsBridge.Libwsc
