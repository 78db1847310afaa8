/-
  FsBridge.Libwsc.ClientLaws

  What a step of the client does to its context, and where its threads can be.

  `step_evolve`: a step is made of the moves of the context, of what is set up before
  the handshake is done, and of events that are taken back; or the request is written.
-/

import FsBridge.Libwsc.ContextLaws

namespace FsBridge.Libwsc

open FsBridge.Lib

section ClientLaws

variable {Z : Zlib} {app : App}

-- ============================================================================
-- What a step of the client does to its context
-- ============================================================================

namespace Context

/-- A connection whose handshake is not done may be set to anything; events are taken
    away; and what a move does. -/
inductive Evolve1 (app : App) (x x' : Context Z) : Prop where
  | move (h : Move app x x')
  | fresh (hup : x.upgraded = false)
      (h : x' = { x with
        connection_state := x'.connection_state
        upgraded := x'.upgraded
        use_compression := x'.use_compression
        sender := { x.sender with deflater := x'.sender.deflater }
        base := x'.base
        timeout_event := x'.timeout_event })
  | settle (h : x' = { x with
      base := x'.base
      wakeup_active := x'.wakeup_active
      send_active := x'.send_active
      close_timer := false
      timeout_event := x'.timeout_event })

def Evolve (app : App) : Context Z → Context Z → Prop := Relation.ReflTransGen (Evolve1 app)

theorem Evolve.refl (x : Context Z) : Evolve app x x := Relation.ReflTransGen.refl

theorem Evolve.trans {x y z : Context Z} (h : Evolve app x y) (h' : Evolve app y z) :
    Evolve app x z := Relation.ReflTransGen.trans h h'

theorem Evolve1.evolve {x y : Context Z} (h : Evolve1 app x y) : Evolve app x y :=
  Relation.ReflTransGen.single h

/-- What each of these changes keeps, a sequence of them keeps. -/
theorem Evolve.keeps {P : Context Z → Prop} (hstep : ∀ x x', P x → Evolve1 app x x' → P x')
    {x x' : Context Z} (h : Evolve app x x') (hx : P x) : P x' := by
  induction h with
  | refl => exact hx
  | tail _ hlast ih => exact hstep _ _ ih hlast

theorem Moves.evolve {x x' : Context Z} (h : Moves app x x') : Evolve app x x' :=
  h.keeps (P := Evolve app x) (fun _ _ hx hmove => hx.tail (.move hmove)) (.refl x)

/-- The invariant of the context is kept by each change of a step. -/
theorem Evolve1.inv {x x' : Context Z} (h : Inv x) (hstep : Evolve1 app x x') : Inv x' := by
  cases hstep with
  | move hmove => exact hmove.inv h
  | fresh hup heq =>
      obtain ⟨hframes, hsent, hqueue⟩ := h.fresh hup
      rw [heq]
      exact ⟨fun hs => absurd (hs.symm.trans hsent) (by decide), fun p hp => absurd hp (hqueue p),
        h.timer, fun _ => ⟨hframes, hsent, hqueue⟩⟩
  | settle heq =>
      rw [heq]
      exact ⟨h.sent, h.queued, fun ht => absurd (show false = true from ht) (by decide), h.fresh⟩

end Context

namespace Client

open Context

variable {cfg : Config}

/-- Where the client is, against the state of its connection. -/
structure Phase (s : Client Z) : Prop where
  reading : s.pc = .reading → s.ctx.upgraded = true
  notStarted : s.pc = .notStarted → s.ctx.upgraded = false
  connecting : s.link = .connecting → s.ctx.upgraded = false
  /-- Only messages are sent by other threads. -/
  loaded : ∀ i connecting p, s.senders i = .loaded connecting p → ∀ payload, p ≠ .close payload

/-- Before the handshake is done the response may set up compression, or report an error. -/
theorem evolve_negotiated (s : Client Z) (resp : Bytes) (hup : s.ctx.upgraded = false) :
    Evolve app s.ctx (s.negotiated cfg app resp).ctx ∧
      (s.negotiated cfg app resp).ctx.upgraded = false := by
  have hfresh : ∀ x : Context Z, x = { s.ctx with
      use_compression := x.use_compression
      sender := { s.ctx.sender with deflater := x.sender.deflater } } → Evolve app s.ctx x :=
    fun x hx => Evolve1.evolve (.fresh hup (by rw [hx]))
  unfold negotiated
  split
  · exact ⟨hfresh _ rfl, hup⟩
  · split
    · refine ⟨(hfresh _ rfl).trans (acts_sendError _ _ _).moves.evolve, ?_⟩
      exact (@callback_sameState Z app _ _).upgraded.trans hup
    · exact ⟨hfresh _ rfl, hup⟩

/-- Nothing else of the client changes. -/
theorem negotiated_rest (s : Client Z) (resp : Bytes) :
    (s.negotiated cfg app resp).input = s.input ∧ (s.negotiated cfg app resp).pc = s.pc ∧
      (s.negotiated cfg app resp).link = s.link ∧
      (s.negotiated cfg app resp).senders = s.senders := by
  unfold negotiated
  split
  · exact ⟨rfl, rfl, rfl, rfl⟩
  · split <;> exact ⟨rfl, rfl, rfl, rfl⟩

/-- A read changes the context by moves and by what the handshake sets up. -/
theorem evolve_handleRead (s : Client Z) : Evolve app s.ctx (s.handleRead cfg app).ctx := by
  unfold handleRead
  split
  · exact .refl s.ctx
  · rename_i hup
    have hup := Bool.eq_false_iff.mpr hup
    split
    · exact .refl s.ctx
    · rename_i n hn
      split
      · obtain ⟨hevolve, hup'⟩ := @evolve_negotiated Z app cfg s (s.input.take n) hup
        refine hevolve.trans ?_
        have hopen : Evolve app (s.negotiated cfg app (s.input.take n)).ctx
            { (s.negotiated cfg app (s.input.take n)).ctx with
              upgraded := true
              connection_state := .connected } := Evolve1.evolve (.fresh hup' rfl)
        refine (hopen.trans (quiet_flushSendQueue _).moves.evolve).trans ?_
        refine (acts_callback _ .opened fun h => (by cases h)).moves.evolve.trans ?_
        exact Moves.evolve (Move.moves (.flags _ ⟨rfl, List.prefix_rfl⟩))
      · have hfailed : Evolve app s.ctx { s.ctx with connection_state := .failed } :=
          Evolve1.evolve (.fresh hup rfl)
        exact hfailed.trans ((acts_sendError _ _ _).trans (Act1.acts .exit)).moves.evolve

/-- What a step does to the context: what it may do, or the request is written. -/
theorem step_evolve {s s' : Client Z} {a : Act} (hphase : Phase s)
    (h : (machine cfg app).step s a = some s') :
    Evolve app s.ctx s'.ctx ∨
      s.link = .connecting ∧ s'.link = .up ∧ s'.ctx = { s.ctx with
        sender := { s.ctx.sender with output := s.ctx.sender.output ++ handshakeRequest cfg } } := by
  cases a with
  | run =>
      obtain ⟨hpc, rfl⟩ := Lib.Machine.of_guard h
      exact .inl (Evolve1.evolve (.fresh (hphase.notStarted hpc) rfl))
  | connected tlsError =>
      obtain ⟨⟨-, hlink⟩, rfl⟩ := Lib.Machine.of_guard h
      cases tlsError with
      | none => exact .inr ⟨hlink, rfl, rfl⟩
      | some e => exact .inl ((acts_sendError _ _ _).trans (Act1.acts .exit)).moves.evolve
  | read seg =>
      obtain ⟨-, rfl⟩ := Lib.Machine.of_guard h
      exact .inl (evolve_handleRead { s with input := s.input ++ seg })
  | frame =>
      obtain ⟨hpc, rfl⟩ := Lib.Machine.of_guard h
      exact .inl (acts_onDataTurn (hphase.reading hpc)).moves.evolve
  | event events =>
      obtain ⟨-, rfl⟩ := Lib.Machine.of_guard h
      exact .inl (acts_handleEvent s.ctx events).moves.evolve
  | timeout =>
      obtain ⟨-, rfl⟩ := Lib.Machine.of_guard h
      have hfired : Moves app s.ctx { s.ctx with timeout_event := false } :=
        Move.moves (.flags _ ⟨rfl, List.prefix_rfl⟩)
      exact .inl (hfired.trans (acts_timeoutCallback _).moves).evolve
  | ping =>
      obtain ⟨-, rfl⟩ := Lib.Machine.of_guard h
      exact .inl (quiet_sendPing s.ctx).moves.evolve
  | wakeup =>
      obtain ⟨-, rfl⟩ := Lib.Machine.of_guard h
      have hfired : Moves app s.ctx { s.ctx with wakeup_active := false } :=
        Move.moves (.flags _ ⟨rfl, List.prefix_rfl⟩)
      exact .inl (hfired.trans (moves_wakeupCallback _)).evolve
  | flush =>
      obtain ⟨-, rfl⟩ := Lib.Machine.of_guard h
      have hfired : Moves app s.ctx { s.ctx with send_active := false } :=
        Move.moves (.flags _ ⟨rfl, List.prefix_rfl⟩)
      exact .inl (hfired.trans (quiet_flushSendQueue _).moves).evolve
  | unflag =>
      obtain ⟨-, rfl⟩ := Lib.Machine.of_guard h
      exact .inl (Moves.evolve (Move.moves (.flags _ ⟨rfl, List.prefix_rfl⟩)))
  | closeTimer =>
      obtain ⟨-, rfl⟩ := Lib.Machine.of_guard h
      have hfired : Evolve app s.ctx { s.ctx with close_timer := false } :=
        Evolve1.evolve (.settle rfl)
      exact .inl (hfired.trans (acts_closeTimerCb _).moves.evolve)
  | exit =>
      obtain ⟨-, rfl⟩ := Lib.Machine.of_guard h
      exact .inl (Evolve1.evolve (.settle rfl))
  | load i p =>
      have hload : s'.ctx = s.ctx := by
        simp only [machine, step] at h
        split at h
        · cases h
        · obtain rfl := Option.some.inj h
          rfl
        · cases h
      rw [hload]
      exact .inl (.refl s.ctx)
  | push i =>
      simp only [machine, step] at h
      split at h
      · rename_i connecting p hsender
        obtain rfl := Option.some.inj h
        exact .inl (Quiet1.quiet (.push p (hphase.loaded i connecting p hsender))).moves.evolve
      · cases h
  | exchange i =>
      obtain ⟨-, rfl⟩ := Lib.Machine.of_guard h
      exact .inl (Moves.evolve (Move.moves (.flags _ ⟨rfl, List.prefix_rfl⟩)))
  | activate i =>
      obtain ⟨-, rfl⟩ := Lib.Machine.of_guard h
      refine .inl (Moves.evolve ?_)
      dsimp only
      split <;> exact Move.moves (.flags _ ⟨rfl, List.prefix_rfl⟩)
  | stop =>
      obtain rfl := Option.some.inj h
      exact .inl (quiet_stop s.ctx).moves.evolve

/-- What the application has been told is not taken back. -/
theorem step_told {s s' : Client Z} {a : Act} (hphase : Phase s)
    (h : (machine cfg app).step s a = some s') : s.ctx.callbacks <+: s'.ctx.callbacks := by
  rcases step_evolve hphase h with hevolve | ⟨-, -, heq⟩
  · refine hevolve.keeps (P := fun y => s.ctx.callbacks <+: y.callbacks)
      (fun y y' hy hstep => hy.trans ?_) List.prefix_rfl
    cases hstep with
    | move hmove => exact hmove.told
    | fresh hup heq | settle heq =>
        exact ⟨[], (List.append_nil _).trans (congrArg Context.callbacks heq).symm⟩
  · exact ⟨[], (List.append_nil _).trans (congrArg Context.callbacks heq).symm⟩

/-- A step that leaves `upgraded` alone. -/
theorem Phase.keep {s s' : Client Z} (h : Phase s) (hup : s'.ctx.upgraded = s.ctx.upgraded)
    (hpc : s'.pc = s.pc ∨ s'.pc ≠ .reading ∧ s'.pc ≠ .notStarted)
    (hlink : s'.link = .connecting → s.link = .connecting)
    (hsenders : ∀ i connecting p, s'.senders i = .loaded connecting p →
      ∀ payload, p ≠ .close payload) : Phase s' := by
  refine ⟨fun hr => ?_, fun hn => ?_, fun hc => hup.trans (h.connecting (hlink hc)), hsenders⟩
  · rcases hpc with hpc | ⟨hne, -⟩
    · exact hup.trans (h.reading (hpc ▸ hr))
    · exact absurd hr hne
  · rcases hpc with hpc | ⟨-, hne⟩
    · exact hup.trans (h.notStarted (hpc ▸ hn))
    · exact absurd hn hne

/-- Another thread that has a message in hand has no close frame in hand. -/
theorem loaded_set {senders : Nat → SenderPc} {i : Nat} {pc : SenderPc}
    (h : ∀ j connecting p, senders j = .loaded connecting p → ∀ payload, p ≠ .close payload)
    (hpc : ∀ connecting p, pc = .loaded connecting p → ∀ payload, p ≠ .close payload) :
    ∀ j connecting p, set senders i pc j = .loaded connecting p →
      ∀ payload, p ≠ .close payload := by
  intro j connecting p hj
  unfold set at hj
  split at hj
  · exact hpc connecting p hj
  · exact h j connecting p hj

theorem upgraded_requestLoopExit_sendError (x : Context Z) (code : ErrorCode) (message : Bytes) :
    (x.sendError app code message).requestLoopExit.upgraded = x.upgraded :=
  @upgraded_of_moves Z app _ _ ((acts_sendError x code message).trans (Act1.acts .exit)).moves

/-- A read leaves the client where the state of its connection says. -/
theorem phase_handleRead {s : Client Z} (h : Phase s) (hlink : s.link = .up) :
    Phase (s.handleRead cfg app) := by
  unfold handleRead
  split
  · rename_i hup
    exact ⟨fun _ => hup, fun hn => absurd hn (by simp),
      fun hc => absurd (hlink.symm.trans hc) (by decide), h.loaded⟩
  · split
    · exact h
    · rename_i n hn
      split
      · have hup : (s.upgrade cfg app n).ctx.upgraded = true :=
          @upgraded_of_moves Z app _ _
            ((quiet_flushSendQueue _).moves.trans
              (acts_callback _ .opened fun h => (by cases h)).moves)
        refine ⟨fun _ => hup, fun hn => ?_, fun hc => ?_, ?_⟩
        · unfold upgrade at hn
          dsimp only at hn
          split at hn <;> cases hn
        · have hc : (s.negotiated cfg app (s.input.take n)).link = .connecting := hc
          rw [(negotiated_rest s (s.input.take n)).2.2.1] at hc
          exact absurd (hlink.symm.trans hc) (by decide)
        · have hsenders := (@negotiated_rest Z app cfg s (s.input.take n)).2.2.2
          show ∀ i connecting p, (s.negotiated cfg app (s.input.take n)).senders i = _ → _
          rw [hsenders]
          exact h.loaded
      · refine h.keep ?_ (.inl rfl) id h.loaded
        exact upgraded_requestLoopExit_sendError _ _ _

/-- Every step keeps the threads where the state of the connection says. -/
theorem step_phase {s s' : Client Z} {a : Act} (h : Phase s)
    (hstep : (machine cfg app).step s a = some s') : Phase s' := by
  cases a with
  | run =>
      obtain ⟨hpc, rfl⟩ := Lib.Machine.of_guard hstep
      exact h.keep rfl (.inr ⟨by simp, by simp⟩) id h.loaded
  | connected tlsError =>
      obtain ⟨-, rfl⟩ := Lib.Machine.of_guard hstep
      refine h.keep ?_ (.inl rfl) (fun hc => absurd hc (by simp)) h.loaded
      cases tlsError with
      | none => rfl
      | some e => exact upgraded_requestLoopExit_sendError _ _ _
  | read seg =>
      obtain ⟨⟨-, hlink⟩, rfl⟩ := Lib.Machine.of_guard hstep
      have hbefore : Phase { s with input := s.input ++ seg } :=
        ⟨h.reading, h.notStarted, h.connecting, h.loaded⟩
      exact phase_handleRead hbefore hlink
  | frame =>
      obtain ⟨hpc, rfl⟩ := Lib.Machine.of_guard hstep
      have hup := upgraded_of_moves (@acts_onDataTurn Z app _ (h.reading hpc)).moves
      refine h.keep hup ?_ ?_ ?_
      · unfold Client.onDataTurn
        split
        · exact .inr ⟨by simp, by simp⟩
        · dsimp only
          split <;> exact .inr ⟨by simp, by simp⟩
        · exact .inl rfl
      · unfold Client.onDataTurn
        split <;> exact id
      · unfold Client.onDataTurn
        split <;> exact h.loaded
  | event events =>
      obtain ⟨-, rfl⟩ := Lib.Machine.of_guard hstep
      refine h.keep (upgraded_of_moves (@acts_handleEvent Z app s.ctx events).moves) (.inl rfl)
        (fun hc => ?_) h.loaded
      dsimp only at hc
      split at hc
      · cases hc
      · exact hc
  | timeout =>
      obtain ⟨-, rfl⟩ := Lib.Machine.of_guard hstep
      have hup := upgraded_of_moves
        (@acts_timeoutCallback Z app { s.ctx with timeout_event := false }).moves
      exact h.keep hup (.inl rfl) id h.loaded
  | ping =>
      obtain ⟨-, rfl⟩ := Lib.Machine.of_guard hstep
      exact h.keep (@quiet_sendPing Z app s.ctx).sameState.upgraded (.inl rfl) id h.loaded
  | wakeup =>
      obtain ⟨-, rfl⟩ := Lib.Machine.of_guard hstep
      have hup := upgraded_of_moves
        (@moves_wakeupCallback Z app { s.ctx with wakeup_active := false })
      exact h.keep hup (.inl rfl) id h.loaded
  | flush =>
      obtain ⟨-, rfl⟩ := Lib.Machine.of_guard hstep
      exact h.keep (@quiet_flushSendQueue Z app _).sameState.upgraded
        (.inr ⟨by simp, by simp⟩) id h.loaded
  | unflag =>
      obtain ⟨-, rfl⟩ := Lib.Machine.of_guard hstep
      exact h.keep rfl (.inr ⟨by simp, by simp⟩) id h.loaded
  | closeTimer =>
      obtain ⟨-, rfl⟩ := Lib.Machine.of_guard hstep
      have hup := upgraded_of_moves
        (@acts_closeTimerCb Z app { s.ctx with close_timer := false }).moves
      exact h.keep hup (.inl rfl) id h.loaded
  | exit =>
      obtain ⟨-, rfl⟩ := Lib.Machine.of_guard hstep
      exact h.keep rfl (.inr ⟨by simp, by simp⟩) (fun hc => absurd hc (by simp)) h.loaded
  | load i p =>
      simp only [machine, step] at hstep
      split at hstep
      · cases hstep
      · rename_i hmessage
        obtain rfl := Option.some.inj hstep
        refine h.keep rfl (.inl rfl) id (loaded_set h.loaded fun connecting q hq payload => ?_)
        obtain ⟨-, rfl⟩ := SenderPc.loaded.inj hq
        exact hmessage payload
      · cases hstep
  | push i =>
      simp only [machine, step] at hstep
      split at hstep
      · rename_i connecting p hsender
        obtain rfl := Option.some.inj hstep
        refine h.keep ?_ (.inl rfl) id (loaded_set h.loaded fun connecting q hq => ?_)
        · exact (@Quiet1.push Z app _ p
            (h.loaded i connecting p hsender)).sameState.upgraded
        · split at hq <;> cases hq
      · cases hstep
  | exchange i =>
      obtain ⟨-, rfl⟩ := Lib.Machine.of_guard hstep
      refine h.keep rfl (.inl rfl) id (loaded_set h.loaded fun connecting q hq => ?_)
      split at hq <;> cases hq
  | activate i =>
      obtain ⟨-, rfl⟩ := Lib.Machine.of_guard hstep
      refine h.keep ?_ (.inl rfl) id (loaded_set h.loaded fun connecting q hq => by cases hq)
      dsimp only
      split <;> rfl
  | stop =>
      obtain rfl := Option.some.inj hstep
      exact h.keep (@quiet_stop Z app s.ctx).sameState.upgraded (.inl rfl) id h.loaded

/-- A read leaves the transport alone. -/
theorem link_handleRead (s : Client Z) : (s.handleRead cfg app).link = s.link := by
  unfold handleRead
  split
  · rfl
  · split
    · rfl
    · split
      · exact (negotiated_rest s _).2.2.1
      · rfl

/-- A transport that is connected is not connected again. -/
theorem connecting_of_step {s s' : Client Z} {a : Act}
    (hstep : (machine cfg app).step s a = some s') (h : s'.link = .connecting) :
    s.link = .connecting := by
  cases a with
  | connected tlsError =>
      obtain ⟨-, rfl⟩ := Lib.Machine.of_guard hstep
      cases h
  | read seg =>
      obtain ⟨-, rfl⟩ := Lib.Machine.of_guard hstep
      exact (@link_handleRead Z app cfg { s with input := s.input ++ seg }).symm.trans h
  | frame =>
      obtain ⟨-, rfl⟩ := Lib.Machine.of_guard hstep
      unfold Client.onDataTurn at h
      split at h <;> exact h
  | event events =>
      obtain ⟨-, rfl⟩ := Lib.Machine.of_guard hstep
      dsimp only at h
      split at h
      · cases h
      · exact h
  | exit =>
      obtain ⟨-, rfl⟩ := Lib.Machine.of_guard hstep
      cases h
  | load i p =>
      simp only [machine, step] at hstep
      split at hstep <;> cases hstep
      exact h
  | push i =>
      simp only [machine, step] at hstep
      split at hstep <;> cases hstep
      exact h
  | stop =>
      obtain rfl := Option.some.inj hstep
      exact h
  | run | timeout | ping | wakeup | flush | unflag | closeTimer | exchange | activate =>
      obtain ⟨-, rfl⟩ := Lib.Machine.of_guard hstep
      exact h

theorem phase_init : Phase (init : Client Z) :=
  ⟨fun h => (by cases h), fun _ => rfl, fun _ => rfl, fun i c p h => (by cases h)⟩

theorem inv_init : (init : Client Z).ctx.Inv :=
  ⟨fun h => (by cases h), fun p hp => absurd hp List.not_mem_nil, fun h => (by cases h),
    fun _ => ⟨rfl, rfl, fun p => List.not_mem_nil⟩⟩

/-- The invariant of the context holds after every step of the client. -/
theorem step_inv {s s' : Client Z} {a : Act} (hphase : Phase s) (hinv : s.ctx.Inv)
    (hstep : (machine cfg app).step s a = some s') : s'.ctx.Inv := by
  rcases step_evolve hphase hstep with hevolve | ⟨-, -, heq⟩
  · exact hevolve.keeps (P := Inv) (fun _ _ hx hone => hone.inv hx) hinv
  · rw [heq]
    exact ⟨hinv.sent, hinv.queued, hinv.timer, hinv.fresh⟩

end Client

end ClientLaws

end FsBridge.Libwsc
