/-
  FsBridge.Bridge.FinishProgress

  Finish completes: from the invariant, some step that brings a session on can always
  be taken, and the measures of `Completes` go down.  Without `captureEvents` the wait
  has no end (`waits_forever`).
-/

import FsBridge.Bridge.FinishInvariant

namespace FsBridge.Bridge.FinishWait

open FsBridge.Lib

-- ============================================================================
-- Progress
-- ============================================================================

section Progress

variable {st : Setting} {s s' : State} {i : Nat}

theorem Move.others {a : Act} (h : Move st s i a s') {j : Nat} (hji : j ≠ i) :
    s'.session j = s.session j := by
  cases h with
  | receive sub b hsub hcapturing hrange hall hb => rfl
  | _ => exact session_set_of_ne s _ hji

/-- A step of a session is one of its goroutine, which gets nearer to its return, or
    one of its `captureEvents`. -/
theorem Move.ahead {a : Act} (h : Move st s i a s') :
    (a.goroutine = some i ∧ a.captures = none ∧
        (s'.session i).pc.ahead < (s.session i).pc.ahead) ∨
      (a.goroutine = none ∧ a.captures = some i ∧ (s'.session i).pc = (s.session i).pc) := by
  have hgo : ∀ (pc : Pc) (x : Session), x.pc = pc → pc.ahead < (s.session i).pc.ahead →
      ((s.set i x).session i).pc.ahead < (s.session i).pc.ahead := by
    rintro pc x rfl hx
    rw [session_set_self]
    exact hx
  cases h with
  | make ok pc hpc => exact .inl ⟨rfl, rfl, hgo pc _ rfl (madeNext_cases hpc).2.2.2.1⟩
  | subscribe b hpc hb => exact .inl ⟨rfl, rfl, hgo .subscribed _ rfl (by rw [hpc]; decide)⟩
  | createEvents ok hpc => exact .inl ⟨rfl, rfl, hgo .begun _ rfl (by rw [hpc]; decide)⟩
  | store hpc =>
      refine .inl ⟨rfl, rfl, hgo .serving _ rfl ?_⟩
      rcases hpc with hpc | hpc <;> rw [hpc] <;> decide
  | serve hpc => exact .inl ⟨rfl, rfl, hgo .ended _ rfl (by rw [hpc]; decide)⟩
  | finish hpc =>
      refine .inl ⟨rfl, rfl, hgo (finishNext (s.session i)) _ rfl ?_⟩
      rw [hpc]
      unfold finishNext
      split
      · split <;> decide
      · decide
  | unsubscribe b hpc hb =>
      exact .inl ⟨rfl, rfl, hgo .unsubscribing _ rfl (by rw [hpc]; decide)⟩
  | close b hpc hb => exact .inl ⟨rfl, rfl, hgo .waiting _ rfl (by rw [hpc]; decide)⟩
  | eventsDone hpc hdone => exact .inl ⟨rfl, rfl, hgo .finalizing _ rfl (by rw [hpc]; decide)⟩
  | finalize hpc => exact .inl ⟨rfl, rfl, hgo .finished _ rfl (by rw [hpc]; decide)⟩
  | publish e pc b hpc hb =>
      refine .inl ⟨rfl, rfl, hgo pc _ rfl ?_⟩
      rcases publishNext_cases hpc with ⟨hfrom, rfl⟩ | ⟨hfrom, rfl⟩ <;> rw [hfrom] <;> decide
  | goOn pc pc' hpc hnext =>
      exact .inl ⟨rfl, rfl, hgo pc _ rfl (publishedNext_cases hnext).2.2.1⟩
  | published pc b hown hpc hb =>
      exact .inl ⟨rfl, rfl, hgo pc _ rfl (publishedNext_cases hpc).2.2.1⟩
  | receive sub b hsub hcapturing hrange hall hb => exact .inr ⟨rfl, rfl, rfl⟩
  | capture sub hsub hcapturing hlt => exact .inr ⟨rfl, rfl, by rw [session_set_self]⟩
  | drained sub hsub hcapturing hopen => exact .inr ⟨rfl, rfl, by rw [session_set_self]⟩

/-- Own steps bring a session nearer to its return, no others move it. -/
theorem nearer_of_step {a : Act} (hstep : step st s a = some s') :
    (a.goroutine = some i → (s'.session i).pc.ahead < (s.session i).pc.ahead) ∧
      (a.goroutine ≠ some i → (s'.session i).pc = (s.session i).pc) := by
  rcases step_cases hstep with ⟨act, b, rfl, helse, hb, rfl⟩ | ⟨j, hj, hmove⟩
  · exact ⟨fun hno => (nomatch hno), fun _ => rfl⟩
  · by_cases hij : i = j
    · subst hij
      rcases hmove.ahead with ⟨hg, -, hlt⟩ | ⟨hg, -, hsame⟩
      · exact ⟨fun _ => hlt, fun hno => absurd hg hno⟩
      · rw [hg]
        exact ⟨fun hno => (nomatch hno), fun _ => hsame⟩
    · refine ⟨fun hyes => ?_, fun _ => by rw [hmove.others hij]⟩
      rcases hmove.ahead with ⟨hg, -⟩ | ⟨hg, -⟩
      · exact absurd (Option.some.inj (hyes.symm.trans hg)) hij
      · exact nomatch hyes.symm.trans hg

/-- Whoever holds `mu` can go on. -/
theorem Inv.release (h : Inv st s) (hmu : s.bus.mu ≠ .free) :
    ∃ a : Act, a.releases = true ∧ (step st s a).isSome = true := by
  cases hcase : s.bus.mu with
  | free => exact absurd hcase hmu
  | unsubscribing j =>
      obtain ⟨sub, hsub, hopen⟩ := (h.bus.closing j hcase).2
      have hclose : (EventBus.step s.bus .close).isSome = true := by
        rw [EventBus.step, h.bus.running, if_neg Bool.false_ne_true, hcase]
        dsimp only
        rw [hsub]
        dsimp only
        rw [hopen, if_neg Bool.false_ne_true]
        rfl
      obtain ⟨b, hb⟩ := Option.isSome_iff_exists.mp hclose
      cases hj : st.session j with
      | true =>
          have hpc := (h.sessions j hj).closes hcase
          refine ⟨.close j, rfl, ?_⟩
          show (if st.session j = true then stepOwn st s j (.close j) else none).isSome = true
          rw [if_pos hj, stepOwn, if_pos hpc, hb]
          rfl
      | false =>
          refine ⟨.bus .close, rfl, ?_⟩
          have helse : elsewhere st s (.close : EventBus.Act Event) = true := by
            rw [elsewhere, hcase]
            dsimp only
            rw [hj]
            rfl
          rw [step, if_pos helse, hb]
          rfl
  | publishing e todo =>
      cases todo with
      | cons k todo =>
          obtain ⟨sub, hsub, hopen⟩ := h.bus.subs_open k
            (h.bus.todo_subs e _ hcase k List.mem_cons_self)
          refine ⟨.bus (.offer k), rfl, ?_⟩
          rw [step, elsewhere, if_pos rfl, EventBus.step, h.bus.running,
            if_neg Bool.false_ne_true, hcase, hsub]
          dsimp only
          rw [if_pos List.mem_cons_self, hopen, if_neg Bool.false_ne_true]
          rfl
      | nil =>
          have hdone : (EventBus.step s.bus .published).isSome = true := by
            rw [EventBus.step, h.bus.running, if_neg Bool.false_ne_true, hcase]
            rfl
          obtain ⟨b, hb⟩ := Option.isSome_iff_exists.mp hdone
          cases hown : s.publisher with
          | none =>
              refine ⟨.bus .published, rfl, ?_⟩
              have helse : elsewhere st s (.published : EventBus.Act Event) = true := by
                rw [elsewhere, hown]
                rfl
              rw [step, if_pos helse, hb]
              rfl
          | some j =>
              have hj := (h.publisher j hown).1
              obtain ⟨pc, hpc⟩ := publishedNext_of_publishes ((h.sessions j hj).publishes.mpr hown)
              refine ⟨.published j, rfl, ?_⟩
              show (if st.session j = true then stepOwn st s j (.published j) else none).isSome
                = true
              rw [if_pos hj, stepOwn, if_pos hown, hpc, hb]
              rfl

theorem step_of_session {a : Act} (ha : a.session = some i) (hi : st.session i = true) :
    step st s a = stepOwn st s i a := by
  cases a with
  | bus b => exact nomatch ha
  | _ =>
      obtain rfl := Option.some.inj ha
      exact if_pos hi

/-- A step of the goroutine that can be taken. -/
theorem helps_own {a : Act} (hi : st.session i = true) (ha : a.goroutine = some i)
    (hsession : a.session = some i) (hstep : (stepOwn st s i a).isSome = true) :
    ∃ a, s.Helps i a ∧ (step st s a).isSome = true :=
  ⟨a, .inl ha, by rw [step_of_session hsession hi]; exact hstep⟩

/-- A step of `captureEvents` that can be taken. -/
theorem helps_captures {a : Act} (hi : st.session i = true)
    (hpc : (s.session i).pc = .waiting) (ha : a.captures = some i)
    (hsession : a.session = some i) (hstep : (stepOwn st s i a).isSome = true) :
    ∃ a, s.Helps i a ∧ (step st s a).isSome = true :=
  ⟨a, .inr (.inl ⟨hpc, ha⟩), by rw [step_of_session hsession hi]; exact hstep⟩

/-- A session at a place where it needs `mu`: it is free and taken, or its holder can
    go on. -/
theorem Inv.helps_locks (h : Inv st s) (hlocks : (s.session i).pc.locks = true)
    (hfree : s.bus.mu = .free → ∃ a, s.Helps i a ∧ (step st s a).isSome = true) :
    ∃ a, s.Helps i a ∧ (step st s a).isSome = true := by
  by_cases hmu : s.bus.mu = .free
  · exact hfree hmu
  · obtain ⟨a, ha, hstep⟩ := h.release hmu
    exact ⟨a, .inr (.inr ⟨hlocks, hmu, ha⟩), hstep⟩

/-- A session that publishes, or passes over it without a bus. -/
theorem Inv.helps_publish (h : Inv st s) (hi : st.session i = true)
    (hlocks : (s.session i).pc.locks = true) {bus : Bool} {pc pc' : Pc}
    (hpc : publishNext st (s.session i).pc = some (bus, pc))
    (hnext : publishedNext (s.session i).pc = some pc') :
    ∃ a, s.Helps i a ∧ (step st s a).isSome = true := by
  cases bus with
  | false =>
      refine helps_own (a := .goOn i) hi rfl rfl ?_
      rw [stepOwn, hpc]
      dsimp only
      rw [hnext]
      rfl
  | true =>
      refine h.helps_locks hlocks fun hmu => ?_
      refine helps_own (a := .publish i ⟨[], [], []⟩) hi rfl rfl ?_
      rw [stepOwn, hpc]
      dsimp only
      rw [EventBus.step, h.bus.running, if_neg Bool.false_ne_true, hmu]
      rfl

/-- `captureEvents` of a closed channel handles what is left and ends. -/
theorem Inv.helps_waiting (h : Inv st s) (hi : st.session i = true)
    (hpc : (s.session i).pc = .waiting) : ∃ a, s.Helps i a ∧ (step st s a).isSome = true := by
  have hok := h.sessions i hi
  have hunsub := hok.leaves (.inr (.inr hpc))
  have hcapturing := hok.capturing hunsub (by rw [hpc]; decide)
  obtain ⟨sub, hsub, hclosed, hwait⟩ : ClosedChan s.bus i :=
    hok.holds hunsub (by rw [hpc]; rfl : _ = Kind.closed)
  have hle := hok.handled sub hsub
  by_cases hdone : (s.session i).eventsDone = true
  · refine helps_own (a := .eventsDone i) hi rfl rfl ?_
    rw [stepOwn, if_pos ⟨hpc, hdone⟩]
    rfl
  · by_cases hlt : (s.session i).handled < sub.received.length
    · refine helps_captures (a := .capture i) hi hpc rfl rfl ?_
      rw [stepOwn, hsub]
      dsimp only
      rw [if_pos ⟨hcapturing, hlt⟩]
      rfl
    · have hall : (s.session i).handled = sub.received.length := by omega
      by_cases hbuf : sub.chan.buf = []
      · refine helps_captures (a := .drained i) hi hpc rfl rfl ?_
        rw [stepOwn, hsub]
        dsimp only
        rw [if_pos ⟨⟨hcapturing, Bool.of_not_eq_true hdone⟩, hall, hbuf, hclosed⟩]
        rfl
      · refine helps_captures (a := .receive i) hi hpc rfl rfl ?_
        rw [stepOwn, hsub]
        dsimp only
        rw [if_pos ⟨hcapturing, hall, .inl hbuf⟩, EventBus.step, h.bus.running,
          if_neg Bool.false_ne_true]
        rw [hsub, Option.isSome_map]
        dsimp only
        rw [Option.isSome_map, EventBus.Subscription.receive, hwait, if_neg Bool.false_ne_true]
        cases hrecv : sub.chan.tryRecv with
        | none => exact absurd (Chan.tryRecv_eq_none.mp hrecv) hbuf
        | some r => rfl

/-- A session that has not returned is not stuck. -/
theorem Inv.notStuck (h : Inv st s) (hi : st.session i = true)
    (hpc : (s.session i).pc ≠ .returned) :
    ∃ a, s.Helps i a ∧ (step st s a).isSome = true := by
  have hok := h.sessions i hi
  cases hcase : (s.session i).pc with
  | accepted | madeDir | madeCaller =>
      refine helps_own (a := .make i true) hi rfl rfl ?_
      rw [stepOwn, hcase]
      rfl
  | madeAgent =>
      by_cases hbus : st.recorderBus = true
      · refine h.helps_locks (by rw [hcase]; rfl) fun hmu => ?_
        have hnew := hok.chans_none (hok.unsub_of_unmade (by rw [hcase]; rfl))
        refine helps_own (a := .subscribe i) hi rfl rfl ?_
        rw [stepOwn, if_pos ⟨hcase, hbus⟩, EventBus.step, h.bus.running,
          if_neg Bool.false_ne_true]
        dsimp only
        rw [hmu, hnew]
        rfl
      · refine helps_own (a := .store i) hi rfl rfl ?_
        rw [stepOwn, if_pos (.inr ⟨hcase, hbus⟩)]
        rfl
  | subscribed =>
      refine helps_own (a := .createEvents i true) hi rfl rfl ?_
      rw [stepOwn, if_pos hcase]
      rfl
  | begun =>
      refine helps_own (a := .store i) hi rfl rfl ?_
      rw [stepOwn, if_pos (.inl hcase)]
      rfl
  | serving =>
      refine helps_own (a := .serve i) hi rfl rfl ?_
      rw [stepOwn, if_pos hcase]
      rfl
  | ended =>
      refine helps_own (a := .finish i) hi rfl rfl ?_
      rw [stepOwn, if_pos hcase]
      rfl
  | leaving =>
      refine h.helps_locks (by rw [hcase]; rfl) fun hmu => ?_
      have hin : i ∈ s.bus.subs := hok.holds (hok.leaves (.inl hcase))
        (by rw [hcase]; rfl : _ = Kind.subscribed)
      obtain ⟨sub, hsub, -⟩ := h.bus.subs_open i hin
      refine helps_own (a := .unsubscribe i) hi rfl rfl ?_
      rw [stepOwn, if_pos hcase, EventBus.step, h.bus.running, if_neg Bool.false_ne_true]
      rw [hmu, hsub]
      rfl
  | unsubscribing =>
      have hmu : s.bus.mu = .unsubscribing i := hok.holds (hok.leaves (.inr (.inl hcase)))
        (by rw [hcase]; rfl : _ = Kind.closing)
      exact h.helps_locks (by rw [hcase]; rfl) fun hfree => by
        cases hmu.symm.trans hfree
  | waiting => exact h.helps_waiting hi hcase
  | finalizing =>
      refine helps_own (a := .finalize i) hi rfl rfl ?_
      rw [stepOwn, if_pos hcase]
      rfl
  | finished =>
      exact h.helps_publish hi (by rw [hcase]; rfl) (by rw [hcase]; rfl) (by rw [hcase]; rfl)
  | finishReturned =>
      exact h.helps_publish hi (by rw [hcase]; rfl) (by rw [hcase]; rfl) (by rw [hcase]; rfl)
  | completing | ending =>
      -- it holds `mu` itself
      have hown := hok.publishes.mp (by rw [hcase]; rfl)
      obtain ⟨-, e, todo, hmu⟩ := h.publisher i hown
      exact h.helps_locks (by rw [hcase]; rfl) fun hfree => by
        cases hmu.symm.trans hfree
  | returned => exact absurd hcase hpc

/-- A channel that is closed changes only where its subscriber receives. -/
theorem chans_eq_of_effect {b b' : EventBus.State Event} {act : EventBus.Act Event}
    {sub : EventBus.Subscription Event} (heff : EventBus.Effect b act b')
    (hsub : b.chans i = some sub) (hclosed : sub.closed = true)
    (hreceive : act ≠ .receive i) (hgiveUp : act ≠ .giveUp i) : b'.chans i = some sub := by
  have hset : ∀ j x x', b.chans j = some x → (j = i → x.closed = false) →
      (b.setChan j x').chans i = some sub := by
    intro j x x' hx hopen
    have hij : i ≠ j := by
      rintro rfl
      obtain rfl := Option.some.inj (hsub.symm.trans hx)
      exact nomatch hclosed.symm.trans (hopen rfl)
    exact (EventBus.chans_setChan_of_ne b x' hij).trans hsub
  cases heff with
  | subscribe j buf hmu hnew =>
      have hij : i ≠ j := fun hij => by
        rw [← hij, hsub] at hnew
        exact nomatch hnew
      exact (EventBus.chans_setChan_of_ne b _ hij).trans hsub
  | offer j e todo x hmu hj hx hopen => exact hset j x _ hx fun _ => hopen
  | close j x hmu hx hopen => exact hset j x _ hx fun _ => hopen
  | receive j x x' hx hrecv =>
      have hij : i ≠ j := fun hij => hreceive (hij ▸ rfl)
      exact (EventBus.chans_setChan_of_ne b x' hij).trans hsub
  | giveUp j x hx hwait =>
      have hij : i ≠ j := fun hij => hgiveUp (hij ▸ rfl)
      exact (EventBus.chans_setChan_of_ne b _ hij).trans hsub
  | publish e hmu => exact hsub
  | published e hmu => exact hsub
  | unsubscribe j x hmu hx => exact hsub
  | sendClosed j e todo x hmu hj hx hclosed' => exact hsub
  | closeClosed j x hmu hx hclosed' => exact hsub

/-- What a step of a session does to the bus: a receive is one of its `captureEvents`. -/
theorem Move.bus {a : Act} (h : Move st s i a s') : s'.bus = s.bus ∨
    ∃ act, EventBus.Effect s.bus act s'.bus ∧ (∀ k, act ≠ .giveUp k) ∧
      (∀ k, act = .receive k → k = i ∧ a = .receive i) := by
  cases h with
  | subscribe b hpc hb =>
      exact .inr ⟨_, (EventBus.effect_of_step hb).2, (fun _ ha => nomatch ha),
        (fun _ ha => nomatch ha)⟩
  | unsubscribe b hpc hb =>
      exact .inr ⟨_, (EventBus.effect_of_step hb).2, (fun _ ha => nomatch ha),
        (fun _ ha => nomatch ha)⟩
  | close b hpc hb =>
      exact .inr ⟨_, (EventBus.effect_of_step hb).2, (fun _ ha => nomatch ha),
        (fun _ ha => nomatch ha)⟩
  | publish e pc b hpc hb =>
      exact .inr ⟨_, (EventBus.effect_of_step hb).2, (fun _ ha => nomatch ha),
        (fun _ ha => nomatch ha)⟩
  | published pc b hown hpc hb =>
      exact .inr ⟨_, (EventBus.effect_of_step hb).2, (fun _ ha => nomatch ha),
        (fun _ ha => nomatch ha)⟩
  | receive sub b hsub hcapturing hrange hall hb =>
      refine .inr ⟨_, (EventBus.effect_of_step hb).2, (fun _ ha => nomatch ha), fun k ha => ?_⟩
      cases ha
      exact ⟨rfl, rfl⟩
  | _ => exact .inl rfl

theorem undrained_eq {sub : EventBus.Subscription Event} (hsub : s.bus.chans i = some sub) :
    s.undrained i = 2 * sub.chan.buf.length + (sub.received.length - (s.session i).handled) +
      (if (s.session i).eventsDone then 0 else 1) := by
  rw [State.undrained, hsub]

/-- A receive from a closed channel that holds something. -/
theorem receive_closed {sub sub' : EventBus.Subscription Event}
    (hrecv : sub.receive = some sub') (hbuf : sub.chan.buf ≠ []) :
    sub'.chan.buf.length + 1 = sub.chan.buf.length ∧
      sub'.received.length = sub.received.length + 1 := by
  unfold EventBus.Subscription.receive at hrecv
  split at hrecv
  · exact nomatch hrecv
  · split at hrecv
    · rename_i e ch hch
      cases hrecv
      rw [Chan.tryRecv_eq_some.mp hch]
      exact ⟨rfl, List.length_append⟩
    · rename_i hnone
      exact absurd (Chan.tryRecv_eq_none.mp hnone) hbuf

/-- A session that waits goes on when `captureEvents` has ended; else it is
    `captureEvents` that does something. -/
theorem Move.of_waiting {a : Act} (h : Move st s i a s') (hpc : (s.session i).pc = .waiting) :
    (a = .eventsDone i ∧ (s.session i).eventsDone = true ∧ s' = s.goTo i .finalizing) ∨
      ((s.session i).capturing = true ∧ ∃ sub, s.bus.chans i = some sub ∧
        ((∃ b, (sub.chan.buf ≠ [] ∨ sub.closed = false) ∧
            EventBus.step s.bus (.receive i) = some b ∧ s' = s.setBus b) ∨
          ((s.session i).handled < sub.received.length ∧
            s' = s.set i { s.session i with handled := (s.session i).handled + 1 }) ∨
          ((s.session i).eventsDone = false ∧
            s' = s.set i { s.session i with eventsDone := true }))) := by
  cases h with
  | eventsDone hpc' hdone => exact .inl ⟨rfl, hdone, rfl⟩
  | receive sub b hsub hcapturing hrange hall hb =>
      exact .inr ⟨hcapturing, sub, hsub, .inl ⟨b, hrange, hb, rfl⟩⟩
  | capture sub hsub hcapturing hlt =>
      exact .inr ⟨hcapturing, sub, hsub, .inr (.inl ⟨hlt, rfl⟩)⟩
  | drained sub hsub hcapturing hopen =>
      exact .inr ⟨hcapturing, sub, hsub, .inr (.inr ⟨hopen, rfl⟩)⟩
  | make ok pc hfrom => exact nomatch (hpc ▸ hfrom : madeNext ok .waiting = some pc)
  | subscribe b hfrom hb => exact nomatch hpc.symm.trans hfrom
  | createEvents ok hfrom => exact nomatch hpc.symm.trans hfrom
  | store hfrom => rcases hfrom with hfrom | hfrom <;> exact nomatch hpc.symm.trans hfrom
  | serve hfrom => exact nomatch hpc.symm.trans hfrom
  | finish hfrom => exact nomatch hpc.symm.trans hfrom
  | unsubscribe b hfrom hb => exact nomatch hpc.symm.trans hfrom
  | close b hfrom hb => exact nomatch hpc.symm.trans hfrom
  | finalize hfrom => exact nomatch hpc.symm.trans hfrom
  | publish e pc b hfrom hb =>
      exact nomatch (hpc ▸ hfrom : publishNext st .waiting = some (true, pc))
  | goOn pc pc' hfrom hnext =>
      exact nomatch (hpc ▸ hfrom : publishNext st .waiting = some (false, pc'))
  | published pc b hown hfrom hb => exact absurd hpc (publishedNext_cases hfrom).2.1

/-- While a session waits its channel only drains. -/
theorem Inv.drains (h : Inv st s) (hi : st.session i = true) (hpc : (s.session i).pc = .waiting)
    {a : Act} (hstep : step st s a = some s') :
    s'.undrained i ≤ s.undrained i ∧ (a.captures = some i → s'.undrained i < s.undrained i) := by
  have hok := h.sessions i hi
  obtain ⟨sub, hsub, hclosed, -⟩ : ClosedChan s.bus i :=
    hok.holds (hok.leaves (.inr (.inr hpc))) (by rw [hpc]; rfl : _ = Kind.closed)
  -- a step that is not its own leaves the channel and the count
  have hsame : s'.bus.chans i = some sub → s'.session i = s.session i →
      s'.undrained i ≤ s.undrained i := by
    intro hchans hsession
    rw [undrained_eq hchans, undrained_eq hsub, hsession]
  rcases step_cases hstep with ⟨act, b, rfl, helse, hb, rfl⟩ | ⟨j, hj, hmove⟩
  · obtain ⟨-, heff⟩ := EventBus.effect_of_step hb
    refine ⟨hsame (chans_eq_of_effect heff hsub hclosed ?_ ?_) rfl, fun hno => by cases hno⟩
    · rintro rfl
      rw [elsewhere, hi] at helse
      cases helse
    · rintro rfl
      rw [elsewhere, hi] at helse
      cases helse
  · by_cases hij : i = j
    · subst hij
      have hset : ∀ x, (s.set i x).undrained i = 2 * sub.chan.buf.length +
          (sub.received.length - x.handled) + (if x.eventsDone then 0 else 1) := by
        intro x
        rw [undrained_eq (s := s.set i x) hsub, session_set_self]
      have hle := hok.handled sub hsub
      rcases hmove.of_waiting hpc with ⟨rfl, -, rfl⟩ | ⟨-, x, hx, hcaptures⟩
      · refine ⟨?_, fun hno => by cases hno⟩
        show (s.set i _).undrained i ≤ _
        rw [hset, undrained_eq hsub]
      · obtain rfl := Option.some.inj (hsub.symm.trans hx)
        rcases hcaptures with ⟨b, hrange, hb, rfl⟩ | ⟨hlt, rfl⟩ | ⟨hopen, rfl⟩
        · have hbuf : sub.chan.buf ≠ [] := by
            rcases hrange with hbuf | hopen
            · exact hbuf
            · exact Bool.noConfusion (hopen.symm.trans hclosed)
          obtain ⟨-, heff⟩ := EventBus.effect_of_step hb
          cases heff with
          | receive k y y' hy hrecv =>
              obtain rfl := Option.some.inj (hsub.symm.trans hy)
              obtain ⟨hshort, hlong⟩ := receive_closed hrecv hbuf
              have hlt : (s.setBus (s.bus.setChan i y')).undrained i < s.undrained i := by
                rw [undrained_eq (EventBus.chans_setChan_self s.bus i y'), undrained_eq hsub]
                show 2 * y'.chan.buf.length + (y'.received.length - (s.session i).handled) +
                  (if (s.session i).eventsDone = true then 0 else 1) < _
                omega
              exact ⟨Nat.le_of_lt hlt, fun _ => hlt⟩
        · rw [hset, undrained_eq hsub]
          exact ⟨by dsimp only; omega, fun _ => by dsimp only; omega⟩
        · rw [hset, undrained_eq hsub, hopen, if_neg Bool.false_ne_true]
          exact ⟨Nat.le_succ _, fun _ => Nat.lt_succ_self _⟩
    · refine ⟨hsame ?_ (hmove.others hij), fun hyes => ?_⟩
      · rcases hmove.bus with hbus | ⟨act, heff, hgiveUp, hreceive⟩
        · rw [hbus]
          exact hsub
        · exact chans_eq_of_effect heff hsub hclosed
            (fun ha => hij (hreceive i ha).1) (hgiveUp i)
      · rcases hmove.ahead with ⟨-, hc, -⟩ | ⟨-, hc, -⟩
        · cases hyes.symm.trans hc
        · exact absurd (Option.some.inj (hyes.symm.trans hc)) hij

/-- What a step of the bus does to a lock that is held. -/
theorem held_of_effect {b b' : EventBus.State Event} {act : EventBus.Act Event}
    (heff : EventBus.Effect b act b') (hinv : EventBus.Inv b) (hmu : b.mu ≠ .free) :
    held b'.mu ≤ held b.mu ∧
      ((Act.bus act).releases = true → held b'.mu < held b.mu) := by
  have hsame : ∀ b₁ : EventBus.State Event, b₁.mu = b.mu → (Act.bus act).releases = false →
      held b₁.mu ≤ held b.mu ∧ ((Act.bus act).releases = true → held b₁.mu < held b.mu) :=
    fun b₁ h₁ hno => ⟨by rw [h₁], fun hyes => nomatch hno.symm.trans hyes⟩
  have hless : ∀ b₁ : EventBus.State Event, held b₁.mu < held b.mu →
      held b₁.mu ≤ held b.mu ∧ ((Act.bus act).releases = true → held b₁.mu < held b.mu) :=
    fun b₁ h₁ => ⟨Nat.le_of_lt h₁, fun _ => h₁⟩
  cases heff with
  | subscribe j buf hfree hnew => exact absurd hfree hmu
  | publish e hfree => exact absurd hfree hmu
  | unsubscribe j x hfree hx => exact absurd hfree hmu
  | offer j e todo x hpub hj hx hopen =>
      refine hless _ ?_
      have hshort : (todo.filter (· ≠ j)).length < todo.length :=
        List.length_filter_lt_length_iff_exists.mpr ⟨j, hj, by simp⟩
      rw [hpub]
      exact Nat.succ_lt_succ hshort
  | close j x hpub hx hopen =>
      refine hless _ ?_
      rw [hpub]
      exact Nat.zero_lt_one
  | published e hpub =>
      refine hless _ ?_
      rw [hpub]
      exact Nat.zero_lt_one
  | receive j x x' hx hrecv => exact hsame _ rfl rfl
  | giveUp j x hx hwait => exact hsame _ rfl rfl
  | sendClosed j e todo x hpub hj hx hclosed =>
      have hopen := EventBus.closed_of_open (hinv.subs_open j (hinv.todo_subs e todo hpub j hj)) hx
      exact nomatch hopen.symm.trans hclosed
  | closeClosed j x hpub hx hclosed =>
      exact nomatch (EventBus.closed_of_open (hinv.closing j hpub).2 hx).symm.trans hclosed

theorem Inv.releases (h : Inv st s) (hmu : s.bus.mu ≠ .free) {a : Act}
    (hstep : step st s a = some s') :
    held s'.bus.mu ≤ held s.bus.mu ∧ (a.releases = true → held s'.bus.mu < held s.bus.mu) := by
  have heffect : ∀ (act : EventBus.Act Event) (b : EventBus.State Event),
      EventBus.step s.bus act = some b → held b.mu ≤ held s.bus.mu ∧
        ((Act.bus act).releases = true → held b.mu < held s.bus.mu) :=
    fun act b hb => held_of_effect (EventBus.effect_of_step hb).2 h.bus hmu
  rcases step_cases hstep with ⟨act, b, rfl, helse, hb, rfl⟩ | ⟨j, hj, hmove⟩
  · exact heffect act b hb
  · cases hmove with
    | subscribe b hpc hb => exact ⟨(heffect _ b hb).1, fun hno => nomatch hno⟩
    | unsubscribe b hpc hb => exact ⟨(heffect _ b hb).1, fun hno => nomatch hno⟩
    | publish e pc b hpc hb => exact ⟨(heffect _ b hb).1, fun hno => nomatch hno⟩
    | receive sub b hsub hcapturing hrange hall hb => exact ⟨(heffect _ b hb).1, fun hno => nomatch hno⟩
    | close b hpc hb => exact heffect _ b hb
    | published pc b hown hpc hb => exact heffect _ b hb
    | _ => exact ⟨Nat.le_refl _, fun hno => nomatch hno⟩

theorem Inv.completes (h : Inv st s) : Completes st s where
  waits i hi hpc := by
    have hok := h.sessions i hi
    have hunsub := hok.leaves (.inr (.inr hpc))
    obtain ⟨sub, hsub, hclosed, -⟩ : ClosedChan s.bus i :=
      hok.holds hunsub (by rw [hpc]; rfl : _ = Kind.closed)
    exact ⟨hok.capturing hunsub (by rw [hpc]; decide), sub, hsub, hclosed⟩
  notStuck i hi hpc := h.notStuck hi hpc
  nearer i a s' _ hstep := nearer_of_step hstep
  drains i a s' hi hpc hstep := h.drains hi hpc hstep
  releases a s' hmu hstep := h.releases hmu hstep

end Progress

-- ============================================================================
-- Finish
-- ============================================================================

/-- **Finish completes in every run in which events.jsonl can be created.**  Any
    sessions, any outcomes of the other file operations, any subscribers and
    publishers. -/
theorem finish_completes (st : Setting) (as : List Act)
    (hguard : (machine st).Guarded EventsMade initial as) :
    (machine st).Always (Completes st) initial as :=
  (Machine.always_of_guarded (fun _ _ _ h hg hstep => inv_step h hg hstep) hguard
    (inv_initial st)).mono fun _ h => h.completes

/-- A recorder and a server with a bus, and one session. -/
def oneSession : Setting := ⟨fun i => i = 0, true, true⟩

/-- A session that records, up to the end of `OnEnd`. -/
def recorded (eventsMade : Bool) : List Act :=
  [.make 0 true, .make 0 true, .make 0 true, .subscribe 0, .createEvents 0 eventsMade, .store 0,
    .serve 0]

/-- `Finish`, up to its wait. -/
def upToWait : List Act := [.finish 0, .unsubscribe 0, .close 0]

theorem finish_completes_whole :
    (machine oneSession).Always (Completes oneSession) initial
      (recorded true ++ upToWait ++ [.drained 0, .eventsDone 0, .finalize 0]) :=
  finish_completes oneSession (recorded true ++ upToWait ++ [.drained 0, .eventsDone 0,
    .finalize 0]) (by decide)

/-- Nobody ends the wait for a `captureEvents` that was not started. -/
theorem waits_forever {st : Setting} {s t : State} {i : Nat} {as : List Act}
    (hrun : (machine st).run s as = some t) (hpc : (s.session i).pc = .waiting)
    (hcapturing : (s.session i).capturing = false) (hdone : (s.session i).eventsDone = false) :
    (t.session i).pc = .waiting := by
  have hstep : ∀ (s : State) (a : Act) (s' : State),
      ((s.session i).pc = .waiting ∧ (s.session i).capturing = false ∧
        (s.session i).eventsDone = false) → step st s a = some s' →
      (s'.session i).pc = .waiting ∧ (s'.session i).capturing = false ∧
        (s'.session i).eventsDone = false := by
    rintro s a s' ⟨hpc, hcapturing, hdone⟩ hstep
    rcases step_cases hstep with ⟨act, b, rfl, helse, hb, rfl⟩ | ⟨j, hj, hmove⟩
    · exact ⟨hpc, hcapturing, hdone⟩
    · by_cases hij : i = j
      · subst hij
        rcases hmove.of_waiting hpc with ⟨-, hyes, -⟩ | ⟨hyes, -⟩
        · exact nomatch hdone.symm.trans hyes
        · exact nomatch hcapturing.symm.trans hyes
      · rw [hmove.others hij]
        exact ⟨hpc, hcapturing, hdone⟩
  exact (Machine.run_invariant (M := machine st) (I := fun s => (s.session i).pc = .waiting ∧
    (s.session i).capturing = false ∧ (s.session i).eventsDone = false) hstep hrun
    ⟨hpc, hcapturing, hdone⟩).1

/-- events.jsonl cannot be created: `Finish` waits, nothing started will close
    `eventsDone`, and no schedule gets the session any further. -/
theorem missing_events_blocks :
    ∃ s, (machine oneSession).run initial (recorded false ++ upToWait) = some s ∧
      (s.session 0).pc = .waiting ∧ (s.session 0).capturing = false ∧
      ¬ Completes oneSession s ∧
      ∀ as t, (machine oneSession).run s as = some t → (t.session 0).pc = .waiting := by
  obtain ⟨s, hs⟩ : ∃ s, (machine oneSession).run initial (recorded false ++ upToWait) = some s :=
    ⟨_, rfl⟩
  have hsession : s.session 0 = ⟨.waiting, true, false, false, 0, false⟩ := by
    cases hs
    rfl
  have hpc : (s.session 0).pc = .waiting := by rw [hsession]
  have hcapturing : (s.session 0).capturing = false := by rw [hsession]
  have hdone : (s.session 0).eventsDone = false := by rw [hsession]
  refine ⟨s, hs, hpc, hcapturing, fun h => ?_, fun as t hrun =>
    waits_forever hrun hpc hcapturing hdone⟩
  exact nomatch hcapturing.symm.trans (h.waits 0 rfl hpc).1

end FsBridge.Bridge.FinishWait
