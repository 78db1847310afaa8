/-
  FsBridge.Bridge.FinishInvariant

  What every step of the sessions and of the bus keeps: each session's place says
  what has become of its subscription (`ChanOk`), and a session that has gone past
  events.jsonl has its `captureEvents`.

  The steps of the others on the bus touch no channel of a session (`Apart`); each
  step of a session has a lemma of its own.
-/

import FsBridge.Bridge.FinishWait

namespace FsBridge.Bridge.FinishWait

open FsBridge.Lib

-- ============================================================================
-- The bus under a session
-- ============================================================================

/-- The step of the bus is none that makes, leaves or closes the channel `i`. -/
structure Apart (b : EventBus.State Event) (act : EventBus.Act Event) (i : Nat) : Prop where
  subscribe : ∀ buf, act ≠ .subscribe i buf
  unsubscribe : act ≠ .unsubscribe i
  close : act = .close → b.mu ≠ .unsubscribing i

/-- The channel is closed, and nobody is blocked on it. -/
def ClosedChan (b : EventBus.State Event) (i : Nat) : Prop :=
  ∃ sub, b.chans i = some sub ∧ sub.closed = true ∧ sub.waiting = false

section Bus

variable {b b' : EventBus.State Event} {act : EventBus.Act Event} {i : Nat}

/-- Only `Subscribe` makes a channel. -/
theorem chans_none_of_effect (heff : EventBus.Effect b act b')
    (hsubscribe : ∀ buf, act ≠ .subscribe i buf) (h : b.chans i = none) : b'.chans i = none := by
  have hset : ∀ j x x', b.chans j = some x → (b.setChan j x').chans i = none := by
    intro j x x' hx
    have hij : i ≠ j := fun hij => by
      rw [hij, hx] at h
      exact nomatch h
    exact (EventBus.chans_setChan_of_ne b x' hij).trans h
  cases heff with
  | subscribe j buf hmu hnew =>
      have hij : i ≠ j := fun hij => hsubscribe buf (hij ▸ rfl)
      exact (EventBus.chans_setChan_of_ne b _ hij).trans h
  | offer j e todo x hmu hj hx hopen => exact hset j x _ hx
  | close j x hmu hx hopen => exact hset j x _ hx
  | receive j x x' hx hrecv => exact hset j x x' hx
  | giveUp j x hx hwait => exact hset j x _ hx
  | publish e hmu => exact h
  | published e hmu => exact h
  | unsubscribe j x hmu hx => exact h
  | sendClosed j e todo x hmu hj hx hclosed => exact h
  | closeClosed j x hmu hx hclosed => exact h

/-- An unsubscribe function keeps `mu` until it has closed its channel. -/
theorem mu_unsubscribing_of_effect (heff : EventBus.Effect b act b') (hclose : act ≠ .close)
    (h : b.mu = .unsubscribing i) : b'.mu = .unsubscribing i := by
  cases heff with
  | subscribe j buf hmu hnew => exact nomatch h.symm.trans hmu
  | offer j e todo x hmu hj hx hopen => exact nomatch h.symm.trans hmu
  | close j x hmu hx hopen => exact absurd rfl hclose
  | publish e hmu => exact nomatch h.symm.trans hmu
  | published e hmu => exact nomatch h.symm.trans hmu
  | unsubscribe j x hmu hx => exact nomatch h.symm.trans hmu
  | receive j x x' hx hrecv => exact h
  | giveUp j x hx hwait => exact h
  | sendClosed j e todo x hmu hj hx hclosed => exact h
  | closeClosed j x hmu hx hclosed => exact absurd rfl hclose

/-- Only an unsubscribe function takes `mu` to close its channel. -/
theorem unsubscribing_of_effect (heff : EventBus.Effect b act b')
    (hunsubscribe : act ≠ .unsubscribe i) (h : b'.mu = .unsubscribing i) :
    b.mu = .unsubscribing i := by
  cases heff with
  | unsubscribe j x hmu hx =>
      obtain rfl : j = i := by
        cases h
        rfl
      exact absurd rfl hunsubscribe
  | subscribe j buf hmu hnew => exact h
  | offer j e todo x hmu hj hx hopen => exact nomatch h
  | close j x hmu hx hopen => exact nomatch h
  | publish e hmu => exact nomatch h
  | published e hmu => exact nomatch h
  | receive j x x' hx hrecv => exact h
  | giveUp j x hx hwait => exact h
  | sendClosed j e todo x hmu hj hx hclosed => exact h
  | closeClosed j x hmu hx hclosed => exact h

/-- A closed channel stays closed, and a receive on it does not block. -/
theorem closedChan_of_effect (heff : EventBus.Effect b act b') (hinv : EventBus.Inv b)
    (h : ClosedChan b i) : ClosedChan b' i := by
  obtain ⟨sub, hsub, hclosed, hwait⟩ := h
  have hnot : ¬ b.Open i := fun hopen => by
    have hno := EventBus.closed_of_open hopen hsub
    exact nomatch hno.symm.trans hclosed
  have hset : ∀ j x x', b.chans j = some x →
      (j = i → x.closed = true → x.waiting = false → x'.closed = true ∧ x'.waiting = false) →
      ClosedChan (b.setChan j x') i := by
    intro j x x' hx hkeep
    by_cases hij : i = j
    · subst hij
      obtain rfl : x = sub := Option.some.inj (hx.symm.trans hsub)
      exact ⟨x', EventBus.chans_setChan_self b i x', hkeep rfl hclosed hwait⟩
    · exact ⟨sub, (EventBus.chans_setChan_of_ne b x' hij).trans hsub, hclosed, hwait⟩
  have hsame : ∀ b₁ : EventBus.State Event, b₁.chans i = some sub → ClosedChan b₁ i :=
    fun b₁ h₁ => ⟨sub, h₁, hclosed, hwait⟩
  cases heff with
  | subscribe j buf hmu hnew =>
      have hij : i ≠ j := fun hij => by
        rw [← hij, hsub] at hnew
        exact nomatch hnew
      exact hsame _ ((EventBus.chans_setChan_of_ne b _ hij).trans hsub)
  | offer j e todo x hmu hj hx hopen =>
      refine hset j x _ hx fun _ hx' => ?_
      exact nomatch hx'.symm.trans hopen
  | close j x hmu hx hopen => exact hset j x _ hx fun _ hx' => nomatch hx'.symm.trans hopen
  | receive j x x' hx hrecv =>
      refine hset j x x' hx fun _ hx' hw => ?_
      obtain ⟨-, hkept, -⟩ := EventBus.Subscription.receive_spec hrecv
      refine ⟨hkept.trans hx', ?_⟩
      unfold EventBus.Subscription.receive at hrecv
      rw [hw, hx'] at hrecv
      split at hrecv
      · exact nomatch hrecv
      · split at hrecv
        · cases hrecv
          rfl
        · cases hrecv
          exact hw
  | giveUp j x hx hwait' => exact hset j x _ hx fun _ hx' _ => ⟨hx', rfl⟩
  | publish e hmu => exact hsame _ hsub
  | published e hmu => exact hsame _ hsub
  | unsubscribe j x hmu hx => exact hsame _ hsub
  | sendClosed j e todo x hmu hj hx hclosed' =>
      exact absurd (hinv.subs_open j (hinv.todo_subs e todo hmu j hj)) fun hopen => by
        exact nomatch (EventBus.closed_of_open hopen hx).symm.trans hclosed'
  | closeClosed j x hmu hx hclosed' => exact hsame _ hsub

end Bus

-- ============================================================================
-- The invariant
-- ============================================================================

/-- What has become of a subscription. -/
inductive Kind where
  | unmade
  | subscribed
  | closing
  | closed
deriving DecidableEq, Repr

/-- What has become, at a place, of the subscription of a session that has one. -/
def Pc.kind : Pc → Kind
  | .accepted | .madeDir | .madeCaller | .madeAgent => .unmade
  | .subscribed | .begun | .serving | .ended | .leaving => .subscribed
  | .unsubscribing => .closing
  | .waiting | .finalizing | .finished | .completing | .finishReturned | .ending
  | .returned => .closed

/-- The goroutine is inside `Publish`. -/
def Pc.publishes : Pc → Bool
  | .completing | .ending => true
  | _ => false

/-- The subscription `i` is of the kind. -/
def Kind.Holds (b : EventBus.State Event) (i : Nat) : Kind → Prop
  | .unmade => False
  | .subscribed => i ∈ b.subs
  | .closing => b.mu = .unsubscribing i
  | .closed => ClosedChan b i

/-- The channel of a session, by where the session is. -/
def ChanOk (b : EventBus.State Event) (x : Session) (i : Nat) : Prop :=
  if x.unsub = true then x.pc.kind.Holds b i else b.chans i = none

/-- What holds of a session, whose subscription has the number `i`. -/
structure SessionOk (b : EventBus.State Event) (publisher : Option Nat) (x : Session) (i : Nat) :
    Prop where
  chan : ChanOk b x i
  handled : ∀ sub, b.chans i = some sub → x.handled ≤ sub.received.length
  fresh : x.unsub = false → x.handled = 0
  capturing : x.unsub = true → x.pc ≠ .subscribed → x.capturing = true
  stored : x.unsub = true → x.pc = .serving ∨ x.pc = .ended → x.stored = true
  leaves : x.pc = .leaving ∨ x.pc = .unsubscribing ∨ x.pc = .waiting → x.unsub = true
  publishes : x.pc.publishes = true ↔ publisher = some i
  closes : b.mu = .unsubscribing i → x.pc = .unsubscribing

structure Inv (st : Setting) (s : State) : Prop where
  bus : EventBus.Inv s.bus
  sessions : ∀ i, st.session i = true → SessionOk s.bus s.publisher (s.session i) i
  publisher : ∀ i, s.publisher = some i → st.session i = true ∧
    ∃ e todo, s.bus.mu = .publishing e todo

theorem inv_initial (st : Setting) : Inv st initial where
  bus := EventBus.inv_initial
  sessions _ _ := ⟨rfl, (fun _ h => nomatch h), fun _ => rfl, (fun h => nomatch h),
    (fun h => nomatch h), (fun h => nomatch h), ⟨(fun h => nomatch h), (fun h => nomatch h)⟩,
    (fun h => nomatch h)⟩
  publisher _ h := nomatch h

section Frame

variable {b b' : EventBus.State Event} {publisher publisher' : Option Nat} {x : Session} {i : Nat}

/-- The bus has moved without touching the channel `i`. -/
def BusApart (b b' : EventBus.State Event) (i : Nat) : Prop :=
  b' = b ∨ ∃ act, EventBus.Effect b act b' ∧ Apart b act i

theorem ChanOk.busApart (h : ChanOk b x i) (hinv : EventBus.Inv b) (hbus : BusApart b b' i) :
    ChanOk b' x i := by
  rcases hbus with rfl | ⟨act, heff, hapart⟩
  · exact h
  · unfold ChanOk at h ⊢
    split at h
    · rename_i hunsub
      rw [if_pos hunsub]
      cases hkind : x.pc.kind with
      | unmade =>
          rw [hkind] at h
          exact h
      | subscribed =>
          rw [hkind] at h
          exact (heff.mem_subs hapart.subscribe hapart.unsubscribe).mpr h
      | closing =>
          rw [hkind] at h
          exact mu_unsubscribing_of_effect heff (fun hclose => hapart.close hclose h) h
      | closed =>
          rw [hkind] at h
          exact closedChan_of_effect heff hinv h
    · rename_i hunsub
      rw [if_neg hunsub]
      exact chans_none_of_effect heff hapart.subscribe h

/-- The count of handled events stays one of received events. -/
theorem handled_busApart {n : Nat} (hinv : EventBus.Inv b) (hbus : BusApart b b' i)
    (h : ∀ sub, b.chans i = some sub → n ≤ sub.received.length) :
    ∀ sub, b'.chans i = some sub → n ≤ sub.received.length := by
  rcases hbus with rfl | ⟨act, heff, hapart⟩
  · exact h
  · intro sub' hsub'
    cases hsub : b.chans i with
    | none =>
        rw [chans_none_of_effect heff hapart.subscribe hsub] at hsub'
        exact nomatch hsub'
    | some sub =>
        obtain ⟨y, hy, hle, -⟩ := heff.received hinv hsub
        obtain rfl : y = sub' := Option.some.inj (hy.symm.trans hsub')
        exact Nat.le_trans (h sub hsub) hle.length_le

/-- A session that does not move itself. -/
theorem SessionOk.frame (h : SessionOk b publisher x i) (hinv : EventBus.Inv b)
    (hbus : BusApart b b' i) (hpublisher : publisher' = some i ↔ publisher = some i) :
    SessionOk b' publisher' x i where
  chan := h.chan.busApart hinv hbus
  handled := handled_busApart hinv hbus h.handled
  fresh := h.fresh
  capturing := h.capturing
  stored := h.stored
  leaves := h.leaves
  publishes := h.publishes.trans hpublisher.symm
  closes hmu := by
    rcases hbus with rfl | ⟨act, heff, hapart⟩
    · exact h.closes hmu
    · exact h.closes (unsubscribing_of_effect heff hapart.unsubscribe hmu)

/-- A session in `Begin`, up to `Subscribe`, has no channel. -/
theorem SessionOk.unsub_of_unmade (h : SessionOk b publisher x i) (hkind : x.pc.kind = .unmade) :
    x.unsub = false := by
  have hchan := h.chan
  unfold ChanOk at hchan
  split at hchan
  · rw [hkind] at hchan
    exact hchan.elim
  · rename_i hunsub
    simpa using hunsub

theorem SessionOk.chans_none (h : SessionOk b publisher x i) (hunsub : x.unsub = false) :
    b.chans i = none := by
  have hchan := h.chan
  rw [ChanOk, hunsub, if_neg Bool.false_ne_true] at hchan
  exact hchan

/-- The channel of a session that has one is as its place says. -/
theorem SessionOk.holds (h : SessionOk b publisher x i) (hunsub : x.unsub = true) {kind : Kind}
    (hkind : x.pc.kind = kind) : kind.Holds b i := by
  have hchan := h.chan
  rw [ChanOk, if_pos hunsub, hkind] at hchan
  exact hchan

/-- The goroutine goes to a place where its channel is the same. -/
theorem SessionOk.goTo (h : SessionOk b publisher x i) {pc : Pc}
    (hkind : x.unsub = true → pc.kind = x.pc.kind ∧ x.pc ≠ .subscribed ∧
      (pc = .serving ∨ pc = .ended → x.pc = .serving ∨ x.pc = .ended))
    (hleaves : pc ≠ .leaving ∧ pc ≠ .unsubscribing ∧ pc ≠ .waiting)
    (hpublishes : pc.publishes = false ∧ x.pc.publishes = false)
    (hcloses : x.pc ≠ .unsubscribing) : SessionOk b publisher { x with pc := pc } i where
  chan := by
    have hchan := h.chan
    unfold ChanOk at hchan ⊢
    dsimp only
    by_cases hunsub : x.unsub = true
    · rw [if_pos hunsub] at hchan ⊢
      rw [(hkind hunsub).1]
      exact hchan
    · rw [if_neg hunsub] at hchan ⊢
      exact hchan
  handled := h.handled
  fresh := h.fresh
  capturing hunsub _ := h.capturing hunsub (hkind hunsub).2.1
  stored hunsub hpc := h.stored hunsub ((hkind hunsub).2.2 hpc)
  leaves := by
    rintro (hpc | hpc | hpc)
    · exact absurd hpc hleaves.1
    · exact absurd hpc hleaves.2.1
    · exact absurd hpc hleaves.2.2
  publishes := by
    rw [← h.publishes, hpublishes.1, hpublishes.2]
  closes hmu := absurd (h.closes hmu) hcloses

end Frame

-- ============================================================================
-- The steps
-- ============================================================================

section Bus

variable {st : Setting} {s : State}

/-- A publisher keeps `mu` until it returns. -/
theorem publishing_of_effect {b b' : EventBus.State Event} {act : EventBus.Act Event}
    (heff : EventBus.Effect b act b') (hact : act ≠ .published)
    (h : ∃ e todo, b.mu = .publishing e todo) : ∃ e todo, b'.mu = .publishing e todo := by
  obtain ⟨e, todo, hmu⟩ := h
  cases heff with
  | subscribe j buf hfree hnew => exact nomatch hmu.symm.trans hfree
  | offer j e' todo' x hmu' hj hx hopen => exact ⟨e', _, rfl⟩
  | close j x hmu' hx hopen => exact nomatch hmu.symm.trans hmu'
  | publish e' hfree => exact nomatch hmu.symm.trans hfree
  | published e' hmu' => exact absurd rfl hact
  | unsubscribe j x hfree hx => exact nomatch hmu.symm.trans hfree
  | receive j x x' hx hrecv => exact ⟨e, todo, hmu⟩
  | giveUp j x hx hwait => exact ⟨e, todo, hmu⟩
  | sendClosed j e' todo' x hmu' hj hx hclosed => exact ⟨e, todo, hmu⟩
  | closeClosed j x hmu' hx hclosed => exact ⟨e, todo, hmu⟩

/-- The others on the bus touch no channel of a session. -/
theorem apart_of_elsewhere {act : EventBus.Act Event} {i : Nat} (helse : elsewhere st s act = true)
    (hi : st.session i = true) : Apart s.bus act i where
  subscribe buf h := by
    subst h
    rw [elsewhere, hi] at helse
    exact nomatch helse
  unsubscribe h := by
    subst h
    rw [elsewhere, hi] at helse
    exact nomatch helse
  close h hmu := by
    subst h
    rw [elsewhere, hmu] at helse
    dsimp only at helse
    rw [hi] at helse
    exact nomatch helse

theorem Inv.others (h : Inv st s) {act : EventBus.Act Event} {b : EventBus.State Event}
    (helse : elsewhere st s act = true) (hb : EventBus.step s.bus act = some b) :
    Inv st (s.setBus b) := by
  obtain ⟨-, heff⟩ := EventBus.effect_of_step hb
  refine ⟨heff.inv ?_ h.bus, fun i hi => ?_, fun i hown => ?_⟩
  · rintro j sub rfl -
    rw [elsewhere, Bool.and_eq_true, decide_eq_true_iff] at helse
    exact helse.2
  · exact (h.sessions i hi).frame h.bus
      (.inr ⟨act, heff, apart_of_elsewhere helse hi⟩) Iff.rfl
  · obtain ⟨hi, hmu⟩ := h.publisher i hown
    refine ⟨hi, publishing_of_effect heff ?_ hmu⟩
    rintro rfl
    have hown' : s.publisher = some i := hown
    rw [elsewhere, hown'] at helse
    exact nomatch helse

end Bus

section Steps

variable {st : Setting} {s : State} {i : Nat}

theorem session_set_self (s : State) (i : Nat) (x : Session) : (s.set i x).session i = x :=
  Function.update_self ..

theorem session_set_of_ne (s : State) {i j : Nat} (x : Session) (h : j ≠ i) :
    (s.set i x).session j = s.session j := Function.update_of_ne h ..

/-- The session `i` moves, and nothing of the others does. -/
theorem Inv.update (h : Inv st s) {b : EventBus.State Event} {publisher : Option Nat} {x : Session}
    (hbus : EventBus.Inv b) (hown : SessionOk b publisher x i)
    (hothers : ∀ j, j ≠ i → BusApart s.bus b j ∧ (publisher = some j ↔ s.publisher = some j))
    (hpublisher : ∀ j, publisher = some j → st.session j = true ∧
      ∃ e todo, b.mu = .publishing e todo) :
    Inv st { (s.setBus b).set i x with publisher := publisher } where
  bus := hbus
  sessions j hj := by
    by_cases hji : j = i
    · subst hji
      show SessionOk b publisher ((s.set j x).session j) j
      rw [session_set_self]
      exact hown
    · obtain ⟨hapart, hpub⟩ := hothers j hji
      show SessionOk b publisher ((s.set i x).session j) j
      rw [session_set_of_ne s x hji]
      exact (h.sessions j hj).frame h.bus hapart hpub
  publisher := hpublisher

/-- The session moves and leaves the bus alone. -/
theorem Inv.set (h : Inv st s) {x : Session} (hown : SessionOk s.bus s.publisher x i) :
    Inv st (s.set i x) :=
  h.update h.bus hown (fun _ _ => ⟨.inl rfl, Iff.rfl⟩) h.publisher

/-- The session moves with a step of the bus that no publisher ends and that touches
    no other session's channel. -/
theorem Inv.setBus (h : Inv st s) {act : EventBus.Act Event} {b : EventBus.State Event} {x : Session}
    (heff : EventBus.Effect s.bus act b) (hfirst : EventBus.FirstUnsubscribe s.bus act)
    (hact : act ≠ .published) (hapart : ∀ j, j ≠ i → Apart s.bus act j)
    (hown : SessionOk b s.publisher x i) : Inv st ((s.setBus b).set i x) :=
  h.update (heff.inv hfirst h.bus) hown (fun j hji => ⟨.inr ⟨act, heff, hapart j hji⟩, Iff.rfl⟩)
    fun j hj => ⟨(h.publisher j hj).1, publishing_of_effect heff hact (h.publisher j hj).2⟩

/-- The place a file operation of `Begin` leads to, and that it comes from. -/
theorem madeNext_cases {ok : Bool} {pc pc' : Pc} (h : madeNext ok pc = some pc') :
    pc.kind = .unmade ∧ pc.publishes = false ∧ pc ≠ .unsubscribing ∧ pc'.ahead < pc.ahead ∧
      (pc' = .madeDir ∨ pc' = .madeCaller ∨ pc' = .madeAgent ∨ pc' = .serving) := by
  cases pc with
  | accepted =>
      obtain rfl := Option.some.inj h
      cases ok <;> decide
  | madeDir =>
      obtain rfl := Option.some.inj h
      cases ok <;> decide
  | madeCaller =>
      obtain rfl := Option.some.inj h
      cases ok <;> decide
  | _ => exact nomatch h

/-- Where a session publishes, and where that leads to. -/
theorem publishNext_cases {x : Bool} {pc pc' : Pc} (h : publishNext st pc = some (x, pc')) :
    (pc = .finished ∧ pc' = .completing) ∨ (pc = .finishReturned ∧ pc' = .ending) := by
  cases pc with
  | finished =>
      obtain ⟨-, rfl⟩ := Prod.mk.inj (Option.some.inj h)
      exact .inl ⟨rfl, rfl⟩
  | finishReturned =>
      obtain ⟨-, rfl⟩ := Prod.mk.inj (Option.some.inj h)
      exact .inr ⟨rfl, rfl⟩
  | _ => exact nomatch h

theorem publishedNext_cases {pc pc' : Pc} (h : publishedNext pc = some pc') :
    pc.kind = .closed ∧ pc ≠ .waiting ∧ pc'.ahead < pc.ahead ∧
      (pc' = .finishReturned ∨ pc' = .returned) := by
  cases pc with
  | finished | completing | finishReturned | ending =>
      obtain rfl := Option.some.inj h
      decide
  | _ => exact nomatch h

theorem publishedNext_of_publishes {pc : Pc} (h : pc.publishes = true) :
    ∃ pc', publishedNext pc = some pc' := by
  cases pc with
  | completing => exact ⟨_, rfl⟩
  | ending => exact ⟨_, rfl⟩
  | _ => exact nomatch h

theorem Inv.make (h : Inv st s) (hi : st.session i = true) {ok : Bool} {pc : Pc}
    (hpc : madeNext ok (s.session i).pc = some pc) : Inv st (s.goTo i pc) := by
  obtain ⟨hkind, hpublishes, hunsubscribing, -, hto⟩ := madeNext_cases hpc
  have hok := h.sessions i hi
  have hunsub := hok.unsub_of_unmade hkind
  refine h.set (hok.goTo (fun hyes => nomatch hunsub.symm.trans hyes) ?_ ⟨?_, hpublishes⟩
    hunsubscribing)
  · rcases hto with rfl | rfl | rfl | rfl <;> decide
  · rcases hto with rfl | rfl | rfl | rfl <;> rfl

theorem Inv.subscribe (h : Inv st s) (hi : st.session i = true) {b : EventBus.State Event}
    (hpc : (s.session i).pc = .madeAgent)
    (hb : EventBus.step s.bus (.subscribe i eventsBuf) = some b) :
    Inv st ((s.setBus b).set i { s.session i with pc := .subscribed, unsub := true }) := by
  have hok := h.sessions i hi
  obtain ⟨-, heff⟩ := EventBus.effect_of_step hb
  have hunsub := hok.unsub_of_unmade (by rw [hpc]; rfl)
  refine h.setBus heff (fun _ _ ha _ => nomatch ha) (fun ha => nomatch ha)
    (fun j hji => ⟨fun buf ha => hji (by cases ha; rfl), (fun ha => nomatch ha),
      (fun ha => nomatch ha)⟩) ?_
  cases heff with
  | subscribe j buf hfree hnew =>
      exact {
        chan := by
          rw [ChanOk, if_pos rfl]
          exact List.mem_append_right _ (List.mem_singleton_self i)
        handled := by
          intro sub _
          show (s.session i).handled ≤ _
          rw [hok.fresh hunsub]
          exact Nat.zero_le _
        fresh := fun hno => nomatch hno
        capturing := fun _ hno => absurd rfl hno
        stored := fun _ hno => hno.elim (fun h => nomatch h) fun h => nomatch h
        leaves := fun _ => rfl
        publishes := by
          rw [← hok.publishes, hpc]
          exact Iff.rfl
        closes := fun hmu => nomatch hfree.symm.trans hmu }

/-- events.jsonl is created, and `captureEvents` started. -/
theorem Inv.createEvents (h : Inv st s) (hi : st.session i = true)
    (hpc : (s.session i).pc = .subscribed) :
    Inv st (s.set i { s.session i with pc := .begun, capturing := true }) := by
  have hok := h.sessions i hi
  refine h.set {
    chan := ?_
    handled := hok.handled
    fresh := hok.fresh
    capturing := fun _ _ => rfl
    stored := fun _ hno => hno.elim (fun h => nomatch h) fun h => nomatch h
    leaves := ?_
    publishes := ?_
    closes := fun hmu => ?_ }
  · have hchan := hok.chan
    unfold ChanOk at hchan ⊢
    rw [hpc] at hchan
    exact hchan
  · rintro (hno | hno | hno) <;> exact nomatch hno
  · rw [← hok.publishes, hpc]
    exact Iff.rfl
  · exact nomatch hpc.symm.trans (hok.closes hmu)

theorem Inv.store (h : Inv st s) (hi : st.session i = true)
    (hpc : (s.session i).pc = .begun ∨ (s.session i).pc = .madeAgent) :
    Inv st (s.set i { s.session i with pc := .serving, stored := true }) := by
  have hok := h.sessions i hi
  -- a session that has subscribed comes from `captureEvents`
  have hbegun : (s.session i).unsub = true → (s.session i).pc = .begun := by
    intro hunsub
    rcases hpc with hpc | hpc
    · exact hpc
    · exact nomatch (hok.unsub_of_unmade (by rw [hpc]; rfl)).symm.trans hunsub
  refine h.set {
    chan := ?_
    handled := hok.handled
    fresh := hok.fresh
    capturing := fun hunsub _ => hok.capturing hunsub (by rw [hbegun hunsub]; decide)
    stored := fun _ _ => rfl
    leaves := ?_
    publishes := ?_
    closes := fun hmu => ?_ }
  · unfold ChanOk
    dsimp only
    split
    · rename_i hunsub
      exact hok.holds hunsub (by rw [hbegun hunsub]; rfl)
    · rename_i hunsub
      exact hok.chans_none (by simpa using hunsub)
  · rintro (hno | hno | hno) <;> exact nomatch hno
  · rw [← hok.publishes]
    rcases hpc with hpc | hpc <;> rw [hpc] <;> exact Iff.rfl
  · rcases hpc with hpc | hpc <;> exact nomatch hpc.symm.trans (hok.closes hmu)

/-- The goroutine goes from one place to another where its channel is the same. -/
theorem Inv.goFrom (h : Inv st s) (hi : st.session i = true) {pc pc' : Pc}
    (hpc : (s.session i).pc = pc)
    (hkind : pc'.kind = pc.kind ∧ pc ≠ .subscribed ∧
      (pc' = .serving ∨ pc' = .ended → pc = .serving ∨ pc = .ended))
    (hleaves : pc' ≠ .leaving ∧ pc' ≠ .unsubscribing ∧ pc' ≠ .waiting)
    (hpublishes : pc'.publishes = false ∧ pc.publishes = false) (hcloses : pc ≠ .unsubscribing) :
    Inv st (s.goTo i pc') := by
  subst hpc
  exact h.set ((h.sessions i hi).goTo (fun _ => hkind) hleaves hpublishes hcloses)

theorem Inv.serve (h : Inv st s) (hi : st.session i = true)
    (hpc : (s.session i).pc = .serving) : Inv st (s.goTo i .ended) := by
  exact h.goFrom hi hpc (by decide) (by decide) (by decide) (by decide)

/-- `Finish` takes the recording: a session that has subscribed has one. -/
theorem Inv.finish (h : Inv st s) (hi : st.session i = true) (hpc : (s.session i).pc = .ended) :
    Inv st (s.set i { s.session i with pc := finishNext (s.session i), stored := false }) := by
  have hok := h.sessions i hi
  cases hunsub : (s.session i).unsub with
  | true =>
      have hstored := hok.stored hunsub (.inr hpc)
      have hnext : finishNext (s.session i) = .leaving := by
        rw [finishNext, if_pos hstored, if_pos hunsub]
      rw [hnext]
      exact h.set {
        chan := by
          rw [ChanOk, if_pos hunsub]
          exact hok.holds hunsub (by rw [hpc]; rfl)
        handled := hok.handled
        fresh := hok.fresh
        capturing := fun _ _ => hok.capturing hunsub (by rw [hpc]; decide)
        stored := fun _ hno => hno.elim (fun h => nomatch h) fun h => nomatch h
        leaves := fun _ => hunsub
        publishes := by
          rw [← hok.publishes, hpc]
          exact Iff.rfl
        closes := fun hmu => nomatch hpc.symm.trans (hok.closes hmu) }
  | false =>
      have hnext : finishNext (s.session i) = .finalizing ∨
          finishNext (s.session i) = .finishReturned := by
        unfold finishNext
        rw [hunsub]
        split
        · exact .inl rfl
        · exact .inr rfl
      exact h.set {
        chan := by
          rw [ChanOk, hunsub, if_neg Bool.false_ne_true]
          exact hok.chans_none hunsub
        handled := hok.handled
        fresh := hok.fresh
        capturing := fun hno => nomatch hunsub.symm.trans hno
        stored := fun hno => nomatch hunsub.symm.trans hno
        leaves := by
          rintro (hno | hno | hno) <;> rcases hnext with hnext | hnext <;>
            exact nomatch hnext.symm.trans hno
        publishes := by
          rw [← hok.publishes, hpc]
          dsimp only
          rcases hnext with hnext | hnext <;> rw [hnext] <;> exact Iff.rfl
        closes := fun hmu => nomatch hpc.symm.trans (hok.closes hmu) }

/-- `cr.unsub()` takes `mu`. -/
theorem Inv.unsubscribe (h : Inv st s) (hi : st.session i = true) {b : EventBus.State Event}
    (hpc : (s.session i).pc = .leaving) (hb : EventBus.step s.bus (.unsubscribe i) = some b) :
    Inv st ((s.setBus b).goTo i .unsubscribing) := by
  have hok := h.sessions i hi
  have hunsub := hok.leaves (.inl hpc)
  have hin : i ∈ s.bus.subs := hok.holds hunsub (by rw [hpc]; rfl : _ = Kind.subscribed)
  obtain ⟨-, heff⟩ := EventBus.effect_of_step hb
  refine h.setBus heff (fun j _ ha _ => by cases ha; exact hin) (fun ha => nomatch ha)
    (fun j hji => ⟨(fun _ ha => nomatch ha), fun ha => hji (by cases ha; rfl),
      (fun ha => nomatch ha)⟩) ?_
  cases heff with
  | unsubscribe j sub hfree hsub =>
      exact {
        chan := by
          show ChanOk _ { s.session i with pc := .unsubscribing } i
          rw [ChanOk, if_pos hunsub]
          exact rfl
        handled := hok.handled
        fresh := hok.fresh
        capturing := fun _ _ => hok.capturing hunsub (by rw [hpc]; decide)
        stored := fun _ hno => hno.elim (fun h => nomatch h) fun h => nomatch h
        leaves := fun _ => hunsub
        publishes := by
          show false = true ↔ _
          rw [← hok.publishes, hpc]
          exact Iff.rfl
        closes := fun _ => rfl }

/-- It closes the channel. -/
theorem Inv.close (h : Inv st s) (hi : st.session i = true) {b : EventBus.State Event}
    (hpc : (s.session i).pc = .unsubscribing) (hb : EventBus.step s.bus .close = some b) :
    Inv st ((s.setBus b).goTo i .waiting) := by
  have hok := h.sessions i hi
  have hunsub := hok.leaves (.inr (.inl hpc))
  have hmu : s.bus.mu = .unsubscribing i := hok.holds hunsub (by rw [hpc]; rfl : _ = Kind.closing)
  obtain ⟨-, heff⟩ := EventBus.effect_of_step hb
  refine h.setBus heff (fun _ _ ha _ => nomatch ha) (fun ha => nomatch ha)
    (fun j hji => ⟨(fun _ ha => nomatch ha), (fun ha => nomatch ha), fun _ hj => ?_⟩) ?_
  · rw [hmu] at hj
    cases hj
    exact hji rfl
  · cases heff with
    | close j sub hmu' hsub hopen =>
        obtain rfl : i = j := by
          rw [hmu] at hmu'
          cases hmu'
          rfl
        have hself := EventBus.chans_setChan_self s.bus i
          { sub with closed := true, waiting := false }
        exact {
          chan := by
            show ChanOk _ { s.session i with pc := .waiting } i
            rw [ChanOk, if_pos hunsub]
            exact ⟨_, hself, rfl, rfl⟩
          handled := by
            intro x hx
            obtain rfl := Option.some.inj (hself.symm.trans hx)
            exact hok.handled sub hsub
          fresh := hok.fresh
          capturing := fun _ _ => hok.capturing hunsub (by rw [hpc]; decide)
          stored := fun _ hno => hno.elim (fun h => nomatch h) fun h => nomatch h
          leaves := fun _ => hunsub
          publishes := by
            show false = true ↔ _
            rw [← hok.publishes, hpc]
            exact Iff.rfl
          closes := fun hno => nomatch hno }
    | closeClosed j sub hmu' hsub hclosed =>
        exact nomatch (EventBus.closed_of_open (h.bus.closing j hmu').2 hsub).symm.trans hclosed

theorem Inv.eventsDone (h : Inv st s) (hi : st.session i = true)
    (hpc : (s.session i).pc = .waiting) : Inv st (s.goTo i .finalizing) := by
  exact h.goFrom hi hpc (by decide) (by decide) (by decide) (by decide)

theorem Inv.finalize (h : Inv st s) (hi : st.session i = true)
    (hpc : (s.session i).pc = .finalizing) : Inv st (s.goTo i .finished) := by
  exact h.goFrom hi hpc (by decide) (by decide) (by decide) (by decide)

theorem Inv.goOn (h : Inv st s) (hi : st.session i = true) {pc pc' : Pc}
    (hpc : publishNext st (s.session i).pc = some (false, pc'))
    (hnext : publishedNext (s.session i).pc = some pc) : Inv st (s.goTo i pc) := by
  obtain ⟨-, -, -, hto⟩ := publishedNext_cases hnext
  rcases publishNext_cases hpc with ⟨hpc, -⟩ | ⟨hpc, -⟩
  all_goals
    refine h.goFrom hi hpc ?_ ?_ ?_ (by decide)
    · rcases hto with rfl | rfl <;> decide
    · rcases hto with rfl | rfl <;> decide
    · rcases hto with rfl | rfl <;> decide

/-- The session takes `mu` to publish. -/
theorem Inv.publish (h : Inv st s) (hi : st.session i = true) {e : Event} {pc : Pc}
    {b : EventBus.State Event} (hpc : publishNext st (s.session i).pc = some (true, pc))
    (hb : EventBus.step s.bus (.publish e) = some b) :
    Inv st { (s.setBus b).goTo i pc with publisher := some i } := by
  have hok := h.sessions i hi
  obtain ⟨-, heff⟩ := EventBus.effect_of_step hb
  have hbus := heff.inv (fun _ _ ha _ => nomatch ha) h.bus
  cases heff with
  | publish e hfree =>
      -- `mu` was free, so nobody was publishing
      have hnone : ∀ j, s.publisher ≠ some j := by
        intro j hj
        obtain ⟨-, e', todo, hmu⟩ := h.publisher j hj
        exact nomatch hfree.symm.trans hmu
      have hkind : pc.kind = .closed ∧ pc.publishes = true ∧ (s.session i).pc.kind = .closed := by
        rcases publishNext_cases hpc with ⟨hfrom, rfl⟩ | ⟨hfrom, rfl⟩ <;> rw [hfrom] <;> decide
      have hto : pc = .completing ∨ pc = .ending :=
        (publishNext_cases hpc).imp And.right And.right
      refine h.update hbus ?_ (fun j hji => ⟨.inr ⟨_, .publish e hfree,
        (fun _ ha => nomatch ha), (fun ha => nomatch ha), (fun ha => nomatch ha)⟩, ?_⟩)
        fun j hj => ?_
      · exact {
          chan := by
            unfold ChanOk
            dsimp only
            split
            · rename_i hunsub
              rw [hkind.1]
              exact hok.holds hunsub hkind.2.2
            · rename_i hunsub
              exact hok.chans_none (Bool.of_not_eq_true hunsub)
          handled := hok.handled
          fresh := hok.fresh
          capturing := fun hunsub _ => hok.capturing hunsub fun hno => by
            rw [hno] at hkind
            exact nomatch hkind.2.2
          stored := fun _ hno => by
            rcases hto with rfl | rfl <;> exact hno.elim (fun h => nomatch h) fun h => nomatch h
          leaves := fun hno => by
            rcases hto with rfl | rfl <;> rcases hno with hno | hno | hno <;> exact nomatch hno
          publishes := ⟨fun _ => rfl, fun _ => hkind.2.1⟩
          closes := fun hmu => nomatch hmu }
      · exact ⟨fun hj => absurd (Option.some.inj hj).symm hji, fun hj => absurd hj (hnone j)⟩
      · obtain rfl := Option.some.inj hj
        exact ⟨hi, e, _, rfl⟩

/-- It gives `mu` back. -/
theorem Inv.published (h : Inv st s) (hi : st.session i = true) {pc : Pc} {b : EventBus.State Event}
    (hown : s.publisher = some i) (hpc : publishedNext (s.session i).pc = some pc)
    (hb : EventBus.step s.bus .published = some b) :
    Inv st { (s.setBus b).goTo i pc with publisher := none } := by
  have hok := h.sessions i hi
  obtain ⟨hkind, -, -, hto⟩ := publishedNext_cases hpc
  obtain ⟨-, heff⟩ := EventBus.effect_of_step hb
  have hbus := heff.inv (fun _ _ ha _ => nomatch ha) h.bus
  cases heff with
  | published e hmu =>
      refine h.update hbus ?_ (fun j hji => ⟨.inr ⟨_, .published e hmu,
        (fun _ ha => nomatch ha), (fun ha => nomatch ha), (fun ha => nomatch ha)⟩, ?_⟩)
        (fun j hj => nomatch hj)
      · exact {
          chan := by
            unfold ChanOk
            dsimp only
            split
            · rename_i hunsub
              have hclosed : ClosedChan s.bus i := hok.holds hunsub hkind
              rcases hto with rfl | rfl <;> exact hclosed
            · rename_i hunsub
              exact hok.chans_none (Bool.of_not_eq_true hunsub)
          handled := hok.handled
          fresh := hok.fresh
          capturing := fun hunsub _ => hok.capturing hunsub fun hno => by
            rw [hno] at hkind
            exact nomatch hkind
          stored := fun _ hno => by
            rcases hto with rfl | rfl <;> exact hno.elim (fun h => nomatch h) fun h => nomatch h
          leaves := fun hno => by
            rcases hto with rfl | rfl <;> rcases hno with hno | hno | hno <;> exact nomatch hno
          publishes := by
            rcases hto with rfl | rfl <;> exact ⟨fun hno => (nomatch hno), fun hno => nomatch hno⟩
          closes := fun hno => nomatch hno }
      · exact ⟨fun hj => (nomatch hj), fun hj => absurd (Option.some.inj (hj.symm.trans hown)) hji⟩

/-- `captureEvents` receives. -/
theorem Inv.receive (h : Inv st s) {b : EventBus.State Event}
    (hb : EventBus.step s.bus (.receive i) = some b) : Inv st (s.setBus b) := by
  obtain ⟨-, heff⟩ := EventBus.effect_of_step hb
  refine ⟨heff.inv (fun _ _ ha _ => nomatch ha) h.bus, fun j hj => ?_, fun j hj => ?_⟩
  · exact (h.sessions j hj).frame h.bus (.inr ⟨_, heff, (fun _ ha => nomatch ha),
      (fun ha => nomatch ha), (fun ha => nomatch ha)⟩) Iff.rfl
  · exact ⟨(h.publisher j hj).1,
      publishing_of_effect heff (fun ha => nomatch ha) (h.publisher j hj).2⟩

theorem Inv.capture (h : Inv st s) (hi : st.session i = true) {sub : EventBus.Subscription Event}
    (hsub : s.bus.chans i = some sub) (hlt : (s.session i).handled < sub.received.length) :
    Inv st (s.set i { s.session i with handled := (s.session i).handled + 1 }) := by
  have hok := h.sessions i hi
  refine h.set { hok with handled := ?_, fresh := ?_ }
  · intro x hx
    obtain rfl := Option.some.inj (hsub.symm.trans hx)
    exact hlt
  · intro hunsub
    exact nomatch hsub.symm.trans (hok.chans_none hunsub)

theorem Inv.drained (h : Inv st s) (hi : st.session i = true) :
    Inv st (s.set i { s.session i with eventsDone := true }) := by
  have hok := h.sessions i hi
  exact h.set { hok with }

/-- Every step keeps the invariant, as long as events.jsonl can be created. -/
theorem inv_step {s' : State} {a : Act} (h : Inv st s) (hguard : EventsMade s a)
    (hstep : step st s a = some s') : Inv st s' := by
  rcases step_cases hstep with ⟨act, b, rfl, helse, hb, rfl⟩ | ⟨i, hi, hmove⟩
  · exact h.others helse hb
  · cases hmove with
    | make ok pc hpc => exact h.make hi hpc
    | subscribe b hpc hb => exact h.subscribe hi hpc hb
    | createEvents ok hpc =>
        obtain rfl : ok = true := hguard
        exact h.createEvents hi hpc
    | store hpc => exact h.store hi hpc
    | serve hpc => exact h.serve hi hpc
    | finish hpc => exact h.finish hi hpc
    | unsubscribe b hpc hb => exact h.unsubscribe hi hpc hb
    | close b hpc hb => exact h.close hi hpc hb
    | eventsDone hpc hdone => exact h.eventsDone hi hpc
    | finalize hpc => exact h.finalize hi hpc
    | publish e pc b hpc hb => exact h.publish hi hpc hb
    | goOn pc pc' hpc hnext => exact h.goOn hi hpc hnext
    | published pc b hown hpc hb => exact h.published hi hown hpc hb
    | receive sub b hsub hcapturing hrange hall hb => exact h.receive hb
    | capture sub hsub hcapturing hlt => exact h.capture hi hsub hlt
    | drained sub hsub hcapturing hopen => exact h.drained hi

end Steps

end FsBridge.Bridge.FinishWait
