/-
  FsBridge.Bridge.EventBus

  The event bus (bridge/eventbus.go): any number of goroutines that subscribe,
  publish and unsubscribe, and the subscribers that receive.

  A subscription is named by a number, as the code names it by its channel.
  `Publish` is a step for each channel it offers the event to, in any order, as
  the iteration over a map is; a subscriber may receive between two of them,
  since it does not take `mu`.

  The proofs go from what one step does to a subscription: `Offers` ties what a
  subscriber has been given to what `Publish` offered it, and `SameFor` says that
  two runs look the same to a subscriber.
-/

import Mathlib.Logic.Function.Basic
import FsBridge.Lib.Chan
import FsBridge.Lib.Machine

namespace FsBridge.Bridge.EventBus

open FsBridge.Lib

variable {α : Type*}

/-- A channel `Subscribe` made, and its receiver. -/
structure Subscription (α : Type*) where
  cap : Nat
  chan : Chan α cap
  closed : Bool
  /-- The receiver is blocked on the channel. -/
  waiting : Bool
  /-- What the subscriber has received, oldest first. -/
  received : List α

namespace Subscription

/-- `make(chan Event, buf)`. -/
def make (cap : Nat) : Subscription α := ⟨cap, .empty, false, false, []⟩

/-- No event can be sent now: the buffer is full, or, where there is none, nobody
    is receiving. -/
def full (sub : Subscription α) : Bool :=
  if sub.cap = 0 then !sub.waiting else sub.cap ≤ sub.chan.buf.length

/-- The `select` of `Publish` on a channel that is open. -/
def trySend (sub : Subscription α) (e : α) : Subscription α :=
  if sub.waiting then { sub with waiting := false, received := sub.received ++ [e] }
  else
    match sub.chan.trySend e with
    | some ch => { sub with chan := ch }
    | none => sub

/-- A receive: an event from the buffer, the end of a closed channel, or the
    receiver blocks. -/
def receive (sub : Subscription α) : Option (Subscription α) :=
  if sub.waiting then none
  else
    match sub.chan.tryRecv with
    | some (e, ch) => some { sub with chan := ch, received := sub.received ++ [e] }
    | none => if sub.closed then some sub else some { sub with waiting := true }

/-- The events the subscriber has been given, received or not. -/
def given (sub : Subscription α) : List α := sub.received ++ sub.chan.buf

end Subscription

/-- Who holds `mu`. -/
inductive Mutex (α : Type*) where
  | free
  /-- `Publish`, with the channels it has still to offer the event to. -/
  | publishing (e : α) (todo : List Nat)
  /-- The unsubscribe function, between `delete` and `close`. -/
  | unsubscribing (i : Nat)

structure State (α : Type*) where
  mu : Mutex α
  /-- `b.subs`. -/
  subs : List Nat
  chans : Nat → Option (Subscription α)
  /-- A send on a closed channel, or a second `close`. -/
  panicked : Bool

inductive Act (α : Type*) where
  | subscribe (i buf : Nat)
  | publish (e : α)
  | offer (i : Nat)
  | published
  | unsubscribe (i : Nat)
  | close
  | receive (i : Nat)
  /-- A blocked receiver takes another branch of its `select`. -/
  | giveUp (i : Nat)

def State.setChan (s : State α) (i : Nat) (sub : Subscription α) : State α :=
  { s with chans := Function.update s.chans i (some sub) }

def step (s : State α) (a : Act α) : Option (State α) :=
  if s.panicked then none
  else
    match a with
    | .subscribe i buf =>
        match s.mu, s.chans i with
        | .free, none => some { s.setChan i (.make buf) with subs := s.subs ++ [i] }
        | _, _ => none
    | .publish e =>
        match s.mu with
        | .free => some { s with mu := .publishing e s.subs }
        | _ => none
    | .offer i =>
        match s.mu, s.chans i with
        | .publishing e todo, some sub =>
            if i ∈ todo then
              if sub.closed then some { s with panicked := true }
              else some { s.setChan i (sub.trySend e) with
                mu := .publishing e (todo.filter (· ≠ i)) }
            else none
        | _, _ => none
    | .published =>
        match s.mu with
        | .publishing _ [] => some { s with mu := .free }
        | _ => none
    | .unsubscribe i =>
        match s.mu, s.chans i with
        | .free, some _ =>
            some { s with subs := s.subs.filter (· ≠ i), mu := .unsubscribing i }
        | _, _ => none
    | .close =>
        match s.mu with
        | .unsubscribing i =>
            match s.chans i with
            | some sub =>
                if sub.closed then some { s with panicked := true }
                else some { s.setChan i { sub with closed := true, waiting := false } with
                  mu := .free }
            | none => none
        | _ => none
    | .receive i =>
        match s.chans i with
        | some sub => sub.receive.map (s.setChan i)
        | none => none
    | .giveUp i =>
        match s.chans i with
        | some sub => if sub.waiting then some (s.setChan i { sub with waiting := false }) else none
        | none => none

/-- `NewEventBus`. -/
def initial : State α := ⟨.free, [], fun _ => none, false⟩

/-- One bus with all its publishers and subscribers. -/
def machine (α : Type*) : Machine (State α) (Act α) where
  init := initial
  step := step

-- ============================================================================
-- What is published, and to whom
-- ============================================================================

/-- The subscription whose unsubscribe function is called. -/
def Act.unsubscribes : Act α → Option Nat
  | .unsubscribe i => some i
  | _ => none

/-- The step is not a receive of another subscriber than `i`. -/
def Act.concerns (i : Nat) : Act α → Bool
  | .receive j | .giveUp j => i = j
  | _ => true

/-- The event of a `Publish` that begins while `i` is subscribed. -/
def publishedNow (i : Nat) (s : State α) : Act α → List α
  | .publish e => if i ∈ s.subs then [e] else []
  | _ => []

/-- The event `Publish` tries to send to `i`, and whether it can. -/
def offeredNow (i : Nat) (s : State α) : Act α → List (α × Bool)
  | .offer j =>
      match s.mu, s.chans j with
      | .publishing e _, some sub => if j = i then [(e, !sub.full)] else []
      | _, _ => []
  | _ => []

/-- The events published while `i` is subscribed, in the order of their
    publication. -/
def publishedTo (i : Nat) (as : List (Act α)) : List α :=
  (machine α).observe (publishedNow i) initial as

/-- The same events, as they are offered to `i`, each with whether the buffer of
    `i` has room for it. -/
def offeredTo (i : Nat) (as : List (Act α)) : List (α × Bool) :=
  (machine α).observe (offeredNow i) initial as

/-- The event that is published at the moment and has not been offered to `i`. -/
def State.pending (s : State α) (i : Nat) : List α :=
  match s.mu with
  | .publishing e todo => if i ∈ todo then [e] else []
  | _ => []

-- ============================================================================
-- What a step can do
-- ============================================================================

inductive Effect (s : State α) : Act α → State α → Prop where
  | subscribe (i buf : Nat) (hmu : s.mu = .free) (hnew : s.chans i = none) :
      Effect s (.subscribe i buf) { s.setChan i (.make buf) with subs := s.subs ++ [i] }
  | publish (e : α) (hmu : s.mu = .free) :
      Effect s (.publish e) { s with mu := .publishing e s.subs }
  | offer (i : Nat) (e : α) (todo : List Nat) (sub : Subscription α)
      (hmu : s.mu = .publishing e todo) (hi : i ∈ todo) (hsub : s.chans i = some sub)
      (hopen : sub.closed = false) :
      Effect s (.offer i) { s.setChan i (sub.trySend e) with
        mu := .publishing e (todo.filter (· ≠ i)) }
  | sendClosed (i : Nat) (e : α) (todo : List Nat) (sub : Subscription α)
      (hmu : s.mu = .publishing e todo) (hi : i ∈ todo) (hsub : s.chans i = some sub)
      (hclosed : sub.closed = true) : Effect s (.offer i) { s with panicked := true }
  | published (e : α) (hmu : s.mu = .publishing e []) :
      Effect s .published { s with mu := .free }
  | unsubscribe (i : Nat) (sub : Subscription α) (hmu : s.mu = .free)
      (hsub : s.chans i = some sub) :
      Effect s (.unsubscribe i)
        { s with subs := s.subs.filter (· ≠ i), mu := .unsubscribing i }
  | close (i : Nat) (sub : Subscription α) (hmu : s.mu = .unsubscribing i)
      (hsub : s.chans i = some sub) (hopen : sub.closed = false) :
      Effect s .close { s.setChan i { sub with closed := true, waiting := false } with
        mu := .free }
  | closeClosed (i : Nat) (sub : Subscription α) (hmu : s.mu = .unsubscribing i)
      (hsub : s.chans i = some sub) (hclosed : sub.closed = true) :
      Effect s .close { s with panicked := true }
  | receive (i : Nat) (sub sub' : Subscription α) (hsub : s.chans i = some sub)
      (hrecv : sub.receive = some sub') : Effect s (.receive i) (s.setChan i sub')
  | giveUp (i : Nat) (sub : Subscription α) (hsub : s.chans i = some sub)
      (hwait : sub.waiting = true) :
      Effect s (.giveUp i) (s.setChan i { sub with waiting := false })

theorem effect_of_step {s s' : State α} {a : Act α} (h : step s a = some s') :
    s.panicked = false ∧ Effect s a s' := by
  unfold step at h
  split at h
  · exact absurd h (by simp)
  · rename_i hrunning
    refine ⟨by simpa using hrunning, ?_⟩
    cases a with
    | subscribe i buf =>
        dsimp only at h
        split at h
        · rename_i hmu hnew
          cases h
          exact .subscribe i buf hmu hnew
        · exact absurd h (by simp)
    | publish e =>
        dsimp only at h
        split at h
        · rename_i hmu
          cases h
          exact .publish e hmu
        · exact absurd h (by simp)
    | offer i =>
        dsimp only at h
        split at h
        · rename_i e todo sub hmu hsub
          obtain ⟨hi, h⟩ := Option.ite_none_right_eq_some.mp h
          split at h
          · rename_i hclosed
            cases h
            exact .sendClosed i e todo sub hmu hi hsub hclosed
          · rename_i hopen
            cases h
            exact .offer i e todo sub hmu hi hsub (by simpa using hopen)
        · exact absurd h (by simp)
    | published =>
        dsimp only at h
        split at h
        · rename_i e hmu
          cases h
          exact .published e hmu
        · exact absurd h (by simp)
    | unsubscribe i =>
        dsimp only at h
        split at h
        · rename_i sub hmu hsub
          cases h
          exact .unsubscribe i sub hmu hsub
        · exact absurd h (by simp)
    | close =>
        dsimp only at h
        split at h
        · rename_i i hmu
          split at h
          · rename_i sub hsub
            split at h
            · rename_i hclosed
              cases h
              exact .closeClosed i sub hmu hsub hclosed
            · rename_i hopen
              cases h
              exact .close i sub hmu hsub (by simpa using hopen)
          · exact absurd h (by simp)
        · exact absurd h (by simp)
    | receive i =>
        dsimp only at h
        split at h
        · rename_i sub hsub
          obtain ⟨sub', hrecv, rfl⟩ := Option.map_eq_some_iff.mp h
          exact .receive i sub sub' hsub hrecv
        · exact absurd h (by simp)
    | giveUp i =>
        dsimp only at h
        split at h
        · rename_i sub hsub
          obtain ⟨hwait, h⟩ := Option.ite_none_right_eq_some.mp h
          cases h
          exact .giveUp i sub hsub hwait
        · exact absurd h (by simp)

-- ============================================================================
-- Subscriptions
-- ============================================================================

namespace Subscription

/-- A receiver blocks on an empty buffer only. -/
def Wf (sub : Subscription α) : Prop := sub.waiting = true → sub.chan.buf = []

theorem make_wf (cap : Nat) : (make cap : Subscription α).Wf := fun h => absurd h (by simp [make])

@[simp] theorem trySend_closed (sub : Subscription α) (e : α) :
    (sub.trySend e).closed = sub.closed := by
  unfold trySend
  split
  · rfl
  · split <;> rfl

/-- A send adds the event to what the subscriber has been given, unless the
    buffer is full. -/
theorem given_trySend {sub : Subscription α} (h : sub.Wf) (e : α) :
    (sub.trySend e).given = sub.given ++ if sub.full then [] else [e] := by
  have hle := sub.chan.length_le
  unfold trySend given full
  by_cases hwait : sub.waiting = true
  · have hbuf : sub.chan.buf = [] := h hwait
    have hroom :
        ¬ (if sub.cap = 0 then !sub.waiting else sub.cap ≤ sub.chan.buf.length) = true := by
      by_cases hcap : sub.cap = 0
      · simp [hcap, hwait]
      · simp [hcap, hbuf]
    rw [if_pos hwait, if_neg hroom]
    simp [hbuf]
  · rw [if_neg hwait]
    split
    · rename_i ch hch
      obtain ⟨hlt, hbuf⟩ := Chan.trySend_eq_some.mp hch
      have hcap : sub.cap ≠ 0 := by omega
      have hroom : ¬ (if sub.cap = 0 then !sub.waiting
          else sub.cap ≤ sub.chan.buf.length) = true := by
        rw [if_neg hcap]
        simpa using hlt
      rw [if_neg hroom, List.append_assoc]
      exact congrArg (sub.received ++ ·) hbuf
    · rename_i hch
      have hlen : sub.chan.buf.length = sub.cap := Chan.trySend_eq_none.mp hch
      have hfull : (if sub.cap = 0 then !sub.waiting
          else sub.cap ≤ sub.chan.buf.length) = true := by
        by_cases hcap : sub.cap = 0
        · simp [hcap, hwait]
        · rw [if_neg hcap]
          exact decide_eq_true (by omega)
      rw [if_pos hfull, List.append_nil]

theorem trySend_wf {sub : Subscription α} (h : sub.Wf) (e : α) : (sub.trySend e).Wf := by
  unfold trySend
  by_cases hwait : sub.waiting = true
  · rw [if_pos hwait]
    exact fun hw => absurd hw (by simp)
  · rw [if_neg hwait]
    split
    · exact fun hw => absurd hw hwait
    · exact h

/-- A receive gives the subscriber nothing new. -/
theorem receive_spec {sub sub' : Subscription α} (h : sub.receive = some sub') :
    sub'.given = sub.given ∧ sub'.closed = sub.closed ∧ sub'.Wf := by
  unfold receive at h
  split at h
  · exact absurd h (by simp)
  · rename_i hwait
    split at h
    · rename_i e ch hch
      cases h
      refine ⟨?_, rfl, fun hw => absurd hw hwait⟩
      rw [given, given, Chan.tryRecv_eq_some.mp hch, List.append_assoc]
      rfl
    · rename_i hch
      split at h
      · cases h
        exact ⟨rfl, rfl, fun hw => absurd hw hwait⟩
      · cases h
        exact ⟨rfl, rfl, fun _ => Chan.tryRecv_eq_none.mp hch⟩

end Subscription

theorem chans_setChan_self (s : State α) (i : Nat) (sub : Subscription α) :
    (s.setChan i sub).chans i = some sub := Function.update_self ..

theorem chans_setChan_of_ne (s : State α) {i j : Nat} (sub : Subscription α) (h : j ≠ i) :
    (s.setChan i sub).chans j = s.chans j := Function.update_of_ne h ..

-- ============================================================================
-- No send on a closed channel
-- ============================================================================

/-- The channel is there and open. -/
def State.Open (s : State α) (i : Nat) : Prop := ∃ sub, s.chans i = some sub ∧ sub.closed = false

/-- Every unsubscribe function that is called has not been called before. -/
def FirstUnsubscribe (s : State α) (a : Act α) : Prop :=
  ∀ i sub, a = .unsubscribe i → s.chans i = some sub → i ∈ s.subs

structure Inv (s : State α) : Prop where
  running : s.panicked = false
  subs_open : ∀ i ∈ s.subs, s.Open i
  todo_subs : ∀ e todo, s.mu = .publishing e todo → ∀ i ∈ todo, i ∈ s.subs
  /-- The channel an unsubscribe function is about to close. -/
  closing : ∀ i, s.mu = .unsubscribing i → i ∉ s.subs ∧ s.Open i
  wf : ∀ i sub, s.chans i = some sub → sub.Wf

theorem inv_initial : Inv (initial : State α) where
  running := rfl
  subs_open := fun _ hi => absurd hi List.not_mem_nil
  todo_subs := fun _ _ h => nomatch h
  closing := fun _ hm => nomatch hm
  wf := fun _ _ h => nomatch h

/-- Another channel has changed, or the channel has not been closed. -/
theorem State.Open.setChan {s : State α} {i j : Nat} {sub : Subscription α} (h : s.Open j)
    (hsub : j = i → sub.closed = false) : (s.setChan i sub).Open j := by
  by_cases hj : j = i
  · subst hj
    exact ⟨sub, chans_setChan_self s j sub, hsub rfl⟩
  · obtain ⟨x, hx, hopen⟩ := h
    exact ⟨x, by rw [chans_setChan_of_ne s sub hj, hx], hopen⟩

theorem wf_setChan {s : State α} {i : Nat} {sub : Subscription α}
    (h : ∀ j x, s.chans j = some x → x.Wf) (hsub : sub.Wf) :
    ∀ j x, (s.setChan i sub).chans j = some x → x.Wf := by
  intro j x hx
  by_cases hj : j = i
  · subst hj
    rw [chans_setChan_self] at hx
    cases hx
    exact hsub
  · rw [chans_setChan_of_ne s sub hj] at hx
    exact h j x hx

theorem closed_of_open {s : State α} {i : Nat} {sub : Subscription α} (h : s.Open i)
    (hsub : s.chans i = some sub) : sub.closed = false := by
  obtain ⟨x, hx, hopen⟩ := h
  rw [hsub] at hx
  cases hx
  exact hopen

theorem Effect.inv {s s' : State α} {a : Act α} (heff : Effect s a s')
    (hfirst : FirstUnsubscribe s a) (h : Inv s) : Inv s' := by
  cases heff with
  | subscribe i buf hmu hnew =>
      refine ⟨h.running, fun j hj => ?_, fun e todo hm => ?_, fun j hm => ?_,
        wf_setChan h.wf (Subscription.make_wf buf)⟩
      · rcases List.mem_append.mp hj with hj | hj
        · exact (h.subs_open j hj).setChan fun _ => rfl
        · obtain rfl := List.mem_singleton.mp hj
          exact ⟨_, chans_setChan_self s j _, rfl⟩
      · exact absurd (hmu.symm.trans hm) (by simp)
      · exact absurd (hmu.symm.trans hm) (by simp)
  | publish e hmu =>
      refine ⟨h.running, h.subs_open, fun e' todo hm i hi => ?_, (fun i hm => nomatch hm), h.wf⟩
      cases hm
      exact hi
  | offer i e todo sub hmu hi hsub hopen =>
      refine ⟨h.running, fun j hj => ?_, fun e' todo' hm j hj => ?_, (fun j hm => nomatch hm),
        wf_setChan h.wf (Subscription.trySend_wf (h.wf i sub hsub) e)⟩
      · exact (h.subs_open j hj).setChan fun _ => by rw [Subscription.trySend_closed, hopen]
      · cases hm
        exact h.todo_subs e todo hmu j (List.mem_of_mem_filter hj)
  | sendClosed i e todo sub hmu hi hsub hclosed =>
      have hopen := closed_of_open (h.subs_open i (h.todo_subs e todo hmu i hi)) hsub
      exact absurd (hopen.symm.trans hclosed) (by simp)
  | published e hmu =>
      exact ⟨h.running, h.subs_open, (fun _ _ hm => nomatch hm), (fun _ hm => nomatch hm), h.wf⟩
  | unsubscribe i sub hmu hsub =>
      refine ⟨h.running, fun j hj => h.subs_open j (List.mem_of_mem_filter hj),
        (fun _ _ hm => nomatch hm), fun j hm => ?_, h.wf⟩
      cases hm
      refine ⟨fun hmem => ?_, h.subs_open i (hfirst i sub rfl hsub)⟩
      simpa using (List.mem_filter.mp hmem).2
  | close i sub hmu hsub hopen =>
      refine ⟨h.running, fun j hj => ?_, (fun _ _ hm => nomatch hm), (fun _ hm => nomatch hm),
        wf_setChan h.wf fun hw => absurd hw (by simp)⟩
      refine (h.subs_open j hj).setChan fun hji => ?_
      subst hji
      exact absurd hj (h.closing j hmu).1
  | closeClosed i sub hmu hsub hclosed =>
      have hopen := closed_of_open (h.closing i hmu).2 hsub
      exact absurd (hopen.symm.trans hclosed) (by simp)
  | receive i sub sub' hsub hrecv =>
      obtain ⟨-, hclosed, hwf⟩ := Subscription.receive_spec hrecv
      have hkeep : ∀ j, s.Open j → (s.setChan i sub').Open j := fun j hj =>
        hj.setChan fun hji => by rw [hclosed, closed_of_open (hji ▸ hj) hsub]
      exact ⟨h.running, fun j hj => hkeep j (h.subs_open j hj), h.todo_subs,
        fun j hm => ⟨(h.closing j hm).1, hkeep j (h.closing j hm).2⟩, wf_setChan h.wf hwf⟩
  | giveUp i sub hsub hwait =>
      have hkeep : ∀ j, s.Open j →
          (s.setChan i { sub with waiting := false }).Open j := fun j hj =>
        hj.setChan fun hji => (closed_of_open (hji ▸ hj) hsub : sub.closed = false)
      exact ⟨h.running, fun j hj => hkeep j (h.subs_open j hj), h.todo_subs,
        fun j hm => ⟨(h.closing j hm).1, hkeep j (h.closing j hm).2⟩,
        wf_setChan h.wf fun hw => absurd hw (by simp)⟩

/-- The unsubscribe functions still to be called in the schedule have not been
    called yet. -/
def Fresh (s : State α) (as : List (Act α)) : Prop :=
  ∀ i ∈ as.filterMap Act.unsubscribes, ∀ sub, s.chans i = some sub → i ∈ s.subs

theorem Effect.fresh {s s' : State α} {a : Act α} {as : List (Act α)} (heff : Effect s a s')
    (hnodup : ((a :: as).filterMap Act.unsubscribes).Nodup) (h : Fresh s (a :: as)) :
    Fresh s' as := by
  have htail : ∀ i ∈ as.filterMap Act.unsubscribes, ∀ sub, s.chans i = some sub → i ∈ s.subs := by
    intro i hi
    apply h i
    rw [List.filterMap_cons]
    split
    · exact hi
    · exact List.mem_cons_of_mem _ hi
  -- a step on the channel `j` that leaves `subs` alone
  have hset : ∀ j sub sub', s.chans j = some sub → ∀ i ∈ as.filterMap Act.unsubscribes,
      ∀ x, (s.setChan j sub').chans i = some x → i ∈ s.subs := by
    intro j sub sub' hsub i hi x hx
    by_cases hij : i = j
    · subst hij
      exact htail i hi sub hsub
    · rw [chans_setChan_of_ne s sub' hij] at hx
      exact htail i hi x hx
  cases heff with
  | subscribe j buf hmu hnew =>
      intro i hi x hx
      by_cases hij : i = j
      · exact List.mem_append_right _ (List.mem_singleton.mpr hij)
      · refine List.mem_append_left _ (htail i hi x ?_)
        rwa [← chans_setChan_of_ne s (.make buf) hij]
  | offer j e todo sub hmu hj hsub hopen => exact hset j sub _ hsub
  | close j sub hmu hsub hopen => exact hset j sub _ hsub
  | receive j sub sub' hsub hrecv => exact hset j sub _ hsub
  | giveUp j sub hsub hwait => exact hset j sub _ hsub
  | unsubscribe j sub hmu hsub =>
      intro i hi x hx
      have hne : i ≠ j := by
        rintro rfl
        rw [List.filterMap_cons_some (rfl : Act.unsubscribes (.unsubscribe i) = some i),
          List.nodup_cons] at hnodup
        exact hnodup.1 hi
      exact List.mem_filter.mpr ⟨htail i hi x hx, by simpa using hne⟩
  | publish e hmu => exact htail
  | published e hmu => exact htail
  | sendClosed j e todo sub hmu hj hsub hclosed => exact htail
  | closeClosed j sub hmu hsub hclosed => exact htail

theorem guarded_of_nodup {s : State α} {as : List (Act α)}
    (hnodup : (as.filterMap Act.unsubscribes).Nodup) (h : Fresh s as) :
    (machine α).Guarded FirstUnsubscribe s as := by
  induction as generalizing s with
  | nil => trivial
  | cons a as ih =>
      refine ⟨fun i sub ha hsub => ?_, fun s' hs' => ih ?_ ?_⟩
      · subst ha
        exact h i (by simp [Act.unsubscribes]) sub hsub
      · exact hnodup.sublist ((List.sublist_cons_self a as).filterMap _)
      · exact (effect_of_step hs').2.fresh hnodup h

/-- In a run in which each unsubscribe function is called at most once, the
    invariant holds. -/
theorem always_inv {as : List (Act α)} (honce : (as.filterMap Act.unsubscribes).Nodup) :
    (machine α).Always Inv initial as := by
  refine Machine.always_of_guarded (fun s a s' h hg hs => ?_)
    (guarded_of_nodup honce fun i _ sub hsub => nomatch hsub) inv_initial
  exact (effect_of_step hs).2.inv hg h

-- ============================================================================
-- What a subscriber is given
-- ============================================================================

/-- The events the buffer of `i` had room for. -/
def acceptedBy (i : Nat) (as : List (Act α)) : List α :=
  ((offeredTo i as).filter Prod.snd).map Prod.fst

/-- What has been published, what has been offered and what has been given agree. -/
structure Offers (i : Nat) (as : List (Act α)) (s : State α) : Prop where
  given : ∀ sub, s.chans i = some sub → sub.given = acceptedBy i as
  unmade : s.chans i = none → offeredTo i as = []
  published : (offeredTo i as).map Prod.fst ++ s.pending i = publishedTo i as

theorem offers_nil (i : Nat) : Offers i [] (initial : State α) where
  given := fun _ h => nomatch h
  unmade := fun _ => rfl
  published := rfl

/-- A step that is no part of a `Publish` and leaves what `i` has been given. -/
theorem Offers.quiet {i : Nat} {as : List (Act α)} {a : Act α} {s s' : State α}
    (h : Offers i as s) (hoffered : offeredTo i (as ++ [a]) = offeredTo i as)
    (hpublished : publishedTo i (as ++ [a]) = publishedTo i as)
    (hpending : s'.pending i = s.pending i)
    (hgiven : ∀ sub', s'.chans i = some sub' →
      (∃ sub, s.chans i = some sub ∧ sub'.given = sub.given) ∨
        s.chans i = none ∧ sub'.given = [])
    (hunmade : s'.chans i = none → s.chans i = none) : Offers i (as ++ [a]) s' := by
  refine ⟨fun sub' hsub' => ?_, fun hnone => ?_, ?_⟩
  · rw [acceptedBy, hoffered]
    rcases hgiven sub' hsub' with ⟨sub, hsub, hsame⟩ | ⟨hnone, hnil⟩
    · rw [hsame]
      exact h.given sub hsub
    · rw [hnil, h.unmade hnone]
      rfl
  · rw [hoffered]
    exact h.unmade (hunmade hnone)
  · rw [hoffered, hpublished, hpending]
    exact h.published

/-- Changing the channel of `j` keeps what `i` has been given. -/
theorem given_setChan {s : State α} {i j : Nat} {sub sub' : Subscription α}
    (hsub : s.chans j = some sub) (hsame : sub'.given = sub.given) :
    ∀ x, (s.setChan j sub').chans i = some x →
      (∃ y, s.chans i = some y ∧ x.given = y.given) ∨ s.chans i = none ∧ x.given = [] := by
  intro x hx
  by_cases hij : i = j
  · subst hij
    rw [chans_setChan_self] at hx
    cases hx
    exact .inl ⟨sub, hsub, hsame⟩
  · rw [chans_setChan_of_ne s sub' hij] at hx
    exact .inl ⟨x, hx, rfl⟩

theorem unmade_setChan {s : State α} {i j : Nat} {sub : Subscription α}
    (h : (s.setChan j sub).chans i = none) : s.chans i = none := by
  by_cases hij : i = j
  · subst hij
    rw [chans_setChan_self] at h
    exact absurd h (by simp)
  · rwa [chans_setChan_of_ne s sub hij] at h

theorem Effect.offers {s s' : State α} {a : Act α} {as : List (Act α)} {i : Nat}
    (heff : Effect s a s') (hrun : (machine α).run initial as = some s)
    (hstep : (machine α).step s a = some s') (hinv : Inv s) (h : Offers i as s) :
    Offers i (as ++ [a]) s' := by
  have hoffered : offeredTo i (as ++ [a]) = offeredTo i as ++ offeredNow i s a :=
    Machine.observe_snoc hrun hstep
  have hpublished : publishedTo i (as ++ [a]) = publishedTo i as ++ publishedNow i s a :=
    Machine.observe_snoc hrun hstep
  cases heff with
  | subscribe j buf hmu hnew =>
      refine h.quiet (by simpa [offeredNow] using hoffered)
        (by simpa [publishedNow] using hpublished) (by simp [State.pending, hmu, State.setChan])
        (fun x hx => ?_) unmade_setChan
      by_cases hij : i = j
      · subst hij
        refine .inr ⟨hnew, ?_⟩
        rw [show _ = some (Subscription.make buf) from chans_setChan_self s i _] at hx
        cases hx
        rfl
      · exact .inl ⟨x, (chans_setChan_of_ne s (.make buf) hij).symm.trans hx, rfl⟩
  | publish e hmu =>
      have hoff : offeredTo i (as ++ [.publish e]) = offeredTo i as := by
        simpa [offeredNow] using hoffered
      refine ⟨fun sub hsub => ?_, fun hnone => ?_, ?_⟩
      · rw [acceptedBy, hoff]
        exact h.given sub hsub
      · rw [hoff]
        exact h.unmade hnone
      · have hnow := h.published
        rw [State.pending, hmu, List.append_nil] at hnow
        rw [hoff, hpublished, hnow]
        rfl
  | offer j e todo sub hmu hj hsub hopen =>
      have hpub : publishedTo i (as ++ [.offer j]) = publishedTo i as := by
        simpa [publishedNow] using hpublished
      by_cases hij : j = i
      · subst hij
        have hnew : offeredNow j s (.offer j) = [(e, !sub.full)] := by
          simp [offeredNow, hmu, hsub]
        refine ⟨fun x hx => ?_, fun hnone => ?_, ?_⟩
        · rw [show _ = some (sub.trySend e) from chans_setChan_self s j _] at hx
          cases hx
          rw [Subscription.given_trySend (hinv.wf j sub hsub), h.given sub hsub, acceptedBy,
            acceptedBy, hoffered, hnew, List.filter_append, List.map_append]
          cases sub.full <;> rfl
        · exact absurd (unmade_setChan hnone) (by simp [hsub])
        · have hnow := h.published
          have hbefore : s.pending j = [e] := by simp [State.pending, hmu, hj]
          rw [hbefore] at hnow
          rw [hoffered, hnew, hpub, ← hnow]
          simp [State.pending]
      · refine h.quiet (by simpa [offeredNow, hmu, hsub, hij] using hoffered) hpub ?_
          (fun x hx => ?_) unmade_setChan
        · have hji : ¬ i = j := fun heq => hij heq.symm
          simp [State.pending, hmu, hji]
        · exact .inl ⟨x, (chans_setChan_of_ne s (sub.trySend e) (Ne.symm hij)).symm.trans hx, rfl⟩
  | sendClosed j e todo sub hmu hj hsub hclosed =>
      have hopen := closed_of_open (hinv.subs_open j (hinv.todo_subs e todo hmu j hj)) hsub
      exact absurd (hopen.symm.trans hclosed) (by simp)
  | published e hmu =>
      exact h.quiet (by simpa [offeredNow] using hoffered)
        (by simpa [publishedNow] using hpublished) (by simp [State.pending, hmu])
        (fun x hx => .inl ⟨x, hx, rfl⟩) (fun hnone => hnone)
  | unsubscribe j sub hmu hsub =>
      exact h.quiet (by simpa [offeredNow] using hoffered)
        (by simpa [publishedNow] using hpublished) (by simp [State.pending, hmu])
        (fun x hx => .inl ⟨x, hx, rfl⟩) (fun hnone => hnone)
  | close j sub hmu hsub hopen =>
      exact h.quiet (by simpa [offeredNow] using hoffered)
        (by simpa [publishedNow] using hpublished) (by simp [State.pending, hmu])
        (given_setChan hsub rfl) unmade_setChan
  | closeClosed j sub hmu hsub hclosed =>
      have hopen := closed_of_open (hinv.closing j hmu).2 hsub
      exact absurd (hopen.symm.trans hclosed) (by simp)
  | receive j sub sub' hsub hrecv =>
      exact h.quiet (by simpa [offeredNow] using hoffered)
        (by simpa [publishedNow] using hpublished) rfl
        (given_setChan hsub (Subscription.receive_spec hrecv).1) unmade_setChan
  | giveUp j sub hsub hwait =>
      exact h.quiet (by simpa [offeredNow] using hoffered)
        (by simpa [publishedNow] using hpublished) rfl (given_setChan hsub rfl) unmade_setChan

theorem inv_of_run {as : List (Act α)} {s : State α}
    (honce : (as.filterMap Act.unsubscribes).Nodup)
    (hrun : (machine α).run initial as = some s) : Inv s :=
  (always_inv honce).last hrun

theorem offers_of_run {as : List (Act α)} {s : State α}
    (honce : (as.filterMap Act.unsubscribes).Nodup)
    (hrun : (machine α).run initial as = some s) (i : Nat) : Offers i as s := by
  refine Machine.run_induction (M := machine α)
    (J := fun as s => (as.filterMap Act.unsubscribes).Nodup → Offers i as s)
    (fun _ => offers_nil i) (fun as a s s' hs ih hstep honce => ?_) hrun honce
  have hfront : (as.filterMap Act.unsubscribes).Nodup :=
    honce.sublist ((List.sublist_append_left as [a]).filterMap _)
  exact (effect_of_step hstep).2.offers hs hstep (inv_of_run hfront hs) (ih hfront)

-- ============================================================================
-- What a step leaves to a subscriber
-- ============================================================================

theorem Subscription.received_trySend (sub : Subscription α) (e : α) :
    sub.received <+: (sub.trySend e).received := by
  unfold trySend
  split
  · exact List.prefix_append ..
  · split
    · exact List.prefix_refl _
    · exact List.prefix_refl _

theorem Subscription.received_receive {sub sub' : Subscription α} (h : sub.receive = some sub') :
    sub.received <+: sub'.received ∧
      (sub.chan.buf = [] → sub'.received = sub.received ∧ sub'.chan.buf = []) := by
  unfold receive at h
  split at h
  · exact absurd h (by simp)
  · split at h
    · rename_i e ch hch
      cases h
      refine ⟨List.prefix_append .., fun hbuf => ?_⟩
      rw [Chan.tryRecv_eq_some.mp hch] at hbuf
      exact absurd hbuf (by simp)
    · split at h
      · cases h
        exact ⟨List.prefix_refl _, fun hbuf => ⟨rfl, hbuf⟩⟩
      · cases h
        exact ⟨List.prefix_refl _, fun hbuf => ⟨rfl, hbuf⟩⟩

/-- What a subscriber has received stays received; once it is unsubscribed and has
    drained its channel, nothing more comes. -/
theorem Effect.received {s s' : State α} {a : Act α} (heff : Effect s a s') (hinv : Inv s) {i : Nat}
    {sub : Subscription α} (hsub : s.chans i = some sub) :
    ∃ sub', s'.chans i = some sub' ∧ sub.received <+: sub'.received ∧
      (i ∉ s.subs → sub.chan.buf = [] →
        sub'.received = sub.received ∧ sub'.chan.buf = []) := by
  have hsame : ∀ s' : State α, s'.chans i = some sub → ∃ sub', s'.chans i = some sub' ∧
      sub.received <+: sub'.received ∧ (i ∉ s.subs → sub.chan.buf = [] →
        sub'.received = sub.received ∧ sub'.chan.buf = []) := fun s' h =>
    ⟨sub, h, List.prefix_refl _, fun _ hbuf => ⟨rfl, hbuf⟩⟩
  -- a step on the channel `j`
  have hset : ∀ j x x', s.chans j = some x → x.received <+: x'.received →
      (j ∉ s.subs → x.chan.buf = [] → x'.received = x.received ∧ x'.chan.buf = []) →
      ∃ sub', (s.setChan j x').chans i = some sub' ∧ sub.received <+: sub'.received ∧
        (i ∉ s.subs → sub.chan.buf = [] →
          sub'.received = sub.received ∧ sub'.chan.buf = []) := by
    intro j x x' hx hle hdrained
    by_cases hij : i = j
    · subst hij
      obtain rfl : x = sub := Option.some.inj (hx.symm.trans hsub)
      exact ⟨x', chans_setChan_self s i x', hle, hdrained⟩
    · exact hsame _ ((chans_setChan_of_ne s x' hij).trans hsub)
  cases heff with
  | subscribe j buf hmu hnew =>
      have hij : i ≠ j := fun hij => by
        rw [← hij, hsub] at hnew
        exact nomatch hnew
      exact hsame _ ((chans_setChan_of_ne s (.make buf) hij).trans hsub)
  | offer j e todo x hmu hj hx hopen =>
      refine hset j x (x.trySend e) hx (x.received_trySend e) fun hout => ?_
      exact absurd (hinv.todo_subs e todo hmu j hj) hout
  | close j x hmu hx hopen => exact hset j x _ hx (List.prefix_refl _) fun _ hbuf => ⟨rfl, hbuf⟩
  | receive j x x' hx hrecv =>
      obtain ⟨hle, hdrained⟩ := Subscription.received_receive hrecv
      exact hset j x x' hx hle fun _ => hdrained
  | giveUp j x hx hwait => exact hset j x _ hx (List.prefix_refl _) fun _ hbuf => ⟨rfl, hbuf⟩
  | publish e hmu => exact hsame _ hsub
  | published e hmu => exact hsame _ hsub
  | unsubscribe j x hmu hx => exact hsame _ hsub
  | sendClosed j e todo x hmu hj hx hclosed => exact hsame _ hsub
  | closeClosed j x hmu hx hclosed => exact hsame _ hsub

/-- Only `Subscribe` and its unsubscribe function change who is subscribed. -/
theorem Effect.mem_subs {s s' : State α} {a : Act α} (heff : Effect s a s') {i : Nat}
    (hsubscribe : ∀ buf, a ≠ .subscribe i buf) (hunsubscribe : a ≠ .unsubscribe i) :
    i ∈ s'.subs ↔ i ∈ s.subs := by
  cases heff with
  | subscribe j buf hmu hnew =>
      have hij : i ≠ j := fun hij => hsubscribe buf (hij ▸ rfl)
      show i ∈ s.subs ++ [j] ↔ i ∈ s.subs
      simp [hij]
  | unsubscribe j sub hmu hsub =>
      have hij : i ≠ j := fun hij => hunsubscribe (hij ▸ rfl)
      show i ∈ s.subs.filter (· ≠ j) ↔ i ∈ s.subs
      simp [hij]
  | _ => exact Iff.rfl

-- ============================================================================
-- Independence of the other subscribers
-- ============================================================================

/-- The subscriber `i`, and everything `Publish` looks at, is the same. -/
structure SameFor (i : Nat) (s t : State α) : Prop where
  mu : t.mu = s.mu
  subs : t.subs = s.subs
  panicked : t.panicked = s.panicked
  own : t.chans i = s.chans i
  status : ∀ j, (t.chans j).map Subscription.closed = (s.chans j).map Subscription.closed

theorem SameFor.refl (i : Nat) (s : State α) : SameFor i s s := ⟨rfl, rfl, rfl, rfl, fun _ => rfl⟩

theorem SameFor.of_some {i j : Nat} {s t : State α} (h : SameFor i s t) {sub : Subscription α}
    (hsub : s.chans j = some sub) :
    ∃ sub', t.chans j = some sub' ∧ sub'.closed = sub.closed ∧ (j = i → sub' = sub) := by
  have hstatus := h.status j
  rw [hsub] at hstatus
  obtain ⟨sub', hsub', hclosed⟩ := Option.map_eq_some_iff.mp hstatus
  refine ⟨sub', hsub', hclosed, fun hji => ?_⟩
  subst hji
  rw [h.own, hsub] at hsub'
  exact (Option.some.inj hsub').symm

theorem SameFor.of_none {i j : Nat} {s t : State α} (h : SameFor i s t) (hsub : s.chans j = none) :
    t.chans j = none := by
  have hstatus := h.status j
  rw [hsub] at hstatus
  exact Option.map_eq_none_iff.mp hstatus

/-- Both runs change the channel of `j`, and `i`, if it is `j`, sees the same. -/
theorem SameFor.setChan {i j : Nat} {s t : State α} (h : SameFor i s t)
    {sub sub' : Subscription α} (hclosed : sub'.closed = sub.closed) (hown : j = i → sub' = sub) :
    SameFor i (s.setChan j sub) (t.setChan j sub') := by
  refine ⟨h.mu, h.subs, h.panicked, ?_, fun k => ?_⟩
  · by_cases hij : i = j
    · subst hij
      rw [chans_setChan_self, chans_setChan_self, hown rfl]
    · rw [chans_setChan_of_ne _ _ hij, chans_setChan_of_ne _ _ hij, h.own]
  · by_cases hkj : k = j
    · subst hkj
      rw [chans_setChan_self, chans_setChan_self, Option.map_some, Option.map_some, hclosed]
    · rw [chans_setChan_of_ne _ _ hkj, chans_setChan_of_ne _ _ hkj, h.status k]

/-- A receive of another subscriber changes nothing for `i`. -/
theorem SameFor.skip {i j : Nat} {s t : State α} (h : SameFor i s t) (hij : i ≠ j)
    {sub sub' : Subscription α} (hsub : s.chans j = some sub)
    (hclosed : sub'.closed = sub.closed) : SameFor i (s.setChan j sub') t := by
  refine ⟨h.mu, h.subs, h.panicked, ?_, fun k => ?_⟩
  · rw [chans_setChan_of_ne _ _ hij, h.own]
  · by_cases hkj : k = j
    · subst hkj
      rw [chans_setChan_self, h.status k, hsub, Option.map_some, Option.map_some, hclosed]
    · rw [chans_setChan_of_ne _ _ hkj, h.status k]

theorem SameFor.skip_step {i : Nat} {s s' t : State α} {a : Act α} (h : SameFor i s t)
    (heff : Effect s a s') (hother : a.concerns i = false) : SameFor i s' t := by
  cases heff with
  | receive j sub sub' hsub hrecv =>
      exact h.skip (by simpa [Act.concerns] using hother) hsub
        (Subscription.receive_spec hrecv).2.1
  | giveUp j sub hsub hwait => exact h.skip (by simpa [Act.concerns] using hother) hsub rfl
  | _ => exact absurd hother (by simp [Act.concerns])

/-- A step that concerns `i` can be taken in both runs, and leads to states that
    are the same for `i`. -/
theorem SameFor.follow {i : Nat} {s s' t : State α} {a : Act α} (h : SameFor i s t)
    (hrunning : s.panicked = false) (heff : Effect s a s') (hconcerns : a.concerns i = true) :
    ∃ t', step t a = some t' ∧ SameFor i s' t' := by
  have hrun : t.panicked = false := h.panicked.trans hrunning
  cases heff with
  | subscribe j buf hmu hnew =>
      have hmu' := h.mu.trans hmu
      have hnew' := h.of_none hnew
      refine ⟨{ t.setChan j (.make buf) with subs := t.subs ++ [j] }, ?_, ?_⟩
      · simp [step, hrun, hmu', hnew']
      · have hset : SameFor i (s.setChan j (.make buf)) (t.setChan j (.make buf)) :=
          h.setChan rfl fun _ => rfl
        exact ⟨hset.mu, congrArg (· ++ [j]) h.subs, hset.panicked, hset.own, hset.status⟩
  | publish e hmu =>
      have hmu' := h.mu.trans hmu
      refine ⟨{ t with mu := .publishing e t.subs }, ?_, ?_⟩
      · simp [step, hrun, hmu']
      · exact ⟨by rw [h.subs], h.subs, h.panicked, h.own, h.status⟩
  | offer j e todo sub hmu hj hsub hopen =>
      obtain ⟨sub', hsub', hclosed, hown⟩ := h.of_some hsub
      have hmu' := h.mu.trans hmu
      have hopen' := hclosed.trans hopen
      refine ⟨{ t.setChan j (sub'.trySend e) with mu := .publishing e (todo.filter (· ≠ j)) },
        ?_, ?_⟩
      · simp [step, hrun, hmu', hsub', hj, hopen']
      · have hset : SameFor i (s.setChan j (sub.trySend e)) (t.setChan j (sub'.trySend e)) :=
          h.setChan (by rw [Subscription.trySend_closed, Subscription.trySend_closed, hclosed])
            (fun hji => by rw [hown hji])
        exact ⟨rfl, hset.subs, hset.panicked, hset.own, hset.status⟩
  | sendClosed j e todo sub hmu hj hsub hclosed =>
      obtain ⟨sub', hsub', hsame, -⟩ := h.of_some hsub
      have hmu' := h.mu.trans hmu
      have hclosed' := hsame.trans hclosed
      refine ⟨{ t with panicked := true }, ?_, ⟨h.mu, h.subs, rfl, h.own, h.status⟩⟩
      simp [step, hrun, hmu', hsub', hj, hclosed']
  | published e hmu =>
      have hmu' := h.mu.trans hmu
      refine ⟨{ t with mu := .free }, ?_, ⟨rfl, h.subs, h.panicked, h.own, h.status⟩⟩
      simp [step, hrun, hmu']
  | unsubscribe j sub hmu hsub =>
      obtain ⟨sub', hsub', -, -⟩ := h.of_some hsub
      have hmu' := h.mu.trans hmu
      refine ⟨{ t with subs := t.subs.filter (· ≠ j), mu := .unsubscribing j }, ?_, ?_⟩
      · simp [step, hrun, hmu', hsub']
      · exact ⟨rfl, by rw [h.subs], h.panicked, h.own, h.status⟩
  | close j sub hmu hsub hopen =>
      obtain ⟨sub', hsub', hclosed, hown⟩ := h.of_some hsub
      have hmu' := h.mu.trans hmu
      have hopen' := hclosed.trans hopen
      refine ⟨{ t.setChan j { sub' with closed := true, waiting := false } with mu := .free },
        ?_, ?_⟩
      · simp [step, hrun, hmu', hsub', hopen']
      · have hset : SameFor i (s.setChan j { sub with closed := true, waiting := false })
            (t.setChan j { sub' with closed := true, waiting := false }) :=
          h.setChan rfl (fun hji => by rw [hown hji])
        exact ⟨rfl, hset.subs, hset.panicked, hset.own, hset.status⟩
  | closeClosed j sub hmu hsub hclosed =>
      obtain ⟨sub', hsub', hsame, -⟩ := h.of_some hsub
      have hmu' := h.mu.trans hmu
      have hclosed' := hsame.trans hclosed
      refine ⟨{ t with panicked := true }, ?_, ⟨h.mu, h.subs, rfl, h.own, h.status⟩⟩
      simp [step, hrun, hmu', hsub', hclosed']
  | receive j sub sub' hsub hrecv =>
      obtain rfl : i = j := by simpa [Act.concerns] using hconcerns
      have hsub' := h.own.trans hsub
      refine ⟨t.setChan i sub', ?_, h.setChan rfl fun _ => rfl⟩
      simp [step, hrun, hsub', hrecv]
  | giveUp j sub hsub hwait =>
      obtain rfl : i = j := by simpa [Act.concerns] using hconcerns
      have hsub' := h.own.trans hsub
      refine ⟨t.setChan i { sub with waiting := false }, ?_, h.setChan rfl fun _ => rfl⟩
      simp [step, hrun, hsub', hwait]

/-- A run without the receives of the other subscribers. -/
theorem SameFor.project {i : Nat} {s s' t : State α} {as : List (Act α)} (h : SameFor i s t)
    (hrun : (machine α).run s as = some s') :
    ∃ t', (machine α).run t (as.filter (Act.concerns i)) = some t' ∧ SameFor i s' t' := by
  induction as generalizing s t with
  | nil =>
      cases hrun
      exact ⟨t, rfl, h⟩
  | cons a as ih =>
      obtain ⟨s₁, hs₁, hrest⟩ := Machine.run_cons_some hrun
      obtain ⟨hrunning, heff⟩ := effect_of_step hs₁
      cases hconcerns : a.concerns i with
      | true =>
          obtain ⟨t₁, ht₁, hsame⟩ := h.follow hrunning heff hconcerns
          obtain ⟨t', ht', hend⟩ := ih hsame hrest
          refine ⟨t', ?_, hend⟩
          rw [List.filter_cons_of_pos hconcerns, Machine.run_cons]
          exact Option.bind_eq_some_iff.mpr ⟨t₁, ht₁, ht'⟩
      | false =>
          rw [List.filter_cons_of_neg (by simp [hconcerns])]
          exact ih (h.skip_step heff hconcerns) hrest

-- ============================================================================
-- Delivery
-- ============================================================================

/-- Delivery by the event bus, in every run in which each unsubscribe function is
    called at most once: nothing is sent on a closed channel; a subscriber has been
    given, in order and once each, the events published while it was subscribed for
    which its buffer had room when they were offered to it; and it would have been
    given the same had no other subscriber received anything. -/
theorem eventBus_delivers {as : List (Act α)} {s : State α}
    (honce : (as.filterMap Act.unsubscribes).Nodup)
    (hrun : (machine α).run initial as = some s) :
    s.panicked = false ∧
      ∀ i sub, s.chans i = some sub →
        sub.received ++ sub.chan.buf = ((offeredTo i as).filter Prod.snd).map Prod.fst ∧
          (offeredTo i as).map Prod.fst ++ s.pending i = publishedTo i as ∧
          ∃ t, (machine α).run initial (as.filter (Act.concerns i)) = some t ∧
            t.chans i = some sub := by
  refine ⟨(inv_of_run honce hrun).running, fun i sub hsub => ?_⟩
  have hoffers : Offers i as s := offers_of_run honce hrun i
  obtain ⟨t, ht, hsame⟩ := (SameFor.refl i initial).project hrun
  exact ⟨hoffers.given sub hsub, hoffers.published, t, ht, hsame.own.trans hsub⟩

/-- Two subscribers, the second of which never receives and is full after one
    event. -/
theorem eventBus_delivers_two : ∃ s sub,
    (machine Nat).run initial
      [.subscribe 0 2, .subscribe 1 1, .publish 7, .offer 1, .offer 0, .published, .receive 0,
        .publish 8, .offer 0, .offer 1, .published, .unsubscribe 1, .close] = some s ∧
      s.chans 0 = some sub ∧ s.panicked = false ∧ sub.received ++ sub.chan.buf = [7, 8] := by
  obtain ⟨s, hs⟩ : ∃ s, (machine Nat).run initial
      [.subscribe 0 2, .subscribe 1 1, .publish 7, .offer 1, .offer 0, .published, .receive 0,
        .publish 8, .offer 0, .offer 1, .published, .unsubscribe 1, .close] = some s := ⟨_, rfl⟩
  have h := eventBus_delivers (by decide) hs
  obtain ⟨sub, hsub⟩ : ∃ sub, s.chans 0 = some sub := by
    cases hs
    exact ⟨_, rfl⟩
  exact ⟨s, sub, hs, hsub, h.1, (h.2 0 sub hsub).1⟩

end FsBridge.Bridge.EventBus
