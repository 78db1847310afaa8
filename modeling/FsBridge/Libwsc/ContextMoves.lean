/-
  FsBridge.Libwsc.ContextMoves

  What the operations of the context can do.

  * Quiet steps: the connection sends, takes entries out of the queue, puts messages
    into it, and asks for events.  What the application does inside a callback is made
    of them.
  * Moves: quiet steps, flags, and changes of the state to a closing one.  An
    invariant of what is sent is checked on these.
  * Acts: what the event thread does, with what it does together and where.  An
    invariant of how the connection ends is checked on these.

  Each operation is a sequence of acts, and acts are moves.
-/

import FsBridge.Libwsc.Client
import Mathlib.Logic.Relation

namespace FsBridge.Libwsc

open FsBridge.Lib

def Callback.isError : Callback → Bool
  | .error _ _ => true
  | _ => false

def Callback.isMessage : Callback → Bool
  | .message _ => true
  | .binary _ => true
  | _ => false

section ContextMoves

variable {Z : Zlib} {app : App}

namespace Context

-- ============================================================================
-- Quiet steps
-- ============================================================================

/-- An event is asked for, or a stop. -/
structure Marks (x x' : Context Z) : Prop where
  stop_requested : x.stop_requested = true → x'.stop_requested = true
  rest : x' = { x with
    stop_requested := x'.stop_requested
    wakeup_active := x'.wakeup_active
    send_active := x'.send_active
    send_flush_pending := x'.send_flush_pending }

inductive Quiet1 (app : App) (x : Context Z) : Context Z → Prop where
  /-- A message, a ping or a pong is sent. -/
  | send (type : MessageType) (raw : Bytes) (hup : x.upgraded = true)
      (hopen : x.isClosing = false) (htype : type ≠ .close) : Quiet1 app x (x.send app type raw)
  /-- The head of the queue is taken by a flush. -/
  | pop (p : Pending) (rest : List Pending) (hqueue : x.send_queue = p :: rest) :
      Quiet1 app x
        (flushOne app (x.connection_state = .connected) { x with send_queue := rest } p)
  /-- A message is queued. -/
  | push (p : Pending) (hp : ∀ payload, p ≠ .close payload) : Quiet1 app x (x.push p).2
  | mark (x' : Context Z) (h : Marks x x') : Quiet1 app x x'

/-- A sequence of quiet steps. -/
def Quiet (app : App) : Context Z → Context Z → Prop := Relation.ReflTransGen (Quiet1 app)

theorem Quiet.refl (x : Context Z) : Quiet app x x := Relation.ReflTransGen.refl

theorem Quiet.trans {x y z : Context Z} (h : Quiet app x y) (h' : Quiet app y z) :
    Quiet app x z := Relation.ReflTransGen.trans h h'

theorem Quiet1.quiet {x y : Context Z} (h : Quiet1 app x y) : Quiet app x y :=
  Relation.ReflTransGen.single h

/-- What each quiet step keeps, quiet steps keep. -/
theorem Quiet.keeps {P : Context Z → Prop} (hstep : ∀ x x', P x → Quiet1 app x x' → P x')
    {x x' : Context Z} (h : Quiet app x x') (hx : P x) : P x' := by
  induction h with
  | refl => exact hx
  | tail _ hlast ih => exact hstep _ _ ih hlast

/-- What the application does in a callback. -/
inductive Call1 (app : App) (x : Context Z) : Context Z → Prop where
  | send (type : MessageType) (raw : Bytes) (hup : x.upgraded = true)
      (hopen : x.isClosing = false) (htype : type ≠ .close) : Call1 app x (x.send app type raw)
  | push (p : Pending) (hp : ∀ payload, p ≠ .close payload)
      (hconnecting : x.connection_state = .connecting) : Call1 app x (x.push p).2
  | stop : Call1 app x x.stop

def Calls (app : App) : Context Z → Context Z → Prop := Relation.ReflTransGen (Call1 app)

theorem Calls.refl (x : Context Z) : Calls app x x := Relation.ReflTransGen.refl

theorem Calls.trans {x y z : Context Z} (h : Calls app x y) (h' : Calls app y z) :
    Calls app x z := Relation.ReflTransGen.trans h h'

theorem Call1.calls {x y : Context Z} (h : Call1 app x y) : Calls app x y :=
  Relation.ReflTransGen.single h

/-- What each call of the application keeps, a callback keeps. -/
theorem Calls.keeps {P : Context Z → Prop} (hstep : ∀ x x', P x → Call1 app x x' → P x')
    {x x' : Context Z} (h : Calls app x x') (hx : P x) : P x' := by
  induction h with
  | refl => exact hx
  | tail _ hlast ih => exact hstep _ _ ih hlast

-- ============================================================================
-- The operations that are quiet
-- ============================================================================

/-- A stop asks for a wakeup and sends nothing. -/
theorem quiet_stop (x : Context Z) : Quiet app x x.stop := by
  refine Quiet1.quiet (.mark _ ⟨fun _ => ?_, ?_⟩)
  · unfold stop requestWakeup
    split <;> rfl
  · unfold stop requestWakeup
    split <;> rfl

/-- A flush that is asked for is an event that is made active. -/
theorem quiet_requestSendFlush (x : Context Z) : Quiet app x x.requestSendFlush := by
  unfold requestSendFlush
  split
  · exact .refl x
  · split
    · exact Quiet1.quiet (.mark _ ⟨id, rfl⟩)
    · exact .refl x

theorem Call1.quiet1 {x x' : Context Z} (h : Call1 app x x') : Quiet app x x' := by
  cases h with
  | send type raw hup hopen htype => exact Quiet1.quiet (.send type raw hup hopen htype)
  | push p hp hconnecting => exact Quiet1.quiet (.push p hp)
  | stop => exact quiet_stop x

/-- A callback is a sequence of quiet steps. -/
theorem Calls.quiet {x x' : Context Z} (h : Calls app x x') : Quiet app x x' :=
  h.keeps (P := Quiet app x) (fun _ _ hx hstep => hx.trans hstep.quiet1) (.refl x)

/-- What `sendNow` can do. -/
theorem sendNow_cases (x : Context Z) (type : MessageType) (raw : Bytes) :
    x.sendNow app type raw = (false, x) ∨
      (x.connection_state = .connected ∨ type = .close ∧ x.connection_state = .disconnecting) ∧
        (type ≠ .close → x.upgraded = true) ∧
        x.sendNow app type raw = (true, x.send app type raw) := by
  unfold sendNow
  split
  · exact .inl rfl
  · split
    · exact .inl rfl
    · rename_i hstate
      split
      · exact .inl rfl
      · rename_i hup
        refine .inr ⟨not_not.mp hstate, fun htype => ?_, rfl⟩
        by_contra h
        exact hup ⟨htype, h⟩

/-- What a flush does with an entry: it drops it, sends it as a message, or sends it
    as the close frame. -/
theorem flushOne_cases (x : Context Z) (can_send_app : Bool) (p : Pending) :
    flushOne app can_send_app x p = { x with flushed := x.flushed ++ [(p, false)] } ∨
    (∃ type raw, (p = .text raw ∧ type = .text ∨ p = .binary raw ∧ type = .binary) ∧
      can_send_app = true ∧ x.connection_state = .connected ∧ x.upgraded = true ∧
      flushOne app can_send_app x p =
        { x.send app type raw with flushed := x.flushed ++ [(p, true)] }) ∨
    (∃ payload, p = .close payload ∧ x.close_sent = false ∧
      (x.connection_state = .connected ∨ x.connection_state = .disconnecting) ∧
      flushOne app can_send_app x p =
        { x.send app .close payload with
          close_sent := true
          close_timer := true
          flushed := x.flushed ++ [(p, true)] }) := by
  have happ : ∀ type raw, type ≠ .close →
      flushApp app can_send_app x p type raw = { x with flushed := x.flushed ++ [(p, false)] } ∨
      (can_send_app = true ∧ x.connection_state = .connected ∧ x.upgraded = true ∧
        flushApp app can_send_app x p type raw =
          { x.send app type raw with flushed := x.flushed ++ [(p, true)] }) := by
    intro type raw htype
    unfold flushApp
    by_cases hcan : can_send_app = true
    · rw [if_pos hcan]
      rcases @sendNow_cases Z app x type raw with h | ⟨hstate, hup, h⟩
      · exact .inl (by rw [h])
      · have hconnected := hstate.resolve_right fun hclose => htype hclose.1
        exact .inr ⟨hcan, hconnected, hup htype, by rw [h]⟩
    · exact .inl (if_neg hcan)
  cases p with
  | text s =>
      rcases happ .text s (by decide) with h | ⟨hcan, hstate, hup, h⟩
      · exact .inl h
      · exact .inr (.inl ⟨.text, s, .inl ⟨rfl, rfl⟩, hcan, hstate, hup, h⟩)
  | binary b =>
      rcases happ .binary b (by decide) with h | ⟨hcan, hstate, hup, h⟩
      · exact .inl h
      · exact .inr (.inl ⟨.binary, b, .inr ⟨rfl, rfl⟩, hcan, hstate, hup, h⟩)
  | close payload =>
      unfold flushOne
      by_cases hsent : x.close_sent = true
      · exact .inl (if_pos hsent)
      · rcases @sendNow_cases Z app x .close payload with h | ⟨hstate, -, h⟩
        · exact .inl (by dsimp only; rw [if_neg hsent, h]; rfl)
        · refine .inr (.inr ⟨payload, rfl, Bool.eq_false_iff.mpr hsent, ?_, ?_⟩)
          · exact hstate.imp id fun hclose => hclose.2
          · dsimp only
            rw [if_neg hsent, h, if_pos rfl]

/-- A flush sees one state of the connection for all its entries. -/
theorem flushOne_fields (x : Context Z) (can_send_app : Bool) (p : Pending) :
    (flushOne app can_send_app x p).connection_state = x.connection_state ∧
      (flushOne app can_send_app x p).send_queue = x.send_queue := by
  rcases @flushOne_cases Z app x can_send_app p with
    h | ⟨_, _, _, _, _, _, h⟩ | ⟨_, _, _, _, h⟩ <;> rw [h] <;> exact ⟨rfl, rfl⟩

/-- The context with another queue. -/
def withQueue (x : Context Z) (q : List Pending) : Context Z := { x with send_queue := q }

/-- Sending has nothing to do with the queue. -/
theorem sendNow_withQueue (x : Context Z) (q : List Pending) (type : MessageType) (raw : Bytes) :
    (x.withQueue q).sendNow app type raw =
      ((x.sendNow app type raw).1, (x.sendNow app type raw).2.withQueue q) := by
  unfold sendNow withQueue
  dsimp only
  split
  · rfl
  · split
    · rfl
    · split <;> rfl

/-- Nor has what a flush does with an entry. -/
theorem flushOne_withQueue (x : Context Z) (q : List Pending) (can_send_app : Bool)
    (p : Pending) :
    flushOne app can_send_app (x.withQueue q) p =
      (flushOne app can_send_app x p).withQueue q := by
  cases p with
  | text s =>
      unfold flushOne flushApp
      dsimp only
      rw [sendNow_withQueue]
      split <;> rfl
  | binary b =>
      unfold flushOne flushApp
      dsimp only
      rw [sendNow_withQueue]
      split <;> rfl
  | close payload =>
      unfold flushOne
      dsimp only
      rw [sendNow_withQueue]
      unfold withQueue
      split
      · rfl
      · split <;> rfl

/-- A message that is sent at once goes out on an open connection. -/
theorem calls_sendNow {x : Context Z} {type : MessageType} (htype : type ≠ .close) (raw : Bytes) :
    Calls app x (x.sendNow app type raw).2 := by
  rcases @sendNow_cases Z app x type raw with h | ⟨hstate, hup, h⟩
  · rw [h]
    exact .refl x
  · have hconnected := hstate.resolve_right fun hclose => htype hclose.1
    rw [h]
    exact Call1.calls (.send type raw (hup htype) (by simp [isClosing, hconnected]) htype)

/-- A message is queued while the connection is set up, and sent at once after that. -/
theorem calls_sendData (x : Context Z) (p : Pending) : Calls app x (x.sendData app p) := by
  cases p with
  | text s =>
      unfold sendData
      dsimp only
      split
      · exact Call1.calls (.push _ (by simp) ‹_›)
      · exact calls_sendNow (by decide) s
  | binary b =>
      unfold sendData
      dsimp only
      split
      · exact Call1.calls (.push _ (by simp) ‹_›)
      · exact calls_sendNow (by decide) b
  | close payload => exact .refl x

theorem calls_call (x : Context Z) (c : AppCall) : Calls app x (x.call app c) := by
  cases c with
  | sendMessage s => exact calls_sendData x (.text s)
  | sendBinary b => exact calls_sendData x (.binary b)
  | disconnect => exact Call1.calls .stop

/-- What an application does in a callback. -/
theorem calls_callback (x : Context Z) (cb : Callback) :
    Calls app { x with callbacks := x.callbacks ++ [cb] } (x.callback app cb) := by
  unfold callback
  generalize app.onCallback (x.callbacks ++ [cb]) = calls
  generalize { x with callbacks := x.callbacks ++ [cb] } = y
  induction calls generalizing y with
  | nil => exact .refl y
  | cons c calls ih =>
      rw [List.foldl_cons]
      exact (calls_call y c).trans (ih _)

/-- A callback is told, and what the application does in it is quiet. -/
theorem quiet_callback (x : Context Z) (cb : Callback) :
    Quiet app { x with callbacks := x.callbacks ++ [cb] } (x.callback app cb) :=
  (calls_callback x cb).quiet

theorem calls_sendPing (x : Context Z) : Calls app x (x.sendPing app) := by
  unfold sendPing
  split
  · exact .refl x
  · exact calls_sendNow (by decide) _

theorem quiet_sendPing (x : Context Z) : Quiet app x (x.sendPing app) := (calls_sendPing x).quiet

/-- One entry is taken out by a flush. -/
inductive Pop1 (app : App) (x : Context Z) : Context Z → Prop where
  | pop (p : Pending) (rest : List Pending) (hqueue : x.send_queue = p :: rest) : Pop1 app x
      (flushOne app (x.connection_state = .connected) { x with send_queue := rest } p)

def Pops (app : App) : Context Z → Context Z → Prop := Relation.ReflTransGen (Pop1 app)

/-- What each entry taken out keeps, a flush keeps. -/
theorem Pops.keeps {P : Context Z → Prop} (hstep : ∀ x x', P x → Pop1 app x x' → P x')
    {x x' : Context Z} (h : Pops app x x') (hx : P x) : P x' := by
  induction h with
  | refl => exact hx
  | tail _ hlast ih => exact hstep _ _ ih hlast

theorem Pop1.quiet1 {x x' : Context Z} (h : Pop1 app x x') : Quiet1 app x x' := by
  obtain ⟨p, rest, hqueue⟩ := h
  exact .pop p rest hqueue

/-- A flush is a sequence of quiet steps. -/
theorem Pops.quiet {x x' : Context Z} (h : Pops app x x') : Quiet app x x' :=
  h.keeps (P := Quiet app x) (fun _ _ hx hstep => hx.tail hstep.quiet1) (.refl x)

/-- A flush takes the entries out one by one, all for the state it starts in. -/
theorem pops_flushQueue (queue : List Pending) (x : Context Z) :
    Pops app (x.withQueue queue)
      (queue.foldl (flushOne app (x.connection_state = .connected)) (x.withQueue [])) := by
  induction queue generalizing x with
  | nil => exact Relation.ReflTransGen.refl
  | cons p rest ih =>
      have hpop := Relation.ReflTransGen.single (@Pop1.pop Z app (x.withQueue (p :: rest)) p rest rfl)
      have hhead : flushOne app (x.connection_state = .connected) (x.withQueue rest) p =
          (flushOne app (x.connection_state = .connected) x p).withQueue rest :=
        flushOne_withQueue x rest _ p
      have hih := ih (flushOne app (x.connection_state = .connected) x p)
      rw [(flushOne_fields x _ p).1] at hih
      rw [List.foldl_cons, flushOne_withQueue]
      refine Relation.ReflTransGen.trans hpop ?_
      have heq : flushOne app ((x.withQueue (p :: rest)).connection_state = .connected)
          { x.withQueue (p :: rest) with send_queue := rest } p =
            (flushOne app (x.connection_state = .connected) x p).withQueue rest := hhead
      rw [heq]
      exact hih

/-- A flush takes out the whole queue, entry by entry. -/
theorem pops_flushSendQueue (x : Context Z) : Pops app x (x.flushSendQueue app) :=
  pops_flushQueue x.send_queue x

theorem quiet_flushSendQueue (x : Context Z) : Quiet app x (x.flushSendQueue app) :=
  (pops_flushSendQueue x).quiet

/-- A flush leaves nothing in the queue. -/
theorem flushSendQueue_queue (x : Context Z) : (x.flushSendQueue app).send_queue = [] := by
  unfold flushSendQueue
  have hfold : ∀ (can : Bool) (queue : List Pending) (y : Context Z), y.send_queue = [] →
      (queue.foldl (flushOne app can) y).send_queue = [] := by
    intro can queue
    induction queue with
    | nil => exact fun y hy => hy
    | cons p queue ih => exact fun y hy => ih _ ((flushOne_fields y can p).2.trans hy)
  exact hfold _ x.send_queue _ rfl

-- ============================================================================
-- What they leave alone
-- ============================================================================

structure SameState (x x' : Context Z) : Prop where
  connection_state : x'.connection_state = x.connection_state
  upgraded : x'.upgraded = x.upgraded
  close_received : x'.close_received = x.close_received
  protocol_failed : x'.protocol_failed = x.protocol_failed
  close_cb_fired : x'.close_cb_fired = x.close_cb_fired
  use_compression : x'.use_compression = x.use_compression
  base : x'.base = x.base
  timeout_event : x'.timeout_event = x.timeout_event
  loopexit : x'.loopexit = x.loopexit
  callbacks : x'.callbacks = x.callbacks
  stop_requested : x.stop_requested = true → x'.stop_requested = true

theorem SameState.refl (x : Context Z) : SameState x x :=
  ⟨rfl, rfl, rfl, rfl, rfl, rfl, rfl, rfl, rfl, rfl, id⟩

theorem SameState.trans {x y z : Context Z} (h : SameState x y) (h' : SameState y z) :
    SameState x z :=
  ⟨h'.1.trans h.1, h'.2.trans h.2, h'.3.trans h.3, h'.4.trans h.4, h'.5.trans h.5, h'.6.trans h.6,
    h'.7.trans h.7, h'.8.trans h.8, h'.9.trans h.9, h'.10.trans h.10, fun hx => h'.11 (h.11 hx)⟩

theorem sameState_send (x : Context Z) (type : MessageType) (raw : Bytes) :
    SameState x (x.send app type raw) :=
  ⟨rfl, rfl, rfl, rfl, rfl, rfl, rfl, rfl, rfl, rfl, id⟩

/-- A quiet step leaves the state of the connection alone. -/
theorem Quiet1.sameState {x x' : Context Z} (h : Quiet1 app x x') : SameState x x' := by
  cases h with
  | send type raw hup hopen htype => exact sameState_send x type raw
  | pop p rest hqueue =>
      rcases @flushOne_cases Z app { x with send_queue := rest }
        (x.connection_state = .connected) p with
        h | ⟨_, _, _, _, _, _, h⟩ | ⟨_, _, _, _, h⟩ <;> rw [h] <;>
          exact ⟨rfl, rfl, rfl, rfl, rfl, rfl, rfl, rfl, rfl, rfl, id⟩
  | push p hp =>
      unfold Context.push
      split <;> exact ⟨rfl, rfl, rfl, rfl, rfl, rfl, rfl, rfl, rfl, rfl, id⟩
  | mark x' h =>
      obtain ⟨hstop, hrest⟩ := h
      rw [hrest]
      exact ⟨rfl, rfl, rfl, rfl, rfl, rfl, rfl, rfl, rfl, rfl, hstop⟩

/-- Quiet steps leave the state of the connection alone. -/
theorem Quiet.sameState {x x' : Context Z} (h : Quiet app x x') : SameState x x' :=
  h.keeps (P := SameState x) (fun _ _ hx hstep => hx.trans hstep.sameState) (.refl x)

theorem SameState.isClosing {x x' : Context Z} (h : SameState x x') :
    x'.isClosing = x.isClosing := by
  unfold Context.isClosing
  rw [h.connection_state]

/-- The receiver does not begin again. -/
theorem SameState.rxIsTerminating {x x' : Context Z} (h : SameState x x')
    (hx : x.rxIsTerminating = true) : x'.rxIsTerminating = true := by
  unfold Context.rxIsTerminating at hx ⊢
  rw [Bool.or_eq_true] at hx ⊢
  exact hx.imp (fun hclosing => h.isClosing.trans hclosing) h.stop_requested

/-- What a flush leaves alone, and that a connection which is not connected has none of
    its messages sent. -/
structure Popped (x x' : Context Z) : Prop where
  wakeup_active : x'.wakeup_active = x.wakeup_active
  send_active : x'.send_active = x.send_active
  send_flush_pending : x'.send_flush_pending = x.send_flush_pending
  stop_requested : x'.stop_requested = x.stop_requested
  queued : x'.queued = x.queued
  flushed : ∃ later, x'.flushed = x.flushed ++ later ∧
    later.map Prod.fst ++ x'.send_queue = x.send_queue ∧
    (x.connection_state ≠ .connected → ∀ e ∈ later, e.2 = true → ∃ payload, e.1 = .close payload)

/-- One entry is taken out of the queue and noted, with whether it went out. -/
theorem Pop1.popped {x x' : Context Z} (h : Pop1 app x x') : Popped x x' := by
  obtain ⟨p, rest, hqueue⟩ := h
  have hone : ∀ sent : Bool, [(p, sent)].map Prod.fst ++ rest = x.send_queue := fun _ => hqueue.symm
  rcases @flushOne_cases Z app { x with send_queue := rest }
    (x.connection_state = .connected) p with
    h | ⟨_, _, _, -, hstate, -, h⟩ | ⟨payload, rfl, -, -, h⟩ <;> rw [h]
  · refine ⟨rfl, rfl, rfl, rfl, rfl, _, rfl, hone false, fun _ e he hsent => ?_⟩
    rw [List.mem_singleton.mp he] at hsent
    cases hsent
  · exact ⟨rfl, rfl, rfl, rfl, rfl, _, rfl, hone true, fun hne => absurd hstate hne⟩
  · refine ⟨rfl, rfl, rfl, rfl, rfl, _, rfl, hone true, fun _ e he _ => ⟨payload, ?_⟩⟩
    rw [List.mem_singleton.mp he]

theorem Popped.trans {x y z : Context Z} (h : Popped x y) (h' : Popped y z)
    (hstate : y.connection_state = x.connection_state) : Popped x z := by
  obtain ⟨hw, ha, hf, hs, hq, later, hlater, hmap, hnone⟩ := h
  obtain ⟨hw', ha', hf', hs', hq', later', hlater', hmap', hnone'⟩ := h'
  refine ⟨hw'.trans hw, ha'.trans ha, hf'.trans hf, hs'.trans hs, hq'.trans hq, later ++ later',
    ?_, ?_, fun hne e he => ?_⟩
  · rw [hlater', hlater, List.append_assoc]
  · rw [List.map_append, List.append_assoc, hmap', hmap]
  · rcases List.mem_append.mp he with he | he
    · exact hnone hne e he
    · exact hnone' (hstate ▸ hne) e he

/-- A flush notes the queue in order, and what went out of it. -/
theorem popped_flushSendQueue (x : Context Z) : Popped x (x.flushSendQueue app) := by
  have hinit : Popped x x ∧ SameState x x :=
    ⟨⟨rfl, rfl, rfl, rfl, rfl, [], (List.append_nil _).symm, rfl,
      fun _ e he => absurd he List.not_mem_nil⟩, .refl x⟩
  refine ((pops_flushSendQueue x).keeps (P := fun y => Popped x y ∧ SameState x y)
    (fun y z hy hstep => ?_) hinit).1
  exact ⟨hy.1.trans hstep.popped hy.2.connection_state, hy.2.trans hstep.quiet1.sameState⟩

-- ============================================================================
-- Moves
-- ============================================================================

/-- Flags are set, events are asked for and callbacks are called; nothing is sent. -/
structure Flags (x x' : Context Z) : Prop where
  rest : x' = { x with
    stop_requested := x'.stop_requested
    close_received := x'.close_received
    protocol_failed := x'.protocol_failed
    close_cb_fired := x'.close_cb_fired
    wakeup_active := x'.wakeup_active
    send_active := x'.send_active
    send_flush_pending := x'.send_flush_pending
    timeout_event := x'.timeout_event
    loopexit := x'.loopexit
    callbacks := x'.callbacks }
  told : x.callbacks <+: x'.callbacks

/-- What the event thread does with a connection. -/
inductive Move (app : App) (x : Context Z) : Context Z → Prop where
  | quiet (x' : Context Z) (h : Quiet1 app x x') : Move app x x'
  | flags (x' : Context Z) (h : Flags x x') : Move app x x'
  | closing (state : ConnectionState) (h : state = .disconnecting ∨ state = .disconnected) :
      Move app x { x with connection_state := state }
  | queueClose (payload : Bytes) (hlen : payload.length ≤ 125) (hup : x.upgraded = true)
      (hclosing : x.isClosing = true) (hroom : x.send_queue.length < maxQueueSize) :
      Move app x { x with
        send_queue := x.send_queue ++ [.close payload]
        queued := x.queued ++ [.close payload] }
  | clearQueue (hup : x.upgraded = false) : Move app x x.clearQueue

def Moves (app : App) : Context Z → Context Z → Prop := Relation.ReflTransGen (Move app)

theorem Moves.refl (x : Context Z) : Moves app x x := Relation.ReflTransGen.refl

theorem Moves.trans {x y z : Context Z} (h : Moves app x y) (h' : Moves app y z) :
    Moves app x z := Relation.ReflTransGen.trans h h'

theorem Move.moves {x y : Context Z} (h : Move app x y) : Moves app x y :=
  Relation.ReflTransGen.single h

/-- What each move keeps, moves keep. -/
theorem Moves.keeps {P : Context Z → Prop} (hstep : ∀ x x', P x → Move app x x' → P x')
    {x x' : Context Z} (h : Moves app x x') (hx : P x) : P x' := by
  induction h with
  | refl => exact hx
  | tail _ hlast ih => exact hstep _ _ ih hlast

/-- Quiet steps are moves. -/
theorem Quiet.moves {x x' : Context Z} (h : Quiet app x x') : Moves app x x' :=
  h.keeps (P := Moves app x) (fun _ _ hx hstep => hx.tail (.quiet _ hstep)) (.refl x)

/-- What the application has been told is not taken back. -/
theorem Move.told {x x' : Context Z} (h : Move app x x') : x.callbacks <+: x'.callbacks := by
  cases h with
  | quiet x' hstep => exact ⟨[], (List.append_nil _).trans hstep.sameState.callbacks.symm⟩
  | flags x' hflags => exact hflags.told
  | closing state hstate => exact List.prefix_rfl
  | queueClose payload hlen hup hclosing hroom => exact List.prefix_rfl
  | clearQueue hup => exact List.prefix_rfl

/-- Moves are made by a connection that has been set up. -/
structure SameSetup (x x' : Context Z) : Prop where
  upgraded : x'.upgraded = x.upgraded
  base : x'.base = x.base

/-- No move sets up or takes down a connection. -/
theorem Moves.sameSetup {x x' : Context Z} (h : Moves app x x') : SameSetup x x' := by
  refine h.keeps (P := SameSetup x) (fun y y' hy hmove => ?_) ⟨rfl, rfl⟩
  cases hmove with
  | quiet y' hstep =>
      have hsame := hstep.sameState
      exact ⟨hsame.upgraded.trans hy.upgraded, hsame.base.trans hy.base⟩
  | flags y' hflags =>
      have hrest := hflags.rest
      rw [hrest]
      exact ⟨hy.upgraded, hy.base⟩
  | closing state hstate => exact ⟨hy.upgraded, hy.base⟩
  | queueClose payload hlen hup hclosing hroom => exact ⟨hy.upgraded, hy.base⟩
  | clearQueue hup => exact ⟨hy.upgraded, hy.base⟩

theorem upgraded_of_moves {x x' : Context Z} (h : Moves app x x') : x'.upgraded = x.upgraded :=
  h.sameSetup.upgraded

theorem base_of_moves {x x' : Context Z} (h : Moves app x x') : x'.base = x.base :=
  h.sameSetup.base

-- ============================================================================
-- Closing
-- ============================================================================

/-- A close frame is a control frame: its payload fits. -/
theorem length_closePayload (code : Nat) (reason : Bytes) :
    (closePayload code reason).length ≤ 125 := by
  rw [closePayload, List.length_append, length_beBytes, List.length_take]
  omega

/-- What `close` can do. -/
theorem close_cases (x : Context Z) (code : Nat) (reason : Bytes) :
    x.isClosing = true ∧ x.close code reason = x ∨
    (x.upgraded = false ∨ x.base = false) ∧
      x.close code reason = { x with connection_state := .disconnected }.requestLoopExit ∨
    (x.upgraded = true ∧ x.base = true) ∧
      (x.close_sent = true ∧
          x.close code reason = { x with connection_state := .disconnecting } ∨
        x.close_sent = false ∧ x.close code reason =
          { x with connection_state := .disconnecting }.requestLoopExit ∨
        (x.close_sent = false ∧ x.send_queue.length < maxQueueSize) ∧ x.close code reason =
          { x with
            connection_state := .disconnecting
            send_queue := x.send_queue ++ [Pending.close (closePayload code reason)]
            queued := x.queued ++ [Pending.close (closePayload code reason)] }.requestSendFlush) := by
  unfold close
  by_cases hclosing : x.isClosing = true
  · exact .inl ⟨hclosing, if_pos hclosing⟩
  rw [if_neg hclosing]
  by_cases hup : ¬ x.upgraded = true ∨ ¬ x.base = true
  · rw [if_pos hup]
    exact .inr (.inl ⟨hup.imp Bool.eq_false_iff.mpr Bool.eq_false_iff.mpr, rfl⟩)
  rw [if_neg hup]
  rw [not_or, not_not, not_not] at hup
  refine .inr (.inr ⟨hup, ?_⟩)
  by_cases hsent : x.close_sent = true
  · exact .inl ⟨hsent, if_pos hsent⟩
  · have hsent' := Bool.eq_false_iff.mpr hsent
    dsimp only
    rw [if_neg hsent]
    unfold push
    by_cases hroom : maxQueueSize ≤ x.send_queue.length
    · exact .inr (.inl ⟨hsent', by dsimp only; rw [if_pos hroom]⟩)
    · exact .inr (.inr ⟨⟨hsent', Nat.lt_of_not_le hroom⟩, by dsimp only; rw [if_neg hroom]⟩)

/-- `close` leaves the connection closing. -/
theorem isClosing_close (x : Context Z) (code : Nat) (reason : Bytes) :
    (x.close code reason).isClosing = true := by
  have hexit : ∀ y : Context Z, y.requestLoopExit.isClosing = y.isClosing := by
    intro y
    unfold requestLoopExit
    split <;> rfl
  rcases close_cases x code reason with ⟨h, heq⟩ | ⟨-, heq⟩ | ⟨-, ⟨-, heq⟩ | ⟨-, heq⟩ | ⟨-, heq⟩⟩
  · rw [heq]
    exact h
  · rw [heq, hexit]
    rfl
  · rw [heq]
    rfl
  · rw [heq, hexit]
    rfl
  · rw [heq, (@quiet_requestSendFlush Z .idle _).sameState.isClosing]
    rfl

/-- An exit that is asked for is a stop, and changes no state. -/
theorem requestLoopExit_fields (x : Context Z) :
    x.requestLoopExit.upgraded = x.upgraded ∧ x.requestLoopExit.isClosing = x.isClosing ∧
      x.requestLoopExit.use_compression = x.use_compression ∧
      x.requestLoopExit.stop_requested = true := by
  unfold requestLoopExit
  split <;> exact ⟨rfl, rfl, rfl, rfl⟩

/-- Closing does not undo the handshake. -/
theorem upgraded_close (x : Context Z) (code : Nat) (reason : Bytes) :
    (x.close code reason).upgraded = x.upgraded := by
  rcases close_cases x code reason with ⟨-, heq⟩ | ⟨-, heq⟩ | ⟨-, ⟨-, heq⟩ | ⟨-, heq⟩ | ⟨-, heq⟩⟩
  · rw [heq]
  · rw [heq]
    exact (requestLoopExit_fields _).1
  · rw [heq]
  · rw [heq]
    exact (requestLoopExit_fields _).1
  · rw [heq]
    exact (@quiet_requestSendFlush Z .idle _).sameState.upgraded

/-- The state of a context behind a callback. -/
theorem callback_sameState (x : Context Z) (cb : Callback) :
    SameState { x with callbacks := x.callbacks ++ [cb] } (x.callback app cb) :=
  (quiet_callback x cb).sameState

/-- The callback of a close leaves the state as it found it; what is terminating stays so. -/
theorem sendCloseCallback_state (x : Context Z) (code : Nat) (reason : Bytes) :
    (x.sendCloseCallback app code reason).isClosing = x.isClosing ∧
      (x.sendCloseCallback app code reason).protocol_failed = x.protocol_failed ∧
      (x.sendCloseCallback app code reason).close_received = x.close_received ∧
      (x.sendCloseCallback app code reason).upgraded = x.upgraded ∧
      (x.rxIsTerminating = true →
        (x.sendCloseCallback app code reason).rxIsTerminating = true) := by
  unfold sendCloseCallback
  split
  · exact ⟨rfl, rfl, rfl, rfl, id⟩
  · have hsame := @callback_sameState Z app { x with close_cb_fired := true }
      (.closed code reason)
    exact ⟨hsame.isClosing, hsame.protocol_failed, hsame.close_received, hsame.upgraded,
      hsame.rxIsTerminating⟩

theorem rxIsTerminating_of_isClosing {x : Context Z} (h : x.isClosing = true) :
    x.rxIsTerminating = true := by
  rw [rxIsTerminating, h, Bool.true_or]

theorem rxIsTerminating_requestLoopExit (x : Context Z) :
    x.requestLoopExit.rxIsTerminating = true := by
  rw [rxIsTerminating, (requestLoopExit_fields x).2.2.2, Bool.or_true]

-- ============================================================================
-- Acts
-- ============================================================================

/-- Flags that only rise, and the timeout that only goes. -/
structure Notes (x x' : Context Z) : Prop where
  close_received : x.close_received = true → x'.close_received = true
  protocol_failed : x.protocol_failed = true → x'.protocol_failed = true
  close_cb_fired : x.close_cb_fired = true → x'.close_cb_fired = true
  timeout_event : x'.timeout_event = true → x.timeout_event = true
  rest : x' = { x with
    close_received := x'.close_received
    protocol_failed := x'.protocol_failed
    close_cb_fired := x'.close_cb_fired
    timeout_event := x'.timeout_event }

/-- What the event thread does with a connection. -/
inductive Act1 (app : App) (x : Context Z) : Context Z → Prop where
  | call (x' : Context Z) (h : Call1 app x x') : Act1 app x x'
  /-- A callback is called; messages are delivered to a connection that is open. -/
  | log (cb : Callback) (hmessage : cb.isMessage = true → x.rxIsTerminating = false) :
      Act1 app x { x with callbacks := x.callbacks ++ [cb] }
  | note (x' : Context Z) (h : Notes x x') : Act1 app x x'
  | exit : Act1 app x x.requestLoopExit
  | abort (state : ConnectionState) (h : state = .disconnecting ∨ state = .disconnected) :
      Act1 app x { x with connection_state := state }.requestLoopExit
  /-- A close frame is queued and a flush asked for. -/
  | close (payload : Bytes) (hlen : payload.length ≤ 125) (hup : x.upgraded = true)
      (hbase : x.base = true) (hopen : x.isClosing = false) (hsent : x.close_sent = false)
      (hroom : x.send_queue.length < maxQueueSize) :
      Act1 app x { x with
        connection_state := .disconnecting
        send_queue := x.send_queue ++ [Pending.close payload]
        queued := x.queued ++ [Pending.close payload] }.requestSendFlush
  | closeAgain (hopen : x.isClosing = false) (hsent : x.close_sent = true) :
      Act1 app x { x with connection_state := .disconnecting }
  | requestFlush (hclosing : x.isClosing = true) : Act1 app x x.requestSendFlush
  | flush (hclosing : x.isClosing = true) : Act1 app x (x.flushSendQueue app)
  | clearQueue (hup : x.upgraded = false) : Act1 app x x.clearQueue

def Acts (app : App) : Context Z → Context Z → Prop := Relation.ReflTransGen (Act1 app)

theorem Acts.refl (x : Context Z) : Acts app x x := Relation.ReflTransGen.refl

theorem Acts.trans {x y z : Context Z} (h : Acts app x y) (h' : Acts app y z) :
    Acts app x z := Relation.ReflTransGen.trans h h'

theorem Act1.acts {x y : Context Z} (h : Act1 app x y) : Acts app x y :=
  Relation.ReflTransGen.single h

/-- What each act keeps, the event thread keeps. -/
theorem Acts.keeps {P : Context Z → Prop} (hstep : ∀ x x', P x → Act1 app x x' → P x')
    {x x' : Context Z} (h : Acts app x x') (hx : P x) : P x' := by
  induction h with
  | refl => exact hx
  | tail _ hlast ih => exact hstep _ _ ih hlast

theorem Calls.acts {x x' : Context Z} (h : Calls app x x') : Acts app x x' :=
  h.keeps (P := Acts app x) (fun _ _ hx hstep => hx.tail (.call _ hstep)) (.refl x)

theorem moves_requestLoopExit (x : Context Z) : Moves app x x.requestLoopExit := by
  unfold requestLoopExit
  split <;> exact Move.moves (.flags _ ⟨rfl, List.prefix_rfl⟩)

/-- An act is made of moves. -/
theorem Act1.moves {x x' : Context Z} (h : Act1 app x x') : Moves app x x' := by
  cases h with
  | call x' h => exact h.quiet1.moves
  | log cb hmessage => exact Move.moves (.flags _ ⟨rfl, List.prefix_append _ _⟩)
  | note x' h =>
      obtain ⟨-, -, -, -, hrest⟩ := h
      rw [hrest]
      exact Move.moves (.flags _ ⟨rfl, List.prefix_rfl⟩)
  | exit => exact moves_requestLoopExit x
  | abort state h => exact (Move.moves (.closing _ h)).trans (moves_requestLoopExit _)
  | close payload hlen hup hbase hopen hsent hroom =>
      have hdisconnecting : Moves app x { x with connection_state := .disconnecting } :=
        Move.moves (.closing _ (.inl rfl))
      refine (hdisconnecting.trans (Move.moves ?_)).trans (quiet_requestSendFlush _).moves
      exact .queueClose (x := { x with connection_state := .disconnecting }) payload hlen hup rfl
        hroom
  | closeAgain hopen hsent => exact Move.moves (.closing _ (.inl rfl))
  | requestFlush hclosing => exact (quiet_requestSendFlush x).moves
  | flush hclosing => exact (quiet_flushSendQueue x).moves
  | clearQueue hup => exact Move.moves (.clearQueue hup)

/-- What the event thread does is made of moves. -/
theorem Acts.moves {x x' : Context Z} (h : Acts app x x') : Moves app x x' :=
  h.keeps (P := Moves app x) (fun _ _ hx hstep => hx.trans hstep.moves) (.refl x)

-- ============================================================================
-- The operations
-- ============================================================================

/-- A callback; a message is delivered by a receiver that goes on. -/
theorem acts_callback (x : Context Z) (cb : Callback)
    (hmessage : cb.isMessage = true → x.rxIsTerminating = false) :
    Acts app x (x.callback app cb) :=
  (Act1.acts (.log cb hmessage)).trans (calls_callback x cb).acts

/-- An error is told. -/
theorem acts_sendError (x : Context Z) (code : ErrorCode) (message : Bytes) :
    Acts app x (x.sendError app code message) :=
  acts_callback x (.error code message) fun h => (by cases h)

/-- The close is told once. -/
theorem acts_sendCloseCallback (x : Context Z) (code : Nat) (reason : Bytes) :
    Acts app x (x.sendCloseCallback app code reason) := by
  unfold sendCloseCallback
  split
  · exact .refl x
  · have hfired : Acts app x { x with close_cb_fired := true } :=
      Act1.acts (.note _ ⟨id, id, fun _ => rfl, id, rfl⟩)
    exact hfired.trans (acts_callback _ (.closed code reason) fun h => (by cases h))

/-- `close` queues its frame, or gives the connection up. -/
theorem acts_close (x : Context Z) (code : Nat) (reason : Bytes) :
    Acts app x (x.close code reason) := by
  by_cases hopen : x.isClosing = true
  · unfold close
    rw [if_pos hopen]
    exact .refl x
  have hopen' := Bool.eq_false_iff.mpr hopen
  rcases close_cases x code reason with
    ⟨hclosing, -⟩ | ⟨-, heq⟩ | ⟨⟨hup, hbase⟩, ⟨hsent, heq⟩ | ⟨-, heq⟩ | ⟨⟨hsent, hroom⟩, heq⟩⟩
  · exact absurd hclosing hopen
  · rw [heq]
    exact Act1.acts (.abort .disconnected (.inr rfl))
  · rw [heq]
    exact Act1.acts (.closeAgain hopen' hsent)
  · rw [heq]
    exact Act1.acts (.abort .disconnecting (.inl rfl))
  · rw [heq]
    exact Act1.acts (.close _ (length_closePayload code reason) hup hbase hopen' hsent hroom)

/-- A stop closes the connection, or gives it up before the handshake. -/
theorem acts_stopNow (x : Context Z) : Acts app x x.stopNow := by
  unfold stopNow
  split
  · exact .refl x
  · split
    · exact Act1.acts (.abort .disconnected (.inr rfl))
    · exact acts_close x _ _

theorem acts_onRxPing {x : Context Z} (hup : x.upgraded = true) (hopen : x.isClosing = false)
    (payload : Bytes) : Calls app x (x.onRxPing app payload) := by
  unfold onRxPing
  split
  · exact Call1.calls (.send .pong payload hup hopen (by decide))
  · exact .refl x

/-- A close of the peer is answered, flushed and told. -/
theorem acts_onRxClose (x : Context Z) (code : Nat) (reason : Bytes) :
    Acts app x (x.onRxClose app code reason) := by
  unfold onRxClose
  have hreceived : Acts app x { x with close_received := true } :=
    Act1.acts (.note _ ⟨fun _ => rfl, id, id, id, rfl⟩)
  refine hreceived.trans (.trans ?_ (acts_sendCloseCallback _ _ _))
  split
  · exact .refl _
  · exact (acts_close _ _ _).trans (Act1.acts (.flush (isClosing_close _ code reason)))

/-- An error of the peer is told, and closes the connection or ends the loop. -/
theorem acts_onRxProtocolError (x : Context Z) (closeCode : Nat) (why : String) :
    Acts app x (x.onRxProtocolError app closeCode why) := by
  unfold onRxProtocolError
  split
  · exact .refl x
  · have hfailed : Acts app x { x with protocol_failed := true } :=
      Act1.acts (.note _ ⟨id, fun _ => rfl, id, id, rfl⟩)
    have herror := hfailed.trans
      (acts_sendError _ .protocol (protocolMessage closeCode why))
    dsimp only
    split
    · exact (herror.trans (acts_close _ _ _)).trans
        (Act1.acts (.requestFlush (isClosing_close _ _ _)))
    · exact herror.trans (Act1.acts .exit)

theorem acts_timeoutCallback (x : Context Z) : Acts app x (x.timeoutCallback app) := by
  unfold timeoutCallback
  split
  · exact .refl x
  · exact (acts_sendError _ _ _).trans (Act1.acts .exit)

/-- The wakeup of a stop closes the connection. -/
theorem acts_wakeupCallback {x : Context Z} (hstop : x.stop_requested = true) :
    Acts app x (x.wakeupCallback app) := by
  unfold wakeupCallback
  rw [if_pos hstop]
  split
  · exact .refl x
  · exact acts_stopNow x

/-- A wakeup closes the connection or flushes the queue. -/
theorem moves_wakeupCallback (x : Context Z) : Moves app x (x.wakeupCallback app) := by
  unfold wakeupCallback
  split
  · exact .refl x
  · split
    · exact (acts_stopNow x).moves
    · exact (quiet_flushSendQueue x).moves

/-- The close timer tells the close and gives the connection up. -/
theorem acts_closeTimerCb (x : Context Z) : Acts app x (x.closeTimerCb app) := by
  unfold closeTimerCb
  split
  · exact .refl x
  · exact (acts_sendCloseCallback _ _ _).trans (Act1.acts (.abort .disconnected (.inr rfl)))

/-- An event of the transport is told as an error or as a close, and ends the loop. -/
theorem acts_handleEvent (x : Context Z) (events : BevEvents) :
    Acts app x (x.handleEvent app events) := by
  have hclear : ∀ code message, ¬ x.upgraded = true →
      Acts app x (x.sendError app code message).clearQueue := by
    intro code message hup
    refine (acts_sendError x code message).trans (Act1.acts (.clearQueue ?_))
    exact (quiet_callback x _).sameState.upgraded.trans (Bool.eq_false_iff.mpr hup)
  have hdisconnecting : ∀ y : Context Z, Acts app x y →
      Acts app x { y with connection_state := .disconnecting }.requestLoopExit := fun y hy =>
    hy.trans (Act1.acts (.abort .disconnecting (.inl rfl)))
  unfold handleEvent
  dsimp only
  split
  · exact Act1.acts .exit
  · split
    · split
      · exact hdisconnecting _ (acts_sendError _ _ _)
      · refine hdisconnecting _ ?_
        split
        · exact acts_sendError _ _ _
        · exact hclear _ _ ‹_›
    · split
      · refine hdisconnecting _ ?_
        split
        · exact acts_sendError _ _ _
        · exact hclear _ _ ‹_›
      · split
        · split
          · exact (hclear _ _ ‹_›).trans (Act1.acts .exit)
          · split
            · exact hdisconnecting _ (acts_sendError _ _ _)
            · exact (acts_sendCloseCallback _ _ _).trans (Act1.acts .exit)
        · exact .refl x

theorem loopexit_requestLoopExit {x : Context Z} (h : x.base = true) :
    x.requestLoopExit.loopexit = true := by
  unfold requestLoopExit
  rw [if_pos h]

/-- The close timer ends the loop, unless the peer has closed. -/
theorem closeTimerCb_ends (x : Context Z) :
    x.base = false ∨ (x.closeTimerCb app).loopexit = true ∨
      (x.closeTimerCb app).close_received = true := by
  unfold closeTimerCb
  split
  · exact .inr (.inr ‹_›)
  · have hbase : (x.sendCloseCallback app 1000 (ascii "Normal closure")).base = x.base :=
      base_of_moves (acts_sendCloseCallback x _ _).moves
    by_cases hset : x.base = true
    · exact .inr (.inl (loopexit_requestLoopExit (hbase.trans hset)))
    · exact .inl (Bool.eq_false_iff.mpr hset)

/-- The wakeup of a stop ends the loop or closes the connection. -/
theorem wakeupCallback_ends {x : Context Z} (hstop : x.stop_requested = true) :
    x.base = false ∨ (x.wakeupCallback app).loopexit = true ∨
      (x.wakeupCallback app).isClosing = true := by
  by_cases hbase : x.base = true
  · right
    unfold wakeupCallback stopNow
    rw [if_neg (not_not.mpr hbase), if_pos hstop]
    split
    · exact .inr ‹_›
    · split
      · exact .inl (loopexit_requestLoopExit hbase)
      · exact .inr (isClosing_close _ _ _)
  · exact .inl (Bool.eq_false_iff.mpr hbase)

theorem isClosing_of_rxIsTerminating {x : Context Z} (hrun : x.rxIsTerminating = false) :
    x.isClosing = false := by
  by_contra hclosing
  have hterm := rxIsTerminating_of_isClosing (Bool.not_eq_false _ ▸ hclosing)
  exact absurd (hterm.symm.trans hrun) (by decide)

/-- What the receiver tells a context whose handshake is done. -/
theorem acts_told {x x' : Context Z} (hup : x.upgraded = true)
    (hrun : x.rxIsTerminating = false) (h : Told (sinks app) x x') : Acts app x x' := by
  cases h with
  | nothing => exact .refl x
  | ping p => exact (acts_onRxPing hup (isClosing_of_rxIsTerminating hrun) p).acts
  | text m => exact acts_callback x _ fun _ => hrun
  | binary m => exact acts_callback x _ fun _ => hrun
  | close code reason => exact acts_onRxClose x code reason
  | error code why => exact acts_onRxProtocolError x code why

end Context

namespace Client

open Context

/-- One turn of the loop of `onData`. -/
theorem acts_onDataTurn {s : Client Z} (hup : s.ctx.upgraded = true) :
    Acts app s.ctx (s.onDataTurn app).ctx := by
  unfold Client.onDataTurn
  by_cases hended : Rx.Ended (Context.sinks app) (⟨s.receiver, s.ctx, false⟩ : Rx Z (Context Z))
  · rw [Rx.onDataTurn_ended hended]
    exact .refl s.ctx
  obtain ⟨-, hrun⟩ := Rx.not_ended hended
  rcases Rx.onDataTurn_cases hended s.input with hwait | ⟨why, hfail⟩ | hthrow |
    ⟨x', n, -, htold, -, -, hnext⟩
  · rw [hwait]
    exact .refl s.ctx
  · have hturn := hfail []
    rw [List.append_nil] at hturn
    rw [hturn]
    exact acts_onRxProtocolError s.ctx 1002 why
  · have hturn := hthrow []
    rw [List.append_nil] at hturn
    rw [hturn]
    exact .refl s.ctx
  · have hturn := hnext []
    rw [List.append_nil] at hturn
    rw [hturn]
    exact acts_told hup hrun htold

end Client

end ContextMoves

end FsBridge.Libwsc
