/-
  FsBridge.Bridge.EslHandshake

  What an `API` call may find on the connection it writes to (bridge/esl.go): the
  connection is read before `ready` is, so the two may belong to different
  connections, but then the older one has been closed.

  `Progress` ties the position of `Run` to the messages it has read on the
  connection dialled last (`messagesRead`) and says that the connections before
  it are closed.
-/

import FsBridge.Bridge.EslReplies

namespace FsBridge.Bridge.EslClient

open FsBridge.Lib

-- ============================================================================
-- Positions of `Run`
-- ============================================================================

/-- No `connectAndServe` has a connection. -/
def RunPc.idle : RunPc → Bool
  | .looping | .dialing | .ended | .backoff | .stopped => true
  | _ => false

/-- The auth reply has been read and is a `+OK`. -/
def RunPc.authenticated : RunPc → Bool
  | .writeSubscribe | .readSubscribeReply | .settingReady => true
  | pc => pc.served

/-- The reply to the subscription has been read, if there is one. -/
def RunPc.acked : RunPc → Bool
  | .settingReady => true
  | pc => pc.served

theorem RunPc.authenticated_of_acked {pc : RunPc} (h : pc.acked = true) :
    pc.authenticated = true := by
  cases pc <;> first | rfl | exact absurd h Bool.false_ne_true

theorem RunPc.acked_of_served {pc : RunPc} (h : pc.served = true) : pc.acked = true := by
  cases pc <;> first | rfl | exact absurd h Bool.false_ne_true

theorem RunPc.not_idle_of_reading {pc : RunPc} (h : pc.reading = true) : pc.idle = false := by
  cases pc <;> first | rfl | exact absurd h Bool.false_ne_true

theorem RunPc.not_idle_of_handshaking {pc : RunPc} (h : pc.handshaking = true) :
    pc.idle = false := by
  cases pc <;> first | rfl | exact absurd h Bool.false_ne_true

-- ============================================================================
-- What the client has read
-- ============================================================================

/-- The message `connectAndServe` reads in a step: on which connection, at which
    of its reads, and which message. -/
def readNow (s : State) : Act → List (Nat × RunPc × EslMessage)
  | .read =>
      match (s.wires s.dialled).inbox with
      | m :: _ => [(s.dialled, s.run, m.msg)]
      | [] => []
  | _ => []

/-- The messages the client has read in a run. -/
def messagesRead (cfg : Config) (as : List Act) : List (Nat × RunPc × EslMessage) :=
  (machine cfg).observe readNow initial as

/-- The auth reply on the connection contained `+OK`. -/
def AuthOk (cfg : Config) (as : List Act) (c : Nat) : Prop :=
  ∃ msg, (c, .readAuthReply, msg) ∈ messagesRead cfg as ∧ msg.authOk = true

/-- The subscription on the connection was acknowledged, if events are requested. -/
def Subscribed (cfg : Config) (as : List Act) (c : Nat) : Prop :=
  cfg.events ≠ [] → ∃ msg, (c, .readSubscribeReply, msg) ∈ messagesRead cfg as

theorem messagesRead_snoc {cfg : Config} {as : List Act} {a : Act} {s s' : State}
    (hrun : (machine cfg).run initial as = some s) (hstep : (machine cfg).step s a = some s') :
    messagesRead cfg (as ++ [a]) = messagesRead cfg as ++ readNow s a :=
  Machine.observe_snoc hrun hstep

-- ============================================================================
-- Closed connections
-- ============================================================================

/-- A connection that is closed stays closed; only a new one is open again. -/
theorem closed_of_step {cfg : Config} {s s' : State} {a : Act} (h : step cfg s a = some s')
    {d : Nat} (hd : d ≤ s.dialled) (hclosed : (s.wires d).closed = true) :
    (s'.wires d).closed = true := by
  -- a wire that replaces another one and is closed, if that is
  have hset : ∀ c w, ((s.wires c).closed = true → w.closed = true) →
      (Function.update s.wires c w d).closed = true := by
    intro c w hw
    by_cases hdc : d = c
    · subst hdc
      rw [Function.update_self]
      exact hw hclosed
    · rwa [Function.update_of_ne hdc]
  have hdeliver : ∀ c cmd, ((s.deliverCommand c cmd).wires d).closed = true := by
    intro c cmd
    rcases deliverCommand_wires s c cmd d with hsame | ⟨rfl, -, hwire⟩
    · rwa [hsame]
    · rwa [hwire]
  cases a with
  | answer c msg =>
      simp only [step] at h
      split at h
      · split at h
        · cases h
          exact hset c _ id
        · exact absurd h (by simp)
      · exact absurd h (by simp)
  | event c m =>
      simp only [step, Option.ite_none_right_eq_some, Option.some.injEq] at h
      obtain ⟨-, rfl⟩ := h
      exact hset c _ id
  | goodbye c m =>
      simp only [step, Option.ite_none_right_eq_some, Option.some.injEq] at h
      obtain ⟨-, rfl⟩ := h
      exact hset c _ id
  | dialOk greeting =>
      simp only [step, Option.ite_none_right_eq_some, Option.some.injEq] at h
      obtain ⟨-, rfl⟩ := h
      have hne : d ≠ s.dialled + 1 := by omega
      show (Function.update s.wires (s.dialled + 1) _ d).closed = true
      rwa [Function.update_of_ne hne]
  | read =>
      simp only [step] at h
      split at h
      · cases h
        exact hset s.dialled _ id
      · exact absurd h (by simp)
  | writeCmd ok =>
      simp only [step] at h
      split at h
      · split at h
        · simp only [Option.ite_none_left_eq_some, Option.some.injEq] at h
          obtain ⟨-, rfl⟩ := h
          exact hdeliver _ _
        · cases h
          exact hclosed
      · split at h
        · simp only [Option.ite_none_left_eq_some, Option.some.injEq] at h
          obtain ⟨-, rfl⟩ := h
          exact hdeliver _ _
        · cases h
          exact hclosed
      · exact absurd h (by simp)
  | closeConn =>
      simp only [step, Option.ite_none_right_eq_some, Option.some.injEq] at h
      obtain ⟨-, rfl⟩ := h
      exact hset s.dialled _ fun _ => rfl
  | write i =>
      simp only [step] at h
      split at h
      · simp only [Option.ite_none_left_eq_some, Option.some.injEq] at h
        obtain ⟨-, rfl⟩ := h
        exact hdeliver _ _
      · exact absurd h (by simp)
  | writeFailed i arrived =>
      simp only [step] at h
      split at h
      · split at h
        · cases h
          exact hdeliver _ _
        · cases h
          exact hclosed
      · exact absurd h (by simp)
  | closeWire j =>
      simp only [step] at h
      split at h
      · split at h
        · rename_i c hconn
          cases h
          exact hset c _ fun _ => rfl
        · cases h
          exact hclosed
      · exact absurd h (by simp)
  | _ =>
      -- the other steps leave the connections alone
      have hwires : s'.wires = s.wires := by
        simp only [step] at h
        (repeat' split at h) <;> first | (cases h; rfl) | exact absurd h (by simp)
      rwa [hwires]

-- ============================================================================
-- What `Run` does in a step
-- ============================================================================

/-- Where `Run` may go without touching anything but messages. -/
inductive Arc (cfg : Config) (s : State) (a : Act) : RunPc → Prop where
  | stop (hrun : s.run = .looping ∨ s.run = .ended ∨ s.run = .backoff)
      (hctx : s.ctxDone = true) : Arc cfg s a .stopped
  | dial (hact : a = .checkCtx) (hrun : s.run = .looping) (hctx : s.ctxDone = false) :
      Arc cfg s a .dialing
  | wait (hrun : s.run = .ended) : Arc cfg s a .backoff
  | again (hrun : s.run = .backoff) : Arc cfg s a .looping
  | dialFailed (hrun : s.run = .dialing) : Arc cfg s a .ended
  | read (m : Sent) (hrun : s.run.reading = true)
      (hnow : (s.dialled, s.run, m.msg) ∈ readNow s a) : Arc cfg s a (afterRead cfg m s.run)
  | serveFailed (hrun : s.run = .serving) : Arc cfg s a .clearingReady
  | failed (hrun : s.run.handshaking = true) : Arc cfg s a .uninstalling
  | auth (hrun : s.run = .writeAuth) (hopen : (s.wires s.dialled).closed = false) :
      Arc cfg s a .readAuthReply
  | subscribe (hrun : s.run = .writeSubscribe) (hopen : (s.wires s.dialled).closed = false) :
      Arc cfg s a .readSubscribeReply
  | delivered (m : Sent) (hrun : s.run = .delivering m) : Arc cfg s a .serving

/-- What a step does to `Run`, `conn` and `ready`. -/
inductive RunMove (cfg : Config) (s : State) (a : Act) (s' : State) : Prop where
  /-- A step of somebody else. -/
  | other (hrun : s'.run = s.run) (hconn : s'.conn = s.conn) (hready : s'.ready = s.ready)
      (hdialled : s'.dialled = s.dialled)
  | go (harc : Arc cfg s a s'.run) (hconn : s'.conn = s.conn) (hready : s'.ready = s.ready)
      (hdialled : s'.dialled = s.dialled)
  | dial (hfrom : s.run = .dialing) (hrun : s'.run = .installing) (hconn : s'.conn = s.conn)
      (hready : s'.ready = s.ready) (hdialled : s'.dialled = s.dialled + 1)
  | install (hfrom : s.run = .installing) (hrun : s'.run = .readGreeting)
      (hconn : s'.conn = some s.dialled) (hready : s'.ready = s.ready)
      (hdialled : s'.dialled = s.dialled)
  | setReady (hfrom : s.run = .settingReady) (hrun : s'.run = .serving)
      (hconn : s'.conn = s.conn) (hdialled : s'.dialled = s.dialled)
  | clearReady (hfrom : s.run = .clearingReady) (hrun : s'.run = .uninstalling)
      (hconn : s'.conn = s.conn) (hready : s'.ready = false) (hdialled : s'.dialled = s.dialled)
  | uninstall (hfrom : s.run = .uninstalling) (hrun : s'.run = .closing)
      (hconn : s'.conn = s.conn ∨ s'.conn = none) (hready : s'.ready = s.ready)
      (hdialled : s'.dialled = s.dialled)
  | close (hfrom : s.run = .closing) (hrun : s'.run = .ended) (hconn : s'.conn = s.conn)
      (hready : s'.ready = s.ready) (hdialled : s'.dialled = s.dialled)
      (hclosed : (s'.wires s.dialled).closed = true)

theorem runMove_of_checkCtx {cfg : Config} {s s' : State}
    (h : step cfg s .checkCtx = some s') : RunMove cfg s .checkCtx s' := by
  simp only [step] at h
  split at h
  · rename_i hrun
    cases h
    refine .go ?_ rfl rfl rfl
    dsimp only
    split
    · exact .stop (.inl hrun) ‹_›
    · exact .dial rfl hrun (by simpa using ‹¬ s.ctxDone = true›)
  · rename_i hrun
    cases h
    refine .go ?_ rfl rfl rfl
    dsimp only
    split
    · exact .stop (.inr (.inl hrun)) ‹_›
    · exact .wait hrun
  · rename_i hrun
    simp only [Option.ite_none_right_eq_some, Option.some.injEq] at h
    obtain ⟨hctx, rfl⟩ := h
    exact .go (.stop (.inr (.inr hrun)) hctx) rfl rfl rfl
  · exact absurd h (by simp)

theorem RunPc.handshaking_of_reading {pc : RunPc} (h : pc.reading = true) (hne : pc ≠ .serving) :
    pc.handshaking = true := by
  cases pc <;> first | rfl | exact absurd h Bool.false_ne_true | exact absurd rfl hne

theorem runMove_of_writeCmd {cfg : Config} {s s' : State} {ok : Bool}
    (h : step cfg s (.writeCmd ok) = some s') : RunMove cfg s (.writeCmd ok) s' := by
  simp only [step] at h
  split at h
  · rename_i hrun
    split at h
    · simp only [Option.ite_none_left_eq_some, Option.some.injEq] at h
      obtain ⟨hopen, rfl⟩ := h
      exact .go (.auth hrun (by simpa using hopen)) (by simp) (by simp) (by simp)
    · cases h
      exact .go (.failed (by rw [hrun]; rfl)) rfl rfl rfl
  · rename_i hrun
    split at h
    · simp only [Option.ite_none_left_eq_some, Option.some.injEq] at h
      obtain ⟨hopen, rfl⟩ := h
      exact .go (.subscribe hrun (by simpa using hopen)) (by simp) (by simp) (by simp)
    · cases h
      exact .go (.failed (by rw [hrun]; rfl)) rfl rfl rfl
  · exact absurd h (by simp)

/-- Every step is one of the moves of `Run`. -/
theorem runMove_of_step {cfg : Config} {s s' : State} {a : Act}
    (h : step cfg s a = some s') : RunMove cfg s a s' := by
  cases a with
  | checkCtx => exact runMove_of_checkCtx h
  | writeCmd ok => exact runMove_of_writeCmd h
  | dialFailed =>
      simp only [step, Option.ite_none_right_eq_some, Option.some.injEq] at h
      obtain ⟨hrun, rfl⟩ := h
      exact .go (.dialFailed hrun) rfl rfl rfl
  | dialOk greeting =>
      simp only [step, Option.ite_none_right_eq_some, Option.some.injEq] at h
      obtain ⟨hrun, rfl⟩ := h
      exact .dial hrun rfl rfl rfl rfl
  | install =>
      simp only [step, Option.ite_none_right_eq_some, Option.some.injEq] at h
      obtain ⟨hrun, rfl⟩ := h
      exact .install hrun rfl rfl rfl rfl
  | read =>
      simp only [step] at h
      split at h
      · rename_i m rest hrun hinbox
        cases h
        exact .go (.read m hrun (by simp [readNow, hinbox])) rfl rfl rfl
      · exact absurd h (by simp)
  | readFailed =>
      simp only [step, Option.ite_none_right_eq_some, Option.some.injEq] at h
      obtain ⟨hrun, rfl⟩ := h
      refine .go ?_ rfl rfl rfl
      dsimp only
      split
      · exact .serveFailed ‹_›
      · exact .failed (RunPc.handshaking_of_reading hrun ‹_›)
  | setReady =>
      simp only [step, Option.ite_none_right_eq_some, Option.some.injEq] at h
      obtain ⟨hrun, rfl⟩ := h
      exact .setReady hrun rfl rfl rfl
  | deliver =>
      simp only [step] at h
      split at h
      · rename_i m hrun
        split at h <;> cases h <;> exact .go (.delivered m hrun) rfl rfl rfl
      · exact absurd h (by simp)
  | clearReady =>
      simp only [step, Option.ite_none_right_eq_some, Option.some.injEq] at h
      obtain ⟨hrun, rfl⟩ := h
      exact .clearReady hrun rfl rfl rfl rfl
  | uninstall =>
      simp only [step, Option.ite_none_right_eq_some, Option.some.injEq] at h
      obtain ⟨hrun, rfl⟩ := h
      refine .uninstall hrun rfl ?_ rfl rfl
      dsimp only
      split
      · exact .inr rfl
      · exact .inl rfl
  | closeConn =>
      simp only [step, Option.ite_none_right_eq_some, Option.some.injEq] at h
      obtain ⟨hrun, rfl⟩ := h
      refine .close hrun rfl rfl rfl rfl ?_
      show (Function.update s.wires s.dialled _ s.dialled).closed = true
      rw [Function.update_self]
  | backoffDone =>
      simp only [step, Option.ite_none_right_eq_some, Option.some.injEq] at h
      obtain ⟨hrun, rfl⟩ := h
      exact .go (.again hrun) rfl rfl rfl
  | write i =>
      simp only [step] at h
      split at h
      · simp only [Option.ite_none_left_eq_some, Option.some.injEq] at h
        obtain ⟨-, rfl⟩ := h
        exact .other (deliverCommand_run ..) (deliverCommand_conn ..) (deliverCommand_ready ..)
          (deliverCommand_dialled ..)
      · exact absurd h (by simp)
  | writeFailed i arrived =>
      simp only [step] at h
      split at h
      · split at h
        · cases h
          exact .other (deliverCommand_run ..) (deliverCommand_conn ..)
            (deliverCommand_ready ..) (deliverCommand_dialled ..)
        · cases h
          exact .other rfl rfl rfl rfl
      · exact absurd h (by simp)
  | _ =>
      -- FreeSWITCH, the other steps of the calls, `Close`
      simp only [step] at h
      (repeat' split at h) <;>
        first
          | (cases h; exact .other rfl rfl rfl rfl)
          | exact absurd h (by simp)

-- ============================================================================
-- Where a read leads to
-- ============================================================================

theorem RunPc.not_idle_afterRead {cfg : Config} {pc : RunPc} (m : Sent)
    (hpc : pc.reading = true) : (afterRead cfg m pc).idle = false := by
  cases pc with
  | readGreeting =>
      simp only [afterRead]
      split <;> rfl
  | readAuthReply =>
      simp only [afterRead]
      split
      · split <;> rfl
      · rfl
  | readSubscribeReply => rfl
  | serving =>
      simp only [afterRead]
      split
      · rfl
      · split <;> rfl
  | _ => exact absurd hpc Bool.false_ne_true

theorem RunPc.authenticated_afterRead {cfg : Config} {pc : RunPc} {m : Sent}
    (hpc : pc.reading = true) (h : (afterRead cfg m pc).authenticated = true) :
    pc = .readAuthReply ∧ m.msg.authOk = true ∨ pc.authenticated = true := by
  cases pc with
  | readGreeting =>
      simp only [afterRead] at h
      split at h <;> exact absurd h Bool.false_ne_true
  | readAuthReply =>
      simp only [afterRead] at h
      split at h
      · exact .inl ⟨rfl, ‹_›⟩
      · exact absurd h Bool.false_ne_true
  | readSubscribeReply => exact .inr rfl
  | serving => exact .inr rfl
  | _ => exact absurd hpc Bool.false_ne_true

theorem RunPc.acked_afterRead {cfg : Config} {pc : RunPc} {m : Sent}
    (hpc : pc.reading = true) (h : (afterRead cfg m pc).acked = true) :
    pc = .readSubscribeReply ∨ cfg.events = [] ∨ pc.acked = true := by
  cases pc with
  | readGreeting =>
      simp only [afterRead] at h
      split at h <;> exact absurd h Bool.false_ne_true
  | readAuthReply =>
      simp only [afterRead] at h
      split at h
      · split at h
        · exact .inr (.inl ‹_›)
        · exact absurd h Bool.false_ne_true
      · exact absurd h Bool.false_ne_true
  | readSubscribeReply => exact .inl rfl
  | serving => exact .inr (.inr rfl)
  | _ => exact absurd hpc Bool.false_ne_true

/-- `connectAndServe` closes its connection before `Run` goes on. -/
theorem idle_of_step {cfg : Config} {s s' : State} {a : Act} (h : step cfg s a = some s')
    (hidle : s'.run.idle = true) :
    s'.dialled = s.dialled ∧ (s.run.idle = true ∨ (s'.wires s.dialled).closed = true) := by
  cases runMove_of_step h with
  | other hrun hconn hready hdialled => exact ⟨hdialled, .inl (hrun ▸ hidle)⟩
  | go harc hconn hready hdialled =>
      refine ⟨hdialled, .inl ?_⟩
      generalize s'.run = pc at harc hidle
      cases harc with
      | stop hrun hctx => rcases hrun with hrun | hrun | hrun <;> rw [hrun] <;> rfl
      | dial hact hrun hctx => rw [hrun]; rfl
      | wait hrun => rw [hrun]; rfl
      | again hrun => rw [hrun]; rfl
      | dialFailed hrun => rw [hrun]; rfl
      | read m hrun hnow =>
          exact absurd (hidle.symm.trans (RunPc.not_idle_afterRead m hrun)) (by decide)
      | _ => exact absurd hidle Bool.false_ne_true
  | dial hfrom hrun hconn hready =>
      rw [hrun] at hidle
      exact absurd hidle Bool.false_ne_true
  | close hfrom hrun hconn hready hdialled hclosed => exact ⟨hdialled, .inr hclosed⟩
  | install hfrom hrun =>
      rw [hrun] at hidle
      exact absurd hidle Bool.false_ne_true
  | setReady hfrom hrun =>
      rw [hrun] at hidle
      exact absurd hidle Bool.false_ne_true
  | clearReady hfrom hrun =>
      rw [hrun] at hidle
      exact absurd hidle Bool.false_ne_true
  | uninstall hfrom hrun =>
      rw [hrun] at hidle
      exact absurd hidle Bool.false_ne_true

-- ============================================================================
-- The progress of `Run`
-- ============================================================================

/-- What is known of the connection dialled last and of those before it. -/
structure Progress (cfg : Config) (as : List Act) (s : State) : Prop where
  older : ∀ d, 0 < d → d < s.dialled → (s.wires d).closed = true
  idle : s.run.idle = true → 0 < s.dialled → (s.wires s.dialled).closed = true
  dialled : s.run.idle = false → 0 < s.dialled
  auth : s.run.authenticated = true → AuthOk cfg as s.dialled
  acked : s.run.acked = true → Subscribed cfg as s.dialled

theorem progress_nil (cfg : Config) : Progress cfg [] initial where
  older := fun d _ hd => absurd hd (Nat.not_lt_zero d)
  idle := fun _ hpos => absurd hpos (Nat.lt_irrefl 0)
  dialled := fun h => absurd h.symm Bool.false_ne_true
  auth := fun h => absurd h Bool.false_ne_true
  acked := fun h => absurd h Bool.false_ne_true

/-- An accepted password is not taken back. -/
theorem AuthOk.snoc {cfg : Config} {as : List Act} {a : Act} {s s' : State} {c : Nat}
    (h : AuthOk cfg as c) (hrun : (machine cfg).run initial as = some s)
    (hstep : (machine cfg).step s a = some s') : AuthOk cfg (as ++ [a]) c := by
  obtain ⟨msg, hmem, hok⟩ := h
  refine ⟨msg, ?_, hok⟩
  rw [messagesRead_snoc hrun hstep]
  exact List.mem_append_left _ hmem

theorem Subscribed.snoc {cfg : Config} {as : List Act} {a : Act} {s s' : State} {c : Nat}
    (h : Subscribed cfg as c) (hrun : (machine cfg).run initial as = some s)
    (hstep : (machine cfg).step s a = some s') : Subscribed cfg (as ++ [a]) c := by
  intro hevents
  obtain ⟨msg, hmem⟩ := h hevents
  refine ⟨msg, ?_⟩
  rw [messagesRead_snoc hrun hstep]
  exact List.mem_append_left _ hmem

/-- `Run` gets to another connection by a dial only. -/
theorem dialled_of_step {cfg : Config} {s s' : State} {a : Act} (h : step cfg s a = some s')
    (hactive : s'.run.idle = false) : s.run.idle = false ∧ s'.dialled = s.dialled ∨
      s.run = .dialing ∧ s'.dialled = s.dialled + 1 := by
  cases runMove_of_step h with
  | other hrun hconn hready hdialled => exact .inl ⟨hrun ▸ hactive, hdialled⟩
  | go harc hconn hready hdialled =>
      refine .inl ⟨?_, hdialled⟩
      generalize s'.run = pc at harc hactive
      cases harc with
      | read m hrun hnow => exact RunPc.not_idle_of_reading hrun
      | serveFailed hrun => rw [hrun]; rfl
      | failed hrun => exact RunPc.not_idle_of_handshaking hrun
      | auth hrun => rw [hrun]; rfl
      | subscribe hrun => rw [hrun]; rfl
      | delivered m hrun => rw [hrun]; rfl
      | _ => exact absurd hactive.symm Bool.false_ne_true
  | dial hfrom hrun hconn hready hdialled => exact .inr ⟨hfrom, hdialled⟩
  | install hfrom hrun hconn hready hdialled => exact .inl ⟨by rw [hfrom]; rfl, hdialled⟩
  | setReady hfrom hrun hconn hdialled => exact .inl ⟨by rw [hfrom]; rfl, hdialled⟩
  | clearReady hfrom hrun hconn hready hdialled => exact .inl ⟨by rw [hfrom]; rfl, hdialled⟩
  | uninstall hfrom hrun hconn hready hdialled => exact .inl ⟨by rw [hfrom]; rfl, hdialled⟩
  | close hfrom hrun hconn hready hdialled hclosed => exact .inl ⟨by rw [hfrom]; rfl, hdialled⟩

/-- Behind the auth reply `Run` moves on the connection it is on. -/
theorem RunMove.of_authenticated {cfg : Config} {s s' : State} {a : Act}
    (h : RunMove cfg s a s') (hauth : s'.run.authenticated = true) :
    s'.dialled = s.dialled ∧
      (s'.run = s.run ∨ Arc cfg s a s'.run ∨ s.run = .settingReady) := by
  cases h with
  | other hrun hconn hready hdialled => exact ⟨hdialled, .inl hrun⟩
  | go harc hconn hready hdialled => exact ⟨hdialled, .inr (.inl harc)⟩
  | setReady hfrom hrun hconn hdialled => exact ⟨hdialled, .inr (.inr hfrom)⟩
  | dial hfrom hrun =>
      rw [hrun] at hauth
      exact absurd hauth Bool.false_ne_true
  | install hfrom hrun =>
      rw [hrun] at hauth
      exact absurd hauth Bool.false_ne_true
  | clearReady hfrom hrun =>
      rw [hrun] at hauth
      exact absurd hauth Bool.false_ne_true
  | uninstall hfrom hrun =>
      rw [hrun] at hauth
      exact absurd hauth Bool.false_ne_true
  | close hfrom hrun =>
      rw [hrun] at hauth
      exact absurd hauth Bool.false_ne_true

/-- `Run` gets behind the auth reply by reading a `+OK`. -/
theorem authenticated_of_step {cfg : Config} {s s' : State} {a : Act}
    (h : step cfg s a = some s') (hauth : s'.run.authenticated = true) :
    s'.dialled = s.dialled ∧ (s.run.authenticated = true ∨
      ∃ msg, (s.dialled, .readAuthReply, msg) ∈ readNow s a ∧ msg.authOk = true) := by
  obtain ⟨hdialled, hmove⟩ := (runMove_of_step h).of_authenticated hauth
  refine ⟨hdialled, ?_⟩
  rcases hmove with hsame | harc | hfrom
  · exact .inl (hsame ▸ hauth)
  · generalize s'.run = pc at harc hauth
    cases harc with
    | read m hrun hnow =>
        rcases RunPc.authenticated_afterRead hrun hauth with ⟨hpc, hok⟩ | hold
        · exact .inr ⟨m.msg, hpc ▸ hnow, hok⟩
        · exact .inl hold
    | serveFailed hrun => exact .inl (by rw [hrun]; rfl)
    | subscribe hrun => exact .inl (by rw [hrun]; rfl)
    | delivered m hrun => exact .inl (by rw [hrun]; rfl)
    | _ => exact absurd hauth Bool.false_ne_true
  · exact .inl (by rw [hfrom]; rfl)

/-- `Run` gets behind the subscription by reading the reply to it. -/
theorem acked_of_step {cfg : Config} {s s' : State} {a : Act}
    (h : step cfg s a = some s') (hacked : s'.run.acked = true) :
    s'.dialled = s.dialled ∧ (s.run.acked = true ∨ cfg.events = [] ∨
      ∃ msg, (s.dialled, .readSubscribeReply, msg) ∈ readNow s a) := by
  obtain ⟨hdialled, hmove⟩ :=
    (runMove_of_step h).of_authenticated (RunPc.authenticated_of_acked hacked)
  refine ⟨hdialled, ?_⟩
  rcases hmove with hsame | harc | hfrom
  · exact .inl (hsame ▸ hacked)
  · generalize s'.run = pc at harc hacked
    cases harc with
    | read m hrun hnow =>
        rcases RunPc.acked_afterRead hrun hacked with hpc | hnone | hold
        · exact .inr (.inr ⟨m.msg, hpc ▸ hnow⟩)
        · exact .inr (.inl hnone)
        · exact .inl hold
    | serveFailed hrun => exact .inl (by rw [hrun]; rfl)
    | delivered m hrun => exact .inl (by rw [hrun]; rfl)
    | _ => exact absurd hacked Bool.false_ne_true
  · exact .inl (by rw [hfrom]; rfl)

/-- The handshake goes on in its order. -/
theorem Progress.step {cfg : Config} {as : List Act} {a : Act} {s s' : State}
    (h : Progress cfg as s) (hrun : (machine cfg).run initial as = some s)
    (hstep : (machine cfg).step s a = some s') : Progress cfg (as ++ [a]) s' := by
  have hs : EslClient.step cfg s a = some s' := hstep
  refine ⟨fun d hpos hd => ?_, fun hidle hpos => ?_, fun hactive => ?_, fun hauth => ?_,
    fun hacked => ?_⟩
  · -- the connection dialled before a new one is closed by then
    have hbefore : d ≤ s.dialled ∧ (s.wires d).closed = true := by
      by_cases hidle : s'.run.idle = true
      · obtain ⟨hdialled, -⟩ := idle_of_step hs hidle
        exact ⟨by omega, h.older d hpos (by omega)⟩
      · rcases dialled_of_step hs (by simpa using hidle) with ⟨-, hdialled⟩ | ⟨hfrom, hdialled⟩
        · exact ⟨by omega, h.older d hpos (by omega)⟩
        · rcases Nat.lt_or_ge d s.dialled with hlt | hge
          · exact ⟨by omega, h.older d hpos hlt⟩
          · obtain rfl : d = s.dialled := by omega
            exact ⟨Nat.le_refl _, h.idle (by rw [hfrom]; rfl) hpos⟩
    exact closed_of_step hs hbefore.1 hbefore.2
  · obtain ⟨hdialled, hwas | hclosed⟩ := idle_of_step hs hidle
    · rw [hdialled] at hpos ⊢
      exact closed_of_step hs (Nat.le_refl _) (h.idle hwas hpos)
    · rw [hdialled]
      exact hclosed
  · rcases dialled_of_step hs hactive with ⟨hwas, hdialled⟩ | ⟨-, hdialled⟩
    · rw [hdialled]
      exact h.dialled hwas
    · omega
  · obtain ⟨hdialled, hwas | ⟨msg, hmem, hok⟩⟩ := authenticated_of_step hs hauth
    · rw [hdialled]
      exact (h.auth hwas).snoc hrun hstep
    · refine ⟨msg, ?_, hok⟩
      rw [hdialled, messagesRead_snoc hrun hstep]
      exact List.mem_append_right _ hmem
  · obtain ⟨hdialled, hwas | hnone | ⟨msg, hmem⟩⟩ := acked_of_step hs hacked
    · rw [hdialled]
      exact (h.acked hwas).snoc hrun hstep
    · exact fun hevents => absurd hnone hevents
    · refine fun _ => ⟨msg, ?_⟩
      rw [hdialled, messagesRead_snoc hrun hstep]
      exact List.mem_append_right _ hmem

-- ============================================================================
-- The calls of `API`
-- ============================================================================

/-- The call has found `ready` set, and its connection is `c`. -/
def ApiPc.chose (c : Nat) : ApiPc → Prop
  | .draining _ d | .writing _ d => d = c
  | _ => False

theorem update_calls {s : State} {P : ApiPc → Prop} {i j : Nat} {pc : ApiPc}
    (h : P (Function.update s.calls i pc j)) : P (s.calls j) ∨ j = i ∧ P pc := by
  by_cases hj : j = i
  · subst hj
    rw [Function.update_self] at h
    exact .inr ⟨rfl, h⟩
  · rw [Function.update_of_ne hj] at h
    exact .inl h

/-- A call finds its connection in `conn`. -/
theorem Effect.seen {cfg : Config} {s s' : State} {a : Act} (heff : Effect cfg s a s')
    {j : Nat} {cmd : Bytes} {c : Nat} (h : s'.calls j = .loadReady cmd (some c)) :
    s.calls j = .loadReady cmd (some c) ∨ s.conn = some c := by
  have hset : ∀ i pc, pc ≠ .loadReady cmd (some c) →
      Function.update s.calls i pc j = .loadReady cmd (some c) →
      s.calls j = .loadReady cmd (some c) := by
    intro i pc hne heq
    rcases update_calls (P := (· = .loadReady cmd (some c))) heq with hold | ⟨-, hnew⟩
    · exact hold
    · exact absurd hnew hne
  cases heff with
  | beside _ hwires hconn hready hmu hslot hrun hdialled hcalls => exact .inl (hcalls ▸ h)
  | away _ hwires hconn hready hmu hslot haway hdialled hcalls => exact .inl (hcalls ▸ h)
  | command cmd' pc hpc => exact .inl (by rwa [← deliverCommand_calls s s.dialled cmd'])
  | called i cmd' hpc => exact .inl (hset i _ (by simp) h)
  | locked i cmd' hpc hmu => exact .inl (hset i _ (by simp) h)
  | sawConn i cmd' hpc =>
      rcases update_calls (P := (· = .loadReady cmd (some c))) h with hold | ⟨-, hnew⟩
      · exact .inl hold
      · exact .inr (ApiPc.loadReady.inj hnew).2
  | sawReady i cmd' d hpc hready => exact .inl (hset i _ (by simp) h)
  | drained i cmd' d ch hpc hch => exact .inl (hset i _ (by simp) h)
  | wrote i cmd' text d hpc =>
      refine .inl (hset i (.waiting cmd') (by simp) ?_)
      rwa [← deliverCommand_calls s d ⟨text, .api i⟩]
  | wroteBadly i cmd' text d hpc =>
      refine .inl (hset i (.returned (.failed .write)) (by simp) ?_)
      rwa [← deliverCommand_calls s d ⟨text, .api i⟩]
  | failed i err hpc => exact .inl (hset i _ (by simp) h)
  | received i cmd' m ch hpc hch => exact .inl (hset i _ (by simp) h)
  | _ => exact .inl h

/-- A call goes on to its write with a connection it found when `ready` was set. -/
theorem Effect.chose {cfg : Config} {s s' : State} {a : Act} (heff : Effect cfg s a s')
    {j c : Nat} (h : (s'.calls j).chose c) :
    (s.calls j).chose c ∨ s.ready = true ∧ ∃ cmd, s.calls j = .loadReady cmd (some c) := by
  have hset : ∀ i pc, ¬ pc.chose c → (Function.update s.calls i pc j).chose c →
      (s.calls j).chose c := by
    intro i pc hno hyes
    rcases update_calls (P := ApiPc.chose c) hyes with hold | ⟨-, hnew⟩
    · exact hold
    · exact absurd hnew hno
  cases heff with
  | beside _ hwires hconn hready hmu hslot hrun hdialled hcalls => exact .inl (hcalls ▸ h)
  | away _ hwires hconn hready hmu hslot haway hdialled hcalls => exact .inl (hcalls ▸ h)
  | command cmd' pc hpc => exact .inl (by rwa [← deliverCommand_calls s s.dialled cmd'])
  | called i cmd' hpc => exact .inl (hset i _ (by simp [ApiPc.chose]) h)
  | locked i cmd' hpc hmu => exact .inl (hset i _ (by simp [ApiPc.chose]) h)
  | sawConn i cmd' hpc => exact .inl (hset i _ (by simp [ApiPc.chose]) h)
  | sawReady i cmd' d hpc hready =>
      rcases update_calls (P := ApiPc.chose c) h with hold | ⟨rfl, hnew⟩
      · exact .inl hold
      · obtain rfl : d = c := hnew
        exact .inr ⟨hready, cmd', hpc⟩
  | drained i cmd' d ch hpc hch =>
      rcases update_calls (P := ApiPc.chose c) h with hold | ⟨rfl, hnew⟩
      · exact .inl hold
      · rw [hpc]
        exact .inl hnew
  | wrote i cmd' text d hpc =>
      refine .inl (hset i (.waiting cmd') (by simp [ApiPc.chose]) ?_)
      rwa [← deliverCommand_calls s d ⟨text, .api i⟩]
  | wroteBadly i cmd' text d hpc =>
      refine .inl (hset i (.returned (.failed .write)) (by simp [ApiPc.chose]) ?_)
      rwa [← deliverCommand_calls s d ⟨text, .api i⟩]
  | failed i err hpc => exact .inl (hset i _ (by simp [ApiPc.chose]) h)
  | received i cmd' m ch hpc hch => exact .inl (hset i _ (by simp [ApiPc.chose]) h)
  | _ => exact .inl h

/-- What the calls may rely on: the connection they have found was dialled, and
    the one they will write to is served or closed. -/
structure ChosenInv (cfg : Config) (as : List Act) (s : State) : Prop where
  conn_pos : ∀ c, s.conn = some c → 0 < c
  seen_pos : ∀ i cmd c, s.calls i = .loadReady cmd (some c) → 0 < c
  chosen : ∀ i c, (s.calls i).chose c →
    (s.wires c).closed = true ∨ AuthOk cfg as c ∧ Subscribed cfg as c

theorem chosenInv_nil (cfg : Config) : ChosenInv cfg [] initial where
  conn_pos := fun _ h => nomatch h
  seen_pos := fun _ _ _ h => nomatch h
  chosen := fun _ _ h => h.elim

theorem LinkInv.chose_le {s : State} (h : LinkInv s) {i c : Nat} (hc : (s.calls i).chose c) :
    c ≤ s.dialled := by
  have hle : ∀ cmd, s.calls i = .draining cmd c ∨ s.calls i = .writing cmd c → c ≤ s.dialled := by
    intro cmd hpc
    rcases h.chosen i cmd c hpc with hlt | ⟨rfl, -⟩
    · exact Nat.le_of_lt hlt
    · exact Nat.le_refl _
  cases hpc : s.calls i with
  | draining cmd d =>
      rw [hpc] at hc
      obtain rfl : d = c := hc
      exact hle cmd (.inl hpc)
  | writing cmd d =>
      rw [hpc] at hc
      obtain rfl : d = c := hc
      exact hle cmd (.inr hpc)
  | _ =>
      rw [hpc] at hc
      exact hc.elim

/-- A call goes on with a connection that is authenticated and subscribed, or closed. -/
theorem ChosenInv.step {cfg : Config} {as : List Act} {a : Act} {s s' : State}
    (h : ChosenInv cfg as s) (hlink : LinkInv s) (hprog : Progress cfg as s)
    (hrun : (machine cfg).run initial as = some s)
    (hstep : (machine cfg).step s a = some s') : ChosenInv cfg (as ++ [a]) s' := by
  have hs : EslClient.step cfg s a = some s' := hstep
  have heff : Effect cfg s a s' := effect_of_step hlink.ready_served hs
  refine ⟨fun c hc => ?_, fun i cmd c hc => ?_, fun i c hc => ?_⟩
  · cases runMove_of_step hs with
    | install hfrom _ hconn _ _ =>
        rw [hconn] at hc
        cases hc
        exact hprog.dialled (by rw [hfrom]; rfl)
    | uninstall _ _ hconn _ _ =>
        rcases hconn with hconn | hconn <;> rw [hconn] at hc
        · exact h.conn_pos c hc
        · exact absurd hc (by simp)
    | other _ hconn _ _ => exact h.conn_pos c (hconn ▸ hc)
    | go _ hconn _ _ => exact h.conn_pos c (hconn ▸ hc)
    | dial _ _ hconn _ _ => exact h.conn_pos c (hconn ▸ hc)
    | setReady _ _ hconn _ => exact h.conn_pos c (hconn ▸ hc)
    | clearReady _ _ hconn _ _ => exact h.conn_pos c (hconn ▸ hc)
    | close _ _ hconn _ _ _ => exact h.conn_pos c (hconn ▸ hc)
  · rcases heff.seen hc with hold | hconn
    · exact h.seen_pos i cmd c hold
    · exact h.conn_pos c hconn
  · have hkeep : c ≤ s.dialled → (s.wires c).closed = true ∨ AuthOk cfg as c ∧ Subscribed cfg as c →
        (s'.wires c).closed = true ∨
          AuthOk cfg (as ++ [a]) c ∧ Subscribed cfg (as ++ [a]) c := by
      rintro hle (hclosed | ⟨hauth, hsub⟩)
      · exact .inl (closed_of_step hs hle hclosed)
      · exact .inr ⟨hauth.snoc hrun hstep, hsub.snoc hrun hstep⟩
    rcases heff.chose hc with hold | ⟨hready, cmd, hpc⟩
    · exact hkeep (hlink.chose_le hold) (h.chosen i c hold)
    · -- `ready` is set for the connection dialled last; an older one is closed
      have hserved := RunPc.acked_of_served (hlink.ready_served hready)
      have hle := hlink.seen_le i cmd c hpc
      apply hkeep hle
      rcases Nat.lt_or_ge c s.dialled with hlt | hge
      · exact .inl (hprog.older c (h.seen_pos i cmd c hpc) hlt)
      · obtain rfl : c = s.dialled := by omega
        exact .inr ⟨hprog.auth (RunPc.authenticated_of_acked hserved), hprog.acked hserved⟩

theorem linkInv_of_run {cfg : Config} {as : List Act} {s : State}
    (hrun : (machine cfg).run initial as = some s) : LinkInv s := by
  refine Machine.run_invariant (M := machine cfg) (fun s a s' hinv hstep => ?_) hrun
    linkInv_initial
  have heff : Effect cfg s a s' := effect_of_step hinv.ready_served hstep
  exact heff.linkInv hinv

theorem chosenInv_of_run {cfg : Config} {as : List Act} {s : State}
    (hrun : (machine cfg).run initial as = some s) :
    Progress cfg as s ∧ ChosenInv cfg as s := by
  refine Machine.run_induction (M := machine cfg)
    (J := fun as s => Progress cfg as s ∧ ChosenInv cfg as s)
    ⟨progress_nil cfg, chosenInv_nil cfg⟩ (fun as a s s' hs hinv hstep => ?_) hrun
  exact ⟨hinv.1.step hs hstep, hinv.2.step (linkInv_of_run hs) hinv.1 hs hstep⟩

/-- No API traffic before authentication: in every state of every run, the
    connection a call of `API` is about to write to is closed, or it is one on which
    the client has read an auth reply with `+OK` and, if events are requested, the
    reply to its subscription; and it is never one in its handshake. -/
theorem api_writes_after_handshake (cfg : Config) {as : List Act} {s : State}
    (hrun : (machine cfg).run initial as = some s) {i c : Nat} {cmd : Bytes}
    (hpc : s.calls i = .writing cmd c) :
    ((s.wires c).closed = true ∨ AuthOk cfg as c ∧ Subscribed cfg as c) ∧
      (s.run.handshaking = true → c ≠ s.dialled) := by
  have hlink : LinkInv s := linkInv_of_run hrun
  refine ⟨(chosenInv_of_run hrun).2.chosen i c (by rw [hpc]; rfl), fun hshake => ?_⟩
  rcases hlink.chosen i cmd c (.inr hpc) with hlt | ⟨-, hover⟩
  · omega
  · exact absurd (hshake.symm.trans hover) (by decide)

/-- A call about to write on the first connection. -/
theorem api_writes_after_handshake_one : ∃ s,
    (machine plain).run initial
        (connect ++ [Act.call 0 [], .lock 0, .readConn 0, .loadReady 0, .drain 0]) = some s ∧
      ((s.wires 1).closed = true ∨
        AuthOk plain (connect ++ [Act.call 0 [], .lock 0, .readConn 0, .loadReady 0, .drain 0]) 1 ∧
          Subscribed plain
            (connect ++ [Act.call 0 [], .lock 0, .readConn 0, .loadReady 0, .drain 0]) 1) := by
  refine ⟨_, rfl, ?_⟩
  exact (@api_writes_after_handshake plain _ _ rfl 0 1 [] rfl).1

end FsBridge.Bridge.EslClient
