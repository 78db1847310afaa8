/-
  FsBridge.Bridge.EslClientLink

  The connection under the calls of `API`: what one step of the client or of
  FreeSWITCH does to it (`Effect`), and that everything that reaches
  `pendingReply` is the reply to an `API` call (`LinkInv`).

  The handshake reads one message for each command it has written, so that no
  reply of the handshake is left for the read loop; a call writes to a
  connection only when the handshake on it is over.
-/

import FsBridge.Bridge.EslClient

namespace FsBridge.Bridge.EslClient

open FsBridge.Lib

-- ============================================================================
-- Positions of `Run`
-- ============================================================================

/-- `ready` may be set. -/
def RunPc.served : RunPc → Bool
  | .serving | .delivering _ | .clearingReady => true
  | _ => false

/-- Between the dial and the end of the handshake. -/
def RunPc.handshaking : RunPc → Bool
  | .installing | .readGreeting | .writeAuth | .readAuthReply | .writeSubscribe
  | .readSubscribeReply | .settingReady => true
  | _ => false

/-- The subscription has not been written yet. -/
def RunPc.early : RunPc → Bool
  | .installing | .readGreeting | .writeAuth | .readAuthReply | .writeSubscribe => true
  | _ => false

/-- The running `connectAndServe` may still read from its connection. -/
def RunPc.reads : RunPc → Bool
  | .serving | .delivering _ => true
  | pc => pc.handshaking

/-- Messages of the handshake that the client will read before it goes on. -/
def RunPc.awaited : RunPc → Nat
  | .installing | .readGreeting | .readAuthReply | .readSubscribeReply => 1
  | _ => 0

/-- The message the read loop is about to put into `pendingReply`. -/
def RunPc.held : RunPc → List Sent
  | .delivering m => [m]
  | _ => []

theorem RunPc.handshaking_of_early {pc : RunPc} (h : pc.early = true) : pc.handshaking = true := by
  cases pc <;> first | rfl | exact absurd h Bool.false_ne_true

theorem RunPc.reads_of_handshaking {pc : RunPc} (h : pc.handshaking = true) : pc.reads = true := by
  cases pc <;> first | rfl | exact absurd h Bool.false_ne_true

theorem RunPc.awaited_le_one (pc : RunPc) : pc.awaited ≤ 1 := by
  cases pc <;> simp [RunPc.awaited]

/-- What is still to come to the read loop from the connection it reads. -/
def State.readable (s : State) : List Tag :=
  s.run.held.map Sent.tag ++ if s.run.reads then (s.wires s.dialled).tags else []

-- ============================================================================
-- What a step can do
-- ============================================================================

/-- The two ends of the connection have exchanged nothing. -/
structure SameFlow (w w' : Wire) : Prop where
  unanswered : w'.unanswered = w.unanswered
  inbox : w'.inbox = w.inbox
  subscribed : w'.subscribed = w.subscribed
  gone : w'.gone = w.gone

theorem SameFlow.rfl {w : Wire} : SameFlow w w :=
  ⟨Eq.refl _, Eq.refl _, Eq.refl _, Eq.refl _⟩

theorem SameFlow.tags {w w' : Wire} (h : SameFlow w w') : w'.tags = w.tags := by
  rw [Wire.tags, Wire.tags, h.unanswered, h.inbox]

/-- What FreeSWITCH does at its end of a connection. -/
inductive FreeSwitch (w : Wire) : Wire → Prop where
  | answer (w' : Wire) (cmd : Command) (hcmd : w.unanswered = cmd :: w'.unanswered)
      (htags : w'.tags = w.tags) (hgone : w'.gone = w.gone)
      (hsub : w'.subscribed = (w.subscribed || cmd.tag = .subscribe)) : FreeSwitch w w'
  | event (m : Sent) (hm : m.tag = .event) (hsub : w.subscribed = true) :
      FreeSwitch w { w with inbox := w.inbox ++ [m] }
  | goodbye (m : Sent) (hm : m.tag = .event) :
      FreeSwitch w { w with unanswered := [], inbox := w.inbox ++ [m], gone := true }

/-- Everything an atomic step can do to the connections, to `Run` and to the
    calls of `API`. -/
inductive Effect (cfg : Config) (s : State) : Act → State → Prop where
  /-- A step of `Close`, or of the owner of the context. -/
  | beside {a} (s' : State) (hwires : ∀ c, SameFlow (s.wires c) (s'.wires c))
      (hconn : s'.conn = s.conn) (hready : s'.ready = s.ready) (hmu : s'.apiMu = s.apiMu)
      (hslot : s'.pendingReply = s.pendingReply) (hrun : s'.run = s.run)
      (hdialled : s'.dialled = s.dialled) (hcalls : s'.calls = s.calls) : Effect cfg s a s'
  | freeSwitch {a} (c : Nat) (w : Wire) (hw : FreeSwitch (s.wires c) w) :
      Effect cfg s a (s.setWire c w)
  /-- `Run` goes on to a place from which it will not read its connection. -/
  | away {a} (s' : State) (hwires : ∀ c, SameFlow (s.wires c) (s'.wires c))
      (hconn : ∀ c, s'.conn = some c → s.conn = some c)
      (hready : s'.ready = true → s'.run.served = true) (hmu : s'.apiMu = s.apiMu)
      (hslot : s'.pendingReply = s.pendingReply) (haway : s'.run.reads = false)
      (hdialled : s'.dialled = s.dialled) (hcalls : s'.calls = s.calls) : Effect cfg s a s'
  | dial {a} (greeting : Sent) (htag : greeting.tag = .greeting) (hrun : s.run = .dialing) :
      Effect cfg s a { s.setWire (s.dialled + 1) ⟨[], [greeting], false, false, false⟩ with
        dialled := s.dialled + 1, run := .installing }
  | install {a} (hrun : s.run = .installing) :
      Effect cfg s a { s with conn := some s.dialled, run := .readGreeting }
  | read {a} (m : Sent) (rest : List Sent) (hrun : s.run.reading = true)
      (hinbox : (s.wires s.dialled).inbox = m :: rest) :
      Effect cfg s a { s.setWire s.dialled { s.wires s.dialled with inbox := rest } with
        run := afterRead cfg m s.run }
  /-- A command of the handshake is written. -/
  | command {a} (cmd : Command) (pc : RunPc)
      (hpc : s.run = .writeAuth ∧ cmd.tag = .auth ∧ pc = .readAuthReply ∨
        s.run = .writeSubscribe ∧ cmd.tag = .subscribe ∧ pc = .readSubscribeReply) :
      Effect cfg s a { s.deliverCommand s.dialled cmd with run := pc }
  | setReady {a} (hrun : s.run = .settingReady) :
      Effect cfg s a { s with ready := true, run := .serving }
  /-- The read loop puts the message into `pendingReply`, or drops it. -/
  | deliver {a} (m : Sent) (ch : Chan Sent 1) (hrun : s.run = .delivering m)
      (hch : ch.buf = s.pendingReply.buf ++ [m] ∨ ch = s.pendingReply) :
      Effect cfg s a { s with pendingReply := ch, run := .serving }
  | called {a} (i : Nat) (cmd : Bytes) (hpc : s.calls i = .notCalled) :
      Effect cfg s a (s.setCall i (.locking cmd))
  | locked {a} (i : Nat) (cmd : Bytes) (hpc : s.calls i = .locking cmd) (hmu : s.apiMu = none) :
      Effect cfg s a { s.setCall i (.readConn cmd) with apiMu := some i }
  | sawConn {a} (i : Nat) (cmd : Bytes) (hpc : s.calls i = .readConn cmd) :
      Effect cfg s a (s.setCall i (.loadReady cmd s.conn))
  | sawReady {a} (i : Nat) (cmd : Bytes) (c : Nat) (hpc : s.calls i = .loadReady cmd (some c))
      (hready : s.ready = true) : Effect cfg s a (s.setCall i (.draining cmd c))
  | drained (i : Nat) (cmd : Bytes) (c : Nat) (ch : Chan Sent 1)
      (hpc : s.calls i = .draining cmd c) (hch : ch.buf = []) :
      Effect cfg s (.drain i) { s.setCall i (.writing cmd c) with pendingReply := ch }
  | wrote {a} (i : Nat) (cmd text : Bytes) (c : Nat) (hpc : s.calls i = .writing cmd c) :
      Effect cfg s a ((s.deliverCommand c ⟨text, .api i⟩).setCall i (.waiting cmd))
  /-- The write fails, but the command has reached FreeSWITCH. -/
  | wroteBadly {a} (i : Nat) (cmd text : Bytes) (c : Nat) (hpc : s.calls i = .writing cmd c) :
      Effect cfg s a ((s.deliverCommand c ⟨text, .api i⟩).ret i (.failed .write))
  | failed {a} (i : Nat) (err : ApiError) (hpc : (s.calls i).holdsMutex = true) :
      Effect cfg s a (s.ret i (.failed err))
  | received {a} (i : Nat) (cmd : Bytes) (m : Sent) (ch : Chan Sent 1)
      (hpc : s.calls i = .waiting cmd) (hch : s.pendingReply.buf = m :: ch.buf) :
      Effect cfg s a { s.ret i (.received m) with pendingReply := ch }

theorem freeSwitch_of_answer {cfg : Config} {s s' : State} {c : Nat} {msg : EslMessage}
    (h : step cfg s (.answer c msg) = some s') : Effect cfg s (.answer c msg) s' := by
  simp only [step] at h
  split at h
  · rename_i cmd rest hcmd
    split at h
    · cases h
      refine .freeSwitch c _ (.answer _ cmd hcmd ?_ rfl rfl)
      simp [Wire.tags, hcmd]
    · exact absurd h (by simp)
  · exact absurd h (by simp)

/-- A wire is left as it is, or only closed. -/
theorem sameFlow_closeWire (s : State) (c d : Nat) :
    SameFlow (s.wires d) ((s.closeWire c).wires d) := by
  by_cases hd : d = c
  · subst hd
    simp only [State.closeWire, State.setWire, Function.update_self]
    exact ⟨rfl, rfl, rfl, rfl⟩
  · simp only [State.closeWire, State.setWire, Function.update_of_ne hd]
    exact .rfl

/-- `Run` moves, and nothing else. -/
theorem effect_of_run {cfg : Config} {s : State} {a : Act} {pc : RunPc}
    (haway : pc.reads = false) (hready : s.ready = true → pc.served = true) :
    Effect cfg s a { s with run := pc } :=
  .away _ (fun _ => .rfl) (fun _ hc => hc) hready rfl rfl haway rfl rfl

theorem effect_of_step {cfg : Config} {s s' : State} {a : Act}
    (hready : s.ready = true → s.run.served = true) (h : step cfg s a = some s') :
    Effect cfg s a s' := by
  cases a with
  | answer c msg => exact freeSwitch_of_answer h
  | event c m =>
      simp only [step, Option.ite_none_right_eq_some, Option.some.injEq] at h
      obtain ⟨⟨hsub, -, hm⟩, rfl⟩ := h
      exact .freeSwitch c _ (.event m hm hsub)
  | goodbye c m =>
      simp only [step, Option.ite_none_right_eq_some, Option.some.injEq] at h
      obtain ⟨⟨-, hm⟩, rfl⟩ := h
      exact .freeSwitch c _ (.goodbye m hm)
  | cancelRun =>
      cases h
      exact .beside _ (fun _ => .rfl) rfl rfl rfl rfl rfl rfl rfl
  | checkCtx =>
      simp only [step] at h
      split at h
      · rename_i hrun
        cases h
        rw [hrun] at hready
        apply effect_of_run
        · split <;> rfl
        · exact fun hr => absurd (hready hr) Bool.false_ne_true
      · rename_i hrun
        cases h
        rw [hrun] at hready
        apply effect_of_run
        · split <;> rfl
        · exact fun hr => absurd (hready hr) Bool.false_ne_true
      · rename_i hrun
        rw [hrun] at hready
        simp only [Option.ite_none_right_eq_some, Option.some.injEq] at h
        obtain ⟨-, rfl⟩ := h
        exact effect_of_run rfl fun hr => absurd (hready hr) Bool.false_ne_true
      · exact absurd h (by simp)
  | dialFailed =>
      simp only [step, Option.ite_none_right_eq_some, Option.some.injEq] at h
      obtain ⟨hrun, rfl⟩ := h
      rw [hrun] at hready
      exact effect_of_run rfl fun hr => absurd (hready hr) Bool.false_ne_true
  | dialOk greeting =>
      simp only [step, Option.ite_none_right_eq_some, Option.some.injEq] at h
      obtain ⟨hrun, rfl⟩ := h
      exact .dial ⟨greeting, .greeting, _⟩ rfl hrun
  | install =>
      simp only [step, Option.ite_none_right_eq_some, Option.some.injEq] at h
      obtain ⟨hrun, rfl⟩ := h
      exact .install hrun
  | read =>
      simp only [step] at h
      split at h
      · rename_i m rest hrun hinbox
        cases h
        exact .read m rest hrun hinbox
      · exact absurd h (by simp)
  | readFailed =>
      simp only [step, Option.ite_none_right_eq_some, Option.some.injEq] at h
      obtain ⟨hrun, rfl⟩ := h
      apply effect_of_run
      · split <;> rfl
      · intro hr
        have hserved := hready hr
        -- of the places where `Run` reads, `ready` is set in the read loop only
        have hserving : s.run = .serving := by
          cases hpc : s.run with
          | serving => rfl
          | _ =>
              rw [hpc] at hrun hserved
              first
                | exact absurd hrun Bool.false_ne_true
                | exact absurd hserved Bool.false_ne_true
        rw [if_pos hserving]
        rfl
  | writeCmd ok =>
      simp only [step] at h
      split at h
      · rename_i hrun
        rw [hrun] at hready
        split at h
        · simp only [Option.ite_none_left_eq_some, Option.some.injEq] at h
          obtain ⟨-, rfl⟩ := h
          exact .command _ _ (.inl ⟨hrun, rfl, rfl⟩)
        · cases h
          exact effect_of_run rfl fun hr => absurd (hready hr) Bool.false_ne_true
      · rename_i hrun
        rw [hrun] at hready
        split at h
        · simp only [Option.ite_none_left_eq_some, Option.some.injEq] at h
          obtain ⟨-, rfl⟩ := h
          exact .command _ _ (.inr ⟨hrun, rfl, rfl⟩)
        · cases h
          exact effect_of_run rfl fun hr => absurd (hready hr) Bool.false_ne_true
      · exact absurd h (by simp)
  | setReady =>
      simp only [step, Option.ite_none_right_eq_some, Option.some.injEq] at h
      obtain ⟨hrun, rfl⟩ := h
      exact .setReady hrun
  | deliver =>
      simp only [step] at h
      split at h
      · rename_i m hrun
        split at h
        · rename_i ch hch
          cases h
          exact .deliver m ch hrun (.inl (Chan.trySend_eq_some.mp hch).2)
        · cases h
          exact .deliver m s.pendingReply hrun (.inr rfl)
      · exact absurd h (by simp)
  | clearReady =>
      simp only [step, Option.ite_none_right_eq_some, Option.some.injEq] at h
      obtain ⟨-, rfl⟩ := h
      exact .away _ (fun _ => .rfl) (fun _ hc => hc) (by simp) rfl rfl rfl rfl rfl
  | uninstall =>
      simp only [step, Option.ite_none_right_eq_some, Option.some.injEq] at h
      obtain ⟨hrun, rfl⟩ := h
      rw [hrun] at hready
      refine .away _ (fun _ => .rfl) (fun c hc => ?_)
        (fun hr => absurd (hready hr) Bool.false_ne_true) rfl rfl rfl rfl rfl
      dsimp only at hc
      split at hc
      · exact absurd hc (by simp)
      · exact hc
  | closeConn =>
      simp only [step, Option.ite_none_right_eq_some, Option.some.injEq] at h
      obtain ⟨hrun, rfl⟩ := h
      rw [hrun] at hready
      exact .away _ (sameFlow_closeWire s s.dialled) (fun _ hc => hc)
        (fun hr => absurd (hready hr) Bool.false_ne_true) rfl rfl rfl rfl rfl
  | backoffDone =>
      simp only [step, Option.ite_none_right_eq_some, Option.some.injEq] at h
      obtain ⟨hrun, rfl⟩ := h
      rw [hrun] at hready
      exact effect_of_run rfl fun hr => absurd (hready hr) Bool.false_ne_true
  | call i cmd =>
      simp only [step, Option.ite_none_right_eq_some, Option.some.injEq] at h
      obtain ⟨hpc, rfl⟩ := h
      exact .called i cmd hpc
  | lock i =>
      simp only [step] at h
      split at h
      · rename_i cmd hpc hmu
        cases h
        exact .locked i cmd hpc hmu
      · exact absurd h (by simp)
  | readConn i =>
      simp only [step] at h
      split at h
      · rename_i cmd hpc
        cases h
        exact .sawConn i cmd hpc
      · exact absurd h (by simp)
  | loadReady i =>
      simp only [step] at h
      split at h
      · rename_i cmd c hpc
        split at h
        · rename_i hr
          cases h
          exact .sawReady i cmd c hpc hr
        · cases h
          exact .failed i .notConnected (by rw [hpc]; rfl)
      · rename_i cmd hpc
        cases h
        exact .failed i .notConnected (by rw [hpc]; rfl)
      · exact absurd h (by simp)
  | drain i =>
      simp only [step] at h
      split at h
      · rename_i cmd c hpc
        split at h
        · rename_i m ch hrecv
          cases h
          exact .drained i cmd c ch hpc (Chan.buf_nil_of_recv (Chan.tryRecv_eq_some.mp hrecv))
        · rename_i hrecv
          cases h
          exact .drained i cmd c s.pendingReply hpc (Chan.tryRecv_eq_none.mp hrecv)
      · exact absurd h (by simp)
  | write i =>
      simp only [step] at h
      split at h
      · rename_i cmd c hpc
        simp only [Option.ite_none_left_eq_some, Option.some.injEq] at h
        obtain ⟨-, rfl⟩ := h
        exact .wrote i cmd _ c hpc
      · exact absurd h (by simp)
  | writeFailed i arrived =>
      simp only [step] at h
      split at h
      · rename_i cmd c hpc
        split at h
        · cases h
          exact .wroteBadly i cmd _ c hpc
        · cases h
          exact .failed i .write (by rw [hpc]; rfl)
      · exact absurd h (by simp)
  | stopWaiting i err =>
      simp only [step] at h
      split at h
      · rename_i cmd hpc
        simp only [Option.ite_none_right_eq_some, Option.some.injEq] at h
        obtain ⟨-, rfl⟩ := h
        exact .failed i err (by rw [hpc]; rfl)
      · exact absurd h (by simp)
  | recv i =>
      simp only [step] at h
      split at h
      · rename_i cmd hpc
        split at h
        · rename_i m ch hrecv
          cases h
          exact .received i cmd m ch hpc (Chan.tryRecv_eq_some.mp hrecv)
        · exact absurd h (by simp)
      · exact absurd h (by simp)
  | closeCall j =>
      simp only [step, Option.ite_none_right_eq_some, Option.some.injEq] at h
      obtain ⟨-, rfl⟩ := h
      exact .beside _ (fun _ => .rfl) rfl rfl rfl rfl rfl rfl rfl
  | closeCheck j =>
      simp only [step, Option.ite_none_right_eq_some, Option.some.injEq] at h
      obtain ⟨-, rfl⟩ := h
      exact .beside _ (fun _ => .rfl) rfl rfl rfl rfl rfl rfl rfl
  | closeDone j =>
      simp only [step, Option.ite_none_right_eq_some] at h
      obtain ⟨-, h⟩ := h
      split at h
      · cases h
        exact .beside _ (fun _ => .rfl) rfl rfl rfl rfl rfl rfl rfl
      · cases h
        exact .beside _ (fun _ => .rfl) rfl rfl rfl rfl rfl rfl rfl
  | closeWire j =>
      simp only [step, Option.ite_none_right_eq_some] at h
      obtain ⟨-, h⟩ := h
      split at h
      · rename_i c _
        cases h
        exact .beside _ (sameFlow_closeWire s c) rfl rfl rfl rfl rfl rfl rfl
      · cases h
        exact .beside _ (fun _ => .rfl) rfl rfl rfl rfl rfl rfl rfl

-- ============================================================================
-- What is still to come on a wire
-- ============================================================================

/-- FreeSWITCH adds nothing but events to what is still to come. -/
theorem FreeSwitch.mem_tags {w w' : Wire} (h : FreeSwitch w w') {t : Tag} (ht : t ∈ w'.tags)
    (hne : t ≠ .event) : t ∈ w.tags := by
  cases h with
  | answer _ cmd hcmd htags hgone hsub => rwa [htags] at ht
  | event m hm hsub =>
      rw [Wire.tags, List.map_append, List.map_singleton, hm, List.mem_append,
        List.mem_append] at ht
      rcases ht with (ht | ht) | ht
      · exact List.mem_append_left _ ht
      · exact absurd (List.mem_singleton.mp ht) hne
      · exact List.mem_append_right _ ht
  | goodbye m hm =>
      rw [Wire.tags, List.map_append, List.map_singleton, hm, List.map_nil, List.append_nil,
        List.mem_append] at ht
      rcases ht with ht | ht
      · exact List.mem_append_left _ ht
      · exact absurd (List.mem_singleton.mp ht) hne

theorem mem_drop_insert {l r : List Tag} {n : Nat} {x t : Tag} (ht : t ∈ (l ++ [x] ++ r).drop n) :
    t = x ∨ t ∈ l.drop n ∨ t ∈ r := by
  rw [List.drop_append, List.drop_append, List.mem_append, List.mem_append] at ht
  rcases ht with (ht | ht) | ht
  · exact .inr (.inl ht)
  · exact .inl (List.mem_singleton.mp (List.mem_of_mem_drop ht))
  · exact .inr (.inr (List.mem_of_mem_drop ht))

/-- Nor does it bring a message of the handshake behind the awaited one. -/
theorem FreeSwitch.handshake_drop {w w' : Wire} (h : FreeSwitch w w') {n : Nat}
    (hdrop : ∀ t ∈ w.tags.drop n, t.handshake = false)
    (hsub : w.subscribed = true → ∀ cmd ∈ w.unanswered, cmd.tag.handshake = false) :
    ∀ t ∈ w'.tags.drop n, t.handshake = false := by
  intro t ht
  have hinbox : ∀ t ∈ (w.inbox.map Sent.tag).drop n, t.handshake = false := by
    intro t ht
    apply hdrop
    rw [Wire.tags, List.drop_append]
    exact List.mem_append_left _ ht
  cases h with
  | answer _ cmd hcmd htags hgone hsub' =>
      rw [htags] at ht
      exact hdrop t ht
  | event m hm hs =>
      rw [Wire.tags, List.map_append, List.map_singleton, hm] at ht
      rcases mem_drop_insert ht with rfl | ht | ht
      · rfl
      · exact hinbox t ht
      · obtain ⟨cmd, hcmd, rfl⟩ := List.mem_map.mp ht
        exact hsub hs cmd hcmd
  | goodbye m hm =>
      rw [Wire.tags, List.map_append, List.map_singleton, hm] at ht
      rcases mem_drop_insert ht with rfl | ht | ht
      · rfl
      · exact hinbox t ht
      · exact absurd ht List.not_mem_nil

section DeliverCommand

variable (s : State) (c : Nat) (cmd : Command)

@[simp] theorem deliverCommand_conn : (s.deliverCommand c cmd).conn = s.conn := by
  unfold State.deliverCommand
  dsimp only
  split <;> rfl

@[simp] theorem deliverCommand_ready : (s.deliverCommand c cmd).ready = s.ready := by
  unfold State.deliverCommand
  dsimp only
  split <;> rfl

@[simp] theorem deliverCommand_run : (s.deliverCommand c cmd).run = s.run := by
  unfold State.deliverCommand
  dsimp only
  split <;> rfl

@[simp] theorem deliverCommand_dialled : (s.deliverCommand c cmd).dialled = s.dialled := by
  unfold State.deliverCommand
  dsimp only
  split <;> rfl

@[simp] theorem deliverCommand_calls : (s.deliverCommand c cmd).calls = s.calls := by
  unfold State.deliverCommand
  dsimp only
  split <;> rfl

@[simp] theorem deliverCommand_closers : (s.deliverCommand c cmd).closers = s.closers := by
  unfold State.deliverCommand
  dsimp only
  split <;> rfl

@[simp] theorem deliverCommand_done : (s.deliverCommand c cmd).done = s.done := by
  unfold State.deliverCommand
  dsimp only
  split <;> rfl

@[simp] theorem deliverCommand_apiMu : (s.deliverCommand c cmd).apiMu = s.apiMu := by
  unfold State.deliverCommand
  dsimp only
  split <;> rfl

@[simp] theorem deliverCommand_pendingReply :
    (s.deliverCommand c cmd).pendingReply = s.pendingReply := by
  unfold State.deliverCommand
  dsimp only
  split <;> rfl

/-- The wire of the command, unless FreeSWITCH is gone; no other wire changes. -/
theorem deliverCommand_wires (d : Nat) :
    (s.deliverCommand c cmd).wires d = s.wires d ∨
      d = c ∧ (s.wires c).gone = false ∧ (s.deliverCommand c cmd).wires d =
        { s.wires c with unanswered := (s.wires c).unanswered ++ [cmd] } := by
  unfold State.deliverCommand
  dsimp only
  split
  · exact .inl rfl
  · rename_i hgone
    by_cases hd : d = c
    · subst hd
      right
      refine ⟨rfl, by simpa using hgone, ?_⟩
      simp [State.setWire]
    · left
      simp [State.setWire, hd]

theorem deliverCommand_self :
    (s.deliverCommand c cmd).wires c = s.wires c ∧ (s.wires c).gone = true ∨
      (s.wires c).gone = false ∧ (s.deliverCommand c cmd).wires c =
        { s.wires c with unanswered := (s.wires c).unanswered ++ [cmd] } := by
  unfold State.deliverCommand
  dsimp only
  split
  · rename_i hgone
    exact .inl ⟨rfl, hgone⟩
  · rename_i hgone
    right
    refine ⟨by simpa using hgone, ?_⟩
    simp [State.setWire]

end DeliverCommand

theorem tags_snoc (w : Wire) (cmd : Command) :
    ({ w with unanswered := w.unanswered ++ [cmd] } : Wire).tags = w.tags ++ [cmd.tag] := by
  simp [Wire.tags]

-- ============================================================================
-- The handshake
-- ============================================================================

/-- The connection `w` of a `connectAndServe` at `pc`. -/
structure HandshakeInv (pc : RunPc) (w : Wire) : Prop where
  /-- Behind what the handshake awaits there is no message of the handshake. -/
  awaited : pc.reads = true → ∀ t ∈ w.tags.drop pc.awaited, t.handshake = false
  /-- Before the subscription FreeSWITCH says nothing it is not asked for. -/
  early : pc.early = true → (w.gone = true ∨ w.tags.drop pc.awaited = []) ∧
    w.subscribed = false ∧ .subscribe ∉ w.tags
  subscribed : pc.reads = true → w.subscribed = true →
    ∀ cmd ∈ w.unanswered, cmd.tag.handshake = false

theorem HandshakeInv.of_away {pc : RunPc} {w : Wire} (h : pc.reads = false) :
    HandshakeInv pc w where
  awaited := fun hr => absurd (hr.symm.trans h) (by decide)
  early := fun he => by
    have hr := RunPc.reads_of_handshaking (RunPc.handshaking_of_early he)
    exact absurd (hr.symm.trans h) (by decide)
  subscribed := fun hr => absurd (hr.symm.trans h) (by decide)

theorem HandshakeInv.sameFlow {pc : RunPc} {w w' : Wire} (h : HandshakeInv pc w)
    (hw : SameFlow w w') : HandshakeInv pc w' where
  awaited := by
    rw [hw.tags]
    exact h.awaited
  early := by
    rw [hw.tags, hw.gone, hw.subscribed]
    exact h.early
  subscribed := by
    rw [hw.subscribed, hw.unanswered]
    exact h.subscribed

theorem HandshakeInv.freeSwitch {pc : RunPc} {w w' : Wire} (h : HandshakeInv pc w)
    (hw : FreeSwitch w w') : HandshakeInv pc w' where
  awaited := fun hr => hw.handshake_drop (h.awaited hr) (h.subscribed hr)
  early := by
    intro he
    obtain ⟨hquiet, hsub, hnone⟩ := h.early he
    have hnone' : .subscribe ∉ w'.tags := fun hmem => hnone (hw.mem_tags hmem (by decide))
    cases hw with
    | answer _ cmd hcmd htags hgone hsub' =>
        refine ⟨by rwa [htags, hgone], ?_, hnone'⟩
        have hcmd' : cmd.tag ≠ .subscribe := by
          intro hs
          apply hnone
          rw [Wire.tags, hcmd, List.map_cons, hs]
          simp
        rw [hsub', hsub]
        simp [hcmd']
    | event m hm hs => exact absurd (hs.symm.trans hsub) (by decide)
    | goodbye m hm => exact ⟨.inl rfl, hsub, hnone'⟩
  subscribed := by
    intro hr hs cmd' hcmd'
    cases hw with
    | answer _ cmd hcmd htags hgone hsub' =>
        -- the commands behind an answered subscription are no handshake
        have hrest : cmd' ∈ w.unanswered := by
          rw [hcmd]
          exact List.mem_cons_of_mem _ hcmd'
        by_cases hw : w.subscribed = true
        · exact h.subscribed hr hw cmd' hrest
        · apply h.awaited hr
          have hsplit : w.tags = (w.inbox.map Sent.tag ++ [cmd.tag]) ++
              w'.unanswered.map Command.tag := by
            rw [Wire.tags, hcmd]
            simp
          have hawaited : pc.awaited ≤ (w.inbox.map Sent.tag ++ [cmd.tag]).length := by
            have hone := pc.awaited_le_one
            simp only [List.length_append, List.length_singleton]
            omega
          rw [hsplit, List.drop_append, Nat.sub_eq_zero_of_le hawaited]
          exact List.mem_append_right _ (List.mem_map_of_mem hcmd')
    | event m hm hs => exact h.subscribed hr hs cmd' hcmd'
    | goodbye m hm => exact absurd hcmd' List.not_mem_nil

/-- An `API` call writes its command when the handshake is over. -/
theorem HandshakeInv.api {pc : RunPc} {w : Wire} {cmd : Command} (h : HandshakeInv pc w)
    (hpc : pc.handshaking = false) (hcmd : cmd.tag.handshake = false) :
    HandshakeInv pc { w with unanswered := w.unanswered ++ [cmd] } where
  awaited := by
    intro hr t ht
    rw [tags_snoc, List.drop_append, List.mem_append] at ht
    rcases ht with ht | ht
    · exact h.awaited hr t ht
    · rw [List.mem_singleton.mp (List.mem_of_mem_drop ht)]
      exact hcmd
  early := fun he =>
    absurd ((RunPc.handshaking_of_early he).symm.trans hpc) (by decide)
  subscribed := by
    intro hr hs cmd' hcmd'
    rcases List.mem_append.mp hcmd' with hcmd' | hcmd'
    · exact h.subscribed hr hs cmd' hcmd'
    · rw [List.mem_singleton.mp hcmd']
      exact hcmd

/-- The client takes the next message from the wire. -/
theorem HandshakeInv.pop {pc pc' : RunPc} {w : Wire} {m : Sent} {rest : List Sent}
    (h : HandshakeInv pc w) (hinbox : w.inbox = m :: rest) (hreads : pc.reads = true)
    (hawaited : pc'.awaited = 0) (hearly : pc'.early = true → pc.early = true ∧ pc.awaited = 1) :
    HandshakeInv pc' { w with inbox := rest } := by
  have htags : w.tags.drop 1 = ({ w with inbox := rest } : Wire).tags := by
    rw [Wire.tags, hinbox]
    rfl
  refine ⟨fun _ t ht => ?_, fun he => ?_, fun _ hs => h.subscribed hreads hs⟩
  · rw [hawaited, List.drop_zero, ← htags] at ht
    apply h.awaited hreads
    have hone := pc.awaited_le_one
    have hsplit : w.tags.drop 1 = (w.tags.drop pc.awaited).drop (1 - pc.awaited) := by
      rw [List.drop_drop]
      congr 1
      omega
    rw [hsplit] at ht
    exact List.mem_of_mem_drop ht
  · obtain ⟨he', hone⟩ := hearly he
    obtain ⟨hquiet, hsub, hnone⟩ := h.early he'
    rw [hone, htags] at hquiet
    rw [hawaited, List.drop_zero]
    refine ⟨hquiet, hsub, fun hmem => hnone ?_⟩
    rw [← htags] at hmem
    exact List.mem_of_mem_drop hmem

theorem HandshakeInv.read {cfg : Config} {pc : RunPc} {w : Wire} {m : Sent} {rest : List Sent}
    (h : HandshakeInv pc w) (hpc : pc.reading = true) (hinbox : w.inbox = m :: rest) :
    HandshakeInv (afterRead cfg m pc) { w with inbox := rest } := by
  cases pc with
  | readGreeting =>
      simp only [afterRead]
      split
      · exact h.pop hinbox rfl rfl (fun _ => ⟨rfl, rfl⟩)
      · exact .of_away rfl
  | readAuthReply =>
      simp only [afterRead]
      split
      · split
        · exact h.pop hinbox rfl rfl (fun he => absurd he Bool.false_ne_true)
        · exact h.pop hinbox rfl rfl (fun _ => ⟨rfl, rfl⟩)
      · exact .of_away rfl
  | readSubscribeReply =>
      exact h.pop hinbox rfl rfl (fun he => absurd he Bool.false_ne_true)
  | serving =>
      simp only [afterRead]
      split
      · exact h.pop hinbox rfl rfl (fun he => absurd he Bool.false_ne_true)
      · split
        · exact .of_away rfl
        · exact h.pop hinbox rfl rfl (fun he => absurd he Bool.false_ne_true)
  | _ => exact absurd hpc Bool.false_ne_true

/-- A command of the handshake is written when nothing is awaited. -/
theorem HandshakeInv.command {pc pc' : RunPc} {w w' : Wire} {cmd : Command}
    (h : HandshakeInv pc w)
    (hpc : pc = .writeAuth ∧ cmd.tag = .auth ∧ pc' = .readAuthReply ∨
      pc = .writeSubscribe ∧ cmd.tag = .subscribe ∧ pc' = .readSubscribeReply)
    (hw : w' = w ∧ w.gone = true ∨
      w.gone = false ∧ w' = { w with unanswered := w.unanswered ++ [cmd] }) :
    HandshakeInv pc' w' := by
  have hbefore : pc.reads = true ∧ pc.early = true ∧ pc.awaited = 0 ∧ pc'.awaited = 1 := by
    rcases hpc with ⟨rfl, -, rfl⟩ | ⟨rfl, -, rfl⟩
    · exact ⟨rfl, rfl, rfl, rfl⟩
    · exact ⟨rfl, rfl, rfl, rfl⟩
  obtain ⟨hreads, hearly, hzero, hone⟩ := hbefore
  obtain ⟨hquiet, hsub, hnone⟩ := h.early hearly
  have hfree := h.awaited hreads
  rw [hzero, List.drop_zero] at hquiet hfree
  rcases hw with ⟨rfl, hgone⟩ | ⟨hgone, rfl⟩
  · exact
      { awaited := fun _ t ht => hfree t (List.mem_of_mem_drop ht)
        early := fun _ => ⟨.inl hgone, hsub, hnone⟩
        subscribed := fun _ => h.subscribed hreads }
  · -- nothing else is on the way, so the reply is the awaited message
    have hempty : w.tags = [] := by
      rcases hquiet with hq | hq
      · exact absurd (hq.symm.trans hgone) (by decide)
      · exact hq
    refine ⟨fun _ t ht => ?_, fun he => ⟨.inr ?_, hsub, ?_⟩, fun _ hs => ?_⟩
    · rw [tags_snoc, hempty, hone] at ht
      exact absurd ht List.not_mem_nil
    · rw [tags_snoc, hempty, hone]
      rfl
    · rcases hpc with ⟨rfl, hcmd, rfl⟩ | ⟨rfl, hcmd, rfl⟩
      · rw [tags_snoc, hempty, hcmd]
        decide
      · exact absurd he Bool.false_ne_true
    · exact absurd (hs.symm.trans hsub) (by decide)

/-- Only the read loop takes a message for a reply. -/
theorem RunPc.held_afterRead {cfg : Config} {pc : RunPc} {m m' : Sent} (hpc : pc.reading = true)
    (hm : m' ∈ (afterRead cfg m pc).held) : pc = .serving ∧ m' = m ∧ m.msg.isReply = true := by
  cases pc with
  | serving =>
      simp only [afterRead] at hm
      split at hm
      · rename_i hreply
        exact ⟨rfl, List.mem_singleton.mp hm, hreply⟩
      · split at hm <;> exact absurd hm List.not_mem_nil
  | readGreeting =>
      simp only [afterRead] at hm
      split at hm <;> exact absurd hm List.not_mem_nil
  | readAuthReply =>
      simp only [afterRead] at hm
      split at hm
      · split at hm <;> exact absurd hm List.not_mem_nil
      · exact absurd hm List.not_mem_nil
  | readSubscribeReply => exact absurd hm List.not_mem_nil
  | _ => exact absurd hpc Bool.false_ne_true

/-- A message the read loop takes for a reply answers an `API` call. -/
theorem HandshakeInv.held {cfg : Config} {pc : RunPc} {w : Wire} {m : Sent} {rest : List Sent}
    (h : HandshakeInv pc w) (hpc : pc.reading = true) (hinbox : w.inbox = m :: rest) :
    ∀ m' ∈ (afterRead cfg m pc).held, ∃ i, m'.tag = .api i := by
  intro m' hm'
  obtain ⟨rfl, rfl, hreply⟩ := RunPc.held_afterRead hpc hm'
  have hfree : m'.tag.handshake = false := by
    apply h.awaited rfl
    simp [RunPc.awaited, Wire.tags, hinbox]
  have hevent : m'.tag ≠ .event := by
    intro he
    exact absurd (hreply.symm.trans (m'.event_not_reply he)) (by decide)
  cases htag : m'.tag with
  | api i => exact ⟨i, rfl⟩
  | event => exact absurd htag hevent
  | _ =>
      rw [htag] at hfree
      exact absurd hfree.symm Bool.false_ne_true

-- ============================================================================
-- The invariant
-- ============================================================================

/-- The connection of the running `connectAndServe`, and who may write to it. -/
structure LinkInv (s : State) : Prop where
  ready_served : s.ready = true → s.run.served = true
  conn_le : ∀ c, s.conn = some c → c ≤ s.dialled
  seen_le : ∀ i cmd c, s.calls i = .loadReady cmd (some c) → c ≤ s.dialled
  /-- A call writes to an older connection, or to one whose handshake is over. -/
  chosen : ∀ i cmd c, s.calls i = .draining cmd c ∨ s.calls i = .writing cmd c →
    c < s.dialled ∨ c = s.dialled ∧ s.run.handshaking = false
  handshake : HandshakeInv s.run (s.wires s.dialled)
  held : ∀ m ∈ s.run.held, ∃ i, m.tag = .api i
  slot : ∀ m ∈ s.pendingReply.buf, ∃ i, m.tag = .api i

theorem linkInv_initial : LinkInv initial where
  ready_served := by simp [initial]
  conn_le := by simp [initial]
  seen_le := by simp [initial]
  chosen := by simp [initial]
  handshake := .of_away rfl
  held := by simp [initial, RunPc.held]
  slot := by simp [initial]

theorem RunPc.served_afterRead {cfg : Config} {pc : RunPc} {m : Sent} (hpc : pc.reading = true)
    (h : pc.served = true) : (afterRead cfg m pc).served = true := by
  cases pc with
  | serving =>
      simp only [afterRead]
      split
      · rfl
      · split <;> rfl
  | delivering m => exact absurd hpc Bool.false_ne_true
  | clearingReady => exact absurd hpc Bool.false_ne_true
  | _ => exact absurd h Bool.false_ne_true

theorem RunPc.not_handshaking_of_served {pc : RunPc} (h : pc.served = true) :
    pc.handshaking = false := by
  cases pc <;> first | rfl | exact absurd h Bool.false_ne_true

theorem RunPc.not_handshaking_afterRead {cfg : Config} {pc : RunPc} {m : Sent}
    (hpc : pc.reading = true) (h : pc.handshaking = false) :
    (afterRead cfg m pc).handshaking = false := by
  have hserved : pc.served = true := by
    cases pc <;>
      first
        | rfl
        | exact absurd hpc Bool.false_ne_true
        | exact absurd h.symm Bool.false_ne_true
  exact RunPc.not_handshaking_of_served (RunPc.served_afterRead hpc hserved)

theorem RunPc.held_of_away {pc : RunPc} (h : pc.reads = false) : pc.held = [] := by
  cases pc with
  | delivering m => exact absurd h.symm Bool.false_ne_true
  | _ => rfl

theorem RunPc.not_handshaking_of_away {pc : RunPc} (h : pc.reads = false) :
    pc.handshaking = false := by
  cases hpc : pc.handshaking with
  | false => rfl
  | true => exact absurd ((RunPc.reads_of_handshaking hpc).symm.trans h) (by decide)

/-- A step of one call of `API` beside the connection. -/
theorem LinkInv.setCall {s s' : State} (h : LinkInv s) (i : Nat) (pc : ApiPc)
    (hconn : s'.conn = s.conn) (hready : s'.ready = s.ready) (hrun : s'.run = s.run)
    (hdialled : s'.dialled = s.dialled) (hcalls : s'.calls = Function.update s.calls i pc)
    (hwire : HandshakeInv s.run (s'.wires s.dialled))
    (hslot : ∀ m ∈ s'.pendingReply.buf, m ∈ s.pendingReply.buf)
    (hseen : ∀ cmd c, pc = .loadReady cmd (some c) → c ≤ s.dialled)
    (hchosen : ∀ cmd c, pc = .draining cmd c ∨ pc = .writing cmd c →
      c < s.dialled ∨ c = s.dialled ∧ s.run.handshaking = false) : LinkInv s' := by
  constructor
  · rw [hready, hrun]
    exact h.ready_served
  · rw [hconn, hdialled]
    exact h.conn_le
  · intro j cmd c hj
    rw [hcalls] at hj
    rw [hdialled]
    by_cases hji : j = i
    · subst hji
      rw [Function.update_self] at hj
      exact hseen cmd c hj
    · rw [Function.update_of_ne hji] at hj
      exact h.seen_le j cmd c hj
  · intro j cmd c hj
    rw [hcalls] at hj
    rw [hdialled, hrun]
    by_cases hji : j = i
    · subst hji
      rw [Function.update_self] at hj
      exact hchosen cmd c hj
    · rw [Function.update_of_ne hji] at hj
      exact h.chosen j cmd c hj
  · rw [hrun, hdialled]
    exact hwire
  · rw [hrun]
    exact h.held
  · exact fun m hm => h.slot m (hslot m hm)

/-- `Run` moves; the calls of `API` stay where they are. -/
theorem LinkInv.setRun {s s' : State} (h : LinkInv s)
    (hready : s'.ready = true → s'.run.served = true)
    (hconn : ∀ c, s'.conn = some c → s.conn = some c ∨ c = s'.dialled)
    (hdialled : s.dialled ≤ s'.dialled) (hcalls : s'.calls = s.calls)
    (hhandshaking : s'.dialled = s.dialled → s.run.handshaking = false →
      s'.run.handshaking = false)
    (hwire : HandshakeInv s'.run (s'.wires s'.dialled))
    (hheld : ∀ m ∈ s'.run.held, ∃ i, m.tag = .api i)
    (hslot : ∀ m ∈ s'.pendingReply.buf, m ∈ s.pendingReply.buf ∨ m ∈ s.run.held) :
    LinkInv s' := by
  refine ⟨hready, fun c hc => ?_, fun i cmd c hi => ?_, fun i cmd c hi => ?_, hwire, hheld,
    fun m hm => ?_⟩
  · rcases hconn c hc with hc | rfl
    · exact Nat.le_trans (h.conn_le c hc) hdialled
    · exact Nat.le_refl _
  · rw [hcalls] at hi
    exact Nat.le_trans (h.seen_le i cmd c hi) hdialled
  · rw [hcalls] at hi
    rcases h.chosen i cmd c hi with hlt | ⟨rfl, hpc⟩
    · exact .inl (by omega)
    · by_cases hsame : s'.dialled = s.dialled
      · exact .inr ⟨hsame.symm, hhandshaking hsame hpc⟩
      · exact .inl (by omega)
  · rcases hslot m hm with hm | hm
    · exact h.slot m hm
    · exact h.held m hm

/-- An `API` command reaches FreeSWITCH. -/
theorem LinkInv.deliverCommand {s : State} {c i : Nat} {text : Bytes} (h : LinkInv s)
    (hc : c < s.dialled ∨ c = s.dialled ∧ s.run.handshaking = false) :
    HandshakeInv s.run ((s.deliverCommand c ⟨text, .api i⟩).wires s.dialled) := by
  rcases deliverCommand_wires s c ⟨text, .api i⟩ s.dialled with hsame | ⟨rfl, -, hwire⟩
  · rw [hsame]
    exact h.handshake
  · rw [hwire]
    rcases hc with hlt | ⟨-, hpc⟩
    · exact absurd hlt (Nat.lt_irrefl _)
    · exact h.handshake.api hpc rfl

theorem Effect.linkInv {cfg : Config} {s s' : State} {a : Act} (heff : Effect cfg s a s')
    (h : LinkInv s) : LinkInv s' := by
  cases heff with
  | beside _ hwires hconn hready hmu hslot hrun hdialled hcalls =>
      refine h.setRun ?_ ?_ (Nat.le_of_eq hdialled.symm) hcalls ?_ ?_ ?_ ?_
      · rw [hready, hrun]
        exact h.ready_served
      · intro c hc
        exact .inl (hconn ▸ hc)
      · rw [hrun]
        exact fun _ hpc => hpc
      · rw [hrun, hdialled]
        exact h.handshake.sameFlow (hwires _)
      · rw [hrun]
        exact h.held
      · rw [hslot]
        exact fun m hm => .inl hm
  | freeSwitch c w hw =>
      refine h.setRun h.ready_served (fun c hc => .inl hc) (Nat.le_refl _) rfl
        (fun _ hpc => hpc) ?_ h.held (fun m hm => .inl hm)
      show HandshakeInv s.run (Function.update s.wires c w s.dialled)
      by_cases hc : s.dialled = c
      · subst hc
        rw [Function.update_self]
        exact h.handshake.freeSwitch hw
      · rw [Function.update_of_ne hc]
        exact h.handshake
  | away _ hwires hconn hready hmu hslot haway hdialled hcalls =>
      refine h.setRun hready (fun c hc => .inl (hconn c hc)) (Nat.le_of_eq hdialled.symm) hcalls
        (fun _ _ => RunPc.not_handshaking_of_away haway) (.of_away haway) ?_ ?_
      · rw [RunPc.held_of_away haway]
        exact fun m hm => absurd hm List.not_mem_nil
      · rw [hslot]
        exact fun m hm => .inl hm
  | dial greeting htag hrun =>
      have hnotready : ¬ s.ready = true := by
        intro hr
        have hserved := h.ready_served hr
        rw [hrun] at hserved
        exact absurd hserved Bool.false_ne_true
      refine h.setRun (fun hr => absurd hr hnotready) (fun c hc => .inl hc) (Nat.le_succ _) rfl
        (fun hsame => absurd hsame (Nat.succ_ne_self _)) ?_ (fun m hm => absurd hm List.not_mem_nil)
        (fun m hm => .inl hm)
      show HandshakeInv .installing (Function.update s.wires (s.dialled + 1) _ (s.dialled + 1))
      rw [Function.update_self]
      have htags : (⟨[], [greeting], false, false, false⟩ : Wire).tags = [.greeting] := by
        simp [Wire.tags, htag]
      refine ⟨fun _ t ht => ?_, fun _ => ⟨.inr ?_, rfl, ?_⟩, fun _ hs => ?_⟩
      · rw [htags] at ht
        exact absurd ht List.not_mem_nil
      · rw [htags]
        rfl
      · rw [htags]
        decide
      · exact absurd hs Bool.false_ne_true
  | install hrun =>
      have hshake := h.handshake
      have hserved := h.ready_served
      rw [hrun] at hshake hserved
      refine h.setRun (fun hr => absurd (hserved hr) Bool.false_ne_true) (fun c hc => .inr ?_)
        (Nat.le_refl _) rfl (fun _ hpc => ?_) ?_ (fun m hm => absurd hm List.not_mem_nil)
        (fun m hm => .inl hm)
      · exact (Option.some.inj hc).symm
      · rw [hrun] at hpc
        exact absurd hpc.symm Bool.false_ne_true
      · exact ⟨hshake.awaited, hshake.early, hshake.subscribed⟩
  | read m rest hrun hinbox =>
      refine h.setRun (fun hr => RunPc.served_afterRead hrun (h.ready_served hr))
        (fun c hc => .inl hc) (Nat.le_refl _) rfl
        (fun _ hpc => RunPc.not_handshaking_afterRead hrun hpc) ?_
        (h.handshake.held hrun hinbox) (fun m hm => .inl hm)
      show HandshakeInv _ (Function.update s.wires s.dialled _ s.dialled)
      rw [Function.update_self]
      exact h.handshake.read hrun hinbox
  | command cmd pc hpc =>
      have hserved := h.ready_served
      refine h.setRun (fun hr => ?_) (fun c hc => .inl ?_) ?_ ?_ (fun _ hh => ?_) ?_
        (fun m hm => ?_) (fun m hm => .inl ?_)
      · rw [deliverCommand_ready] at hr
        have hs := hserved hr
        rcases hpc with ⟨hrun, -, -⟩ | ⟨hrun, -, -⟩
        · rw [hrun] at hs
          exact absurd hs Bool.false_ne_true
        · rw [hrun] at hs
          exact absurd hs Bool.false_ne_true
      · rwa [deliverCommand_conn] at hc
      · exact Nat.le_of_eq (deliverCommand_dialled ..).symm
      · exact deliverCommand_calls ..
      · rcases hpc with ⟨hrun, -, -⟩ | ⟨hrun, -, -⟩
        · rw [hrun] at hh
          exact absurd hh.symm Bool.false_ne_true
        · rw [hrun] at hh
          exact absurd hh.symm Bool.false_ne_true
      · show HandshakeInv pc ((s.deliverCommand s.dialled cmd).wires
          (s.deliverCommand s.dialled cmd).dialled)
        rw [deliverCommand_dialled]
        exact h.handshake.command hpc (deliverCommand_self s s.dialled cmd)
      · rcases hpc with ⟨-, -, rfl⟩ | ⟨-, -, rfl⟩
        · exact absurd hm List.not_mem_nil
        · exact absurd hm List.not_mem_nil
      · rwa [deliverCommand_pendingReply] at hm
  | setReady hrun =>
      have hshake := h.handshake
      rw [hrun] at hshake
      refine h.setRun (fun _ => rfl) (fun c hc => .inl hc) (Nat.le_refl _) rfl (fun _ _ => rfl) ?_
        (fun m hm => absurd hm List.not_mem_nil) (fun m hm => .inl hm)
      exact ⟨hshake.awaited, fun he => absurd he Bool.false_ne_true, hshake.subscribed⟩
  | deliver m ch hrun hch =>
      have hshake := h.handshake
      rw [hrun] at hshake
      refine h.setRun (fun _ => rfl) (fun c hc => .inl hc) (Nat.le_refl _) rfl (fun _ _ => rfl)
        ⟨hshake.awaited, hshake.early, hshake.subscribed⟩ (fun m hm => absurd hm List.not_mem_nil)
        (fun m' hm' => ?_)
      have hmem : m' ∈ ch.buf := hm'
      rw [hrun]
      rcases hch with hch | rfl
      · rw [hch] at hmem
        exact List.mem_append.mp hmem
      · exact .inl hmem
  | called i cmd hpc =>
      exact h.setCall i (.locking cmd) rfl rfl rfl rfl rfl h.handshake
        (fun m hm => hm) (by simp) (by simp)
  | locked i cmd hpc hmu =>
      exact h.setCall i (.readConn cmd) rfl rfl rfl rfl rfl h.handshake
        (fun m hm => hm) (by simp) (by simp)
  | sawConn i cmd hpc =>
      refine h.setCall i (.loadReady cmd s.conn) rfl rfl rfl rfl rfl h.handshake
        (fun m hm => hm) (fun cmd c hc => ?_) (by simp)
      apply h.conn_le
      injection hc
  | sawReady i cmd c hpc hready =>
      refine h.setCall i (.draining cmd c) rfl rfl rfl rfl rfl h.handshake
        (fun m hm => hm) (by simp) ?_
      intro cmd' c' hc'
      obtain rfl : c = c' := by simpa using hc'.elim (fun h => by injection h) (by simp)
      have hshaken := RunPc.not_handshaking_of_served (h.ready_served hready)
      rcases Nat.lt_or_eq_of_le (h.seen_le i cmd c hpc) with hlt | heq
      · exact .inl hlt
      · exact .inr ⟨heq, hshaken⟩
  | drained i cmd c ch hpc hch =>
      refine h.setCall i (.writing cmd c) rfl rfl rfl rfl rfl h.handshake
        (fun m hm => ?_) (by simp) ?_
      · have hmem : m ∈ ch.buf := hm
        rw [hch] at hmem
        exact absurd hmem List.not_mem_nil
      · intro cmd' c' hc'
        obtain rfl : c = c' := by simpa using hc'.elim (by simp) (fun h => by injection h)
        exact h.chosen i cmd c (.inl hpc)
  | wrote i cmd text c hpc =>
      refine h.setCall i (.waiting cmd) (deliverCommand_conn ..)
        (deliverCommand_ready ..) (deliverCommand_run ..) (deliverCommand_dialled ..) ?_
        (h.deliverCommand (h.chosen i cmd c (.inr hpc))) ?_
        (by simp) (by simp)
      · rw [State.setCall, deliverCommand_calls]
      · show ∀ m ∈ (s.deliverCommand c _).pendingReply.buf, _
        rw [deliverCommand_pendingReply]
        exact fun m hm => hm
  | wroteBadly i cmd text c hpc =>
      refine h.setCall i (.returned (.failed .write)) (deliverCommand_conn ..)
        (deliverCommand_ready ..) (deliverCommand_run ..) (deliverCommand_dialled ..) ?_
        (h.deliverCommand (h.chosen i cmd c (.inr hpc))) ?_
        (by simp) (by simp)
      · rw [State.ret, State.setCall, deliverCommand_calls]
      · show ∀ m ∈ (s.deliverCommand c _).pendingReply.buf, _
        rw [deliverCommand_pendingReply]
        exact fun m hm => hm
  | failed i err hpc =>
      exact h.setCall i (.returned (.failed err)) rfl rfl rfl rfl rfl h.handshake
        (fun m hm => hm) (by simp) (by simp)
  | received i cmd m ch hpc hch =>
      refine h.setCall i (.returned (.received m)) rfl rfl rfl rfl rfl h.handshake
        (fun m' hm' => ?_) (by simp) (by simp)
      rw [hch]
      exact List.mem_cons_of_mem _ hm'

end FsBridge.Bridge.EslClient
