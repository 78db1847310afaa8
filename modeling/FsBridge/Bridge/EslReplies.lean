/-
  FsBridge.Bridge.EslReplies

  Reply correlation: whose reply a call of `API` returns.

  Calls are serialized by `apiMu` and each removes a reply that is already in
  `pendingReply`.  A call that stopped waiting leaves a reply behind that is
  still to come; if it comes after the next call has drained the slot, that
  call takes it for its own.
-/

import FsBridge.Bridge.EslClientLink

namespace FsBridge.Bridge.EslClient

open FsBridge.Lib

-- ============================================================================
-- The property
-- ============================================================================

/-- Every call that returned a result returned the reply to its own command. -/
def Correlated (s : State) : Prop :=
  ∀ i m r, s.calls i = .returned (.received m) → apiResult m.msg = .ok r → m.tag = .api i

/-- The message is the reply to a call of `API`. -/
def Tag.answersCall : Tag → Bool
  | .api _ => true
  | _ => false

def Act.drains : Act → Bool
  | .drain _ => true
  | _ => false

/-- A call drains `pendingReply` only when the read loop will bring no further
    reply to the command of an earlier call. -/
def NoLateReply (s : State) (a : Act) : Prop :=
  a.drains = true → ∀ t ∈ s.readable, t.answersCall = false

instance (s : State) (a : Act) : Decidable (NoLateReply s a) :=
  inferInstanceAs (Decidable (_ → _))

-- ============================================================================
-- What is still to come to `pendingReply`
-- ============================================================================

/-- The message in `pendingReply` and what is still to come to it. -/
def State.incoming (s : State) : List Tag := s.pendingReply.buf.map Sent.tag ++ s.readable

theorem mem_incoming {s : State} {t : Tag} :
    t ∈ s.incoming ↔ t ∈ s.pendingReply.buf.map Sent.tag ∨ t ∈ s.run.held.map Sent.tag ∨
      s.run.reads = true ∧ t ∈ (s.wires s.dialled).tags := by
  rw [State.incoming, State.readable, List.mem_append, List.mem_append]
  cases s.run.reads <;> simp

/-- Steps that move no call of `API` bring no new reply. -/
theorem incoming_of_run {s s' : State} {j : Nat} (h : .api j ∈ s'.incoming)
    (hslot : ∀ m ∈ s'.pendingReply.buf, m ∈ s.pendingReply.buf ∨ m ∈ s.run.held)
    (hheld : ∀ m ∈ s'.run.held, m ∈ s.run.held ∨
      s.run.reads = true ∧ m.tag ∈ (s.wires s.dialled).tags)
    (hwire : s'.run.reads = true → .api j ∈ (s'.wires s'.dialled).tags →
      s.run.reads = true ∧ .api j ∈ (s.wires s.dialled).tags) : .api j ∈ s.incoming := by
  rw [mem_incoming] at h ⊢
  rcases h with h | h | ⟨hr, h⟩
  · obtain ⟨m, hm, htag⟩ := List.mem_map.mp h
    rcases hslot m hm with hm | hm
    · exact .inl (List.mem_map.mpr ⟨m, hm, htag⟩)
    · exact .inr (.inl (List.mem_map.mpr ⟨m, hm, htag⟩))
  · obtain ⟨m, hm, htag⟩ := List.mem_map.mp h
    rcases hheld m hm with hm | ⟨hr, hm⟩
    · exact .inr (.inl (List.mem_map.mpr ⟨m, hm, htag⟩))
    · exact .inr (.inr ⟨hr, htag ▸ hm⟩)
  · exact .inr (.inr (hwire hr h))

/-- An `API` command reaches FreeSWITCH: only its own reply is new. -/
theorem incoming_deliverCommand {s : State} {c i j : Nat} {text : Bytes}
    (h : .api j ∈ (s.deliverCommand c ⟨text, .api i⟩).incoming) :
    .api j ∈ s.incoming ∨ j = i := by
  rw [mem_incoming, deliverCommand_pendingReply, deliverCommand_run, deliverCommand_dialled] at h
  rw [mem_incoming]
  rcases h with h | h | ⟨hr, h⟩
  · exact .inl (.inl h)
  · exact .inl (.inr (.inl h))
  · rcases deliverCommand_wires s c ⟨text, .api i⟩ s.dialled with hsame | ⟨rfl, -, hwire⟩
    · rw [hsame] at h
      exact .inl (.inr (.inr ⟨hr, h⟩))
    · rw [hwire, tags_snoc, List.mem_append] at h
      rcases h with h | h
      · exact .inl (.inr (.inr ⟨hr, h⟩))
      · right
        simpa using h

-- ============================================================================
-- The invariant
-- ============================================================================

/-- What a call of `API` may rely on. -/
structure CallInv (s : State) : Prop where
  mutex : ∀ i, (s.calls i).holdsMutex = true → s.apiMu = some i
  /-- After the drain nothing is to come. -/
  writing : ∀ i cmd c, s.calls i = .writing cmd c → ∀ j, .api j ∉ s.incoming
  /-- After the write only the reply to that command is to come. -/
  waiting : ∀ i cmd, s.calls i = .waiting cmd → ∀ j, .api j ∈ s.incoming → j = i
  returned : ∀ i m, s.calls i = .returned (.received m) → m.tag = .api i

theorem callInv_initial : CallInv initial where
  mutex := fun i h => absurd h Bool.false_ne_true
  writing := by simp [initial]
  waiting := by simp [initial]
  returned := by simp [initial]

/-- Steps that move no call and bring no new reply. -/
theorem CallInv.of_calls {s s' : State} (h : CallInv s) (hcalls : s'.calls = s.calls)
    (hmu : s'.apiMu = s.apiMu) (hin : ∀ j, .api j ∈ s'.incoming → .api j ∈ s.incoming) :
    CallInv s' := by
  constructor
  · rw [hcalls, hmu]
    exact h.mutex
  · intro i cmd c hi j hj
    rw [hcalls] at hi
    exact h.writing i cmd c hi j (hin j hj)
  · intro i cmd hi j hj
    rw [hcalls] at hi
    exact h.waiting i cmd hi j (hin j hj)
  · rw [hcalls]
    exact h.returned

/-- A step of one call; the call that holds `apiMu`, if it is another one, notices
    nothing. -/
theorem CallInv.setCall {s s' : State} (h : CallInv s) (i : Nat) (pc : ApiPc)
    (hcalls : s'.calls = Function.update s.calls i pc)
    (hother : ∀ j, j ≠ i → (s.calls j).holdsMutex = true →
      s'.apiMu = s.apiMu ∧ ∀ k, .api k ∈ s'.incoming → .api k ∈ s.incoming)
    (hmu : pc.holdsMutex = true → s'.apiMu = some i)
    (hwriting : ∀ cmd c, pc = .writing cmd c → ∀ j, .api j ∉ s'.incoming)
    (hwaiting : ∀ cmd, pc = .waiting cmd → ∀ j, .api j ∈ s'.incoming → j = i)
    (hreturned : ∀ m, pc = .returned (.received m) → m.tag = .api i) : CallInv s' := by
  have hsplit : ∀ j, j = i ∧ s'.calls j = pc ∨ j ≠ i ∧ s'.calls j = s.calls j := by
    intro j
    by_cases hj : j = i
    · exact .inl ⟨hj, by rw [hcalls, hj, Function.update_self]⟩
    · exact .inr ⟨hj, by rw [hcalls, Function.update_of_ne hj]⟩
  refine ⟨fun j hj => ?_, fun j cmd c hj => ?_, fun j cmd hj => ?_, fun j m hj => ?_⟩
  · rcases hsplit j with ⟨rfl, hself⟩ | ⟨hne, hsame⟩
    · exact hmu (hself ▸ hj)
    · rw [hsame] at hj
      rw [(hother j hne hj).1]
      exact h.mutex j hj
  · rcases hsplit j with ⟨rfl, hself⟩ | ⟨hne, hsame⟩
    · exact hwriting cmd c (hself.symm.trans hj)
    · rw [hsame] at hj
      intro k hk
      exact h.writing j cmd c hj k ((hother j hne (by rw [hj]; rfl)).2 k hk)
  · rcases hsplit j with ⟨rfl, hself⟩ | ⟨hne, hsame⟩
    · exact hwaiting cmd (hself.symm.trans hj)
    · rw [hsame] at hj
      intro k hk
      exact h.waiting j cmd hj k ((hother j hne (by rw [hj]; rfl)).2 k hk)
  · rcases hsplit j with ⟨rfl, hself⟩ | ⟨hne, hsame⟩
    · exact hreturned m (hself.symm.trans hj)
    · rw [hsame] at hj
      exact h.returned j m hj

/-- The call that holds `apiMu` holds it alone. -/
theorem CallInv.alone {s : State} {P : Prop} (h : CallInv s) {i : Nat}
    (hi : (s.calls i).holdsMutex = true) : ∀ j, j ≠ i → (s.calls j).holdsMutex = true → P := by
  intro j hne hj
  have hmu := (h.mutex j hj).symm.trans (h.mutex i hi)
  exact absurd (Option.some.inj hmu) hne

theorem Effect.callInv {cfg : Config} {s s' : State} {a : Act} (heff : Effect cfg s a s')
    (hguard : NoLateReply s a) (hlink : LinkInv s) (h : CallInv s) : CallInv s' := by
  cases heff with
  | beside _ hwires hconn hready hmu hslot hrun hdialled hcalls =>
      refine h.of_calls hcalls hmu fun j hj => incoming_of_run hj ?_ ?_ ?_
      · rw [hslot]
        exact fun m hm => .inl hm
      · rw [hrun]
        exact fun m hm => .inl hm
      · rw [hrun, hdialled, (hwires _).tags]
        exact fun hr ht => ⟨hr, ht⟩
  | freeSwitch c w hw =>
      refine h.of_calls rfl rfl fun j hj =>
        incoming_of_run hj (fun m hm => .inl hm) (fun m hm => .inl hm) (fun hr ht => ⟨hr, ?_⟩)
      have ht' : .api j ∈ (Function.update s.wires c w s.dialled).tags := ht
      by_cases hc : s.dialled = c
      · subst hc
        rw [Function.update_self] at ht'
        exact hw.mem_tags ht' (by simp)
      · rwa [Function.update_of_ne hc] at ht'
  | away _ hwires hconn hready hmu hslot haway hdialled hcalls =>
      refine h.of_calls hcalls hmu fun j hj => incoming_of_run hj ?_ ?_ ?_
      · rw [hslot]
        exact fun m hm => .inl hm
      · rw [RunPc.held_of_away haway]
        exact fun m hm => absurd hm List.not_mem_nil
      · rw [haway]
        exact fun hr => absurd hr (by decide)
  | dial greeting htag hrun =>
      refine h.of_calls rfl rfl fun j hj =>
        incoming_of_run hj (fun m hm => .inl hm) (fun m hm => absurd hm List.not_mem_nil)
          (fun _ ht => ?_)
      have ht' : .api j ∈ (Function.update s.wires (s.dialled + 1)
        ⟨[], [greeting], false, false, false⟩ (s.dialled + 1)).tags := ht
      rw [Function.update_self, Wire.tags] at ht'
      simp [htag] at ht'
  | install hrun =>
      refine h.of_calls rfl rfl fun j hj =>
        incoming_of_run hj (fun m hm => .inl hm) (fun m hm => absurd hm List.not_mem_nil)
          (fun _ ht => ⟨?_, ht⟩)
      rw [hrun]
      rfl
  | read m rest hrun hinbox =>
      have hreads : s.run.reads = true := by
        cases hpc : s.run <;> rw [hpc] at hrun <;>
          first | rfl | exact absurd hrun Bool.false_ne_true
      have htags : (s.wires s.dialled).tags =
          m.tag :: ({ s.wires s.dialled with inbox := rest } : Wire).tags := by
        rw [Wire.tags, hinbox]
        rfl
      refine h.of_calls rfl rfl fun j hj =>
        incoming_of_run hj (fun m hm => .inl hm) (fun m' hm' => .inr ⟨hreads, ?_⟩)
          (fun _ ht => ⟨hreads, ?_⟩)
      · obtain ⟨-, rfl, -⟩ := RunPc.held_afterRead hrun hm'
        rw [htags]
        exact List.mem_cons_self
      · have ht' : .api j ∈ (Function.update s.wires s.dialled
          { s.wires s.dialled with inbox := rest } s.dialled).tags := ht
        rw [Function.update_self] at ht'
        rw [htags]
        exact List.mem_cons_of_mem _ ht'
  | command cmd pc hpc =>
      have htag : ∀ j, cmd.tag ≠ .api j := by
        intro j
        rcases hpc with ⟨-, hcmd, -⟩ | ⟨-, hcmd, -⟩ <;> simp [hcmd]
      refine h.of_calls (deliverCommand_calls ..) (deliverCommand_apiMu ..) fun j hj =>
        incoming_of_run hj (fun m hm => .inl ?_) (fun m hm => ?_) (fun _ ht => ⟨?_, ?_⟩)
      · rwa [deliverCommand_pendingReply] at hm
      · rcases hpc with ⟨-, -, rfl⟩ | ⟨-, -, rfl⟩ <;> exact absurd hm List.not_mem_nil
      · rcases hpc with ⟨hrun, -, -⟩ | ⟨hrun, -, -⟩ <;> rw [hrun] <;> rfl
      · have ht' : .api j ∈ ((s.deliverCommand s.dialled cmd).wires
          (s.deliverCommand s.dialled cmd).dialled).tags := ht
        rw [deliverCommand_dialled] at ht'
        rcases deliverCommand_self s s.dialled cmd with ⟨hsame, -⟩ | ⟨-, hwire⟩
        · rwa [hsame] at ht'
        · rw [hwire, tags_snoc, List.mem_append] at ht'
          rcases ht' with ht' | ht'
          · exact ht'
          · exact absurd (List.mem_singleton.mp ht').symm (htag j)
  | setReady hrun =>
      refine h.of_calls rfl rfl fun j hj =>
        incoming_of_run hj (fun m hm => .inl hm) (fun m hm => absurd hm List.not_mem_nil)
          (fun _ ht => ⟨?_, ht⟩)
      rw [hrun]
      rfl
  | deliver m ch hrun hch =>
      refine h.of_calls rfl rfl fun j hj =>
        incoming_of_run hj (fun m' hm' => ?_) (fun m hm => absurd hm List.not_mem_nil)
          (fun _ ht => ⟨?_, ht⟩)
      · have hmem : m' ∈ ch.buf := hm'
        rw [hrun]
        rcases hch with hch | rfl
        · rw [hch] at hmem
          exact List.mem_append.mp hmem
        · exact .inl hmem
      · rw [hrun]
        rfl
  | called i cmd hpc =>
      exact h.setCall i (.locking cmd) rfl (fun _ _ _ => ⟨rfl, fun _ hk => hk⟩)
        (fun hp => absurd hp Bool.false_ne_true) (by simp) (by simp) (by simp)
  | locked i cmd hpc hmu =>
      refine h.setCall i (.readConn cmd) rfl (fun j _ hj => ?_) (fun _ => rfl) (by simp)
        (by simp) (by simp)
      exact absurd ((h.mutex j hj).symm.trans hmu) (by simp)
  | sawConn i cmd hpc =>
      have hold : (s.calls i).holdsMutex = true := by rw [hpc]; rfl
      exact h.setCall i (.loadReady cmd s.conn) rfl (h.alone hold) (fun _ => h.mutex i hold)
        (by simp) (by simp) (by simp)
  | sawReady i cmd c hpc hready =>
      have hold : (s.calls i).holdsMutex = true := by rw [hpc]; rfl
      exact h.setCall i (.draining cmd c) rfl (h.alone hold) (fun _ => h.mutex i hold)
        (by simp) (by simp) (by simp)
  | drained i cmd c ch hpc hch =>
      have hold : (s.calls i).holdsMutex = true := by rw [hpc]; rfl
      refine h.setCall i (.writing cmd c) rfl (h.alone hold) (fun _ => h.mutex i hold)
        (fun _ _ _ j hj => ?_) (by simp) (by simp)
      rcases List.mem_append.mp hj with hj | hj
      · have hslot : .api j ∈ ch.buf.map Sent.tag := hj
        rw [hch] at hslot
        exact absurd hslot List.not_mem_nil
      · exact absurd (hguard rfl _ hj).symm Bool.false_ne_true
  | wrote i cmd text c hpc =>
      have hold : (s.calls i).holdsMutex = true := by rw [hpc]; rfl
      refine h.setCall i (.waiting cmd) ?_ (h.alone hold) (fun _ => ?_) (by simp)
        (fun _ _ j hj => ?_) (by simp)
      · rw [State.setCall, deliverCommand_calls]
      · exact (deliverCommand_apiMu ..).trans (h.mutex i hold)
      · rcases incoming_deliverCommand (hj : .api j ∈ (s.deliverCommand c _).incoming) with hj | hj
        · exact absurd hj (h.writing i cmd c hpc j)
        · exact hj
  | wroteBadly i cmd text c hpc =>
      have hold : (s.calls i).holdsMutex = true := by rw [hpc]; rfl
      refine h.setCall i (.returned (.failed .write)) ?_ (h.alone hold)
        (fun hp => absurd hp Bool.false_ne_true) (by simp) (by simp) (by simp)
      rw [State.ret, State.setCall, deliverCommand_calls]
  | failed i err hpc =>
      exact h.setCall i (.returned (.failed err)) rfl (h.alone hpc)
        (fun hp => absurd hp Bool.false_ne_true) (by simp) (by simp) (by simp)
  | received i cmd m ch hpc hch =>
      have hold : (s.calls i).holdsMutex = true := by rw [hpc]; rfl
      refine h.setCall i (.returned (.received m)) rfl (h.alone hold)
        (fun hp => absurd hp Bool.false_ne_true) (by simp) (by simp) (fun m' hm' => ?_)
      obtain rfl : m = m' := by simpa using hm'
      -- the slot holds a reply to some call, and only this call's is to come
      have hslot : m ∈ s.pendingReply.buf := by
        rw [hch]
        exact List.mem_cons_self
      obtain ⟨j, hj⟩ := hlink.slot m hslot
      have hin : .api j ∈ s.incoming := by
        rw [mem_incoming]
        exact .inl (List.mem_map.mpr ⟨m, hslot, hj⟩)
      rw [hj, h.waiting i cmd hpc j hin]

-- ============================================================================
-- Runs
-- ============================================================================

/-- Reply correlation: in every state of a run in which every call drains
    `pendingReply` with no late reply to come, each result is the reply to the
    command of the call that returns it. -/
theorem correlated_of_noLateReply (cfg : Config) (schedule : List Act)
    (hguard : (machine cfg).Guarded NoLateReply initial schedule) :
    (machine cfg).Always Correlated initial schedule := by
  have hstep : ∀ s a s', LinkInv s ∧ CallInv s → NoLateReply s a →
      (machine cfg).step s a = some s' → LinkInv s' ∧ CallInv s' := by
    intro s a s' hinv hg hs
    have heff : Effect cfg s a s' := effect_of_step hinv.1.ready_served hs
    exact ⟨heff.linkInv hinv.1, heff.callInv hg hinv.1 hinv.2⟩
  have hall := Machine.always_of_guarded hstep hguard ⟨linkInv_initial, callInv_initial⟩
  exact hall.mono fun s h i m r hi _ => h.2.returned i m hi

def authRequest : EslMessage := ⟨[(ascii "Content-Type", ascii "auth/request")], []⟩

def okReply : EslMessage :=
  ⟨[(ascii "Content-Type", ascii "command/reply"), (ascii "Reply-Text", ascii "+OK accepted")], []⟩

def apiReply (body : Bytes) : EslMessage :=
  ⟨[(ascii "Content-Type", ascii "api/response")], body⟩

/-- A client without subscriptions. -/
def plain : Config := ⟨ascii "ClueCon", []⟩

/-- The client connects and authenticates. -/
def connect : List Act :=
  [.checkCtx, .dialOk authRequest, .install, .read, .writeCmd true, .answer 1 okReply, .read,
    .setReady]

/-- Call `i` up to the drain, and its write. -/
def enter (i : Nat) (cmd : Bytes) : List Act :=
  [.call i cmd, .lock i, .readConn i, .loadReady i, .drain i, .write i]

/-- FreeSWITCH answers the oldest command, and the read loop delivers. -/
def reply (body : Bytes) : List Act := [.answer 1 (apiReply body), .read, .deliver]

/-- The first call times out after its write; its reply comes into the slot before the
    second call drains it, and the second call gets its own. -/
theorem correlated_of_noLateReply_two :
    (machine plain).Always Correlated initial
      (connect ++ enter 0 (ascii "uuid_dump a") ++ [.stopWaiting 0 .replyTimeout]
        ++ reply (ascii "a") ++ enter 1 (ascii "uuid_kill b") ++ reply (ascii "+OK")
        ++ [.recv 1]) := by
  apply correlated_of_noLateReply
  decide

/-- The first call times out after its write; its reply arrives when the second
    call has drained the slot, and the second call returns it. -/
theorem late_reply_returned :
    ∃ s, (machine plain).run initial
        (connect ++ enter 0 (ascii "uuid_dump a") ++ [.stopWaiting 0 .replyTimeout]
          ++ enter 1 (ascii "uuid_kill b") ++ reply (ascii "a") ++ [.recv 1]) = some s ∧
      s.calls 1 = .returned (.received ⟨apiReply (ascii "a"), .api 0, fun h => nomatch h⟩) ∧
      ¬ Correlated s := by
  refine ⟨_, rfl, rfl, fun h => ?_⟩
  exact absurd (h 1 _ (ascii "a") rfl (by decide)) (by decide)

end FsBridge.Bridge.EslClient
