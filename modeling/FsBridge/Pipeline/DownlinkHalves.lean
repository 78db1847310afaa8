/-
  FsBridge.Pipeline.DownlinkHalves

  Why whole reads are needed: where the bytes of a turn can still go out and a read
  gives an odd number of them, the run can go on so that this chunk is the last thing
  the module gets, and with it half a sample.

  The schedule that shows it lets `writePump` drain the queue before each send, so that
  nothing is dropped; the loop of `respond` then goes through the chunks that are there,
  and behind the odd one the session is closed.
-/

import FsBridge.Pipeline.DownlinkSamples

namespace FsBridge.Pipeline.Downlink

open FsBridge.Lib FsBridge.Bridge

variable {cap : Nat} (stream : Nat → Bytes)

-- ============================================================================
-- Schedules without reads
-- ============================================================================

/-- The action reads nothing of a body. -/
def Act.reads : Act → Bool
  | .read _ _ => true
  | _ => false

/-- Some schedule without reads leads from `s` to `t`. -/
def Leads (stream : Nat → Bytes) (s t : State cap) : Prop :=
  ∃ bs : List Act, (∀ b ∈ bs, b.reads = false) ∧ (machine stream cap).run s bs = some t

theorem Leads.refl (s : State cap) : Leads stream s s :=
  ⟨[], fun _ h => absurd h List.not_mem_nil, rfl⟩

variable {stream} in
theorem Leads.single {s t : State cap} {a : Act} (ha : a.reads = false)
    (h : step stream s a = some t) : Leads stream s t := by
  refine ⟨[a], fun b hb => ?_, Machine.run_cons_of_step (M := machine stream cap) h []⟩
  obtain rfl := List.mem_singleton.mp hb
  exact ha

variable {stream} in
theorem Leads.trans {s t u : State cap} (h : Leads stream s t) (h' : Leads stream t u) :
    Leads stream s u := by
  obtain ⟨bs, hbs, hrun⟩ := h
  obtain ⟨cs, hcs, hrun'⟩ := h'
  refine ⟨bs ++ cs, fun b hb => ?_, (Machine.run_append hrun cs).trans hrun'⟩
  rcases List.mem_append.mp hb with hb | hb
  · exact hbs b hb
  · exact hcs b hb

section Session

variable {s : State cap} {a : Session.Act Sender} {x : Session.State Sender cap}

/-- A step of the session beside `enqueue`. -/
theorem step_session (ha : allowed a = true) (hbeside : enqueueOf a = none)
    (hx : Session.step s.session a = some x) :
    step stream s (.session a) = some { s with session := x } := by
  simp only [step, if_pos ha, hx, Option.map_some, hbeside]

/-- A step of `enqueue`. -/
theorem step_enqueue {i : Sender} (ha : allowed a = true) (hi : enqueueOf a = some i)
    (hx : Session.step s.session a = some x) :
    step stream s (.session a) = some ({ s with session := x }.settle i) := by
  simp only [step, if_pos ha, hx, Option.map_some, hi]

end Session

/-- `writePump` is at its `select`, and has drained the queue. -/
structure Drained (x : Session.State Sender cap) : Prop where
  isOpen : x.done = false
  pump : x.pump = .selecting
  queue : x.writeQueue.buf = []

/-- `writePump` can drain the queue of an open session. -/
theorem leads_drained {s : State cap} (hopen : s.session.done = false)
    (hpump : s.session.pump ≠ .returned) :
    ∃ t, Leads stream s t ∧ Drained t.session ∧ t.session.senders = s.session.senders ∧
      t.turns = s.turns := by
  -- from the `select` on, by the frames in the queue
  have hdrain : ∀ (l : List (Session.Call Sender)) (s : State cap), s.session.done = false →
      s.session.pump = .selecting → s.session.writeQueue.buf = l →
      ∃ t, Leads stream s t ∧ Drained t.session ∧ t.session.senders = s.session.senders ∧
        t.turns = s.turns := by
    intro l
    induction l with
    | nil => exact fun s hopen hpump hbuf => ⟨s, .refl stream s, ⟨hopen, hpump, hbuf⟩, rfl, rfl⟩
    | cons c l ih =>
        intro s hopen hpump hbuf
        obtain ⟨q, hq, hrest⟩ := Chan.exists_recv hbuf
        have hrecv : Session.step s.session .pumpRecv = some { s.session with
            writeQueue := q, pump := .writing c, left := s.session.left ++ [(c, .toConnWrite)] } := by
          simp only [Session.step, hpump, if_pos, hq]
        have hfirst := step_session stream rfl rfl hrecv
        obtain ⟨t, hlead, hall⟩ := ih { s with session := { s.session with
          writeQueue := q, pump := .selecting, left := s.session.left ++ [(c, .toConnWrite)] } }
          hopen rfl hrest
        refine ⟨t, ((Leads.single rfl hfirst).trans (Leads.single (a := .session (.pumpWrite true))
          rfl ?_)).trans hlead, hall⟩
        exact step_session stream rfl rfl rfl
  cases hp : s.session.pump with
  | selecting => exact hdrain _ s hopen hp rfl
  | writing c =>
      have hwrite : Session.step s.session (.pumpWrite true)
          = some { s.session with pump := .selecting } := by
        simp only [Session.step, hp, if_pos]
      obtain ⟨t, hlead, hall⟩ := hdrain _ { s with session := { s.session with pump := .selecting } }
        hopen rfl rfl
      exact ⟨t, (Leads.single rfl (step_session stream rfl rfl hwrite)).trans hlead, hall⟩
  | returned => exact absurd hp hpump

-- ============================================================================
-- A turn that goes on
-- ============================================================================

/-- What the turn has in hand and in `out` can still go out, and `writePump` runs. -/
structure Goes (s : State cap) (k : Nat) : Prop where
  isOpen : s.session.done = false
  pump : s.session.pump ≠ .returned
  live : (s.turns k).cancelled = false
  loops : (s.turns k).pc ≠ .finished
  sending : (s.session.senders (.turn k)).inside ≠ none ↔ (s.turns k).pc = .sending

/-- The frame of the call of `enqueue` that a turn is in. -/
def frameOf (x : Session.State Sender cap) (k : Nat) (req : Session.WriteRequest) :
    Session.Call Sender := ⟨.turn k, (x.senders (.turn k)).calls - 1, req⟩

/-- `enqueue` returns to the loop, with its frame in the queue. -/
structure Queued (s t : State cap) (k : Nat) (req : Session.WriteRequest) : Prop where
  isOpen : t.session.done = false
  pump : t.session.pump = .selecting
  queue : t.session.writeQueue.buf = [frameOf s.session k req]
  handed : t.session.handed = s.session.handed
  outside : (t.session.senders (.turn k)).inside = none
  turns : t.turns = Function.update s.turns k { s.turns k with pc := .nextChunk }

/-- The last step of `enqueue` in front of an empty queue. -/
theorem step_push {s : State cap} {k : Nat} {a : Session.Act Sender} {pc : Session.EnqueuePc}
    {req : Session.WriteRequest} (hcap : 1 ≤ cap) (hd : Drained s.session)
    (ha : a = .tryQueue (.turn k) ∧ pc = .tryQueue ∨ a = .lastSend (.turn k) ∧ pc = .lastAttempt)
    (hin : (s.session.senders (.turn k)).inside = some (pc, req)) :
    ∃ t, step stream s (.session a) = some t ∧ Queued s t k req := by
  have hcur : s.session.current (.turn k) = some (pc, frameOf s.session k req) :=
    Session.State.current_of_inside hin
  have hroom : s.session.writeQueue.buf.length < cap := by
    rw [hd.queue]
    exact hcap
  obtain ⟨q, hq, hbuf⟩ := Chan.exists_send hroom (frameOf s.session k req)
  rw [hd.queue, List.nil_append] at hbuf
  have hx : Session.step s.session a
      = some (Session.pushAndReturn s.session (.turn k) (frameOf s.session k req) q) := by
    rcases ha with ⟨rfl, rfl⟩ | ⟨rfl, rfl⟩
    · simp only [Session.step, hcur, hq]
    · simp only [Session.step, hcur, hq, Option.map_some]
  have hi : enqueueOf a = some (.turn k) ∧ allowed a = true := by
    rcases ha with ⟨rfl, -⟩ | ⟨rfl, -⟩ <;> exact ⟨rfl, rfl⟩
  have hout : ((Session.pushAndReturn s.session (.turn k) (frameOf s.session k req) q).senders
      (.turn k)).inside = none := by
    simp [Session.pushAndReturn, Session.State.ret, Session.State.goto]
  have hlast : (Session.pushAndReturn s.session (.turn k) (frameOf s.session k req) q).returned.getLast?
      = some (frameOf s.session k req, .ok ()) := by
    simp [Session.pushAndReturn, Session.State.ret]
  refine ⟨_, step_enqueue stream hi.2 hi.1 hx, ?_⟩
  have hsettle : ({ s with session :=
        Session.pushAndReturn s.session (.turn k) (frameOf s.session k req) q }.settle (.turn k))
      = { s with session := Session.pushAndReturn s.session (.turn k) (frameOf s.session k req) q
        }.goto k .nextChunk := by
    simp only [State.settle, hout, hlast]
  rw [hsettle]
  exact ⟨hd.isOpen, hd.pump, hbuf, rfl, hout, rfl⟩

/-- A step inside `enqueue`, on to the next `select`. -/
theorem leads_inside {s : State cap} {k : Nat} {a : Session.Act Sender}
    {pc' : Session.EnqueuePc} {req : Session.WriteRequest} (ha : enqueueOf a = some (.turn k))
    (hallowed : allowed a = true)
    (hx : Session.step s.session a = some (s.session.goto (.turn k) (some (pc', req)))) :
    Leads stream s { s with session := s.session.goto (.turn k) (some (pc', req)) } := by
  refine Leads.single (a := .session a) rfl ?_
  have hin : ((s.session.goto (.turn k) (some (pc', req))).senders (.turn k)).inside
      = some (pc', req) := by
    simp [Session.State.goto]
  rw [step_enqueue stream hallowed ha hx]
  simp only [State.settle, hin]

/-- In front of an empty queue `enqueue` returns to the loop. -/
theorem leads_queued {s : State cap} {k : Nat} {pc : Session.EnqueuePc}
    {req : Session.WriteRequest} (hcap : 1 ≤ cap) (hd : Drained s.session)
    (hin : (s.session.senders (.turn k)).inside = some (pc, req)) :
    ∃ t, Leads stream s t ∧ Queued s t k req := by
  have hcur : s.session.current (.turn k) = some (pc, frameOf s.session k req) :=
    Session.State.current_of_inside hin
  have hmoved : ∀ {pc' : Session.EnqueuePc} {a : Session.Act Sender},
      (a = .tryQueue (.turn k) ∧ pc' = .tryQueue ∨
        a = .lastSend (.turn k) ∧ pc' = .lastAttempt) →
      ∃ t, Leads stream { s with session := s.session.goto (.turn k) (some (pc', req)) } t ∧
        Queued s t k req := by
    intro pc' a ha
    have hin' : ((s.session.goto (.turn k) (some (pc', req))).senders (.turn k)).inside
        = some (pc', req) := by
      simp [Session.State.goto]
    obtain ⟨t, ht, hq⟩ := step_push stream
      (s := { s with session := s.session.goto (.turn k) (some (pc', req)) }) hcap
      ⟨hd.isOpen, hd.pump, hd.queue⟩ ha hin'
    refine ⟨t, Leads.single rfl ht, hq.isOpen, hq.pump, ?_, hq.handed, hq.outside, hq.turns⟩
    rw [hq.queue]
    simp [frameOf, Session.State.goto]
  cases pc with
  | checkDone =>
      have hx : Session.step s.session (.checkDone (.turn k))
          = some (s.session.goto (.turn k) (some (.tryQueue, req))) := by
        simp [Session.step, hcur, hd.isOpen, frameOf]
      obtain ⟨t, ht, hq⟩ := hmoved (.inl ⟨rfl, rfl⟩)
      exact ⟨t, (leads_inside stream rfl rfl hx).trans ht, hq⟩
  | tryQueue =>
      obtain ⟨t, ht, hq⟩ := step_push stream hcap hd (.inl ⟨rfl, rfl⟩) hin
      exact ⟨t, Leads.single rfl ht, hq⟩
  | dropOldest =>
      have hempty := Chan.tryRecv_eq_none.mpr hd.queue
      have hx : Session.step s.session (.dropOldest (.turn k))
          = some (s.session.goto (.turn k) (some (.lastAttempt, req))) := by
        simp [Session.step, hcur, hempty, frameOf]
      obtain ⟨t, ht, hq⟩ := hmoved (.inr ⟨rfl, rfl⟩)
      exact ⟨t, (leads_inside stream rfl rfl hx).trans ht, hq⟩
  | lastAttempt =>
      obtain ⟨t, ht, hq⟩ := step_push stream hcap hd (.inr ⟨rfl, rfl⟩) hin
      exact ⟨t, Leads.single rfl ht, hq⟩

/-- The loop is back at its `range`, with the same chunks in `out`. -/
structure Next (s t : State cap) (k : Nat) : Prop where
  goes : Goes t k
  pc : (t.turns k).pc = .nextChunk
  out : (t.turns k).out = (s.turns k).out
  read : (t.turns k).read = (s.turns k).read
  outClosed : (t.turns k).outClosed = (s.turns k).outClosed

theorem Queued.next {s t u : State cap} {k : Nat} {req : Session.WriteRequest}
    (h : Queued t u k req) (hout : (t.turns k).out = (s.turns k).out)
    (hread : (t.turns k).read = (s.turns k).read)
    (hclosed : (t.turns k).outClosed = (s.turns k).outClosed)
    (hlive : (t.turns k).cancelled = false) : Next s u k := by
  have hturn : u.turns k = { t.turns k with pc := .nextChunk } := by
    rw [h.turns, Function.update_self]
  refine ⟨⟨h.isOpen, by simp [h.pump], ?_, ?_, ?_⟩, ?_, ?_, ?_, ?_⟩
  · rw [hturn]
    exact hlive
  · rw [hturn]
    exact fun hno => nomatch hno
  · rw [hturn, h.outside]
    exact ⟨fun hno => absurd rfl hno, fun hno => nomatch hno⟩
  · rw [hturn]
  · rw [hturn]
    exact hout
  · rw [hturn]
    exact hread
  · rw [hturn]
    exact hclosed

/-- A loop inside `SendAudio` gets out of it. -/
theorem next_of_sending {s : State cap} {k : Nat} (hcap : 1 ≤ cap) (h : Goes s k)
    (hpc : (s.turns k).pc = .sending) : ∃ t, Leads stream s t ∧ Next s t k := by
  obtain ⟨u, hu, hdrained, hsenders, hturns⟩ := leads_drained stream h.isOpen h.pump
  obtain ⟨⟨pc, req⟩, hin⟩ := Option.ne_none_iff_exists'.mp (h.sending.mpr hpc)
  obtain ⟨t, ht, hq⟩ := leads_queued stream hcap hdrained
    (show _ = some (pc, req) by rw [hsenders]; exact hin)
  exact ⟨t, hu.trans ht, hq.next (by rw [hturns]) (by rw [hturns]) (by rw [hturns])
    (by rw [hturns]; exact h.live)⟩

/-- The call of `SendAudio` with a chunk. -/
theorem step_sendAudio {s : State cap} {k : Nat} {chunk : Bytes} (h : Goes s k)
    (hpc : (s.turns k).pc = .sendAudio chunk) (hchunk : chunk ≠ []) :
    ∃ t, step stream s (.sendAudio k) = some t ∧ Goes t k ∧
      t.turns = Function.update s.turns k { s.turns k with pc := .sending } ∧
      (t.session.senders (.turn k)).inside = some (.checkDone, ⟨.messageBinary, chunk⟩) ∧
      t.session.handed = s.session.handed ∧ t.session.writeQueue = s.session.writeQueue ∧
      t.session.pump = s.session.pump := by
  have hout : (s.session.senders (.turn k)).inside = none := by
    by_contra hin
    exact nomatch (h.sending.mp hin).symm.trans hpc
  have hreq : Session.sendAudio chunk = some ⟨.messageBinary, chunk⟩ := if_neg hchunk
  obtain ⟨x, hx, hsenders, hsame⟩ : ∃ x : Session.State Sender cap,
      Session.step s.session (.call (.turn k) ⟨.messageBinary, chunk⟩) = some x ∧
        (x.senders (.turn k)).inside = some (.checkDone, ⟨.messageBinary, chunk⟩) ∧
        x.done = s.session.done ∧ x.pump = s.session.pump ∧ x.handed = s.session.handed ∧
        x.writeQueue = s.session.writeQueue := by
    simp only [Session.step, hout]
    exact ⟨_, rfl, by simp, rfl, rfl, rfl, rfl⟩
  have hstep : step stream s (.sendAudio k) = some { s.goto k .sending with
      session := x
      starts := Function.update s.starts k
        (s.starts k ++ [(s.turns k).taken - chunk.length]) } := by
    simp only [step, hpc, hreq, hx, Option.map_some]
  refine ⟨_, hstep, ⟨hsame.1.trans h.isOpen, ?_, ?_, ?_, ?_⟩, rfl, hsenders, hsame.2.2.1,
    hsame.2.2.2, hsame.2.1⟩
  · show x.pump ≠ _
    rw [hsame.2.1]
    exact h.pump
  · simp [State.goto, State.setTurn, h.live]
  · simp [State.goto, State.setTurn]
  · simp [State.goto, State.setTurn, hsenders]

/-- A loop that goes on beside `SendAudio`. -/
theorem Goes.setTurn {s : State cap} {k : Nat} {t : Turn} (h : Goes s k)
    (hout : (s.turns k).pc ≠ .sending) (hlive : t.cancelled = false) (hloops : t.pc ≠ .finished)
    (hpc : t.pc ≠ .sending) : Goes (s.setTurn k t) k := by
  have hturn : (s.setTurn k t).turns k = t := by
    show Function.update s.turns k t k = t
    rw [Function.update_self]
  refine ⟨h.isOpen, h.pump, ?_, ?_, ?_⟩
  · rw [hturn]
    exact hlive
  · rw [hturn]
    exact hloops
  · rw [hturn]
    exact ⟨fun hin => absurd (h.sending.mp hin) hout, fun hno => absurd hno hpc⟩

/-- The check of a live context lets the chunk pass. -/
theorem step_checkCtx {s : State cap} {k : Nat} {chunk : Bytes} (h : Goes s k)
    (hpc : (s.turns k).pc = .checkCtx chunk) :
    step stream s (.checkCtx k) = some (s.goto k (.sendAudio chunk)) ∧
      Goes (s.goto k (.sendAudio chunk)) k ∧
      (s.goto k (.sendAudio chunk)).turns k = { s.turns k with pc := .sendAudio chunk } := by
  refine ⟨?_, h.setTurn (by simp [hpc]) h.live (by simp) (by simp), ?_⟩
  · simp only [step, hpc, h.live]
    rfl
  · simp [State.goto, State.setTurn]

/-- The loop of a turn that goes on gets back to its `range`. -/
theorem leads_next {s : State cap} {k : Nat} (hcap : 1 ≤ cap) (h : Goes s k) :
    ∃ t, Leads stream s t ∧ Next s t k := by
  have hsend : ∀ {s : State cap} {chunk : Bytes}, Goes s k → (s.turns k).pc = .sendAudio chunk →
      ∃ t, Leads stream s t ∧ Next s t k := by
    intro s chunk h hpc
    by_cases hchunk : chunk = []
    · subst hchunk
      have hstep : step stream s (.sendAudio k) = some (s.goto k .nextChunk) := by
        simp only [step, hpc, Session.sendAudio, if_pos]
      have hturn : (s.goto k .nextChunk).turns k = { s.turns k with pc := .nextChunk } := by
        simp [State.goto, State.setTurn]
      refine ⟨_, Leads.single rfl hstep, h.setTurn (by simp [hpc]) h.live (by simp) (by simp),
        ?_, ?_, ?_, ?_⟩
      · rw [hturn]
      · rw [hturn]
      · rw [hturn]
      · rw [hturn]
    · obtain ⟨u, hu, hgoes, hturns, -⟩ := step_sendAudio stream h hpc hchunk
      have hturn : u.turns k = { s.turns k with pc := .sending } := by
        rw [hturns, Function.update_self]
      obtain ⟨t, ht, hnext⟩ := next_of_sending stream hcap hgoes (by rw [hturn])
      refine ⟨t, (Leads.single rfl hu).trans ht, hnext.goes, hnext.pc, ?_, ?_, ?_⟩
      · rw [hnext.out, hturn]
      · rw [hnext.read, hturn]
      · rw [hnext.outClosed, hturn]
  cases hpc : (s.turns k).pc with
  | nextChunk => exact ⟨s, .refl stream s, h, hpc, rfl, rfl, rfl⟩
  | checkCtx chunk =>
      obtain ⟨hstep, hgoes, hturn⟩ := step_checkCtx stream h hpc
      obtain ⟨t, ht, hnext⟩ := hsend hgoes (by rw [hturn])
      refine ⟨t, (Leads.single rfl hstep).trans ht, hnext.goes, hnext.pc, ?_, ?_, ?_⟩
      · rw [hnext.out, hturn]
      · rw [hnext.read, hturn]
      · rw [hnext.outClosed, hturn]
  | sendAudio chunk => exact hsend h hpc
  | sending => exact next_of_sending stream hcap h hpc
  | finished => exact absurd hpc h.loops

/-- The step that takes a chunk out of `out`. -/
theorem step_recv {s : State cap} {k : Nat} {chunk : Bytes} {rest : List Bytes} (h : Goes s k)
    (hpc : (s.turns k).pc = .nextChunk) (hout : (s.turns k).out.buf = chunk :: rest) :
    ∃ t, step stream s (.recv k) = some t ∧ Goes t k ∧ (t.turns k).pc = .checkCtx chunk ∧
      (t.turns k).out.buf = rest ∧ (t.turns k).read = (s.turns k).read ∧
      (t.turns k).outClosed = (s.turns k).outClosed ∧ t.session = s.session := by
  obtain ⟨out, hrecv, hrest⟩ := Chan.exists_recv hout
  have hstep : step stream s (.recv k) = some (s.setTurn k { s.turns k with
      out := out, pc := .checkCtx chunk, taken := (s.turns k).taken + chunk.length }) := by
    simp only [step, hpc, hrecv]
  refine ⟨_, hstep, h.setTurn (by simp [hpc]) h.live (by simp) (by simp), ?_, ?_, ?_, ?_, rfl⟩
  · simp [State.setTurn]
  · simp [State.setTurn, hrest]
  · simp [State.setTurn]
  · simp [State.setTurn]

/-- The loop gets through the chunks that are there. -/
theorem leads_empty {s : State cap} {k : Nat} (hcap : 1 ≤ cap) (h : Goes s k) :
    ∃ t, Leads stream s t ∧ Goes t k ∧ (t.turns k).pc = .nextChunk ∧ (t.turns k).out.buf = [] ∧
      (t.turns k).read = (s.turns k).read ∧ (t.turns k).outClosed = (s.turns k).outClosed := by
  generalize hbuf : (s.turns k).out.buf = l
  induction l generalizing s with
  | nil =>
      obtain ⟨t, ht, hnext⟩ := leads_next stream hcap h
      exact ⟨t, ht, hnext.goes, hnext.pc, by rw [hnext.out, hbuf], hnext.read, hnext.outClosed⟩
  | cons chunk rest ih =>
      obtain ⟨u, hu, hnext⟩ := leads_next stream hcap h
      obtain ⟨v, hv, hgoes, -, hrest, hread, hclosed, -⟩ := step_recv stream hnext.goes hnext.pc
        (by rw [hnext.out, hbuf])
      obtain ⟨t, ht, hgoes', hpc, hempty, hread', hclosed'⟩ := ih hgoes hrest
      exact ⟨t, (hu.trans (Leads.single rfl hv)).trans ht, hgoes', hpc, hempty,
        hread'.trans (hread.trans hnext.read), hclosed'.trans (hclosed.trans hnext.outClosed)⟩

-- ============================================================================
-- A turn in `SendAudio` is in a call
-- ============================================================================

section InCall

variable {stream}

/-- What a step of the session leaves of a turn that is in a call. -/
theorem inside_or_returned {x x' : Session.State Sender cap} {a : Session.Act Sender}
    (heff : Session.Effect x a x') {j : Sender} (h : (x.senders j).inside ≠ none) :
    (x'.senders j).inside ≠ none ∨ enqueueOf a = some j ∧ x'.returned ≠ [] := by
  have hgoto : ∀ {i next}, ((x.goto i (some next)).senders j).inside ≠ none := by
    intro i next
    rw [inside_goto]
    split
    · exact fun hno => nomatch hno
    · exact h
  have hret : ∀ {i}, enqueueOf a = some i →
      ((x.goto i none).senders j).inside ≠ none ∨ enqueueOf a = some j := by
    intro i ha
    rw [inside_goto]
    split
    · rename_i hji
      exact .inr (hji ▸ ha)
    · exact .inl h
  cases heff with
  | call i req hidle =>
      refine .inl ?_
      dsimp only
      by_cases hji : j = i
      · rw [hji, Function.update_self]
        exact fun hno => nomatch hno
      · rw [Function.update_of_ne hji]
        exact h
  | isOpen i c hcur hopen => exact .inl hgoto
  | full i c hcur hfull => exact .inl hgoto
  | drained i c hcur hempty => exact .inl hgoto
  | evict i c old q hcur hq => exact .inl hgoto
  | push i pc c q ha hcur hlt hq =>
      have hi : enqueueOf a = some i := by
        rcases ha with ⟨rfl, -⟩ | ⟨rfl, -⟩ <;> rfl
      exact (hret hi).imp id fun hj => ⟨hj, by simp [Session.pushAndReturn, Session.State.ret]⟩
  | closed i pc c ha hcur hdone =>
      have hi : enqueueOf a = some i := by
        rcases ha with ⟨rfl, -⟩ | ⟨rfl, -⟩ <;> rfl
      exact (hret hi).imp id fun hj => ⟨hj, by simp [Session.State.ret]⟩
  | hand c q hq => exact .inl h
  | other pump done hdone ha => exact .inl h

/-- A loop inside `SendAudio` has its frame in `enqueue`. -/
def InCall (s : State cap) : Prop :=
  ∀ k, (s.turns k).pc = .sending → (s.session.senders (.turn k)).inside ≠ none

variable {s s' : State cap}

/-- The loop is elsewhere, or where it was. -/
theorem InCall.setTurn (h : InCall s) {k : Nat} {t : Turn}
    (ht : t.pc = .sending → (s.turns k).pc = .sending) : InCall (s.setTurn k t) := by
  intro j hj
  have hj' : (Function.update s.turns k t j).pc = .sending := hj
  by_cases hjk : j = k
  · subst hjk
    rw [Function.update_self] at hj'
    exact h j (ht hj')
  · rw [Function.update_of_ne hjk] at hj'
    exact h j hj'

theorem InCall.session (h : InCall s) {a : Session.Act Sender} {x : Session.State Sender cap}
    (hx : Session.step s.session a = some x) (hbeside : enqueueOf a = none) :
    InCall { s with session := x } := fun k hk =>
  (inside_or_returned (Session.effect_of_step hx) (h k hk)).resolve_right fun hno =>
    nomatch hbeside.symm.trans hno.1

/-- The turn goes into `SendAudio` by a call of `enqueue`. -/
theorem InCall.send (h : InCall s) {k : Nat} {req : Session.WriteRequest}
    {x : Session.State Sender cap} {starts : Nat → List Nat}
    (hx : Session.step s.session (.call (.turn k) req) = some x) :
    InCall { s.goto k .sending with session := x, starts := starts } := by
  intro j hj
  by_cases hjk : j = k
  · subst hjk
    simp only [Session.step] at hx
    split at hx
    · cases hx
    · cases hx
      simp
  · have hj' : (Function.update s.turns k { s.turns k with pc := .sending } j).pc = .sending := hj
    rw [Function.update_of_ne hjk] at hj'
    exact (inside_or_returned (Session.effect_of_step hx) (h j hj')).resolve_right fun hno => by
      cases hno.1

/-- `enqueue` may have returned: then its sender leaves `SendAudio`. -/
theorem InCall.settle (h : InCall s) {a : Session.Act Sender} {x : Session.State Sender cap}
    {i : Sender} (hx : Session.step s.session a = some x) (hi : enqueueOf a = some i) :
    InCall ({ s with session := x }.settle i) := by
  have heff := Session.effect_of_step hx
  have hsame : ∀ k, i ≠ .turn k → (s.turns k).pc = .sending →
      (x.senders (.turn k)).inside ≠ none := fun k hik hk =>
    (inside_or_returned heff (h k hk)).resolve_right fun hno =>
      hik (Option.some.inj (hi.symm.trans hno.1))
  intro k hk
  rw [(settle_session _ i).1]
  cases i with
  | control n => exact hsame k (fun hno => nomatch hno) hk
  | turn j =>
      unfold State.settle at hk
      by_cases hjk : j = k
      · subst hjk
        rcases inside_or_returned heff (inside_of_enqueue heff hi) with hin | ⟨-, hret⟩
        · exact hin
        · intro hin
          obtain ⟨⟨c, result⟩, hlast⟩ :=
            Option.ne_none_iff_exists'.mp (mt List.getLast?_eq_none_iff.mp hret)
          dsimp only at hk
          rw [hin, hlast] at hk
          cases result with
          | ok u => simp [State.goto, State.setTurn] at hk
          | error e => simp [State.goto, State.setTurn] at hk
      · refine hsame k (fun hno => hjk (Sender.turn.inj hno)) ?_
        dsimp only at hk
        split at hk
        · simpa [State.goto, State.setTurn, Function.update_of_ne (Ne.symm hjk)] using hk
        · simpa [State.goto, State.setTurn, Function.update_of_ne (Ne.symm hjk)] using hk
        · exact hk

theorem InCall.step {a : Act} (h : InCall s) (hstep : step stream s a = some s') : InCall s' := by
  cases a with
  | cancel k =>
      obtain rfl := Option.some.inj hstep
      exact h.setTurn id
  | read k n =>
      obtain ⟨-, hstep⟩ := Option.ite_none_right_eq_some.mp hstep
      obtain ⟨out, -, rfl⟩ := Option.map_eq_some_iff.mp hstep
      exact h.setTurn id
  | readCancelled k =>
      obtain ⟨-, rfl⟩ := Machine.of_guard hstep
      exact h.setTurn id
  | readEnds k =>
      obtain ⟨-, rfl⟩ := Machine.of_guard hstep
      exact h.setTurn id
  | recv k =>
      simp only [Downlink.step] at hstep
      split at hstep
      · obtain rfl := Option.some.inj hstep
        exact h.setTurn fun hno => by cases hno
      · cases hstep
  | chunksDone k =>
      obtain ⟨-, rfl⟩ := Machine.of_guard hstep
      exact h.setTurn fun hno => by cases hno
  | checkCtx k =>
      simp only [Downlink.step] at hstep
      split at hstep
      · obtain rfl := Option.some.inj hstep
        refine h.setTurn fun hno => ?_
        dsimp only at hno
        split at hno <;> cases hno
      · cases hstep
  | sendAudio k =>
      simp only [Downlink.step] at hstep
      split at hstep
      · rename_i chunk hpc
        split at hstep
        · obtain rfl := Option.some.inj hstep
          exact h.setTurn fun hno => by cases hno
        · rename_i req hreq
          obtain ⟨x, hx, rfl⟩ := Option.map_eq_some_iff.mp hstep
          exact h.send hx
      · cases hstep
  | session a =>
      simp only [Downlink.step] at hstep
      split at hstep
      · obtain ⟨x, hx, rfl⟩ := Option.map_eq_some_iff.mp hstep
        split
        · rename_i i hi
          exact h.settle hx hi
        · rename_i hbeside
          exact h.session hx hbeside
      · cases hstep

/-- The session takes a step of its own, or none. -/
theorem session_of_step {a : Act} (h : step stream s a = some s') :
    s'.session = s.session ∨ ∃ b, Session.step s.session b = some s'.session := by
  cases a with
  | cancel k =>
      obtain rfl := Option.some.inj h
      exact .inl rfl
  | read k n =>
      obtain ⟨-, h⟩ := Option.ite_none_right_eq_some.mp h
      obtain ⟨out, -, rfl⟩ := Option.map_eq_some_iff.mp h
      exact .inl rfl
  | readCancelled k | readEnds k | chunksDone k =>
      obtain ⟨-, rfl⟩ := Machine.of_guard h
      exact .inl rfl
  | recv k =>
      simp only [Downlink.step] at h
      split at h
      · obtain rfl := Option.some.inj h
        exact .inl rfl
      · cases h
  | checkCtx k =>
      simp only [Downlink.step] at h
      split at h
      · obtain rfl := Option.some.inj h
        exact .inl rfl
      · cases h
  | sendAudio k =>
      simp only [Downlink.step] at h
      split at h
      · split at h
        · obtain rfl := Option.some.inj h
          exact .inl rfl
        · obtain ⟨x, hx, rfl⟩ := Option.map_eq_some_iff.mp h
          exact .inr ⟨_, hx⟩
      · cases h
  | session b =>
      simp only [Downlink.step] at h
      split at h
      · obtain ⟨x, hx, rfl⟩ := Option.map_eq_some_iff.mp h
        refine .inr ⟨b, ?_⟩
        split
        · rw [(settle_session _ _).1]
          exact hx
        · exact hx
      · cases h

end InCall

-- ============================================================================
-- The half sample
-- ============================================================================

section Half

variable {stream}

/-- What holds as long as the reads are whole. -/
structure Ready (stream : Nat → Bytes) (s : State cap) : Prop where
  inv : Inv stream s
  even : Even s
  inCall : InCall s
  pump : s.session.pump = .returned → s.session.done = true

theorem ready_initial (cap : Nat) : Ready stream (initial cap) :=
  ⟨inv_initial stream cap, even_initial cap, (fun _ h => nomatch h), fun h => nomatch h⟩

variable {s t : State cap}

theorem Ready.step {a : Act} (h : Ready stream s) (hwhole : WholeReads s a)
    (hstep : step stream s a = some t) : Ready stream t := by
  refine ⟨inv_step h.inv hstep, h.even.step h.inv hwhole hstep, h.inCall.step hstep, ?_⟩
  rcases session_of_step hstep with hsame | ⟨b, hb⟩
  · rw [hsame]
    exact h.pump
  · exact Session.pumpReturned_step hb h.pump

/-- A schedule without reads keeps what whole reads keep. -/
theorem Ready.leads (h : Ready stream s) (hlead : Leads stream s t) : Ready stream t := by
  obtain ⟨bs, hbs, hrun⟩ := hlead
  refine Machine.run_invariant_of_forall (M := machine stream cap) (I := Ready stream)
    (G := fun b => b.reads = false) (fun s a s' h ha hstep => h.step ?_ hstep) hbs hrun h
  cases a with
  | read k n => exact nomatch ha
  | _ => trivial

theorem Ready.goes (h : Ready stream s) {k : Nat} (hfeeds : s.Feeds k) : Goes s k :=
  ⟨hfeeds.isOpen, (fun hpump => nomatch (h.pump hpump).symm.trans hfeeds.isOpen), hfeeds.live,
    hfeeds.loops, h.even.sending k, h.inCall k⟩

/-- The delivered bytes, without their places. -/
def State.bytes (s : State cap) : Bytes := s.delivered.flatMap fun c => c.req.data

theorem length_places (h : Inv stream s) : s.places.length = s.bytes.length := by
  have hsource := congrArg List.length h.source
  rw [List.length_map, List.length_map] at hsource
  exact hsource.symm

/-- A read of the turn, and the way of its chunk up to the queue. -/
theorem leads_frame {k n : Nat} {s' : State cap} (hcap : 1 ≤ cap) (h : Goes s k)
    (hdrained : Drained s.session) (hpc : (s.turns k).pc = .nextChunk)
    (hout : (s.turns k).out.buf = []) (hn : 0 < n)
    (hread : Downlink.step stream s (.read k n) = some s') :
    ∃ t c, Leads stream s' t ∧ t.session.pump = .selecting ∧
      t.session.writeQueue.buf = [c] ∧ t.session.handed = s.session.handed ∧
      c.req.mt = .messageBinary ∧ c.req.data.length = n := by
  obtain ⟨⟨-, -, -, hfits⟩, hread⟩ := Option.ite_none_right_eq_some.mp hread
  obtain ⟨out, hsend, rfl⟩ := Option.map_eq_some_iff.mp hread
  have hbuf := (Chan.trySend_eq_some.mp hsend).2
  rw [hout, List.nil_append] at hbuf
  generalize hchunk : ((stream k).drop (s.turns k).read).take n = chunk at hbuf
  have hlen : chunk.length = n := by
    rw [← hchunk, List.length_take, List.length_drop]
    omega
  have hne : chunk ≠ [] := List.length_pos_iff.mp (hlen ▸ hn)
  have hread : Goes (s.setTurn k { s.turns k with read := (s.turns k).read + n, out := out }) k :=
    h.setTurn (by simp [hpc]) h.live h.loops (by simp [hpc])
  obtain ⟨u, hu, hgoes, hcheck, -, -, -, hsession⟩ := step_recv stream hread
    (by simp [State.setTurn, hpc]) (show _ = chunk :: [] by simp [State.setTurn, hbuf])
  obtain ⟨hchecked, hgoes, hturn⟩ := step_checkCtx stream hgoes hcheck
  obtain ⟨v, hv, hgoes, -, hin, hhanded, hqueue, hpump⟩ :=
    step_sendAudio stream hgoes (by rw [hturn]) hne
  have hdrained' : Drained v.session := by
    refine ⟨hgoes.isOpen, ?_, ?_⟩
    · exact hpump.trans ((congrArg Session.State.pump hsession).trans hdrained.pump)
    · rw [hqueue]
      exact (congrArg (fun x => x.writeQueue.buf) hsession).trans hdrained.queue
  obtain ⟨t, ht, hqueued⟩ := leads_queued stream hcap hdrained' hin
  refine ⟨t, _, (((Leads.single rfl hu).trans (Leads.single rfl hchecked)).trans
    (Leads.single rfl hv)).trans ht, hqueued.pump, hqueued.queue, ?_, rfl, hlen⟩
  rw [hqueued.handed, hhanded]
  exact congrArg Session.State.handed hsession

/-- The frame goes out, and the session is closed behind it. -/
theorem leads_end {c : Session.Call Sender} (hpump : s.session.pump = .selecting)
    (hqueue : s.session.writeQueue.buf = [c]) :
    ∃ t, Leads stream s t ∧ t.session.pump = .returned ∧
      t.session.handed = s.session.handed ++ [c] := by
  obtain ⟨q, hq, -⟩ := Chan.exists_recv hqueue
  have hrecv : Session.step s.session .pumpRecv = some { s.session with
      writeQueue := q, pump := .writing c, left := s.session.left ++ [(c, .toConnWrite)] } := by
    simp only [Session.step, hpump, if_pos, hq]
  refine ⟨_, ((Leads.single rfl (step_session stream rfl rfl hrecv)).trans
    (Leads.single (a := .session (.pumpWrite true)) rfl (step_session stream rfl rfl rfl))).trans
    ((Leads.single (a := .session .close) rfl (step_session stream rfl rfl rfl)).trans
    (Leads.single (a := .session .pumpDone) rfl (step_session stream rfl rfl rfl))), rfl, ?_⟩
  simp [Session.State.handed, Session.Exit.evictor]

/-- **An odd read can leave a half sample.**  Any run with whole reads so far, any queue
    with room for a frame: if the next read gives an odd number of bytes of a turn whose
    bytes can still go out, then without any other read the run can end with a half sample
    at the module. -/
theorem halfSample_of_oddRead (hcap : 1 ≤ cap) {as : List Act} {k n : Nat}
    (hreads : (machine stream cap).Guarded WholeReads (initial cap) as)
    (hrun : (machine stream cap).run (initial cap) as = some s)
    (hread : (Downlink.step stream s (.read k n)).isSome) (hfeeds : s.Feeds k)
    (hodd : n % 2 = 1) :
    ∃ bs cs, ∃ t : State cap, (∀ b ∈ bs ++ cs, b.reads = false) ∧
      (machine stream cap).run s (bs ++ .read k n :: cs) = some t ∧
      t.session.pump = .returned ∧ ¬ SampleAligned stream t := by
  have hready : Ready stream s := Machine.guarded_induction
    (J := fun _ => Ready stream) (ready_initial cap)
    (fun as a s s' _ h hwhole hstep => h.step hwhole hstep) hreads hrun
  obtain ⟨u, hu, hgoes, hpc, hout, hsame, hclosed⟩ := leads_empty stream hcap (hready.goes hfeeds)
  obtain ⟨v, hv, hdrained, hsenders, hturns⟩ := leads_drained stream hgoes.isOpen hgoes.pump
  have hgoes : Goes v k := by
    refine ⟨hdrained.isOpen, by simp [hdrained.pump], ?_, ?_, ?_⟩
    · rw [hturns]
      exact hgoes.live
    · rw [hturns]
      exact hgoes.loops
    · rw [hturns, hsenders]
      exact hgoes.sending
  have hlead := hu.trans hv
  rw [← hturns] at hpc hout hsame hclosed
  obtain ⟨w, hw⟩ : ∃ w, Downlink.step stream v (.read k n) = some w := by
    obtain ⟨w, hw⟩ := Option.isSome_iff_exists.mp hread
    obtain ⟨hguard, -⟩ := Option.ite_none_right_eq_some.mp hw
    have hroom : (v.turns k).out.buf.length < 64 := by
      rw [hout]
      decide
    obtain ⟨q, hq, -⟩ := Chan.exists_send hroom (((stream k).drop (v.turns k).read).take n)
    rw [← hclosed, ← hsame] at hguard
    exact ⟨_, by simp only [Downlink.step, if_pos hguard, hq, Option.map_some]; rfl⟩
  obtain ⟨x, c, hx, hpump, hqueue, hhanded, hbinary, hlen⟩ :=
    leads_frame hcap hgoes hdrained hpc hout (by omega) hw
  obtain ⟨t, ht, hreturned, hlast⟩ := leads_end hpump hqueue
  have hfirst : (machine stream cap).step v (.read k n) = some w := hw
  obtain ⟨bs, hbs, hbefore⟩ := hlead
  obtain ⟨cs, hcs, hbehind⟩ := hx.trans ht
  refine ⟨bs, cs, t, fun b hb => ?_, ?_, hreturned, fun haligned => ?_⟩
  · rcases List.mem_append.mp hb with hb | hb
    · exact hbs b hb
    · exact hcs b hb
  · exact (Machine.run_append hbefore _).trans
      ((Machine.run_cons_of_step hfirst cs).trans hbehind)
  · -- the bytes of `v` are whole samples, and the frame behind them is odd
    have hwhole := hready.leads ⟨bs, hbs, hbefore⟩
    have hevens := (hwhole.even.aligned hwhole.inv).length_even
    have hinv : Inv stream t := Machine.run_invariant (M := machine stream cap)
      (I := Inv stream) (fun _ _ _ h hstep => inv_step h hstep) hbehind (inv_step hwhole.inv hw)
    have hmore : t.bytes = v.bytes ++ c.req.data := by
      rw [State.bytes, State.delivered, hlast, hhanded]
      simp [State.bytes, State.delivered, hbinary]
    have heven := haligned.aligned.length_even
    rw [length_places hinv, hmore, List.length_append] at heven
    rw [length_places hwhole.inv] at hevens
    omega

end Half

end FsBridge.Pipeline.Downlink
