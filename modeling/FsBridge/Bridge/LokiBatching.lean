/-
  FsBridge.Bridge.LokiBatching

  The batcher of the Loki shipper (bridge/loki.go): `Send`, `Close` and the goroutine of
  `run`, which collects queued entries into a batch and pushes it.

  An action is one atomic step: a Send or a Close of any goroutine, or the next step of
  the batcher, which at its outer select takes any case that is ready.  A push is two
  steps, the request and its outcome, so that Sends fall in between.  The streams of a
  request stand in the order in which Go happens to range over the map of levels.
-/

import Mathlib.Data.List.AList
import FsBridge.Lib.Chan
import FsBridge.Lib.Decimal
import FsBridge.Lib.Machine
import FsBridge.Lib.Slice

namespace FsBridge.Bridge.Loki

open FsBridge.Lib

-- ============================================================================
-- The client
-- ============================================================================

/-- The fields of `LokiConfig` that `NewLokiClient` checks and the batcher uses. -/
structure LokiConfig where
  url : Bytes
  job : Bytes
  host : Bytes
  batchSize : Int
  queueSize : Int

/-- `LokiClient`: its config after the defaults. -/
structure LokiClient where
  job : Bytes
  host : Bytes
  batchSize : Nat
  queueSize : Nat
  batchSize_pos : 0 < batchSize
  queueSize_pos : 0 < queueSize

/-- `NewLokiClient`; `hostname` is what `os.Hostname` returns, if it succeeds. -/
def newLokiClient (cfg : LokiConfig) (hostname : Option Bytes) : Option LokiClient :=
  if cfg.url = [] then none
  else
    some {
      job := if cfg.job = [] then ascii "fsbridge" else cfg.job
      host := if cfg.host = [] then hostname.getD [] else cfg.host
      batchSize := if cfg.batchSize ≤ 0 then 100 else cfg.batchSize.toNat
      queueSize := if cfg.queueSize ≤ 0 then 10000 else cfg.queueSize.toNat
      batchSize_pos := by split <;> omega
      queueSize_pos := by split <;> omega }

/-- `lokiEntry`; the time is in nanoseconds. -/
structure LokiEntry where
  ts : Int
  level : Bytes
  line : Bytes
deriving DecidableEq, Repr

/-- A value of a stream: the time in digits, and the line. -/
abbrev StreamValue := Bytes × Bytes

def LokiEntry.value (e : LokiEntry) : StreamValue := (Decimal.print e.ts, e.line)

/-- A stream of a push: its labels and its values. -/
structure Stream where
  job : Bytes
  host : Bytes
  level : Bytes
  values : List StreamValue
deriving DecidableEq, Repr

/-- `by` of `push`: the values of each level. -/
def groupByLevel (entries : List LokiEntry) : AList fun _ : Bytes => List StreamValue :=
  entries.foldl (fun m e => m.insert e.level ((m.lookup e.level).getD [] ++ [e.value])) ∅

/-- The streams of `push`, in some order. -/
def LokiClient.streams (c : LokiClient) (entries : List LokiEntry) : List Stream :=
  (groupByLevel entries).entries.map fun p => ⟨c.job, c.host, p.1, p.2⟩

-- ============================================================================
-- The batcher
-- ============================================================================

/-- Where the batcher is: at the outer select, behind the append of a received entry, in
    the drain loop, in `flush`, waiting for a push, and gone.  The flag of a flush says
    that it is the last. -/
inductive Pc where
  | select
  | appended
  | drain
  | flush (last : Bool)
  | pushing (last : Bool)
  | returned
deriving DecidableEq, Repr

/-- A call of `push`: the batch, its streams, and whether `stop` was closed then. -/
structure Push where
  entries : List LokiEntry
  streams : List Stream
  stopped : Bool
deriving DecidableEq, Repr

structure State (c : LokiClient) where
  queue : Chan LokiEntry c.queueSize
  batch : Slice LokiEntry
  pc : Pc
  stopped : Bool
  pushes : List Push
  /-- The entries the queue has taken, in order. -/
  accepted : List LokiEntry
  /-- Those it had taken when the drain loop found it empty. -/
  drained : Option (List LokiEntry)

inductive Act where
  | send (e : LokiEntry)
  | close
  | recv
  | tick
  | check
  | stop
  | drainRecv
  | drainEmpty
  | flush (streams : List Stream)
  | pushed (ok : Bool)

section Step

variable {c : LokiClient}

/-- `batch = append(batch, <-c.queue)`. -/
def State.receive (s : State c) (pc : Pc) : Option (State c) :=
  match s.queue.tryRecv with
  | none => none
  | some (e, queue) => some { s with queue, batch := s.batch.append e, pc }

/-- One atomic step. -/
def step (s : State c) : Act → Option (State c)
  | .send e =>
      match s.queue.trySend e with
      | some queue => some { s with queue, accepted := s.accepted ++ [e] }
      -- dropped
      | none => some s
  | .close => some { s with stopped := true }
  | .recv => if s.pc = .select then s.receive .appended else none
  | .tick => if s.pc = .select then some { s with pc := .flush false } else none
  | .check =>
      if s.pc = .appended then
        some { s with pc := if c.batchSize ≤ s.batch.len then .flush false else .select }
      else none
  | .stop => if s.pc = .select ∧ s.stopped = true then some { s with pc := .drain } else none
  | .drainRecv => if s.pc = .drain then s.receive .drain else none
  | .drainEmpty =>
      if s.pc = .drain ∧ s.queue.buf = [] then
        some { s with pc := .flush true, drained := some s.accepted }
      else none
  | .flush streams =>
      match s.pc with
      | .flush last =>
          if s.batch.len = 0 then some { s with pc := if last then .returned else .select }
          else if streams.Perm (c.streams s.batch.toList) then
            some { s with
              pc := .pushing last
              pushes := s.pushes ++ [⟨s.batch.toList, streams, s.stopped⟩] }
          else none
      | _ => none
  -- a push that fails is not repeated
  | .pushed _ =>
      match s.pc with
      | .pushing last =>
          some { s with batch := s.batch.truncate, pc := if last then .returned else .select }
      | _ => none

end Step

def initial (c : LokiClient) : State c where
  queue := .empty
  batch := .make ⟨0, [], []⟩ c.batchSize
  pc := .select
  stopped := false
  pushes := []
  accepted := []
  drained := none

def machine (c : LokiClient) : Machine (State c) Act where
  init := initial c
  step := step

-- ============================================================================
-- The streams of a push
-- ============================================================================

/-- The streams have different levels; each holds the values of its level, in order, and
    every entry belongs to one. -/
structure Partition (c : LokiClient) (entries : List LokiEntry) (streams : List Stream) : Prop where
  levels : (streams.map Stream.level).Nodup
  labels : ∀ st ∈ streams, st.job = c.job ∧ st.host = c.host
  values : ∀ st ∈ streams, st.values
    = (entries.filter fun e => e.level = st.level).map LokiEntry.value
  covers : ∀ e ∈ entries, ∃ st ∈ streams, st.level = e.level

theorem groupByLevel_append (entries : List LokiEntry) (e : LokiEntry) :
    groupByLevel (entries ++ [e]) = (groupByLevel entries).insert e.level
      (((groupByLevel entries).lookup e.level).getD [] ++ [e.value]) := by
  rw [groupByLevel, List.foldl_append]
  rfl

/-- The map has the levels of the entries, and under each its values in order. -/
theorem lookup_groupByLevel (entries : List LokiEntry) (level : Bytes) :
    ((groupByLevel entries).lookup level).getD []
        = (entries.filter fun e => e.level = level).map LokiEntry.value ∧
      (((groupByLevel entries).lookup level).isSome ↔ ∃ e ∈ entries, e.level = level) := by
  induction entries using List.reverseRecOn generalizing level with
  | nil =>
      rw [groupByLevel, List.foldl_nil, AList.lookup_empty]
      exact ⟨rfl, by simp⟩
  | append_singleton entries e ih =>
      rw [groupByLevel_append]
      by_cases h : level = e.level
      · obtain ⟨hvalues, -⟩ := ih e.level
        rw [h, AList.lookup_insert, Option.getD_some, hvalues, List.filter_append, List.map_append,
          List.filter_cons_of_pos (by simp)]
        exact ⟨rfl, iff_of_true rfl ⟨e, by simp, rfl⟩⟩
      · obtain ⟨hvalues, hlevels⟩ := ih level
        have hne : ¬ e.level = level := fun heq => h heq.symm
        rw [AList.lookup_insert_ne h, hvalues, hlevels, List.filter_append,
          List.filter_cons_of_neg (by simpa using hne), List.filter_nil, List.append_nil]
        refine ⟨rfl, ?_⟩
        simp [hne]

/-- A stream has the values of one level. -/
theorem mem_streams_iff {c : LokiClient} {entries : List LokiEntry} {st : Stream} :
    st ∈ c.streams entries ↔ st.job = c.job ∧ st.host = c.host ∧
      (groupByLevel entries).lookup st.level = some st.values := by
  rw [LokiClient.streams, List.mem_map]
  constructor
  · rintro ⟨p, hp, rfl⟩
    exact ⟨rfl, rfl, AList.mem_lookup_iff.mpr hp⟩
  · rintro ⟨hjob, hhost, hlookup⟩
    refine ⟨⟨st.level, st.values⟩, AList.mem_lookup_iff.mp hlookup, ?_⟩
    rw [← hjob, ← hhost]

/-- The streams of a push are its entries, by level. -/
theorem partition_streams (c : LokiClient) {entries : List LokiEntry} {streams : List Stream}
    (h : streams.Perm (c.streams entries)) : Partition c entries streams where
  levels := by
    have hkeys : (c.streams entries).map Stream.level = (groupByLevel entries).keys := by
      rw [LokiClient.streams, List.map_map]
      rfl
    rw [(h.map Stream.level).nodup_iff, hkeys]
    exact (groupByLevel entries).keys_nodup
  labels := by
    intro st hst
    obtain ⟨hjob, hhost, -⟩ := mem_streams_iff.mp (h.mem_iff.mp hst)
    exact ⟨hjob, hhost⟩
  values := by
    intro st hst
    obtain ⟨-, -, hlookup⟩ := mem_streams_iff.mp (h.mem_iff.mp hst)
    rw [← (lookup_groupByLevel entries st.level).1, hlookup, Option.getD_some]
  covers := by
    intro e he
    obtain ⟨values, hvalues⟩ := Option.isSome_iff_exists.mp
      ((lookup_groupByLevel entries e.level).2.mpr ⟨e, he, rfl⟩)
    exact ⟨⟨c.job, c.host, e.level, values⟩,
      h.mem_iff.mpr (mem_streams_iff.mpr ⟨rfl, rfl, hvalues⟩), rfl⟩

-- ============================================================================
-- The account
-- ============================================================================

/-- What has been pushed, in the order of the pushes. -/
def State.pushed {c : LokiClient} (s : State c) : List LokiEntry := s.pushes.flatMap Push.entries

/-- What the batch holds that no push has had yet. -/
def State.pending {c : LokiClient} (s : State c) : List LokiEntry :=
  match s.pc with
  | .pushing _ => []
  | _ => s.batch.toList

/-- The pushes are the accepted entries in order, each once: all that had been accepted when
    the drain loop found the queue empty, once the last push is made.  A push before the
    close is no larger than `BatchSize`, and the streams of each partition its batch. -/
structure Account {c : LokiClient} (s : State c) : Prop where
  order : ∃ rest, s.accepted = s.pushed ++ rest
  complete : s.pc = .pushing true ∨ s.pc = .returned → s.drained = some s.pushed
  size : ∀ p ∈ s.pushes, p.stopped = false → p.entries.length ≤ c.batchSize
  streams : ∀ p ∈ s.pushes, Partition c p.entries p.streams

structure Inv {c : LokiClient} (s : State c) : Prop where
  accepted : s.accepted = s.pushed ++ s.pending ++ s.queue.buf
  selecting : s.pc = .select → s.batch.len < c.batchSize
  appended : s.pc = .appended → s.batch.len ≤ c.batchSize
  flushing : s.pc = .flush false → s.batch.len ≤ c.batchSize
  stopped : s.pc = .drain ∨ s.pc = .flush true ∨ s.pc = .pushing true ∨ s.pc = .returned →
    s.stopped = true
  drained : s.pc = .flush true ∨ s.pc = .pushing true ∨ s.pc = .returned →
    s.drained = some (s.pushed ++ s.pending)
  returned : s.pc = .returned → s.batch.len = 0
  size : ∀ p ∈ s.pushes, p.stopped = false → p.entries.length ≤ c.batchSize
  streams : ∀ p ∈ s.pushes, Partition c p.entries p.streams

theorem inv_initial (c : LokiClient) : Inv (initial c) where
  accepted := rfl
  selecting := fun _ => c.batchSize_pos
  appended := fun h => by cases h
  flushing := fun h => by cases h
  stopped := fun h => by rcases h with h | h | h | h <;> cases h
  drained := fun h => by rcases h with h | h | h <;> cases h
  returned := fun h => by cases h
  size := fun p hp => absurd hp List.not_mem_nil
  streams := fun p hp => absurd hp List.not_mem_nil

section Steps

variable {c : LokiClient} {s s' : State c}

/-- What a receive does: the oldest entry goes from the queue to the batch. -/
theorem receive_some {pc : Pc} (h : s.receive pc = some s') :
    ∃ e queue, s.queue.buf = e :: queue.buf ∧
      s' = { s with queue, batch := s.batch.append e, pc } := by
  unfold State.receive at h
  split at h
  · cases h
  · rename_i e queue hrecv
    exact ⟨e, queue, Chan.tryRecv_eq_some.mp hrecv, (Option.some.inj h).symm⟩

theorem pending_pushing {last : Bool} (h : s.pc = .pushing last) : s.pending = [] := by
  rw [State.pending, h]

theorem pending_batch (h : ∀ last, s.pc ≠ .pushing last) : s.pending = s.batch.toList := by
  unfold State.pending
  split
  · rename_i last hpc
    exact absurd hpc (h last)
  · rfl

theorem inv_send (h : Inv s) {e : LokiEntry} (hstep : step s (.send e) = some s') : Inv s' := by
  simp only [step] at hstep
  split at hstep
  · rename_i queue hsend
    obtain rfl := Option.some.inj hstep
    obtain ⟨-, hbuf⟩ := Chan.trySend_eq_some.mp hsend
    refine ⟨?_, h.selecting, h.appended, h.flushing, h.stopped, h.drained, h.returned, h.size,
      h.streams⟩
    show s.accepted ++ [e] = s.pushed ++ s.pending ++ queue.buf
    rw [hbuf, h.accepted]
    simp only [List.append_assoc]
  · obtain rfl := Option.some.inj hstep
    exact h

theorem inv_close (h : Inv s) (hstep : step s .close = some s') : Inv s' := by
  obtain rfl := Option.some.inj hstep
  exact ⟨h.accepted, h.selecting, h.appended, h.flushing, fun _ => rfl, h.drained, h.returned,
    h.size, h.streams⟩

/-- An entry goes from the queue into the batch. -/
theorem inv_recv (h : Inv s) (hstep : step s .recv = some s') : Inv s' := by
  simp only [step] at hstep
  split at hstep
  · rename_i hpc
    obtain ⟨e, queue, hbuf, rfl⟩ := receive_some hstep
    have hpending : s.pending = s.batch.toList := pending_batch (by simp [hpc])
    have hlen := h.selecting hpc
    refine ⟨?_, by simp, fun _ => hlen, by simp, by simp, by simp, by simp, h.size, h.streams⟩
    show s.accepted = s.pushed ++ (s.batch.append e).toList ++ queue.buf
    rw [h.accepted, hpending, hbuf, Slice.toList_append]
    simp
  · cases hstep

theorem inv_tick (h : Inv s) (hstep : step s .tick = some s') : Inv s' := by
  obtain ⟨hpc, rfl⟩ := Machine.of_guard hstep
  have hpending : s.pending = s.batch.toList := pending_batch (by simp [hpc])
  refine ⟨?_, by simp, by simp, fun _ => Nat.le_of_lt (h.selecting hpc), by simp, by simp, by simp,
    h.size, h.streams⟩
  show s.accepted = s.pushed ++ s.batch.toList ++ s.queue.buf
  rw [h.accepted, hpending]

theorem inv_check (h : Inv s) (hstep : step s .check = some s') : Inv s' := by
  obtain ⟨hpc, rfl⟩ := Machine.of_guard hstep
  have hpending : s.pending = s.batch.toList := pending_batch (by simp [hpc])
  have haccepted : s.accepted = s.pushed ++ s.batch.toList ++ s.queue.buf := by
    rw [h.accepted, hpending]
  by_cases hfull : c.batchSize ≤ s.batch.len
  · rw [if_pos hfull]
    exact ⟨haccepted, by simp, by simp, fun _ => h.appended hpc, by simp, by simp, by simp, h.size,
      h.streams⟩
  · rw [if_neg hfull]
    exact ⟨haccepted, fun _ => Nat.lt_of_not_le hfull, by simp, by simp, by simp, by simp, by simp,
      h.size, h.streams⟩

theorem inv_stop (h : Inv s) (hstep : step s .stop = some s') : Inv s' := by
  obtain ⟨⟨hpc, hstopped⟩, rfl⟩ := Machine.of_guard hstep
  have hpending : s.pending = s.batch.toList := pending_batch (by simp [hpc])
  refine ⟨?_, by simp, by simp, by simp, fun _ => hstopped, by simp, by simp, h.size, h.streams⟩
  show s.accepted = s.pushed ++ s.batch.toList ++ s.queue.buf
  rw [h.accepted, hpending]

theorem inv_drainRecv (h : Inv s) (hstep : step s .drainRecv = some s') : Inv s' := by
  simp only [step] at hstep
  split at hstep
  · rename_i hpc
    obtain ⟨e, queue, hbuf, rfl⟩ := receive_some hstep
    have hpending : s.pending = s.batch.toList := pending_batch (by simp [hpc])
    refine ⟨?_, by simp, by simp, by simp, fun _ => h.stopped (.inl hpc), by simp, by simp, h.size,
      h.streams⟩
    show s.accepted = s.pushed ++ (s.batch.append e).toList ++ queue.buf
    rw [h.accepted, hpending, hbuf, Slice.toList_append]
    simp
  · cases hstep

/-- The last check for an empty queue: all that has been accepted is pushed or in the batch. -/
theorem inv_drainEmpty (h : Inv s) (hstep : step s .drainEmpty = some s') : Inv s' := by
  obtain ⟨⟨hpc, hempty⟩, rfl⟩ := Machine.of_guard hstep
  have hpending : s.pending = s.batch.toList := pending_batch (by simp [hpc])
  have haccepted : s.accepted = s.pushed ++ s.batch.toList := by
    rw [h.accepted, hpending, hempty, List.append_nil]
  refine ⟨?_, by simp, by simp, by simp, fun _ => h.stopped (.inl hpc), fun _ => ?_, by simp,
    h.size, h.streams⟩
  · show s.accepted = s.pushed ++ s.batch.toList ++ s.queue.buf
    rw [hempty, List.append_nil]
    exact haccepted
  · show some s.accepted = some (s.pushed ++ s.batch.toList)
    rw [haccepted]

/-- A flush of an empty batch. -/
theorem inv_flushNothing (h : Inv s) {last : Bool} (hpc : s.pc = .flush last)
    (hlen : s.batch.len = 0) :
    Inv { s with pc := if last then .returned else .select } := by
  have hpending : s.pending = s.batch.toList := pending_batch (by simp [hpc])
  have haccepted : s.accepted = s.pushed ++ s.batch.toList ++ s.queue.buf := by
    rw [h.accepted, hpending]
  cases last with
  | false =>
      refine ⟨haccepted, fun _ => ?_, by simp, by simp, by simp, by simp, by simp, h.size,
        h.streams⟩
      show s.batch.len < c.batchSize
      rw [hlen]
      exact c.batchSize_pos
  | true =>
      refine ⟨haccepted, by simp, by simp, by simp, fun _ => h.stopped (.inr (.inl hpc)),
        fun _ => ?_, fun _ => hlen, h.size, h.streams⟩
      show s.drained = some (s.pushed ++ s.batch.toList)
      rw [h.drained (.inl hpc), hpending]

/-- A flush that pushes: the batch goes from what is pending to what is pushed. -/
theorem inv_flushPush (h : Inv s) {last : Bool} (hpc : s.pc = .flush last) {streams : List Stream}
    (hperm : streams.Perm (c.streams s.batch.toList)) :
    Inv { s with
      pc := .pushing last
      pushes := s.pushes ++ [⟨s.batch.toList, streams, s.stopped⟩] } := by
  have hpending : s.pending = s.batch.toList := pending_batch (by simp [hpc])
  have hpushed : (s.pushes ++ [(⟨s.batch.toList, streams, s.stopped⟩ : Push)]).flatMap Push.entries
      = s.pushed ++ s.batch.toList := by
    rw [List.flatMap_append, List.flatMap_singleton]
    rfl
  refine ⟨?_, by simp, by simp, by simp, fun hlast => ?_, fun hlast => ?_, by simp, ?_, ?_⟩
  · show s.accepted = (s.pushes ++ [_]).flatMap Push.entries ++ [] ++ s.queue.buf
    rw [hpushed, List.append_nil, h.accepted, hpending]
  · obtain rfl : last = true := by simpa using hlast
    exact h.stopped (.inr (.inl hpc))
  · obtain rfl : last = true := by simpa using hlast
    show s.drained = some ((s.pushes ++ [_]).flatMap Push.entries ++ [])
    rw [hpushed, List.append_nil, h.drained (.inl hpc), hpending]
  · intro p hp hbefore
    rcases List.mem_append.mp hp with hold | hnew
    · exact h.size p hold hbefore
    · obtain rfl := List.mem_singleton.mp hnew
      have hopen : s.stopped = false := hbefore
      cases last with
      | true => exact absurd ((h.stopped (.inr (.inl hpc))).symm.trans hopen) (by decide)
      | false =>
          show s.batch.toList.length ≤ c.batchSize
          rw [Slice.length_toList]
          exact h.flushing hpc
  · intro p hp
    rcases List.mem_append.mp hp with hold | hnew
    · exact h.streams p hold
    · obtain rfl := List.mem_singleton.mp hnew
      exact partition_streams c hperm

/-- A push takes the whole batch. -/
theorem inv_flush (h : Inv s) {streams : List Stream}
    (hstep : step s (.flush streams) = some s') : Inv s' := by
  simp only [step] at hstep
  split at hstep
  · rename_i last hpc
    split at hstep
    · rename_i hlen
      obtain rfl := Option.some.inj hstep
      exact inv_flushNothing h hpc hlen
    · obtain ⟨hperm, rfl⟩ := Machine.of_guard hstep
      exact inv_flushPush h hpc hperm
  · cases hstep

theorem inv_pushed (h : Inv s) {ok : Bool} (hstep : step s (.pushed ok) = some s') : Inv s' := by
  simp only [step] at hstep
  split at hstep
  · rename_i last hpc
    obtain rfl := Option.some.inj hstep
    have hpending := pending_pushing hpc
    have haccepted : s.accepted = s.pushed ++ [] ++ s.queue.buf := by rw [h.accepted, hpending]
    cases last with
    | false =>
        exact ⟨haccepted, fun _ => c.batchSize_pos, by simp, by simp, by simp, by simp, by simp,
          h.size, h.streams⟩
    | true =>
        refine ⟨haccepted, by simp, by simp, by simp,
          fun _ => h.stopped (.inr (.inr (.inl hpc))), fun _ => ?_, fun _ => rfl, h.size, h.streams⟩
        show s.drained = some (s.pushed ++ [])
        rw [h.drained (.inr (.inl hpc)), hpending]
  · cases hstep

end Steps

/-- Every step keeps the account. -/
theorem inv_step {c : LokiClient} {s s' : State c} {a : Act} (h : Inv s)
    (hstep : step s a = some s') : Inv s' := by
  cases a with
  | send e => exact inv_send h hstep
  | close => exact inv_close h hstep
  | recv => exact inv_recv h hstep
  | tick => exact inv_tick h hstep
  | check => exact inv_check h hstep
  | stop => exact inv_stop h hstep
  | drainRecv => exact inv_drainRecv h hstep
  | drainEmpty => exact inv_drainEmpty h hstep
  | flush streams => exact inv_flush h hstep
  | pushed ok => exact inv_pushed h hstep

/-- What has been accepted has been pushed, is pending or is in the queue, in order. -/
theorem Inv.account {c : LokiClient} {s : State c} (h : Inv s) : Account s where
  order := ⟨s.pending ++ s.queue.buf, by rw [h.accepted, List.append_assoc]⟩
  complete := by
    rintro (hpc | hpc)
    · rw [h.drained (.inr (.inl hpc)), pending_pushing hpc, List.append_nil]
    · have hempty : s.pending = [] := by
        rw [pending_batch (by simp [hpc])]
        exact Slice.toList_eq_nil_iff.mpr (h.returned hpc)
      rw [h.drained (.inr (.inr hpc)), hempty, List.append_nil]
  size := h.size
  streams := h.streams

/-- **Batching.**  In every run of Sends, ticks, pushes that succeed or fail and a Close, the
    pushes are the accepted entries, each once and in order. -/
theorem account_of_run (c : LokiClient) (as : List Act) (s : State c)
    (hrun : (machine c).run (initial c) as = some s) : Account s := by
  have hinv : Inv s :=
    Machine.run_invariant (M := machine c) (fun _ _ _ h hstep => inv_step h hstep) hrun
      (inv_initial c)
  exact hinv.account

/-- Two entries fill a batch; a third is queued before the close and a fourth after the last
    check. -/
def smallClient : LokiClient := ⟨ascii "j", ascii "h", 2, 3, by decide, by decide⟩

def entry (ts : Int) (level : Bytes) : LokiEntry := ⟨ts, level, ascii "l"⟩

def schedule : List Act :=
  [.send (entry 1 (ascii "INFO")), .send (entry 2 (ascii "WARN")), .recv, .check, .recv, .check,
    .flush [⟨ascii "j", ascii "h", ascii "WARN", [(entry 2 (ascii "WARN")).value]⟩,
      ⟨ascii "j", ascii "h", ascii "INFO", [(entry 1 (ascii "INFO")).value]⟩],
    .send (entry 3 (ascii "INFO")), .close, .pushed false, .stop, .drainRecv, .drainEmpty,
    .send (entry 4 (ascii "INFO")),
    .flush [⟨ascii "j", ascii "h", ascii "INFO", [(entry 3 (ascii "INFO")).value]⟩], .pushed true]

theorem account_of_run_schedule :
    ∃ s, (machine smallClient).run (initial smallClient) schedule = some s ∧ s.pc = .returned ∧
      Account s := by
  have hrun : ((machine smallClient).run (initial smallClient) schedule).any
      (fun s => s.pc = .returned) = true := by decide +kernel
  obtain ⟨s, hs, hpc⟩ := (Option.any_eq_true _ _).mp hrun
  exact ⟨s, hs, of_decide_eq_true hpc, account_of_run smallClient schedule s hs⟩

end FsBridge.Bridge.Loki
