/-
  FsBridge.Pipeline.DownlinkSamples

  Reply audio from the body of a TTS response to the WebSocket: `Synthesize` cuts
  the body into chunks (providers/elevenlabs.go), the loop of `respond` sends them
  (pipeline/cascade.go), and the Session queues, drops and writes the frames
  (bridge/session.go).

  Any number of turns may run at a time; `cancel` is the end of a turn's context,
  by a barge-in, the next turn or the end of the call.  A read returns any number of
  bytes up to the size of the buffer.

  `taken` and `starts` are history: where in its stream a turn is, and where the
  frame of each of its sends begins.  They give every delivered byte its place, and
  samples are whole when the places come in pairs.
-/

import Mathlib.Data.List.Infix
import FsBridge.Bridge.SessionLaws

namespace FsBridge.Pipeline.Downlink

open FsBridge.Lib FsBridge.Bridge

-- ============================================================================
-- Places and samples
-- ============================================================================

/-- A byte of the stream of a turn. -/
structure Place where
  turn : Nat
  offset : Nat
deriving DecidableEq, Repr

/-- `len` bytes of a stream. -/
def stretch (k start len : Nat) : List Place := (List.range len).map fun p => ⟨k, start + p⟩

/-- A 16-bit sample of the stream of a turn. -/
structure Sample where
  turn : Nat
  index : Nat

/-- Its low and its high byte. -/
def Sample.places (m : Sample) : List Place :=
  [⟨m.turn, 2 * m.index⟩, ⟨m.turn, 2 * m.index + 1⟩]

/-- The bytes are whole samples, one behind the other, and so low bytes at even places
    are at even places of their streams. -/
structure Aligned (bytes : List Place) : Prop where
  parity : ∀ i m, bytes[i]? = some m → m.offset % 2 = i % 2
  samples : ∃ samples : List Sample, bytes = samples.flatMap Sample.places

theorem length_stretch (k start len : Nat) : (stretch k start len).length = len := by
  rw [stretch, List.length_map, List.length_range]

theorem getElem?_stretch {k start len i : Nat} (h : i < len) :
    (stretch k start len)[i]? = some ⟨k, start + i⟩ := by
  rw [stretch, List.getElem?_map, List.getElem?_range h]
  rfl

theorem aligned_samples (samples : List Sample) : Aligned (samples.flatMap Sample.places) := by
  refine ⟨?_, samples, rfl⟩
  induction samples with
  | nil => exact fun i m h => absurd h (by simp)
  | cons sample samples ih =>
      intro i m h
      rw [List.flatMap_cons, Sample.places] at h
      match i, h with
      | 0, h =>
          obtain rfl := Option.some.inj h
          show 2 * sample.index % 2 = 0
          omega
      | 1, h =>
          obtain rfl := Option.some.inj h
          show (2 * sample.index + 1) % 2 = 1
          omega
      | i + 2, h =>
          have hrest := ih i m h
          omega

theorem Aligned.append {bytes bytes' : List Place} (h : Aligned bytes) (h' : Aligned bytes') :
    Aligned (bytes ++ bytes') := by
  obtain ⟨samples, rfl⟩ := h.samples
  obtain ⟨samples', rfl⟩ := h'.samples
  rw [← List.flatMap_append]
  exact aligned_samples _

/-- Whole samples have an even number of bytes. -/
theorem Aligned.length_even {bytes : List Place} (h : Aligned bytes) : bytes.length % 2 = 0 := by
  obtain ⟨samples, rfl⟩ := h.samples
  clear h
  induction samples with
  | nil => rfl
  | cons sample samples ih =>
      rw [List.flatMap_cons, List.length_append, Sample.places]
      simp only [List.length_cons, List.length_nil]
      omega

/-- An even number of bytes from an even place on. -/
theorem aligned_stretch {k start len : Nat} (hstart : start % 2 = 0) (hlen : len % 2 = 0) :
    Aligned (stretch k start len) := by
  have hsamples : ∀ count : Nat, stretch k start (2 * count)
      = ((List.range count).map fun p => (⟨k, start / 2 + p⟩ : Sample)).flatMap Sample.places := by
    intro count
    induction count with
    | zero => rfl
    | succ count ih =>
        have hlow : start + 2 * count = 2 * (start / 2 + count) := by omega
        have hhigh : start + (2 * count + 1) = 2 * (start / 2 + count) + 1 := by omega
        rw [List.range_succ, List.map_append, List.flatMap_append, ← ih]
        rw [stretch, show 2 * (count + 1) = 2 * count + 1 + 1 by omega, List.range_succ,
          List.range_succ, List.map_append, List.map_append, List.append_assoc]
        simp [Sample.places, stretch, hlow, hhigh]
  have hcount : len = 2 * (len / 2) := by omega
  rw [hcount, hsamples]
  exact aligned_samples _

theorem aligned_flatMap {β : Type*} {l : List β} {f : β → List Place}
    (h : ∀ b ∈ l, Aligned (f b)) : Aligned (l.flatMap f) := by
  induction l with
  | nil => exact aligned_samples []
  | cons b l ih =>
      rw [List.flatMap_cons]
      exact (h b List.mem_cons_self).append (ih fun b' hb' => h b' (List.mem_cons_of_mem _ hb'))

-- ============================================================================
-- The system
-- ============================================================================

/-- The goroutines that send on the Session: the turns, and those that send control
    messages. -/
inductive Sender where
  | turn (k : Nat)
  | control (n : Nat)
deriving DecidableEq, Repr

/-- Where the loop of `respond` is. -/
inductive Pc where
  | nextChunk
  | checkCtx (chunk : Bytes)
  | sendAudio (chunk : Bytes)
  /-- Inside `SendAudio`. -/
  | sending
  | finished
deriving DecidableEq, Repr

/-- The size of the buffer a body is read into. -/
def readSize : Nat := 4096

/-- A turn, from the start of its TTS stream on. -/
structure Turn where
  /-- Its context is done. -/
  cancelled : Bool
  /-- How many bytes of the body have been read. -/
  read : Nat
  out : Chan Bytes 64
  outClosed : Bool
  pc : Pc
  /-- How many bytes of the body the loop has received. -/
  taken : Nat

variable {cap : Nat}

structure State (cap : Nat) where
  session : Session.State Sender cap
  turns : Nat → Turn
  /-- Where in its stream each frame of a turn begins, in the order of its sends. -/
  starts : Nat → List Nat

inductive Act where
  | cancel (k : Nat)
  /-- A read gives `n` bytes, which go to `out`. -/
  | read (k n : Nat)
  /-- The context is done before they do. -/
  | readCancelled (k : Nat)
  /-- A read gives an error, or the end of the body. -/
  | readEnds (k : Nat)
  | recv (k : Nat)
  | chunksDone (k : Nat)
  | checkCtx (k : Nat)
  | sendAudio (k : Nat)
  | session (a : Session.Act Sender)

namespace State

def setTurn (s : State cap) (k : Nat) (t : Turn) : State cap :=
  { s with turns := Function.update s.turns k t }

/-- The loop of the turn goes on to `pc`. -/
def goto (s : State cap) (k : Nat) (pc : Pc) : State cap :=
  s.setTurn k { s.turns k with pc := pc }

/-- `enqueue` may have returned to its sender: the loop goes on, or ends on an error. -/
def settle (s : State cap) : Sender → State cap
  | .control _ => s
  | .turn k =>
      match (s.session.senders (.turn k)).inside, s.session.returned.getLast? with
      | none, some (_, .ok _) => s.goto k .nextChunk
      | none, some (_, .error _) => s.goto k .finished
      | _, _ => s

end State

/-- The sender whose `enqueue` takes the step. -/
def enqueueOf : Session.Act Sender → Option Sender
  | .checkDone i | .tryQueue i | .dropOldest i | .lastSend i | .lastDone i => some i
  | .call _ _ | .pumpDone | .pumpRecv | .pumpWrite _ | .close => none

/-- A call of `enqueue` is one of a turn by its loop, or of a control message. -/
def allowed : Session.Act Sender → Bool
  | .call (.turn _) _ => false
  | .call (.control _) req => req.mt = .messageText
  | _ => true

section Step

variable (stream : Nat → Bytes)

/-- One step; `stream` gives the body of each turn's response. -/
def step (s : State cap) : Act → Option (State cap)
  | .cancel k => some (s.setTurn k { s.turns k with cancelled := true })
  | .read k n =>
      let t := s.turns k
      if t.outClosed = false ∧ 0 < n ∧ n ≤ readSize ∧ t.read + n ≤ (stream k).length then
        (t.out.trySend (((stream k).drop t.read).take n)).map fun out =>
          s.setTurn k { t with read := t.read + n, out := out }
      else none
  | .readCancelled k =>
      let t := s.turns k
      if t.outClosed = false ∧ t.cancelled = true then some (s.setTurn k { t with outClosed := true })
      else none
  | .readEnds k =>
      let t := s.turns k
      if t.outClosed = false then some (s.setTurn k { t with outClosed := true }) else none
  | .recv k =>
      let t := s.turns k
      match t.pc, t.out.tryRecv with
      | .nextChunk, some (chunk, out) => some (s.setTurn k
          { t with out := out, pc := .checkCtx chunk, taken := t.taken + chunk.length })
      | _, _ => none
  | .chunksDone k =>
      let t := s.turns k
      if t.pc = .nextChunk ∧ t.out.buf = [] ∧ t.outClosed = true then some (s.goto k .finished)
      else none
  | .checkCtx k =>
      match (s.turns k).pc with
      | .checkCtx chunk =>
          some (s.goto k (if (s.turns k).cancelled then .finished else .sendAudio chunk))
      | _ => none
  | .sendAudio k =>
      match (s.turns k).pc with
      | .sendAudio chunk =>
          match Session.sendAudio chunk with
          | none => some (s.goto k .nextChunk)
          | some req =>
              (Session.step s.session (.call (.turn k) req)).map fun x =>
                { s.goto k .sending with
                  session := x
                  starts := Function.update s.starts k
                    (s.starts k ++ [(s.turns k).taken - chunk.length]) }
      | _ => none
  | .session a =>
      if allowed a then
        (Session.step s.session a).map fun x =>
          match enqueueOf a with
          | some i => { s with session := x }.settle i
          | none => { s with session := x }
      else none

/-- No turn has read anything. -/
def initial (cap : Nat) : State cap where
  session := Session.initial Sender cap
  turns := fun _ => ⟨false, 0, .empty, false, .nextChunk, 0⟩
  starts := fun _ => []

def machine (cap : Nat) : Machine (State cap) Act where
  init := initial cap
  step := step stream

end Step

-- ============================================================================
-- What the module gets
-- ============================================================================

namespace State

/-- The audio frames handed to the WebSocket, in order. -/
def delivered (s : State cap) : List (Session.Call Sender) :=
  s.session.handed.filter fun c => c.req.mt = .messageBinary

/-- Where the frame of a send begins. -/
def startOf (s : State cap) (k : Nat) (c : Session.Call Sender) : Nat := (s.starts k).getD c.seq 0

/-- The bytes of a frame. -/
def placesOf (s : State cap) (c : Session.Call Sender) : List Place :=
  match c.sender with
  | .turn k => stretch k (s.startOf k c) c.req.data.length
  | .control _ => []

/-- The delivered bytes. -/
def places (s : State cap) : List Place := s.delivered.flatMap s.placesOf

end State

/-- The audio the module gets is made of whole samples of the streams. -/
structure SampleAligned (stream : Nat → Bytes) (s : State cap) : Prop where
  /-- The bytes are those of the streams, at these places. -/
  source : (s.delivered.flatMap fun c => c.req.data).map some
    = s.places.map fun m => (stream m.turn)[m.offset]?
  aligned : Aligned s.places

/-- What the turn reads can still go out: the session is open, the context of the turn is
    live, and its loop goes on. -/
structure State.Feeds (s : State cap) (k : Nat) : Prop where
  isOpen : s.session.done = false
  live : (s.turns k).cancelled = false
  loops : (s.turns k).pc ≠ .finished

/-- A read of a turn whose bytes can still go out gives whole samples. -/
def WholeReads (s : State cap) : Act → Prop
  | .read k n => s.Feeds k → n % 2 = 0
  | _ => True

-- ============================================================================
-- The session
-- ============================================================================

section Session

variable {x x' : Session.State Sender cap} {a : Session.Act Sender} {c : Session.Call Sender}

/-- A frame of the session: one that has entered the queue, or that of a running
    `enqueue`. -/
def Present (x : Session.State Sender cap) (c : Session.Call Sender) : Prop :=
  c ∈ x.entered ∨ ∃ i pc, x.current i = some (pc, c)

/-- A sender moved on within its call holds the same frame. -/
theorem present_of_goto {i : Sender} {pc pc' : Session.EnqueuePc} {c' : Session.Call Sender}
    {senders : Sender → Session.Sender} (hcur : x.current i = some (pc, c'))
    (hsenders : senders = (x.goto i (some (pc', c'.req))).senders)
    (h : ∃ j p, ((senders j).inside.map fun q =>
      (q.1, (⟨j, (senders j).calls - 1, q.2⟩ : Session.Call Sender))) = some (p, c)) :
    ∃ j p, x.current j = some (p, c) := by
  subst hsenders
  obtain ⟨j, p, hj⟩ := h
  by_cases hij : j = i
  · subst hij
    obtain ⟨hin, hseq⟩ := Session.State.current_inside hcur
    have hsender := Session.State.current_sender hcur
    rw [Session.State.goto] at hj
    dsimp only at hj
    rw [Function.update_self] at hj
    obtain ⟨-, rfl⟩ := Prod.mk.inj (Option.some.inj hj)
    have hc : c' = ⟨j, (x.senders j).calls - 1, c'.req⟩ := by
      cases c'
      dsimp only at hseq hsender
      rw [hseq, hsender]
    exact ⟨j, pc, by rw [hcur, hc]⟩
  · refine ⟨j, p, ?_⟩
    rw [Session.State.goto] at hj
    dsimp only at hj
    rw [Function.update_of_ne hij] at hj
    exact hj

/-- A sender that has returned holds no frame. -/
theorem present_of_ret {i : Sender} {senders : Sender → Session.Sender}
    (hsenders : senders = (x.goto i none).senders)
    (h : ∃ j p, ((senders j).inside.map fun q =>
      (q.1, (⟨j, (senders j).calls - 1, q.2⟩ : Session.Call Sender))) = some (p, c)) :
    ∃ j p, x.current j = some (p, c) := by
  subst hsenders
  obtain ⟨j, p, hj⟩ := h
  by_cases hij : j = i
  · subst hij
    rw [Session.State.goto] at hj
    dsimp only at hj
    rw [Function.update_self] at hj
    cases hj
  · refine ⟨j, p, ?_⟩
    rw [Session.State.goto] at hj
    dsimp only at hj
    rw [Function.update_of_ne hij] at hj
    exact hj

/-- Frames come into the session by calls of `enqueue`. -/
theorem present_of_effect (heff : Session.Effect x a x') (h : Present x' c) :
    Present x c ∨ ∃ i req, a = .call i req ∧ c = ⟨i, (x.senders i).calls, req⟩ := by
  cases heff with
  | call i req hidle =>
      rcases h with hin | ⟨j, p, hj⟩
      · exact .inl (.inl hin)
      · by_cases hij : j = i
        · subst hij
          rw [Session.State.current] at hj
          dsimp only at hj
          rw [Function.update_self] at hj
          obtain ⟨-, rfl⟩ := Prod.mk.inj (Option.some.inj hj)
          exact .inr ⟨j, req, rfl, rfl⟩
        · rw [Session.State.current] at hj
          dsimp only at hj
          rw [Function.update_of_ne hij] at hj
          exact .inl (.inr ⟨j, p, hj⟩)
  | isOpen i c' hcur => exact .inl (h.imp id fun hc => present_of_goto hcur rfl hc)
  | full i c' hcur hfull => exact .inl (h.imp id fun hc => present_of_goto hcur rfl hc)
  | drained i c' hcur hempty => exact .inl (h.imp id fun hc => present_of_goto hcur rfl hc)
  | evict i c' old q hcur hq => exact .inl (h.imp id fun hc => present_of_goto hcur rfl hc)
  | push i pc c' q ha hcur hlt hq =>
      rcases h with hin | hc
      · rcases List.mem_append.mp hin with hin | hin
        · exact .inl (.inl hin)
        · obtain rfl := List.mem_singleton.mp hin
          exact .inl (.inr ⟨i, pc, hcur⟩)
      · exact .inl (.inr (present_of_ret rfl hc))
  | closed i pc c' ha hcur hdone =>
      exact .inl (h.imp id fun hc => present_of_ret rfl hc)
  | hand c' q hq => exact .inl h
  | other pump done hdone ha => exact .inl h

/-- `enqueue` is called by its sender. -/
theorem calls_of_effect (heff : Session.Effect x a x') (i : Sender) :
    (x'.senders i).calls = (x.senders i).calls ∨
      ∃ req, a = .call i req ∧ (x'.senders i).calls = (x.senders i).calls + 1 := by
  have hgoto : ∀ j inside, (((x.goto j inside).senders i).calls) = (x.senders i).calls := by
    intro j inside
    rw [Session.State.goto]
    dsimp only
    by_cases hij : i = j
    · subst hij
      rw [Function.update_self]
    · rw [Function.update_of_ne hij]
  cases heff with
  | call j req hidle =>
      by_cases hij : i = j
      · subst hij
        refine .inr ⟨req, rfl, ?_⟩
        dsimp only
        rw [Function.update_self]
      · refine .inl ?_
        dsimp only
        rw [Function.update_of_ne hij]
  | isOpen j c' hcur => exact .inl (hgoto j _)
  | full j c' hcur hfull => exact .inl (hgoto j _)
  | drained j c' hcur hempty => exact .inl (hgoto j _)
  | evict j c' old q hcur hq => exact .inl (hgoto j _)
  | push j pc c' q ha hcur hlt hq => exact .inl (hgoto j _)
  | closed j pc c' ha hcur hdone => exact .inl (hgoto j _)
  | hand c' q hq => exact .inl rfl
  | other pump done hdone ha => exact .inl rfl

/-- A frame enters the queue from a call that has found the session open. -/
theorem entered_of_effect (heff : Session.Effect x a x') : x'.entered = x.entered ∨
    ∃ i pc c, x.current i = some (pc, c) ∧ pc ≠ .checkDone ∧ x'.entered = x.entered ++ [c] := by
  cases heff with
  | push i pc c q ha hcur hlt hq =>
      refine .inr ⟨i, pc, c, hcur, ?_, rfl⟩
      rcases ha with ⟨-, rfl⟩ | ⟨-, rfl⟩
      · exact fun h => nomatch h
      · exact fun h => nomatch h
  | _ => exact .inl rfl

theorem inside_goto (x : Session.State Sender cap) (i j : Sender)
    (inside : Option (Session.EnqueuePc × Session.WriteRequest)) :
    ((x.goto i inside).senders j).inside = if j = i then inside else (x.senders j).inside := by
  rw [Session.State.goto]
  dsimp only
  by_cases hij : j = i
  · subst hij
    rw [Function.update_self, if_pos rfl]
  · rw [Function.update_of_ne hij, if_neg hij]

/-- The request of a sender is the one it has called `enqueue` with, and it passes the first
    `select` of an open session only. -/
theorem inside_of_effect (heff : Session.Effect x a x') {j : Sender} {pc' : Session.EnqueuePc}
    {req : Session.WriteRequest} (h : (x'.senders j).inside = some (pc', req)) :
    (∃ pc, (x.senders j).inside = some (pc, req) ∧
        (pc = .checkDone → pc' = .checkDone ∨ x.done = false)) ∨
      a = .call j req ∧ pc' = .checkDone := by
  have hgoto : ∀ {i pc pc'' c}, x.current i = some (pc, c) →
      (pc = .checkDone → x.done = false) →
      ((x.goto i (some (pc'', c.req))).senders j).inside = some (pc', req) →
      ∃ pc, (x.senders j).inside = some (pc, req) ∧
        (pc = .checkDone → pc' = .checkDone ∨ x.done = false) := by
    intro i pc pc'' c hcur hpc hin
    rw [inside_goto] at hin
    split at hin
    · rename_i hji
      obtain ⟨-, rfl⟩ := Prod.mk.inj (Option.some.inj hin)
      rw [hji]
      exact ⟨pc, (Session.State.current_inside hcur).1, fun hcheck => .inr (hpc hcheck)⟩
    · exact ⟨pc', hin, .inl⟩
  have hret : ∀ {i}, ((x.goto i none).senders j).inside = some (pc', req) →
      ∃ pc, (x.senders j).inside = some (pc, req) ∧
        (pc = .checkDone → pc' = .checkDone ∨ x.done = false) := by
    intro i hin
    rw [inside_goto] at hin
    split at hin
    · exact nomatch hin
    · exact ⟨pc', hin, .inl⟩
  cases heff with
  | call i req' hidle =>
      dsimp only at h
      by_cases hji : j = i
      · subst hji
        rw [Function.update_self] at h
        obtain ⟨rfl, rfl⟩ := Prod.mk.inj (Option.some.inj h)
        exact .inr ⟨rfl, rfl⟩
      · rw [Function.update_of_ne hji] at h
        exact .inl ⟨pc', h, .inl⟩
  | isOpen i c hcur hopen => exact .inl (hgoto hcur (fun _ => hopen) h)
  | full i c hcur hfull => exact .inl (hgoto hcur (fun hno => nomatch hno) h)
  | drained i c hcur hempty => exact .inl (hgoto hcur (fun hno => nomatch hno) h)
  | evict i c old q hcur hq => exact .inl (hgoto hcur (fun hno => nomatch hno) h)
  | push i pc c q ha hcur hlt hq => exact .inl (hret h)
  | closed i pc c ha hcur hdone => exact .inl (hret h)
  | hand c q hq => exact .inl ⟨pc', h, .inl⟩
  | other pump done hdone ha => exact .inl ⟨pc', h, .inl⟩

/-- A call of `enqueue` puts nothing into the queue yet. -/
theorem entered_of_call {i : Sender} {req : Session.WriteRequest}
    (h : Session.step x (.call i req) = some x') : x'.entered = x.entered := by
  rcases entered_of_effect (Session.effect_of_step h) with hsame | ⟨j, pc, c, hcur, -, hmore⟩
  · exact hsame
  · simp only [Session.step] at h
    split at h
    · cases h
    · cases h
      rfl

/-- A closed session stays closed. -/
theorem open_of_effect (heff : Session.Effect x a x') (h : x'.done = false) : x.done = false := by
  cases heff with
  | other pump done hdone ha =>
      cases hx : x.done with
      | false => rfl
      | true => exact nomatch (hdone hx).symm.trans h
  | _ => exact h

/-- A step of `enqueue` is one of a sender inside it. -/
theorem inside_of_enqueue (heff : Session.Effect x a x') {i : Sender} (ha : enqueueOf a = some i) :
    (x.senders i).inside ≠ none := by
  have hcurrent : ∀ {j pc c}, x.current j = some (pc, c) → (x.senders j).inside ≠ none := by
    intro j pc c hcur hnone
    exact nomatch (Session.State.current_inside hcur).1.symm.trans hnone
  cases heff with
  | call j req hidle => exact nomatch ha
  | isOpen j c hcur hopen => exact Option.some.inj ha ▸ hcurrent hcur
  | full j c hcur hfull => exact Option.some.inj ha ▸ hcurrent hcur
  | drained j c hcur hempty => exact Option.some.inj ha ▸ hcurrent hcur
  | evict j c old q hcur hq => exact Option.some.inj ha ▸ hcurrent hcur
  | push j pc c q hact hcur hlt hq =>
      rcases hact with ⟨rfl, -⟩ | ⟨rfl, -⟩
      · exact Option.some.inj ha ▸ hcurrent hcur
      · exact Option.some.inj ha ▸ hcurrent hcur
  | closed j pc c hact hcur hdone =>
      rcases hact with ⟨rfl, -⟩ | ⟨rfl, -⟩
      · exact Option.some.inj ha ▸ hcurrent hcur
      · exact Option.some.inj ha ▸ hcurrent hcur
  | hand c q hq => exact nomatch ha
  | other pump done hdone hact =>
      cases a with
      | checkDone j | tryQueue j | dropOldest j | lastSend j | lastDone j => exact absurd rfl (hact j)
      | _ => exact nomatch ha

end Session

-- ============================================================================
-- The invariant
-- ============================================================================

section Invariant

variable {stream : Nat → Bytes}

/-- A frame in the session: control text, or a piece of the stream of a turn at the
    place where it is said to begin. -/
def Good (stream : Nat → Bytes) (starts : Nat → List Nat) (c : Session.Call Sender) : Prop :=
  match c.sender with
  | .turn k => c.req.mt = .messageBinary ∧ c.req.data ≠ [] ∧
      ∃ start, (starts k)[c.seq]? = some start ∧ c.req.data <+: (stream k).drop start
  | .control _ => c.req.mt = .messageText

/-- The chunk in hand after the check of the context is the one that was checked. -/
theorem chunk_of_checkCtx {cancelled : Bool} {chunk chunk' : Bytes}
    (h : (if cancelled then Pc.finished else Pc.sendAudio chunk) = .checkCtx chunk' ∨
      (if cancelled then Pc.finished else Pc.sendAudio chunk) = .sendAudio chunk') :
    chunk = chunk' := by
  cases cancelled with
  | true => rcases h with h | h <;> cases h
  | false =>
      rcases h with h | h
      · cases h
      · exact Pc.sendAudio.inj h

/-- A turn: the chunks in `out` are what it has not taken of what has been read, and the
    chunk in hand is what it has taken last. -/
structure TurnOk (body : Bytes) (t : Turn) : Prop where
  buffered : t.out.buf.flatten <+: body.drop t.taken
  read : t.taken + t.out.buf.flatten.length = t.read
  inHand : ∀ chunk, t.pc = .checkCtx chunk ∨ t.pc = .sendAudio chunk →
    chunk.length ≤ t.taken ∧ chunk <+: body.drop (t.taken - chunk.length)

structure Inv (stream : Nat → Bytes) (s : State cap) : Prop where
  session : Session.Inv s.session
  calls : ∀ k, (s.session.senders (.turn k)).calls = (s.starts k).length
  frames : ∀ c, Present s.session c → Good stream s.starts c
  turns : ∀ k, TurnOk (stream k) (s.turns k)

theorem inv_initial (stream : Nat → Bytes) (cap : Nat) : Inv stream (initial cap) where
  session := Session.inv_initial
  calls k := rfl
  frames c h := by
    rcases h with hin | ⟨i, pc, hcur⟩
    · exact absurd hin List.not_mem_nil
    · exact nomatch hcur
  turns k := ⟨List.nil_prefix, rfl, fun chunk h => by rcases h with h | h <;> exact nomatch h⟩

/-- More sends leave the frames that are there what they are. -/
theorem Good.snoc {starts : Nat → List Nat} {c : Session.Call Sender} (h : Good stream starts c)
    (k start : Nat) : Good stream (Function.update starts k (starts k ++ [start])) c := by
  unfold Good at h ⊢
  split at h
  · rename_i j hj
    obtain ⟨hmt, hne, start', hget, hpiece⟩ := h
    refine ⟨hmt, hne, start', ?_, hpiece⟩
    by_cases hjk : j = k
    · subst hjk
      rw [Function.update_self, List.getElem?_append_left (List.getElem?_eq_some_iff.mp hget).1]
      exact hget
    · rw [Function.update_of_ne hjk]
      exact hget
  · exact h

/-- The loop is at a place without a chunk. -/
theorem TurnOk.pc {body : Bytes} {t : Turn} (h : TurnOk body t) {pc : Pc}
    (hpc : ∀ chunk, pc ≠ .checkCtx chunk ∧ pc ≠ .sendAudio chunk) :
    TurnOk body { t with pc := pc } where
  buffered := h.buffered
  read := h.read
  inHand chunk hin := by
    rcases hin with hin | hin
    · exact absurd hin (hpc chunk).1
    · exact absurd hin (hpc chunk).2

variable {s s' : State cap}

theorem Inv.setTurn (h : Inv stream s) {k : Nat} {t : Turn} (ht : TurnOk (stream k) t) :
    Inv stream (s.setTurn k t) where
  session := h.session
  calls := h.calls
  frames := h.frames
  turns j := by
    show TurnOk (stream j) (Function.update s.turns k t j)
    by_cases hjk : j = k
    · subst hjk
      rw [Function.update_self]
      exact ht
    · rw [Function.update_of_ne hjk]
      exact h.turns j

theorem Inv.settle (h : Inv stream s) (i : Sender) : Inv stream (s.settle i) := by
  unfold State.settle
  cases i with
  | control n => exact h
  | turn k =>
      dsimp only
      split
      · exact h.setTurn ((h.turns k).pc fun chunk => ⟨(fun hno => nomatch hno),
          fun hno => nomatch hno⟩)
      · exact h.setTurn ((h.turns k).pc fun chunk => ⟨(fun hno => nomatch hno),
          fun hno => nomatch hno⟩)
      · exact h

theorem settle_session (s : State cap) (i : Sender) :
    (s.settle i).session = s.session ∧ (s.settle i).starts = s.starts := by
  unfold State.settle
  cases i with
  | control n => exact ⟨rfl, rfl⟩
  | turn k =>
      dsimp only
      split <;> exact ⟨rfl, rfl⟩

/-- A step of the session that is no send of a turn. -/
theorem Inv.setSession (h : Inv stream s) {a : Session.Act Sender}
    {x : Session.State Sender cap} (hallowed : allowed a = true)
    (hx : Session.step s.session a = some x) : Inv stream { s with session := x } where
  session := (Session.effect_of_step hx).inv h.session
  calls k := by
    rcases calls_of_effect (Session.effect_of_step hx) (.turn k) with hsame | ⟨req, rfl, -⟩
    · exact hsame.trans (h.calls k)
    · exact nomatch hallowed
  frames c hc := by
    rcases present_of_effect (Session.effect_of_step hx) hc with hold | ⟨i, req, rfl, rfl⟩
    · exact h.frames c hold
    · cases i with
      | turn k => exact nomatch hallowed
      | control n =>
          show req.mt = .messageText
          exact of_decide_eq_true hallowed
  turns := h.turns

/-- The loop sends the chunk it has in hand. -/
theorem Inv.send (h : Inv stream s) {k : Nat} {chunk : Bytes} {req : Session.WriteRequest}
    {x : Session.State Sender cap} (hpc : (s.turns k).pc = .sendAudio chunk)
    (hreq : Session.sendAudio chunk = some req)
    (hx : Session.step s.session (.call (.turn k) req) = some x) :
    Inv stream { s.goto k .sending with
      session := x
      starts := Function.update s.starts k
        (s.starts k ++ [(s.turns k).taken - chunk.length]) } := by
  have hturn := h.turns k
  obtain ⟨hle, hpiece⟩ := hturn.inHand chunk (.inr hpc)
  have hsending : ∀ chunk, Pc.sending ≠ .checkCtx chunk ∧ Pc.sending ≠ .sendAudio chunk :=
    fun chunk => ⟨(fun hno => nomatch hno), fun hno => nomatch hno⟩
  have hturns := (h.setTurn (hturn.pc hsending)).turns
  unfold Session.sendAudio at hreq
  split at hreq
  · exact nomatch hreq
  · rename_i hne
    obtain rfl := Option.some.inj hreq
    refine ⟨(Session.effect_of_step hx).inv h.session, fun j => ?_, fun c hc => ?_, hturns⟩
    · dsimp only
      rcases calls_of_effect (Session.effect_of_step hx) (.turn j) with hsame | ⟨req, hact, hmore⟩
      · by_cases hjk : j = k
        · -- the call is one of this turn
          subst hjk
          cases Session.effect_of_step hx with
          | call i req hidle =>
              rw [Function.update_self]
              dsimp only
              rw [Function.update_self, List.length_append, ← h.calls j]
              rfl
          | other pump done hdone ha => exact absurd rfl (ha (.turn j))
          | push i pc c' q ha hcur hlt hq =>
              rcases ha with ⟨ha, -⟩ | ⟨ha, -⟩ <;> exact nomatch ha
          | closed i pc c' ha hcur hdone =>
              rcases ha with ⟨ha, -⟩ | ⟨ha, -⟩ <;> exact nomatch ha
        · rw [Function.update_of_ne hjk]
          exact hsame.trans (h.calls j)
      · obtain ⟨rfl, -⟩ : k = j ∧ _ := by
          cases hact
          exact ⟨rfl, trivial⟩
        rw [Function.update_self, hmore, List.length_append, ← h.calls k]
        rfl
    · rcases present_of_effect (Session.effect_of_step hx) hc with hold | ⟨i, req, hact, rfl⟩
      · exact (h.frames c hold).snoc k _
      · cases hact
        refine ⟨rfl, hne, (s.turns k).taken - chunk.length, ?_, hpiece⟩
        dsimp only
        rw [Function.update_self, h.calls k, List.getElem?_concat_length]

/-- What is appended to the front of a list goes on from there. -/
theorem prefix_append_take {body front : Bytes} (h : front <+: body) (n : Nat) :
    front ++ (body.drop front.length).take n <+: body := by
  obtain ⟨rest, rfl⟩ := h
  rw [List.drop_left' rfl]
  exact List.prefix_append_right_inj front |>.mpr (List.take_prefix n rest)

theorem prefix_drop_of_append {body front rest : Bytes} (h : front ++ rest <+: body) :
    front <+: body ∧ rest <+: body.drop front.length := by
  refine ⟨(List.prefix_append front rest).trans h, ?_⟩
  obtain ⟨more, rfl⟩ := h
  rw [List.append_assoc, List.drop_left' rfl]
  exact List.prefix_append rest more

/-- A read, up to the send on `out`. -/
theorem TurnOk.reads {body : Bytes} {t : Turn} (h : TurnOk body t) {n : Nat}
    {out : Chan Bytes 64} (hfits : t.read + n ≤ body.length)
    (hout : out.buf = t.out.buf ++ [(body.drop t.read).take n]) :
    TurnOk body { t with read := t.read + n, out := out } := by
  have hread := h.read
  have hflat : out.buf.flatten = t.out.buf.flatten ++ (body.drop t.read).take n := by
    rw [hout, List.flatten_append, List.flatten_singleton]
  refine ⟨?_, ?_, h.inHand⟩
  · show out.buf.flatten <+: body.drop t.taken
    rw [hflat, ← hread, ← List.drop_drop]
    exact prefix_append_take h.buffered n
  · show t.taken + out.buf.flatten.length = t.read + n
    rw [hflat, List.length_append, List.length_take, List.length_drop]
    omega

/-- The loop receives a chunk. -/
theorem TurnOk.recv {body : Bytes} {t : Turn} (h : TurnOk body t) {chunk : Bytes}
    {out : Chan Bytes 64} (hout : t.out.buf = chunk :: out.buf) :
    TurnOk body
      { t with out := out, pc := .checkCtx chunk, taken := t.taken + chunk.length } := by
  have hbuffered := h.buffered
  have hread := h.read
  rw [hout, List.flatten_cons] at hbuffered hread
  obtain ⟨hchunk, hrest⟩ := prefix_drop_of_append hbuffered
  refine ⟨?_, ?_, fun chunk' hpc => ?_⟩
  · rw [List.drop_drop] at hrest
    exact hrest
  · rw [List.length_append] at hread
    show t.taken + chunk.length + out.buf.flatten.length = t.read
    omega
  · obtain rfl : chunk = chunk' := by
      rcases hpc with hpc | hpc
      · exact Pc.checkCtx.inj hpc
      · exact nomatch hpc
    refine ⟨Nat.le_add_left _ _, ?_⟩
    show chunk <+: body.drop (t.taken + chunk.length - chunk.length)
    rw [Nat.add_sub_cancel]
    exact hchunk

theorem inv_step {a : Act} (h : Inv stream s) (hstep : step stream s a = some s') :
    Inv stream s' := by
  cases a with
  | cancel k =>
      obtain rfl := Option.some.inj hstep
      have hturn := h.turns k
      exact h.setTurn ⟨hturn.buffered, hturn.read, hturn.inHand⟩
  | read k n =>
      obtain ⟨⟨-, -, -, hfits⟩, hstep⟩ := Option.ite_none_right_eq_some.mp hstep
      obtain ⟨out, hout, rfl⟩ := Option.map_eq_some_iff.mp hstep
      exact h.setTurn ((h.turns k).reads hfits (Chan.trySend_eq_some.mp hout).2)
  | readCancelled k =>
      obtain ⟨-, rfl⟩ := Machine.of_guard hstep
      have hturn := h.turns k
      exact h.setTurn ⟨hturn.buffered, hturn.read, hturn.inHand⟩
  | readEnds k =>
      obtain ⟨-, rfl⟩ := Machine.of_guard hstep
      have hturn := h.turns k
      exact h.setTurn ⟨hturn.buffered, hturn.read, hturn.inHand⟩
  | recv k =>
      simp only [step] at hstep
      split at hstep
      · rename_i chunk out hpc hout
        obtain rfl := Option.some.inj hstep
        exact h.setTurn ((h.turns k).recv (Chan.tryRecv_eq_some.mp hout))
      · exact nomatch hstep
  | chunksDone k =>
      obtain ⟨-, rfl⟩ := Machine.of_guard hstep
      exact h.setTurn ((h.turns k).pc fun chunk => ⟨(fun hno => nomatch hno),
        fun hno => nomatch hno⟩)
  | checkCtx k =>
      simp only [step] at hstep
      split at hstep
      · rename_i chunk hpc
        obtain rfl := Option.some.inj hstep
        have hturn := h.turns k
        refine h.setTurn ⟨hturn.buffered, hturn.read, fun chunk' hin => ?_⟩
        obtain rfl := chunk_of_checkCtx hin
        exact hturn.inHand chunk (.inl hpc)
      · exact nomatch hstep
  | sendAudio k =>
      simp only [step] at hstep
      split at hstep
      · rename_i chunk hpc
        split at hstep
        · obtain rfl := Option.some.inj hstep
          exact h.setTurn ((h.turns k).pc fun chunk => ⟨(fun hno => nomatch hno),
            fun hno => nomatch hno⟩)
        · rename_i req hreq
          obtain ⟨x, hx, rfl⟩ := Option.map_eq_some_iff.mp hstep
          exact h.send hpc hreq hx
      · exact nomatch hstep
  | session a =>
      simp only [step] at hstep
      split at hstep
      · rename_i hallowed
        obtain ⟨x, hx, rfl⟩ := Option.map_eq_some_iff.mp hstep
        have hset := h.setSession hallowed hx
        split
        · exact hset.settle _
        · exact hset
      · exact nomatch hstep

end Invariant

-- ============================================================================
-- The delivered bytes
-- ============================================================================

section Delivered

variable {stream : Nat → Bytes} {s s' : State cap}

/-- The bytes of a frame of a turn, by their places. -/
theorem data_eq_stretch {k start : Nat} {data : Bytes} (h : data <+: (stream k).drop start) :
    data.map some = (stretch k start data.length).map fun m => (stream m.turn)[m.offset]? := by
  apply List.ext_getElem
  · rw [List.length_map, List.length_map, length_stretch]
  · intro i hi hi'
    rw [List.length_map] at hi
    have hin : i < (stretch k start data.length).length := by
      rw [length_stretch]
      exact hi
    have hplace : (stretch k start data.length)[i] = ⟨k, start + i⟩ :=
      Option.some.inj ((List.getElem?_eq_getElem hin).symm.trans (getElem?_stretch hi))
    rw [List.getElem_map, List.getElem_map, hplace]
    obtain ⟨rest, hrest⟩ := h
    show some data[i] = (stream k)[start + i]?
    rw [← List.getElem?_drop, ← hrest, List.getElem?_append_left hi,
      List.getElem?_eq_getElem hi]

theorem Inv.entered_of_delivered (h : Inv stream s) {c : Session.Call Sender}
    (hc : c ∈ s.delivered) : c ∈ s.session.entered := by
  have hhanded : c ∈ s.session.handed := List.mem_of_mem_filter hc
  have hleft := (Session.handed_sublist s.session).subset hhanded
  rw [h.session.fifo]
  exact List.mem_append_left _ hleft

theorem Inv.present_of_delivered (h : Inv stream s) {c : Session.Call Sender}
    (hc : c ∈ s.delivered) : Present s.session c := .inl (h.entered_of_delivered hc)

theorem startOf_eq {k start : Nat} {c : Session.Call Sender}
    (hget : (s.starts k)[c.seq]? = some start) : s.startOf k c = start := by
  rw [State.startOf, List.getD_eq_getElem?_getD, hget]
  rfl

/-- The delivered bytes are those of the streams. -/
theorem Inv.source (h : Inv stream s) : (s.delivered.flatMap fun c => c.req.data).map some
    = s.places.map fun m => (stream m.turn)[m.offset]? := by
  rw [State.places, List.map_flatMap, List.map_flatMap]
  refine List.flatMap_congr fun c hc => ?_
  have hgood := h.frames c (h.present_of_delivered hc)
  have hbinary : c.req.mt = .messageBinary := of_decide_eq_true (List.mem_filter.mp hc).2
  unfold Good at hgood
  unfold State.placesOf
  split at hgood
  · rename_i k hk
    obtain ⟨-, -, start, hget, hpiece⟩ := hgood
    rw [startOf_eq hget]
    exact data_eq_stretch hpiece
  · exact nomatch hbinary.symm.trans hgood

end Delivered

-- ============================================================================
-- Bodies cut at samples
-- ============================================================================

section Even

variable {stream : Nat → Bytes} {s s' : State cap}

/-- A turn that has only whole samples. -/
structure EvenTurn (t : Turn) : Prop where
  taken : t.taken % 2 = 0
  buffered : ∀ chunk ∈ t.out.buf, chunk.length % 2 = 0
  inHand : ∀ chunk, t.pc = .checkCtx chunk ∨ t.pc = .sendAudio chunk → chunk.length % 2 = 0

/-- The frame of a turn is made of whole samples. -/
def EvenFrame (starts : Nat → List Nat) (c : Session.Call Sender) : Prop :=
  match c.sender with
  | .turn k => c.req.data.length % 2 = 0 ∧ ∀ start, (starts k)[c.seq]? = some start → start % 2 = 0
  | .control _ => True

/-- The invariant of runs with whole reads: what can still go out, and what has gone into
    the queue, is made of whole samples. -/
structure Even (s : State cap) : Prop where
  sending : ∀ k, (s.session.senders (.turn k)).inside ≠ none → (s.turns k).pc = .sending
  turns : ∀ k, s.Feeds k → EvenTurn (s.turns k)
  /-- The check of the context has let the chunk pass. -/
  passed : ∀ k chunk, s.session.done = false → (s.turns k).pc = .sendAudio chunk →
    chunk.length % 2 = 0 ∧ (s.turns k).taken % 2 = 0
  inside : ∀ k pc req, (s.session.senders (.turn k)).inside = some (pc, req) →
    (pc = .checkDone → s.session.done = false) →
    req.data.length % 2 = 0 ∧ ∀ start, (s.starts k).getLast? = some start → start % 2 = 0
  entered : ∀ c ∈ s.session.entered, EvenFrame s.starts c

theorem even_initial (cap : Nat) : Even (initial cap) where
  sending k h := absurd rfl h
  turns k _ := ⟨rfl, fun _ h => absurd h List.not_mem_nil, fun chunk h => by
    rcases h with h | h <;> exact nomatch h⟩
  passed k chunk _ h := nomatch h
  inside k pc req h := nomatch h
  entered c h := absurd h List.not_mem_nil

/-- A turn that goes on. -/
theorem Even.setTurn (h : Even s) {k : Nat} {t : Turn}
    (hpc : (s.session.senders (.turn k)).inside ≠ none → t.pc = .sending)
    (hturn : s.session.done = false → t.cancelled = false → t.pc ≠ .finished → EvenTurn t)
    (hpassed : ∀ chunk, s.session.done = false → t.pc = .sendAudio chunk →
      chunk.length % 2 = 0 ∧ t.taken % 2 = 0) : Even (s.setTurn k t) where
  sending j hin := by
    show (Function.update s.turns k t j).pc = .sending
    by_cases hjk : j = k
    · subst hjk
      rw [Function.update_self]
      exact hpc hin
    · rw [Function.update_of_ne hjk]
      exact h.sending j hin
  turns j hfeeds := by
    obtain ⟨hopen, hlive, hloops⟩ := hfeeds
    show EvenTurn (Function.update s.turns k t j)
    have hlive' : (Function.update s.turns k t j).cancelled = false := hlive
    have hloops' : (Function.update s.turns k t j).pc ≠ .finished := hloops
    by_cases hjk : j = k
    · subst hjk
      rw [Function.update_self] at hlive' hloops' ⊢
      exact hturn hopen hlive' hloops'
    · rw [Function.update_of_ne hjk] at hlive' hloops' ⊢
      exact h.turns j ⟨hopen, hlive', hloops'⟩
  passed j chunk hopen hin := by
    show chunk.length % 2 = 0 ∧ (Function.update s.turns k t j).taken % 2 = 0
    have hin' : (Function.update s.turns k t j).pc = .sendAudio chunk := hin
    by_cases hjk : j = k
    · subst hjk
      rw [Function.update_self] at hin' ⊢
      exact hpassed chunk hopen hin'
    · rw [Function.update_of_ne hjk] at hin' ⊢
      exact h.passed j chunk hopen hin'
  inside := h.inside
  entered := h.entered

theorem EvenTurn.pc {t : Turn} (h : EvenTurn t) {pc : Pc}
    (hpc : ∀ chunk, pc ≠ .checkCtx chunk ∧ pc ≠ .sendAudio chunk) :
    EvenTurn { t with pc := pc } where
  taken := h.taken
  buffered := h.buffered
  inHand chunk hin := by
    rcases hin with hin | hin
    · exact absurd hin (hpc chunk).1
    · exact absurd hin (hpc chunk).2

/-- The loop goes on to a place without a chunk. -/
theorem Even.goto (h : Even s) {k : Nat} {pc : Pc} (hfrom : (s.turns k).pc ≠ .finished)
    (hpc : (s.session.senders (.turn k)).inside ≠ none → pc = .sending)
    (hchunk : ∀ chunk, pc ≠ .checkCtx chunk ∧ pc ≠ .sendAudio chunk) : Even (s.goto k pc) := by
  refine h.setTurn hpc (fun hopen hlive _ => ?_) fun chunk _ hin => absurd hin (hchunk chunk).2
  exact (h.turns k ⟨hopen, hlive, hfrom⟩).pc hchunk

/-- Where the loop is elsewhere, the turn is in no call of `enqueue`. -/
theorem Even.outside (h : Even s) {k : Nat} (hpc : (s.turns k).pc ≠ .sending) {P : Prop} :
    (s.session.senders (.turn k)).inside ≠ none → P :=
  fun hin => absurd (h.sending k hin) hpc

/-- `enqueue` may have returned to its sender. -/
theorem Even.settle (h : Even s) {i : Sender}
    (hpc : ∀ k, i = .turn k → (s.turns k).pc = .sending) : Even (s.settle i) := by
  unfold State.settle
  cases i with
  | control n => exact h
  | turn k =>
      have hsending := hpc k rfl
      dsimp only
      split
      · rename_i hin _
        exact h.goto (by rw [hsending]; simp) (fun hno => absurd hin hno)
          fun chunk => ⟨(fun hno => nomatch hno), fun hno => nomatch hno⟩
      · rename_i hin _
        exact h.goto (by rw [hsending]; simp) (fun hno => absurd hin hno)
          fun chunk => ⟨(fun hno => nomatch hno), fun hno => nomatch hno⟩
      · exact h

/-- A step of the session that is no send of a turn. -/
theorem Even.setSession (h : Even s) (hinv : Inv stream s) {a : Session.Act Sender}
    {x : Session.State Sender cap} (hallowed : allowed a = true)
    (hx : Session.step s.session a = some x) : Even { s with session := x } := by
  have heff := Session.effect_of_step hx
  have hnocall : ∀ {k req}, a ≠ .call (.turn k) req := by
    rintro k req rfl
    exact nomatch hallowed
  refine ⟨fun k hin => ?_, fun k hfeeds => ?_, fun k chunk hopen hpc => ?_,
    fun k pc req hin hpc => ?_, fun c hc => ?_⟩
  · obtain ⟨⟨pc, req⟩, hreq⟩ := Option.ne_none_iff_exists'.mp hin
    rcases inside_of_effect heff hreq with ⟨pc', hbefore, -⟩ | ⟨hcall, -⟩
    · exact h.sending k (by rw [hbefore]; simp)
    · exact absurd hcall hnocall
  · exact h.turns k ⟨open_of_effect heff hfeeds.isOpen, hfeeds.live, hfeeds.loops⟩
  · exact h.passed k chunk (open_of_effect heff hopen) hpc
  · rcases inside_of_effect heff hin with ⟨pc', hbefore, hpass⟩ | ⟨hcall, -⟩
    · refine h.inside k pc' req hbefore fun hcheck => ?_
      rcases hpass hcheck with hpc' | hopen
      · exact open_of_effect heff (hpc hpc')
      · exact hopen
    · exact absurd hcall hnocall
  · rcases entered_of_effect heff with hsame | ⟨i, pc, c', hcur, hpc, hmore⟩
    · exact h.entered c (hsame ▸ hc)
    · have hc' : c ∈ s.session.entered ++ [c'] := hmore ▸ hc
      rcases List.mem_append.mp hc' with hold | hnew
      · exact h.entered c hold
      · obtain rfl := List.mem_singleton.mp hnew
        have hsender := Session.State.current_sender hcur
        obtain ⟨hin, hseq⟩ := Session.State.current_inside hcur
        unfold EvenFrame
        split
        · rename_i k hk
          obtain rfl : i = .turn k := hsender.symm.trans hk
          obtain ⟨hlen, hstart⟩ := h.inside k pc c.req hin fun hcheck => absurd hcheck hpc
          refine ⟨hlen, fun start hget => hstart start ?_⟩
          rw [hseq, hinv.calls k, ← List.getLast?_eq_getElem?] at hget
          exact hget
        · trivial

/-- More sends leave the frames that are there what they are. -/
theorem EvenFrame.snoc {starts : Nat → List Nat} {c : Session.Call Sender}
    (h : EvenFrame starts c) (hgood : Good stream starts c) (k start : Nat) :
    EvenFrame (Function.update starts k (starts k ++ [start])) c := by
  unfold EvenFrame at h ⊢
  unfold Good at hgood
  split at h
  · rename_i j hj
    rw [hj] at hgood
    obtain ⟨-, -, start', hget, -⟩ := hgood
    refine ⟨h.1, fun start'' hget' => h.2 start'' ?_⟩
    by_cases hjk : j = k
    · subst hjk
      rw [Function.update_self, List.getElem?_append_left (List.getElem?_eq_some_iff.mp hget).1]
        at hget'
      exact hget'
    · rw [Function.update_of_ne hjk] at hget'
      exact hget'
  · trivial

/-- A turn sends whole samples from the start of one, if the session is open. -/
theorem Even.send (h : Even s) (hinv : Inv stream s) {k : Nat} {chunk : Bytes}
    {req : Session.WriteRequest} {x : Session.State Sender cap}
    (hpc : (s.turns k).pc = .sendAudio chunk) (hreq : Session.sendAudio chunk = some req)
    (hx : Session.step s.session (.call (.turn k) req) = some x) :
    Even { s.goto k .sending with
      session := x
      starts := Function.update s.starts k
        (s.starts k ++ [(s.turns k).taken - chunk.length]) } := by
  have heff := Session.effect_of_step hx
  have hloop : (s.turns k).pc ≠ .finished := by simp [hpc]
  have hgo := h.goto hloop (fun _ => rfl)
    fun chunk => ⟨(fun hno => nomatch hno), fun hno => nomatch hno⟩
  have hdata : req.data = chunk := by
    unfold Session.sendAudio at hreq
    split at hreq
    · exact nomatch hreq
    · obtain rfl := Option.some.inj hreq
      rfl
  refine ⟨fun j hin => ?_, fun j hfeeds => ?_, fun j chunk' hopen hj => ?_,
    fun j pc req' hin hcheck => ?_, fun c hc => ?_⟩
  · by_cases hjk : j = k
    · rw [hjk]
      show (Function.update s.turns k _ k).pc = .sending
      rw [Function.update_self]
    · obtain ⟨⟨pc, req'⟩, hreq'⟩ := Option.ne_none_iff_exists'.mp hin
      rcases inside_of_effect heff hreq' with ⟨pc', hbefore, -⟩ | ⟨hcall, -⟩
      · have hinside : (s.session.senders (.turn j)).inside ≠ none := by
          rw [hbefore]
          simp
        exact hgo.sending j hinside
      · cases hcall
        exact absurd rfl hjk
  · exact hgo.turns j ⟨open_of_effect heff hfeeds.isOpen, hfeeds.live, hfeeds.loops⟩
  · exact hgo.passed j chunk' (open_of_effect heff hopen) hj
  · dsimp only
    rcases inside_of_effect heff hin with ⟨pc', hbefore, hpass⟩ | ⟨hcall, hpc'⟩
    · have hjk : j ≠ k := by
        rintro rfl
        have hinside : (s.session.senders (.turn j)).inside ≠ none := by
          rw [hbefore]
          simp
        exact nomatch (h.sending j hinside).symm.trans hpc
      rw [Function.update_of_ne hjk]
      refine h.inside j pc' req' hbefore fun hcheck' => ?_
      rcases hpass hcheck' with hsame | hopen
      · exact open_of_effect heff (hcheck hsame)
      · exact hopen
    · cases hcall
      obtain ⟨hchunk, htaken⟩ := h.passed k chunk (open_of_effect heff (hcheck hpc')) hpc
      rw [Function.update_self, List.getLast?_concat, hdata]
      refine ⟨hchunk, fun start hstart => ?_⟩
      obtain rfl := Option.some.inj hstart
      omega
  · have hbefore : c ∈ s.session.entered := entered_of_call hx ▸ hc
    exact (h.entered c hbefore).snoc (hinv.frames c (.inl hbefore)) k _

theorem Even.step {a : Act} (h : Even s) (hinv : Inv stream s) (hwhole : WholeReads s a)
    (hstep : step stream s a = some s') : Even s' := by
  cases a with
  | cancel k =>
      obtain rfl := Option.some.inj hstep
      exact h.setTurn (h.sending k) (fun _ hlive _ => nomatch hlive)
        fun chunk hopen hpc => h.passed k chunk hopen hpc
  | read k n =>
      obtain ⟨⟨-, -, -, hfits⟩, hstep⟩ := Option.ite_none_right_eq_some.mp hstep
      obtain ⟨out, hout, rfl⟩ := Option.map_eq_some_iff.mp hstep
      refine h.setTurn (h.sending k) (fun hopen hlive hloops => ?_)
        fun chunk hopen hpc => h.passed k chunk hopen hpc
      have hfeeds : s.Feeds k := ⟨hopen, hlive, hloops⟩
      have hturn := h.turns k hfeeds
      have hn : n % 2 = 0 := hwhole hfeeds
      refine ⟨hturn.taken, fun chunk hin => ?_, hturn.inHand⟩
      dsimp only at hin
      rw [(Chan.trySend_eq_some.mp hout).2] at hin
      rcases List.mem_append.mp hin with hin | hin
      · exact hturn.buffered chunk hin
      · rw [List.mem_singleton.mp hin, List.length_take, List.length_drop,
          Nat.min_eq_left (by omega)]
        exact hn
  | readCancelled k =>
      obtain ⟨-, rfl⟩ := Machine.of_guard hstep
      refine h.setTurn (h.sending k) (fun hopen hlive hloops => ?_)
        fun chunk hopen hpc => h.passed k chunk hopen hpc
      have hturn := h.turns k ⟨hopen, hlive, hloops⟩
      exact ⟨hturn.taken, hturn.buffered, hturn.inHand⟩
  | readEnds k =>
      obtain ⟨-, rfl⟩ := Machine.of_guard hstep
      refine h.setTurn (h.sending k) (fun hopen hlive hloops => ?_)
        fun chunk hopen hpc => h.passed k chunk hopen hpc
      have hturn := h.turns k ⟨hopen, hlive, hloops⟩
      exact ⟨hturn.taken, hturn.buffered, hturn.inHand⟩
  | recv k =>
      simp only [Downlink.step] at hstep
      split at hstep
      · rename_i chunk out hpc hout
        obtain rfl := Option.some.inj hstep
        refine h.setTurn (h.outside (by simp [hpc])) (fun hopen hlive _ => ?_)
          fun chunk _ hno => nomatch hno
        have hturn := h.turns k ⟨hopen, hlive, by simp [hpc]⟩
        have hbuf := Chan.tryRecv_eq_some.mp hout
        have hchunk := hturn.buffered chunk (by rw [hbuf]; exact List.mem_cons_self)
        have htaken := hturn.taken
        refine ⟨?_, fun chunk' hin => ?_, fun chunk' hin => ?_⟩
        · show ((s.turns k).taken + chunk.length) % 2 = 0
          omega
        · refine hturn.buffered chunk' ?_
          rw [hbuf]
          exact List.mem_cons_of_mem _ hin
        · rcases hin with hin | hin
          · rw [← Pc.checkCtx.inj hin]
            exact hchunk
          · exact nomatch hin
      · exact nomatch hstep
  | chunksDone k =>
      obtain ⟨⟨hpc, -⟩, rfl⟩ := Machine.of_guard hstep
      exact h.goto (by simp [hpc]) (h.outside (by simp [hpc]))
        fun chunk => ⟨(fun hno => nomatch hno), fun hno => nomatch hno⟩
  | checkCtx k =>
      simp only [Downlink.step] at hstep
      split at hstep
      · rename_i chunk hpc
        obtain rfl := Option.some.inj hstep
        have hturn : s.session.done = false → (s.turns k).cancelled = false →
            EvenTurn (s.turns k) := fun hopen hlive => h.turns k ⟨hopen, hlive, by simp [hpc]⟩
        refine h.setTurn (h.outside (by simp [hpc])) (fun hopen hlive _ => ?_)
          fun chunk' hopen hin => ?_
        · have heven := hturn hopen hlive
          refine ⟨heven.taken, heven.buffered, fun chunk' hin => ?_⟩
          obtain rfl := chunk_of_checkCtx hin
          exact heven.inHand chunk (.inl hpc)
        · obtain rfl := chunk_of_checkCtx (.inr hin)
          have hlive : (s.turns k).cancelled = false := by
            cases hctx : (s.turns k).cancelled with
            | false => rfl
            | true =>
                rw [hctx] at hin
                exact nomatch hin
          have heven := hturn hopen hlive
          exact ⟨heven.inHand chunk (.inl hpc), heven.taken⟩
      · exact nomatch hstep
  | sendAudio k =>
      simp only [Downlink.step] at hstep
      split at hstep
      · rename_i chunk hpc
        split at hstep
        · obtain rfl := Option.some.inj hstep
          exact h.goto (by simp [hpc]) (h.outside (by simp [hpc]))
            fun chunk => ⟨(fun hno => nomatch hno), fun hno => nomatch hno⟩
        · rename_i req hreq
          obtain ⟨x, hx, rfl⟩ := Option.map_eq_some_iff.mp hstep
          exact h.send hinv hpc hreq hx
      · exact nomatch hstep
  | session a =>
      simp only [Downlink.step] at hstep
      split at hstep
      · rename_i hallowed
        obtain ⟨x, hx, rfl⟩ := Option.map_eq_some_iff.mp hstep
        have hset := h.setSession hinv hallowed hx
        split
        · rename_i i hi
          refine hset.settle ?_
          rintro k rfl
          exact h.sending k (inside_of_enqueue (Session.effect_of_step hx) hi)
        · exact hset
      · exact nomatch hstep

/-- The delivered frames are whole samples. -/
theorem Even.aligned (h : Even s) (hinv : Inv stream s) : Aligned s.places := by
  refine aligned_flatMap fun c hc => ?_
  have hgood := hinv.frames c (hinv.present_of_delivered hc)
  have hframe := h.entered c (hinv.entered_of_delivered hc)
  unfold Good at hgood
  unfold EvenFrame at hframe
  unfold State.placesOf
  split at hgood
  · rename_i k hk
    rw [hk] at hframe
    obtain ⟨-, -, start, hget, -⟩ := hgood
    rw [startOf_eq hget]
    exact aligned_stretch (hframe.2 start hget) hframe.1
  · exact aligned_samples []

/-- **The module gets whole samples where the bodies are cut at samples.**  Any streams,
    any queue, any frames dropped, any turns and cancellations: it is enough that every
    read of a turn whose bytes can still go out gives an even number of bytes. -/
theorem sampleAligned_of_wholeReads (stream : Nat → Bytes) (cap : Nat) (as : List Act)
    (hreads : (machine stream cap).Guarded WholeReads (initial cap) as) :
    (machine stream cap).Always (SampleAligned stream) (initial cap) as :=
  (Machine.always_of_guarded (I := fun s => Inv stream s ∧ Even s)
    (fun _ _ _ h hwhole hstep => ⟨inv_step h.1 hstep, h.2.step h.1 hwhole hstep⟩) hreads
    ⟨inv_initial stream cap, even_initial cap⟩).mono fun _ h => ⟨h.1.source, h.2.aligned h.1⟩

end Even

/-- A body of two samples, for every turn. -/
def twoSamples : Nat → Bytes := fun _ => [1, 0, 2, 0]

/-- The turn reads `n` bytes and sends them, up to the second `select` of `enqueue`. -/
def sends (n : Nat) : List Act :=
  [.read 0 n, .recv 0, .checkCtx 0, .sendAudio 0, .session (.checkDone (.turn 0)),
    .session (.tryQueue (.turn 0))]

/-- The WebSocket takes a frame. -/
def writes : List Act := [.session .pumpRecv, .session (.pumpWrite true)]

/-- A body read a sample at a time: the queue is full when the second chunk comes, the
    first is dropped, and what the module gets is the second sample. -/
theorem sampleAligned_of_wholeReads_overflow :
    (machine twoSamples 1).Always (SampleAligned twoSamples) (initial 1)
      (sends 2 ++ sends 2 ++
        [.session (.dropOldest (.turn 0)), .session (.lastSend (.turn 0))] ++ writes) := by
  apply sampleAligned_of_wholeReads
  simp [sends, writes, Machine.Guarded, WholeReads]

/-- The queue is full when the second chunk comes: the first, of one byte, is dropped,
    and the module gets the high byte of the first sample first. -/
theorem dropped_byte_shifts :
    ∃ s, (machine twoSamples 1).run (initial 1) (sends 1 ++ sends 3 ++
        [.session (.dropOldest (.turn 0)), .session (.lastSend (.turn 0))] ++ writes) = some s ∧
      s.places = [⟨0, 1⟩, ⟨0, 2⟩, ⟨0, 3⟩] ∧ ¬ SampleAligned twoSamples s := by
  obtain ⟨s, hs⟩ : ∃ s, (machine twoSamples 1).run (initial 1) (sends 1 ++ sends 3 ++
      [.session (.dropOldest (.turn 0)), .session (.lastSend (.turn 0))] ++ writes) = some s :=
    ⟨_, rfl⟩
  have hplaces : s.places = [⟨0, 1⟩, ⟨0, 2⟩, ⟨0, 3⟩] := by
    cases hs
    rfl
  refine ⟨s, hs, hplaces, fun h => ?_⟩
  have hparity := h.aligned.parity 0 ⟨0, 1⟩ (by rw [hplaces]; rfl)
  exact nomatch hparity

end FsBridge.Pipeline.Downlink
