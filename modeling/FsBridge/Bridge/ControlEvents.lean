/-
  FsBridge.Bridge.ControlEvents

  The events a control client gets when no bus is configured (bridge/control.go,
  `ServeHTTP`): each client has a goroutine that receives from the one channel
  `ESLClient.Events` returns and writes to that client.  An event is received once,
  by any of these goroutines; and since the channel is never closed, the goroutine
  of a client outlives the client.

  Events are numbered in the order of their arrival.  `arrived` and `joined` are
  history: no step reads them.  A write that fails closes the connection, so it is
  a write behind a `disconnect`.
-/

import Mathlib.Logic.Function.Basic
import FsBridge.Bridge.CallEvents

namespace FsBridge.Bridge.ControlEvents

open FsBridge.Lib

/-- Where the goroutine of a client is. -/
inductive ForwarderPc where
  /-- At the `range` over the channel. -/
  | receiving
  /-- Before `conn.Write` of the event with that number. -/
  | writing (n : Nat)
deriving DecidableEq

/-- A control client and its goroutine. -/
structure Client where
  /-- `ServeHTTP` has not returned, and the connection is up. -/
  connected : Bool
  /-- How many events had arrived when the client connected. -/
  joined : Nat
  forwarder : ForwarderPc
  /-- The numbers of the events written to the client. -/
  written : List Nat

structure State where
  /-- The channel `Events` returns, the events with their numbers. -/
  eventsCh : Chan (Nat × EslEvent) eventsCap
  /-- All events that have arrived. -/
  arrived : List EslEvent
  clients : Nat → Option Client

inductive Act where
  /-- The read loop of the ESL client offers an event to the channel. -/
  | arrive (ev : EslEvent)
  | connect (i : Nat)
  | disconnect (i : Nat)
  /-- The goroutine of client `i` receives an event. -/
  | take (i : Nat)
  | write (i : Nat)

def State.setClient (s : State) (i : Nat) (c : Client) : State :=
  { s with clients := Function.update s.clients i (some c) }

def step (s : State) : Act → Option State
  | .arrive ev =>
      match s.eventsCh.trySend (s.arrived.length, ev) with
      | some ch => some { s with eventsCh := ch, arrived := s.arrived ++ [ev] }
      | none => some { s with arrived := s.arrived ++ [ev] }
  | .connect i =>
      match s.clients i with
      | none => some (s.setClient i ⟨true, s.arrived.length, .receiving, []⟩)
      | some _ => none
  | .disconnect i =>
      match s.clients i with
      | some c => if c.connected then some (s.setClient i { c with connected := false }) else none
      | none => none
  | .take i =>
      match s.clients i, s.eventsCh.tryRecv with
      | some c, some ((n, ev), ch) =>
          if c.forwarder = .receiving then
            match eslToCallEvent ev with
            | none => some { s with eventsCh := ch }
            | some _ =>
                some { s.setClient i { c with forwarder := .writing n } with eventsCh := ch }
          else none
      | _, _ => none
  | .write i =>
      match s.clients i with
      | some c =>
          match c.forwarder with
          | .writing n => some (s.setClient i { c with
              forwarder := .receiving
              written := if c.connected then c.written ++ [n] else c.written })
          | .receiving => none
      | none => none

def initial : State := ⟨.empty, [], fun _ => none⟩

/-- A control server without a bus, and its clients. -/
def machine : Machine State Act where
  init := initial
  step := step

-- ============================================================================
-- Delivery
-- ============================================================================

/-- The event with that number is surfaced by `eslToCallEvent`. -/
def State.surfaced (s : State) (n : Nat) : Prop :=
  ∃ ev, s.arrived[n]? = some ev ∧ (eslToCallEvent ev).isSome = true

/-- The event with that number has not been forwarded yet. -/
def State.pending (s : State) (n : Nat) : Prop :=
  n ∈ s.eventsCh.buf.map Prod.fst ∨
    ∃ j c, s.clients j = some c ∧ c.forwarder = .writing n

/-- Every event that is surfaced has been written to each client that has been
    connected since before it arrived, or has still to be forwarded. -/
def Delivered (s : State) : Prop :=
  ∀ i c n, s.clients i = some c → c.connected = true → c.joined ≤ n → s.surfaced n →
    n ∈ c.written ∨ s.pending n

/-- An event is received by the goroutine of a client that is connected. -/
def ReceivedConnected (s : State) (a : Act) : Prop :=
  ∀ i c, a = .take i → s.clients i = some c → c.connected = true

/-- When an event that is surfaced arrives there is room for it, or nobody to write
    it to. -/
def RoomOrNobody (s : State) (ev : EslEvent) : Prop :=
  (eslToCallEvent ev).isSome = true →
    s.eventsCh.buf.length < eventsCap ∨ ∀ j c, s.clients j = some c → c.connected = false

/-- When the event at the head of the channel is received for client `i`, no client
    has disconnected, and if the event is surfaced, no other client was there before
    it arrived. -/
def Uncontended (s : State) (i : Nat) : Prop :=
  ∀ j c, s.clients j = some c →
    c.connected = true ∧ ∀ p ∈ s.eventsCh.buf.head?,
      (eslToCallEvent p.2).isSome = true → c.joined ≤ p.1 → j = i

def EventGuard (s : State) : Act → Prop
  | .arrive ev => RoomOrNobody s ev
  | .take i => Uncontended s i
  | _ => True

-- ============================================================================
-- The invariant
-- ============================================================================

structure Inv (s : State) : Prop where
  numbered : ∀ p ∈ s.eventsCh.buf, s.arrived[p.1]? = some p.2
  /-- What a client has still to get is in the channel or with its own goroutine. -/
  owed : ∀ i c n, s.clients i = some c → c.connected = true → c.joined ≤ n → s.surfaced n →
    n ∈ c.written ∨ n ∈ s.eventsCh.buf.map Prod.fst ∨ c.forwarder = .writing n

theorem inv_initial : Inv initial where
  numbered := fun _ hp => absurd hp List.not_mem_nil
  owed := fun _ _ _ hc _ _ _ => nomatch hc

theorem Inv.delivered {s : State} (h : Inv s) : Delivered s := by
  intro i c n hc hconn hjoined hsurf
  rcases h.owed i c n hc hconn hjoined hsurf with hw | hch | hpc
  · exact .inl hw
  · exact .inr (.inl hch)
  · exact .inr (.inr ⟨i, c, hc, hpc⟩)

theorem surfaced_of_snoc {s : State} {ev : EslEvent} {ch : Chan (Nat × EslEvent) eventsCap}
    {n : Nat} (h : State.surfaced { s with eventsCh := ch, arrived := s.arrived ++ [ev] } n)
    (hn : n ≠ s.arrived.length) : s.surfaced n := by
  obtain ⟨e, he, hsome⟩ := h
  refine ⟨e, ?_, hsome⟩
  have hlt : n < (s.arrived ++ [ev]).length := (List.getElem?_eq_some_iff.mp he).1
  rw [List.length_append, List.length_singleton] at hlt
  rwa [← List.getElem?_append_left (by omega : n < s.arrived.length)]

/-- A client that changes keeps what it is owed. -/
theorem Inv.setClient {s : State} (h : Inv s) {i : Nat} {c' : Client}
    {ch : Chan (Nat × EslEvent) eventsCap} (hnum : ∀ p ∈ ch.buf, s.arrived[p.1]? = some p.2)
    (hother : ∀ j c n, j ≠ i → s.clients j = some c → c.connected = true → c.joined ≤ n →
      s.surfaced n → n ∈ s.eventsCh.buf.map Prod.fst → n ∈ ch.buf.map Prod.fst)
    (hself : ∀ n, c'.connected = true → c'.joined ≤ n → s.surfaced n →
      n ∈ c'.written ∨ n ∈ ch.buf.map Prod.fst ∨ c'.forwarder = .writing n) :
    Inv { s.setClient i c' with eventsCh := ch } := by
  refine ⟨hnum, fun j x n hx hconn hjoined hsurf => ?_⟩
  by_cases hj : j = i
  · subst hj
    have hself' : Function.update s.clients j (some c') j = some x := hx
    rw [Function.update_self] at hself'
    cases hself'
    exact hself n hconn hjoined hsurf
  · have hsame : Function.update s.clients i (some c') j = some x := hx
    rw [Function.update_of_ne hj] at hsame
    rcases h.owed j x n hsame hconn hjoined hsurf with hw | hch | hpc
    · exact .inl hw
    · exact .inr (.inl (hother j x n hj hsame hconn hjoined hsurf hch))
    · exact .inr (.inr hpc)

theorem Inv.arrive {s s' : State} {ev : EslEvent} (h : Inv s) (hguard : RoomOrNobody s ev)
    (hs : step s (.arrive ev) = some s') : Inv s' := by
  have hkeep : ∀ p ∈ s.eventsCh.buf, (s.arrived ++ [ev])[p.1]? = some p.2 := by
    intro p hp
    have hold := h.numbered p hp
    rwa [List.getElem?_append_left (List.getElem?_eq_some_iff.mp hold).1]
  simp only [step] at hs
  split at hs
  · rename_i ch hch
    obtain ⟨-, hbuf⟩ := Chan.trySend_eq_some.mp hch
    cases hs
    refine ⟨fun p hp => ?_, fun i c n hc hconn hjoined hsurf => ?_⟩
    · have hp' : p ∈ ch.buf := hp
      rw [hbuf, List.mem_append] at hp'
      rcases hp' with hp' | hp'
      · exact hkeep p hp'
      · obtain rfl := List.mem_singleton.mp hp'
        simp
    · show n ∈ c.written ∨ n ∈ ch.buf.map Prod.fst ∨ c.forwarder = .writing n
      by_cases hn : n = s.arrived.length
      · subst hn
        exact .inr (.inl (by simp [hbuf]))
      · rcases h.owed i c n hc hconn hjoined (surfaced_of_snoc hsurf hn) with hw | hold | hpc
        · exact .inl hw
        · exact .inr (.inl (by
            rw [hbuf, List.map_append]
            exact List.mem_append_left _ hold))
        · exact .inr (.inr hpc)
  · rename_i hch
    cases hs
    refine ⟨hkeep, fun i c n hc hconn hjoined hsurf => ?_⟩
    have hfull := Chan.trySend_eq_none.mp hch
    by_cases hn : n = s.arrived.length
    · -- the event is dropped, so it is not surfaced or nobody is connected
      subst hn
      obtain ⟨e, he, hsome⟩ := hsurf
      have hlast : (s.arrived ++ [ev])[s.arrived.length]? = some e := he
      rw [List.getElem?_concat_length] at hlast
      cases hlast
      rcases hguard hsome with hroom | hnobody
      · omega
      · exact absurd ((hnobody i c hc).symm.trans hconn) (by decide)
    · exact h.owed i c n hc hconn hjoined (surfaced_of_snoc hsurf hn)

theorem Inv.take {s s' : State} {i : Nat} (h : Inv s) (hguard : Uncontended s i)
    (hs : step s (.take i) = some s') : Inv s' := by
  simp only [step] at hs
  split at hs
  · rename_i c n ev ch hc hrecv
    have hbuf := Chan.tryRecv_eq_some.mp hrecv
    have hnum : ∀ p ∈ ch.buf, s.arrived[p.1]? = some p.2 := fun p hp =>
      h.numbered p (hbuf ▸ List.mem_cons_of_mem _ hp)
    have hhead : s.arrived[n]? = some ev := h.numbered (n, ev) (hbuf ▸ List.mem_cons_self)
    -- what is in the channel is the event that is received, or stays there
    have hrest : ∀ m, m ∈ s.eventsCh.buf.map Prod.fst → m = n ∨ m ∈ ch.buf.map Prod.fst := by
      intro m hm
      rw [hbuf, List.map_cons] at hm
      exact List.mem_cons.mp hm
    split at hs
    · rename_i hpc
      split at hs
      · rename_i hnone
        cases hs
        refine ⟨hnum, fun j x m hx hconn hjoined hsurf => ?_⟩
        rcases h.owed j x m hx hconn hjoined hsurf with hw | hm | hpc
        · exact .inl hw
        · rcases hrest m hm with rfl | hm
          · obtain ⟨e, he, hsome⟩ := hsurf
            have he' : s.arrived[m]? = some e := he
            obtain rfl : ev = e := Option.some.inj (hhead.symm.trans he')
            rw [hnone] at hsome
            exact absurd hsome (by simp)
          · exact .inr (.inl hm)
        · exact .inr (.inr hpc)
      · rename_i e he
        have hsome : (eslToCallEvent ev).isSome = true := by rw [he]; rfl
        cases hs
        refine h.setClient hnum (fun j x m hj hx hconn hjoined hsurf hm => ?_)
          (fun m hconn hjoined hsurf => ?_)
        · rcases hrest m hm with rfl | hm
          · exact absurd ((hguard j x hx).2 (m, ev) (by rw [hbuf]; rfl) hsome hjoined) hj
          · exact hm
        · rcases h.owed i c m hc hconn hjoined hsurf with hw | hm | hold
          · exact .inl hw
          · rcases hrest m hm with rfl | hm
            · exact .inr (.inr rfl)
            · exact .inr (.inl hm)
          · rw [hpc] at hold
            exact absurd hold (by simp)
    · exact absurd hs (by simp)
  · exact absurd hs (by simp)

theorem Inv.step {s s' : State} {a : Act} (h : Inv s) (hguard : EventGuard s a)
    (hs : ControlEvents.step s a = some s') : Inv s' := by
  cases a with
  | arrive ev => exact h.arrive hguard hs
  | take i => exact h.take hguard hs
  | connect i =>
      simp only [ControlEvents.step] at hs
      split at hs
      · cases hs
        refine h.setClient h.numbered (fun _ _ _ _ _ _ _ _ hm => hm) (fun n _ hjoined hsurf => ?_)
        -- the client is owed nothing that arrived before it
        obtain ⟨e, he, -⟩ := hsurf
        have hlt : n < s.arrived.length := (List.getElem?_eq_some_iff.mp he).1
        have hge : s.arrived.length ≤ n := hjoined
        omega
      · exact absurd hs (by simp)
  | disconnect i =>
      simp only [ControlEvents.step] at hs
      split at hs
      · simp only [Option.ite_none_right_eq_some, Option.some.injEq] at hs
        obtain ⟨-, rfl⟩ := hs
        exact h.setClient h.numbered (fun _ _ _ _ _ _ _ _ hm => hm)
          (fun n hconn => absurd hconn (by simp))
      · exact absurd hs (by simp)
  | write i =>
      simp only [ControlEvents.step] at hs
      split at hs
      · rename_i c hc
        split at hs
        · rename_i m hpc
          cases hs
          refine h.setClient h.numbered (fun _ _ _ _ _ _ _ _ hm => hm)
            (fun n hconn hjoined hsurf => ?_)
          have hup : c.connected = true := hconn
          show n ∈ (if c.connected then c.written ++ [m] else c.written) ∨ _
          rw [if_pos hup]
          rcases h.owed i c n hc hconn hjoined hsurf with hw | hm | hold
          · exact .inl (List.mem_append_left _ hw)
          · exact .inr (.inl hm)
          · rw [hpc] at hold
            cases hold
            exact .inl (List.mem_append_right _ List.mem_cons_self)
        · exact absurd hs (by simp)
      · exact absurd hs (by simp)

-- ============================================================================
-- Runs
-- ============================================================================

/-- Without a bus every control client sees every event, in every run whose steps
    meet the guard, and the goroutine of a client that is gone receives nothing. -/
theorem control_events_delivered {schedule : List Act}
    (hguard : machine.Guarded EventGuard initial schedule) :
    machine.Always Delivered initial schedule ∧
      machine.Guarded ReceivedConnected initial schedule := by
  constructor
  · have halways := Machine.always_of_guarded
      (fun s a s' (hinv : Inv s) hg hs => hinv.step hg hs) hguard inv_initial
    exact halways.mono fun s hinv => hinv.delivered
  · refine hguard.mono fun s a hg i c ha hc => ?_
    subst ha
    exact (hg i c hc).1

def answered : EslEvent :=
  ⟨ascii "CHANNEL_ANSWER", Json.StringMap.empty.insert (ascii "Unique-ID") (ascii "a")⟩

/-- What is decoded of an event with a null header. -/
def created : EslEvent :=
  ⟨ascii "CHANNEL_CREATE", (Json.StringMap.empty.insert (ascii "Event-Name")
    (ascii "CHANNEL_CREATE")).insert (ascii "variable_sip_to") []⟩

example : readEvent (.obj createMembers) = some created := rfl

/-- No call event. -/
def heartbeat : EslEvent := ⟨ascii "HEARTBEAT", .empty⟩

/-- Client 1 connects while the two events of a call are on their way to client 0, and
    its goroutine receives one that is not surfaced. -/
def twoClients : List Act :=
  [.connect 0, .arrive created, .arrive answered, .connect 1, .take 0, .write 0, .take 0,
    .write 0, .arrive heartbeat, .take 1]

/-- Where only two clients have been there, a client is one of them. -/
theorem client_of_two {s : State} {c₀ c₁ c : Client} {j : Nat} (h0 : s.clients 0 = some c₀)
    (h1 : s.clients 1 = some c₁) (hrest : ∀ j, j ≠ 0 → j ≠ 1 → s.clients j = none)
    (hc : s.clients j = some c) : j = 0 ∧ c = c₀ ∨ j = 1 ∧ c = c₁ := by
  by_cases hj0 : j = 0
  · subst hj0
    exact .inl ⟨rfl, Option.some.inj (hc.symm.trans h0)⟩
  · by_cases hj1 : j = 1
    · subst hj1
      exact .inr ⟨rfl, Option.some.inj (hc.symm.trans h1)⟩
    · rw [hrest j hj0 hj1] at hc
      exact absurd hc (by simp)

theorem uncontended_of_two {s : State} {c₀ c₁ : Client} {i : Nat}
    (h0 : s.clients 0 = some c₀) (h1 : s.clients 1 = some c₁)
    (hrest : ∀ j, j ≠ 0 → j ≠ 1 → s.clients j = none)
    (hconn : c₀.connected = true ∧ c₁.connected = true)
    (hhead : ∀ p ∈ s.eventsCh.buf.head?, (eslToCallEvent p.2).isSome = true →
      (c₀.joined ≤ p.1 → 0 = i) ∧ (c₁.joined ≤ p.1 → 1 = i)) : Uncontended s i := by
  intro j c hc
  rcases client_of_two h0 h1 hrest hc with ⟨rfl, rfl⟩ | ⟨rfl, rfl⟩
  · exact ⟨hconn.1, fun p hp hsome => (hhead p hp hsome).1⟩
  · exact ⟨hconn.2, fun p hp hsome => (hhead p hp hsome).2⟩

theorem control_events_delivered_two :
    (machine.Always Delivered initial twoClients ∧
        machine.Guarded ReceivedConnected initial twoClients) ∧
      ∃ s, machine.run initial twoClients = some s ∧
        (s.clients 0).map Client.written = some [0, 1] := by
  have hrest : ∀ (x y : Option Client) (j : Nat), j ≠ 0 → j ≠ 1 →
      Function.update (Function.update (fun _ => none) 0 x) 1 y j = none := by
    intro x y j h0 h1
    rw [Function.update_of_ne h1, Function.update_of_ne h0]
  refine ⟨control_events_delivered ?_, _, rfl, rfl⟩
  refine .cons trivial rfl <| .cons (fun _ => .inl (by decide)) rfl <|
    .cons (fun _ => .inl (by decide)) rfl <| .cons trivial rfl <|
    .cons (uncontended_of_two rfl rfl (hrest _ _) ⟨rfl, rfl⟩ ?_) rfl <| .cons trivial rfl <|
    .cons (uncontended_of_two rfl rfl (fun j h0 h1 => ?_) ⟨rfl, rfl⟩ ?_) rfl <|
    .cons trivial rfl <| .cons (fun _ => .inl (by decide)) rfl <|
    .cons (uncontended_of_two rfl rfl (fun j h0 h1 => ?_) ⟨rfl, rfl⟩ ?_) rfl trivial
  · rintro p ⟨⟩ -
    exact ⟨fun _ => rfl, by decide⟩
  · exact (Function.update_of_ne h0 ..).trans <| (Function.update_of_ne h0 ..).trans <|
      hrest _ _ j h0 h1
  · rintro p ⟨⟩ -
    exact ⟨fun _ => rfl, by decide⟩
  · exact (Function.update_of_ne h0 ..).trans <| (Function.update_of_ne h0 ..).trans <|
      (Function.update_of_ne h0 ..).trans <| (Function.update_of_ne h0 ..).trans <|
      hrest _ _ j h0 h1
  · rintro p ⟨⟩ hsome
    exact absurd hsome (by decide)

/-- Of two clients whose goroutines are waiting, client 1 has been connected since
    before an event that is not in the channel any more, and does not have it. -/
theorem not_delivered_of_two {s : State} {c₀ c₁ : Client} {n : Nat}
    (h0 : s.clients 0 = some c₀) (h1 : s.clients 1 = some c₁)
    (hrest : ∀ j, j ≠ 0 → j ≠ 1 → s.clients j = none)
    (hwait : c₀.forwarder = .receiving ∧ c₁.forwarder = .receiving)
    (hconn : c₁.connected = true) (hjoined : c₁.joined ≤ n) (hsurf : s.surfaced n)
    (hbuf : s.eventsCh.buf = []) (hmissed : n ∉ c₁.written) : ¬ Delivered s := by
  intro hall
  rcases hall 1 c₁ n h1 hconn hjoined hsurf with hw | hch | ⟨j, c, hc, hpc⟩
  · exact hmissed hw
  · rw [hbuf] at hch
    exact absurd hch List.not_mem_nil
  · rcases client_of_two h0 h1 hrest hc with ⟨rfl, rfl⟩ | ⟨rfl, rfl⟩
    · exact nomatch hwait.1.symm.trans hpc
    · exact nomatch hwait.2.symm.trans hpc

/-- Two clients: the event is written to one of them only.  A client that has
    reconnected: the event goes to the goroutine of its former connection. -/
theorem control_event_missed :
    (∃ s, machine.run initial
        [.connect 0, .connect 1, .arrive answered, .take 0, .write 0] = some s ∧ ¬ Delivered s) ∧
      ∃ s, machine.run initial [.connect 0, .disconnect 0, .connect 1, .arrive answered] = some s ∧
        ¬ ReceivedConnected s (.take 0) ∧
        ∃ s', machine.run s [.take 0, .write 0] = some s' ∧ ¬ Delivered s' := by
  constructor
  · refine ⟨_, rfl, not_delivered_of_two rfl rfl (fun j h0 h1 => ?_) ⟨rfl, rfl⟩ rfl
      (Nat.le_refl 0) ⟨answered, rfl, rfl⟩ rfl List.not_mem_nil⟩
    show Function.update (Function.update (Function.update (Function.update
      (fun _ => none) 0 _) 1 _) 0 _) 0 _ j = none
    rw [Function.update_of_ne h0, Function.update_of_ne h0, Function.update_of_ne h1,
      Function.update_of_ne h0]
  · refine ⟨_, rfl, fun h => absurd (h 0 _ rfl rfl) (by decide), _, rfl,
      not_delivered_of_two rfl rfl (fun j h0 h1 => ?_) ⟨rfl, rfl⟩ rfl (Nat.le_refl 0)
        ⟨answered, rfl, rfl⟩ rfl List.not_mem_nil⟩
    show Function.update (Function.update (Function.update (Function.update (Function.update
      (fun _ => none) 0 _) 0 _) 1 _) 0 _) 0 _ j = none
    rw [Function.update_of_ne h0, Function.update_of_ne h0, Function.update_of_ne h1,
      Function.update_of_ne h0, Function.update_of_ne h0]

end FsBridge.Bridge.ControlEvents
