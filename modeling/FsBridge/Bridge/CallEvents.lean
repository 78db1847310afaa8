/-
  FsBridge.Bridge.CallEvents

  Channel events on their way from the event socket to the bus (bridge/esl.go, the
  read loop; bridge/control.go, `eslToCallEvent` and `ESLToBus`): a message is
  decoded into a map of strings, goes through `eventsCh` and becomes a call event.

  The decoding refuses an event as a whole when any header of it is no string,
  whether the call event needs that header or not.  `callEvent` is what the event
  says, `readEvent` what is left of it behind the decoding.
-/

import FsBridge.Bridge.Esl
import FsBridge.Lib.Chan
import FsBridge.Lib.Json
import FsBridge.Lib.Machine

namespace FsBridge.Bridge

open FsBridge.Lib

-- ============================================================================
-- Events
-- ============================================================================

/-- `Event`: a bridge-domain event; the data is a `map[string]any`. -/
structure Event where
  name : Bytes
  uuid : Bytes
  data : List (Bytes × Json)

/-- `ESLEvent`. -/
structure EslEvent where
  name : Bytes
  headers : Json.StringMap

/-- `UUID`. -/
def EslEvent.uuid (ev : EslEvent) : Bytes := ev.headers.get (ascii "Unique-ID")

/-- The names of `eslToCallEvent`. -/
def callEventName (name : Bytes) : Option Bytes :=
  if name = ascii "CHANNEL_CREATE" then some (ascii "call.create")
  else if name = ascii "CHANNEL_ANSWER" then some (ascii "call.answer")
  else if name = ascii "CHANNEL_HANGUP" ∨ name = ascii "CHANNEL_HANGUP_COMPLETE" then
    some (ascii "call.hangup")
  else if name = ascii "CHANNEL_DESTROY" then some (ascii "call.destroy")
  else if name = ascii "CHANNEL_BRIDGE" then some (ascii "call.bridge")
  else if name = ascii "CHANNEL_UNBRIDGE" then some (ascii "call.unbridge")
  else none

/-- `eslToCallEvent`. -/
def eslToCallEvent (ev : EslEvent) : Option Event :=
  match callEventName ev.name with
  | none => none
  | some name =>
      let data := [(ascii "caller", .str (ev.headers.get (ascii "Caller-Caller-ID-Number"))),
        (ascii "destination", .str (ev.headers.get (ascii "Caller-Destination-Number"))),
        (ascii "direction", .str (ev.headers.get (ascii "Call-Direction")))]
      let cause := ev.headers.get (ascii "Hangup-Cause")
      some ⟨name, ev.uuid,
        if cause ≠ [] then data ++ [(ascii "hangup_cause", .str cause)] else data⟩

/-- The headers a call event is made of. -/
def callHeaders : List Bytes :=
  [ascii "Event-Name", ascii "Unique-ID", ascii "Caller-Caller-ID-Number",
    ascii "Caller-Destination-Number", ascii "Call-Direction", ascii "Hangup-Cause"]

-- ============================================================================
-- The read loop and `ESLToBus`
-- ============================================================================

/-- The event the read loop makes of the value in a body, `none` where the decoding
    fails. -/
def readEvent (body : Json) : Option EslEvent :=
  (Json.stringMap body).map fun headers => ⟨headers.get (ascii "Event-Name"), headers⟩

/-- The capacity of `eventsCh`. -/
def eventsCap : Nat := 256

structure EventsState where
  /-- `connectAndServe` is in its read loop. -/
  serving : Bool
  eventsCh : Chan EslEvent eventsCap
  /-- The context of `ESLToBus` is done. -/
  stopped : Bool
  /-- What `ESLToBus` has published, oldest first. -/
  published : List Event

inductive EventsAct where
  /-- The read loop reads a message and handles it. -/
  | read (msg : EslMessage)
  /-- `ESLToBus` receives an event. -/
  | forward
  | stop

/-- One pass of the read loop, as far as events go; `parse` gives the value of a
    JSON text. -/
def handleMessage (parse : Bytes → Option Json) (s : EventsState) (msg : EslMessage) :
    EventsState :=
  if msg.contentType = ascii "text/event-json" then
    match (parse msg.body).bind readEvent with
    | none => s
    | some ev =>
        match s.eventsCh.trySend ev with
        | some ch => { s with eventsCh := ch }
        | none => s
  else if msg.isDisconnectNotice then { s with serving := false }
  else s

def eventsStep (parse : Bytes → Option Json) (s : EventsState) : EventsAct → Option EventsState
  | .read msg => if s.serving then some (handleMessage parse s msg) else none
  | .forward =>
      if s.stopped then none
      else
        match s.eventsCh.tryRecv with
        | none => none
        | some (ev, ch) =>
            match eslToCallEvent ev with
            | some e => some { s with eventsCh := ch, published := s.published ++ [e] }
            | none => some { s with eventsCh := ch }
  | .stop => some { s with stopped := true }

/-- The connection is served, and no event has come. -/
def eventsInitial : EventsState := ⟨true, .empty, false, []⟩

def eventsMachine (parse : Bytes → Option Json) : Machine EventsState EventsAct where
  init := eventsInitial
  step := eventsStep parse

-- ============================================================================
-- What is to be published
-- ============================================================================

/-- The members of the JSON object in the body of an event message. -/
def eventMembers (parse : Bytes → Option Json) (msg : EslMessage) : Option (List (Bytes × Json)) :=
  if msg.contentType = ascii "text/event-json" then
    match parse msg.body with
    | some (.obj members) => some members
    | _ => none
  else none

/-- The headers of an event that are strings. -/
def stringHeaders (members : List (Bytes × Json)) : Json.StringMap :=
  members.foldl (fun m member =>
    match member.2 with
    | .str s => m.insert member.1 s
    | _ => m) .empty

/-- The call event of an event message. -/
def callEvent (members : List (Bytes × Json)) : Option Event :=
  let headers := stringHeaders members
  eslToCallEvent ⟨headers.get (ascii "Event-Name"), headers⟩

/-- The headers a call event is made of are strings when present. -/
def CallHeadersText (members : List (Bytes × Json)) : Prop :=
  ∀ member ∈ members, member.1 ∈ callHeaders → ∃ s, member.2 = .str s

/-- The events received in a schedule. -/
def eventsRead (parse : Bytes → Option Json) (as : List EventsAct) : List (List (Bytes × Json)) :=
  as.filterMap fun
    | .read msg => eventMembers parse msg
    | _ => none

/-- The body of an event message is an object, and the headers of a call event in
    it are strings. -/
def EventMessage (parse : Bytes → Option Json) (msg : EslMessage) : Prop :=
  msg.contentType = ascii "text/event-json" →
    ∃ members, parse msg.body = some (.obj members) ∧ CallHeadersText members

/-- `eventsCh` has room when an event is read. -/
def NeverFull (s : EventsState) : EventsAct → Prop
  | .read _ => s.eventsCh.buf.length < eventsCap
  | _ => True

-- ============================================================================
-- Headers
-- ============================================================================

/-- The string headers of an event and the decoded ones agree on a header that is
    a string whenever it is there. -/
theorem get_decoded {members : List (Bytes × Json)} {m m' n : Json.StringMap} {key : Bytes}
    (hkey : ∀ member ∈ members, member.1 = key → ∃ s, member.2 = .str s)
    (hstart : m.get key = n.get key) (hdec : members.foldlM Json.insertText m = some m') :
    m'.get key = (members.foldl (fun m member =>
      match member.2 with
      | .str s => m.insert member.1 s
      | _ => m) n).get key := by
  induction members generalizing m n with
  | nil =>
      cases hdec
      exact hstart
  | cons member members ih =>
      obtain ⟨name, value⟩ := member
      rw [List.foldlM_cons] at hdec
      obtain ⟨m₁, hm₁, hrest⟩ := Option.bind_eq_some_iff.mp hdec
      have htail : ∀ member ∈ members, member.1 = key → ∃ s, member.2 = .str s :=
        fun x hx => hkey x (List.mem_cons_of_mem _ hx)
      rw [List.foldl_cons]
      refine ih htail ?_ hrest
      cases value with
      | str s =>
          cases hm₁
          by_cases hname : key = name
          · rw [hname, Json.StringMap.get_insert_self, Json.StringMap.get_insert_self]
          · rw [Json.StringMap.get_insert_of_ne _ _ hname,
              Json.StringMap.get_insert_of_ne _ _ hname, hstart]
      | null =>
          cases hm₁
          have hname : key ≠ name := by
            rintro rfl
            obtain ⟨s, hs⟩ := hkey _ List.mem_cons_self rfl
            exact absurd hs (by simp)
          rw [Json.StringMap.get_insert_of_ne _ _ hname, hstart]
      | _ => exact absurd hm₁ (by simp [Json.insertText])

/-- What is decoded becomes the call event it is. -/
theorem eslToCallEvent_readEvent {members : List (Bytes × Json)} (h : CallHeadersText members)
    {ev : EslEvent} (hev : readEvent (.obj members) = some ev) :
    eslToCallEvent ev = callEvent members := by
  obtain ⟨headers, hdec, rfl⟩ := Option.map_eq_some_iff.mp hev
  have hget : ∀ key ∈ callHeaders, headers.get key = (stringHeaders members).get key := by
    intro key hkey
    exact get_decoded (fun member hmem hname => h member hmem (hname ▸ hkey)) rfl hdec
  have hname := hget (ascii "Event-Name") (by simp [callHeaders])
  have huuid := hget (ascii "Unique-ID") (by simp [callHeaders])
  have hcaller := hget (ascii "Caller-Caller-ID-Number") (by simp [callHeaders])
  have hdest := hget (ascii "Caller-Destination-Number") (by simp [callHeaders])
  have hdir := hget (ascii "Call-Direction") (by simp [callHeaders])
  have hcause := hget (ascii "Hangup-Cause") (by simp [callHeaders])
  simp only [callEvent, eslToCallEvent, EslEvent.uuid, hname, huuid, hcaller, hdest, hdir, hcause]

theorem readEvent_isSome (members : List (Bytes × Json)) :
    (readEvent (.obj members)).isSome = members.all fun member => member.2.isText := by
  rw [readEvent, Option.isSome_map]
  exact Json.foldlM_insertText_isSome members .empty

/-- What the bridge makes of an event is its call event, or nothing. -/
theorem bridged_cases {members : List (Bytes × Json)} (h : CallHeadersText members) :
    (members.all fun member => member.2.isText) = true ∧
        (readEvent (.obj members)).bind eslToCallEvent = callEvent members ∨
      (members.all fun member => member.2.isText) = false ∧
        (readEvent (.obj members)).bind eslToCallEvent = none := by
  have hsome := readEvent_isSome members
  cases hev : readEvent (.obj members) with
  | some ev =>
      rw [hev] at hsome
      exact .inl ⟨hsome.symm, eslToCallEvent_readEvent h hev⟩
  | none =>
      rw [hev] at hsome
      exact .inr ⟨hsome.symm, rfl⟩

-- ============================================================================
-- Runs
-- ============================================================================

/-- What has been published, and what `eventsCh` holds to be published. -/
def EventsState.surfaced (s : EventsState) : List Event :=
  s.published ++ s.eventsCh.buf.filterMap eslToCallEvent

/-- A message the read loop handles when there is room adds what the decoding
    leaves of it. -/
theorem surfaced_handleMessage {parse : Bytes → Option Json} {s : EventsState} {msg : EslMessage}
    (hroom : s.eventsCh.buf.length < eventsCap) (hmsg : EventMessage parse msg) :
    (handleMessage parse s msg).surfaced = s.surfaced ++
      (eventMembers parse msg).toList.filterMap fun members =>
        (readEvent (.obj members)).bind eslToCallEvent := by
  by_cases htype : msg.contentType = ascii "text/event-json"
  · obtain ⟨members, hparse, -⟩ := hmsg htype
    have hmembers : eventMembers parse msg = some members := by
      rw [eventMembers, if_pos htype, hparse]
    rw [hmembers, handleMessage, if_pos htype, hparse, Option.bind_some]
    cases hev : readEvent (.obj members) with
    | none => simp [hev]
    | some ev =>
        obtain ⟨ch, hch⟩ : ∃ ch, s.eventsCh.trySend ev = some ch := by
          cases hsend : s.eventsCh.trySend ev with
          | some ch => exact ⟨ch, rfl⟩
          | none =>
              have hfull := Chan.trySend_eq_none.mp hsend
              omega
        dsimp only
        rw [hch]
        dsimp only
        show s.published ++ ch.buf.filterMap eslToCallEvent = s.surfaced ++ _
        rw [(Chan.trySend_eq_some.mp hch).2, List.filterMap_append, ← List.append_assoc]
        simp [EventsState.surfaced, hev, List.filterMap_cons]
  · have hmembers : eventMembers parse msg = none := by rw [eventMembers, if_neg htype]
    rw [hmembers, handleMessage, if_neg htype]
    split <;> simp [EventsState.surfaced]

theorem surfaced_forward {parse : Bytes → Option Json} {s s' : EventsState}
    (h : eventsStep parse s .forward = some s') : s'.surfaced = s.surfaced := by
  simp only [eventsStep] at h
  split at h
  · exact absurd h (by simp)
  · split at h
    · exact absurd h (by simp)
    · rename_i ev ch hrecv
      have hbuf := Chan.tryRecv_eq_some.mp hrecv
      split at h
      · rename_i e he
        cases h
        simp [EventsState.surfaced, hbuf, he]
      · rename_i he
        cases h
        simp [EventsState.surfaced, hbuf, he]

theorem eventsRead_read (parse : Bytes → Option Json) (msg : EslMessage) (as : List EventsAct) :
    eventsRead parse (.read msg :: as)
      = (eventMembers parse msg).toList ++ eventsRead parse as := by
  simp only [eventsRead, List.filterMap_cons]
  cases eventMembers parse msg <;> rfl

theorem surfaced_of_run {parse : Bytes → Option Json} {as : List EventsAct} {s t : EventsState}
    (hrun : (eventsMachine parse).run s as = some t)
    (hroom : (eventsMachine parse).Guarded NeverFull s as)
    (hmsgs : ∀ msg, .read msg ∈ as → EventMessage parse msg) :
    t.surfaced = s.surfaced ++ (eventsRead parse as).filterMap fun members =>
      (readEvent (.obj members)).bind eslToCallEvent := by
  induction as generalizing s with
  | nil =>
      cases hrun
      simp [eventsRead]
  | cons a as ih =>
      obtain ⟨s', hs', hrest⟩ := Machine.run_cons_some hrun
      have htail := ih hrest (hroom.2 s' hs') fun msg hmsg =>
        hmsgs msg (List.mem_cons_of_mem _ hmsg)
      have hstep : eventsStep parse s a = some s' := hs'
      cases a with
      | read msg =>
          simp only [eventsStep, Option.ite_none_right_eq_some, Option.some.injEq] at hstep
          obtain ⟨-, rfl⟩ := hstep
          rw [htail, surfaced_handleMessage hroom.1 (hmsgs msg List.mem_cons_self),
            List.append_assoc, ← List.filterMap_append, eventsRead_read]
      | forward =>
          rw [htail, surfaced_forward hstep]
          rfl
      | stop =>
          cases hstep
          exact htail

/-- Where `f` gives what `g` gives or nothing, they give the same on a list only
    where they give the same everywhere. -/
theorem filterMap_eq_iff {α β : Type*} {f g : α → Option β} {l : List α}
    (h : ∀ a ∈ l, f a = g a ∨ f a = none) :
    l.filterMap f = l.filterMap g ↔ ∀ a ∈ l, f a = g a := by
  have hle : ∀ l : List α, (∀ a ∈ l, f a = g a ∨ f a = none) →
      (l.filterMap f).length ≤ (l.filterMap g).length := by
    intro l hl
    induction l with
    | nil => exact Nat.le_refl _
    | cons a l ih =>
        have hrest := ih fun b hb => hl b (List.mem_cons_of_mem _ hb)
        rw [List.filterMap_cons, List.filterMap_cons]
        rcases hl a List.mem_cons_self with heq | hnone
        · rw [heq]
          cases g a with
          | none => exact hrest
          | some b => exact Nat.succ_le_succ hrest
        · rw [hnone]
          cases g a with
          | none => exact hrest
          | some b => exact Nat.le_succ_of_le hrest
  constructor
  · induction l with
    | nil => exact fun _ a ha => absurd ha List.not_mem_nil
    | cons a l ih =>
        intro heq
        have hrest : ∀ b ∈ l, f b = g b ∨ f b = none := fun b hb =>
          h b (List.mem_cons_of_mem _ hb)
        rw [List.filterMap_cons, List.filterMap_cons] at heq
        have hhead : f a = g a ∧ l.filterMap f = l.filterMap g := by
          rcases h a List.mem_cons_self with hsame | hnone
          · rw [hsame] at heq
            refine ⟨hsame, ?_⟩
            cases hga : g a with
            | none => simpa [hga] using heq
            | some b => simpa [hga] using heq
          · rw [hnone] at heq
            cases hga : g a with
            | none =>
                rw [hga] at heq
                exact ⟨hnone, heq⟩
            | some b =>
                -- the right side is longer than the left one can be
                rw [hga] at heq
                have hlen := congrArg List.length heq
                have hshort := hle l hrest
                simp only [List.length_cons] at hlen
                omega
        intro b hb
        rcases List.mem_cons.mp hb with rfl | hb
        · exact hhead.1
        · exact ih hrest hhead.2 b hb
  · intro hall
    exact List.filterMap_congr hall

/-- Channel events reach the bus, in every run in which `eventsCh` always has room
    and every event message carries an object whose call headers are strings: what
    is published, with what is on its way in `eventsCh`, is what the events say
    exactly when every header of each event that becomes a call event is a text. -/
theorem callEvents_published_iff (parse : Bytes → Option Json) {as : List EventsAct}
    {s : EventsState} (hrun : (eventsMachine parse).run eventsInitial as = some s)
    (hroom : (eventsMachine parse).Guarded NeverFull eventsInitial as)
    (hmsgs : ∀ msg, .read msg ∈ as → EventMessage parse msg) :
    s.published ++ s.eventsCh.buf.filterMap eslToCallEvent =
        (eventsRead parse as).filterMap callEvent ↔
      ∀ members ∈ eventsRead parse as, (callEvent members).isSome = true →
        ∀ member ∈ members, member.2.isText = true := by
  have hsurfaced : s.surfaced = _ := surfaced_of_run hrun hroom hmsgs
  have hcases : ∀ members ∈ eventsRead parse as, CallHeadersText members := by
    intro members hmem
    obtain ⟨a, ha, hread⟩ := List.mem_filterMap.mp hmem
    cases a with
    | read msg =>
        have hread' : eventMembers parse msg = some members := hread
        unfold eventMembers at hread'
        split at hread'
        · rename_i htype
          obtain ⟨members', hparse, htext⟩ := hmsgs msg ha htype
          rw [hparse] at hread'
          cases hread'
          exact htext
        · exact absurd hread' (by simp)
    | forward => exact absurd hread (by simp)
    | stop => exact absurd hread (by simp)
  rw [EventsState.surfaced] at hsurfaced
  rw [hsurfaced]
  have hinit : eventsInitial.surfaced = [] := rfl
  rw [hinit, List.nil_append, filterMap_eq_iff]
  · constructor
    · intro h members hmem hsome
      rcases bridged_cases (hcases members hmem) with ⟨hall, -⟩ | ⟨-, hnone⟩
      · exact List.all_eq_true.mp hall
      · rw [← h members hmem, hnone] at hsome
        exact absurd hsome (by simp)
    · intro h members hmem
      rcases bridged_cases (hcases members hmem) with ⟨-, heq⟩ | ⟨hall, hnone⟩
      · exact heq
      · rw [hnone]
        cases hcall : callEvent members with
        | none => rfl
        | some e =>
            have htext := h members hmem (by rw [hcall]; rfl)
            exact absurd ((List.all_eq_true.mpr htext).symm.trans hall) (by decide)
  · intro members hmem
    rcases bridged_cases (hcases members hmem) with ⟨-, heq⟩ | ⟨-, hnone⟩
    · exact .inl heq
    · exact .inr hnone

def eventMessage (body : Bytes) : EslMessage :=
  ⟨[(ascii "Content-Type", ascii "text/event-json")], body⟩

def createText : Bytes :=
  ascii "\x7b\"Event-Name\":\"CHANNEL_CREATE\",\"variable_sip_to\":null\x7d"

def answerText : Bytes := ascii "\x7b\"Event-Name\":\"CHANNEL_ANSWER\"\x7d"

def hangupText : Bytes :=
  ascii "\x7b\"Event-Name\":\"CHANNEL_HANGUP\",\"variable_codecs\":[\"PCMU\",\"PCMA\"]\x7d"

def createMembers : List (Bytes × Json) :=
  [(ascii "Event-Name", .str (ascii "CHANNEL_CREATE")), (ascii "variable_sip_to", .null)]

def answerMembers : List (Bytes × Json) := [(ascii "Event-Name", .str (ascii "CHANNEL_ANSWER"))]

def hangupMembers : List (Bytes × Json) :=
  [(ascii "Event-Name", .str (ascii "CHANNEL_HANGUP")),
    (ascii "variable_codecs", .arr [.str (ascii "PCMU"), .str (ascii "PCMA")])]

/-- A parser, as far as these three texts go. -/
def parseTexts (text : Bytes) : Option Json :=
  if text = createText then some (.obj createMembers)
  else if text = answerText then some (.obj answerMembers)
  else if text = hangupText then some (.obj hangupMembers)
  else none

/-- A call is created and answered. -/
def createAnswer : List EventsAct :=
  [.read (eventMessage createText), .read (eventMessage answerText), .forward, .forward]

/-- Both are published; a header of the first one is null. -/
theorem callEvents_published_iff_two :
    ∃ s, (eventsMachine parseTexts).run eventsInitial createAnswer = some s ∧
      s.published.map Event.name = [ascii "call.create", ascii "call.answer"] ∧
      s.published ++ s.eventsCh.buf.filterMap eslToCallEvent =
        (eventsRead parseTexts createAnswer).filterMap callEvent := by
  have hcreate : CallHeadersText createMembers := by
    intro member hmem hkey
    rcases List.mem_cons.mp hmem with rfl | hmem
    · exact ⟨_, rfl⟩
    · obtain rfl := List.mem_singleton.mp hmem
      exact absurd hkey (by decide)
  have hanswer : CallHeadersText answerMembers := by
    intro member hmem _
    obtain rfl := List.mem_singleton.mp hmem
    exact ⟨_, rfl⟩
  have hread : eventsRead parseTexts createAnswer = [createMembers, answerMembers] := rfl
  refine ⟨_, rfl, rfl, (callEvents_published_iff parseTexts rfl ?_ ?_).mpr ?_⟩
  · exact .cons (by decide : 0 < eventsCap) rfl <| .cons (by decide : 1 < eventsCap) rfl <|
      .cons trivial rfl <| .cons trivial rfl trivial
  · intro msg hmsg _
    have hcases : msg = eventMessage createText ∨ msg = eventMessage answerText := by
      simpa [createAnswer] using hmsg
    rcases hcases with rfl | rfl
    · exact ⟨createMembers, rfl, hcreate⟩
    · exact ⟨answerMembers, rfl, hanswer⟩
  · intro members hmem _
    have htext : members.all (fun member => member.2.isText) = true := by
      rw [hread] at hmem
      rcases List.mem_cons.mp hmem with rfl | hmem
      · rfl
      · obtain rfl := List.mem_singleton.mp hmem
        rfl
    exact List.all_eq_true.mp htext

/-- A hangup with a channel variable of two values is lost. -/
theorem hangup_event_lost :
    ∃ s, (eventsMachine parseTexts).run eventsInitial [.read (eventMessage hangupText)] = some s ∧
      CallHeadersText hangupMembers ∧ s.published ++ s.eventsCh.buf.filterMap eslToCallEvent = [] ∧
      (eventsRead parseTexts [.read (eventMessage hangupText)]).filterMap callEvent ≠ [] := by
  refine ⟨_, rfl, ?_, rfl, ?_⟩
  · intro member hmem hkey
    rcases List.mem_cons.mp hmem with rfl | hmem
    · exact ⟨_, rfl⟩
    · obtain rfl := List.mem_singleton.mp hmem
      exact absurd hkey (by decide)
  · exact List.cons_ne_nil _ _

end FsBridge.Bridge
