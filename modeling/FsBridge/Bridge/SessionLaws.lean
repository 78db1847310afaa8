/-
  FsBridge.Bridge.SessionLaws

  What the queue of a session promises its users: conservation, order and
  bound of the frames (`QueueLaw`), what one sender in front of a stalled
  `writePump` leaves in the queue, and which frames an overflow may cost.
-/

import Mathlib.Data.Fintype.Basic
import Mathlib.Data.List.DropRight
import Mathlib.Data.List.Nodup
import FsBridge.Bridge.SessionQueue

namespace FsBridge.Bridge.Session

open FsBridge.Lib

variable {ι : Type*} {cap : Nat}

-- ============================================================================
-- Conservation and order
-- ============================================================================

theorem handed_sublist (s : State ι cap) : s.handed.Sublist (s.left.map Prod.fst) :=
  List.Sublist.map _ (List.filter_sublist)

section Conservation

variable [DecidableEq ι]

/-- Where every frame is, and in which order frames went there. -/
structure QueueLaw (s : State ι cap) : Prop where
  /-- A frame enters the queue at most once. -/
  enters_once : ∀ c, s.entered.count c ≤ 1
  /-- It enters exactly when its `enqueue` returned nil. -/
  enters_iff_nil : ∀ c, c ∈ s.entered ↔ (c, .ok ()) ∈ s.returned
  /-- From then on it is in exactly one of three places. -/
  one_place : ∀ c ∈ s.entered,
    s.writeQueue.buf.count c + s.handed.count c + s.evicted.count c = 1
  /-- A frame that is nowhere in the queue's past is in none of them. -/
  no_other : ∀ c, c ∉ s.entered → c ∉ s.writeQueue.buf ∧ c ∉ s.handed ∧ c ∉ s.evicted
  /-- Only a call that found the queue full evicts. -/
  evicted_by_full : ∀ d ∈ s.left, ∀ e, d.2 = .evictedBy e → e ∈ s.foundFull
  /-- One call evicts at most one frame. -/
  evicts_one : ∀ e, s.evictors.count e ≤ 1
  /-- Frames leave in the order in which they entered. -/
  fifo : s.entered = s.left.map Prod.fst ++ s.writeQueue.buf
  /-- The frames of one sender are written in its send order. -/
  send_order : ∀ i, (s.handed.filter fun c => c.sender = i).Pairwise fun a b => a.seq < b.seq
  bounded : s.writeQueue.buf.length ≤ cap

theorem count_left (s : State ι cap) (c : Call ι) :
    (s.left.map Prod.fst).count c = s.handed.count c + s.evicted.count c := by
  unfold State.handed State.evicted
  induction s.left with
  | nil => rfl
  | cons d l ih =>
      cases hd : d.2.evictor with
      | none => simp [hd, List.count_cons, ih]; omega
      | some e => simp [hd, List.count_cons, ih]; omega

theorem Inv.queueLaw {s : State ι cap} (h : Inv s) : QueueLaw s := by
  have hnodup : s.entered.Nodup := h.entered_ordered.nodup
  have hcount : ∀ c, s.entered.count c
      = s.writeQueue.buf.count c + s.handed.count c + s.evicted.count c := by
    intro c
    rw [h.fifo, List.count_append, count_left]
    omega
  have hplaces : ∀ c, c ∉ s.entered →
      c ∉ s.writeQueue.buf ∧ c ∉ s.handed ∧ c ∉ s.evicted := by
    intro c hc
    have hzero := hcount c
    rw [List.count_eq_zero_of_not_mem hc] at hzero
    refine ⟨?_, ?_, ?_⟩ <;> apply List.count_eq_zero.mp <;> omega
  refine {
    enters_once := fun c => List.nodup_iff_count_le_one.mp hnodup c
    enters_iff_nil := fun c => (h.returned_ok c).symm
    one_place := ?_
    no_other := hplaces
    evicted_by_full := ?_
    evicts_one := fun e => List.nodup_iff_count_le_one.mp h.evictors_ordered.nodup e
    fifo := h.fifo
    send_order := ?_
    bounded := s.writeQueue.length_le }
  · intro c hc
    rw [← hcount c]
    exact List.nodup_iff_count_eq_one.mp hnodup c hc
  · intro d hd e he
    apply h.evictors_full
    exact List.mem_filterMap.mpr ⟨d, hd, by rw [he]; rfl⟩
  · intro i
    have hsub : (s.handed.filter fun c => c.sender = i).Sublist s.entered := by
      rw [h.fifo]
      exact (List.filter_sublist.trans (handed_sublist s)).trans (List.sublist_append_left _ _)
    apply List.Pairwise.imp_of_mem _ (h.entered_ordered.sublist hsub)
    intro a b ha hb hab
    have ha' := of_decide_eq_true (List.mem_filter.mp ha).2
    have hb' := of_decide_eq_true (List.mem_filter.mp hb).2
    exact hab (ha'.trans hb'.symm)

end Conservation

-- ============================================================================
-- One sender in front of a stalled pump
-- ============================================================================

/-- The frames the schedule asks `enqueue` to send, in order. -/
def requests (as : List (Act ι)) : List WriteRequest :=
  as.filterMap fun a => match a with
    | .call _ req => some req
    | _ => none

/-- The queue holds the last `min n cap` of the `n` frames `l`. -/
def HoldsLast (s : State ι cap) (l : List WriteRequest) : Prop :=
  s.writeQueue.buf.map Call.req <:+ l ∧ s.writeQueue.buf.length = min cap l.length

/-- What the queue holds while only sender `i` runs and has been asked to send
    `l`.  Between its `select`s the last frame of `l` is still outside. -/
def SoloInv (i : ι) (l : List WriteRequest) (s : State ι cap) : Prop :=
  s.done = false ∧
  match (s.senders i).inside with
  | none => HoldsLast s l
  | some (.checkDone, x) | some (.tryQueue, x) => ∃ l', l = l' ++ [x] ∧ HoldsLast s l'
  | some (.dropOldest, x) => ∃ l', l = l' ++ [x] ∧ HoldsLast s l' ∧ s.writeQueue.buf.length = cap
  | some (.lastAttempt, x) => ∃ l', l = l' ++ [x] ∧
      s.writeQueue.buf.map Call.req <:+ l' ∧ s.writeQueue.buf.length + 1 = cap ∧ cap ≤ l'.length

theorem SoloInv.of_none {i : ι} {l : List WriteRequest} {s : State ι cap}
    (hin : (s.senders i).inside = none) :
    SoloInv i l s ↔ s.done = false ∧ HoldsLast s l := by
  simp only [SoloInv, hin]

/-- A frame sent into a queue with room is the newest of the frames it holds. -/
theorem holdsLast_push {s s' : State ι cap} {l : List WriteRequest} {c : Call ι}
    (hq : s'.writeQueue.buf = s.writeQueue.buf ++ [c])
    (hsuf : s.writeQueue.buf.map Call.req <:+ l)
    (hlen : s.writeQueue.buf.length + 1 = min cap (l.length + 1)) :
    HoldsLast s' (l ++ [c.req]) := by
  constructor
  · obtain ⟨pre, hpre⟩ := hsuf
    refine ⟨pre, ?_⟩
    rw [hq, List.map_append, ← List.append_assoc, hpre]
    rfl
  · rw [hq, List.length_append, List.length_append]
    exact hlen

section Solo

variable [DecidableEq ι]

/-- One step of the only running sender. -/
theorem soloInv_step {i : ι} {l : List WriteRequest} {s s' : State ι cap} {a : Act ι}
    (hcap : 1 ≤ cap) (ha : a.isOf i) (hstep : step s a = some s') (h : SoloInv i l s) :
    SoloInv i (l ++ requests [a]) s' := by
  obtain ⟨hdone, hpc⟩ := h
  cases effect_of_step hstep with
  | call j req hidle =>
      obtain rfl : j = i := ha
      rw [hidle] at hpc
      refine ⟨hdone, ?_⟩
      simp only [Function.update_self]
      exact ⟨l, rfl, hpc⟩
  | isOpen j c hcur =>
      obtain rfl : j = i := ha
      rw [(State.current_inside hcur).1] at hpc
      refine ⟨hdone, ?_⟩
      simp only [State.goto, Function.update_self, requests, List.filterMap_cons_none,
        List.filterMap_nil, List.append_nil]
      exact hpc
  | full j c hcur hfull =>
      obtain rfl : j = i := ha
      rw [(State.current_inside hcur).1] at hpc
      obtain ⟨l', hl', hlast⟩ := hpc
      refine ⟨hdone, ?_⟩
      simp only [State.goto, Function.update_self, requests, List.filterMap_cons_none,
        List.filterMap_nil, List.append_nil]
      exact ⟨l', hl', hlast, hfull⟩
  | drained j c hcur hempty =>
      obtain rfl : j = i := ha
      rw [(State.current_inside hcur).1] at hpc
      obtain ⟨l', -, -, hfull⟩ := hpc
      rw [hempty] at hfull
      exact absurd hfull (by simp; omega)
  | evict j c old q hcur hq =>
      obtain rfl : j = i := ha
      rw [(State.current_inside hcur).1] at hpc
      obtain ⟨l', hl', ⟨hsuf, hmin⟩, hfull⟩ := hpc
      refine ⟨hdone, ?_⟩
      simp only [State.goto, Function.update_self, requests, List.filterMap_cons_none,
        List.filterMap_nil, List.append_nil]
      rw [hq] at hsuf hmin hfull
      rw [List.length_cons] at hmin hfull
      refine ⟨l', hl', ?_, hfull, by omega⟩
      exact (List.suffix_cons old.req (q.buf.map Call.req)).trans hsuf
  | push j pc c q hpush hcur hlt hq =>
      obtain ⟨hin, -⟩ := State.current_inside hcur
      have hj : j = i := by
        rcases hpush with ⟨rfl, -⟩ | ⟨rfl, -⟩
        · exact ha
        · exact ha
      subst hj
      have hreq : requests [a] = [] := by
        rcases hpush with ⟨rfl, -⟩ | ⟨rfl, -⟩
        · rfl
        · rfl
      have hidle : ((pushAndReturn s j c q).senders j).inside = none := by
        simp [pushAndReturn, State.ret, State.goto]
      rw [hreq, List.append_nil, SoloInv.of_none hidle]
      refine ⟨hdone, ?_⟩
      rw [hin] at hpc
      rcases hpush with ⟨-, rfl⟩ | ⟨-, rfl⟩
      · -- the second `select`: the queue was not full, so it held all of them
        obtain ⟨l', rfl, hsuf, hmin⟩ := hpc
        exact holdsLast_push hq hsuf (by omega)
      · -- the last `select`, into the slot the third one freed
        obtain ⟨l', rfl, hsuf, hlen, hle⟩ := hpc
        exact holdsLast_push hq hsuf (by omega)
  | closed j pc c hclose hcur hclosed => exact absurd (hdone.symm.trans hclosed) (by simp)
  | hand c q hq => exact absurd ha (by simp)
  | other pump done hd hno => exact absurd ha (hno i)

/-- The run of the only running sender. -/
theorem soloInv_run {i : ι} {l : List WriteRequest} {s s' : State ι cap} {as : List (Act ι)}
    (hcap : 1 ≤ cap) (has : ∀ a ∈ as, a.isOf i)
    (hrun : (machine ι cap).run s as = some s') (h : SoloInv i l s) :
    SoloInv i (l ++ requests as) s' := by
  induction as generalizing s l with
  | nil =>
      obtain rfl := Option.some.inj hrun
      rw [requests, List.filterMap_nil, List.append_nil]
      exact h
  | cons a as ih =>
      obtain ⟨t, hstep, hrest⟩ := Machine.run_cons_some hrun
      have ht := soloInv_step hcap (has a List.mem_cons_self) hstep h
      have hs' := ih (fun b hb => has b (List.mem_cons_of_mem a hb)) hrest ht
      have hcat : requests (a :: as) = requests [a] ++ requests as := by
        rw [requests, requests, requests, ← List.filterMap_append]
        rfl
      rw [hcat, ← List.append_assoc]
      exact hs'

/-- Sender `i` is not inside `enqueue`. -/
def State.idle (s : State ι cap) (i : ι) : Prop := (s.senders i).inside = none

/-- **Queue conservation and order.**  After every schedule of senders, pump
    and `Close` the queue law holds; and where from there on only sender `i`
    runs, in an open session, the queue holds the last `cap` of the frames it
    held and the frames sent since. -/
theorem enqueue_queueLaw (hcap : 1 ≤ cap) (as : List (Act ι)) (s : State ι cap)
    (hrun : (machine ι cap).run (initial ι cap) as = some s) :
    QueueLaw s ∧
    ∀ (i : ι) (bs : List (Act ι)) (s' : State ι cap), s.done = false → s.idle i →
      (∀ b ∈ bs, b.isOf i) → (machine ι cap).run s bs = some s' → s'.idle i →
      s'.writeQueue.buf.map Call.req
        = (s.writeQueue.buf.map Call.req ++ requests bs).rtake cap := by
  refine ⟨(inv_run hrun).queueLaw, ?_⟩
  intro i bs s' hopen hidle hbs hrun' hidle'
  have h0 : SoloInv i (s.writeQueue.buf.map Call.req) s := by
    rw [SoloInv.of_none hidle]
    refine ⟨hopen, List.suffix_refl _, ?_⟩
    rw [List.length_map]
    exact (Nat.min_eq_right s.writeQueue.length_le).symm
  have hsolo := soloInv_run hcap hbs hrun' h0
  rw [SoloInv.of_none hidle'] at hsolo
  obtain ⟨-, hsuf, hlen⟩ := hsolo
  have hdrop := List.suffix_iff_eq_drop.mp hsuf
  rw [List.length_map, hlen] at hdrop
  rw [List.rtake, hdrop]
  congr 1
  omega

/-- The steps of a call of `enqueue` that finds room. -/
def sendWithRoom (i : ι) (req : WriteRequest) : List (Act ι) :=
  [.call i req, .checkDone i, .tryQueue i]

/-- The steps of a call of `enqueue` that finds the queue full. -/
def sendWhenFull (i : ι) (req : WriteRequest) : List (Act ι) :=
  [.call i req, .checkDone i, .tryQueue i, .dropOldest i, .lastSend i]

/-- Three frames sent into a queue of two leave the second and the third. -/
theorem enqueue_queueLaw_three :
    ((machine Unit 2).run (initial Unit 2)
        (sendWithRoom () ⟨.messageBinary, [1]⟩ ++ sendWithRoom () ⟨.messageBinary, [2]⟩
          ++ sendWhenFull () ⟨.messageBinary, [3]⟩)).map (fun s' => s'.writeQueue.buf.map Call.req)
      = some [⟨.messageBinary, [2]⟩, ⟨.messageBinary, [3]⟩] := by
  have hruns : ((machine Unit 2).run (initial Unit 2)
      (sendWithRoom () ⟨.messageBinary, [1]⟩ ++ sendWithRoom () ⟨.messageBinary, [2]⟩
        ++ sendWhenFull () ⟨.messageBinary, [3]⟩)).isSome = true := rfl
  obtain ⟨s', hrun⟩ := Option.isSome_iff_exists.mp hruns
  have hidle : s'.idle () := by
    obtain rfl := Option.some.inj hrun
    rfl
  rw [hrun]
  exact congrArg some ((enqueue_queueLaw (by decide) [] (initial Unit 2) rfl).2 () _ s' rfl rfl
    (by simp [sendWithRoom, sendWhenFull]) hrun hidle)

end Solo

-- ============================================================================
-- Control frames
-- ============================================================================

/-- In an open session every control frame whose `SendControl` returned nil is
    queued or handed to `conn.Write`, and only audio was evicted. -/
def ControlKept (s : State ι cap) : Prop :=
  s.done = false →
    (∀ c, c.req.mt = .messageText → (c, .ok ()) ∈ s.returned →
      c ∈ s.writeQueue.buf ∨ c ∈ s.handed) ∧
    ∀ c ∈ s.evicted, c.req.mt = .messageBinary

/-- All of the frames are audio. -/
def AllAudio (l : List (Call ι)) : Prop := ∀ c ∈ l, c.req.mt = .messageBinary

/-- A call has found the queue full and has not evicted yet. -/
def State.Dropping (s : State ι cap) : Prop :=
  ∃ i, (s.senders i).inside.map Prod.fst = some .dropOldest

/-- A call about to send into the queue of an open session: where its second `select` finds
    the queue full, it is full of audio; where a control frame goes in, no call has yet to
    evict. -/
def State.SendsApart (s : State ι cap) : Option (EnqueuePc × Call ι) → Prop
  | some (.tryQueue, c) => s.done = false →
      if s.writeQueue.buf.length = cap then AllAudio s.writeQueue.buf
      else c.req.mt = .messageText → ¬ s.Dropping
  | some (.lastAttempt, c) => s.done = false → c.req.mt = .messageText → ¬ s.Dropping
  | _ => True

/-- A control frame and a call that goes on to evict do not come together in the queue. -/
def Apart (s : State ι cap) : Act ι → Prop
  | .tryQueue i | .lastSend i => s.SendsApart (s.current i)
  | _ => True

section Decidable

variable [Fintype ι]

instance State.decidableDropping (s : State ι cap) : Decidable s.Dropping :=
  inferInstanceAs (Decidable (∃ i, (s.senders i).inside.map Prod.fst = some .dropOldest))

instance State.decidableSendsApart (s : State ι cap) : ∀ o, Decidable (s.SendsApart o)
  | some (.tryQueue, c) => inferInstanceAs (Decidable (s.done = false →
      if s.writeQueue.buf.length = cap then ∀ d ∈ s.writeQueue.buf, d.req.mt = .messageBinary
      else c.req.mt = .messageText → ¬ s.Dropping))
  | some (.lastAttempt, c) => inferInstanceAs (Decidable (s.done = false →
      c.req.mt = .messageText → ¬ s.Dropping))
  | none | some (.checkDone, _) | some (.dropOldest, _) => .isTrue trivial

instance decidableApart (s : State ι cap) : ∀ a, Decidable (Apart s a)
  | .tryQueue i | .lastSend i => s.decidableSendsApart (s.current i)
  | .call _ _ | .checkDone _ | .dropOldest _ | .lastDone _ | .pumpDone | .pumpRecv
  | .pumpWrite _ | .close => .isTrue trivial

end Decidable

theorem State.dropping_iff {s : State ι cap} :
    s.Dropping ↔ ∃ i c, s.current i = some (.dropOldest, c) := by
  constructor
  · rintro ⟨i, hi⟩
    obtain ⟨⟨pc, req⟩, hin, rfl⟩ := Option.map_eq_some_iff.mp hi
    exact ⟨i, _, State.current_of_inside hin⟩
  · rintro ⟨i, c, hcur⟩
    refine ⟨i, ?_⟩
    rw [(State.current_inside hcur).1]
    rfl

theorem allAudio_snoc {l : List (Call ι)} {c : Call ι} (h : AllAudio l)
    (hc : c.req.mt = .messageBinary) : AllAudio (l ++ [c]) := by
  intro d hd
  rcases List.mem_append.mp hd with hd | hd
  · exact h d hd
  · obtain rfl := List.mem_singleton.mp hd
    exact hc

theorem evicted_snoc (l : List (Call ι × Exit ι)) (c : Call ι) (x : Exit ι) :
    ((l ++ [(c, x)]).filter fun d => d.2.evictor.isSome).map Prod.fst
      = (l.filter fun d => d.2.evictor.isSome).map Prod.fst
        ++ if x.evictor.isSome then [c] else [] := by
  rw [List.filter_append, List.map_append]
  cases x <;> rfl

/-- The invariant of a run that keeps control frames and evictions apart: only audio was
    evicted, and only audio is there for a call that has yet to evict. -/
structure AudioEvicted (s : State ι cap) : Prop where
  inv : Inv s
  audio : s.done = false → AllAudio s.evicted
  dropping : s.done = false → s.Dropping → AllAudio s.writeQueue.buf

theorem AudioEvicted.controlKept {s : State ι cap} (h : AudioEvicted s) : ControlKept s := by
  intro hopen
  refine ⟨?_, h.audio hopen⟩
  intro c htext hret
  have hentered := (h.inv.returned_ok c).mp hret
  rw [h.inv.fifo] at hentered
  rcases List.mem_append.mp hentered with hleft | hqueue
  · obtain ⟨d, hd, rfl⟩ := List.mem_map.mp hleft
    cases hx : d.2.evictor with
    | none =>
        refine .inr (List.mem_map.mpr ⟨d, List.mem_filter.mpr ⟨hd, ?_⟩, rfl⟩)
        rw [hx]
        rfl
    | some e =>
        have hev : d.1 ∈ s.evicted :=
          List.mem_map.mpr ⟨d, List.mem_filter.mpr ⟨hd, by rw [hx]; rfl⟩, rfl⟩
        exact absurd ((h.audio hopen d.1 hev).symm.trans htext) (by decide)
  · exact .inl hqueue

theorem audioEvicted_initial : AudioEvicted (initial ι cap) where
  inv := inv_initial
  audio := fun _ _ hc => absurd hc List.not_mem_nil
  dropping := fun _ _ _ hc => absurd hc List.not_mem_nil

/-- A control frame that enters the queue finds no call that has yet to evict. -/
theorem Apart.of_push {s : State ι cap} {a : Act ι} {i : ι} {pc : EnqueuePc} {c : Call ι}
    (h : Apart s a) (ha : a = .tryQueue i ∧ pc = .tryQueue ∨ a = .lastSend i ∧ pc = .lastAttempt)
    (hopen : s.done = false) (hcur : s.current i = some (pc, c))
    (hlt : s.writeQueue.buf.length < cap) (htext : c.req.mt = .messageText) : ¬ s.Dropping := by
  rcases ha with ⟨rfl, rfl⟩ | ⟨rfl, rfl⟩
  · simp only [Apart, hcur] at h
    have hc := h hopen
    rw [if_neg (Nat.ne_of_lt hlt)] at hc
    exact hc htext
  · simp only [Apart, hcur] at h
    exact h hopen htext

section Eviction

variable [DecidableEq ι]

/-- A sender that goes anywhere but to the third `select` adds no call that has yet to
    evict. -/
theorem dropping_of_moved {s s' : State ι cap} {i : ι} {x : Sender}
    (hs : s'.senders = Function.update s.senders i x)
    (hx : ∀ req, x.inside ≠ some (.dropOldest, req)) (h : s'.Dropping) : s.Dropping := by
  obtain ⟨j, c, hj⟩ := State.dropping_iff.mp h
  exact State.dropping_iff.mpr ⟨j, c, dropping_of_update hs hx hj⟩

theorem audioEvicted_step {s s' : State ι cap} {a : Act ι} (h : AudioEvicted s)
    (hguard : Apart s a) (hstep : step s a = some s') : AudioEvicted s' := by
  have heffect := effect_of_step hstep
  have hinv' := heffect.inv h.inv
  cases heffect with
  | call i req hidle =>
      exact ⟨hinv', h.audio, fun hopen hd => h.dropping hopen (dropping_of_moved rfl (by simp) hd)⟩
  | isOpen i c hcur =>
      exact ⟨hinv', h.audio, fun hopen hd => h.dropping hopen (dropping_of_moved rfl (by simp) hd)⟩
  | full i c hcur hfull =>
      refine ⟨hinv', h.audio, ?_⟩
      intro hopen _
      simp only [Apart, hcur] at hguard
      have hc := hguard hopen
      rw [if_pos hfull] at hc
      exact hc
  | drained i c hcur hempty =>
      exact ⟨hinv', h.audio, fun hopen hd => h.dropping hopen (dropping_of_moved rfl (by simp) hd)⟩
  | evict i c old q hcur hq =>
      have hall : s.done = false → AllAudio (old :: q.buf) := by
        intro hopen
        rw [← hq]
        exact h.dropping hopen (State.dropping_iff.mpr ⟨i, c, hcur⟩)
      refine ⟨hinv', ?_, fun hopen _ => fun d hd => hall hopen d (List.mem_cons_of_mem _ hd)⟩
      intro hopen
      rw [State.evicted, evicted_snoc]
      exact allAudio_snoc (h.audio hopen) (hall hopen old List.mem_cons_self)
  | push i pc c q ha hcur hlt hq =>
      refine ⟨hinv', h.audio, ?_⟩
      intro hopen hd
      have hd' : s.Dropping := dropping_of_moved rfl (by simp) hd
      show AllAudio q.buf
      rw [hq]
      refine allAudio_snoc (h.dropping hopen hd') ?_
      cases hmt : c.req.mt with
      | messageBinary => rfl
      | messageText => exact absurd hd' (hguard.of_push ha hopen hcur hlt hmt)
  | closed i pc c ha hcur hdone =>
      exact ⟨hinv', fun hopen => absurd (hdone.symm.trans hopen) (by simp),
        fun hopen => absurd (hdone.symm.trans hopen) (by simp)⟩
  | hand c q hq =>
      refine ⟨hinv', ?_, ?_⟩
      · intro hopen
        rw [State.evicted, evicted_snoc]
        exact (List.append_nil _).symm ▸ h.audio hopen
      · intro hopen hd d hmem
        apply h.dropping hopen hd d
        rw [hq]
        exact List.mem_cons_of_mem _ hmem
  | other pump done hdone ha =>
      have hopen : done = false → s.done = false := by
        intro hfalse
        cases hs : s.done with
        | false => rfl
        | true => exact absurd ((hdone hs).symm.trans hfalse) (by simp)
      exact ⟨hinv', fun hd => h.audio (hopen hd), fun hd => h.dropping (hopen hd)⟩

/-- **Control frames and overflow.**  A run in which control frames and calls that go on
    to evict do not come together keeps its control frames. -/
theorem controlKept_of_apart (as : List (Act ι))
    (hguard : (machine ι cap).Guarded Apart (initial ι cap) as) :
    (machine ι cap).Always ControlKept (initial ι cap) as := by
  have hall : (machine ι cap).Always AudioEvicted (initial ι cap) as :=
    Machine.always_of_guarded (fun t a t' h hg hstep => audioEvicted_step h hg hstep) hguard
      audioEvicted_initial
  exact hall.mono fun t ht => ht.controlKept

/-- A clear that finds a queue of two full of audio, in front of a `writePump` that then
    writes what is left. -/
theorem controlKept_of_apart_overflow :
    (machine Unit 2).Always ControlKept (initial Unit 2)
      (sendWithRoom () ⟨.messageBinary, [1, 0]⟩ ++ sendWithRoom () ⟨.messageBinary, [2, 0]⟩
        ++ sendWhenFull () clearPlayback
        ++ [.pumpRecv, .pumpWrite true, .pumpRecv, .pumpWrite true]) := by
  apply controlKept_of_apart
  decide

/-- One audio frame behind a clear in a queue of one evicts the clear. -/
theorem clear_evicted :
    ¬ (machine Unit 1).Always ControlKept (initial Unit 1)
      (sendWithRoom () clearPlayback ++ sendWhenFull () ⟨.messageBinary, [1, 0]⟩) := by
  intro h
  have hlast := h.last rfl
  have haudio := (hlast rfl).2 ⟨(), 0, clearPlayback⟩ (by decide)
  exact absurd haudio (by decide)

-- The condition is exact: where a step of a reachable state breaks it, some continuation
-- of the run evicts a control frame.  `writePump` writes what is in front of the frame, and
-- the call that has yet to evict then finds it at the head.

/-- `writePump` returns from closed sessions only, or closes the session as it returns. -/
theorem pumpReturned_step {s s' : State ι cap} {a : Act ι} (h : step s a = some s')
    (hs : s.pump = .returned → s.done = true) : s'.pump = .returned → s'.done = true := by
  cases a with
  | call i _ | checkDone i | tryQueue i | dropOldest i | lastSend i | lastDone i =>
      cases effect_of_step h with
      | other pump done hdone ha => exact absurd rfl (ha i)
      | _ => exact hs
  | pumpDone =>
      obtain ⟨⟨-, hdone⟩, rfl⟩ := Machine.of_guard h
      exact fun _ => hdone
  | pumpRecv =>
      simp only [step] at h
      split at h
      · split at h
        · cases h
          exact fun hp => absurd hp (by simp)
        · exact absurd h (by simp)
      · exact absurd h (by simp)
  | pumpWrite ok =>
      simp only [step] at h
      split at h
      · split at h
        · cases h
          exact fun hp => absurd hp (by simp)
        · cases h
          exact fun _ => rfl
      · exact absurd h (by simp)
  | close =>
      cases h
      exact fun _ => rfl

theorem pump_runs {s : State ι cap} {as : List (Act ι)}
    (h : (machine ι cap).run (initial ι cap) as = some s) (hp : s.pump = .returned) :
    s.done = true :=
  Machine.run_invariant (I := fun t => t.pump = .returned → t.done = true)
    (fun _ _ _ hI hstep => pumpReturned_step hstep hI) h (fun h => absurd h (by simp [initial])) hp

/-- In front of a running `writePump`, a call that has yet to evict can get any frame of
    the queue. -/
theorem exists_evicting {s : State ι cap} {i : ι} {c d : Call ι} {pre post : List (Call ι)}
    (hopen : s.done = false) (hpump : s.pump = .selecting)
    (hcur : s.current i = some (.dropOldest, c)) (hbuf : s.writeQueue.buf = pre ++ d :: post) :
    ∃ bs t, (machine ι cap).run s bs = some t ∧ t.done = false ∧ d ∈ t.evicted := by
  induction pre generalizing s with
  | nil =>
      obtain ⟨q, hq, -⟩ := Chan.exists_recv hbuf
      have hstep : (machine ι cap).step s (.dropOldest i) =
          some { s.goto i (some (.lastAttempt, c.req)) with
            writeQueue := q, left := s.left ++ [(d, .evictedBy c)] } := by
        simp only [machine, step, hcur, hq]
      refine ⟨[.dropOldest i], _, Machine.run_cons_of_step hstep [], hopen, ?_⟩
      rw [State.evicted, evicted_snoc]
      exact List.mem_append_right _ List.mem_cons_self
  | cons e pre ih =>
      obtain ⟨q, hq, hrest⟩ := Chan.exists_recv hbuf
      have hstep : (machine ι cap).step s .pumpRecv = some { s with
          writeQueue := q, pump := .writing e, left := s.left ++ [(e, .toConnWrite)] } := by
        simp only [machine, step, hpump, if_pos, hq]
      obtain ⟨bs, t, hrun, ht⟩ := ih (s := { s with
          writeQueue := q, pump := .selecting, left := s.left ++ [(e, .toConnWrite)] })
        hopen rfl hcur hrest
      refine ⟨.pumpRecv :: .pumpWrite true :: bs, t, ?_, ht⟩
      rw [Machine.run_cons_of_step hstep]
      exact hrun

/-- Where a step breaks the condition, a control frame is in the queue behind it together
    with a call that has yet to evict. -/
theorem meets_of_not_apart {s s' : State ι cap} {a : Act ι} (h : ¬ Apart s a)
    (hstep : step s a = some s') :
    s'.done = false ∧ s'.Dropping ∧ ∃ d ∈ s'.writeQueue.buf, d.req.mt = .messageText := by
  cases effect_of_step hstep with
  | full i c hcur hfull =>
      simp only [Apart, hcur, State.SendsApart, if_pos hfull, Classical.not_imp] at h
      obtain ⟨hopen, hmixed⟩ := h
      refine ⟨hopen, ⟨i, ?_⟩, ?_⟩
      · simp [State.goto]
      · simp only [AllAudio, not_forall] at hmixed
        obtain ⟨d, hd, hmt⟩ := hmixed
        refine ⟨d, hd, ?_⟩
        cases hd : d.req.mt with
        | messageText => rfl
        | messageBinary => exact absurd hd hmt
  | push i pc c q ha hcur hlt hq =>
      have hmeets : s.done = false ∧ c.req.mt = .messageText ∧ s.Dropping := by
        rcases ha with ⟨rfl, rfl⟩ | ⟨rfl, rfl⟩
        · simpa only [Apart, hcur, State.SendsApart, if_neg (Nat.ne_of_lt hlt), Classical.not_imp,
            not_not] using h
        · simpa only [Apart, hcur, State.SendsApart, Classical.not_imp, not_not] using h
      obtain ⟨hopen, htext, j, hj⟩ := hmeets
      have hji : j ≠ i := by
        rintro rfl
        rw [(State.current_inside hcur).1] at hj
        rcases ha with ⟨-, rfl⟩ | ⟨-, rfl⟩
        · exact absurd hj (by simp)
        · exact absurd hj (by simp)
      refine ⟨hopen, ⟨j, ?_⟩, c, ?_, htext⟩
      · show ((Function.update s.senders i _ j).inside.map Prod.fst) = _
        rw [Function.update_of_ne hji]
        exact hj
      · show c ∈ q.buf
        rw [hq]
        exact List.mem_append_right _ List.mem_cons_self
  | closed i pc c ha hcur hdone =>
      rcases ha with ⟨rfl, -⟩ | ⟨rfl, -⟩
      · exact absurd trivial h
      · exact absurd trivial h
  | other pump done hdone ha =>
      cases a with
      | tryQueue i | lastSend i => exact absurd rfl (ha i)
      | _ => exact absurd trivial h
  | _ => exact absurd trivial h

/-- The condition is exact: from a step that breaks it the run can go on to a state in
    which a control frame has been evicted. -/
theorem unkept_of_not_apart {as : List (Act ι)} {s s' : State ι cap} {a : Act ι}
    (hrun : (machine ι cap).run (initial ι cap) as = some s) (hstep : step s a = some s')
    (h : ¬ Apart s a) :
    ∃ bs t, (machine ι cap).run (initial ι cap) (as ++ a :: bs) = some t ∧ ¬ ControlKept t := by
  obtain ⟨hopen, hdropping, d, hd, htext⟩ := meets_of_not_apart h hstep
  obtain ⟨i, c, hcur⟩ := State.dropping_iff.mp hdropping
  obtain ⟨pre, post, hbuf⟩ := List.append_of_mem hd
  have hrun' : (machine ι cap).run (initial ι cap) (as ++ [a]) = some s' :=
    (Machine.run_snoc hrun a).trans hstep
  have hlost : ∃ bs t, (machine ι cap).run s' bs = some t ∧ t.done = false ∧ d ∈ t.evicted := by
    cases hpump : s'.pump with
    | selecting => exact exists_evicting hopen hpump hcur hbuf
    | writing e =>
        have hwrite : (machine ι cap).step s' (.pumpWrite true)
            = some { s' with pump := .selecting } := by
          simp only [machine, step, hpump, if_pos]
        obtain ⟨bs, t, hbs, ht⟩ := exists_evicting (s := { s' with pump := .selecting }) hopen rfl
          hcur hbuf
        exact ⟨.pumpWrite true :: bs, t, (Machine.run_cons_of_step hwrite bs).trans hbs, ht⟩
    | returned => exact absurd ((pump_runs hrun' hpump).symm.trans hopen) (by simp)
  obtain ⟨bs, t, hbs, hopen', hd'⟩ := hlost
  refine ⟨bs, t, ?_, ?_⟩
  · rw [List.append_cons, Machine.run_append hrun']
    exact hbs
  · intro hkept
    exact absurd (((hkept hopen').2 d hd').symm.trans htext) (by decide)

end Eviction

end FsBridge.Bridge.Session
