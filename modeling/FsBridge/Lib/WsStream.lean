/-
  FsBridge.Lib.WsStream

  The reader of a stream of WebSocket frames, a consumer that takes a frame as soon as
  it is whole.

  * `read_written`: what has been written is read, whatever the segments.
  * `read_prefix`: as long as only a part of it has come, the first frames are read.
-/

import FsBridge.Lib.Consumer
import FsBridge.Lib.WsFrame

namespace FsBridge.Lib

namespace WsFrame

/-- Frames one after the other, each in the form that is chosen for it. -/
def written (form : WsFrame → LengthForm) (fs : List WsFrame) : Bytes :=
  fs.flatMap fun f => f.encode (form f)

/-- A turn of the reader, which has read the frames `fs`. -/
def readTurn (fs : List WsFrame) (input : Bytes) : Consumer.Turn (List WsFrame) :=
  match decode input with
  | none => .wait
  | some (f, rest) => .next (fs ++ [f]) (input.length - rest.length)

/-- The frames in a stream that comes in segments, and what is left of it. -/
def read (segs : List Bytes) : List WsFrame × Bytes := Consumer.feed readTurn [] [] segs

-- ============================================================================
-- One turn
-- ============================================================================

theorem readTurn_encode {f : WsFrame} {form : LengthForm} (h : form.Fits f.payload.length)
    (fs : List WsFrame) (rest : Bytes) :
    readTurn fs (f.encode form ++ rest) = .next (fs ++ [f]) (f.encode form).length := by
  rw [readTurn, decode_encode h]
  dsimp only
  rw [List.length_append, Nat.add_sub_cancel]

/-- A turn reads a frame that stands at the head of the input. -/
theorem readTurn_next {fs fs' : List WsFrame} {input : Bytes} {n : Nat}
    (h : readTurn fs input = .next fs' n) :
    ∃ f form rest, LengthForm.Fits form f.payload.length ∧ input = f.encode form ++ rest ∧
      fs' = fs ++ [f] ∧ n = (f.encode form).length := by
  cases hdecode : decode input with
  | none =>
      rw [readTurn, hdecode] at h
      cases h
  | some r =>
      obtain ⟨f, rest⟩ := r
      obtain ⟨form, hfits, rfl⟩ := decode_eq_some hdecode
      rw [readTurn_encode hfits] at h
      injection h with hfs hn
      exact ⟨f, form, rest, hfits, rfl, hfs.symm, hn.symm⟩

theorem readTurn_ne_stop (fs fs' : List WsFrame) (input : Bytes) :
    readTurn fs input ≠ .stop fs' := by
  unfold readTurn
  split <;> simp

theorem readTurn_incremental : Consumer.Incremental readTurn fun _ => True where
  next := by
    intro fs fs' input n _ h
    obtain ⟨f, form, rest, hfits, rfl, rfl, rfl⟩ := readTurn_next h
    refine ⟨trivial, Nat.succ_pos _, ?_, fun more => ?_⟩
    · rw [List.length_append]
      exact Nat.le_add_right _ _
    · rw [List.append_assoc]
      exact readTurn_encode hfits fs _
  stop := fun _ h => absurd h (readTurn_ne_stop _ _ _)

-- ============================================================================
-- The stream
-- ============================================================================

variable {form : WsFrame → LengthForm} {fs : List WsFrame}

theorem drain_written (hfits : ∀ f ∈ fs, (form f).Fits f.payload.length) (before : List WsFrame)
    (rest : Bytes) :
    Consumer.drain readTurn before (written form fs ++ rest) =
      Consumer.drain readTurn (before ++ fs) rest := by
  induction fs generalizing before with
  | nil => rw [written, List.flatMap_nil, List.nil_append, List.append_nil]
  | cons f fs ih =>
      have hturn := readTurn_encode (hfits f List.mem_cons_self) before (written form fs ++ rest)
      rw [written, List.flatMap_cons, List.append_assoc, ← written,
        readTurn_incremental.drain_next trivial hturn, List.drop_left,
        ih fun f' hf' => hfits f' (List.mem_cons_of_mem f hf'), List.append_assoc,
        List.singleton_append]

/-- What has been read stays read. -/
theorem prefix_drain (before : List WsFrame) (input : Bytes) :
    before <+: (Consumer.drain readTurn before input).1 := by
  refine readTurn_incremental.drain_induction
    (P := fun before input => before <+: (Consumer.drain readTurn before input).1)
    (fun fs input _ h => ?_) (fun fs fs' input _ h => ?_) (fun fs fs' input n _ h ih => ?_)
    trivial input
  · exact ⟨[], (List.append_nil _).trans (congrArg Prod.fst (Consumer.drain_wait h)).symm⟩
  · exact absurd h (readTurn_ne_stop _ _ _)
  · obtain ⟨f, form, rest, -, -, rfl, -⟩ := readTurn_next h
    rw [readTurn_incremental.drain_next trivial h]
    exact (List.prefix_append fs [f]).trans ih

theorem read_eq_drain (segs : List Bytes) :
    read segs = Consumer.drain readTurn [] segs.flatten :=
  readTurn_incremental.feed_eq_drain trivial [] segs (Consumer.drain_wait rfl)

theorem drain_all (hfits : ∀ f ∈ fs, (form f).Fits f.payload.length) :
    Consumer.drain readTurn [] (written form fs) = (fs, []) := by
  have hdrain := drain_written hfits [] []
  rw [List.append_nil, List.nil_append] at hdrain
  rw [hdrain]
  exact Consumer.drain_wait rfl

/-- The whole of what has been written. -/
theorem read_written (hfits : ∀ f ∈ fs, (form f).Fits f.payload.length) {segs : List Bytes}
    (h : segs.flatten = written form fs) : read segs = (fs, []) := by
  rw [read_eq_drain, h, drain_all hfits]

/-- A part of what has been written. -/
theorem read_prefix (hfits : ∀ f ∈ fs, (form f).Fits f.payload.length) {segs : List Bytes}
    (h : segs.flatten <+: written form fs) : (read segs).1 <+: fs := by
  obtain ⟨more, hmore⟩ := h
  have hall := drain_all hfits
  rw [← hmore, readTurn_incremental.drain_append trivial segs.flatten more] at hall
  have hgrows := prefix_drain (Consumer.drain readTurn [] segs.flatten).1
    ((Consumer.drain readTurn [] segs.flatten).2 ++ more)
  rw [hall] at hgrows
  rw [read_eq_drain]
  exact hgrows

end WsFrame

end FsBridge.Lib
