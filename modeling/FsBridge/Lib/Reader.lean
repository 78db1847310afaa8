/-
  FsBridge.Lib.Reader

  A buffered reader over a connection (Go's bufio.Reader).  `segments` are what
  the reads of the connection return one after the other until it fails, so that
  a statement about every reader covers every way in which a stream arrives.

  `bytes` is what the reader has still to deliver; each operation has its law in
  terms of it.
-/

import FsBridge.Lib.Query

namespace FsBridge.Lib

structure Reader where
  buffered : Bytes
  segments : List Bytes
  /-- A read of a connection returns a byte at least, or fails. -/
  segments_ne_nil : ∀ seg ∈ segments, seg ≠ []

namespace Reader

def bytes (r : Reader) : Bytes := r.buffered ++ r.segments.flatten

/-- One read of the connection. -/
def fill : Reader → Option Reader
  | ⟨_, [], _⟩ => none
  | ⟨buffered, seg :: rest, h⟩ =>
      some ⟨buffered ++ seg, rest, fun s hs => h s (List.mem_cons_of_mem _ hs)⟩

theorem fill_length {r r' : Reader} (h : r.fill = some r') :
    r'.segments.length < r.segments.length := by
  obtain ⟨buffered, segments, hne⟩ := r
  cases segments with
  | nil => exact absurd h (by simp [fill])
  | cons seg rest =>
      cases h
      exact Nat.lt_succ_self _

/-- `ReadString`: the text up to `delim`, with it. -/
def readString (delim : UInt8) (r : Reader) : Option (Bytes × Reader) :=
  if delim ∈ r.buffered then
    some ((Query.cut delim r.buffered).1 ++ [delim],
      { r with buffered := (Query.cut delim r.buffered).2 })
  else
    match _hfill : r.fill with
    | none => none
    | some r' => readString delim r'
termination_by r.segments.length
decreasing_by exact fill_length _hfill

/-- `Read` into `n` bytes: what is buffered, else what one read of the connection
    gives. -/
def read (r : Reader) (n : Nat) : Option (Bytes × Reader) :=
  let take (r : Reader) := (r.buffered.take n, { r with buffered := r.buffered.drop n })
  if r.buffered ≠ [] then some (take r) else r.fill.map take

-- ============================================================================
-- Laws
-- ============================================================================

theorem fill_bytes {r r' : Reader} (h : r.fill = some r') : r'.bytes = r.bytes := by
  obtain ⟨buffered, segments, hne⟩ := r
  cases segments with
  | nil => exact absurd h (by simp [fill])
  | cons seg rest =>
      cases h
      simp [bytes]

theorem fill_eq_none {r : Reader} (h : r.fill = none) : r.bytes = r.buffered := by
  obtain ⟨buffered, segments, hne⟩ := r
  cases segments with
  | nil => simp [bytes]
  | cons seg rest => exact absurd h (by simp [fill])

theorem fill_ne_nil {r r' : Reader} (h : r.fill = some r') : r'.buffered ≠ [] := by
  obtain ⟨buffered, segments, hne⟩ := r
  cases segments with
  | nil => exact absurd h (by simp [fill])
  | cons seg rest =>
      cases h
      have hseg : seg ≠ [] := hne seg List.mem_cons_self
      simp [hseg]

/-- `ReadString` takes the first line of what is to come, however it arrives. -/
theorem readString_bytes {delim : UInt8} {r : Reader} {line rest : Bytes}
    (h : r.bytes = line ++ delim :: rest) (hline : delim ∉ line) :
    ∃ r', r.readString delim = some (line ++ [delim], r') ∧ r'.bytes = rest := by
  fun_induction readString delim r with
  | case1 r hmem =>
      -- the first `delim` of the stream is the first one of the buffer
      obtain ⟨front, back, hbuf, hfront⟩ := List.eq_append_cons_of_mem hmem
      have hstream : r.bytes = front ++ delim :: (back ++ r.segments.flatten) := by
        rw [bytes, hbuf]
        simp
      have hcut := Query.cut_append_cons hline rest
      rw [← h, hstream, Query.cut_append_cons hfront] at hcut
      obtain ⟨rfl, rfl⟩ := Prod.mk.inj hcut
      have hbefore : Query.cut delim r.buffered = (front, back) := by
        rw [hbuf, Query.cut_append_cons hfront]
      refine ⟨{ r with buffered := (Query.cut delim r.buffered).2 }, by rw [hbefore], ?_⟩
      show (Query.cut delim r.buffered).2 ++ r.segments.flatten = _
      rw [hbefore]
  | case2 r hmem hfill =>
      have hall := fill_eq_none hfill
      rw [hall] at h
      exact absurd (h ▸ List.mem_append_right line List.mem_cons_self) hmem
  | case3 r hmem r' hfill ih => exact ih ((fill_bytes hfill).trans h)

theorem readString_some {delim : UInt8} {r r' : Reader} {line : Bytes}
    (h : r.readString delim = some (line, r')) : r.bytes = line ++ r'.bytes ∧ line ≠ [] := by
  fun_induction readString delim r with
  | case1 r hmem =>
      cases h
      obtain ⟨front, back, hbuf, hfront⟩ := List.eq_append_cons_of_mem hmem
      rw [bytes, bytes, hbuf, Query.cut_append_cons hfront]
      simp
  | case2 r hmem hfill => exact absurd h (by simp)
  | case3 r hmem r' hfill ih =>
      have hlaw := ih h
      rwa [fill_bytes hfill] at hlaw

theorem read_some {r r' : Reader} {n : Nat} {chunk : Bytes} (h : r.read n = some (chunk, r')) :
    r.bytes = chunk ++ r'.bytes ∧ chunk.length ≤ n ∧ (0 < n → chunk ≠ []) := by
  -- the bytes are taken from the buffer of `q`, which is `r` or `r` after a read
  have htake : ∀ q : Reader, q.bytes = r.bytes → q.buffered ≠ [] →
      (q.buffered.take n, { q with buffered := q.buffered.drop n }) = (chunk, r') →
      r.bytes = chunk ++ r'.bytes ∧ chunk.length ≤ n ∧ (0 < n → chunk ≠ []) := by
    intro q hq hne heq
    cases heq
    refine ⟨?_, List.length_take_le n q.buffered, fun hn hnil => ?_⟩
    · rw [← hq, bytes, bytes, ← List.append_assoc, List.take_append_drop]
    · rcases List.take_eq_nil_iff.mp hnil with hzero | hbuf
      · omega
      · exact hne hbuf
  unfold read at h
  by_cases hbuf : r.buffered = []
  · dsimp only at h
    rw [if_neg (not_not_intro hbuf)] at h
    obtain ⟨q, hq, heq⟩ := Option.map_eq_some_iff.mp h
    exact htake q (fill_bytes hq) (fill_ne_nil hq) heq
  · dsimp only at h
    rw [if_pos hbuf] at h
    exact htake r rfl hbuf (Option.some.inj h)

theorem read_isSome {r : Reader} (n : Nat) (h : r.bytes ≠ []) : (r.read n).isSome = true := by
  unfold read
  by_cases hbuf : r.buffered = []
  · cases hfill : r.fill with
    | none => exact absurd ((fill_eq_none hfill).trans hbuf) h
    | some r' => simp [hbuf]
  · simp [hbuf]

end Reader

end FsBridge.Lib
