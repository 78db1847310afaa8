/-
  FsBridge.Providers.OpenAITTS

  The goroutine of `OpenAITTS.Synthesize` (providers/openai_tts.go): it reads the
  body of the response and sends its audio, resampled, in whole blocks.

  The body is the reads that report no error and a last one with EOF; the last may
  come with bytes or without.  What is behind the last whole block is sent in the
  first case only.  The theorem compares the chunks with the resampled body, cut by
  cut: behind every read the audio is cut behind the last whole block.

  Where the sizes of the body fit, so do those of every chunk, and the loop sends what
  exact resampling makes of its blocks (`readLoop_eq`).
-/

import FsBridge.Providers.ResampleLoop

namespace FsBridge.Providers

open FsBridge.Lib FsBridge.Lib.Resample

def openAITTSRate : Int := 24000

/-- `emit`: the chunk it sends, if any; `none` is a panic. -/
def OpenAITTS.emit (beyond : Int → Int) (rate : Int64) (pcm : Bytes) : Option (List Bytes) :=
  let pcm :=
    if rate ≠ .ofInt openAITTSRate then resampleLoop beyond pcm (.ofInt openAITTSRate) rate
    else some pcm
  pcm.map fun pcm => if pcm.length = 0 then [] else [pcm]

/-- The loop of the goroutine: the chunks it sends for the reads that report no
    error and the last one, which reports EOF. -/
def OpenAITTS.readLoop (emit : Bytes → Option (List Bytes)) (block : Nat) (pending : Bytes) :
    List Bytes → Bytes → Option (List Bytes)
  | [], last =>
      if 0 < last.length then
        let pending := pending ++ last
        let usable := pending.length
        if 0 < usable then emit (pending.take usable) else some []
      else some []
  | buf :: reads, last =>
      if 0 < buf.length then
        let pending := pending ++ buf
        -- not EOF: keep the partial block for next read
        let usable := pending.length - pending.length % block
        if 0 < usable then do
          let sent ← emit (pending.take usable)
          return sent ++ (← readLoop emit block (pending.drop usable) reads last)
        else readLoop emit block pending reads last
      else readLoop emit block pending reads last

/-- The chunks of `OpenAITTS.Synthesize`, for a `SampleRate`. -/
def OpenAITTS.synthesize (beyond : Int → Int) (sampleRate : Int64) (reads : List Bytes)
    (last : Bytes) : Option (List Bytes) :=
  let rate := if sampleRate = 0 then 16000 else sampleRate
  readLoop (emit beyond rate) (resampleBlockBytes openAITTSRate rate.toInt) [] reads last

/-- The chunks are sent, and are the resampled body. -/
def OpenAITTS.SendsWhole (beyond : Int → Int) (rate : Int64) (reads : List Bytes)
    (last : Bytes) : Prop :=
  ∃ chunks, synthesize beyond rate reads last = some chunks ∧
    resampleLoop beyond (reads.flatten ++ last) (.ofInt openAITTSRate) rate
      = some chunks.flatten

-- ============================================================================
-- The loop
-- ============================================================================

/-- What `emit` makes of a chunk, where resampling is exact. -/
def converted (rate : Int) (pcm : Bytes) : Bytes :=
  if rate ≠ openAITTSRate then resamplePCM16 pcm openAITTSRate rate else pcm

/-- What the loop sends then: behind every read the whole blocks there are, and the rest
    with the bytes EOF comes with. -/
def sentAudio (rate : Int) (block : Nat) (pending : Bytes) : List Bytes → Bytes → Bytes
  | [], last => if last = [] then [] else converted rate (pending ++ last)
  | buf :: reads, last =>
      let k := (pending ++ buf).length / block * block
      (if k = 0 then [] else converted rate ((pending ++ buf).take k))
        ++ sentAudio rate block ((pending ++ buf).drop k) reads last

/-- The sizes for a body of `n` samples fit, or there are none to compute. -/
def Fits (rate : Int) (n : Nat) : Prop := rate = openAITTSRate ∨ SizesFit openAITTSRate rate n

theorem Fits.mono {rate : Int} {n m : Nat} (h : Fits rate n) (hrate : 0 < rate)
    (hle : m ≤ n) : Fits rate m := h.imp id fun hfits => hfits.mono (by decide) hrate hle

/-- Rates are the same as words and as numbers. -/
theorem ofInt_rate_eq {rate : Int64} : rate = .ofInt openAITTSRate ↔ rate.toInt = openAITTSRate :=
  Int64.toInt_inj.symm

/-- Where the sizes fit, a chunk is sent if exact resampling leaves something of it. -/
theorem emit_eq (beyond : Int → Int) {rate : Int64} (hrate : 0 < rate.toInt) {pcm : Bytes}
    (hfits : Fits rate.toInt (pcm.length / 2)) :
    ∃ sent, OpenAITTS.emit beyond rate pcm = some sent ∧
      sent.flatten = converted rate.toInt pcm := by
  have hconverted : (if rate ≠ .ofInt openAITTSRate then
      resampleLoop beyond pcm (.ofInt openAITTSRate) rate else some pcm)
        = some (converted rate.toInt pcm) := by
    unfold converted
    by_cases hown : rate.toInt = openAITTSRate
    · rw [if_neg (not_not_intro (ofInt_rate_eq.mpr hown)), if_neg (not_not_intro hown)]
    · rw [if_pos (mt ofInt_rate_eq.mp hown), if_pos hown]
      exact resampleLoop_eq beyond (by decide) hrate (hfits.resolve_left hown)
  rw [OpenAITTS.emit, hconverted]
  refine ⟨_, rfl, ?_⟩
  dsimp only
  split
  · rename_i hnone
    exact (List.eq_nil_of_length_eq_zero hnone).symm
  · exact List.append_nil _

/-- Where the sizes of all that is left fit, the loop sends what exact resampling makes
    of it. -/
theorem readLoop_eq (beyond : Int → Int) {rate : Int64} (hrate : 0 < rate.toInt) {block : Nat}
    {pending : Bytes} (hpending : pending.length < block) (reads : List Bytes) (last : Bytes)
    (hfits : Fits rate.toInt ((pending ++ reads.flatten ++ last).length / 2)) :
    ∃ chunks, OpenAITTS.readLoop (OpenAITTS.emit beyond rate) block pending reads last
        = some chunks ∧
      chunks.flatten = sentAudio rate.toInt block pending reads last := by
  induction reads generalizing pending with
  | nil =>
      rw [OpenAITTS.readLoop, sentAudio]
      by_cases hlast : last = []
      · subst hlast
        exact ⟨[], rfl, rfl⟩
      · have hpos : 0 < last.length := List.length_pos_iff.mpr hlast
        rw [List.flatten_nil, List.append_nil] at hfits
        rw [if_pos hpos, if_neg hlast]
        dsimp only
        rw [List.take_length, List.length_append, if_pos (by omega)]
        exact emit_eq beyond hrate hfits
  | cons buf reads ih =>
      generalize hheld : pending ++ buf = held
      have hbody : pending ++ (buf :: reads).flatten ++ last = held ++ (reads.flatten ++ last) := by
        rw [List.flatten_cons, ← hheld, List.append_assoc, List.append_assoc, List.append_assoc]
      rw [hbody] at hfits
      have hdiv := Nat.div_add_mod held.length block
      have hmod := Nat.mod_lt held.length (show 0 < block by omega)
      rw [Nat.mul_comm] at hdiv
      have hsub : held.length - held.length % block = held.length / block * block := by omega
      rw [OpenAITTS.readLoop, sentAudio]
      dsimp only
      rw [hheld, hsub]
      generalize held.length / block * block = k at hdiv ⊢
      have hlen : (held ++ (reads.flatten ++ last)).length
          = held.length + (reads.flatten ++ last).length := List.length_append
      have hrest : (held.drop k).length < block := by
        rw [List.length_drop]
        omega
      have hleft : Fits rate.toInt ((held.drop k ++ reads.flatten ++ last).length / 2) := by
        refine hfits.mono hrate (Nat.div_le_div_right ?_)
        rw [List.append_assoc, List.length_append, List.length_drop, hlen]
        omega
      obtain ⟨chunks, hchunks, hflat⟩ := ih hrest hleft
      by_cases hbuf : 0 < buf.length
      · rw [if_pos hbuf]
        by_cases hnone : k = 0
        · subst hnone
          rw [if_neg (Nat.lt_irrefl 0), if_pos rfl, List.nil_append]
          exact ⟨chunks, hchunks, hflat⟩
        · have hpart : Fits rate.toInt ((held.take k).length / 2) :=
            hfits.mono hrate (Nat.div_le_div_right (by
              rw [List.length_take, hlen]
              omega))
          obtain ⟨sent, hsent, hconverted⟩ := emit_eq beyond hrate hpart
          rw [if_pos (Nat.pos_of_ne_zero hnone), if_neg hnone, hsent, hchunks]
          refine ⟨sent ++ chunks, rfl, ?_⟩
          rw [List.flatten_append, hconverted, hflat]
      · -- nothing has come, and there was no whole block
        have hnil : buf = [] := List.eq_nil_of_length_eq_zero (by omega)
        have hzero : k = 0 := by
          rw [Nat.mod_eq_of_lt (by rw [← hheld, hnil, List.append_nil]; exact hpending)] at hdiv
          omega
        obtain rfl : pending = held := by rw [← hheld, hnil, List.append_nil]
        subst hzero
        rw [if_neg hbuf, if_pos rfl, List.nil_append]
        exact ⟨chunks, hchunks, hflat⟩

/-- A cut behind the last whole block, with whole blocks in front. -/
theorem take_blocks_append {block q : Nat} (hblock : 0 < block) {blocks : Bytes}
    (hlen : blocks.length = q * block) (rest : Bytes) :
    (blocks ++ rest).take ((blocks ++ rest).length / block * block)
      = blocks ++ rest.take (rest.length / block * block) := by
  rw [List.length_append, hlen, Nat.add_comm, Nat.add_mul_div_right _ _ hblock, Nat.add_mul,
    Nat.add_comm, ← hlen, List.take_length_add_append]

section Loop

variable {block : Nat} {pending : Bytes}

/-- Without resampling all bytes go out, but those behind the last whole block when
    EOF comes alone. -/
theorem sentAudio_plain (hblock : 0 < block) (hpending : pending.length < block)
    (reads : List Bytes) (last : Bytes) :
    sentAudio openAITTSRate block pending reads last
      = let body := pending ++ reads.flatten ++ last
        if last = [] then body.take (body.length / block * block) else body := by
  have hplain : ∀ pcm, converted openAITTSRate pcm = pcm := fun pcm => if_neg fun h => h rfl
  induction reads generalizing pending with
  | nil =>
      rw [sentAudio, hplain, List.flatten_nil, List.append_nil]
      dsimp only
      split
      · rename_i hlast
        rw [hlast, List.append_nil, Nat.div_eq_of_lt hpending, Nat.zero_mul, List.take_zero]
      · rfl
  | cons buf reads ih =>
      have hk : (pending ++ buf).length / block * block ≤ (pending ++ buf).length :=
        Nat.div_mul_le_self _ _
      have hrest : ((pending ++ buf).drop ((pending ++ buf).length / block * block)).length
          < block := by
        have hdiv := Nat.div_add_mod (pending ++ buf).length block
        have hmod := Nat.mod_lt (pending ++ buf).length hblock
        rw [Nat.mul_comm] at hdiv
        rw [List.length_drop]
        omega
      have hfirst : (if (pending ++ buf).length / block * block = 0 then []
          else converted openAITTSRate
            ((pending ++ buf).take ((pending ++ buf).length / block * block)))
          = (pending ++ buf).take ((pending ++ buf).length / block * block) := by
        rw [hplain]
        split
        · rename_i hzero
          rw [hzero, List.take_zero]
        · rfl
      have hbody : pending ++ (buf :: reads).flatten ++ last
          = (pending ++ buf).take ((pending ++ buf).length / block * block)
            ++ ((pending ++ buf).drop ((pending ++ buf).length / block * block)
              ++ reads.flatten ++ last) := by
        rw [List.flatten_cons, ← List.append_assoc, ← List.append_assoc, ← List.append_assoc,
          List.take_append_drop]
      rw [sentAudio]
      dsimp only
      rw [hfirst, ih hrest, hbody]
      dsimp only
      split
      · -- the cut of the rest is a cut of the whole
        refine (take_blocks_append (q := (pending ++ buf).length / block) hblock ?_ _).symm
        rw [List.length_take, Nat.min_eq_left hk]
      · rfl

end Loop

-- ============================================================================
-- The resampled body
-- ============================================================================

/-- What is behind the last whole block is sent, or is too little for an output. -/
def Flushed (rate : Int) (reads : List Bytes) (last : Bytes) : Prop :=
  if rate = openAITTSRate then last = [] ∨ (reads.flatten ++ last).length % 2 = 0
  else last ≠ [] ∨ outLen openAITTSRate.toNat rate.toNat
    ((reads.flatten ++ last).length / 2 % blockLen openAITTSRate.toNat rate.toNat) = 0

/-- The samples in whole blocks of `n` bytes. -/
def cutSamples (rate : Int) (n : Nat) : Nat :=
  n / resampleBlockBytes openAITTSRate rate * blockLen openAITTSRate.toNat rate.toNat

theorem joins_zero (f t : Nat) (w : List Int) : Joins f t w 0 := by
  intro _ i hi
  exact absurd hi (Nat.succ_ne_zero _)

section Resampled

variable {rate : Int}

theorem blockLen_pos (rate : Int) : 0 < blockLen openAITTSRate.toNat rate.toNat :=
  Nat.div_pos (Nat.le_of_dvd (by decide) (Nat.gcd_dvd_left _ _))
    (Nat.gcd_pos_of_pos_left _ (by decide))

/-- A cut of what is left behind `q` whole blocks is a cut of all. -/
theorem cutSamples_add (hrate : 0 < rate) (q n : Nat) :
    cutSamples rate (2 * (q * blockLen openAITTSRate.toNat rate.toNat) + n)
      = q * blockLen openAITTSRate.toNat rate.toNat + cutSamples rate n := by
  have hpos := blockLen_pos rate
  have hblock := resampleBlockBytes_eq (f := openAITTSRate) (t := rate) (by decide) hrate
  have hcomm : 2 * (q * blockLen openAITTSRate.toNat rate.toNat) + n
      = n + q * resampleBlockBytes openAITTSRate rate := by
    rw [hblock, Nat.mul_left_comm, Nat.add_comm]
  rw [cutSamples, hcomm, Nat.add_mul_div_right _ _ (by omega), Nat.add_mul, Nat.add_comm]
  rfl

/-- The cuts behind the reads to come: those of the rest, and the one in front of it. -/
theorem cuts_iff (hrate : 0 < rate) (body done rest : Bytes) (reads : List Bytes) {q : Nat}
    (hdone : done.length = 2 * (q * blockLen openAITTSRate.toNat rate.toNat))
    (hrest : rest.length < resampleBlockBytes openAITTSRate rate) :
    (Joins openAITTSRate.toNat rate.toNat (pcmSamples body)
        (q * blockLen openAITTSRate.toNat rate.toNat) ∧
      ∀ part, part <+: reads → Joins openAITTSRate.toNat rate.toNat
        ((pcmSamples body).drop (q * blockLen openAITTSRate.toNat rate.toNat))
        (cutSamples rate (rest ++ part.flatten).length)) ↔
      ∀ part, part <+: reads → Joins openAITTSRate.toNat rate.toNat (pcmSamples body)
        (cutSamples rate (done ++ rest ++ part.flatten).length) := by
  have hf : 0 < openAITTSRate.toNat := by decide
  have ht : 0 < rate.toNat := by omega
  have hdvd : blockLen openAITTSRate.toNat rate.toNat
      ∣ q * blockLen openAITTSRate.toNat rate.toNat := Nat.dvd_mul_left _ _
  have hcut : ∀ part : List Bytes, cutSamples rate (done ++ rest ++ part.flatten).length
      = q * blockLen openAITTSRate.toNat rate.toNat
        + cutSamples rate (rest ++ part.flatten).length := by
    intro part
    rw [List.append_assoc, List.length_append, hdone, cutSamples_add hrate]
  constructor
  · rintro ⟨hfirst, hothers⟩ part hpart
    rw [hcut]
    rcases Nat.eq_zero_or_pos (cutSamples rate (rest ++ part.flatten).length) with hzero | hsome
    · rw [hzero, Nat.add_zero]
      exact hfirst
    · exact (joins_drop_iff hf ht hdvd hsome).mp (hothers part hpart)
  · intro h
    constructor
    · have hnone := h [] (List.nil_prefix)
      rw [hcut, List.flatten_nil, List.append_nil, cutSamples, Nat.div_eq_of_lt hrest,
        Nat.zero_mul, Nat.add_zero] at hnone
      exact hnone
    · intro part hpart
      have hpart' := h part hpart
      rw [hcut] at hpart'
      rcases Nat.eq_zero_or_pos (cutSamples rate (rest ++ part.flatten).length) with hzero | hsome
      · rw [hzero]
        exact joins_zero _ _ _
      · exact (joins_drop_iff hf ht hdvd hsome).mpr hpart'

/-- The cuts of a body behind a read and those to come: the one behind no read is
    none. -/
theorem cuts_cons_iff {pending buf : Bytes} {reads : List Bytes} {w : List Int}
    (hpending : pending.length < resampleBlockBytes openAITTSRate rate) :
    (∀ part, part <+: buf :: reads → Joins openAITTSRate.toNat rate.toNat w
        (cutSamples rate (pending ++ part.flatten).length)) ↔
      ∀ part, part <+: reads → Joins openAITTSRate.toNat rate.toNat w
        (cutSamples rate (pending ++ buf ++ part.flatten).length) := by
  have hmove : ∀ part : List Bytes,
      pending ++ (buf :: part).flatten = pending ++ buf ++ part.flatten := by
    intro part
    rw [List.flatten_cons, List.append_assoc]
  constructor
  · intro h part hpart
    have hbuf := h (buf :: part) (List.cons_prefix_cons.mpr ⟨rfl, hpart⟩)
    rw [hmove] at hbuf
    exact hbuf
  · intro h part hpart
    cases part with
    | nil =>
        rw [List.flatten_nil, List.append_nil, cutSamples, Nat.div_eq_of_lt hpending, Nat.zero_mul]
        exact joins_zero _ _ _
    | cons buf' part =>
        obtain ⟨rfl, hrest⟩ := List.cons_prefix_cons.mp hpart
        rw [hmove]
        exact h part hrest

/-- Samples that come to nothing. -/
theorem nil_eq_resamplePCM16_iff (hrate : 0 < rate) (pcm : Bytes) :
    [] = resamplePCM16 pcm openAITTSRate rate ↔
      outLen openAITTSRate.toNat rate.toNat (pcm.length / 2) = 0 := by
  have hlen := length_putSamples (resample openAITTSRate.toNat rate.toNat (pcmSamples pcm))
  rw [length_resample, length_pcmSamples] at hlen
  rw [resamplePCM16_eq (by decide) hrate]
  constructor
  · intro hnil
    rw [← hnil, List.length_nil] at hlen
    omega
  · intro hzero
    exact (List.eq_nil_of_length_eq_zero (by omega)).symm

/-- The samples behind some whole blocks leave the same rest. -/
theorem half_mod_drop (q : Nat) {pcm : Bytes}
    (hle : 2 * (q * blockLen openAITTSRate.toNat rate.toNat) ≤ pcm.length) :
    pcm.length / 2 % blockLen openAITTSRate.toNat rate.toNat
      = (pcm.drop (2 * (q * blockLen openAITTSRate.toNat rate.toNat))).length / 2
        % blockLen openAITTSRate.toNat rate.toNat := by
  have hhalf : pcm.length / 2
      = (pcm.drop (2 * (q * blockLen openAITTSRate.toNat rate.toNat))).length / 2
        + q * blockLen openAITTSRate.toNat rate.toNat := by
    rw [List.length_drop]
    omega
  rw [hhalf, Nat.add_mul_mod_self_right]

/-- A read sends the whole blocks of what is held then, and keeps the rest. -/
theorem sentAudio_blocks (hne : rate ≠ openAITTSRate) {pending buf held : Bytes}
    (reads : List Bytes) (last more : Bytes) {q : Nat}
    (hheld : pending ++ buf = held)
    (hq : held.length / resampleBlockBytes openAITTSRate rate = q)
    (hk : q * resampleBlockBytes openAITTSRate rate
      = 2 * (q * blockLen openAITTSRate.toNat rate.toNat))
    (hle : 2 * (q * blockLen openAITTSRate.toNat rate.toNat) ≤ held.length) :
    sentAudio rate (resampleBlockBytes openAITTSRate rate) pending (buf :: reads) last
      = resamplePCM16 ((held ++ more).take (2 * (q * blockLen openAITTSRate.toNat rate.toNat)))
          openAITTSRate rate
        ++ sentAudio rate (resampleBlockBytes openAITTSRate rate)
            (held.drop (2 * (q * blockLen openAITTSRate.toNat rate.toNat))) reads last := by
  have hconv : ∀ pcm, converted rate pcm = resamplePCM16 pcm openAITTSRate rate :=
    fun pcm => if_pos hne
  rw [sentAudio, hheld, hq, hk, hconv, List.take_append_of_le_length hle]
  split
  · rename_i hzero
    rw [hzero, List.take_zero]
    rfl
  · rfl

/-- The loop sends the resampled stream exactly when it sends all of it and every
    cut joins. -/
theorem sentAudio_resampled_iff (hrate : 0 < rate) (hne : rate ≠ openAITTSRate)
    (reads : List Bytes) (last pending : Bytes)
    (hpending : pending.length < resampleBlockBytes openAITTSRate rate) :
    sentAudio rate (resampleBlockBytes openAITTSRate rate) pending reads last
        = resamplePCM16 (pending ++ reads.flatten ++ last) openAITTSRate rate ↔
      (last ≠ [] ∨ outLen openAITTSRate.toNat rate.toNat
        ((pending ++ reads.flatten ++ last).length / 2
          % blockLen openAITTSRate.toNat rate.toNat) = 0) ∧
      ∀ part, part <+: reads → Joins openAITTSRate.toNat rate.toNat
        (pcmSamples (pending ++ reads.flatten ++ last))
        (cutSamples rate (pending ++ part.flatten).length) := by
  have hpos := blockLen_pos rate
  have hblock := resampleBlockBytes_eq (f := openAITTSRate) (t := rate) (by decide) hrate
  have hconv : ∀ pcm, converted rate pcm = resamplePCM16 pcm openAITTSRate rate :=
    fun pcm => if_pos hne
  induction reads generalizing pending with
  | nil =>
      have hcuts : ∀ part : List Bytes, part <+: [] → Joins openAITTSRate.toNat rate.toNat
          (pcmSamples (pending ++ ([] : List Bytes).flatten ++ last))
          (cutSamples rate (pending ++ part.flatten).length) := by
        intro part hpart
        rw [List.prefix_nil.mp hpart, List.flatten_nil, List.append_nil, cutSamples,
          Nat.div_eq_of_lt hpending, Nat.zero_mul]
        exact joins_zero _ _ _
      rw [sentAudio, hconv, List.flatten_nil, List.append_nil]
      rw [List.flatten_nil, List.append_nil] at hcuts
      by_cases hlast : last = []
      · -- EOF comes alone: the rest is lost
        have hrest : pending.length / 2 % blockLen openAITTSRate.toNat rate.toNat
            = pending.length / 2 := Nat.mod_eq_of_lt (by omega)
        rw [hlast] at hcuts ⊢
        rw [if_pos rfl, List.append_nil, hrest, nil_eq_resamplePCM16_iff hrate]
        rw [List.append_nil] at hcuts
        exact ⟨fun h => ⟨.inr h, hcuts⟩, fun h => h.1.resolve_left fun hne => hne rfl⟩
      · rw [if_neg hlast]
        exact ⟨fun _ => ⟨.inl hlast, hcuts⟩, fun _ => rfl⟩
  | cons buf reads ih =>
      -- the bytes there are, and their whole blocks
      generalize hheld : pending ++ buf = held
      generalize hq : held.length / resampleBlockBytes openAITTSRate rate = q
      have hk : q * resampleBlockBytes openAITTSRate rate
          = 2 * (q * blockLen openAITTSRate.toNat rate.toNat) := by
        rw [hblock, Nat.mul_left_comm]
      have hdiv := Nat.div_add_mod held.length (resampleBlockBytes openAITTSRate rate)
      have hmod := Nat.mod_lt held.length
        (show 0 < resampleBlockBytes openAITTSRate rate by omega)
      rw [hq, Nat.mul_comm, hk] at hdiv
      have hbody : pending ++ (buf :: reads).flatten ++ last
          = held ++ (reads.flatten ++ last) := by
        rw [List.flatten_cons, ← hheld, List.append_assoc, List.append_assoc, List.append_assoc]
      have hloop := sentAudio_blocks hne reads last (reads.flatten ++ last) hheld hq hk
        (by omega)
      have hrest : (held.drop (2 * (q * blockLen openAITTSRate.toNat rate.toNat))).length
          < resampleBlockBytes openAITTSRate rate := by
        rw [List.length_drop]
        omega
      have hdrop : held.drop (2 * (q * blockLen openAITTSRate.toNat rate.toNat))
            ++ reads.flatten ++ last
          = (held ++ (reads.flatten ++ last)).drop
            (2 * (q * blockLen openAITTSRate.toNat rate.toNat)) := by
        rw [List.drop_append_of_le_length (by omega), List.append_assoc]
      have hle : 2 * (q * blockLen openAITTSRate.toNat rate.toNat)
          ≤ (held ++ (reads.flatten ++ last)).length := by
        rw [List.length_append]
        omega
      have htail := half_mod_drop q hle
      have hsplit := cuts_iff (q := q) hrate (held ++ (reads.flatten ++ last))
        (held.take (2 * (q * blockLen openAITTSRate.toNat rate.toNat)))
        (held.drop (2 * (q * blockLen openAITTSRate.toNat rate.toNat))) reads
        (by rw [List.length_take]; omega) hrest
      rw [List.take_append_drop] at hsplit
      have hih := ih _ hrest
      rw [hdrop, pcmSamples_drop, ← htail] at hih
      rw [hbody, hloop, resamplePCM16_cut_iff (by decide) hrate hle
        (Nat.dvd_mul_left _ _), cuts_cons_iff hpending, hheld, ← hsplit]
      exact (and_congr Iff.rfl hih).trans and_left_comm

end Resampled

-- ============================================================================
-- Synthesize
-- ============================================================================

/-- At its own rate a body is cut to whole samples. -/
theorem resamplePCM16_same (pcm : Bytes) :
    resamplePCM16 pcm openAITTSRate openAITTSRate = pcm.take (pcm.length / 2 * 2) := by
  rw [resamplePCM16]
  split
  · rename_i hshort
    rw [Nat.div_eq_of_lt hshort, Nat.zero_mul, List.take_zero]
  · rw [if_pos (.inr (.inr rfl))]
    congr 1
    omega

/-- The body is resampled exactly where its sizes fit, and at its own rate. -/
theorem resampleLoop_body (beyond : Int → Int) {rate : Int64} (hrate : 0 < rate.toInt)
    {body : Bytes} (hfits : Fits rate.toInt (body.length / 2)) :
    resampleLoop beyond body (.ofInt openAITTSRate) rate
      = some (resamplePCM16 body openAITTSRate rate.toInt) := by
  rcases hfits with hown | hfits
  · obtain rfl := ofInt_rate_eq.mpr hown
    rw [resampleLoop, hown, resamplePCM16]
    split
    · rfl
    · rw [if_pos (.inr (.inr rfl)), if_pos (.inr (.inr rfl))]
  · exact resampleLoop_eq beyond (by decide) hrate hfits

/-- What is sent is the resampled body exactly when all of it is sent and every cut
    behind a read joins. -/
theorem sentAudio_eq_whole_iff {rate : Int} (hrate : 0 < rate) (reads : List Bytes)
    (last : Bytes) :
    sentAudio rate (resampleBlockBytes openAITTSRate rate) [] reads last
        = resamplePCM16 (reads.flatten ++ last) openAITTSRate rate ↔
      Flushed rate reads last ∧ ∀ part, part <+: reads →
        Joins openAITTSRate.toNat rate.toNat (pcmSamples (reads.flatten ++ last))
          (cutSamples rate part.flatten.length) := by
  have hpos := blockLen_pos rate
  have hblock := resampleBlockBytes_eq (f := openAITTSRate) (t := rate) (by decide) hrate
  have hempty : ([] : Bytes).length < resampleBlockBytes openAITTSRate rate := by
    rw [List.length_nil]
    omega
  rw [Flushed]
  by_cases hne : rate = openAITTSRate
  · subst hne
    have hjoins : ∀ part : List Bytes, part <+: reads →
        Joins openAITTSRate.toNat openAITTSRate.toNat (pcmSamples (reads.flatten ++ last))
          (cutSamples openAITTSRate part.flatten.length) := by
      intro part _ _ i _
      rw [Nat.mul_mod_left, between_zero _ _ (by decide)]
    have htwo : resampleBlockBytes openAITTSRate openAITTSRate = 2 := by
      rw [hblock]
      decide
    rw [if_pos rfl, sentAudio_plain (by omega) hempty, htwo, resamplePCM16_same]
    dsimp only
    rw [List.nil_append]
    generalize hbody : reads.flatten ++ last = body at hjoins ⊢
    constructor
    · intro h
      refine ⟨?_, hjoins⟩
      by_cases hlast : last = []
      · exact .inl hlast
      · rw [if_neg hlast] at h
        have hlen := congrArg List.length h
        rw [List.length_take] at hlen
        exact .inr (by omega)
    · rintro ⟨hflushed, -⟩
      split
      · rfl
      · rename_i hlast
        have heven := hflushed.resolve_left hlast
        exact (List.take_of_length_le (by omega)).symm
  · rw [if_neg hne]
    have hiff := sentAudio_resampled_iff hrate hne reads last [] hempty
    simp only [List.nil_append] at hiff
    exact hiff

/-- **The chunks are the resampled body exactly when all of it is sent and every cut
    behind a read joins.**  For every session rate, every body whose sizes fit and every
    way it is read. -/
theorem synthesize_eq_whole_iff (beyond : Int → Int) (rate : Int64) (hrate : 0 < rate.toInt)
    (reads : List Bytes) (last : Bytes)
    (hfits : Fits rate.toInt ((reads.flatten ++ last).length / 2)) :
    OpenAITTS.SendsWhole beyond rate reads last ↔
      Flushed rate.toInt reads last ∧ ∀ part, part <+: reads →
        Joins openAITTSRate.toNat rate.toInt.toNat (pcmSamples (reads.flatten ++ last))
          (cutSamples rate.toInt part.flatten.length) := by
  have hempty : ([] : Bytes).length < resampleBlockBytes openAITTSRate rate.toInt := by
    have hpos := blockLen_pos rate.toInt
    rw [List.length_nil, resampleBlockBytes_eq (by decide) hrate]
    omega
  have hset : ¬ rate = 0 := by
    rintro rfl
    exact absurd hrate (by decide)
  obtain ⟨chunks, hchunks, hflat⟩ := readLoop_eq beyond hrate hempty reads last hfits
  rw [← sentAudio_eq_whole_iff hrate, ← hflat, OpenAITTS.SendsWhole, OpenAITTS.synthesize,
    if_neg hset, resampleLoop_body beyond hrate hfits]
  constructor
  · rintro ⟨chunks', hchunks', hwhole⟩
    obtain rfl := Option.some.inj (hchunks.symm.trans hchunks')
    exact (Option.some.inj hwhole).symm
  · exact fun hwhole => ⟨chunks, hchunks, congrArg some hwhole.symm⟩

/-- A body of two samples at 16 kHz, EOF alone. -/
theorem synthesize_eq_whole_iff_short :
    OpenAITTS.SendsWhole id 16000 [[1, 0, 2, 0]] [] ↔
      Flushed 16000 [[1, 0, 2, 0]] [] ∧ ∀ part : List Bytes, part <+: [[1, 0, 2, 0]] →
        Joins openAITTSRate.toNat (16000 : Int).toNat (pcmSamples ([[1, 0, 2, 0]].flatten ++ []))
          (cutSamples 16000 part.flatten.length) :=
  synthesize_eq_whole_iff id 16000 (by decide) [[1, 0, 2, 0]] [] (.inr ⟨by decide, by decide⟩)

/-- Two samples make one at 16 kHz; with EOF on a read of its own they are less than a
    block and nothing is sent. -/
theorem synthesize_drops_tail : ¬ OpenAITTS.SendsWhole id 16000 [[1, 0, 2, 0]] [] := by
  rintro ⟨chunks, hchunks, hwhole⟩
  have hnone : OpenAITTS.synthesize id 16000 [[1, 0, 2, 0]] [] = some [] := by decide +kernel
  obtain rfl := Option.some.inj (hnone.symm.trans hchunks)
  exact absurd hwhole (by decide +kernel)

/-- When EOF comes with bytes, a session of less than 24 kHz gets the body however it
    is read. -/
theorem sendsWhole_of_down (beyond : Int → Int) {rate : Int64} (hrate : 0 < rate.toInt)
    (hdown : rate.toInt < openAITTSRate) (reads : List Bytes) {last : Bytes} (hlast : last ≠ [])
    (hfits : Fits rate.toInt ((reads.flatten ++ last).length / 2)) :
    OpenAITTS.SendsWhole beyond rate reads last := by
  have hnat : rate.toInt.toNat < openAITTSRate.toNat := by
    unfold openAITTSRate at hdown ⊢
    omega
  refine (synthesize_eq_whole_iff beyond rate hrate reads last hfits).mpr
    ⟨?_, fun part _ => joins_of_down (by omega) hnat _ (Nat.dvd_mul_left _ _)⟩
  rw [Flushed, if_neg (Int.ne_of_lt hdown)]
  exact .inl hlast

end FsBridge.Providers
