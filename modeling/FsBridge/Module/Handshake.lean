/-
  FsBridge.Module.Handshake

  The parameters of a stream across the handshake: the module appends them to the URL
  (`StreamUri`), the server reads them from the query (`QueryParams`).

  The URL the parameters are appended to is cut into the part that stays in `ws_uri`
  and what the cut leaves of the appended part.  `Carries` says that this part reaches
  the query at all; then `RateKept`, `MixKept` and `UuidKept` say when the first value
  of each key is the right one.  Where it does not, nothing long enough to be the uuid
  is in the query (`serveWS_short`).
-/

import FsBridge.Bridge.QueryParams
import FsBridge.Module.StreamUri

namespace FsBridge.Module.Handshake

open FsBridge.Lib
open FsBridge.Lib.Decimal (print)
open FsBridge.Lib.Query (amp cut get parseQuery IsKey IsValue)
open FsBridge.Bridge.QueryParams
open FsBridge.Module.StreamUri

-- ============================================================================
-- When the parameters survive
-- ============================================================================

/-- What `ws_uri` keeps of the URL itself. -/
def kept (uri : Bytes) : Bytes := uri.take (maxWsUri - 1)

/-- How many bytes of the parameters `ws_uri` has room for, behind the separator. -/
def room (uri : Bytes) : Nat := maxWsUri - 1 - uri.length - 1

/-- The query the URL came with, as far as it is kept. -/
def ownQuery (uri : Bytes) : List (Bytes × Bytes) :=
  parseQuery (rawQuery (requestTarget (kept uri)))

/-- The client takes a path from the URL, and a question mark of the URL is in it. -/
structure Carries (uri : Bytes) : Prop where
  slash : ∃ secure rest, afterScheme (kept uri) = some (secure, rest) ∧ slash ∈ rest
  target : requestTarget (kept uri) ≠ []
  query : question ∈ uri → question ∈ requestTarget (kept uri)

/-- The URL has a rate of its own that decodes to this one; or it has none, and the rate
    is not cut, or cut away completely and the default. -/
def RateKept (uri : Bytes) (rate : Int) : Prop :=
  match (ownQuery uri).lookup (ascii "rate") with
  | some v => queryInt v 16000 = rate
  | none => 5 + (print rate).length ≤ room uri ∨ room uri ≤ 5 ∧ rate = 16000

/-- Likewise the mix, which is `mono` by default, and which is never sent as `mixed`. -/
def MixKept (uri : Bytes) (rate : Int) (mix : Mix) : Prop :=
  match (ownQuery uri).lookup (ascii "mix") with
  | some v => queryDefault v (ascii "mono") = mix.name
  | none => mix ≠ .mixed ∧
      (10 + (print rate).length + mix.name.length ≤ room uri ∨
        mix = .mono ∧ room uri ≤ 10 + (print rate).length)

/-- The uuid goes into the URL as it is, so it must not need any escape. -/
def UuidKept (uri : Bytes) (rate : Int) (mix : Mix) (uuid : Bytes) : Prop :=
  match (ownQuery uri).lookup (ascii "uuid") with
  | some v => v = uuid
  | none => uuid = [] ∨
      IsValue uuid ∧ uuid.length ≤ maxSessionId ∧
        16 + (print rate).length + (mixParam mix.channels).length + uuid.length ≤ room uri

/-- The parameters arrive in the query, or the server's defaults are what was asked for. -/
def ParamsKept (uri : Bytes) (rate : Int) (mix : Mix) (uuid : Bytes) : Prop :=
  Carries uri ∧ RateKept uri rate ∧ MixKept uri rate mix ∧ UuidKept uri rate mix uuid ∨
    ¬ Carries uri ∧ rate = 16000 ∧ mix = .mono ∧ uuid = []

-- ============================================================================
-- The target
-- ============================================================================

def scheme (secure : Bool) : Bytes := if secure then ascii "wss://" else ascii "ws://"

theorem afterScheme_scheme (secure : Bool) (rest : Bytes) :
    afterScheme (scheme secure ++ rest) = some (secure, rest) := by
  cases secure with
  | false => simp [afterScheme, scheme, ascii]
  | true => simp [afterScheme, scheme, ascii]

theorem eq_scheme_of_afterScheme {url rest : Bytes} {secure : Bool}
    (h : afterScheme url = some (secure, rest)) : url = scheme secure ++ rest := by
  unfold afterScheme at h
  split at h
  · rename_i hprefix
    obtain ⟨rfl, rfl⟩ := Prod.mk.inj (Option.some.inj h)
    obtain ⟨t, rfl⟩ := hprefix
    rfl
  · split at h
    · rename_i hprefix
      obtain ⟨rfl, rfl⟩ := Prod.mk.inj (Option.some.inj h)
      obtain ⟨t, rfl⟩ := hprefix
      rfl
    · exact absurd h (by simp)

theorem length_scheme_le (secure : Bool) : (scheme secure).length ≤ 6 := by
  cases secure <;> decide

/-- The client makes something of the host and the port. -/
def HostOk (rest : Bytes) : Prop :=
  let hostport := rest.takeWhile (· != slash)
  (if colon ∈ hostport then (cut colon hostport).1 else hostport) ≠ [] ∧
    (colon ∈ hostport → stoi (cut colon hostport).2 ≠ none)

instance (rest : Bytes) : Decidable (HostOk rest) := by
  unfold HostOk
  infer_instance

/-- The target of a URL with a host and a port that are accepted is its path. -/
theorem requestTarget_scheme (secure : Bool) (rest : Bytes) :
    requestTarget (scheme secure ++ rest) = if HostOk rest then pathOf rest else [] := by
  rw [requestTarget, setUrl, afterScheme_scheme]
  unfold HostOk
  by_cases hcolon : colon ∈ rest.takeWhile (· != slash)
  · simp only [hcolon, if_true]
    cases stoi (cut colon (rest.takeWhile (· != slash))).2 with
    | none => simp
    | some port =>
        by_cases hhost : (cut colon (rest.takeWhile (· != slash))).1 = []
        · simp [hhost]
        · simp [hhost]
  · simp only [hcolon, if_false]
    by_cases hhost : rest.takeWhile (· != slash) = []
    · simp [hhost]
    · simp [hhost]

theorem takeWhile_append_slash {a : Bytes} (h : slash ∈ a) (b : Bytes) :
    (a ++ b).takeWhile (· != slash) = a.takeWhile (· != slash) := by
  obtain ⟨x, y, rfl, hx⟩ := List.eq_append_cons_of_mem h
  have hall := Query.bne_of_not_mem hx
  rw [List.append_assoc, List.takeWhile_append_of_pos hall, List.takeWhile_append_of_pos hall]
  simp

/-- What is behind the first slash does not matter for the host. -/
theorem hostOk_append {a : Bytes} (h : slash ∈ a) (b : Bytes) : HostOk (a ++ b) ↔ HostOk a := by
  unfold HostOk
  rw [takeWhile_append_slash h]

theorem dropWhile_append_of_not_mem {a : Bytes} (h : slash ∉ a) (b : Bytes) :
    (a ++ b).dropWhile (· != slash) = b.dropWhile (· != slash) := by
  apply List.dropWhile_append_of_pos
  exact Query.bne_of_not_mem h

theorem pathOf_append {a : Bytes} (h : slash ∈ a) (b : Bytes) :
    pathOf (a ++ b) = pathOf a ++ b := by
  obtain ⟨x, y, rfl, hx⟩ := List.eq_append_cons_of_mem h
  rw [pathOf, pathOf, if_pos (List.mem_append_left _ h), if_pos h, List.append_assoc,
    dropWhile_append_of_not_mem hx, dropWhile_append_of_not_mem hx]
  simp

theorem mem_of_mem_pathOf {c : UInt8} {rest : Bytes} (h : slash ∈ rest) (hc : c ∈ pathOf rest) :
    c ∈ rest := by
  rw [pathOf, if_pos h] at hc
  exact List.dropWhile_subset _ hc

-- ============================================================================
-- The URL
-- ============================================================================

theorem eq_name_of_parseMix {arg : Bytes} {mix : Mix} (h : parseMix arg = some mix) :
    arg = mix.name := by
  unfold parseMix at h
  split at h
  · obtain rfl := Option.some.inj h
    assumption
  · split at h
    · obtain rfl := Option.some.inj h
      assumption
    · split at h
      · obtain rfl := Option.some.inj h
        assumption
      · exact absurd h (by simp)

/-- What a start that is accepted has been given. -/
theorem startCommand_eq_some {url mixArg beyond : Bytes} {rateArg : Option Bytes} {start : Start}
    (h : startCommand url mixArg rateArg beyond = some start) :
    mixArg = start.mix.name ∧ validateWsUri url ∧ start.wsUri = copiedUri url beyond := by
  unfold startCommand at h
  cases hmix : parseMix mixArg with
  | none =>
      rw [hmix] at h
      exact absurd h (by simp)
  | some mix =>
      rw [hmix] at h
      simp only at h
      split at h
      · exact absurd h (by simp)
      · rename_i hvalid
        split at h
        · exact absurd h (by simp)
        · obtain rfl := Option.some.inj h
          exact ⟨eq_name_of_parseMix hmix, by simpa using hvalid, rfl⟩

theorem exists_scheme_of_validateWsUri {url : Bytes} (h : validateWsUri url) :
    ∃ secure rest, url = scheme secure ++ rest := by
  unfold validateWsUri at h
  cases hscheme : afterScheme url with
  | none =>
      rw [hscheme] at h
      exact absurd h (by simp)
  | some p =>
      obtain ⟨secure, rest⟩ := p
      exact ⟨secure, rest, eq_scheme_of_afterScheme hscheme⟩

theorem exists_scheme_of_copiedUri (secure : Bool) (rest beyond : Bytes) :
    ∃ rest', copiedUri (scheme secure ++ rest) beyond = scheme secure ++ rest' := by
  have hlen := length_scheme_le secure
  rw [copiedUri]
  split
  · exact ⟨rest, rfl⟩
  · refine ⟨rest.take (maxWsUri - (scheme secure).length) ++ beyond, ?_⟩
    rw [List.take_append, List.take_of_length_le (by unfold maxWsUri; omega), List.append_assoc]

/-- Resolving the host keeps the scheme. -/
theorem exists_scheme_of_preResolve (resolver : Resolver) (secure : Bool) (rest : Bytes) :
    ∃ rest', preResolve resolver (scheme secure ++ rest) = scheme secure ++ rest' := by
  unfold preResolve
  split
  · rename_i hprefix
    simp only
    split
    · split
      · exact ⟨rest, rfl⟩
      · cases secure with
        | false =>
            rw [List.append_assoc]
            exact ⟨_, rfl⟩
        | true => exact absurd hprefix (by simp [scheme, ascii])
    · exact ⟨rest, rfl⟩
  · exact ⟨rest, rfl⟩

/-- The parameters up to the uuid. -/
def front (sampling : Int32) (mix : Bytes) : Bytes :=
  ascii "rate" ++ Query.eq :: print sampling.toInt ++ amp ::
    (ascii "mix" ++ Query.eq :: mix ++ amp :: (ascii "uuid" ++ [Query.eq]))

theorem params_eq (sampling : Int32) (mix sessionId : Bytes) :
    params sampling mix sessionId = front sampling mix ++ sessionId := by
  simp [params, front]

theorem not_mem_front {sampling : Int32} {channels : Nat} {c : UInt8}
    (hc : c = slash ∨ c = question) : c ∉ front sampling (mixParam channels) := by
  have hprint : c ∉ print sampling.toInt := by
    intro hmem
    rcases Decimal.mem_print hmem with rfl | hdigit
    · exact absurd hc (by decide)
    · rcases hc with rfl | rfl
      · exact absurd hdigit (by decide)
      · exact absurd hdigit (by decide)
  have hmix : c ∉ mixParam channels := by
    unfold mixParam
    split
    · rcases hc with rfl | rfl <;> decide
    · rcases hc with rfl | rfl <;> decide
  unfold front
  simp only [List.mem_append, List.mem_cons, not_or]
  refine ⟨⟨?_, ?_, hprint⟩, ?_, ⟨?_, ?_, hmix⟩, ?_, ?_, ?_⟩ <;> rcases hc with rfl | rfl <;> decide

/-- `ws_uri`: what is kept of the URL, then what is left of the separator and the
    parameters. -/
theorem streamUri_eq {resolver : Resolver} {start : Start} {secure : Bool} {rest : Bytes}
    (uuid : Bytes) (huri : preResolve resolver start.wsUri = scheme secure ++ rest) :
    streamUri resolver start uuid
      = scheme secure ++ (rest.take (maxWsUri - 1 - (scheme secure).length) ++
          (separator (scheme secure ++ rest) ::
            params start.sampling (mixParam start.mix.channels) (uuid.take maxSessionId)).take
              (maxWsUri - 1 - (scheme secure ++ rest).length)) := by
  have hlen := length_scheme_le secure
  rw [streamUri, huri]
  rw [List.take_append, List.take_append, List.take_of_length_le (by unfold maxWsUri; omega),
    List.append_assoc]

theorem kept_eq (secure : Bool) (rest : Bytes) :
    kept (scheme secure ++ rest)
      = scheme secure ++ rest.take (maxWsUri - 1 - (scheme secure).length) := by
  have hlen := length_scheme_le secure
  rw [kept, List.take_append, List.take_of_length_le (by unfold maxWsUri; omega)]

/-- `Carries`, on the two parts of the URL. -/
theorem carries_iff (secure : Bool) (rest : Bytes) :
    Carries (scheme secure ++ rest) ↔
      slash ∈ rest.take (maxWsUri - 1 - (scheme secure).length) ∧
        HostOk (rest.take (maxWsUri - 1 - (scheme secure).length)) ∧
          (question ∈ scheme secure ++ rest →
            question ∈ pathOf (rest.take (maxWsUri - 1 - (scheme secure).length))) := by
  have hkept := kept_eq secure rest
  have htarget := requestTarget_scheme secure (rest.take (maxWsUri - 1 - (scheme secure).length))
  rw [← hkept] at htarget
  constructor
  · rintro ⟨⟨secure', rest', hscheme, hslash⟩, hne, hquery⟩
    rw [hkept, afterScheme_scheme] at hscheme
    obtain ⟨rfl, rfl⟩ := Prod.mk.inj (Option.some.inj hscheme)
    have hhost : HostOk (rest.take (maxWsUri - 1 - (scheme secure).length)) := by
      by_contra hbad
      rw [htarget, if_neg hbad] at hne
      exact hne rfl
    rw [htarget, if_pos hhost] at hquery
    exact ⟨hslash, hhost, hquery⟩
  · rintro ⟨hslash, hhost, hquery⟩
    rw [if_pos hhost] at htarget
    refine ⟨⟨secure, _, ?_, hslash⟩, ?_, ?_⟩
    · rw [hkept, afterScheme_scheme]
    · obtain ⟨x, y, hsplit, hx⟩ := List.eq_append_cons_of_mem hslash
      rw [htarget, pathOf, if_pos hslash, hsplit, dropWhile_append_of_not_mem hx]
      simp
    · rw [htarget]
      exact hquery

-- ============================================================================
-- Parameters that do not arrive
-- ============================================================================

theorem uuid_isKey : IsKey (ascii "uuid") := ⟨by decide, by decide, by decide⟩

/-- A query no longer than the uuid does not carry it. -/
theorem serveWS_short {target uuid : Bytes} (hlen : (rawQuery target).length ≤ uuid.length)
    (rate : Int) (mix : Mix) :
    serveWS target = ⟨rate, mix.name, uuid⟩ ↔ rate = 16000 ∧ mix = .mono ∧ uuid = [] := by
  by_cases huuid : uuid = []
  · subst huuid
    have hempty : rawQuery target = [] := List.length_eq_zero_iff.mp (by simpa using hlen)
    have hdefaults : serveWS target = ⟨16000, ascii "mono", []⟩ := by
      rw [serveWS, hempty]
      rfl
    rw [hdefaults, SessionParams.mk.injEq]
    constructor
    · rintro ⟨hrate, hmix, -⟩
      refine ⟨hrate.symm, ?_, rfl⟩
      cases mix with
      | mono => rfl
      | mixed => exact absurd hmix (by decide)
      | stereo => exact absurd hmix (by decide)
    · rintro ⟨rfl, rfl, -⟩
      exact ⟨rfl, rfl, rfl⟩
  · constructor
    · intro h
      have hget : get (parseQuery (rawQuery target)) (ascii "uuid") = uuid :=
        congrArg SessionParams.fsUUID h
      have hne : get (parseQuery (rawQuery target)) (ascii "uuid") ≠ [] := by
        rw [hget]
        exact huuid
      have hle := Query.length_of_get hne
      rw [hget] at hle
      omega
    · rintro ⟨-, -, hnil⟩
      exact absurd hnil huuid

theorem length_rawQuery_le (target : Bytes) : (rawQuery target).length ≤ target.length :=
  Query.length_cut_snd_le _ _

/-- What is left of the appended part: some of it up to the uuid, and some of the uuid. -/
theorem tail_eq (sep : UInt8) (sampling : Int32) (mix sessionId : Bytes) (j : Nat) :
    ∃ i, (sep :: params sampling mix sessionId).take j
      = (sep :: front sampling mix).take j ++ sessionId.take i := by
  refine ⟨j - (sep :: front sampling mix).length, ?_⟩
  rw [params_eq, ← List.cons_append, List.take_append]

/-- Where the parameters do not get into the query, it is no longer than the uuid. -/
theorem length_rawQuery_of_not_carries {resolver : Resolver} {start : Start} {uuid : Bytes}
    {secure : Bool} {rest : Bytes}
    (huri : preResolve resolver start.wsUri = scheme secure ++ rest)
    (hno : ¬ Carries (scheme secure ++ rest)) :
    (rawQuery (requestTarget (streamUri resolver start uuid))).length ≤ uuid.length := by
  rw [carries_iff] at hno
  rw [streamUri_eq uuid huri, requestTarget_scheme]
  generalize hsep : separator (scheme secure ++ rest) = sep
  obtain ⟨i, htail⟩ := tail_eq sep start.sampling (mixParam start.mix.channels)
    (uuid.take maxSessionId) (maxWsUri - 1 - (scheme secure ++ rest).length)
  have hid : ((uuid.take maxSessionId).take i).length ≤ uuid.length := by
    rw [List.length_take, List.length_take]
    omega
  rw [htail]
  generalize rest.take (maxWsUri - 1 - (scheme secure).length) = path at hno ⊢
  generalize hfront : (sep :: front start.sampling (mixParam start.mix.channels)).take
    (maxWsUri - 1 - (scheme secure ++ rest).length) = some_front
  generalize (uuid.take maxSessionId).take i = id at hid ⊢
  have hclean : ∀ c, c = slash ∨ c = question → c ≠ sep → c ∉ some_front := by
    intro c hc hcsep hmem
    rw [← hfront] at hmem
    rcases List.mem_cons.mp (List.mem_of_mem_take hmem) with heq | hmem
    · exact hcsep heq
    · exact not_mem_front hc hmem
  have hslashsep : slash ≠ sep := by
    rw [← hsep, separator]
    split <;> decide
  by_cases hslash : slash ∈ path
  · rw [pathOf_append hslash]
    simp only [hostOk_append hslash]
    by_cases hhost : HostOk path
    · -- the question mark of the URL is not in its path
      have hquery : question ∈ scheme secure ++ rest ∧ question ∉ pathOf path := by
        by_contra hboth
        exact hno ⟨hslash, hhost, fun hmem => by_contra fun hmiss => hboth ⟨hmem, hmiss⟩⟩
      have hamp : sep = amp := by rw [← hsep, separator, if_pos hquery.1]
      have hmiss : question ∉ pathOf path ++ some_front := by
        rw [List.mem_append, not_or]
        exact ⟨hquery.2, hclean question (.inr rfl) (by rw [hamp]; decide)⟩
      rw [if_pos hhost, ← List.append_assoc]
      show (cut question (pathOf path ++ some_front ++ id)).2.length ≤ uuid.length
      rw [Query.cut_snd_append_of_not_mem hmiss]
      exact Nat.le_trans (Query.length_cut_snd_le _ _) hid
    · rw [if_neg hhost]
      exact Nat.zero_le _
  · split
    · have hmiss : slash ∉ path ++ some_front := by
        rw [List.mem_append, not_or]
        exact ⟨hslash, hclean slash (.inl rfl) hslashsep⟩
      rw [pathOf]
      split
      · refine Nat.le_trans (length_rawQuery_le _) ?_
        rw [← List.append_assoc, dropWhile_append_of_not_mem hmiss]
        exact Nat.le_trans (List.dropWhile_suffix _).length_le hid
      · exact Nat.zero_le _
    · exact Nat.zero_le _

-- ============================================================================
-- Parameters that arrive
-- ============================================================================

/-- The query of the request: the URL's own, then what is left of the parameters. -/
theorem parseQuery_target {resolver : Resolver} {start : Start} {secure : Bool} {rest : Bytes}
    (uuid : Bytes) (huri : preResolve resolver start.wsUri = scheme secure ++ rest)
    (hcarries : Carries (scheme secure ++ rest)) :
    parseQuery (rawQuery (requestTarget (streamUri resolver start uuid)))
      = ownQuery (scheme secure ++ rest) ++
        parseQuery ((params start.sampling (mixParam start.mix.channels)
          (uuid.take maxSessionId)).take (room (scheme secure ++ rest))) := by
  obtain ⟨hslash, hhost, hquery⟩ := (carries_iff secure rest).mp hcarries
  have hown : requestTarget (kept (scheme secure ++ rest))
      = pathOf (rest.take (maxWsUri - 1 - (scheme secure).length)) := by
    rw [kept_eq, requestTarget_scheme, if_pos hhost]
  have htarget := streamUri_eq uuid huri
  rw [htarget, requestTarget_scheme, if_pos ((hostOk_append hslash _).mpr hhost),
    pathOf_append hslash, ownQuery, hown]
  have hsub : question ∈ pathOf (rest.take (maxWsUri - 1 - (scheme secure).length)) →
      question ∈ scheme secure ++ rest := fun hmem =>
    List.mem_append_right _ (List.mem_of_mem_take (mem_of_mem_pathOf hslash hmem))
  generalize params start.sampling (mixParam start.mix.channels) (uuid.take maxSessionId) = sent
  generalize pathOf (rest.take (maxWsUri - 1 - (scheme secure).length)) = path at hquery hsub ⊢
  rw [room]
  generalize maxWsUri - 1 - (scheme secure ++ rest).length = left
  by_cases hmem : question ∈ path
  · rw [separator, if_pos (hsub hmem), rawQuery, rawQuery,
      show (63 : UInt8) = question from rfl, Query.cut_snd_append_of_mem hmem]
    cases left with
    | zero =>
        rw [List.take_zero, List.append_nil, List.take_zero, Query.parseQuery_nil, List.append_nil]
    | succ left => rw [List.take_succ_cons, Query.parseQuery_append, Nat.add_sub_cancel]
  · have hnone : question ∉ scheme secure ++ rest := fun h => hmem (hquery h)
    rw [separator, if_neg hnone, rawQuery, rawQuery, show (63 : UInt8) = question from rfl,
      Query.cut_of_not_mem hmem, Query.parseQuery_nil, List.nil_append]
    cases left with
    | zero => rw [List.take_zero, List.append_nil, Query.cut_of_not_mem hmem, List.take_zero]
    | succ left => rw [List.take_succ_cons, Query.cut_append_cons hmem, Nat.add_sub_cancel]

theorem rate_isKey : IsKey (ascii "rate") := ⟨by decide, by decide, by decide⟩

theorem mix_isKey : IsKey (ascii "mix") := ⟨by decide, by decide, by decide⟩

theorem print_isValue (n : Int) : IsValue (print n) := by
  intro c hc
  have hdigit : ∀ d : UInt8, Decimal.isDigit d →
      Query.IsLiteral d ∧ d ≠ amp ∧ d ≠ Query.semicolon := by
    intro d hd
    refine ⟨⟨?_, ?_⟩, ?_, ?_⟩ <;>
    · rintro rfl
      exact absurd hd (by decide)
  rcases Decimal.mem_print hc with rfl | hd
  · decide
  · exact hdigit c hd

theorem mixParam_isValue (channels : Nat) : IsValue (mixParam channels) := by
  unfold mixParam
  split <;> decide

/-- The bridge reads the rate of the command exactly when it is kept. -/
theorem rate_iff (uri sent : Bytes) {rate : Int} (hrange : -2 ^ 63 ≤ rate ∧ rate < 2 ^ 63) :
    queryInt (get (ownQuery uri ++ parseQuery
        ((ascii "rate" ++ Query.eq :: print rate ++ amp :: sent).take (room uri)))
      (ascii "rate")) 16000 = rate ↔ RateKept uri rate := by
  have hpos : 0 < (print rate).length := List.length_pos_iff.mpr (Decimal.print_ne_nil rate)
  unfold RateKept
  cases hlookup : (ownQuery uri).lookup (ascii "rate") with
  | some v => rw [Query.get_append_of_some hlookup]
  | none =>
      rw [Query.get_append_of_none hlookup, Query.get_take_head rate_isKey (print_isValue rate),
        queryInt_take_print hrange (by decide)]
      show (print rate).length ≤ room uri - 4 - 1 ∨ room uri - 4 - 1 = 0 ∧ 16000 = rate ↔ _
      constructor
      · rintro (hwhole | ⟨hgone, hdefault⟩)
        · exact .inl (by omega)
        · exact .inr ⟨by omega, hdefault.symm⟩
      · rintro (hwhole | ⟨hgone, hdefault⟩)
        · exact .inl (by omega)
        · exact .inr ⟨by omega, hdefault.symm⟩

theorem queryDefault_take_mixParam (mix : Mix) (n : Nat) :
    queryDefault ((mixParam mix.channels).take n) (ascii "mono") = mix.name ↔
      mix ≠ .mixed ∧ (mix.name.length ≤ n ∨ mix = .mono ∧ n = 0) := by
  rcases Nat.lt_or_ge n 6 with hcut | hwhole
  · revert n
    cases mix <;> decide
  · have hmix : (mixParam mix.channels).length ≤ n := by
      refine Nat.le_trans ?_ hwhole
      cases mix <;> decide
    have hname : mix.name.length ≤ n := by
      refine Nat.le_trans ?_ hwhole
      cases mix <;> decide
    rw [List.take_of_length_le hmix]
    simp only [hname, true_or, and_true]
    cases mix <;> decide

/-- The same for the mix. -/
theorem mix_iff (uri third : Bytes) (rate : Int) (mix : Mix) :
    queryDefault (get (ownQuery uri ++ parseQuery
        ((ascii "rate" ++ Query.eq :: print rate ++ amp ::
          (ascii "mix" ++ Query.eq :: mixParam mix.channels ++ amp :: third)).take (room uri)))
      (ascii "mix")) (ascii "mono") = mix.name ↔ MixKept uri rate mix := by
  unfold MixKept
  cases hlookup : (ownQuery uri).lookup (ascii "mix") with
  | some v => rw [Query.get_append_of_some hlookup]
  | none =>
      rw [Query.get_append_of_none hlookup,
        Query.get_take_skip rate_isKey (print_isValue rate) (by decide),
        Query.get_take_head mix_isKey (mixParam_isValue _), queryDefault_take_mixParam]
      rw [List.length_append, List.length_cons, show (ascii "rate").length = 4 from rfl,
        show (ascii "mix").length = 3 from rfl]
      have hpos : 0 < mix.name.length := by cases mix <;> decide
      constructor
      · rintro ⟨hsent, hwhole | ⟨hmono, hgone⟩⟩
        · exact ⟨hsent, .inl (by omega)⟩
        · exact ⟨hsent, .inr ⟨hmono, by omega⟩⟩
      · rintro ⟨hsent, hwhole | ⟨hmono, hgone⟩⟩
        · exact ⟨hsent, .inl (by omega)⟩
        · exact ⟨hsent, .inr ⟨hmono, by omega⟩⟩

/-- What `k` bytes leave of the last parameter is the uuid only if they leave all of it. -/
theorem get_take_uuid (uuid : Bytes) (k : Nat) :
    get (parseQuery ((ascii "uuid" ++ Query.eq :: uuid.take maxSessionId).take k)) (ascii "uuid")
        = uuid ↔
      uuid = [] ∨ IsValue uuid ∧ uuid.length ≤ maxSessionId ∧ 5 + uuid.length ≤ k := by
  have hlen : (ascii "uuid" ++ Query.eq :: uuid.take maxSessionId).length
      = 5 + (uuid.take maxSessionId).length := by
    rw [List.length_append, List.length_cons, show (ascii "uuid").length = 4 from rfl]
    omega
  constructor
  · intro hget
    by_cases huuid : uuid = []
    · exact .inl huuid
    · have hne : get (parseQuery ((ascii "uuid" ++ Query.eq :: uuid.take maxSessionId).take k))
          (ascii "uuid") ≠ [] := by
        rw [hget]
        exact huuid
      have hle := Query.length_of_get hne
      rw [hget, List.length_take, hlen, List.length_take,
        show (ascii "uuid").length = 4 from rfl] at hle
      have hfits : uuid.length ≤ maxSessionId := by omega
      have hall : uuid.take maxSessionId = uuid := List.take_of_length_le hfits
      rw [hall] at hget hlen
      rw [List.take_of_length_le (by omega), Query.get_pair_eq_self uuid_isKey] at hget
      exact .inr ⟨hget, hfits, by omega⟩
  · rintro (rfl | ⟨hvalue, hfits, hwhole⟩)
    · by_contra hne
      have hle := Query.length_of_get hne
      rw [List.length_take, hlen, List.take_nil, List.length_nil,
        show (ascii "uuid").length = 4 from rfl] at hle
      have hpos := List.length_pos_iff.mpr hne
      rw [List.take_nil] at hpos
      omega
    · have hall : uuid.take maxSessionId = uuid := List.take_of_length_le hfits
      rw [hall] at hlen ⊢
      rw [List.take_of_length_le (by omega), Query.get_pair_eq_self uuid_isKey]
      exact hvalue

/-- The same for the session id. -/
theorem uuid_iff (uri : Bytes) (rate : Int) (mix : Mix) (uuid : Bytes) :
    get (ownQuery uri ++ parseQuery
        ((ascii "rate" ++ Query.eq :: print rate ++ amp ::
          (ascii "mix" ++ Query.eq :: mixParam mix.channels ++ amp ::
            (ascii "uuid" ++ Query.eq :: uuid.take maxSessionId))).take (room uri)))
      (ascii "uuid") = uuid ↔ UuidKept uri rate mix uuid := by
  unfold UuidKept
  cases hlookup : (ownQuery uri).lookup (ascii "uuid") with
  | some v => rw [Query.get_append_of_some hlookup]
  | none =>
      rw [Query.get_append_of_none hlookup,
        Query.get_take_skip rate_isKey (print_isValue rate) (by decide),
        Query.get_take_skip mix_isKey (mixParam_isValue _) (by decide), get_take_uuid]
      rw [List.length_append, List.length_cons, List.length_append, List.length_cons,
        show (ascii "rate").length = 4 from rfl, show (ascii "mix").length = 3 from rfl]
      constructor
      · rintro (hnil | ⟨hvalue, hfits, hwhole⟩)
        · exact .inl hnil
        · exact .inr ⟨hvalue, hfits, by omega⟩
      · rintro (hnil | ⟨hvalue, hfits, hwhole⟩)
        · exact .inl hnil
        · exact .inr ⟨hvalue, hfits, by omega⟩

/-- **Handshake.**  The session has the rate, the mix and the uuid of the start command
    exactly when the parameters arrive in its query uncut and first of their keys, or the
    defaults of the server are what was asked for. -/
theorem handshake_iff (resolver : Resolver) (url mixArg : Bytes) (rateArg : Option Bytes)
    (beyond uuid : Bytes) (start : Start)
    (hstart : startCommand url mixArg rateArg beyond = some start) :
    serveWS (requestTarget (streamUri resolver start uuid))
        = ⟨start.sampling.toInt, mixArg, uuid⟩ ↔
      ParamsKept (preResolve resolver start.wsUri) start.sampling.toInt start.mix uuid := by
  obtain ⟨rfl, hvalid, hcopied⟩ := startCommand_eq_some hstart
  obtain ⟨secure, rest, rfl⟩ := exists_scheme_of_validateWsUri hvalid
  obtain ⟨copied, hscheme⟩ := exists_scheme_of_copiedUri secure rest beyond
  obtain ⟨rest', huri⟩ := exists_scheme_of_preResolve resolver secure copied
  rw [← hscheme, ← hcopied] at huri
  rw [huri]
  unfold ParamsKept
  by_cases hcarries : Carries (scheme secure ++ rest')
  · have hquery := parseQuery_target uuid huri hcarries
    have hlow := Int32.le_toInt start.sampling
    have hhigh := Int32.toInt_lt start.sampling
    have hrange : -2 ^ 63 ≤ start.sampling.toInt ∧ start.sampling.toInt < 2 ^ 63 := by omega
    have hrate := rate_iff (scheme secure ++ rest')
      (ascii "mix" ++ Query.eq :: mixParam start.mix.channels ++ amp ::
        (ascii "uuid" ++ Query.eq :: uuid.take maxSessionId)) hrange
    have hmix := mix_iff (scheme secure ++ rest')
      (ascii "uuid" ++ Query.eq :: uuid.take maxSessionId) start.sampling.toInt start.mix
    have huuid := uuid_iff (scheme secure ++ rest') start.sampling.toInt start.mix uuid
    rw [← hrate, ← hmix, ← huuid, serveWS, hquery, SessionParams.mk.injEq]
    simp only [hcarries, true_and, not_true, false_and, or_false]
    rfl
  · rw [serveWS_short (length_rawQuery_of_not_carries huri hcarries)]
    simp only [hcarries, false_and, not_false_eq_true, true_and, false_or]

/-- A resolver that is never asked. -/
def numericHost : Resolver := ⟨fun _ => true, fun _ => none⟩

theorem handshake_iff_stereo :
    serveWS (requestTarget (streamUri numericHost
        ⟨ascii "ws://127.0.0.1:8080/stream?tenant=a", .stereo, 16000⟩ (ascii "f3a1-07")))
      = ⟨16000, ascii "stereo", ascii "f3a1-07"⟩ := by
  apply (handshake_iff numericHost (ascii "ws://127.0.0.1:8080/stream?tenant=a") (ascii "stereo")
    (some (ascii "16k")) [] (ascii "f3a1-07")
    ⟨ascii "ws://127.0.0.1:8080/stream?tenant=a", .stereo, 16000⟩ (by decide)).mpr
  have hown : ownQuery (ascii "ws://127.0.0.1:8080/stream?tenant=a")
      = [(ascii "tenant", ascii "a")] := by decide +kernel
  have hresolved : preResolve numericHost (ascii "ws://127.0.0.1:8080/stream?tenant=a")
      = ascii "ws://127.0.0.1:8080/stream?tenant=a" := by decide
  rw [hresolved, show (16000 : Int32).toInt = 16000 by decide]
  refine .inl ⟨⟨⟨false, _, rfl, by decide⟩, by decide, by decide⟩, ?_, ?_, ?_⟩
  · rw [RateKept, hown]
    exact .inl (by decide)
  · rw [MixKept, hown]
    exact ⟨by decide, .inl (by decide)⟩
  · rw [UuidKept, hown]
    exact .inr ⟨by decide, by decide, by decide⟩

/-- A stream started as `mixed` is announced as `mono`. -/
theorem mixed_is_mono :
    ¬ ∀ (resolver : Resolver) (url mixArg : Bytes) (rateArg : Option Bytes) (beyond uuid : Bytes)
      (start : Start), startCommand url mixArg rateArg beyond = some start →
        serveWS (requestTarget (streamUri resolver start uuid))
          = ⟨start.sampling.toInt, mixArg, uuid⟩ := by
  intro h
  have hmix := congrArg SessionParams.mixType (h numericHost (ascii "ws://127.0.0.1:8080/stream")
    (ascii "mixed") (some (ascii "16k")) [] (ascii "f3a1-07") _ rfl)
  exact absurd hmix (by decide +kernel)

end FsBridge.Module.Handshake
