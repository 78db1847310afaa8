/-
  FsBridge.Bridge.Routes

  The mux of main (cmd/fsbridge/main.go), the routes of the recorder
  (bridge/recordings.go) and the token check (bridge/ops.go), and which requests
  the token check covers.

  The recorder's routes are registered twice: on the mux of main itself, and
  behind the token check under /recordings/.  The first ones are more specific.
-/

import FsBridge.Lib.ServeMux

namespace FsBridge.Bridge

open FsBridge.Lib

/-- A request: query parameters and headers in their order, the names of headers
    in canonical form. -/
structure Request extends Target where
  query : List (Bytes × Bytes)
  header : List (Bytes × Bytes)

/-- The handlers that do something. -/
inductive Leaf where
  | audio
  | healthz
  | list
  | file
  | delete
  | control
deriving DecidableEq, Repr

/-- What becomes of a request.  `refused`: the mux itself replies (not found,
    method not allowed, a redirect). -/
inductive Outcome where
  | ran (leaf : Leaf)
  | unauthorized
  | refused
deriving DecidableEq, Repr

/-- `http.Handler`. -/
abbrev Handler := Request → Outcome

/-- `url.Values.Get` and `http.Header.Get`: the first value, or nothing. -/
def get (values : List (Bytes × Bytes)) (key : Bytes) : Bytes :=
  match values.find? fun v => v.1 = key with
  | some v => v.2
  | none => []

/-- `AuthMiddleware`. -/
def authMiddleware (token : Bytes) (next : Handler) : Handler :=
  if token = [] then next
  else fun r =>
    if get r.query (ascii "token") = token then next r
    else
      let h := get r.header (ascii "Authorization")
      if ascii "Bearer " <+: h ∧ trimPrefix h (ascii "Bearer ") = token then next r
      else .unauthorized

/-- `ServeMux.ServeHTTP`. -/
def serveHTTP (mux : Routes Handler) : Handler := fun r =>
  match mux.lookup r.toTarget with
  | some e => e.2 r
  | none => .refused

/-- `Recorder.RegisterRoutes`: `GET /recordings`, `GET /recordings/{uuid}/{file}` and
    `DELETE /recordings/{uuid}`. -/
def registerRoutes : Routes Handler :=
  [(⟨some (ascii "GET"), [], [.lit (ascii "recordings")], false⟩, fun _ => .ran .list),
    (⟨some (ascii "GET"), [], [.lit (ascii "recordings"), .wild, .wild], false⟩,
      fun _ => .ran .file),
    (⟨some (ascii "DELETE"), [], [.lit (ascii "recordings"), .wild], false⟩,
      fun _ => .ran .delete)]

/-- The flags of main that the mux depends on: the patterns of `-path` and
    `-control-path`, whether `-record-dir` and `-esl-addr` are set, `-auth-token`. -/
structure Flags where
  path : Pattern
  controlPath : Pattern
  recordDir : Bool
  eslAddr : Bool
  authToken : Bytes

/-- `/healthz`. -/
def healthzPattern : Pattern := ⟨none, [], [.lit (ascii "healthz")], false⟩

/-- `/recordings/`. -/
def recordingsPattern : Pattern := ⟨none, [], [.lit (ascii "recordings")], true⟩

/-- The control server behind the token check. -/
def controlHandler (flags : Flags) : Handler :=
  authMiddleware flags.authToken fun _ => .ran .control

/-- `recordingMux` behind the token check. -/
def recordingsHandler (flags : Flags) : Handler :=
  authMiddleware flags.authToken (serveHTTP registerRoutes)

/-- The registrations of main, in their order. -/
def registrations (flags : Flags) : Routes Handler :=
  [(flags.path, fun _ => .ran .audio), (healthzPattern, fun _ => .ran .healthz)]
    ++ (if flags.recordDir then registerRoutes else [])
    ++ (if flags.eslAddr then [(flags.controlPath, controlHandler flags)] else [])
    ++ if flags.recordDir && flags.authToken ≠ [] then
        [(recordingsPattern, recordingsHandler flags)] else []

/-- The mux of main; `none` where a registration panics. -/
def buildMux (flags : Flags) : Option (Routes Handler) := Routes.handleAll [] (registrations flags)

-- ============================================================================
-- What the token check is to cover
-- ============================================================================

/-- The handlers of the recorder, and the control server. -/
def Leaf.guarded : Leaf → Bool
  | .list | .file | .delete | .control => true
  | .audio | .healthz => false

/-- The request carries the token. -/
def CarriesToken (token : Bytes) (r : Request) : Prop :=
  get r.query (ascii "token") = token ∨
    get r.header (ascii "Authorization") = ascii "Bearer " ++ token

/-- The same request with the token. -/
def Request.withToken (r : Request) (token : Bytes) : Request :=
  { r with header := (ascii "Authorization", ascii "Bearer " ++ token) :: r.header }

/-- A guarded handler runs only for a request with the token; one that would
    reach it with the token gets a 401. -/
structure AuthCovers (mux : Routes Handler) (token : Bytes) (r : Request) : Prop where
  runs : ∀ leaf, leaf.guarded → serveHTTP mux r = .ran leaf → CarriesToken token r
  refused : ¬ CarriesToken token r → ∀ leaf, leaf.guarded →
    serveHTTP mux (r.withToken token) = .ran leaf → serveHTTP mux r = .unauthorized

/-- One of the routes on the mux of main itself matches the request, and neither
    the pattern of `-path` nor that of `-control-path` takes it away. -/
def Bypassed (flags : Flags) (r : Request) : Prop :=
  flags.recordDir ∧ ∃ e ∈ registerRoutes, e.1.matches r.toTarget ∧
    ¬ (flags.path.matches r.toTarget ∧ flags.path.precedes e.1) ∧
    ¬ (flags.eslAddr ∧ flags.controlPath.matches r.toTarget ∧ flags.controlPath.precedes e.1)

-- ============================================================================
-- The token check
-- ============================================================================

theorem trimPrefix_append (pre s : Bytes) : trimPrefix (pre ++ s) pre = s := by
  rw [trimPrefix, if_pos (List.prefix_append _ _), List.drop_left]

/-- The check refuses exactly the requests without the token. -/
theorem authMiddleware_refuses {token : Bytes} (htoken : token ≠ []) (next : Handler)
    {r : Request} (h : ¬ CarriesToken token r) : authMiddleware token next r = .unauthorized := by
  obtain ⟨hquery, hheader⟩ := not_or.mp h
  rw [authMiddleware, if_neg htoken, if_neg hquery]
  dsimp only
  rw [if_neg]
  rintro ⟨⟨s, hs⟩, htrim⟩
  rw [← hs, trimPrefix_append] at htrim
  rw [← hs, htrim] at hheader
  exact hheader rfl

-- ============================================================================
-- The registrations
-- ============================================================================

theorem buildMux_eq_some {flags : Flags} {mux : Routes Handler} (h : buildMux flags = some mux) :
    mux = registrations flags ∧ mux.NoConflict := by
  obtain ⟨heq, hkeep⟩ := Routes.handleAll_eq_some h
  exact ⟨heq, hkeep List.Pairwise.nil⟩

theorem mem_registrations {flags : Flags} {e : Pattern × Handler} :
    e ∈ registrations flags ↔
      e = (flags.path, fun _ => .ran .audio) ∨ e = (healthzPattern, fun _ => .ran .healthz) ∨
        (flags.recordDir ∧ e ∈ registerRoutes) ∨
        (flags.eslAddr ∧ e = (flags.controlPath, controlHandler flags)) ∨
        (flags.recordDir ∧ flags.authToken ≠ [] ∧
          e = (recordingsPattern, recordingsHandler flags)) := by
  rw [registrations, List.mem_append, List.mem_append, List.mem_append, List.mem_pair]
  cases flags.recordDir <;> cases flags.eslAddr <;> by_cases h : flags.authToken = [] <;>
    simp [h, or_assoc]

/-- Two patterns without a request in common. -/
theorem not_matches_of_overlaps {p q : Pattern} (h : p.overlaps q = false) {t : Target}
    (hp : p.matches t) : ¬ q.matches t := by
  intro hq
  rw [(Pattern.overlaps_iff p q).mpr ⟨t, hp, hq⟩] at h
  exact absurd h (by decide)

/-- A route of the recorder and the other fixed patterns. -/
theorem registerRoutes_fixed : ∀ d ∈ registerRoutes, d.1.overlaps healthzPattern = false ∧
    (d.1.overlaps recordingsPattern = false ∨ d.1.precedes recordingsPattern = true) := by
  intro d hd
  rcases List.mem_cons.mp hd with rfl | hd
  · decide
  · rcases List.mem_pair.mp hd with rfl | rfl
    · decide
    · decide

/-- Each of them runs a guarded handler, whatever the request carries. -/
theorem registerRoutes_guarded :
    ∀ d ∈ registerRoutes, ∃ leaf, leaf.guarded ∧ ∀ r, d.2 r = .ran leaf := by
  intro d hd
  rcases List.mem_cons.mp hd with rfl | hd
  · exact ⟨.list, rfl, fun _ => rfl⟩
  · rcases List.mem_pair.mp hd with rfl | rfl
    · exact ⟨.file, rfl, fun _ => rfl⟩
    · exact ⟨.delete, rfl, fun _ => rfl⟩

/-- No two of them match a request in common. -/
theorem registerRoutes_disjoint {d e : Pattern × Handler} (hd : d ∈ registerRoutes)
    (he : e ∈ registerRoutes) {t : Target} (hdt : d.1.matches t) (het : e.1.matches t) : e = d := by
  have hfirst : (registerRoutes.map Prod.fst).Pairwise fun p q => p.overlaps q = false := by
    decide
  have hpair : registerRoutes.Pairwise fun d e => ¬ (d.1.matches t ∧ e.1.matches t) := by
    rw [List.pairwise_map] at hfirst
    refine hfirst.imp ?_
    rintro d e hdisjoint ⟨hdt, het⟩
    exact not_matches_of_overlaps hdisjoint hdt het
  by_contra hne
  have hsymm : Std.Symm fun d e : Pattern × Handler => ¬ (d.1.matches t ∧ e.1.matches t) :=
    ⟨fun a b hab hba => hab hba.symm⟩
  exact hpair.forall he hd hne ⟨het, hdt⟩

-- ============================================================================
-- Dispatch
-- ============================================================================

/-- What the mux of main dispatches a request to. -/
theorem lookup_cases {flags : Flags} {mux : Routes Handler} (h : buildMux flags = some mux)
    {r : Request} {e : Pattern × Handler} (hlookup : mux.lookup r.toTarget = some e) :
    (∃ leaf, leaf.guarded = false ∧ ∀ r, e.2 r = .ran leaf) ∨
      (e ∈ registerRoutes ∧ Bypassed flags r) ∨
      ∃ next, e.2 = authMiddleware flags.authToken next := by
  obtain ⟨rfl, hno⟩ := buildMux_eq_some h
  obtain ⟨hmem, hmatch, hbest⟩ := (Routes.lookup_eq_some_iff hno r.toTarget e).mp hlookup
  rcases mem_registrations.mp hmem with rfl | rfl | ⟨hrec, he⟩ | ⟨hesl, rfl⟩ | ⟨hrec, -, rfl⟩
  · exact .inl ⟨.audio, rfl, fun _ => rfl⟩
  · exact .inl ⟨.healthz, rfl, fun _ => rfl⟩
  · -- the patterns of the flags do not precede the best one
    have hnot : ∀ f ∈ registrations flags, ¬ (f.1.matches r.toTarget ∧ f.1.precedes e.1) := by
      rintro f hf ⟨hft, hprec⟩
      rcases hbest f hf hft with rfl | hprec'
      · rw [Pattern.precedes_asymm hprec] at hprec
        exact absurd hprec (by decide)
      · rw [Pattern.precedes_asymm hprec] at hprec'
        exact absurd hprec' (by decide)
    refine .inr (.inl ⟨he, hrec, e, he, hmatch, ?_, ?_⟩)
    · exact hnot _ (mem_registrations.mpr (.inl rfl))
    · rintro ⟨hesl, hcontrol⟩
      exact hnot _ (mem_registrations.mpr (.inr (.inr (.inr (.inl ⟨hesl, rfl⟩))))) hcontrol
  · exact .inr (.inr ⟨_, rfl⟩)
  · exact .inr (.inr ⟨_, rfl⟩)

/-- A bypassed request runs a guarded handler, whatever it carries. -/
theorem serveHTTP_of_bypassed {flags : Flags} {mux : Routes Handler}
    (h : buildMux flags = some mux) {r : Request} (hbypassed : Bypassed flags r) :
    ∃ leaf, leaf.guarded ∧ serveHTTP mux r = .ran leaf := by
  obtain ⟨hrec, d, hd, hmatch, hpath, hcontrol⟩ := hbypassed
  obtain ⟨rfl, hno⟩ := buildMux_eq_some h
  have hmem : d ∈ registrations flags := mem_registrations.mpr (.inr (.inr (.inl ⟨hrec, hd⟩)))
  obtain ⟨hhealthz, hrecordings⟩ := registerRoutes_fixed d hd
  -- against a pattern of a flag there is no conflict, so one of the two precedes
  have hflag : ∀ f ∈ registrations flags, f.1.matches r.toTarget →
      ¬ (f.1.matches r.toTarget ∧ f.1.precedes d.1) → f = d ∨ d.1.precedes f.1 := by
    intro f hf hft hnot
    by_cases hfd : f = d
    · exact .inl hfd
    · rcases Pattern.precedes_or (hno.of_ne hf hmem hfd) hft hmatch with hprec | hprec
      · exact absurd ⟨hft, hprec⟩ hnot
      · exact .inr hprec
  have hlookup : (registrations flags).lookup r.toTarget = some d := by
    rw [Routes.lookup_eq_some_iff hno]
    refine ⟨hmem, hmatch, fun f hf hft => ?_⟩
    rcases mem_registrations.mp hf with rfl | rfl | ⟨-, hf⟩ | ⟨hesl, rfl⟩ | ⟨-, -, rfl⟩
    · exact hflag _ hf hft hpath
    · exact absurd hft (not_matches_of_overlaps hhealthz hmatch)
    · exact .inl (registerRoutes_disjoint hd hf hmatch hft)
    · exact hflag _ hf hft fun hboth => hcontrol ⟨hesl, hboth⟩
    · rcases hrecordings with hdisjoint | hprec
      · exact absurd hft (not_matches_of_overlaps hdisjoint hmatch)
      · exact .inr hprec
  obtain ⟨leaf, hguarded, hrun⟩ := registerRoutes_guarded d hd
  refine ⟨leaf, hguarded, ?_⟩
  rw [serveHTTP, hlookup]
  exact hrun r

/-- For every request: the token check covers it exactly when it carries the
    token or does not get around the check. -/
theorem authCovers_iff {flags : Flags} {mux : Routes Handler} (h : buildMux flags = some mux)
    (htoken : flags.authToken ≠ []) (r : Request) :
    AuthCovers mux flags.authToken r ↔
      CarriesToken flags.authToken r ∨ ¬ Bypassed flags r := by
  constructor
  · intro hcovers
    by_cases hbypassed : Bypassed flags r
    · obtain ⟨leaf, hguarded, hrun⟩ := serveHTTP_of_bypassed h hbypassed
      exact .inl (hcovers.runs leaf hguarded hrun)
    · exact .inr hbypassed
  · intro hcondition
    -- without the token no guarded handler is reached, and a check replies
    have hcheck : ¬ CarriesToken flags.authToken r → ∀ e, mux.lookup r.toTarget = some e →
        (∃ leaf, leaf.guarded = false ∧ ∀ r, e.2 r = .ran leaf) ∨ e.2 r = .unauthorized := by
      intro hcarries e hlookup
      rcases lookup_cases h hlookup with hopen | ⟨-, hbypassed⟩ | ⟨next, hnext⟩
      · exact .inl hopen
      · rcases hcondition with hyes | hno
        · exact absurd hyes hcarries
        · exact absurd hbypassed hno
      · rw [hnext]
        exact .inr (authMiddleware_refuses htoken next hcarries)
    refine ⟨fun leaf hguarded hrun => ?_, fun hcarries leaf hguarded hrun => ?_⟩
    · by_contra hcarries
      rw [serveHTTP] at hrun
      split at hrun
      · rename_i e hlookup
        rcases hcheck hcarries e hlookup with ⟨open', hopen, hran⟩ | hunauthorized
        · rw [hran r] at hrun
          rw [← Outcome.ran.inj hrun, hopen] at hguarded
          exact absurd hguarded (by decide)
        · rw [hunauthorized] at hrun
          exact absurd hrun (by simp)
      · exact absurd hrun (by simp)
    · have htarget : (r.withToken flags.authToken).toTarget = r.toTarget := rfl
      rw [serveHTTP, htarget] at hrun
      rw [serveHTTP]
      split at hrun
      · rename_i e hlookup
        rcases hcheck hcarries e hlookup with ⟨open', hopen, hran⟩ | hunauthorized
        · rw [hran] at hrun
          rw [← Outcome.ran.inj hrun, hopen] at hguarded
          exact absurd hguarded (by decide)
        · exact hunauthorized
      · exact absurd hrun (by simp)

/-- `fsbridge -record-dir … -esl-addr … -auth-token secret`. -/
def usualFlags : Flags where
  path := ⟨none, [], [.lit (ascii "stream")], false⟩
  controlPath := ⟨none, [], [.lit (ascii "control")], false⟩
  recordDir := true
  eslAddr := true
  authToken := ascii "secret"

/-- A request with nothing but its method and path. -/
def bareRequest (method : Bytes) (path : List Bytes) : Request :=
  { method, host := ascii "localhost", path, query := [], header := [] }

theorem authCovers_iff_control :
    ∃ mux, buildMux usualFlags = some mux ∧ usualFlags.authToken ≠ [] ∧
      (AuthCovers mux usualFlags.authToken (bareRequest (ascii "GET") [ascii "control"]) ↔
        CarriesToken usualFlags.authToken (bareRequest (ascii "GET") [ascii "control"]) ∨
          ¬ Bypassed usualFlags (bareRequest (ascii "GET") [ascii "control"])) :=
  ⟨registrations usualFlags, rfl, by decide, authCovers_iff rfl (by decide) _⟩

/-- Without the token: a recording is removed. -/
theorem delete_not_covered :
    ∃ mux, buildMux usualFlags = some mux ∧
      serveHTTP mux (bareRequest (ascii "DELETE") [ascii "recordings", ascii "f3a1"])
        = .ran .delete ∧
      ¬ AuthCovers mux usualFlags.authToken
        (bareRequest (ascii "DELETE") [ascii "recordings", ascii "f3a1"]) := by
  have hrun : serveHTTP (registrations usualFlags)
      (bareRequest (ascii "DELETE") [ascii "recordings", ascii "f3a1"]) = .ran .delete := by
    rfl
  refine ⟨registrations usualFlags, rfl, hrun, fun hcovers => ?_⟩
  have hcarries := hcovers.runs .delete rfl hrun
  rw [CarriesToken] at hcarries
  exact absurd hcarries (by decide)

end FsBridge.Bridge
