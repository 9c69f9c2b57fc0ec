import Mathlib.Data.List.Forall2
import Mathlib.Data.List.Sort
import Mathlib.Data.Multiset.Basic
import Mathlib.Data.String.Basic
import Unkey.Frontline.Session

/-!
# The request log

The row that `WithClickHouseLogging` writes for a request, after the proxy handler has told it which
locations carry API keys.
-/

namespace Unkey.Frontline

open Unkey.Base

inductive KeyLocation where
  | bearer
  | header (name : String)
  | queryParam (name : String)

/-- What `SecretLocations` reads of a policy: the locations of a KeyAuth one. -/
inductive LoggedPolicy where
  | keyauth (locations : List KeyLocation)
  | other

def LoggedPolicy.locations : LoggedPolicy → List KeyLocation
  | .keyauth locations => locations
  | .other => []

def headerNames (policies : List LoggedPolicy) : List String :=
  (policies.flatMap LoggedPolicy.locations).filterMap fun
    | .header name => some name
    | _ => none

def paramNames (policies : List LoggedPolicy) : List String :=
  (policies.flatMap LoggedPolicy.locations).filterMap fun
    | .queryParam name => some name
    | _ => none

/-- `strings.ToLower`; names of headers are ASCII. -/
def toLower (s : String) : String := String.ofList (s.toList.map Char.toLower)

def secretLocations (policies : List LoggedPolicy) : List String × List String :=
  (((headerNames policies).filter (· ≠ "")).map toLower, (paramNames policies).filter (· ≠ ""))

/-- The escaping of `net/url`, which leaves letters and digits as they are. -/
structure Url where
  queryUnescape : String → Option String
  queryEscape : String → String
  queryUnescape_plain : ∀ s, s.toList.all Char.isAlphanum = true → queryUnescape s = some s

abbrev Values := List (String × List String)

namespace Url

variable (u : Url)

def parsePair (segment : String) : Option (String × String) :=
  if segment = "" ∨ ';' ∈ segment.toList then none
  else
    let (key, value) := (cut '=' segment).getD (segment, "")
    (u.queryUnescape key).bind fun key => (u.queryUnescape value).map fun value => (key, value)

def pairs (rawQuery : String) : List (String × String) :=
  (split '&' rawQuery).filterMap u.parsePair

end Url

def valuesOf (pairs : List (String × String)) : Values :=
  (pairs.map Prod.fst).dedup.map fun key => (key, (pairs.filter (·.1 = key)).map Prod.snd)

def Url.encode (u : Url) (values : Values) : String :=
  "&".intercalate ((values.insertionSort fun a b => a.1 ≤ b.1).flatMap fun kv =>
    kv.2.map fun v => u.queryEscape kv.1 ++ "=" ++ u.queryEscape v)

def redacted := "[REDACTED]"

def redactQueryParams (values : Values) (secret : List String) : Values :=
  values.map fun kv => if kv.1 ∈ secret then (kv.1, [redacted]) else kv

def formatHeader (key value : String) : String := key ++ ": " ++ value

def formatHeaders (headers : Header) (secret : List String) : List String :=
  headers.flatMap fun kv =>
    if toLower kv.1 = "authorization" ∨ toLower kv.1 ∈ secret then [formatHeader kv.1 redacted]
    else kv.2.map (formatHeader kv.1)

/-- What does not come from the request: ids, times, the capture flags and the principal of the
evaluation, the captured bodies and the response. -/
structure Tracking where
  ids : List String
  deploymentID : String
  instanceID : String
  startTime : Int
  endTime : Int
  instanceTimes : Option (Int × Int)
  principal : Option String
  logRequestHeaders : Bool
  logResponseHeaders : Bool
  logQuery : Bool
  bodyRedactors : List (String → String)
  requestBody : String
  responseBody : String
  responseStatus : Int
  responseHeaders : Header

structure LoggedRequest where
  method : String
  host : String
  path : String
  rawQuery : String
  header : Header
  remoteAddr : String

def LoggedRequest.location (r : LoggedRequest) : String :=
  Session.location ⟨r.remoteAddr, ⟨r.host, r.header⟩, r.path⟩

/-- The columns. -/
structure Row where
  ids : List String
  time : Int
  deploymentID : String
  instanceID : String
  method : String
  host : String
  path : String
  queryString : String
  queryParams : Values
  requestHeaders : Multiset String
  requestBody : String
  responseStatus : Int
  responseHeaders : Multiset String
  responseBody : String
  userAgent : String
  ipAddress : String
  totalLatency : Int
  instanceLatency : Int
  gatewayLatency : Int

def principalHeader := "X-Unkey-Principal"

def LoggedRequest.handled (t : Tracking) (r : LoggedRequest) : LoggedRequest :=
  { r with header := t.principal.elim r.header (r.header.set principalHeader) }

def redactBody (body : String) (redactors : List (String → String)) : String :=
  redactors.foldl (fun body redact => redact body) body

def withClickHouseLogging (u : Url) (policies : List LoggedPolicy) (t : Tracking)
    (inbound : LoggedRequest) : Option Row :=
  if t.deploymentID = "" ∨ t.instanceID = "" then none
  else
    let r := inbound.handled t
    let (secretHeaders, secretParams) := secretLocations policies
    let params := valuesOf (u.pairs r.rawQuery)
    let total := t.endTime - t.startTime
    let latency := t.instanceTimes.elim 0 fun (start, stop) => stop - start
    some {
      ids := t.ids, time := t.startTime, deploymentID := t.deploymentID, instanceID := t.instanceID,
      method := r.method.toUpper, host := r.host, path := r.path
      queryString := if !t.logQuery then "" else if secretParams = [] then r.rawQuery
        else u.encode (redactQueryParams params secretParams)
      queryParams := if !t.logQuery then [] else if secretParams = [] then params
        else redactQueryParams params secretParams
      requestHeaders := if t.logRequestHeaders then formatHeaders r.header secretHeaders else 0
      requestBody := redactBody t.requestBody t.bodyRedactors
      responseStatus := t.responseStatus
      responseHeaders := if t.logResponseHeaders then formatHeaders t.responseHeaders [] else 0
      responseBody := redactBody t.responseBody t.bodyRedactors
      userAgent := if t.logRequestHeaders then r.header.get "User-Agent" else ""
      ipAddress := if t.logRequestHeaders then r.location else ""
      totalLatency := total
      instanceLatency := latency
      gatewayLatency := if t.instanceTimes.isSome then total - latency else 0 }

/-! ### Two requests with different keys -/

variable {u : Url} {policies : List LoggedPolicy} {t : Tracking} {r r' : LoggedRequest}

/-- A header that can carry a key: Authorization, or a configured location in any case. -/
def SecretHeader (policies : List LoggedPolicy) (key : String) : Prop :=
  toLower key = "authorization" ∨ toLower key ∈ ((headerNames policies).filter (· ≠ "")).map toLower

def SameHeader (policies : List LoggedPolicy) (a b : String × List String) : Prop :=
  a.1 = b.1 ∧ (a.2 = b.2 ∨ SecretHeader policies a.1)

/-- Two parts of a query that differ at most in the value of a configured parameter. -/
def SameSegment (u : Url) (policies : List LoggedPolicy) (a b : String) : Prop :=
  a = b ∨ ∃ name ∈ paramNames policies, ∃ v w, u.parsePair a = some (name, v) ∧
    u.parsePair b = some (name, w)

/-- Two requests that differ only in Authorization and in the configured key locations. -/
structure SameButKeys (u : Url) (policies : List LoggedPolicy) (r r' : LoggedRequest) : Prop where
  method : r.method = r'.method
  host : r.host = r'.host
  path : r.path = r'.path
  remoteAddr : r.remoteAddr = r'.remoteAddr
  headers : List.Forall₂ (SameHeader policies) r.header r'.header
  query : List.Forall₂ (SameSegment u policies) (split '&' r.rawQuery) (split '&' r'.rawQuery)

/-- No header location has a column of its own in the row. -/
def Separate (policies : List LoggedPolicy) : Prop :=
  ∀ name ∈ headerNames policies, toLower name ≠ "user-agent" ∧ toLower name ≠ "x-forwarded-for"

theorem sameHeader_filter {h h' : Header} (hs : List.Forall₂ (SameHeader policies) h h')
    (p : String → Bool) :
    List.Forall₂ (SameHeader policies) (h.filter (p ·.1)) (h'.filter (p ·.1)) := by
  induction hs with
  | nil => exact .nil
  | @cons a b l l' hab _ ih =>
    rw [List.filter_cons, List.filter_cons, hab.1]
    split
    · exact .cons hab ih
    · exact ih

theorem SameButKeys.handled (h : SameButKeys u policies r r') (t : Tracking) :
    List.Forall₂ (SameHeader policies) (r.handled t).header (r'.handled t).header := by
  unfold LoggedRequest.handled
  cases t.principal with
  | none => exact h.headers
  | some p => exact .cons ⟨rfl, .inl rfl⟩ (sameHeader_filter h.headers (· != principalHeader))

theorem get_sameHeader {h h' : Header} (hs : List.Forall₂ (SameHeader policies) h h') {name : String}
    (hname : ¬ SecretHeader policies name) : h.get name = h'.get name := by
  have hlookup : h.lookup name = h'.lookup name := by
    induction hs with
    | nil => rfl
    | @cons a b l l' hab _ ih =>
      obtain ⟨k, vs⟩ := a
      obtain ⟨k', vs'⟩ := b
      obtain ⟨rfl, hvs⟩ := hab
      by_cases hk : name = k
      · subst hk
        simpa using hvs.resolve_right hname
      · have hne : (name == k) = false := by simpa using hk
        simp [List.lookup_cons, hne, ih]
  rw [Header.get, Header.get, hlookup]

theorem formatHeaders_sameHeader {h h' : Header} (hs : List.Forall₂ (SameHeader policies) h h') :
    formatHeaders h (secretLocations policies).1 = formatHeaders h' (secretLocations policies).1 := by
  unfold formatHeaders
  induction hs with
  | nil => rfl
  | @cons a b l l' hab _ ih =>
    rw [List.flatMap_cons, List.flatMap_cons, ih, hab.1]
    refine congrArg (· ++ _) ?_
    split
    · rfl
    · rename_i hsecret
      have hvalues : a.2 = b.2 := hab.2.resolve_right (hab.1 ▸ hsecret)
      rw [hvalues]

theorem not_secretHeader {name : String} (hauth : toLower name ≠ "authorization")
    (hnames : ∀ n ∈ headerNames policies, toLower n ≠ toLower name) :
    ¬ SecretHeader policies name := by
  rintro (h | h)
  · exact hauth h
  · obtain ⟨n, hn, heq⟩ := List.mem_map.mp h
    exact hnames n (List.mem_of_mem_filter hn) heq

theorem location_sameHeader (hs : List.Forall₂ (SameHeader policies) r.header r'.header)
    (haddr : r.remoteAddr = r'.remoteAddr) (hname : ¬ SecretHeader policies forwardedFor) :
    r.location = r'.location := by
  simp only [LoggedRequest.location, Session.location, get_sameHeader hs hname, haddr]

def SamePair (secret : List String) (a b : String × String) : Prop :=
  a.1 = b.1 ∧ (a.2 = b.2 ∨ a.1 ∈ secret)

theorem pairs_sameSegment {segs segs' : List String} (hempty : "" ∉ paramNames policies)
    (hs : List.Forall₂ (SameSegment u policies) segs segs') :
    List.Forall₂ (SamePair (secretLocations policies).2) (segs.filterMap u.parsePair)
      (segs'.filterMap u.parsePair) := by
  induction hs with
  | nil => exact .nil
  | @cons a b l l' hab _ ih =>
    rw [List.filterMap_cons, List.filterMap_cons]
    rcases hab with rfl | ⟨name, hname, v, w, ha, hb⟩
    · cases u.parsePair a with
      | none => exact ih
      | some kv => exact .cons ⟨rfl, .inl rfl⟩ ih
    · rw [ha, hb]
      refine .cons ⟨rfl, .inr (List.mem_filter.mpr ⟨hname, decide_eq_true ?_⟩)⟩ ih
      rintro rfl
      exact hempty hname

theorem redactQueryParams_samePair {secret : List String} {ps ps' : List (String × String)}
    (hs : List.Forall₂ (SamePair secret) ps ps') :
    redactQueryParams (valuesOf ps) secret = redactQueryParams (valuesOf ps') secret := by
  have hkeys : ps.map Prod.fst = ps'.map Prod.fst := by
    induction hs with
    | nil => rfl
    | cons hab _ ih => rw [List.map_cons, List.map_cons, hab.1, ih]
  have hvalues : ∀ key, key ∉ secret →
      (ps.filter (·.1 = key)).map Prod.snd = (ps'.filter (·.1 = key)).map Prod.snd := by
    intro key hkey
    clear hkeys
    induction hs with
    | nil => rfl
    | @cons a b l l' hab _ ih =>
      rw [List.filter_cons, List.filter_cons, hab.1]
      by_cases hk : b.1 = key
      · have hvalue : a.2 = b.2 := hab.2.resolve_right (hab.1 ▸ hk ▸ hkey)
        simp [hk, ih, hvalue]
      · simp [hk, ih]
  unfold redactQueryParams valuesOf
  rw [hkeys, List.map_map, List.map_map]
  refine List.map_congr_left fun key _ => ?_
  simp only [Function.comp_apply]
  split
  · rfl
  · rename_i hkey
    rw [hvalues key hkey]

theorem rawQuery_eq (h : SameButKeys u policies r r') (hnone : paramNames policies = []) :
    r.rawQuery = r'.rawQuery := by
  have hsegs : split '&' r.rawQuery = split '&' r'.rawQuery := by
    refine List.forall₂_eq_eq_eq ▸ h.query.imp fun a b hab => ?_
    rcases hab with heq | ⟨name, hname, -⟩
    · exact heq
    · rw [hnone] at hname
      cases hname
  rw [← join_split '&' r.rawQuery, hsegs, join_split]

/-- The locations leave no key in what is captured: no header that has a column of its own, and no
parameter without a name. -/
def Redactable (policies : List LoggedPolicy) (t : Tracking) : Prop :=
  (t.logRequestHeaders = true → Separate policies) ∧
    (t.logQuery = true → "" ∉ paramNames policies)

theorem independent_of_redactable (hred : Redactable policies t)
    (hsame : SameButKeys u policies r r') :
    withClickHouseLogging u policies t r = withClickHouseLogging u policies t r' := by
  have hheaders := hsame.handled t
  have hagent (h : t.logRequestHeaders = true) :
      (r.handled t).header.get "User-Agent" = (r'.handled t).header.get "User-Agent" :=
    get_sameHeader hheaders (not_secretHeader (by decide) fun n hn => (hred.1 h n hn).1)
  have hlocation (h : t.logRequestHeaders = true) :
      (r.handled t).location = (r'.handled t).location :=
    location_sameHeader hheaders hsame.remoteAddr
      (not_secretHeader (by decide) fun n hn => (hred.1 h n hn).2)
  have hredact (h : t.logQuery = true) :
      redactQueryParams (valuesOf (u.pairs r.rawQuery)) (secretLocations policies).2 =
        redactQueryParams (valuesOf (u.pairs r'.rawQuery)) (secretLocations policies).2 :=
    redactQueryParams_samePair (pairs_sameSegment (hred.2 h) hsame.query)
  have hraw (h : t.logQuery = true) (hnil : (secretLocations policies).2 = []) :
      r.rawQuery = r'.rawQuery := by
    refine rawQuery_eq hsame ?_
    rw [secretLocations, List.filter_eq_nil_iff] at hnil
    refine List.eq_nil_iff_forall_not_mem.mpr fun name hname => hnil name hname ?_
    refine decide_eq_true ?_
    rintro rfl
    exact hred.2 h hname
  have hrest : ∀ r : LoggedRequest, (r.handled t).method = r.method ∧ (r.handled t).host = r.host ∧
      (r.handled t).path = r.path ∧ (r.handled t).rawQuery = r.rawQuery := fun r =>
    ⟨rfl, rfl, rfl, rfl⟩
  unfold withClickHouseLogging
  simp only [hrest, formatHeaders_sameHeader hheaders, hsame.method, hsame.host, hsame.path]
  cases hq : t.logQuery <;> cases hh : t.logRequestHeaders <;>
    by_cases hnil : (secretLocations policies).2 = [] <;>
      simp_all

/-- What the columns that are not redacted as headers show of a request. -/
def Row.Shows (row : Row) (u : Url) (policies : List LoggedPolicy) (t : Tracking)
    (r : LoggedRequest) : Prop :=
  (t.logRequestHeaders = true → row.userAgent = (r.handled t).header.get "User-Agent" ∧
    row.ipAddress = (r.handled t).location) ∧
  (t.logQuery = true → row.queryParams =
    if (secretLocations policies).2 = [] then valuesOf (u.pairs r.rawQuery)
    else redactQueryParams (valuesOf (u.pairs r.rawQuery)) (secretLocations policies).2)

theorem row_of_written (u : Url) (policies : List LoggedPolicy) (r : LoggedRequest)
    (hwritten : ¬ (t.deploymentID = "" ∨ t.instanceID = "")) :
    ∃ row, withClickHouseLogging u policies t r = some row ∧ row.Shows u policies t r :=
  ⟨_, if_neg hwritten, fun h => ⟨if_pos h, if_pos h⟩, fun h => if_neg (by simp [h])⟩

/-- A request with one header, or with one query. -/
def getWith (header value : String) : LoggedRequest :=
  ⟨"GET", "app.example.com", "/", "", [(header, [value])], "203.0.113.7:52000"⟩

def getQuery (query : String) : LoggedRequest :=
  ⟨"GET", "app.example.com", "/", query, [], "203.0.113.7:52000"⟩

theorem sameButKeys_getWith {header : String} (h : SecretHeader policies header) (v w : String) :
    SameButKeys u policies (getWith header v) (getWith header w) :=
  ⟨rfl, rfl, rfl, rfl, .cons ⟨rfl, .inr h⟩ .nil, .cons (.inl rfl) .nil⟩

theorem secretHeader_of_mem {name header : String} (hname : name ∈ headerNames policies)
    (heq : toLower name = toLower header) (hne : toLower header ≠ "") :
    SecretHeader policies header := by
  refine .inr (List.mem_map.mpr ⟨name, List.mem_filter.mpr ⟨hname, decide_eq_true ?_⟩, heq⟩)
  rintro rfl
  exact hne heq.symm

theorem get_handled {name : String} (hne : name ≠ principalHeader) :
    (r.handled t).header.get name = r.header.get name := by
  cases hp : t.principal with
  | none => simp [LoggedRequest.handled, hp]
  | some p => simp [LoggedRequest.handled, hp, Header.get, lookup_set_of_ne _ hne]

theorem location_handled : (r.handled t).location = r.location := by
  simp [LoggedRequest.location, Session.location, LoggedRequest.handled,
    ← get_handled (t := t) (r := r) (show forwardedFor ≠ principalHeader by decide)]

theorem parsePair_unnamed {v : String} (hsemi : ';' ∉ ("=" ++ v).toList)
    (hcut : cut '=' ("=" ++ v) = some ("", v)) (hv : v.toList.all Char.isAlphanum = true) :
    u.parsePair ("=" ++ v) = some ("", v) := by
  have hne : "=" ++ v ≠ "" := fun h => by simpa using congrArg String.length h
  rw [Url.parsePair, if_neg (not_or.mpr ⟨hne, hsemi⟩), hcut]
  simp [u.queryUnescape_plain "" (by decide), u.queryUnescape_plain v hv]

theorem parsePair_one : u.parsePair "=1" = some ("", "1") :=
  parsePair_unnamed (v := "1") (by decide) (by decide) (by decide)

theorem parsePair_two : u.parsePair "=2" = some ("", "2") :=
  parsePair_unnamed (v := "2") (by decide) (by decide) (by decide)

theorem pairs_of_parsePair {s : String} {pair : String × String} (hs : split '&' s = [s])
    (hpair : u.parsePair s = some pair) : u.pairs s = [pair] := by
  simp [Url.pairs, hs, hpair]

theorem sameButKeys_getQuery (hmem : "" ∈ paramNames policies) :
    SameButKeys u policies (getQuery "=1") (getQuery "=2") := by
  refine ⟨rfl, rfl, rfl, rfl, .nil, ?_⟩
  show List.Forall₂ _ (split '&' "=1") (split '&' "=2")
  rw [show split '&' "=1" = ["=1"] by decide, show split '&' "=2" = ["=2"] by decide]
  exact .cons (.inr ⟨"", hmem, "1", "2", parsePair_one, parsePair_two⟩) .nil

/-- The empty name is not among the names that are redacted. -/
theorem redacted_unnamed {v : String} :
    redactQueryParams (valuesOf [("", v)]) (secretLocations policies).2 = [("", [v])] := by
  simp [redactQueryParams, valuesOf, secretLocations]

section Written

variable (hwritten : ¬ (t.deploymentID = "" ∨ t.instanceID = ""))
  (h : ∀ r r', SameButKeys u policies r r' →
    withClickHouseLogging u policies t r = withClickHouseLogging u policies t r')

include hwritten h

theorem exists_row (hsame : SameButKeys u policies r r') :
    ∃ row : Row, row.Shows u policies t r ∧ row.Shows u policies t r' := by
  obtain ⟨row, hrow, hshows⟩ := row_of_written u policies r hwritten
  obtain ⟨row', hrow', hshows'⟩ := row_of_written u policies r' hwritten
  obtain rfl : row = row' := Option.some.inj (hrow.symm.trans ((h r r' hsame).trans hrow'))
  exact ⟨row, hshows, hshows'⟩

theorem columns_eq (hh : t.logRequestHeaders = true) (hsame : SameButKeys u policies r r') :
    r.header.get "User-Agent" = r'.header.get "User-Agent" ∧ r.location = r'.location := by
  obtain ⟨row, hshows, hshows'⟩ := exists_row hwritten h hsame
  have hagent := (hshows.1 hh).1.symm.trans (hshows'.1 hh).1
  have hlocation := (hshows.1 hh).2.symm.trans (hshows'.1 hh).2
  rw [get_handled (by decide), get_handled (by decide)] at hagent
  rw [location_handled, location_handled] at hlocation
  exact ⟨hagent, hlocation⟩

/-- A key in the user agent, in the forwarded address or under the empty name is in the row. -/
theorem redactable_of_independent : Redactable policies t := by
  refine ⟨fun hh name hname => ⟨fun heq => ?_, fun heq => ?_⟩, fun hq hmem => ?_⟩
  · have hsecret : SecretHeader policies "User-Agent" :=
      secretHeader_of_mem hname (heq.trans (by decide)) (by decide)
    have hagent := (columns_eq hwritten h hh (sameButKeys_getWith hsecret "key_1" "key_2")).1
    exact absurd hagent (by decide)
  · have hsecret : SecretHeader policies forwardedFor :=
      secretHeader_of_mem hname (heq.trans (by decide)) (by decide)
    have hlocation := (columns_eq hwritten h hh (sameButKeys_getWith hsecret "key_1" "key_2")).2
    exact absurd hlocation (by decide)
  · obtain ⟨row, hshows, hshows'⟩ := exists_row hwritten h (sameButKeys_getQuery hmem)
    have hcolumn := (hshows.2 hq).symm.trans (hshows'.2 hq)
    have hone : u.pairs "=1" = [("", "1")] := pairs_of_parsePair (by decide) parsePair_one
    have htwo : u.pairs "=2" = [("", "2")] := pairs_of_parsePair (by decide) parsePair_two
    rw [getQuery, getQuery, hone, htwo, redacted_unnamed, redacted_unnamed] at hcolumn
    split at hcolumn <;> exact absurd hcolumn (by decide)

end Written

/-- Two requests that differ only in Authorization and in the configured key locations always have
the same row exactly when the locations leave no key in what is captured, or no row is written. -/
theorem withClickHouseLogging_independent_iff (u : Url) (policies : List LoggedPolicy)
    (t : Tracking) :
    (∀ r r', SameButKeys u policies r r' →
      withClickHouseLogging u policies t r = withClickHouseLogging u policies t r') ↔
    (¬ (t.deploymentID = "" ∨ t.instanceID = "") → Redactable policies t) := by
  refine ⟨fun h hwritten => redactable_of_independent hwritten h, fun h r r' hsame => ?_⟩
  by_cases hwritten : t.deploymentID = "" ∨ t.instanceID = ""
  · rw [withClickHouseLogging, withClickHouseLogging, if_pos hwritten, if_pos hwritten]
  · exact independent_of_redactable (h hwritten) hsame

def plainUrl : Url := ⟨some, id, fun _ _ => rfl⟩

def captureHeaders : Tracking where
  ids := []
  deploymentID := "d_1"
  instanceID := "i_1"
  startTime := 0
  endTime := 5
  instanceTimes := none
  principal := none
  logRequestHeaders := true
  logResponseHeaders := false
  logQuery := false
  bodyRedactors := []
  requestBody := ""
  responseBody := ""
  responseStatus := 200
  responseHeaders := []

/-- A key that is sent as the user agent is in a column of its own. -/
theorem withClickHouseLogging_userAgent :
    SameButKeys plainUrl [.keyauth [.header "User-Agent"]] (getWith "User-Agent" "key_1")
        (getWith "User-Agent" "key_2") ∧
      withClickHouseLogging plainUrl [.keyauth [.header "User-Agent"]] captureHeaders
        (getWith "User-Agent" "key_1") ≠
      withClickHouseLogging plainUrl [.keyauth [.header "User-Agent"]] captureHeaders
        (getWith "User-Agent" "key_2") := by
  refine ⟨sameButKeys_getWith (.inr (by simp [headerNames, LoggedPolicy.locations])) _ _, fun h => ?_⟩
  have hagent := congrArg (Option.map Row.userAgent) h
  exact absurd hagent (by decide)

end Unkey.Frontline
