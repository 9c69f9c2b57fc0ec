import Unkey.Base.Fallible
import Unkey.PolicyConfig.Convert

/-!
# Reading a stored policy and writing it back

What the write side stores, the read side turns into a request that stores the same again.
-/

namespace Unkey.PolicyConfig

open Unkey.Base

variable {α β : Type} {lib : Libraries}

def Returns (conv : String → α → Except Fault β) (back : β → Except Fault α) (y : β) : Prop :=
  ∃ x, back y = .ok x ∧ ∀ path, conv path x = .ok y

theorem mapIndexed_returns {conv : String → α → Except Fault β} {back : β → Except Fault α}
    {path : String} {xs : List α} {ys : List β}
    (hconv : ∀ x ∈ xs, ∀ path y, conv path x = .ok y → Returns conv back y) {i : Nat}
    (h : mapIndexed conv path i xs = .ok ys) :
    ∃ xs', ys.mapM back = .ok xs' ∧ xs'.length = xs.length ∧
      ∀ path i, mapIndexed conv path i xs' = .ok ys := by
  induction xs generalizing ys i with
  | nil =>
    cases h
    exact ⟨[], rfl, rfl, fun _ _ => rfl⟩
  | cons x xs ih =>
    obtain ⟨y, hy, h⟩ := bind_eq_ok h
    obtain ⟨ys', hys, h⟩ := bind_eq_ok h
    cases h
    obtain ⟨x', hback, hx'⟩ := hconv x List.mem_cons_self _ y hy
    obtain ⟨xs', hbacks, hlen, hxs'⟩ := ih (fun x hx => hconv x (List.mem_cons_of_mem _ hx)) hys
    refine ⟨x' :: xs', ?_, by simp [hlen], fun path i => ?_⟩
    · simp [hback, hbacks, bind, Except.bind, pure, Except.pure]
    · simp [mapIndexed, hx', hxs', bind, Except.bind, pure, Except.pure]

theorem readList_returns {conv : String → α → Except Fault β} {back : β → Except Fault α}
    {path : String} {xs : List α} {ys : List β}
    (hconv : ∀ x ∈ xs, ∀ path y, conv path x = .ok y → Returns conv back y) {i : Nat}
    (h : mapIndexed conv path i xs = .ok ys) :
    ∃ xs', readList back ys = .ok xs' ∧
      ∀ path i, mapIndexed conv path i (xs'.getD []) = .ok ys := by
  obtain ⟨xs', hback, -, hxs'⟩ := mapIndexed_returns hconv h
  cases ys with
  | nil => exact ⟨none, rfl, fun _ _ => rfl⟩
  | cons y ys => exact ⟨some xs', by simp [readList, hback], hxs'⟩

theorem mapStringMatch_returns {path : String} {s : StringMatch} {m : Proto.StringMatch}
    (h : mapStringMatchToProto lib path s = .ok m) :
    Returns (mapStringMatchToProto lib) mapStringMatchFromProto m := by
  rcases s with ⟨_ | e, _ | p, _ | r, ignoreCase⟩ <;>
    simp [mapStringMatchToProto, exactlyOne, bind, Except.bind, pure, Except.pure] at h
  case none.none.some =>
    split at h
    · cases h
    · rename_i hcompile
      cases h
      refine ⟨_, rfl, fun path => ?_⟩
      cases ignoreCase.getD false <;>
        simp [mapStringMatchToProto, exactlyOne, hcompile, bind, Except.bind, pure, Except.pure]
  all_goals
    subst h
    refine ⟨_, rfl, fun path => ?_⟩
    cases ignoreCase.getD false <;> rfl

theorem mapFieldMatch_returns {path : String} {f : FieldMatch} {m : Proto.FieldMatch} (what : String)
    (hpresent : f.present ≠ some false) (h : mapFieldMatchToProto lib path f = .ok m) :
    Returns (mapFieldMatchToProto lib) (mapFieldMatchFromProto what) m := by
  rcases f with ⟨name, _ | present, _ | value⟩ <;>
    simp [mapFieldMatchToProto, exactlyOne, bind, Except.bind, pure, Except.pure] at h
  case none.some =>
    split at h
    · cases h
    · rename_i sm hsm
      cases h
      obtain ⟨value', hback, hvalue'⟩ := mapStringMatch_returns hsm
      refine ⟨⟨name, none, some value'⟩, ?_, fun path => ?_⟩
      · simp [mapFieldMatchFromProto, hback, bind, Except.bind, pure, Except.pure]
      · simp [mapFieldMatchToProto, exactlyOne, hvalue', bind, Except.bind, pure, Except.pure]
  case some.none =>
    subst h
    cases present with
    | false => simp at hpresent
    | true => exact ⟨_, rfl, fun _ => rfl⟩

/-- The schema of the API has `present: true` only. -/
def MatchExpr.Schema (m : MatchExpr) : Prop :=
  (∀ f, m.header = some f → f.present ≠ some false) ∧
    ∀ f, m.queryParam = some f → f.present ≠ some false

theorem mapMatchExpr_returns {path : String} {m : MatchExpr} {y : Option Proto.MatchExpr}
    (hschema : m.Schema) (h : mapMatchExprToProto lib path m = .ok y) :
    Returns (mapMatchExprToProto lib) mapMatchExprFromProto y := by
  rcases m with ⟨_ | sm, _ | methods, _ | header, _ | queryParam⟩ <;>
    simp [mapMatchExprToProto, exactlyOne, bind, Except.bind, pure, Except.pure] at h
  case none.none.none.some =>
    split at h
    · cases h
    · rename_i f hf
      cases h
      obtain ⟨f', hback, hf'⟩ := mapFieldMatch_returns "queryParam" (hschema.2 _ rfl) hf
      refine ⟨⟨none, none, none, some f'⟩, ?_, fun path => ?_⟩
      · simp [mapMatchExprFromProto, hback, bind, Except.bind, pure, Except.pure]
      · simp [mapMatchExprToProto, exactlyOne, hf', bind, Except.bind, pure, Except.pure]
  case none.none.some.none =>
    split at h
    · cases h
    · rename_i f hf
      cases h
      obtain ⟨f', hback, hf'⟩ := mapFieldMatch_returns "header" (hschema.1 _ rfl) hf
      refine ⟨⟨none, none, some f', none⟩, ?_, fun path => ?_⟩
      · simp [mapMatchExprFromProto, hback, bind, Except.bind, pure, Except.pure]
      · simp [mapMatchExprToProto, exactlyOne, hf', bind, Except.bind, pure, Except.pure]
  case none.some.none.none =>
    subst h
    exact ⟨_, rfl, fun _ => rfl⟩
  case some.none.none.none =>
    split at h
    · cases h
    · rename_i sm' hsm
      cases h
      obtain ⟨sm'', hback, hsm''⟩ := mapStringMatch_returns hsm
      refine ⟨⟨some sm'', none, none, none⟩, ?_, fun path => ?_⟩
      · simp [mapMatchExprFromProto, hback, bind, Except.bind, pure, Except.pure]
      · simp [mapMatchExprToProto, exactlyOne, hsm'', bind, Except.bind, pure, Except.pure]

theorem mapKeyLocation_returns (policyID : String) {path : String} {loc : KeyLocation}
    {y : Option Proto.KeyLocation} (h : mapKeyLocationToProto path loc = .ok y) :
    Returns mapKeyLocationToProto (mapKeyLocationFromProto policyID) y := by
  rcases loc with ⟨_ | _, _ | header, _ | name⟩ <;>
    simp [mapKeyLocationToProto, exactlyOne, bind, Except.bind, pure, Except.pure] at h <;> subst h
  case none.some.none =>
    refine ⟨_, rfl, fun path => ?_⟩
    by_cases hstrip : header.stripPrefix.getD "" = "" <;>
      simp [hstrip, mapKeyLocationToProto, exactlyOne, bind, Except.bind, pure, Except.pure]
  all_goals exact ⟨_, rfl, fun _ => rfl⟩

theorem mapKeyRatelimit_returns {path : String} {rl y : KeyRatelimit}
    (h : mapKeyRatelimitToProto path rl = .ok y) : Returns mapKeyRatelimitToProto .ok y := by
  unfold mapKeyRatelimitToProto at h
  split at h <;> cases h
  rename_i htogether
  exact ⟨rl, rfl, fun path => by simp [mapKeyRatelimitToProto, not_not.mp htogether]⟩

theorem mapKeyauth_returns (policyID : String) {path : String} {k : KeyauthPolicy} {y : Proto.KeyAuth}
    (hkeyspaces : k.keyspaces ≠ []) (h : mapKeyauthToProto lib path k = .ok y) :
    Returns (mapKeyauthToProto lib) (mapKeyauthFromProto policyID) y := by
  obtain ⟨locations, hlocations, h⟩ := bind_eq_ok h
  obtain ⟨ratelimits, hratelimits, h⟩ := bind_eq_ok h
  split at h
  · cases h
  rename_i hquery
  split at h
  · cases h
  rename_i hcredits
  cases h
  obtain ⟨locations', hback, hlocations'⟩ :=
    readList_returns (fun _ _ _ _ h => mapKeyLocation_returns policyID h) hlocations
  obtain ⟨ratelimits', hback', hratelimits'⟩ :=
    readList_returns (fun _ _ _ _ h => mapKeyRatelimit_returns h) hratelimits
  refine ⟨⟨k.keyspaces, locations', k.permissionQuery, ratelimits', k.credits⟩, ?_, fun path => ?_⟩
  · simp [mapKeyauthFromProto, hkeyspaces, hback, hback', bind, Except.bind, pure, Except.pure]
  · simp only [mapKeyauthToProto, hlocations', hratelimits', bind, Except.bind, hquery, if_neg hcredits,
      pure, Except.pure]

theorem mapRatelimitIdentifier_returns (policyID : String) {path : String} {id : RatelimitIdentifier}
    {y : Option Proto.RateLimitIdentifier} (h : mapRatelimitIdentifierToProto path id = .ok y) :
    Returns mapRatelimitIdentifierToProto (mapRatelimitIdentifierFromProto policyID) y := by
  rcases id with ⟨_ | _, _ | name, _ | _, _ | _, _ | field⟩ <;>
    simp [mapRatelimitIdentifierToProto, exactlyOne, bind, Except.bind, pure, Except.pure] at h <;>
    subst h <;> exact ⟨_, rfl, fun _ => rfl⟩

theorem mapRatelimit_returns (policyID : String) {path : String} {r : RatelimitPolicy}
    {y : Proto.RateLimit} (h : mapRatelimitToProto path r = .ok y) :
    Returns mapRatelimitToProto (mapRatelimitFromProto policyID) y := by
  suffices hlist : ∃ ids : List RatelimitIdentifier, ids ≠ [] ∧ ids.length ≤ maxCompoundIdentifiers ∧
      y = ⟨r.limit, r.windowMs, none, y.identifiers⟩ ∧
      y.identifiers.mapM (mapRatelimitIdentifierFromProto policyID) = .ok ids ∧
      ∀ path i, mapIndexed mapRatelimitIdentifierToProto path i ids = .ok y.identifiers by
    obtain ⟨ids, hne, hlen, hy, hback, hids⟩ := hlist
    have hsources : y.sources = y.identifiers ∧ y.sources ≠ [] := by
      cases hident : y.identifiers with
      | nil =>
        rw [hident] at hback
        cases hback
        exact absurd rfl hne
      | cons => simp [Proto.RateLimit.sources, hident]
    refine ⟨⟨r.limit, r.windowMs, none, some ids⟩, ?_, fun path => ?_⟩
    · rw [hy]
      rw [hy] at hsources
      simp [mapRatelimitFromProto, hsources.1 ▸ hsources.2, hsources.1, hback, bind, Except.bind, pure,
        Except.pure]
    · rw [hy]
      have hone : ids.isEmpty = false := by simpa using hne
      simp [mapRatelimitToProto, exactlyOne, hone, Nat.not_lt.mpr hlen, hids, bind, Except.bind, pure,
        Except.pure]
  obtain ⟨_, hone, h⟩ := bind_eq_ok h
  split at h
  · obtain ⟨y', hy', h⟩ := bind_eq_ok h
    cases h
    obtain ⟨id', hback, hid'⟩ := mapRatelimitIdentifier_returns policyID hy'
    refine ⟨[id'], by simp, by simp [maxCompoundIdentifiers], rfl, ?_, fun path i => ?_⟩
    · simp [hback, bind, Except.bind, pure, Except.pure]
    · simp [mapIndexed, hid', bind, Except.bind, pure, Except.pure]
  · rename_i hnone
    split at h
    · cases h
    rename_i hlen
    obtain ⟨ys, hys, h⟩ := bind_eq_ok h
    cases h
    obtain ⟨ids, hback, hlength, hids⟩ :=
      mapIndexed_returns (fun _ _ _ _ h => mapRatelimitIdentifier_returns policyID h) hys
    refine ⟨ids, fun hnil => ?_, by omega, rfl, hback, hids⟩
    rw [hnil, List.length_nil] at hlength
    simp [exactlyOne, hnone, List.length_eq_zero_iff.mp hlength.symm] at hone

def Policy.Schema (p : Policy) : Prop :=
  (∀ k, p.keyauth = some k → k.keyspaces ≠ []) ∧ ∀ m ∈ p.matchExprs.getD [], m.Schema

theorem actionValue_string (action : Proto.Action) : actionValue action.string = some action := by
  cases action <;> rfl

theorem isSome_of_exactlyOne {path variants : String} {p : Policy} {u : Unit}
    (h : exactlyOne path variants [p.keyauth.isSome, p.ratelimit.isSome, p.firewall.isSome,
      p.openapi.isSome, p.logging.isSome] = .ok u) :
    p.keyauth.isSome ∨ p.ratelimit.isSome ∨ p.firewall.isSome ∨ p.openapi.isSome ∨
      p.logging.isSome := by
  rcases p with ⟨_, _, _, _ | _, _ | _, _ | _, _ | _, _ | _⟩ <;> simp_all [exactlyOne]

theorem policy_returns {path : String} {p : Policy} {y : Proto.Policy} (id : String)
    (hschema : p.Schema) (h : policyToProto lib path p = .ok y) :
    ∃ response, policyFromProto { y with id := id } = .ok response ∧
      ∀ path, policyToProto lib path response.toPolicy = .ok y := by
  obtain ⟨_, hone, h⟩ := bind_eq_ok h
  obtain ⟨exprs, hexprs, h⟩ := bind_eq_ok h
  obtain ⟨config, hconfig, h⟩ := bind_eq_ok h
  cases h
  obtain ⟨exprs', hback, hexprs'⟩ :=
    readList_returns (fun m hm _ _ h => mapMatchExpr_returns (hschema.2 m hm) h) hexprs
  have hset := isSome_of_exactlyOne hone
  unfold mapConfigToProto at hconfig
  split at hconfig
  case h_1 k hk =>
    obtain ⟨y, hy, h⟩ := bind_eq_ok hconfig
    cases h
    obtain ⟨k', hk', hky⟩ := mapKeyauth_returns id (hschema.1 k hk) hy
    refine ⟨⟨⟨p.name, p.enabled, exprs', some k', none, none, none, none⟩, id⟩, ?_, fun path => ?_⟩
    · simp [policyFromProto, hback, hk', bind, Except.bind, pure, Except.pure]
    · simp [policyToProto, mapConfigToProto, exactlyOne, hexprs', hky, bind, Except.bind, pure,
        Except.pure]
  case h_2 r _ hr =>
    obtain ⟨y, hy, h⟩ := bind_eq_ok hconfig
    cases h
    obtain ⟨r', hr', hry⟩ := mapRatelimit_returns id hy
    refine ⟨⟨⟨p.name, p.enabled, exprs', none, some r', none, none, none⟩, id⟩, ?_, fun path => ?_⟩
    · simp [policyFromProto, hback, hr', bind, Except.bind, pure, Except.pure]
    · simp [policyToProto, mapConfigToProto, exactlyOne, hexprs', hry, bind, Except.bind, pure,
        Except.pure]
  case h_3 name _ _ hname =>
    split at hconfig
    · cases hconfig
    rename_i action haction
    cases hconfig
    refine ⟨⟨⟨p.name, p.enabled, exprs', none, none, some action.string, none, none⟩, id⟩, ?_,
      fun path => ?_⟩
    · simp [policyFromProto, hback, bind, Except.bind, pure, Except.pure]
    · simp [policyToProto, mapConfigToProto, exactlyOne, hexprs', actionValue_string, bind,
        Except.bind, pure, Except.pure]
  case h_4 =>
    cases hconfig
    refine ⟨⟨⟨p.name, p.enabled, exprs', none, none, none, some (), none⟩, id⟩, ?_, fun path => ?_⟩
    · simp [policyFromProto, hback, bind, Except.bind, pure, Except.pure]
    · simp [policyToProto, mapConfigToProto, exactlyOne, hexprs', bind, Except.bind, pure, Except.pure]
  case h_5 l _ _ _ _ hl =>
    cases hconfig
    refine ⟨⟨⟨p.name, p.enabled, exprs', none, none, none, none, some ⟨some (l.requestHeaders.getD false),
      some (l.responseHeaders.getD false), some (l.requestBody.getD false),
      some (l.responseBody.getD false), some (l.query.getD false)⟩⟩, id⟩, ?_, fun path => ?_⟩
    · simp [policyFromProto, hback, bind, Except.bind, pure, Except.pure]
    · simp [policyToProto, mapConfigToProto, exactlyOne, hexprs', bind, Except.bind, pure, Except.pure]
  case h_6 => simp_all

def requestOf (responses : List PolicyResponse) : List Policy := responses.map (·.toPolicy)

def withoutIds (protos : List Proto.Policy) : List Proto.Policy :=
  protos.map fun p => { p with id := "" }

theorem policies_return (uid : Nat → String) {path : String} {policies : List Policy}
    {protos : List Proto.Policy} (hschema : ∀ p ∈ policies, p.Schema) {i : Nat}
    (h : mapIndexed (policyToProto lib) path i policies = .ok protos) :
    ∃ responses, fromProto (protos.mapIdx fun j p => { p with id := uid (i + j) }) = .ok responses ∧
      ∀ path i, mapIndexed (policyToProto lib) path i (requestOf responses) = .ok protos := by
  induction policies generalizing protos i with
  | nil =>
    cases h
    exact ⟨[], rfl, fun _ _ => rfl⟩
  | cons p policies ih =>
    obtain ⟨y, hy, h⟩ := bind_eq_ok h
    obtain ⟨ys, hys, h⟩ := bind_eq_ok h
    cases h
    obtain ⟨response, hback, hresponse⟩ := policy_returns (uid i) (hschema p List.mem_cons_self) hy
    obtain ⟨responses, hbacks, hresponses⟩ := ih (fun p hp => hschema p (List.mem_cons_of_mem _ hp)) hys
    refine ⟨response :: responses, ?_, fun path i => ?_⟩
    · have hshift : (fun j (p : Proto.Policy) => { p with id := uid (i + (j + 1)) }) =
          fun j p => { p with id := uid (i + 1 + j) } := by
        funext j p
        rw [Nat.add_right_comm, Nat.add_assoc]
      rw [fromProto] at hbacks ⊢
      rw [List.mapIdx_cons, hshift, List.mapM_cons, Nat.add_zero, hback, ok_bind, hbacks]
      rfl
    · rw [requestOf, List.map_cons, mapIndexed, hresponse, ok_bind, ← requestOf, hresponses]
      rfl

/-- What the API stores for a request it reads back, and the policies it reads back are stored as the
same protos, up to the ids. -/
theorem toProto_fromProto (lib : Libraries) (uid uid' : Nat → String) {policies : List Policy}
    {protos : List Proto.Policy} (hschema : ∀ p ∈ policies, p.Schema)
    (h : toProto lib uid policies = .ok protos) :
    ∃ responses protos', fromProto protos = .ok responses ∧
      toProto lib uid' (requestOf responses) = .ok protos' ∧ withoutIds protos' = withoutIds protos := by
  unfold toProto at h
  cases hmap : mapIndexed (policyToProto lib) "policies" 0 policies with
  | error e =>
    rw [hmap] at h
    cases h
  | ok stored =>
    rw [hmap] at h
    cases h
    obtain ⟨responses, hback, hagain⟩ := policies_return uid hschema hmap
    simp only [Nat.zero_add] at hback
    refine ⟨responses, _, hback, by rw [toProto, hagain]; rfl, ?_⟩
    exact List.ext_getElem (by simp [withoutIds]) fun i _ _ => by simp [withoutIds]

def legacyPolicy : Policy where
  name := "per client"
  enabled := true
  matchExprs := some [⟨some ⟨none, some "/v1", none, some false⟩, none, none, none⟩,
    ⟨none, none, some ⟨"X-Client", some true, none⟩, none⟩]
  keyauth := none
  ratelimit := some ⟨10, 60000, some ⟨some (), none, none, none, none⟩, some []⟩
  firewall := none
  openapi := none
  logging := none

theorem toProto_fromProto_legacy :
    let lib : Libraries := ⟨fun _ => none, fun _ => none, id⟩
    ∃ protos responses protos', toProto lib (fun _ => "pol_1") [legacyPolicy] = .ok protos ∧
      fromProto protos = .ok responses ∧
      toProto lib (fun _ => "pol_2") (requestOf responses) = .ok protos' ∧
      withoutIds protos' = withoutIds protos := by
  intro lib
  have hschema : ∀ p ∈ [legacyPolicy], p.Schema := by
    simp [Policy.Schema, legacyPolicy, MatchExpr.Schema]
  obtain ⟨responses, protos', h⟩ :=
    toProto_fromProto lib (fun _ => "pol_1") (fun _ => "pol_2") hschema rfl
  exact ⟨_, responses, protos', rfl, h⟩

end Unkey.PolicyConfig
