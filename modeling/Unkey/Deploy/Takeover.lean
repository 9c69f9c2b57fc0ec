import Mathlib.Data.List.Induction
import Unkey.Deploy.Routing

/-!
# Whose routes a deployment takes over

A hostname belongs to the app that used it first, because only the first transaction for it inserts
a route.
-/

namespace Unkey.Deploy

def validSlug (s : String) : Bool :=
  (s.toList.splitOn '-').all fun w =>
    !w.isEmpty && w.all fun c => ('a' ≤ c && c ≤ 'z') || ('0' ≤ c && c ≤ '9')

structure Catalog where
  environments : List Environment
  slugs : ∀ e ∈ environments, validSlug e.slug ∧ validSlug e.app.slug ∧
    validSlug e.app.project.slug ∧ validSlug e.app.project.workspace.slug
  workspaceSlug : ∀ e ∈ environments, ∀ e' ∈ environments,
    e.app.project.workspace.slug = e'.app.project.workspace.slug →
    e.app.project.workspace = e'.app.project.workspace
  projectSlug : ∀ e ∈ environments, ∀ e' ∈ environments,
    e.app.project.workspace = e'.app.project.workspace →
    e.app.project.slug = e'.app.project.slug → e.app.project = e'.app.project
  appSlug : ∀ e ∈ environments, ∀ e' ∈ environments,
    e.app.project = e'.app.project → e.app.slug = e'.app.slug → e.app = e'.app
  environmentSlug : ∀ e ∈ environments, ∀ e' ∈ environments,
    e.app = e'.app → e.slug = e'.slug → e = e'
  appId : ∀ e ∈ environments, ∀ e' ∈ environments, e.app.id = e'.app.id → e.app = e'.app
  environmentId : ∀ e ∈ environments, ∀ e' ∈ environments, e.id = e'.id → e = e'

abbrev Uses := List (List (List Char) × String)

def firstUse (uses : Uses) (w : List (List Char)) : Option String :=
  (uses.find? fun u => u.1 == w).map Prod.snd

theorem firstUse_append (uses more : Uses) (w : List (List Char)) :
    firstUse (uses ++ more) w = (firstUse uses w).or (firstUse more w) := by
  unfold firstUse
  rw [List.find?_append]
  cases uses.find? fun u => u.1 == w <;> rfl

variable {w : List (List Char)}

theorem firstUse_eq_none {uses : Uses} :
    firstUse uses w = none ↔ ∀ u ∈ uses, u.1 ≠ w := by
  simp [firstUse]

def Event.uses : Event → Uses
  | .upsert d i => ((hostWords d)[i]?.map fun w => (w, d.environment.app.id)).toList
  | .assign _ _ => []

def Named (apex : String) (r : FrontlineRoute) (w : List (List Char)) : Prop :=
  ∃ host, r.fullyQualifiedDomainName = host ++ "." ++ apex ∧ words host = w

/-- What a history leaves in the table: numbered rows, one for every hostname that
was used, each with the app of the first use and with an environment of that app. -/
structure Owned (apex : String) (c : Catalog) (uses : Uses) (t : Table) : Prop where
  numbered : Numbered t
  first : ∀ r ∈ t, ∃ w, Named apex r w ∧ firstUse uses w = some r.appId
  found : ∀ u ∈ uses, ∃ r ∈ t, Named apex r u.1
  environment : ∀ r ∈ t, ∃ e ∈ c.environments, e.id = r.environmentId ∧ e.app.id = r.appId

variable {apex : String} {c : Catalog} {uses : Uses} {t : Table}

theorem owned_nil : Owned apex c [] [] := ⟨rfl, by simp, by simp, by simp⟩

theorem sameName_of_named {r : FrontlineRoute} (h : Named apex r w) (host : String) :
    sameName r.fullyQualifiedDomainName (host ++ "." ++ apex) = true ↔ w = words host := by
  obtain ⟨host', hfqdn, rfl⟩ := h
  rw [hfqdn, sameName_apex]

theorem Owned.lookup (h : Owned apex c uses t) (host : String) :
    match findFrontlineRouteByFQDN t (host ++ "." ++ apex) with
    | some r => r ∈ t ∧ Named apex r (words host) ∧ firstUse uses (words host) = some r.appId
    | none => firstUse uses (words host) = none := by
  cases hf : findFrontlineRouteByFQDN t (host ++ "." ++ apex) with
  | some r =>
    have hr := List.mem_of_find?_eq_some hf
    obtain ⟨w, hw, hfirst⟩ := h.first r hr
    have hsame : sameName r.fullyQualifiedDomainName (host ++ "." ++ apex) = true := by
      simpa using List.find?_some hf
    obtain rfl := (sameName_of_named hw host).mp hsame
    exact ⟨hr, hw, hfirst⟩
  | none =>
    refine firstUse_eq_none.mpr fun u hu heq => ?_
    obtain ⟨r, hr, hw⟩ := h.found u hu
    have hno := List.find?_eq_none.mp hf r hr
    exact hno ((sameName_of_named hw host).mpr heq)

variable {d : Deployment}

theorem Owned.upsert (h : Owned apex c uses t) {domain : NewDomain}
    {host : String} (hd : d.environment ∈ c.environments)
    (hdom : domain.domain = host ++ "." ++ apex) :
    Owned apex c (uses ++ [(words host, d.environment.app.id)]) (upsertRoute t d domain).1 := by
  have hl := h.lookup host
  rw [← hdom] at hl
  unfold upsertRoute
  cases hf : findFrontlineRouteByFQDN t domain.domain with
  | some r =>
    rw [hf] at hl
    obtain ⟨hr, hw, -⟩ := hl
    refine ⟨h.numbered, fun r' hr' => ?_, fun u hu => ?_, h.environment⟩
    · obtain ⟨w, hw', hfirst⟩ := h.first r' hr'
      exact ⟨w, hw', by rw [firstUse_append, hfirst]; rfl⟩
    · rcases List.mem_append.mp hu with hu | hu
      · exact h.found u hu
      · cases List.mem_singleton.mp hu
        exact ⟨r, hr, hw⟩
  | none =>
    rw [hf] at hl
    refine ⟨numbered_insert h.numbered d domain, fun r' hr' => ?_, fun u hu => ?_,
      fun r' hr' => ?_⟩
    · rcases List.mem_append.mp hr' with hr' | hr'
      · obtain ⟨w, hw', hfirst⟩ := h.first r' hr'
        exact ⟨w, hw', by rw [firstUse_append, hfirst]; rfl⟩
      · cases List.mem_singleton.mp hr'
        refine ⟨words host, ⟨host, hdom, rfl⟩, ?_⟩
        rw [firstUse_append, hl]
        simp [firstUse]
    · rcases List.mem_append.mp hu with hu | hu
      · obtain ⟨r', hr', hw'⟩ := h.found u hu
        exact ⟨r', List.mem_append_left _ hr', hw'⟩
      · cases List.mem_singleton.mp hu
        exact ⟨_, List.mem_append_right _ List.mem_cons_self, host, hdom, rfl⟩
    · rcases List.mem_append.mp hr' with hr' | hr'
      · exact h.environment r' hr'
      · cases List.mem_singleton.mp hr'
        exact ⟨d.environment, hd, rfl, rfl⟩

theorem Owned.assign (h : Owned apex c uses t) (deploymentId : String) (ids : List Nat) :
    Owned apex c uses (assignFrontlineRoutes t deploymentId ids) := by
  have hrow : ∀ r' ∈ assignFrontlineRoutes t deploymentId ids, ∃ r ∈ t, r'.appId = r.appId ∧
      r'.environmentId = r.environmentId ∧
      r'.fullyQualifiedDomainName = r.fullyQualifiedDomainName := by
    intro r' hr'
    obtain ⟨r, hr, rfl⟩ := List.mem_map.mp hr'
    refine ⟨r, hr, ?_⟩
    split <;> exact ⟨rfl, rfl, rfl⟩
  refine ⟨numbered_assign h.numbered deploymentId ids, fun r' hr' => ?_, fun u hu => ?_,
    fun r' hr' => ?_⟩
  · obtain ⟨r, hr, happ, -, hname⟩ := hrow r' hr'
    obtain ⟨w, ⟨host, hfqdn, hw⟩, hfirst⟩ := h.first r hr
    exact ⟨w, ⟨host, by rw [hname, hfqdn], hw⟩, by rw [happ, hfirst]⟩
  · obtain ⟨r, hr, host, hfqdn, hw⟩ := h.found u hu
    refine ⟨_, List.mem_map.mpr ⟨r, hr, rfl⟩, host, ?_, hw⟩
    split <;> exact hfqdn
  · obtain ⟨r, hr, happ, henv, -⟩ := hrow r' hr'
    rw [happ, henv]
    exact h.environment r hr

theorem domainsOf_get (apex : String) (d : Deployment) (i : Nat) :
    match (domainsOf apex d)[i]?, (hostWords d)[i]? with
    | some domain, some w => ∃ host, domain.domain = host ++ "." ++ apex ∧ w = words host
    | none, none => True
    | _, _ => False := by
  obtain ⟨hosts, hdom, hw⟩ := domainsOf_words apex d
  rw [← hw]
  have hi := congrArg (fun l => l[i]?) hdom
  simp only [List.getElem?_map] at hi ⊢
  cases hd : (domainsOf apex d)[i]? with
  | none =>
    rw [hd] at hi
    rw [Option.map_none, eq_comm, Option.map_eq_none_iff] at hi
    simp [hi]
  | some domain => grind

def Event.InCatalog (c : Catalog) : Event → Prop
  | .upsert d _ => d.environment ∈ c.environments
  | .assign _ _ => True

theorem Owned.apply (h : Owned apex c uses t) {e : Event} (he : e.InCatalog c) :
    Owned apex c (uses ++ e.uses) (e.apply apex t) := by
  cases e with
  | assign deploymentId ids =>
    rw [Event.uses, List.append_nil]
    exact h.assign deploymentId ids
  | upsert d i =>
    have hget := domainsOf_get apex d i
    simp only [Event.uses, Event.apply]
    cases hd : (domainsOf apex d)[i]? with
    | none => grind
    | some domain =>
      cases hw : (hostWords d)[i]? with
      | none => simp [hd, hw] at hget
      | some w =>
        simp only [hd, hw] at hget
        obtain ⟨host, hdom, rfl⟩ := hget
        exact h.upsert he hdom

def usesOf (events : List Event) : Uses := events.flatMap Event.uses

theorem owned_build (apex : String) (events : List Event) (he : ∀ e ∈ events, e.InCatalog c) :
    Owned apex c (usesOf events) (build apex events) := by
  -- the loop runs from the left, so the induction is over the last step
  induction events using List.reverseRecOn with
  | nil => exact owned_nil
  | append_singleton events e ih =>
    have hprev := ih (fun e' he' => he e' (List.mem_append_left _ he'))
    have hstep := hprev.apply (he e (by simp))
    simpa [usesOf, build, List.foldl_append] using hstep

def AllOf (t : Table) (ids : List Nat) (appId : String) : Prop :=
  ∀ r ∈ t, r.id ∈ ids → r.appId = appId

theorem allOf_append {ids ids' : List Nat} {appId : String} :
    AllOf t (ids ++ ids') appId ↔ AllOf t ids appId ∧ AllOf t ids' appId := by
  simp only [AllOf, List.mem_append]
  constructor
  · intro h
    exact ⟨fun r hr hid => h r hr (.inl hid), fun r hr hid => h r hr (.inr hid)⟩
  · rintro ⟨h, h'⟩ r hr (hid | hid)
    · exact h r hr hid
    · exact h' r hr hid

/-- No host of the deployment was first used by another app. -/
def NotTaken (uses : Uses) (hosts : List (List (List Char))) (appId : String) : Prop :=
  ∀ w ∈ hosts, ∀ a, firstUse uses w = some a → a = appId

theorem upsertRoutes_subset (d : Deployment) (domains : List NewDomain) (t : Table) :
    t ⊆ (upsertRoutes d t domains).1 := by
  induction domains generalizing t with
  | nil => exact List.Subset.refl t
  | cons domain rest ih =>
    exact List.Subset.trans (upsertRoute_subset t d domain) (ih _)

theorem notTaken_own {hosts : List (List (List Char))} {appId : String} :
    NotTaken (uses ++ [(w, appId)]) hosts appId ↔ NotTaken uses hosts appId := by
  refine forall₂_congr fun w' _ => ?_
  rw [firstUse_append]
  cases hf : firstUse uses w' with
  | some a => simp
  | none =>
    by_cases hw : w = w'
    · simp [firstUse, hw]
    · simp [firstUse, hw]

theorem Owned.upsertRoute_allOf {domain : NewDomain} {host appId : String}
    {uses : Uses} {t t' : Table} (h : Owned apex c uses t)
    (hhead : domain.domain = host ++ "." ++ apex) (hnum : Numbered t') (hsub : t ⊆ t') :
    AllOf t' (upsertRoute t d domain).2.toList appId ↔
      ∀ a, firstUse uses (words host) = some a → a = appId := by
  have hl := h.lookup host
  rw [← hhead] at hl
  have hid : (upsertRoute t d domain).2 =
      (findFrontlineRouteByFQDN t domain.domain).map FrontlineRoute.id := by
    unfold upsertRoute
    cases findFrontlineRouteByFQDN t domain.domain <;> rfl
  rw [hid]
  cases hf : findFrontlineRouteByFQDN t domain.domain with
  | none =>
    rw [hf] at hl
    simp [AllOf, hl]
  | some r =>
    rw [hf] at hl
    obtain ⟨hr, -, hfirst⟩ := hl
    constructor
    · intro hall a ha
      rw [hfirst] at ha
      cases ha
      exact hall r (hsub hr) (by simp)
    · intro hfree r' hr' hid'
      have heq : r' = r := hnum.unique hr' (hsub hr) (by simpa using hid')
      rw [heq]
      exact hfree _ hfirst

theorem Owned.upsertRoutes_allOf (hd : d.environment ∈ c.environments)
    {domains : List NewDomain} {hosts : List String} {uses : Uses} {t : Table}
    (h : Owned apex c uses t)
    (hdom : domains.map NewDomain.domain = hosts.map fun host => host ++ "." ++ apex) :
    Owned apex c (uses ++ hosts.map fun host => (words host, d.environment.app.id))
        (upsertRoutes d t domains).1 ∧
      (AllOf (upsertRoutes d t domains).1 (upsertRoutes d t domains).2 d.environment.app.id ↔
        NotTaken uses (hosts.map words) d.environment.app.id) := by
  induction domains generalizing hosts uses t with
  | nil =>
    obtain rfl : hosts = [] := by simpa using hdom.symm
    simpa [upsertRoutes, AllOf, NotTaken] using h
  | cons domain rest ih =>
    cases hosts with
    | nil => simp at hdom
    | cons host hosts =>
      obtain ⟨hcons, htail⟩ := List.cons.inj hdom
      have hhead : domain.domain = host ++ "." ++ apex := hcons
      have hnext := h.upsert hd hhead
      obtain ⟨hown, hiff⟩ := ih hnext htail
      rw [notTaken_own] at hiff
      refine ⟨by simpa [upsertRoutes, List.append_assoc] using hown, ?_⟩
      simp only [upsertRoutes, allOf_append, hiff, List.map_cons]
      have hsplit : NotTaken uses (words host :: hosts.map words) d.environment.app.id ↔
          (∀ a, firstUse uses (words host) = some a → a = d.environment.app.id) ∧
            NotTaken uses (hosts.map words) d.environment.app.id := by
        simp [NotTaken]
      rw [hsplit]
      refine and_congr_left fun _ => ?_
      exact h.upsertRoute_allOf hhead hown.numbered (List.Subset.trans
        (upsertRoute_subset t d domain) (upsertRoutes_subset d rest _))

theorem Owned.promotion_allOf (h : Owned apex c uses t)
    (hd : d.environment ∈ c.environments) (sticky : List Sticky) :
    AllOf t (findFrontlineRouteForPromotion t d.environment.id sticky) d.environment.app.id := by
  intro r hr hid
  obtain ⟨r', hr', heq⟩ := List.mem_map.mp hid
  obtain ⟨hmem, hcond⟩ := List.mem_filter.mp hr'
  obtain rfl := h.numbered.unique hmem hr heq
  obtain ⟨e, he, henv, happ⟩ := h.environment r' hr
  simp only [Bool.and_eq_true, beq_iff_eq] at hcond
  rw [← happ, c.environmentId e he d.environment hd (henv.trans hcond.1)]

/-- A deployment passes only routes of its own app to `AssignFrontlineRoutes`
exactly when none of its hostnames, as a sequence of words, was first used by a
deployment of another app. -/
theorem configureRouting_own_iff (c : Catalog) (apex : String) (events : List Event)
    (d : Deployment) (refreshed current : Bool) (he : ∀ e ∈ events, e.InCatalog c)
    (hd : d.environment ∈ c.environments) :
    (∀ r ∈ (configureRouting apex (build apex events) d refreshed current).1,
        r.id ∈ (configureRouting apex (build apex events) d refreshed current).2 →
        r.appId = d.environment.app.id) ↔
      ∀ w ∈ hostWords d, ∀ a, firstUse (usesOf events) w = some a → a = d.environment.app.id := by
  obtain ⟨hosts, hdom, hwords⟩ := domainsOf_words apex d
  obtain ⟨hown, hiff⟩ := (owned_build apex events he).upsertRoutes_allOf hd hdom
  change AllOf _ (_ ++ _) _ ↔ NotTaken _ _ _
  rw [allOf_append, ← hwords, ← hiff]
  exact and_iff_right (hown.promotion_allOf hd _)

section TwoTenants

def tenantEnvironment (n workspaceSlug projectSlug : String) : Environment where
  id := "env_" ++ n
  app := ⟨"app_" ++ n, ⟨"prj_" ++ n, ⟨"ws_" ++ n, workspaceSlug⟩, projectSlug⟩, "default"⟩
  slug := "production"
  kind := .production

def twoTenants : Catalog where
  environments := [tenantEnvironment "1" "b-c" "a", tenantEnvironment "2" "c" "a-b"]
  slugs := by decide
  workspaceSlug := by decide
  projectSlug := by decide
  appSlug := by decide
  environmentSlug := by decide
  appId := by decide
  environmentId := by decide

def tenantDeployment (n workspaceSlug projectSlug : String) : Deployment where
  id := "d_" ++ n
  environment := tenantEnvironment n workspaceSlug projectSlug
  gitCommitSha := .absent
  gitBranch := ""
  forkRepositoryFullName := none
  trigger := .dashboard

def firstTenantEvents : List Event :=
  let d := tenantDeployment "1" "b-c" "a"
  [.upsert d 0, .upsert d 1, .upsert d 2]

theorem firstTenantEvents_inCatalog : ∀ e ∈ firstTenantEvents, e.InCatalog twoTenants := by
  intro e he
  simp only [firstTenantEvents, List.mem_cons, List.not_mem_nil, or_false] at he
  rcases he with rfl | rfl | rfl <;> exact List.mem_cons_self

theorem configureRouting_own_iff_twoTenants :
    (∀ r ∈ (configureRouting "unkey.app" (build "unkey.app" firstTenantEvents)
          (tenantDeployment "1" "b-c" "a") false false).1,
        r.id ∈ (configureRouting "unkey.app" (build "unkey.app" firstTenantEvents)
          (tenantDeployment "1" "b-c" "a") false false).2 → r.appId = "app_1") ↔
      ∀ w ∈ hostWords (tenantDeployment "1" "b-c" "a"), ∀ a,
        firstUse (usesOf firstTenantEvents) w = some a → a = "app_1" :=
  configureRouting_own_iff twoTenants "unkey.app" firstTenantEvents
    (tenantDeployment "1" "b-c" "a") false false firstTenantEvents_inCatalog List.mem_cons_self

/-- Both live hostnames are `a-b-c.unkey.app`: the second tenant's deployment takes
over the route of the first. -/
theorem twoTenants_takeover :
    (∀ e ∈ firstTenantEvents, e.InCatalog twoTenants) ∧
    (tenantDeployment "2" "c" "a-b").environment ∈ twoTenants.environments ∧
    ∃ r ∈ (configureRouting "unkey.app" (build "unkey.app" firstTenantEvents)
          (tenantDeployment "2" "c" "a-b") false false).1,
      r.id ∈ (configureRouting "unkey.app" (build "unkey.app" firstTenantEvents)
          (tenantDeployment "2" "c" "a-b") false false).2 ∧
      r.fullyQualifiedDomainName = "a-b-c.unkey.app" ∧ r.appId = "app_1" ∧
      (tenantDeployment "2" "c" "a-b").environment.app.id = "app_2" :=
  ⟨firstTenantEvents_inCatalog, by decide, by decide⟩

end TwoTenants

end Unkey.Deploy
