import Mathlib.Data.List.Nodup
import Unkey.Deploy.Domains

/-!
# Frontline routes

The route table and the routing step of a deployment: one transaction per hostname that finds the
route or inserts it, the sticky routes of the environment, and the reassignment of everything that
was found.
-/

namespace Unkey.Deploy

/-- A row of `frontline_routes`. -/
structure FrontlineRoute where
  id : Nat
  projectId : String
  appId : String
  deploymentId : String
  environmentId : String
  fullyQualifiedDomainName : String
  sticky : Sticky
  deriving DecidableEq

abbrev Table := List FrontlineRoute

def findFrontlineRouteByFQDN (t : Table) (name : String) : Option FrontlineRoute :=
  t.find? fun r => sameName r.fullyQualifiedDomainName name

/-- `InsertFrontlineRoute` with the parameters that `configureRouting` gives it. -/
def insertFrontlineRoute (t : Table) (d : Deployment) (domain : NewDomain) : Table :=
  t ++ [{ id := t.length
          projectId := d.environment.app.project.id
          appId := d.environment.app.id
          deploymentId := d.id
          environmentId := d.environment.id
          fullyQualifiedDomainName := domain.domain
          sticky := domain.sticky }]

def upsertRoute (t : Table) (d : Deployment) (domain : NewDomain) : Table × Option Nat :=
  match findFrontlineRouteByFQDN t domain.domain with
  | some found => (t, some found.id)
  | none => (insertFrontlineRoute t d domain, none)

def upsertRoutes (d : Deployment) : Table → List NewDomain → Table × List Nat
  | t, [] => (t, [])
  | t, domain :: rest =>
    let r := upsertRoute t d domain
    let r' := upsertRoutes d r.1 rest
    (r'.1, r.2.toList ++ r'.2)

def findFrontlineRouteForPromotion (t : Table) (environmentId : String) (sticky : List Sticky) :
    List Nat :=
  (t.filter fun r => r.environmentId == environmentId && sticky.contains r.sticky).map
    FrontlineRoute.id

def assignFrontlineRoutes (t : Table) (deploymentId : String) (ids : List Nat) : Table :=
  t.map fun r => if r.id ∈ ids then { r with deploymentId := deploymentId } else r

/-- The sticky kinds that a deployment takes over: `refreshed` is the rolled-back
flag of the refreshed app, `current` the flag read inside the transaction. -/
def stickyTypes (refreshed current : Bool) : List Sticky :=
  if current then [.environment] else .environment :: (if refreshed then [] else [.live])

/-- `configureRouting` up to its last call: the table and the route ids that it
passes to `AssignFrontlineRoutes`. -/
def configureRouting (apex : String) (t : Table) (d : Deployment) (refreshed current : Bool) :
    Table × List Nat :=
  let r := upsertRoutes d t (domainsOf apex d)
  (r.1, findFrontlineRouteForPromotion r.1 d.environment.id (stickyTypes refreshed current) ++ r.2)

/-- One committed step of a `configureRouting` run: the transaction for its `i`-th hostname, or its
reassignment. -/
inductive Event
  | upsert (d : Deployment) (i : Nat)
  | assign (deploymentId : String) (ids : List Nat)

def Event.apply (apex : String) (t : Table) : Event → Table
  | .upsert d i =>
    match (domainsOf apex d)[i]? with
    | some domain => (upsertRoute t d domain).1
    | none => t
  | .assign deploymentId ids => assignFrontlineRoutes t deploymentId ids

def build (apex : String) (events : List Event) : Table := events.foldl (Event.apply apex) []

def Numbered (t : Table) : Prop := t.map FrontlineRoute.id = List.range t.length

variable {t : Table}

theorem Numbered.unique (h : Numbered t) {r r' : FrontlineRoute} (hr : r ∈ t)
    (hr' : r' ∈ t) (hid : r.id = r'.id) : r = r' := by
  have hn : (t.map FrontlineRoute.id).Nodup := by
    rw [h]
    exact List.nodup_range
  exact List.inj_on_of_nodup_map hn hr hr' hid

theorem Numbered.lt (h : Numbered t) {r : FrontlineRoute} (hr : r ∈ t) :
    r.id < t.length := by
  have hmem : r.id ∈ t.map FrontlineRoute.id := List.mem_map.mpr ⟨r, hr, rfl⟩
  rw [h] at hmem
  exact List.mem_range.mp hmem

/-- The rows of `t` are still in `t'`, except for the deployments they point at. -/
def Extends (t t' : Table) : Prop :=
  ∀ r ∈ t, ∃ r' ∈ t', r'.id = r.id ∧ r'.environmentId = r.environmentId ∧ r'.sticky = r.sticky

theorem Extends.refl (t : Table) : Extends t t := fun r hr => ⟨r, hr, rfl, rfl, rfl⟩

theorem extends_assign (t : Table) (deploymentId : String) (ids : List Nat) :
    Extends t (assignFrontlineRoutes t deploymentId ids) := by
  intro r hr
  refine ⟨_, List.mem_map.mpr ⟨r, hr, rfl⟩, ?_⟩
  split <;> exact ⟨rfl, rfl, rfl⟩

theorem numbered_assign (h : Numbered t) (deploymentId : String) (ids : List Nat) :
    Numbered (assignFrontlineRoutes t deploymentId ids) := by
  rw [Numbered, assignFrontlineRoutes, List.map_map, List.length_map, ← h]
  refine List.map_congr_left fun r _ => ?_
  simp only [Function.comp]
  split <;> rfl

theorem upsertRoute_subset (t : Table) (d : Deployment) (domain : NewDomain) :
    t ⊆ (upsertRoute t d domain).1 := by
  unfold upsertRoute
  cases findFrontlineRouteByFQDN t domain.domain with
  | some r => exact List.Subset.refl t
  | none => exact List.subset_append_left _ _

theorem extends_upsert (t : Table) (d : Deployment) (domain : NewDomain) :
    Extends t (upsertRoute t d domain).1 := fun r hr =>
  ⟨r, upsertRoute_subset t d domain hr, rfl, rfl, rfl⟩

theorem numbered_insert (h : Numbered t) (d : Deployment) (domain : NewDomain) :
    Numbered (insertFrontlineRoute t d domain) := by
  unfold Numbered at h ⊢
  simp [insertFrontlineRoute, h, List.range_succ]

theorem numbered_upsert (h : Numbered t) (d : Deployment) (domain : NewDomain) :
    Numbered (upsertRoute t d domain).1 := by
  unfold upsertRoute
  cases findFrontlineRouteByFQDN t domain.domain with
  | some r => exact h
  | none => exact numbered_insert h d domain

theorem mem_assign_of_not_mem {r : FrontlineRoute} (hr : r ∈ t) (deploymentId : String)
    {ids : List Nat} (hid : r.id ∉ ids) : r ∈ assignFrontlineRoutes t deploymentId ids := by
  refine List.mem_map.mpr ⟨r, hr, ?_⟩
  rw [if_neg hid]

theorem mem_findForPromotion {environmentId : String} {types : List Sticky} {id : Nat} :
    id ∈ findFrontlineRouteForPromotion t environmentId types ↔
      ∃ r ∈ t, r.id = id ∧ r.environmentId = environmentId ∧ r.sticky ∈ types := by
  simp only [findFrontlineRouteForPromotion, List.mem_map, List.mem_filter, Bool.and_eq_true,
    beq_iff_eq, List.contains_iff_mem]
  constructor
  · rintro ⟨r, ⟨hr, henv, hty⟩, rfl⟩
    exact ⟨r, hr, rfl, henv, hty⟩
  · rintro ⟨r, hr, rfl, henv, hty⟩
    exact ⟨r, ⟨hr, henv, hty⟩, rfl⟩

end Unkey.Deploy
