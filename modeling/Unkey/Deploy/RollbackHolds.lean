import Unkey.Deploy.Workflow

/-!
# How long a rollback holds

A rollback is in force from the swap of a Rollback until the next swap of a Promote or Rollback.
-/

namespace Unkey.Deploy

open Unkey.Base

variable {S : Setting}

/-- The swap that a label commits for a Rollback (`true`) or a Promote (`false`). -/
def swapOf (s : World) : Label → Option Bool
  | .step w =>
    match s.flow w with
    | .rollback _ _ (.swapping _) => some true
    | .promote _ (.swapping _ _) => some false
    | _ => none
  | _ => none

def held : List (World × Label) → Bool
  | [] => false
  | (s, a) :: past => (swapOf s a).getD (held past)

def Label.flow (s : World) : Label → Flow
  | .step w => s.flow w
  | _ => .done

def Flow.isDeploy : Flow → Bool
  | .deploy _ _ => true
  | _ => false

def Flow.KeepsLive (S : Setting) (db : Db) (f : Flow) : Prop :=
  (∀ r ∈ db.routes, r.IsLive S → r ∈ (flowStep S db f).1.routes) ∧
  (flowStep S db f).1.currentDeploymentId = db.currentDeploymentId ∧
  (db.isRolledBack = true → (flowStep S db f).1.isRolledBack = true)

/-- While a rollback holds, a step of Deploy leaves the live routes and the pointer alone. -/
def RollbackHolds (S : Setting) (past : List (World × Label)) (s : World) (a : Label) : Prop :=
  held past = true → (a.flow s).isDeploy = true → (a.flow s).KeepsLive S s.db

/-- What a Deploy that gets this far during a rollback has to have seen: before
`AssignFrontlineRoutes`, a rolled-back app when it collected the sticky routes and no
live route under one of its hostnames; before `swapLiveDeployment`, a rolled-back app
when it started. -/
def Flow.Aware (S : Setting) (db : Db) : Flow → Prop
  | .deploy l .assigning => .live ∉ l.stickyTypes ∧
      ∀ r ∈ db.routes, r.id ∈ l.existingRouteIDs → ¬ r.IsLive S
  | .deploy l .swapping => l.appIsRolledBack = true
  | _ => True

instance (S : Setting) (db : Db) : (f : Flow) → Decidable (f.Aware S db)
  | .deploy l .assigning => inferInstanceAs (Decidable (.live ∉ l.stickyTypes ∧
      ∀ r ∈ db.routes, r.id ∈ l.existingRouteIDs → ¬ r.IsLive S))
  | .deploy l .swapping => inferInstanceAs (Decidable (l.appIsRolledBack = true))
  | .deploy _ .starting | .deploy _ (.network _) | .deploy _ .findingSticky
  | .deploy _ .finalizing | .rollback _ _ _ | .promote _ _ | .done => .isTrue trivial

/-- While a rollback holds, the workflow that takes a step knows of it. -/
def Aware (S : Setting) (past : List (World × Label)) (s : World) (a : Label) : Prop :=
  held past = true → (a.flow s).Aware S s.db

instance (S : Setting) (past : List (World × Label)) (s : World) (a : Label) :
    Decidable (Aware S past s a) :=
  inferInstanceAs (Decidable (held past = true → (a.flow s).Aware S s.db))

/-- Rows are numbered, and what a Deploy is about to assign has the kinds it asked for. -/
structure Collected (S : Setting) (s : World) : Prop where
  numbered : Numbered s.db.routes
  sticky : ∀ w l, s.flow w = .deploy l .assigning → ∀ id ∈ l.routeIDs,
    ∃ r ∈ s.db.routes, r.id = id ∧ r.sticky ∈ l.stickyTypes

theorem collected_fresh : Collected S World.fresh := ⟨rfl, nofun⟩

theorem deployStep_assigning {db : Db} {l l' : DeployLocals} {pc : DeployPc}
    (h : (deployStep S db l pc).2 = .deploy l' .assigning) :
    (deployStep S db l pc).1.routes = db.routes ∧
      l'.routeIDs = findFrontlineRouteForPromotion db.routes S.environment.id l'.stickyTypes := by
  cases pc with
  | findingSticky =>
    cases h
    exact ⟨rfl, rfl⟩
  | network rest =>
    cases rest with
    | nil => cases h
    | cons domain rest => cases h
  | swapping =>
    simp only [deployStep] at h
    split at h <;> cases h
  | _ => cases h

theorem flowStep_assigning {db : Db} {f : Flow} {l' : DeployLocals}
    (h : (flowStep S db f).2 = .deploy l' .assigning) :
    (flowStep S db f).1.routes = db.routes ∧
      l'.routeIDs = findFrontlineRouteForPromotion db.routes S.environment.id l'.stickyTypes := by
  cases f with
  | done => cases h
  | deploy l pc => exact deployStep_assigning h
  | rollback source target pc =>
    cases pc <;> simp only [flowStep, rollbackStep] at h <;> repeat' split at h
    all_goals cases h
  | promote target pc =>
    cases pc <;> simp only [flowStep, promoteStep] at h <;> repeat' split at h
    all_goals cases h

theorem collected_step {s s' : World} {a : Label} (h : Collected S s)
    (hs : World.step S s a = some s') : Collected S s' := by
  cases a with
  | start r =>
    simp only [World.step] at hs
    split at hs
    · cases hs
      refine ⟨h.numbered, fun w l hl => ?_⟩
      rw [flow_append] at hl
      split at hl
      · cases r <;> cases hl
      · exact h.sticky w l hl
    · cases hs
  | step w =>
    cases hs
    refine ⟨flowStep_numbered h.numbered, fun w' l hl id hid => ?_⟩
    rw [flow_set] at hl
    split at hl
    · grind [flowStep_assigning, mem_findForPromotion]
    · obtain ⟨r, hr, hrid, hty⟩ := h.sticky w' l hl id hid
      obtain ⟨r', hr', hid', -, hst⟩ := flowStep_extends S s.db (s.flow w) r hr
      exact ⟨r', hr', hid'.trans hrid, by rw [hst]; exact hty⟩
  | fail w =>
    cases hs
    refine ⟨h.numbered, fun w' l hl => ?_⟩
    rw [flow_set] at hl
    split at hl
    · cases hl
    · exact h.sticky w' l hl
  | external deploymentId row =>
    cases hs
    exact ⟨h.numbered, h.sticky⟩

theorem keepsLive_of_aware {s : World} {w : Nat} {l : DeployLocals} {pc : DeployPc}
    (h : Collected S s) (hflow : s.flow w = .deploy l pc)
    (haware : (Flow.deploy l pc).Aware S s.db) : (Flow.deploy l pc).KeepsLive S s.db := by
  cases pc with
  | starting => exact ⟨fun r hr _ => hr, rfl, id⟩
  | network rest =>
    cases rest with
    | nil => exact ⟨fun r hr _ => hr, rfl, id⟩
    | cons domain rest =>
      have hsub := upsertRoute_subset s.db.routes l.deployment domain
      exact ⟨fun r hr _ => hsub hr, rfl, id⟩
  | findingSticky => exact ⟨fun r hr _ => hr, rfl, id⟩
  | assigning =>
    obtain ⟨hnot, hexisting⟩ := haware
    refine ⟨fun r hr hlive => mem_assign_of_not_mem hr _ fun hid => ?_, rfl, id⟩
    rcases List.mem_append.mp hid with hid | hid
    · obtain ⟨r', hr', hrid, hty⟩ := h.sticky w l hflow _ hid
      rw [h.numbered.unique hr' hr hrid, hlive.2] at hty
      exact hnot hty
    · exact hexisting r hr hid hlive
  | finalizing => exact ⟨fun r hr _ => hr, rfl, id⟩
  | swapping =>
    have hflag : l.appIsRolledBack = true := haware
    have hstep : flowStep S s.db (.deploy l .swapping) = (s.db, .done) := by
      simp [flowStep, deployStep, hflag]
    unfold Flow.KeepsLive
    rw [hstep]
    exact ⟨fun r hr _ => hr, rfl, id⟩

theorem rollbackHolds_of_aware {past : List (World × Label)} {s : World} {a : Label}
    (h : Collected S s) (haware : Aware S past s a) : RollbackHolds S past s a := by
  intro hheld hdeploy
  have haw := haware hheld
  cases a with
  | step w =>
    simp only [Label.flow] at hdeploy haw ⊢
    cases hflow : s.flow w with
    | deploy l pc =>
      rw [hflow] at haw
      exact keepsLive_of_aware h hflow haw
    | _ => simp [hflow, Flow.isDeploy] at hdeploy
  | _ => simp [Label.flow, Flow.isDeploy] at hdeploy

/-- In every run whose Deploys are all aware of the rollbacks they run into, every
rollback holds until it is promoted away. -/
theorem rollback_holds_run {past : List (World × Label)} {s : World}
    (h : Run (World.step S) World.fresh past s) (hc : Always (Aware S) past) :
    Always (RollbackHolds S) past := by
  refine h.always (P := fun _ s => Collected S s) collected_fresh ?_ ?_ hc
  · intro past s a s' hcol _ hs
    exact collected_step hcol hs
  · intro past s a hcol haware
    exact rollbackHolds_of_aware hcol haware

section Shop

/-- Environment `production` of the app `default` in project `shop` of workspace `acme`. -/
def shop : Setting where
  apex := "unkey.app"
  environment := ⟨"env_1", ⟨"app_1", ⟨"prj_1", ⟨"ws_1", "acme"⟩, "shop"⟩, "default"⟩,
    "production", .production⟩
  production := rfl

def release (id : String) : Deployment := ⟨id, shop.environment, .absent, "", none, .dashboard⟩

def begins (id : String) : List Label :=
  [.external id (some ⟨.pending, .running⟩), .start (.deploy (release id))]

def deploys (w : Nat) (id : String) : List Label := begins id ++ List.replicate 9 (Label.step w)

def rollsBack (w : Nat) (source target : String) : List Label :=
  .start (.rollback source target) :: List.replicate 6 (.step w)

def thirdRelease : List Label :=
  deploys 0 "d_1" ++ deploys 1 "d_2" ++ rollsBack 2 "d_2" "d_1" ++ begins "d_3" ++
    List.replicate 6 (.step 3)

def liveTargets (S : Setting) (t : Table) : List (Nat × String) :=
  (t.filter fun r => r.IsLive S).map fun r => (r.id, r.deploymentId)

theorem mem_liveTargets {S : Setting} {t : Table} {r : FrontlineRoute} (hr : r ∈ t)
    (hlive : r.IsLive S) : (r.id, r.deploymentId) ∈ liveTargets S t :=
  List.mem_map.mpr ⟨r, List.mem_filter.mpr ⟨hr, decide_eq_true hlive⟩, rfl⟩

theorem rollback_holds_run_thirdRelease :
    ∃ past s, Run (World.step shop) World.fresh past s ∧ held past = true ∧
      Always (Aware shop) past ∧ Always (RollbackHolds shop) past := by
  refine Run.exists_of_record (P := fun past _ => held past = true ∧ Always (Aware shop) past)
    thirdRelease (by decide +kernel) ?_
  intro past s hrun heq
  exact ⟨heq.1, heq.2, rollback_holds_run hrun heq.2⟩

/-- The third release finds the live route by its hostname and takes it over. -/
theorem thirdRelease_takes_live_route :
    ∃ past s, Run (World.step shop) World.fresh past s ∧ ¬ RollbackHolds shop past s (.step 3) := by
  refine Run.exists_of_record (P := fun past s => held past = true ∧ (s.flow 3).isDeploy = true ∧
      liveTargets shop s.db.routes = [(1, "d_1")] ∧
      liveTargets shop (flowStep shop s.db (s.flow 3)).1.routes = [(1, "d_3")])
    thirdRelease (by decide +kernel) ?_
  rintro past s hrun ⟨hheld, hdeploy, hbefore, hafter⟩
  intro hholds
  obtain ⟨hroutes, -, -⟩ := hholds hheld hdeploy
  have hmem : (1, "d_1") ∈ liveTargets shop s.db.routes := by simp [hbefore]
  obtain ⟨r, hr, htarget⟩ := List.mem_map.mp hmem
  obtain ⟨hr, hlive⟩ := List.mem_filter.mp hr
  have hkept := mem_liveTargets (hroutes r hr (of_decide_eq_true hlive)) (of_decide_eq_true hlive)
  rw [htarget] at hkept
  have hne : (1, "d_1") ∉ [(1, "d_3")] := by decide
  exact hne (hafter ▸ hkept)

end Shop

end Unkey.Deploy
