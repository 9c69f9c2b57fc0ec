import Unkey.Deploy.RollbackHolds
import Unkey.Standby.Fleet

/-!
# The live deployment and delayed stops

Deploy, Promote and Rollback as sequences of atomic steps, together with everything that can come
between two of them: schedules, clears, and the delivery of a delayed change.
-/

namespace Unkey.Standby

open Unkey.Base Unkey.Deploy

/-- The part of `Deploy` around its live swap: before it reads the app in the step
Starting, before the swap, before it schedules the previous deployment. -/
inductive DeployStage
  | starting
  | swapping (isRolledBack : Bool)
  | scheduling (previous : String)

inductive PromoteStage
  | findingTarget
  | findingApp (target : Row)
  | findingEnvironment (target : Row) (current : String) (isRolledBack : Bool)
  | findingRoutes
  | swapping (confirming : Bool) (routeIDs : List Nat)
  | clearing (confirming : Bool) (previous : String)
  | findingOld
  | scheduling (old : String)

inductive RollbackStage
  | findingSource
  | findingTarget
  | findingApp (target : Row)
  | findingEnvironment (target : Row) (current : String)
  | clearing
  | findingRoutes
  | swapping (routeIDs : List Nat)

inductive Workflow
  | deploy (id : String) (stage : DeployStage)
  | promote (target : String) (stage : PromoteStage)
  | rollback (source target : String) (stage : RollbackStage)
  | done

def deployLiveStep (f : Fleet) (id : String) : DeployStage → Fleet × Workflow
  | .starting => (f, .deploy id (.swapping f.db.isRolledBack))
  | .swapping isRolledBack =>
    if isRolledBack then (f, .done)
    else match f.swap id [] false with
      | none => (f, .done)
      | some g => (g, .deploy id (.scheduling f.previous))
  | .scheduling previous => (f.standbyOnce previous, .done)

/-- The next step of `Promote`; a failed check ends it. -/
def promoteLiveStep (S : Setting) (f : Fleet) (target latest : String) :
    PromoteStage → Fleet × Workflow
  | .findingTarget =>
    match f.db.rows target with
    | none => (f, .done)
    | some row => (f, .promote target (.findingApp row))
  | .findingApp row =>
    (f, .promote target (.findingEnvironment row f.previous f.db.isRolledBack))
  | .findingEnvironment row current isRolledBack =>
    if checkPromoteTarget row S.environment.kind current target isRolledBack ≠ .ok then (f, .done)
    else if isRolledBack && target == current then (f, .promote target (.swapping true []))
    else (f, .promote target .findingRoutes)
  | .findingRoutes =>
    match findFrontlineRouteForPromotion f.db.routes S.environment.id liveAndEnvironment with
    | [] => (f, .done)
    | routeIDs => (f, .promote target (.swapping false routeIDs))
  | .swapping confirming routeIDs =>
    match f.swap target routeIDs false with
    | none => (f, .done)
    | some g => (g, .promote target (.clearing confirming f.previous))
  | .clearing confirming previous =>
    if confirming then (f.clear target, .promote target .findingOld)
    else (f.clear target, .promote target (.scheduling previous))
  | .findingOld =>
    if f.LatestReady target latest then (f, .promote target (.scheduling latest)) else (f, .done)
  | .scheduling old => (f.standby old, .done)

def rollbackLiveStep (S : Setting) (f : Fleet) (source target : String) :
    RollbackStage → Fleet × Workflow
  | .findingSource =>
    if source = target ∨ (f.db.rows source).isNone = true then (f, .done)
    else (f, .rollback source target .findingTarget)
  | .findingTarget =>
    match f.db.rows target with
    | none => (f, .done)
    | some row => (f, .rollback source target (.findingApp row))
  | .findingApp row =>
    if f.db.currentDeploymentId = some source then
      (f, .rollback source target (.findingEnvironment row source))
    else (f, .done)
  | .findingEnvironment row current =>
    if checkRollbackTarget row S.environment.kind current target = .ok then
      (f, .rollback source target .clearing)
    else (f, .done)
  | .clearing => (f.clear target, .rollback source target .findingRoutes)
  | .findingRoutes =>
    match findFrontlineRouteForPromotion f.db.routes S.environment.id liveAndEnvironment with
    | [] => (f, .done)
    | routeIDs => (f, .rollback source target (.swapping routeIDs))
  | .swapping routeIDs =>
    match f.swap target routeIDs true with
    | none => (f, .done)
    | some g => (g, .done)

def workflowStep (S : Setting) (f : Fleet) (latest : String) : Workflow → Fleet × Workflow
  | .deploy id stage => deployLiveStep f id stage
  | .promote target stage => promoteLiveStep S f target latest stage
  | .rollback source target stage => rollbackLiveStep S f source target stage
  | .done => (f, .done)

inductive Begin
  | deploy (id : String)
  | promote (target : String)
  | rollback (source target : String)

def Begin.workflow : Begin → Workflow
  | .deploy id => .deploy id .starting
  | .promote target => .promote target .findingTarget
  | .rollback source target => .rollback source target .findingSource

/-- What can happen next. -/
inductive Event
  | start (b : Begin)
  | step (w : Nat) (latest : String)
  | fail (w : Nat)
  | schedule (id : String) (req : ScheduleRequest)
  | clear (id : String)
  | deliver (id : String) (i : Nat)
  | create (id : String) (createdAt : Nat) (row : Row)
  | report (id : String) (status : Status)

structure Plane where
  fleet : Fleet
  workflows : List Workflow

def Plane.workflow (s : Plane) (w : Nat) : Workflow := s.workflows.getD w .done

def Plane.step (S : Setting) (s : Plane) : Event → Option Plane
  | .start b => some { s with workflows := s.workflows ++ [b.workflow] }
  | .step w latest =>
    let r := workflowStep S s.fleet latest (s.workflow w)
    some ⟨r.1, s.workflows.set w r.2⟩
  | .fail w => some { s with workflows := s.workflows.set w .done }
  | .schedule id req => some { s with fleet := s.fleet.schedule id req }
  | .clear id => some { s with fleet := s.fleet.clear id }
  | .deliver id i =>
    (s.fleet.objects id).messages[i]?.map fun m => { s with fleet := s.fleet.deliver id i m }
  | .create id createdAt row =>
    (s.fleet.create id createdAt row).map fun f => { s with fleet := f }
  | .report id status => some { s with fleet := s.fleet.report id status }

theorem workflow_set (s : Plane) (f : Fleet) (w w' : Nat) (x : Workflow) :
    (Plane.mk f (s.workflows.set w x)).workflow w' = x ∨
      (Plane.mk f (s.workflows.set w x)).workflow w' = s.workflow w' := by
  simp only [Plane.workflow, List.getD_eq_getElem?_getD, List.getElem?_set]
  split
  · grind
  · exact .inr rfl

theorem workflow_append (s : Plane) (w : Nat) (x : Workflow) :
    (Plane.mk s.fleet (s.workflows ++ [x])).workflow w = x ∨
      (Plane.mk s.fleet (s.workflows ++ [x])).workflow w = s.workflow w := by
  simp only [Plane.workflow, List.getD_eq_getElem?_getD, List.getElem?_append]
  split
  · exact .inr rfl
  next hle =>
    cases hk : w - s.workflows.length with
    | zero => exact .inl (by simp)
    | succ k =>
      refine .inr ?_
      rw [List.getElem?_eq_none (by simp), List.getElem?_eq_none (by omega)]

def Fleet.Running (f : Fleet) (id : String) : Prop := f.desired id = some .running

instance (f : Fleet) (id : String) : Decidable (f.Running id) := by
  unfold Fleet.Running
  infer_instance

def Fleet.LiveRunning (f : Fleet) : Prop :=
  ∀ id, f.db.currentDeploymentId = some id → f.Running id

def Workflow.aim : Workflow → Option String
  | .deploy id (.swapping false) => some id
  | .promote target stage => match stage with
    | .findingApp _ | .findingEnvironment _ _ _ | .findingRoutes | .swapping _ _ => some target
    | .findingTarget | .clearing _ _ | .findingOld | .scheduling _ => none
  | .rollback _ target stage => match stage with
    | .findingApp _ | .findingEnvironment _ _ | .clearing | .findingRoutes | .swapping _ =>
      some target
    | .findingSource | .findingTarget => none
  | _ => none

def Workflow.starting : Workflow → Option String
  | .deploy id .starting => some id
  | _ => none

def SparesTargets (_ : List (Plane × Event)) (s : Plane) : Event → Prop
  | .deliver id i => ∀ m ∈ (s.fleet.objects id).messages[i]?,
      s.fleet.outcome id m = .applied .stopped → ∀ x ∈ s.workflows, x.aim ≠ some id
  | .step w _ => ∀ id ∈ (s.workflow w).starting,
      s.fleet.db.isRolledBack = false → s.fleet.Running id
  | _ => True

instance (past : List (Plane × Event)) (s : Plane) (e : Event) :
    Decidable (SparesTargets past s e) := by
  cases e <;> unfold SparesTargets <;> infer_instance

def Workflow.Holds (f : Fleet) : Workflow → Prop
  | .deploy id (.swapping false) => f.Running id
  | .promote target stage => match stage with
    | .findingApp row | .findingEnvironment row _ _ =>
      row.desiredState = .running → f.Running target
    | .findingRoutes | .swapping _ _ => f.Running target
    | .findingTarget | .clearing _ _ | .findingOld | .scheduling _ => True
  | .rollback _ target stage => match stage with
    | .findingApp row | .findingEnvironment row _ => row.desiredState = .running → f.Running target
    | .clearing | .findingRoutes | .swapping _ => f.Running target
    | .findingSource | .findingTarget => True
  | _ => True

variable {f : Fleet}

theorem Workflow.Holds.mono {g : Fleet} {x : Workflow} (h : x.Holds f)
    (hrun : ∀ id, x.aim = some id → f.Running id → g.Running id) : x.Holds g := by
  cases x with
  | done => trivial
  | deploy id stage =>
    cases stage with
    | swapping flag =>
      cases flag with
      | false => exact hrun id rfl h
      | true => trivial
    | _ => trivial
  | promote target stage =>
    cases stage with
    | findingApp row => exact fun hrow => hrun target rfl (h hrow)
    | findingEnvironment row current flag => exact fun hrow => hrun target rfl (h hrow)
    | findingRoutes => exact hrun target rfl h
    | swapping confirming routeIDs => exact hrun target rfl h
    | _ => trivial
  | rollback source target stage =>
    cases stage with
    | findingApp row => exact fun hrow => hrun target rfl (h hrow)
    | findingEnvironment row current => exact fun hrow => hrun target rfl (h hrow)
    | clearing => exact hrun target rfl h
    | findingRoutes => exact hrun target rfl h
    | swapping routeIDs => exact hrun target rfl h
    | _ => trivial

theorem workflow_mem (s : Plane) (w : Nat) : s.workflow w ∈ s.workflows ∨ s.workflow w = .done := by
  unfold Plane.workflow
  rw [List.getD_eq_getElem?_getD]
  cases h : s.workflows[w]? with
  | none => exact .inr rfl
  | some x => exact .inl (List.mem_of_getElem? h)

structure Guarded (s : Plane) : Prop where
  live : s.fleet.LiveRunning
  holds : ∀ w, (s.workflow w).Holds s.fleet

variable {id : String}

theorem running_of_rows {g : Fleet} (h : f.db.rows = g.db.rows)
    (hrun : f.Running id) : g.Running id :=
  (Fleet.desired_congr h id).symm.trans hrun

variable {kind : EnvironmentKind}

theorem targetCore_ok {row : Row} {current : String}
    (h : targetCore row kind current = .ok) : row.desiredState = .running := by
  unfold targetCore at h
  split at h
  · cases h
  · split at h
    · cases h
    next hrun => exact Classical.not_not.mp hrun

theorem checkPromoteTarget_ok {row : Row} {current : String}
    {flag : Bool} (h : checkPromoteTarget row kind current id flag = .ok) :
    row.desiredState = .running := by
  refine targetCore_ok (?_ : targetCore row kind current = .ok)
  unfold checkPromoteTarget at h
  split at h
  · assumption
  next hne => exact h

theorem checkRollbackTarget_ok {row : Row} {current : String}
    (h : checkRollbackTarget row kind current id = .ok) : row.desiredState = .running := by
  refine targetCore_ok (?_ : targetCore row kind current = .ok)
  unfold checkRollbackTarget at h
  split at h
  · assumption
  next hne => exact h

/-- One step of a workflow leaves the rows alone, moves the live pointer only onto a
deployment that is to run, and ends where it knows what it has to know. -/
structure SafeStep (f g : Fleet) (y : Workflow) : Prop where
  rows : g.db.rows = f.db.rows
  live : ∀ id, g.db.currentDeploymentId = some id →
    f.db.currentDeploymentId = some id ∨ f.Running id
  holds : y.Holds g

theorem SafeStep.stay {y : Workflow} (h : y.Holds f) : SafeStep f f y :=
  ⟨rfl, fun _ hid => .inl hid, h⟩

theorem SafeStep.swap {g : Fleet} {routeIDs : List Nat} {flag : Bool}
    {y : Workflow} (hswap : f.swap id routeIDs flag = some g) (hrun : f.Running id)
    (hy : y.Holds g) : SafeStep f g y := by
  obtain ⟨-, rfl⟩ := Fleet.swap_eq_some hswap
  refine ⟨rfl, ?_, hy⟩
  rintro id' ⟨⟩
  exact .inr hrun

theorem safe_deployLiveStep {stage : DeployStage} (h : (Workflow.deploy id stage).Holds f)
    (hstart : stage = .starting → f.db.isRolledBack = false → f.Running id) :
    SafeStep f (deployLiveStep f id stage).1 (deployLiveStep f id stage).2 := by
  cases stage with
  | starting =>
    apply SafeStep.stay
    show (Workflow.deploy id (.swapping f.db.isRolledBack)).Holds f
    cases hflag : f.db.isRolledBack with
    | false => exact hstart rfl hflag
    | true => trivial
  | swapping flag =>
    cases flag with
    | true => exact SafeStep.stay trivial
    | false =>
      simp only [deployLiveStep, Bool.false_eq_true, if_false]
      cases hswap : f.swap id [] false with
      | none => exact SafeStep.stay trivial
      | some g => exact SafeStep.swap hswap h trivial
  | scheduling previous =>
    exact ⟨by simp [deployLiveStep], fun _ hid => .inl (by simpa [deployLiveStep] using hid), trivial⟩

theorem safe_promoteLiveStep {S : Setting} {target latest : String}
    {stage : PromoteStage} (h : (Workflow.promote target stage).Holds f) :
    SafeStep f (promoteLiveStep S f target latest stage).1
      (promoteLiveStep S f target latest stage).2 := by
  cases stage with
  | findingTarget =>
    simp only [promoteLiveStep]
    cases hrow : f.db.rows target with
    | none => exact SafeStep.stay trivial
    | some row =>
      refine SafeStep.stay fun hrun => ?_
      simp [Fleet.Running, Fleet.desired, hrow, hrun]
  | findingApp row => exact SafeStep.stay h
  | findingEnvironment row current flag =>
    simp only [promoteLiveStep]
    split
    · exact SafeStep.stay trivial
    next hok =>
      have hrun := h (checkPromoteTarget_ok (Classical.not_not.mp hok))
      split
      · exact SafeStep.stay hrun
      · exact SafeStep.stay hrun
  | findingRoutes =>
    simp only [promoteLiveStep]
    split
    · exact SafeStep.stay trivial
    · exact SafeStep.stay h
  | swapping confirming routeIDs =>
    simp only [promoteLiveStep]
    cases hswap : f.swap target routeIDs false with
    | none => exact SafeStep.stay trivial
    | some g => exact SafeStep.swap hswap h trivial
  | clearing confirming previous =>
    simp only [promoteLiveStep]
    split
    · exact ⟨rfl, fun _ hid => .inl hid, trivial⟩
    · exact ⟨rfl, fun _ hid => .inl hid, trivial⟩
  | findingOld =>
    simp only [promoteLiveStep]
    split
    · exact SafeStep.stay trivial
    · exact SafeStep.stay trivial
  | scheduling old =>
    exact ⟨by simp [promoteLiveStep], fun _ hid => .inl (by simpa [promoteLiveStep] using hid),
      trivial⟩

theorem safe_rollbackLiveStep {S : Setting} {source target : String}
    {stage : RollbackStage} (h : (Workflow.rollback source target stage).Holds f) :
    SafeStep f (rollbackLiveStep S f source target stage).1
      (rollbackLiveStep S f source target stage).2 := by
  cases stage with
  | findingSource =>
    simp only [rollbackLiveStep]
    split
    · exact SafeStep.stay trivial
    · exact SafeStep.stay trivial
  | findingTarget =>
    simp only [rollbackLiveStep]
    cases hrow : f.db.rows target with
    | none => exact SafeStep.stay trivial
    | some row =>
      refine SafeStep.stay fun hrun => ?_
      simp [Fleet.Running, Fleet.desired, hrow, hrun]
  | findingApp row =>
    simp only [rollbackLiveStep]
    split
    · exact SafeStep.stay h
    · exact SafeStep.stay trivial
  | findingEnvironment row current =>
    simp only [rollbackLiveStep]
    split
    next hok => exact SafeStep.stay (h (checkRollbackTarget_ok hok))
    next => exact SafeStep.stay trivial
  | clearing => exact ⟨rfl, fun _ hid => .inl hid, h⟩
  | findingRoutes =>
    simp only [rollbackLiveStep]
    split
    · exact SafeStep.stay trivial
    · exact SafeStep.stay h
  | swapping routeIDs =>
    simp only [rollbackLiveStep]
    cases hswap : f.swap target routeIDs true with
    | none => exact SafeStep.stay trivial
    | some g => exact SafeStep.swap hswap h trivial

theorem safe_workflowStep {S : Setting} {latest : String} {x : Workflow} (h : x.Holds f)
    (hstart : ∀ id ∈ x.starting, f.db.isRolledBack = false → f.Running id) :
    SafeStep f (workflowStep S f latest x).1 (workflowStep S f latest x).2 := by
  cases x with
  | deploy id stage =>
    refine safe_deployLiveStep h fun hstage => ?_
    subst hstage
    exact hstart id rfl
  | promote target stage => exact safe_promoteLiveStep h
  | rollback source target stage => exact safe_rollbackLiveStep h
  | done => exact SafeStep.stay trivial

theorem Guarded.keep {s : Plane} {g : Fleet} (h : Guarded s)
    (hcur : g.db.currentDeploymentId = s.fleet.db.currentDeploymentId)
    (hlive : ∀ id, s.fleet.db.currentDeploymentId = some id → s.fleet.Running id → g.Running id)
    (haim : ∀ id, (∃ x ∈ s.workflows, x.aim = some id) → s.fleet.Running id → g.Running id) :
    Guarded { s with fleet := g } := by
  refine ⟨fun id hid => ?_, fun w => ?_⟩
  · rw [hcur] at hid
    exact hlive id hid (h.live id hid)
  · refine (h.holds w).mono fun id hid hrun => haim id ?_ hrun
    rcases workflow_mem s w with hmem | hdone
    · exact ⟨_, hmem, hid⟩
    · rw [hdone] at hid
      cases hid

theorem running_deliver {id' : String} {i : Nat} {m : Message}
    (hrun : f.Running id') (hne : id' = id → f.outcome id m ≠ .applied .stopped) :
    (f.deliver id i m).Running id' := by
  unfold Fleet.Running
  rw [Fleet.desired_deliver]
  split
  next heq =>
    subst heq
    have hkeep : (f.db.rows id').map Row.desiredState = some .running := hrun
    cases hout : f.outcome id' m with
    | applied state =>
      rw [Fleet.desired_write_applied]
      cases state with
      | running =>
        cases hrow : f.db.rows id' with
        | none => simp [hrow] at hkeep
        | some row => rfl
      | stopped => exact absurd hout (hne rfl)
    | _ => exact hkeep
  next => exact hrun

theorem outcome_current {m : Message} {state : DesiredState}
    (h : f.outcome id m = .applied state) : f.db.currentDeploymentId ≠ some id := by
  intro hcur
  have hfound : f.found id ≠ .standby := by
    unfold Fleet.found
    split
    · decide
    · decide
  have happ : ∀ st, applyChange st (f.found id) ≠ .applied state := by
    intro st
    cases hf : f.found id with
    | standby => exact absurd hf hfound
    | missing => cases st <;> simp [applyChange, WireState.desired]
    | current => cases st <;> simp [applyChange, WireState.desired]
  unfold Fleet.outcome changeDesiredState at h
  split at h
  · cases h
  · split at h
    · cases h
    · exact happ _ h

theorem guarded_step {S : Setting} {past : List (Plane × Event)} {s s' : Plane} {e : Event}
    (h : Guarded s) (hc : SparesTargets past s e) (hs : s.step S e = some s') : Guarded s' := by
  cases e with
  | start b =>
    cases hs
    refine ⟨h.live, fun w => ?_⟩
    rcases workflow_append s w b.workflow with hw | hw
    · rw [hw]
      cases b <;> trivial
    · rw [hw]
      exact h.holds w
  | step w latest =>
    cases hs
    have hsafe : SafeStep s.fleet (workflowStep S s.fleet latest (s.workflow w)).1
        (workflowStep S s.fleet latest (s.workflow w)).2 := safe_workflowStep (h.holds w) hc
    obtain ⟨hrows, hlive, hholds⟩ := hsafe
    refine ⟨fun id hid => running_of_rows hrows.symm ?_, fun w' => ?_⟩
    · rcases hlive id hid with hid | hrun
      · exact h.live id hid
      · exact hrun
    · rcases workflow_set s _ w w' _ with hw | hw
      · rw [hw]
        exact hholds
      · rw [hw]
        exact (h.holds w').mono fun _ _ hrun => running_of_rows hrows.symm hrun
  | fail w =>
    cases hs
    refine ⟨h.live, fun w' => ?_⟩
    rcases workflow_set s s.fleet w w' .done with hw | hw
    · rw [hw]
      trivial
    · rw [hw]
      exact h.holds w'
  | schedule id req =>
    cases hs
    exact h.keep rfl (fun _ _ hrun => hrun) (fun _ _ hrun => hrun)
  | clear id =>
    cases hs
    exact h.keep rfl (fun _ _ hrun => hrun) (fun _ _ hrun => hrun)
  | deliver id i =>
    obtain ⟨m, hm, rfl⟩ := Option.map_eq_some_iff.mp hs
    refine h.keep rfl (fun id' hid' hrun => ?_) (fun id' haim hrun => ?_)
    · refine running_deliver hrun fun heq hout => ?_
      subst heq
      exact outcome_current hout hid'
    · refine running_deliver hrun fun heq hout => ?_
      subst heq
      obtain ⟨x, hx, hxaim⟩ := haim
      exact hc m hm hout x hx hxaim
  | create id createdAt row =>
    obtain ⟨g, hg, rfl⟩ := Option.map_eq_some_iff.mp hs
    obtain ⟨-, hnone, rfl⟩ := Fleet.create_eq_some hg
    have hkeep : ∀ id', s.fleet.Running id' → (s.fleet.withRow id (some row)).Running id' := by
      grind [Fleet.Running, Fleet.desired_withRow, Fleet.desired]
    exact h.keep rfl (fun id' _ => hkeep id') (fun id' _ => hkeep id')
  | report id status =>
    cases hs
    have hkeep : ∀ id', s.fleet.Running id' → (s.fleet.report id status).Running id' :=
      fun id' hrun => (Fleet.desired_report s.fleet id id' status).trans hrun
    exact h.keep rfl (fun id' _ => hkeep id') (fun id' _ => hkeep id')

/-- From a state in which the live deployment is to run and no workflow has begun, it is to
run in every state of a run in which no workflow is disturbed. -/
theorem live_running_run {S : Setting} {f : Fleet} {past : List (Plane × Event)} {s : Plane}
    (h : Run (Plane.step S) ⟨f, []⟩ past s) (hlive : f.LiveRunning)
    (hc : Always SparesTargets past) :
    Always (fun _ s _ => s.fleet.LiveRunning) past ∧ s.fleet.LiveRunning := by
  have h0 : Guarded ⟨f, []⟩ := ⟨hlive, fun _ => trivial⟩
  have hstep : ∀ past s e s', Guarded s → SparesTargets past s e → s.step S e = some s' →
      Guarded s' := fun _ _ _ _ hg hu hs => guarded_step hg hu hs
  exact ⟨h.always h0 hstep (fun _ _ _ hg _ => hg.live) hc,
    (h.invariant_always (P := fun _ s => Guarded s) h0 hstep hc).live⟩

section Shop

def readyRow : Row := ⟨.ready, .running⟩

def twoReleases : Fleet where
  db :=
    { currentDeploymentId := some "d_2"
      isRolledBack := false
      routes := [⟨0, "prj_1", "app_1", "d_2", "env_1", "shop.unkey.app", .live⟩]
      rows := fun id => if id = "d_1" ∨ id = "d_2" then some readyRow else none }
  created := [("d_1", 1), ("d_2", 2)]
  objects := fun _ => Object.fresh
  keys := []

theorem twoReleases_liveRunning : twoReleases.LiveRunning := by
  rintro id ⟨⟩
  decide

def promotion : List Event :=
  Event.start (.promote "d_1") :: List.replicate 7 (Event.step 0 "") ++ [Event.deliver "d_2" 0]

theorem live_running_run_promotion :
    ∃ past s, Run (Plane.step shop) ⟨twoReleases, []⟩ past s ∧
      s.fleet.db.currentDeploymentId = some "d_1" ∧ s.fleet.desired "d_2" = some .stopped ∧
      Always (fun _ s _ => s.fleet.LiveRunning) past ∧ s.fleet.LiveRunning := by
  refine Run.exists_of_record (P := fun past s => Always SparesTargets past ∧
      s.fleet.db.currentDeploymentId = some "d_1" ∧ s.fleet.desired "d_2" = some .stopped)
    promotion (by decide +kernel) ?_
  intro past s hrun heq
  exact ⟨heq.2.1, heq.2.2, live_running_run hrun twoReleases_liveRunning heq.1⟩

/-- A pending stop of `d_1` is delivered right after the promotion of `d_1` has read its
row. -/
def stopDuringPromotion : List Event :=
  [Event.schedule "d_1" ⟨.stopped, false⟩, Event.start (.promote "d_1"), Event.step 0 "",
    Event.deliver "d_1" 0] ++ List.replicate 4 (Event.step 0 "")

/-- The promotion makes a deployment live that has been stopped. -/
theorem stopDuringPromotion_stops_live :
    ∃ past s, Run (Plane.step shop) ⟨twoReleases, []⟩ past s ∧ twoReleases.LiveRunning ∧
      s.fleet.db.currentDeploymentId = some "d_1" ∧ s.fleet.desired "d_1" = some .stopped ∧
      ¬ s.fleet.LiveRunning := by
  refine Run.exists_of_record (P := fun _ s => s.fleet.db.currentDeploymentId = some "d_1" ∧
      s.fleet.desired "d_1" = some .stopped)
    stopDuringPromotion (by decide +kernel) ?_
  intro past s hrun heq
  refine ⟨twoReleases_liveRunning, heq.1, heq.2, fun hlive => ?_⟩
  have hrun := hlive "d_1" heq.1
  rw [Fleet.Running, heq.2] at hrun
  cases hrun

end Shop

end Unkey.Standby
