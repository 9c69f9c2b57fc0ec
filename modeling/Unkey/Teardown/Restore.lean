import Unkey.Teardown.Service

/-!
# What a resume brings back

`Teardown(SUSPEND)` records the current deployment of every app it stops, and `Resume` restores what
the record says.
-/

namespace Unkey.Teardown

open Unkey.Base Unkey.Deploy

/-! ### The record of a suspension -/

variable {w : Workspace} {app : String} {id : DeploymentId}

def Stopping.Recorded (apps : String → Option App) (acc : Stopping) : Prop :=
  ∀ app, (acc.db.apps app = apps app ∧ acc.appCurrent.lookup app = none) ∨
    ∃ id, apps app = some ⟨some id⟩ ∧ acc.db.apps app = some ⟨none⟩ ∧
      acc.appCurrent.lookup app = some id

theorem Stopping.Recorded.stop {apps : String → Option App} {acc : Stopping} {d : RunningRow}
    (hacc : acc.Recorded apps) (hd : apps d.appID = some ⟨d.currentDeploymentID⟩) :
    (acc.stop .suspend d).Recorded apps := by
  rw [Stopping.stop]
  split
  · rename_i hcurrent
    intro app
    by_cases happ : app = d.appID
    · subst happ
      refine .inr ⟨d.id, by rw [hd, hcurrent], ?_, AList.lookup_insert _⟩
      -- The pointer is still the deployment of the snapshot, or it is cleared already.
      rcases hacc d.appID with ⟨hsame, -⟩ | ⟨id, -, hcleared, -⟩
      · simp [Db.clearAppCurrentDeployment, hsame, hd, hcurrent]
      · simp [Db.clearAppCurrentDeployment, hcleared]
    · have happs : (acc.db.clearAppCurrentDeployment d.appID d.id).apps app = acc.db.apps app :=
        Function.update_of_ne happ _ _
      have hlookup : (acc.appCurrent.insert d.appID d.id).lookup app = acc.appCurrent.lookup app :=
        AList.lookup_insert_ne happ
      simpa only [happs, hlookup, if_true] using hacc app
  · exact hacc

theorem Stopping.Recorded.foldl {apps : String → Option App} (rows : List RunningRow)
    {acc : Stopping} (hacc : acc.Recorded apps)
    (hrows : ∀ d ∈ rows, apps d.appID = some ⟨d.currentDeploymentID⟩) :
    (rows.foldl (Stopping.stop .suspend) acc).Recorded apps := by
  induction rows generalizing acc with
  | nil => exact hacc
  | cons d rows ih =>
    exact ih (hacc.stop (hrows d List.mem_cons_self))
      (fun e he => hrows e (List.mem_cons_of_mem _ he))

theorem Db.apps_of_mem_listRunning {db : Db} {workspaceID : String} {d : RunningRow}
    (hd : d ∈ db.listRunningDeploymentsByWorkspaceId workspaceID) :
    db.apps d.appID = some ⟨d.currentDeploymentID⟩ := by
  obtain ⟨row, -, hrow⟩ := List.mem_filterMap.mp hd
  split at hrow
  · obtain ⟨a, ha, rfl⟩ := Option.map_eq_some_iff.mp hrow
    exact ha
  · cases hrow

theorem Workspace.stopAll_recorded (w : Workspace) : (w.stopAll .suspend).Recorded w.db.apps :=
  Stopping.Recorded.foldl _ (fun _ => .inl ⟨rfl, AList.lookup_empty _⟩)
    (fun _ hd => Db.apps_of_mem_listRunning hd)

theorem lookup_recordTeardown_suspend (appCurrent : AppCurrent) (suspension : Option AppCurrent)
    (app : String) :
    ((recordTeardown .suspend appCurrent suspension).bind fun record => record.lookup app) =
      (appCurrent.lookup app).or (suspension.bind fun record => record.lookup app) := by
  rw [recordTeardown]
  split
  · rename_i hempty
    have hnil : appCurrent = ∅ := AList.ext hempty
    rw [hnil, AList.lookup_empty, Option.none_or]
  · have hold : (suspension.getD ∅).lookup app = suspension.bind fun record => record.lookup app := by
      cases suspension with
      | none => exact AList.lookup_empty app
      | some record => rfl
    rw [Option.bind_some, ← hold]
    cases hnew : appCurrent.lookup app with
    | none => rw [AList.lookup_union_right (AList.lookup_eq_none.mp hnew), Option.none_or]
    | some id => simp_all

theorem Workspace.teardown_suspend (w : Workspace) (drained : Bool) (app : String) :
    ((w.teardown .suspend drained).1.db.apps app = w.db.apps app ∧
      (w.teardown .suspend drained).1.recorded app = w.recorded app) ∨
    ∃ id, w.db.apps app = some ⟨some id⟩ ∧
      (w.teardown .suspend drained).1.db.apps app = some ⟨none⟩ ∧
      (w.teardown .suspend drained).1.recorded app = some id := by
  rw [Workspace.teardown]
  split
  · exact .inl ⟨rfl, rfl⟩
  · simp only [Workspace.recorded, lookup_recordTeardown_suspend]
    rcases w.stopAll_recorded app with ⟨hsame, hnone⟩ | ⟨id, hpointer, hcleared, hsome⟩
    · exact .inl ⟨hsame, by rw [hnone, Option.none_or]⟩
    · exact .inr ⟨id, hpointer, hcleared, by rw [hsome, Option.some_or]⟩

def clearedBy (mode : TeardownMode) (drained : Bool) (w : Workspace) (app : String) :
    Option DeploymentId :=
  if (w.teardown mode drained).1.db.pointer app = none then w.db.pointer app else none

def lastCleared (app : String) : List (Workspace × Call) → Option DeploymentId
  | [] => none
  | (w, .teardown mode drained) :: past => (clearedBy mode drained w app).or (lastCleared app past)
  | (_, .change _) :: past | (_, .resume) :: past => lastCleared app past

def Call.OnlySuspends : Call → Prop
  | .change _ => True
  | .teardown mode _ => mode = .suspend
  | .resume => False

instance : (c : Call) → Decidable c.OnlySuspends
  | .change _ => inferInstanceAs (Decidable True)
  | .teardown mode _ => inferInstanceAs (Decidable (mode = .suspend))
  | .resume => inferInstanceAs (Decidable False)

theorem recorded_teardown_suspend (w : Workspace) (drained : Bool) (app : String) :
    (w.teardown .suspend drained).1.recorded app =
      (clearedBy .suspend drained w app).or (w.recorded app) := by
  rw [clearedBy, Db.pointer, Db.pointer]
  rcases w.teardown_suspend drained app with ⟨happs, hrecorded⟩ | ⟨id, hbefore, hafter, hrecorded⟩
  · grind
  · rw [hafter, hbefore, hrecorded]
    rfl

theorem recorded_eq_lastCleared {workspaceID : String} {db : Db} {past : List (Workspace × Call)}
    (hrun : Run step (Workspace.new workspaceID db) past w)
    (honly : Always (fun _ _ c => c.OnlySuspends) past) (app : String) :
    w.recorded app = lastCleared app past := by
  refine hrun.invariant_always (P := fun past w => w.recorded app = lastCleared app past) rfl ?_
    honly
  intro past w c w' hpast hc hstep
  cases c with
  | change db =>
    cases hstep
    exact hpast
  | teardown mode drained =>
    cases hstep
    obtain rfl : mode = .suspend := hc
    rw [recorded_teardown_suspend, hpast, lastCleared]
  | resume => exact absurd hc id

theorem id_eq_of_run {past : List (Workspace × Call)} {w₀ : Workspace} (hrun : Run step w₀ past w) :
    w.id = w₀.id := by
  refine hrun.invariant (P := fun _ w => w.id = w₀.id) rfl ?_
  intro past w c w' hpast hstep
  cases c with
  | change db =>
    cases hstep
    exact hpast
  | teardown mode drained =>
    cases hstep
    rw [← hpast, Workspace.teardown]
    split <;> rfl
  | resume =>
    cases hstep
    rw [← hpast, Workspace.resume]
    split
    · rfl
    · split <;> rfl

/-! ### Starting a deployment -/

variable {db : Db}

def Db.owner (db : Db) (id : DeploymentId) : Option (String × String) :=
  (db.findDeploymentById id).map fun d => (d.workspaceID, d.appID)

structure Db.Running (db : Db) (id : DeploymentId) : Prop where
  row : ∃ d, db.findDeploymentById id = some d ∧ d.desiredState = .running
  topology : ∀ t ∈ db.topology, t.deploymentID = id → t.desiredStatus = .running

theorem Db.foldl_updateTopology (id : DeploymentId) (status : DesiredState) (regions : List String)
    (db : Db) :
    ∃ changes, regions.foldl (fun db region => db.updateTopologyDesiredStatus id region status) db =
      { db with
        topology := db.topology.map fun t =>
          if t.deploymentID = id ∧ t.regionID ∈ regions then { t with desiredStatus := status } else t
        changes := changes } := by
  induction regions generalizing db with
  | nil => exact ⟨db.changes, by simp⟩
  | cons region regions ih =>
    obtain ⟨changes, heq⟩ := ih (db.updateTopologyDesiredStatus id region status)
    refine ⟨changes, ?_⟩
    rw [List.foldl_cons, heq]
    simp only [Db.updateTopologyDesiredStatus, List.map_map, List.mem_cons]
    congr 2
    funext t
    rw [Function.comp_apply]
    by_cases hid : t.deploymentID = id <;> by_cases hregion : t.regionID = region <;>
      simp [hid, hregion]

theorem Db.applyDesiredState_eq (db : Db) (id : DeploymentId) (state : DesiredState) :
    ∃ changes, db.applyDesiredState id state =
      { db with
        deployments := db.deployments.map fun d =>
          if d.id = id then { d with desiredState := state } else d
        topology := db.topology.map fun t =>
          if t.deploymentID = id then { t with desiredStatus := state } else t
        changes := changes } := by
  obtain ⟨changes, heq⟩ := Db.foldl_updateTopology id state (db.findDeploymentRegions id)
    (db.updateDeploymentDesiredState id state)
  refine ⟨changes, heq.trans ?_⟩
  rw [Db.updateDeploymentDesiredState]
  congr 1
  refine List.map_congr_left fun t ht => ?_
  by_cases hid : t.deploymentID = id
  · have hregion : t.regionID ∈ db.findDeploymentRegions id :=
      List.mem_map.mpr ⟨t, List.mem_filter.mpr ⟨ht, decide_eq_true hid⟩, rfl⟩
    rw [if_pos ⟨hid, hregion⟩, if_pos hid]
  · rw [if_neg (fun h => hid h.1), if_neg hid]

theorem Db.applyDesiredState_apps (db : Db) (id : DeploymentId) (state : DesiredState) :
    (db.applyDesiredState id state).apps = db.apps := by
  obtain ⟨changes, heq⟩ := db.applyDesiredState_eq id state
  rw [heq]

theorem Db.findDeploymentById_apply (db : Db) (id other : DeploymentId) (state : DesiredState) :
    (db.applyDesiredState id state).findDeploymentById other =
      (db.findDeploymentById other).map fun d =>
        if d.id = id then { d with desiredState := state } else d := by
  have hid : ((fun d : Deployment => decide (d.id = other)) ∘ fun d =>
      if d.id = id then { d with desiredState := state } else d) =
      fun d => decide (d.id = other) := by
    funext d
    rw [Function.comp_apply]
    split <;> rfl
  obtain ⟨changes, heq⟩ := db.applyDesiredState_eq id state
  rw [heq, Db.findDeploymentById, List.find?_map, hid]
  rfl

theorem Db.applyDesiredState_owner (db : Db) (id other : DeploymentId) (state : DesiredState) :
    (db.applyDesiredState id state).owner other = db.owner other := by
  rw [Db.owner, Db.findDeploymentById_apply, Option.map_map, Db.owner]
  congr 1
  funext d
  rw [Function.comp_apply]
  split <;> rfl

theorem Db.mem_topology_apply {id : DeploymentId} {state : DesiredState} {t : Topology}
    (ht : t ∈ (db.applyDesiredState id state).topology) :
    ∃ t₀ ∈ db.topology,
      t = if t₀.deploymentID = id then { t₀ with desiredStatus := state } else t₀ := by
  obtain ⟨changes, heq⟩ := db.applyDesiredState_eq id state
  rw [heq] at ht
  obtain ⟨t₀, ht₀, rfl⟩ := List.mem_map.mp ht
  exact ⟨t₀, ht₀, rfl⟩

theorem Db.Running.apply {other : DeploymentId} (hrunning : db.Running other) (id : DeploymentId) :
    (db.applyDesiredState id .running).Running other := by
  obtain ⟨⟨d, hd, hstate⟩, htopology⟩ := hrunning
  constructor
  · grind [Db.findDeploymentById_apply]
  · grind [Db.mem_topology_apply]

theorem Db.running_apply (hexists : db.owner id ≠ none) :
    (db.applyDesiredState id .running).Running id := by
  constructor
  · cases hd : db.findDeploymentById id with
    | none => exact absurd (by rw [Db.owner, hd]; rfl) hexists
    | some d =>
      have hdid : d.id = id := by simpa using List.find?_some hd
      exact ⟨_, by rw [Db.findDeploymentById_apply, hd, Option.map_some], by rw [if_pos hdid]⟩
  · grind [Db.mem_topology_apply]

/-- The deployment has the same row and the same topology rows in both databases. -/
def Db.SameDeployment (db db' : Db) (id : DeploymentId) : Prop :=
  db'.findDeploymentById id = db.findDeploymentById id ∧
    ∀ t, t.deploymentID = id → (t ∈ db'.topology ↔ t ∈ db.topology)

theorem Db.sameDeployment_apply (db : Db) {other : DeploymentId} (hne : id ≠ other)
    (state : DesiredState) :
    db.SameDeployment (db.applyDesiredState other state) id := by
  constructor
  · rw [Db.findDeploymentById_apply]
    cases hd : db.findDeploymentById id with
    | none => rfl
    | some d =>
      have hdid : d.id = id := by simpa using List.find?_some hd
      rw [Option.map_some, if_neg (hdid ▸ hne)]
  · rintro t rfl
    obtain ⟨changes, heq⟩ := db.applyDesiredState_eq other state
    rw [heq]
    constructor
    · intro ht
      obtain ⟨t₀, ht₀, hset⟩ := List.mem_map.mp ht
      split at hset
      · exact absurd (hset ▸ ‹_›) hne
      · exact hset ▸ ht₀
    · exact fun ht => List.mem_map.mpr ⟨t, ht, if_neg hne⟩

/-! ### Restoring one app -/

variable {workspaceID : String} {acc : Resuming}

/-- The deployment exists in this workspace and app, and the app has no current deployment. -/
structure Db.Restorable (db : Db) (workspaceID app : String) (id : DeploymentId) : Prop where
  owner : db.owner id = some (workspaceID, app)
  unset : db.apps app = some ⟨none⟩

theorem Db.restorable_iff : db.Restorable workspaceID app id ↔
    db.owner id = some (workspaceID, app) ∧ db.apps app = some ⟨none⟩ :=
  ⟨fun h => ⟨h.owner, h.unset⟩, fun h => ⟨h.1, h.2⟩⟩

theorem Db.verifyRestore_eligible_iff :
    (db.verifyRestore workspaceID app id).eligible ↔ db.Restorable workspaceID app id := by
  rw [Db.restorable_iff, Db.owner, Db.verifyRestore]
  cases hd : db.findDeploymentById id with
  | none => simp
  | some d =>
    dsimp only
    split
    · grind
    · rename_i hsame
      rw [not_or, not_not, not_not] at hsame
      cases happ : db.apps app with
      | none => simp
      | some a =>
        obtain ⟨current⟩ := a
        -- A current deployment has a name, so the check takes the pointer for set.
        cases current with
        | none => simp [hsame]
        | some current => simp [current.nonempty]

open Classical in
theorem Resuming.restore_eq (acc : Resuming) (workspaceID : String)
    (e : Entry) :
    acc.restore workspaceID e =
      if acc.db.Restorable workspaceID e.1 e.2 then
        ⟨(acc.db.setAppCurrentDeployment e.1 e.2).applyDesiredState e.2 .running,
          acc.resumed ++ [(e.1, e.2)]⟩
      else acc := by
  rw [Resuming.restore]
  by_cases hrest : acc.db.Restorable workspaceID e.1 e.2
  · have hclaimed : (acc.db.restoreCurrent e.1 e.2).2 = true := by
      simp [Db.restoreCurrent, Db.pointer, Db.setAppCurrentDeployment, hrest.unset]
    rw [if_pos (Db.verifyRestore_eligible_iff.mpr hrest), if_pos hrest]
    dsimp only
    rw [if_pos hclaimed]
    rfl
  · rw [if_neg (fun h => hrest (Db.verifyRestore_eligible_iff.mp h)), if_neg hrest]

structure Resuming.Keeps (app : String) (acc acc' : Resuming) : Prop where
  apps : acc'.db.apps app = acc.db.apps app
  owner : ∀ id, acc'.db.owner id = acc.db.owner id
  running : ∀ id, acc.db.Running id → acc'.db.Running id
  resumed : ∀ id, (app, id) ∈ acc'.resumed ↔ (app, id) ∈ acc.resumed
  same : ∀ id workspaceID, acc.db.owner id = some (workspaceID, app) →
    acc.db.SameDeployment acc'.db id

theorem Resuming.Keeps.refl (app : String) (acc : Resuming) : acc.Keeps app acc :=
  ⟨rfl, fun _ => rfl, fun _ h => h, fun _ => Iff.rfl, fun _ _ _ => ⟨rfl, fun _ _ => Iff.rfl⟩⟩

theorem Resuming.Keeps.trans {acc acc' acc'' : Resuming} (h : acc.Keeps app acc')
    (h' : acc'.Keeps app acc'') : acc.Keeps app acc'' :=
  ⟨h'.apps.trans h.apps, fun id => (h'.owner id).trans (h.owner id),
    fun id hid => h'.running id (h.running id hid),
    fun id => (h'.resumed id).trans (h.resumed id), fun id workspaceID howner =>
      have hfirst := h.same id workspaceID howner
      have hlast := h'.same id workspaceID ((h.owner id).trans howner)
      ⟨hlast.1.trans hfirst.1, fun t ht => (hlast.2 t ht).trans (hfirst.2 t ht)⟩⟩

theorem Db.setAppCurrentDeployment_apps_of_ne {other : String} (hne : app ≠ other) :
    (db.setAppCurrentDeployment other id).apps app = db.apps app :=
  Function.update_of_ne hne _ _

theorem Resuming.restore_keeps {e : Entry}
    (he : e.1 ≠ app ∨ acc.db.apps app ≠ some ⟨none⟩) :
    acc.Keeps app (acc.restore workspaceID e) := by
  rw [Resuming.restore_eq]
  split
  · rename_i hrest
    have hne : app ≠ e.1 := by
      rintro rfl
      exact he.elim (fun h => h rfl) (fun h => h hrest.unset)
    refine ⟨?_, fun id => ?_, fun id hid => ?_, fun id => ?_, fun id workspaceID howner => ?_⟩
    · rw [Db.applyDesiredState_apps]
      exact Db.setAppCurrentDeployment_apps_of_ne hne
    · exact Db.applyDesiredState_owner _ _ _ _
    · have hset : (acc.db.setAppCurrentDeployment e.1 e.2).Running id := ⟨hid.row, hid.topology⟩
      exact hset.apply e.2
    · simp [hne]
    · refine (acc.db.setAppCurrentDeployment e.1 e.2).sameDeployment_apply ?_ _
      rintro rfl
      rw [hrest.owner] at howner
      cases howner
      exact hne rfl
  · exact .refl app acc

theorem Resuming.foldl_keeps (es : List Entry) {acc : Resuming}
    (hes : (∀ e ∈ es, e.1 ≠ app) ∨ acc.db.apps app ≠ some ⟨none⟩) :
    acc.Keeps app (es.foldl (Resuming.restore workspaceID) acc) := by
  induction es generalizing acc with
  | nil => exact .refl app acc
  | cons e es ih =>
    have hstep : acc.Keeps app (acc.restore workspaceID e) :=
      Resuming.restore_keeps (hes.imp_left fun h => h e List.mem_cons_self)
    refine hstep.trans (ih ?_)
    rw [hstep.apps]
    exact hes.imp_left fun h f hf => h f (List.mem_cons_of_mem _ hf)

theorem Resuming.foldl_resumed (es : List Entry) {acc : Resuming}
    {x : String × DeploymentId} (hx : x ∈ (es.foldl (Resuming.restore workspaceID) acc).resumed) :
    x ∈ acc.resumed ∨ acc.db.owner x.2 = some (workspaceID, x.1) := by
  induction es generalizing acc with
  | nil => exact .inl hx
  | cons e es ih =>
    rcases ih hx with hmem | howner
    · rw [Resuming.restore_eq] at hmem
      split at hmem
      · rename_i hrest
        rcases List.mem_append.mp hmem with hmem | hmem
        · exact .inl hmem
        · obtain rfl := List.mem_singleton.mp hmem
          exact .inr hrest.owner
      · exact .inl hmem
    · rw [Resuming.restore_eq] at howner
      split at howner
      · rw [Db.applyDesiredState_owner] at howner
        exact .inr howner
      · exact .inr howner

/-! ### Resuming a workspace -/

variable {record : AppCurrent}

theorem Resuming.restoreAll_restores (hrecord : record.lookup app = some id)
    (hrest : db.Restorable workspaceID app id) :
    let r := Resuming.restoreAll workspaceID db record
    r.db.apps app = some ⟨some id⟩ ∧ r.db.Running id ∧ (app, id) ∈ r.resumed := by
  have hperm := List.perm_insertionSort (fun a b : Entry => a.1 ≤ b.1)
    record.entries
  have hmem : (⟨app, id⟩ : Entry) ∈
      record.entries.insertionSort fun a b => a.1 ≤ b.1 :=
    hperm.mem_iff.mpr (AList.mem_lookup_iff.mp hrecord)
  have hnodup := (List.perm_nodupKeys hperm).mpr record.nodupKeys
  rw [Resuming.restoreAll]
  generalize (record.entries.insertionSort fun a b => a.1 ≤ b.1) = es at hmem hnodup
  obtain ⟨before, after, rfl⟩ := List.append_of_mem hmem
  -- The keys are distinct: the entries before and after are those of other apps.
  have hothers : app ∉ (before ++ after).keys :=
    List.notMem_keys_of_nodupKeys_cons (List.nodupKeys_middle.mp hnodup)
  rw [List.keys_append, List.mem_append, not_or] at hothers
  have hbefore : ∀ e ∈ before, e.1 ≠ app :=
    fun e he heq => hothers.1 (heq ▸ List.mem_keys_of_mem he)
  have hafter : ∀ e ∈ after, e.1 ≠ app :=
    fun e he heq => hothers.2 (heq ▸ List.mem_keys_of_mem he)
  rw [List.foldl_append, List.foldl_cons]
  have hfirst : Resuming.Keeps app ⟨db, []⟩ (before.foldl (Resuming.restore workspaceID) ⟨db, []⟩) :=
    Resuming.foldl_keeps before (.inl hbefore)
  generalize before.foldl (Resuming.restore workspaceID) ⟨db, []⟩ = acc at hfirst
  have hrest' : acc.db.Restorable workspaceID app id :=
    ⟨(hfirst.owner id).trans hrest.owner, hfirst.apps.trans hrest.unset⟩
  rw [Resuming.restore_eq, if_pos hrest']
  generalize hstarted : Resuming.mk ((acc.db.setAppCurrentDeployment app id).applyDesiredState id
    .running) (acc.resumed ++ [(app, id)]) = acc'
  have hlast : acc'.Keeps app (after.foldl (Resuming.restore workspaceID) acc') :=
    Resuming.foldl_keeps after (.inl hafter)
  subst hstarted
  refine ⟨hlast.apps.trans ?_, hlast.running id (Db.running_apply ?_), (hlast.resumed id).mpr ?_⟩
  · rw [Db.applyDesiredState_apps]
    simp [Db.setAppCurrentDeployment, hrest'.unset]
  · exact ne_of_eq_of_ne hrest'.owner (Option.some_ne_none _)
  · exact List.mem_append_right _ (List.mem_singleton.mpr rfl)

theorem Workspace.resume_of_recorded (hrecord : w.suspension = some record)
    (hlookup : record.lookup app = some id) :
    w.resume = ({ w with
      db := (Resuming.restoreAll w.id w.db record).db, suspension := none },
      (Resuming.restoreAll w.id w.db record).resumed) := by
  have hmem : (⟨app, id⟩ : Entry) ∈ record.entries :=
    AList.mem_lookup_iff.mp hlookup
  rw [Workspace.resume, hrecord]
  dsimp only
  rw [if_neg (List.ne_nil_of_mem hmem)]

theorem Workspace.resume_restores (hrecord : w.recorded app = some id)
    (hrest : w.db.Restorable w.id app id) :
    w.resume.1.db.pointer app = some id ∧ w.resume.1.db.Running id ∧ (app, id) ∈ w.resume.2 := by
  obtain ⟨record, hsuspension, hlookup⟩ := Option.bind_eq_some_iff.mp hrecord
  obtain ⟨happs, hrunning, hresumed⟩ := Resuming.restoreAll_restores hlookup hrest
  rw [Workspace.resume_of_recorded hsuspension hlookup]
  exact ⟨by rw [Db.pointer, happs]; rfl, hrunning, hresumed⟩

theorem Workspace.resume_cases (w : Workspace) :
    w.resume = (w, []) ∨ ∃ es : List Entry, w.resume =
      ({ w with
        db := (es.foldl (Resuming.restore w.id) ⟨w.db, []⟩).db, suspension := none },
        (es.foldl (Resuming.restore w.id) ⟨w.db, []⟩).resumed) := by
  rw [Workspace.resume]
  split
  · exact .inl rfl
  · split
    · exact .inl rfl
    · exact .inr ⟨_, rfl⟩

theorem Workspace.resume_keeps {current : DeploymentId} (hset : w.db.pointer app = some current) :
    w.resume.1.db.pointer app = some current ∧ (∀ id, (app, id) ∉ w.resume.2) ∧
      ∀ id workspaceID, w.db.owner id = some (workspaceID, app) →
        w.db.SameDeployment w.resume.1.db id := by
  have hne : w.db.apps app ≠ some ⟨none⟩ := by
    intro hunset
    rw [Db.pointer, hunset] at hset
    cases hset
  rcases w.resume_cases with heq | ⟨es, heq⟩
  · rw [heq]
    exact ⟨hset, fun _ => List.not_mem_nil, fun _ _ _ => ⟨rfl, fun _ _ => Iff.rfl⟩⟩
  · have hkeeps : Resuming.Keeps app ⟨w.db, []⟩ (es.foldl (Resuming.restore w.id) ⟨w.db, []⟩) :=
      Resuming.foldl_keeps es (.inr hne)
    rw [heq]
    refine ⟨by rw [Db.pointer, hkeeps.apps]; exact hset, fun id h => ?_, hkeeps.same⟩
    cases (hkeeps.resumed id).mp h

theorem Workspace.owner_of_resumed {x : String × DeploymentId} (hx : x ∈ w.resume.2) :
    w.db.owner x.2 = some (w.id, x.1) := by
  rcases w.resume_cases with heq | ⟨es, heq⟩
  · rw [heq] at hx
    cases hx
  · rw [heq] at hx
    exact (Resuming.foldl_resumed es hx).resolve_left nofun

/-- After any number of suspensions, `Resume` makes the deployment that was last cleared from an
app current again and starts it, provided that it still exists there and the app has no current
deployment. An app with a current deployment keeps it, all its deployments keep their row and their
topology, and whatever is started belongs to another app. -/
theorem resume_reverses_suspensions (workspaceID : String) (db : Db)
    {past : List (Workspace × Call)} {w : Workspace}
    (hrun : Run step (Workspace.new workspaceID db) past w)
    (honly : Always (fun _ _ c => c.OnlySuspends) past) :
    (∀ app id, lastCleared app past = some id → w.db.owner id = some (workspaceID, app) →
      w.db.apps app = some ⟨none⟩ →
      w.resume.1.db.pointer app = some id ∧ w.resume.1.db.Running id ∧ (app, id) ∈ w.resume.2) ∧
    ∀ app current, w.db.pointer app = some current →
      w.resume.1.db.pointer app = some current ∧
      (∀ id owner, w.db.owner id = some (owner, app) → w.db.SameDeployment w.resume.1.db id) ∧
      ∀ x ∈ w.resume.2, x.1 ≠ app ∧ w.db.owner x.2 = some (workspaceID, x.1) := by
  have hid : w.id = workspaceID := id_eq_of_run hrun
  constructor
  · intro app id hlast howner hunset
    rw [← recorded_eq_lastCleared hrun honly] at hlast
    exact Workspace.resume_restores hlast ⟨by rw [hid]; exact howner, hunset⟩
  · intro app current hset
    obtain ⟨hkept, hnone, hsame⟩ := Workspace.resume_keeps hset
    refine ⟨hkept, hsame, fun x hx => ⟨fun heq => hnone x.2 (heq ▸ hx), ?_⟩⟩
    rw [← hid]
    exact Workspace.owner_of_resumed hx

def firstRelease : DeploymentId := ⟨"d_1", by decide⟩

def secondRelease : DeploymentId := ⟨"d_2", by decide⟩

def webDb (first second : DesiredState) (current : Option DeploymentId) : Db where
  deployments := [⟨firstRelease, "ws", "web", .ready, first⟩,
    ⟨secondRelease, "ws", "web", .ready, second⟩]
  apps := fun app => if app = "web" then some ⟨current⟩ else none
  instances := fun _ => false
  topology := [⟨firstRelease, "eu", first⟩, ⟨secondRelease, "eu", second⟩]
  changes := []

def suspendedTwice : List Call :=
  [.teardown .suspend true, .change (webDb .stopped .running (some secondRelease)),
    .teardown .suspend false, .change (webDb .stopped .stopped none)]

theorem resume_reverses_suspensions_twice :
    ∃ past w, Run step (Workspace.new "ws" (webDb .running .stopped (some firstRelease))) past w ∧
      lastCleared "web" past = some secondRelease ∧
      w.resume.1.db.pointer "web" = some secondRelease ∧
      w.resume.1.db.Running secondRelease ∧ w.resume.2 = [("web", secondRelease)] := by
  refine Run.exists_of_record (P := fun past w => Always (fun _ _ c => c.OnlySuspends) past ∧
      lastCleared "web" past = some secondRelease ∧ w.resume.2 = [("web", secondRelease)] ∧
      w.db.owner secondRelease = some ("ws", "web") ∧ w.db.apps "web" = some ⟨none⟩)
    suspendedTwice (by decide +kernel) ?_
  rintro past w hrun ⟨honly, hlast, hresumed, howner, hunset⟩
  obtain ⟨hpointer, hrunning, -⟩ :=
    (resume_reverses_suspensions "ws" _ hrun honly).1 "web" secondRelease hlast howner hunset
  exact ⟨hlast, hpointer, hrunning, hresumed⟩

/-! ### Archived workspaces -/

/-- `Resume` restores no pointer and starts no deployment. -/
def Workspace.ResumesNothing (w : Workspace) : Prop := w.resume.1.db = w.db ∧ w.resume.2 = []

def Workspace.Unrecorded (w : Workspace) : Prop := ∀ app, w.recorded app = none

theorem entries_eq_nil_of_lookup (hnone : ∀ app, record.lookup app = none) :
    record.entries = [] := by
  cases hentries : record.entries with
  | nil => rfl
  | cons e es =>
    have hsome : record.lookup e.1 = some e.2 :=
      AList.mem_lookup_iff.mpr (hentries ▸ List.mem_cons_self)
    rw [hnone] at hsome
    cases hsome

theorem Workspace.Unrecorded.resume (hw : w.Unrecorded) : w.resume = (w, []) := by
  rw [Workspace.resume]
  split
  · rfl
  · rename_i record hrecord
    have hnil : record.entries = [] := entries_eq_nil_of_lookup fun app => by
      have hnone := hw app
      rwa [Workspace.recorded, hrecord, Option.bind_some] at hnone
    rw [if_pos hnil]

theorem Workspace.Unrecorded.step (hw : w.Unrecorded) {c : Call} {w' : Workspace}
    (hc : c.suspends = false) (hstep : step w c = some w') : w'.Unrecorded := by
  cases c with
  | change db =>
    cases hstep
    exact hw
  | resume =>
    cases hstep
    rw [hw.resume]
    exact hw
  | teardown mode drained =>
    cases hstep
    rw [Workspace.teardown]
    split
    · exact hw
    · cases mode with
      | suspend => cases hc
      | archive => exact fun _ => rfl
      | unspecified => exact hw
      | unknown code => exact hw

theorem Workspace.Unrecorded.run (hw : w.Unrecorded) {later : List (Workspace × Call)}
    {w' : Workspace} (hrun : Run Teardown.step w later w')
    (hlater : ∀ x ∈ later, x.2.suspends = false) : w'.Unrecorded := by
  induction hrun with
  | start => exact hw
  | next _ hstep ih =>
    exact (ih fun x hx => hlater x (List.mem_cons_of_mem _ hx)).step
      (hlater _ List.mem_cons_self) hstep

theorem Workspace.unrecorded_archive (drained : Bool)
    (hw : w.db.listRunningDeploymentsByWorkspaceId w.id ≠ [] ∨ w.Unrecorded) :
    (w.teardown .archive drained).1.Unrecorded := by
  rw [Workspace.teardown]
  split
  · rename_i hidle
    exact hw.resolve_left fun h => h hidle
  · exact fun _ => rfl

def restorableDb (workspaceID app : String) (id : DeploymentId) : Db where
  deployments := [⟨id, workspaceID, app, .stopped, .stopped⟩]
  apps := fun _ => some ⟨none⟩
  instances := fun _ => false
  topology := []
  changes := []

/-- No resume after an archive restores or starts anything, whatever happens in between short of
another suspension, exactly if the archive found something running or nothing was recorded. -/
theorem archive_final_iff (v : Workspace) (drained : Bool) :
    (∀ later w, Run step (v.teardown .archive drained).1 later w →
      (∀ x ∈ later, x.2.suspends = false) → w.ResumesNothing) ↔
    v.db.listRunningDeploymentsByWorkspaceId v.id ≠ [] ∨ v.Unrecorded := by
  constructor
  · intro hfinal
    by_contra hnot
    rw [not_or, not_not, Workspace.Unrecorded, not_forall] at hnot
    obtain ⟨hidle, app, hrecorded⟩ := hnot
    obtain ⟨id, hid⟩ := Option.ne_none_iff_exists'.mp hrecorded
    have hkept : (v.teardown .archive drained).1 = v := by rw [Workspace.teardown, if_pos hidle]
    -- The record survives, and the deployment comes up again as soon as it can be restored.
    have hnothing := hfinal [(v, .change (restorableDb v.id app id))]
      { v with db := restorableDb v.id app id }
      (by rw [hkept]; exact Run.start.next rfl)
      (fun x hx => by rw [List.mem_singleton.mp hx]; rfl)
    have hrest : (restorableDb v.id app id).Restorable v.id app id :=
      ⟨by simp [Db.owner, Db.findDeploymentById, restorableDb], rfl⟩
    have hstarted := (Workspace.resume_restores (w := { v with db := restorableDb v.id app id })
      hid hrest).2.2
    rw [hnothing.2] at hstarted
    cases hstarted
  · intro hv later w hrun hlater
    have hw := (Workspace.unrecorded_archive drained hv).run hrun hlater
    rw [Workspace.ResumesNothing, hw.resume]
    exact ⟨rfl, rfl⟩

/-- The archive of a workspace with a running release is final. -/
theorem archive_final_iff_running :
    ∀ later w, Run step ((Workspace.new "ws" (webDb .running .stopped
        (some firstRelease))).teardown .archive true).1 later w →
      (∀ x ∈ later, x.2.suspends = false) → w.ResumesNothing :=
  (archive_final_iff (Workspace.new "ws" (webDb .running .stopped (some firstRelease))) true).mpr
    (.inl (by decide +kernel))

def archivedWhileStopped : List Call :=
  [.teardown .suspend true, .change (webDb .stopped .stopped none), .teardown .archive true]

/-- `Resume` after `Teardown(ARCHIVE)` makes the first release current again and starts it. -/
theorem archived_resumes :
    ∃ past w, Run step (Workspace.new "ws" (webDb .running .stopped (some firstRelease))) past w ∧
      past.map (fun x => x.2.suspends) = [false, false, true] ∧
      (past.head?.map fun x => x.1.recorded "web") = some (some firstRelease) ∧
      w.resume.2 = [("web", firstRelease)] ∧ w.resume.1.db.pointer "web" = some firstRelease ∧
      ¬ w.ResumesNothing := by
  refine Run.exists_of_record (P := fun past w =>
      past.map (fun x => x.2.suspends) = [false, false, true] ∧
      past.head?.map (fun x => x.1.recorded "web") = some (some firstRelease) ∧
      w.resume.2 = [("web", firstRelease)] ∧ w.resume.1.db.pointer "web" = some firstRelease)
    archivedWhileStopped (by decide +kernel) ?_
  rintro past w hrun ⟨hcalls, hrecord, hresumed, hpointer⟩
  refine ⟨hcalls, hrecord, hresumed, hpointer, fun hnothing => ?_⟩
  rw [hnothing.2] at hresumed
  cases hresumed

end Unkey.Teardown
