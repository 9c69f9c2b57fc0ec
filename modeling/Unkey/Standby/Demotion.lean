import Unkey.Standby.LiveRunning

/-!
# What becomes of a demoted deployment

Complete Deploy swaps, Promotes and Rollbacks, one after the other, with deliveries in between.
-/

namespace Unkey.Standby

open Unkey.Base Unkey.Deploy

variable {latest target : String}

namespace Fleet

/-- `swapLiveDeployment` of a Deploy that reads the app and swaps without interruption. -/
def deploySwap (f : Fleet) (id : String) : Option Fleet :=
  if f.db.isRolledBack then some f
  else (f.swap id [] false).map fun g => g.standbyOnce f.previous

def isConfirmingRollback (f : Fleet) (target : String) : Bool :=
  f.db.isRolledBack && target == f.previous

/-- A complete Promote; `latest` is what the query for the latest ready deployment
answers. -/
def promote (S : Setting) (f : Fleet) (target latest : String) : Option Fleet :=
  (f.db.rows target).bind fun row =>
    if checkPromoteTarget row S.environment.kind f.previous target f.db.isRolledBack ≠ .ok then none
    else if f.isConfirmingRollback target then
      (f.swap target [] false).bind fun g =>
        if (g.clear target).LatestReady target latest then some ((g.clear target).standby latest)
        else none
    else match findFrontlineRouteForPromotion f.db.routes S.environment.id liveAndEnvironment with
      | [] => none
      | routeIDs => (f.swap target routeIDs false).map fun g => (g.clear target).standby f.previous

def rollback (S : Setting) (f : Fleet) (source target : String) : Option Fleet :=
  if source = target ∨ (f.db.rows source).isNone = true then none
  else (f.db.rows target).bind fun row =>
    if f.db.currentDeploymentId ≠ some source then none
    else if checkRollbackTarget row S.environment.kind source target ≠ .ok then none
    else match findFrontlineRouteForPromotion f.db.routes S.environment.id liveAndEnvironment with
      | [] => none
      | routeIDs => (f.clear target).swap target routeIDs true

def demotedBy (f : Fleet) (target latest : String) : String :=
  if f.isConfirmingRollback target then latest else f.previous

theorem deploySwap_eq_some {f g : Fleet} {id : String} (h : f.deploySwap id = some g) :
    (f.db.isRolledBack = true ∧ g = f) ∨
      (f.db.isRolledBack = false ∧ (f.db.rows id).isSome = true ∧
        g = (f.swapped id [] false).standbyOnce f.previous) := by
  unfold deploySwap at h
  split at h
  next hflag =>
    cases h
    exact .inl ⟨hflag, rfl⟩
  next hflag =>
    obtain ⟨g', hswap, rfl⟩ := Option.map_eq_some_iff.mp h
    obtain ⟨hrow, rfl⟩ := swap_eq_some hswap
    exact .inr ⟨by simpa using hflag, hrow, rfl⟩

theorem promote_eq_some {S : Setting} {f g : Fleet} (h : f.promote S target latest = some g) :
    ∃ routeIDs, (f.db.rows target).isSome = true ∧
      (f.isConfirmingRollback target = true → latest ≠ target) ∧
      g = ((f.swapped target routeIDs false).clear target).standby
        (f.demotedBy target latest) := by
  obtain ⟨row, hrow, h⟩ := Option.bind_eq_some_iff.mp h
  have hsome : (f.db.rows target).isSome = true := by simp [hrow]
  split at h
  · cases h
  · split at h
    next hconf =>
      obtain ⟨g', hswap, h⟩ := Option.bind_eq_some_iff.mp h
      obtain ⟨-, rfl⟩ := swap_eq_some hswap
      split at h
      next hlatest =>
        cases h
        obtain ⟨c, -, -, hne, -⟩ := hlatest
        exact ⟨[], hsome, fun _ => hne, by simp [demotedBy, hconf]⟩
      next => cases h
    next hconf =>
      split at h
      · cases h
      · obtain ⟨g', hswap, rfl⟩ := Option.map_eq_some_iff.mp h
        obtain ⟨-, rfl⟩ := swap_eq_some hswap
        refine ⟨findFrontlineRouteForPromotion f.db.routes S.environment.id liveAndEnvironment,
          hsome, fun hc => absurd hc hconf, ?_⟩
        rw [demotedBy, if_neg hconf]

theorem rollback_eq_some {S : Setting} {f g : Fleet} {source : String}
    (h : f.rollback S source target = some g) :
    ∃ routeIDs, f.db.currentDeploymentId = some source ∧ (f.db.rows target).isSome = true ∧
      g = (f.clear target).swapped target routeIDs true := by
  unfold rollback at h
  split at h
  · cases h
  · obtain ⟨row, hrow, h⟩ := Option.bind_eq_some_iff.mp h
    split at h
    · cases h
    next hcur =>
      split at h
      · cases h
      · split at h
        · cases h
        · obtain ⟨-, rfl⟩ := swap_eq_some h
          exact ⟨_, Classical.not_not.mp hcur, by simp [hrow], rfl⟩

end Fleet

inductive Op
  | deploy (id : String)
  | promote (target latest : String)
  | rollback (source target : String)
  | deliver (id : String) (i : Nat)
  | create (id : String) (createdAt : Nat) (row : Row)
  | report (id : String) (status : Status)

def Fleet.perform (S : Setting) (f : Fleet) : Op → Option Fleet
  | .deploy id => f.deploySwap id
  | .promote target latest => f.promote S target latest
  | .rollback source target => f.rollback S source target
  | .deliver id i => (f.objects id).messages[i]?.map fun m => f.deliver id i m
  | .create id createdAt row => f.create id createdAt row
  | .report id status => some (f.report id status)

def rolledBackFrom : List (Fleet × Op) → List String
  | [] => []
  | (_, .promote _ _) :: _ => []
  | (_, .rollback source _) :: past => source :: rolledBackFrom past
  | (_, .deploy _) :: past | (_, .deliver _ _) :: past | (_, .create _ _ _) :: past
  | (_, .report _ _) :: past => rolledBackFrom past

def Object.StopPending (o : Object) : Prop :=
  ∃ t, o.transition = some t ∧ t.state = .stopped ∧ ⟨t.nonce, .stopped⟩ ∈ o.messages

def Fleet.Stopping (f : Fleet) (id : String) : Prop :=
  f.desired id = some .stopped ∨ (f.objects id).StopPending

def WasCurrent (past : List (Fleet × Op)) (f : Fleet) (id : String) : Prop :=
  f.db.currentDeploymentId = some id ∨ ∃ x ∈ past, x.1.db.currentDeploymentId = some id

/-- Every deployment that was once current is current, is stopped or about to be, or was rolled back
from. -/
def Accounted (past : List (Fleet × Op)) (f : Fleet) : Prop :=
  ∀ id, WasCurrent past f id →
    f.db.currentDeploymentId = some id ∨ f.Stopping id ∨ id ∈ rolledBackFrom past

def Op.swaps : Op → Bool
  | .deploy _ | .promote _ _ => true
  | _ => false

def AccountedAfterSwap : List (Fleet × Op) → Fleet → Prop
  | [], _ => True
  | (f, op) :: past, g => op.swaps = true → Accounted ((f, op) :: past) g

def SchedulesStop (past : List (Fleet × Op)) (f : Fleet) : Op → Prop
  | .deploy id => f.db.isRolledBack = false →
      ∀ d, f.db.currentDeploymentId = some d → d ≠ id → f.Stopping d ∨ d ∉ f.keys
  | .promote target latest =>
      ∀ d, f.db.currentDeploymentId = some d ∨ d ∈ rolledBackFrom past → d ≠ target →
        f.Stopping d ∨ (d = f.demotedBy target latest ∧ (f.objects d).transition = none)
  | _ => True

structure Object.OnlyStops (o : Object) : Prop where
  stops : ∀ m ∈ o.messages, m.state = .stopped
  fresh : o.Fresh

/-- A state from which the operations can begin: the live deployment has a row, no
deployment has an empty id, and only stops are under way. -/
structure Fleet.Regular (f : Fleet) : Prop where
  objects : ∀ id, (f.objects id).OnlyStops
  named : f.db.rows "" = none
  current : ∀ id, f.db.currentDeploymentId = some id → (f.db.rows id).isSome = true

/-- The state is regular, what was current has a row, and a rollback that is not confirmed is
flagged. -/
structure Orderly (past : List (Fleet × Op)) (f : Fleet) : Prop where
  regular : f.Regular
  rows : ∀ id, WasCurrent past f id → (f.db.rows id).isSome = true
  ledger : ∀ id ∈ rolledBackFrom past, WasCurrent past f id
  flag : rolledBackFrom past ≠ [] → f.db.isRolledBack = true

variable {o : Object}

section Stopping

variable {f g : Fleet} {id : String}

theorem stopping_congr (hrow : g.desired id = f.desired id) (hobj : g.objects id = f.objects id) :
    g.Stopping id ↔ f.Stopping id := by
  simp [Fleet.Stopping, hrow, hobj]

theorem stopPending_schedule {overwrite : Bool} (h : o.skips ⟨.stopped, overwrite⟩ = false) :
    (scheduleDesiredStateChange o ⟨.stopped, overwrite⟩).StopPending := by
  simp only [scheduleDesiredStateChange, h, Bool.false_eq_true, if_false]
  exact ⟨_, rfl, rfl, List.mem_append_right _ (List.mem_singleton_self _)⟩

theorem stopping_schedule {overwrite : Bool} (hrow : g.desired id = f.desired id)
    (hobj : g.objects id = scheduleDesiredStateChange (f.objects id) ⟨.stopped, overwrite⟩) :
    g.Stopping id ↔ f.Stopping id ∨ (f.objects id).skips ⟨.stopped, overwrite⟩ = false := by
  cases hskip : (f.objects id).skips ⟨.stopped, overwrite⟩ with
  | false =>
    have hpending : (g.objects id).StopPending := hobj ▸ stopPending_schedule hskip
    exact iff_of_true (.inr hpending) (.inr rfl)
  | true => grind [scheduleDesiredStateChange, stopping_congr]

theorem objects_standby (f : Fleet) (old id : String) :
    (f.standby old).objects id = if id = old ∧ id ≠ ""
      then scheduleDesiredStateChange (f.objects id) ⟨.stopped, false⟩ else f.objects id := by
  by_cases hold : id = old
  · subst hold
    by_cases hid : id = "" <;> simp [Fleet.standby, hid, Fleet.schedule, Fleet.withObject]
  · unfold Fleet.standby
    split <;> simp [hold, Fleet.schedule, Fleet.withObject]

theorem objects_standbyOnce (f : Fleet) (previous id : String) :
    (f.standbyOnce previous).objects id = if id = previous ∧ id ≠ "" ∧ id ∉ f.keys
      then scheduleDesiredStateChange (f.objects id) ⟨.stopped, true⟩ else f.objects id := by
  unfold Fleet.standbyOnce Fleet.scheduleOnce
  by_cases hprev : id = previous
  · subst hprev
    by_cases hid : id = ""
    · simp [hid]
    · by_cases hkey : id ∈ f.keys <;> simp [hid, hkey, Fleet.schedule, Fleet.withObject]
  · split
    · simp [hprev]
    · split <;> simp [hprev, Fleet.schedule, Fleet.withObject]

theorem stopping_standby {old : String} (hid : id ≠ "") :
    (f.standby old).Stopping id ↔
      f.Stopping id ∨ (id = old ∧ (f.objects id).transition = none) := by
  have hrow : (f.standby old).desired id = f.desired id := Fleet.desired_congr (by simp) id
  have hobj := objects_standby f old id
  by_cases hold : id = old
  · rw [if_pos ⟨hold, hid⟩] at hobj
    rw [stopping_schedule hrow hobj]
    simp [hold, Object.skips]
  · rw [if_neg fun h => hold h.1] at hobj
    simp [stopping_congr hrow hobj, hold]

theorem stopping_standbyOnce {previous : String} (hid : id ≠ "") :
    (f.standbyOnce previous).Stopping id ↔
      f.Stopping id ∨ (id = previous ∧ id ∉ f.keys) := by
  have hrow : (f.standbyOnce previous).desired id = f.desired id :=
    Fleet.desired_congr (by simp) id
  have hobj := objects_standbyOnce f previous id
  by_cases hsched : id = previous ∧ id ∉ f.keys
  · rw [if_pos ⟨hsched.1, hid, hsched.2⟩] at hobj
    rw [stopping_schedule hrow hobj]
    exact iff_of_true (.inr rfl) (.inr hsched)
  · rw [if_neg fun h => hsched ⟨h.1, h.2.2⟩] at hobj
    rw [stopping_congr hrow hobj, or_iff_left hsched]

theorem stopping_deliver {id' : String} {i : Nat} {m : Message}
    (hm : (f.objects id').messages[i]? = some m) (hstop : m.state = .stopped)
    (hrow : (f.db.rows id).isSome = true) (hcur : f.db.currentDeploymentId ≠ some id)
    (h : f.Stopping id) : (f.deliver id' i m).Stopping id := by
  by_cases hne : id = id'
  · subst hne
    obtain ⟨row, hr⟩ := Option.isSome_iff_exists.mp hrow
    have hfound : f.found id = .standby := by simp [Fleet.found, hr, hcur]
    have happlied : applyChange m.state (f.found id) = .applied .stopped := by
      rw [hstop, hfound]
      rfl
    -- whatever is delivered, a stopped row stays stopped
    have hdesired : ∀ out, out = Outcome.outdated ∨ out = .applied .stopped →
        f.desired id = some .stopped → ((out.write (f.db.rows id)).map Row.desiredState) =
          some .stopped := by
      rintro out (rfl | rfl) hd
      · exact hd
      · simp [Outcome.write, hr]
    have hout : f.outcome id m = .outdated ∨ f.outcome id m = .applied .stopped := by
      grind [Fleet.outcome, changeDesiredState]
    rcases h with h | ⟨t, ht, hts, htm⟩
    · left
      rw [Fleet.desired_deliver, if_pos rfl]
      exact hdesired _ hout h
    · by_cases hn : t.nonce = m.nonce
      · left
        rw [Fleet.desired_deliver, if_pos rfl, Fleet.outcome, changeDesiredState_match _ ht hn,
          happlied]
        simp [Outcome.write, hr]
      · right
        refine ⟨t, ?_, hts, ?_⟩
        · simp [Fleet.deliver, Fleet.withObject, Object.deliver, changeDesiredState_other _ ht hn,
            Outcome.clears, ht]
        · have hmem := mem_eraseIdx_of_nonce hm htm hn
          simpa [Fleet.deliver, Fleet.withObject, Object.deliver] using hmem
  · refine (stopping_congr ?_ ?_).mpr h
    · rw [Fleet.desired_deliver, if_neg hne]
    · exact Function.update_of_ne hne _ _

end Stopping

section Regular

variable {f g : Fleet}

theorem onlyStops_clear (h : o.OnlyStops) :
    (clearScheduledStateChanges o).OnlyStops :=
  ⟨h.stops, fun _ ht => (nomatch ht), h.fresh.messages, h.fresh.nodup⟩

theorem onlyStops_schedule (h : o.OnlyStops) (overwrite : Bool) :
    (scheduleDesiredStateChange o ⟨.stopped, overwrite⟩).OnlyStops := by
  refine ⟨?_, fresh_schedule h.fresh _⟩
  unfold scheduleDesiredStateChange
  split
  · exact h.stops
  · exact List.forall_mem_append.mpr ⟨h.stops, List.forall_mem_singleton.mpr rfl⟩

theorem onlyStops_deliver (h : o.OnlyStops) (i : Nat) (m : Message) (found : Found) :
    (o.deliver i m found).OnlyStops :=
  ⟨fun m' hm' => h.stops m' (List.mem_of_mem_eraseIdx hm'), fresh_deliver h.fresh i m found⟩

theorem onlyStops_withObject {id : String} (h : ∀ id, (f.objects id).OnlyStops)
    (ho : o.OnlyStops) (id' : String) : ((f.withObject id o).objects id').OnlyStops := by
  by_cases hid : id' = id
  · subst hid
    simpa [Fleet.withObject] using ho
  · simpa [Fleet.withObject, hid] using h id'

theorem write_none (out : Outcome) : out.write none = none := by cases out <;> rfl

theorem isSome_write (row : Option Row) (out : Outcome) :
    (out.write row).isSome = row.isSome := by
  cases out <;> cases row <;> rfl

theorem isSome_withRow {id : String} {row : Option Row}
    (h : (f.db.rows id).isSome = true → row.isSome = true) (id' : String)
    (hid' : (f.db.rows id').isSome = true) : ((f.withRow id row).db.rows id').isSome = true := by
  by_cases heq : id' = id
  · subst heq
    simpa [Fleet.withRow] using h hid'
  · simpa [Fleet.withRow, heq] using hid'

structure Advances (f g : Fleet) : Prop where
  objects : ∀ id, (g.objects id).OnlyStops
  named : g.db.rows "" = none
  rows : ∀ id, (f.db.rows id).isSome = true → (g.db.rows id).isSome = true
  current : g.db.currentDeploymentId = f.db.currentDeploymentId ∨
    ∃ id, g.db.currentDeploymentId = some id ∧ (f.db.rows id).isSome = true

theorem advances_perform {S : Setting} {op : Op} (h : f.Regular)
    (hs : f.perform S op = some g) : Advances f g := by
  cases op with
  | deploy id =>
    rcases Fleet.deploySwap_eq_some hs with ⟨-, rfl⟩ | ⟨-, hrow, rfl⟩
    · exact ⟨h.objects, h.named, fun _ hid => hid, .inl rfl⟩
    · refine ⟨fun id' => ?_, by rw [Fleet.standbyOnce_db]; exact h.named,
        by simp [Fleet.swapped, swapLiveDeployment],
        .inr ⟨id, by simp [Fleet.swapped, swapLiveDeployment], hrow⟩⟩
      rw [objects_standbyOnce]
      split
      · exact onlyStops_schedule (h.objects id') true
      · exact h.objects id'
  | promote target latest =>
    obtain ⟨routeIDs, hrow, -, rfl⟩ := Fleet.promote_eq_some hs
    have hclear : ∀ id, (((f.swapped target routeIDs false).clear target).objects id).OnlyStops :=
      onlyStops_withObject h.objects (onlyStops_clear (h.objects target))
    refine ⟨fun id' => ?_, by rw [Fleet.standby_db]; exact h.named,
      by simp [Fleet.swapped, swapLiveDeployment],
      .inr ⟨target, by simp [Fleet.swapped, swapLiveDeployment], hrow⟩⟩
    rw [objects_standby]
    split
    · exact onlyStops_schedule (hclear id') false
    · exact hclear id'
  | rollback source target =>
    obtain ⟨routeIDs, -, hrow, rfl⟩ := Fleet.rollback_eq_some hs
    exact ⟨onlyStops_withObject h.objects (onlyStops_clear (h.objects target)), h.named,
      fun _ hid => hid, .inr ⟨target, rfl, hrow⟩⟩
  | deliver id i =>
    obtain ⟨m, hm, rfl⟩ := Option.map_eq_some_iff.mp hs
    refine ⟨onlyStops_withObject h.objects (onlyStops_deliver (h.objects id) i m _), ?_, ?_, .inl rfl⟩
    · by_cases hid : id = ""
      · subst hid
        simp [Fleet.deliver, Fleet.withRow, h.named, write_none]
      · simpa [Fleet.deliver, Fleet.withRow, Ne.symm hid] using h.named
    · intro id' hid'
      exact isSome_withRow (fun hs => (isSome_write _ _).trans hs) id' hid'
  | create id createdAt row =>
    obtain ⟨hne, hnone, rfl⟩ := Fleet.create_eq_some hs
    refine ⟨h.objects, ?_, fun id' => isSome_withRow (fun _ => rfl) id', .inl rfl⟩
    simpa [Fleet.withRow, Ne.symm hne] using h.named
  | report id status =>
    cases hs
    refine ⟨h.objects, ?_, ?_, .inl rfl⟩
    · by_cases hid : id = ""
      · subst hid
        simp [Fleet.report, Fleet.withRow, h.named]
      · simpa [Fleet.report, Fleet.withRow, Ne.symm hid] using h.named
    · intro id' hid'
      exact isSome_withRow (fun hs => by simpa using hs) id' hid'

end Regular

section Runs

variable {S : Setting} {past : List (Fleet × Op)} {f g : Fleet} {op : Op}

theorem wasCurrent_cons {id : String} :
    WasCurrent ((f, op) :: past) g id ↔
      g.db.currentDeploymentId = some id ∨ WasCurrent past f id := by
  simp [WasCurrent]

theorem flag_perform (h : Orderly past f) (hs : f.perform S op = some g)
    (hledger : rolledBackFrom ((f, op) :: past) ≠ []) : g.db.isRolledBack = true := by
  cases op with
  | deploy id =>
    have hflag := h.flag hledger
    rcases Fleet.deploySwap_eq_some hs with ⟨-, rfl⟩ | ⟨hfalse, -, -⟩
    · exact hflag
    · rw [hflag] at hfalse
      cases hfalse
  | promote target latest => exact absurd rfl hledger
  | rollback source target =>
    obtain ⟨routeIDs, -, -, rfl⟩ := Fleet.rollback_eq_some hs
    rfl
  | deliver id i =>
    obtain ⟨m, -, rfl⟩ := Option.map_eq_some_iff.mp hs
    exact h.flag hledger
  | create id createdAt row =>
    obtain ⟨-, -, rfl⟩ := Fleet.create_eq_some hs
    exact h.flag hledger
  | report id status =>
    cases hs
    exact h.flag hledger

theorem ledger_perform (h : Orderly past f) (hs : f.perform S op = some g) :
    ∀ id ∈ rolledBackFrom ((f, op) :: past), WasCurrent past f id := by
  cases op with
  | promote target latest => exact fun _ hid => (nomatch hid)
  | rollback source target =>
    obtain ⟨-, hcur, -⟩ := Fleet.rollback_eq_some hs
    intro id hid
    rcases List.mem_cons.mp hid with rfl | hid
    · exact .inl hcur
    · exact h.ledger id hid
  | _ => exact h.ledger

theorem orderly_perform (h : Orderly past f) (hs : f.perform S op = some g) :
    Orderly ((f, op) :: past) g := by
  have ha := advances_perform h.regular hs
  have hcurrent : ∀ id, g.db.currentDeploymentId = some id → (g.db.rows id).isSome = true := by
    intro id hid
    apply ha.rows
    rcases ha.current with hsame | ⟨id', hid', hrow⟩
    · exact h.regular.current id (hsame.symm.trans hid)
    · rw [hid'] at hid
      cases hid
      exact hrow
  refine ⟨⟨ha.objects, ha.named, hcurrent⟩, fun id hid => ?_, fun id hid => ?_, flag_perform h hs⟩
  · rcases wasCurrent_cons.mp hid with hid | hid
    · exact hcurrent id hid
    · exact ha.rows id (h.rows id hid)
  · exact wasCurrent_cons.mpr (.inr (ledger_perform h hs id hid))

theorem orderly_run {f₀ : Fleet} (h₀ : f₀.Regular) (h : Run (Fleet.perform S) f₀ past f) :
    Orderly past f := by
  refine h.invariant (P := Orderly) ?_ fun _ _ _ _ ho hs => orderly_perform ho hs
  refine ⟨h₀, fun id hid => ?_, fun _ hid => (nomatch hid), fun hne => absurd rfl hne⟩
  rcases hid with hid | ⟨x, hx, -⟩
  · exact h₀.current id hid
  · cases hx

theorem ne_empty_of_wasCurrent {id : String} (h : Orderly past f) (hid : WasCurrent past f id) :
    id ≠ "" := by
  rintro rfl
  have hrow := h.rows "" hid
  rw [h.regular.named] at hrow
  cases hrow

theorem previous_eq {d : String} (h : f.db.currentDeploymentId = some d) : f.previous = d := by
  simp [Fleet.previous, h]

variable {routeIDs : List Nat}

theorem stopping_promote {old d : String} (hd : d ≠ "") (hne : d ≠ target) :
    (((f.swapped target routeIDs false).clear target).standby old).Stopping d ↔
      f.Stopping d ∨ (d = old ∧ (f.objects d).transition = none) := by
  have hobj : ((f.swapped target routeIDs false).clear target).objects d = f.objects d :=
    Function.update_of_ne hne _ _
  rw [stopping_standby hd, hobj]
  exact or_congr_left (stopping_congr rfl hobj)

theorem accounted_swap_iff (target : String)
    (hcurrent : g.db.currentDeploymentId = some target) :
    Accounted ((f, op) :: past) g ↔ ∀ d, WasCurrent past f d → d ≠ target →
      g.Stopping d ∨ d ∈ rolledBackFrom ((f, op) :: past) := by
  constructor
  · intro hg d hwas hne
    refine (hg d (wasCurrent_cons.mpr (.inr hwas))).resolve_left fun hcur => hne ?_
    exact Option.some.inj (hcur.symm.trans hcurrent)
  · intro hall d hd
    by_cases hne : d = target
    · exact .inl (hne ▸ hcurrent)
    · grind [wasCurrent_cons, Option.some.inj]

theorem accounted_deploySwap {id : String} (h : Orderly past f) (hacc : Accounted past f)
    (hflag : f.db.isRolledBack = false) :
    Accounted ((f, .deploy id) :: past) ((f.swapped id [] false).standbyOnce f.previous) ↔
      SchedulesStop past f (.deploy id) := by
  have hledger : rolledBackFrom past = [] := by
    by_contra hne
    rw [h.flag hne] at hflag
    cases hflag
  have hstopping : ∀ d, WasCurrent past f d →
      (((f.swapped id [] false).standbyOnce f.previous).Stopping d ↔
        f.Stopping d ∨ (d = f.previous ∧ d ∉ f.keys)) :=
    fun d hwas => stopping_standbyOnce (ne_empty_of_wasCurrent h hwas)
  rw [accounted_swap_iff id (by simp [Fleet.swapped, swapLiveDeployment])]
  simp only [rolledBackFrom, hledger, List.not_mem_nil, or_false]
  constructor
  · intro hg _ d hd hne
    exact ((hstopping d (.inl hd)).mp (hg d (.inl hd) hne)).imp_right And.right
  · intro hc d hwas hne
    rw [hstopping d hwas]
    rcases hacc d hwas with hcur | hstop | hmem
    · exact (hc hflag d hcur hne).imp_right fun hkey => ⟨(previous_eq hcur).symm, hkey⟩
    · exact .inl hstop
    · rw [hledger] at hmem
      cases hmem

theorem accounted_promote (h : Orderly past f) (hacc : Accounted past f) :
    Accounted ((f, .promote target latest) :: past)
        (((f.swapped target routeIDs false).clear target).standby (f.demotedBy target latest)) ↔
      SchedulesStop past f (.promote target latest) := by
  rw [accounted_swap_iff target (by simp [Fleet.swapped, swapLiveDeployment])]
  simp only [rolledBackFrom, List.not_mem_nil, or_false]
  constructor
  · intro hg d hd hne
    have hwas : WasCurrent past f d := hd.elim .inl (h.ledger d)
    exact (stopping_promote (ne_empty_of_wasCurrent h hwas) hne).mp (hg d hwas hne)
  · intro hc d hwas hne
    rw [stopping_promote (ne_empty_of_wasCurrent h hwas) hne]
    rcases hacc d hwas with hcur | hstop | hmem
    · exact hc d (.inl hcur) hne
    · exact .inl hstop
    · exact hc d (.inr hmem) hne

theorem accounted_rollback {source : String}
    (hacc : Accounted past f) (hsource : f.db.currentDeploymentId = some source) :
    Accounted ((f, .rollback source target) :: past)
      ((f.clear target).swapped target routeIDs true) := by
  refine (accounted_swap_iff _ rfl).mpr fun d hwas hne => ?_
  rcases hacc d hwas with hcur | hstop | hmem
  · rw [hsource] at hcur
    cases hcur
    exact .inr List.mem_cons_self
  · refine .inl ((stopping_congr ?_ ?_).mpr hstop)
    · rfl
    · exact Function.update_of_ne hne _ _
  · exact .inr (List.mem_cons_of_mem _ hmem)

theorem accounted_keep (hacc : Accounted past f)
    (hcurrent : g.db.currentDeploymentId = f.db.currentDeploymentId)
    (hledger : rolledBackFrom ((f, op) :: past) = rolledBackFrom past)
    (hstop : ∀ d, WasCurrent past f d → f.db.currentDeploymentId ≠ some d → f.Stopping d →
      g.Stopping d) :
    Accounted ((f, op) :: past) g := by
  intro d hd
  have hwas : WasCurrent past f d := by
    rcases wasCurrent_cons.mp hd with hcur | hwas
    · exact .inl (hcurrent ▸ hcur)
    · exact hwas
  rw [hcurrent, hledger]
  by_cases hcur : f.db.currentDeploymentId = some d
  · exact .inl hcur
  · rcases hacc d hwas with hc | hs | hl
    · exact .inl hc
    · exact .inr (.inl (hstop d hwas hcur hs))
    · exact .inr (.inr hl)

theorem accounted_perform (h : Orderly past f) (hacc : Accounted past f)
    (hs : f.perform S op = some g) :
    Accounted ((f, op) :: past) g ↔ SchedulesStop past f op := by
  cases op with
  | deploy id =>
    rcases Fleet.deploySwap_eq_some hs with ⟨hflag, rfl⟩ | ⟨hflag, -, rfl⟩
    · refine iff_of_true (accounted_keep hacc rfl rfl fun _ _ _ hst => hst) fun hfalse => ?_
      rw [hflag] at hfalse
      cases hfalse
    · exact accounted_deploySwap h hacc hflag
  | promote target latest =>
    obtain ⟨routeIDs, -, -, rfl⟩ := Fleet.promote_eq_some hs
    exact accounted_promote h hacc
  | rollback source target =>
    obtain ⟨routeIDs, hsource, -, rfl⟩ := Fleet.rollback_eq_some hs
    exact iff_of_true (accounted_rollback hacc hsource) trivial
  | deliver id i =>
    obtain ⟨m, hm, rfl⟩ := Option.map_eq_some_iff.mp hs
    refine iff_of_true (accounted_keep hacc rfl rfl fun d hwas hcur hst => ?_) trivial
    exact stopping_deliver hm ((h.regular.objects id).stops m (List.mem_of_getElem? hm))
      (h.rows d hwas) hcur hst
  | create id createdAt row =>
    obtain ⟨-, hnone, rfl⟩ := Fleet.create_eq_some hs
    refine iff_of_true (accounted_keep hacc rfl rfl fun d hwas _ hst => ?_) trivial
    refine (stopping_congr ?_ ?_).mpr hst
    · refine (Fleet.desired_withRow f id d (some row)).trans (if_neg ?_)
      rintro rfl
      have hrow := h.rows d hwas
      rw [hnone] at hrow
      cases hrow
    · rfl
  | report id status =>
    cases hs
    refine iff_of_true (accounted_keep hacc rfl rfl fun d _ _ hst => ?_) trivial
    exact (stopping_congr (Fleet.desired_report f id d status) rfl).mpr hst

theorem schedulesStop_of_not_swaps (h : op.swaps = false) : SchedulesStop past f op := by
  cases op with
  | deploy id => cases h
  | promote target latest => cases h
  | _ => trivial

theorem accounted_run {f₀ : Fleet} (h₀ : f₀.Regular) (h : Run (Fleet.perform S) f₀ past f)
    (hc : Always SchedulesStop past) : Accounted past f := by
  induction h with
  | start =>
    intro id hid
    rcases hid with hid | ⟨x, hx, -⟩
    · exact .inl hid
    · cases hx
  | next hr hs ih => exact (accounted_perform (orderly_run h₀ hr) (ih hc.2) hs).mpr hc.1

/-- After every Deploy swap and every Promote of a run all deployments that were ever live
are accounted for, exactly when each of these operations schedules a stop that is not
suppressed for every deployment that needs one. -/
theorem demoted_accounted_run_iff {f₀ : Fleet} (h₀ : f₀.Regular)
    (h : Run (Fleet.perform S) f₀ past f) :
    (Always (fun past f _ => AccountedAfterSwap past f) past ∧ AccountedAfterSwap past f) ↔
      Always SchedulesStop past := by
  induction h with
  | start => exact iff_of_true ⟨trivial, trivial⟩ trivial
  | @next past f g op hr hs ih =>
    constructor
    · rintro ⟨⟨hf, hpast⟩, hg⟩
      have hc := ih.mp ⟨hpast, hf⟩
      refine ⟨?_, hc⟩
      cases hswap : op.swaps with
      | false => exact schedulesStop_of_not_swaps hswap
      | true =>
        exact (accounted_perform (orderly_run h₀ hr) (accounted_run h₀ hr hc) hs).mp (hg hswap)
    · rintro ⟨hop, hc⟩
      obtain ⟨hpast, hf⟩ := ih.mpr hc
      exact ⟨⟨hf, hpast⟩, fun _ => accounted_run h₀ (hr.next hs) ⟨hop, hc⟩⟩

end Runs

section Shop

def firstRelease : Fleet where
  db :=
    { currentDeploymentId := some "d_1"
      isRolledBack := false
      routes := [⟨0, "prj_1", "app_1", "d_1", "env_1", "shop.unkey.app", .live⟩]
      rows := fun id => if id = "d_1" ∨ id = "d_2" then some readyRow else none }
  created := [("d_1", 1), ("d_2", 2)]
  objects := fun _ => Object.fresh
  keys := []

theorem firstRelease_regular : firstRelease.Regular := by
  refine ⟨fun _ => ⟨fun _ h => (nomatch h), fresh_fresh⟩, rfl, ?_⟩
  rintro id ⟨⟩
  rfl

/-- `d_2` goes live in place of `d_1`. -/
theorem demoted_accounted_run_iff_firstRelease :
    ∃ f, Run (Fleet.perform shop) firstRelease [(firstRelease, .deploy "d_2")] f ∧
      AccountedAfterSwap [(firstRelease, .deploy "d_2")] f := by
  have hrun : Run (Fleet.perform shop) firstRelease [(firstRelease, .deploy "d_2")]
      ((firstRelease.swapped "d_2" [] false).standbyOnce "d_1") := Run.start.next rfl
  refine ⟨_, hrun, ((demoted_accounted_run_iff firstRelease_regular hrun).mpr ⟨?_, trivial⟩).2⟩
  intro _ d _ _
  exact .inr List.not_mem_nil

theorem not_accountedAfterSwap {past : List (Fleet × Op)} {f : Fleet} {d : String}
    (hhead : past.head?.map (fun x => x.2.swaps) = some true)
    (hwas : past.any (fun x => x.1.db.currentDeploymentId == some d) = true)
    (hcur : f.db.currentDeploymentId ≠ some d) (hrun : f.desired d = some .running)
    (hobj : (f.objects d).transition = none) (hledger : d ∉ rolledBackFrom past) :
    ¬ AccountedAfterSwap past f := by
  cases past with
  | nil => cases hhead
  | cons x past =>
    intro hacc
    obtain ⟨y, hy, heq⟩ := List.any_eq_true.mp hwas
    rcases hacc (Option.some.inj hhead) d (.inr ⟨y, hy, eq_of_beq heq⟩) with h | (h | h) | h
    · exact hcur h
    · rw [hrun] at h
      cases h
    · obtain ⟨t, ht, -⟩ := h
      rw [hobj] at ht
      cases ht
    · exact hledger h

/-- `d_2` goes live, the app is rolled back to `d_1` and the rollback is confirmed; then a
new deployment goes live. -/
def secondDemotion : List Op :=
  [.deploy "d_2", .rollback "d_2" "d_1", .promote "d_1" "d_2", .create "d_3" 3 readyRow,
    .deploy "d_3"]

/-- The second demotion of `d_1` uses its idempotency key again, and nothing stops `d_1`. -/
theorem secondDemotion_left_running :
    ∃ past f, Run (Fleet.perform shop) firstRelease past f ∧ firstRelease.Regular ∧
      f.db.currentDeploymentId = some "d_3" ∧ f.desired "d_1" = some .running ∧
      (f.objects "d_1").transition = none ∧ ¬ AccountedAfterSwap past f := by
  refine Run.exists_of_record (P := fun past f => f.db.currentDeploymentId = some "d_3" ∧
      f.desired "d_1" = some .running ∧ (f.objects "d_1").transition = none ∧
      rolledBackFrom past = [] ∧ past.head?.map (fun y => y.2.swaps) = some true ∧
      past.any (fun y => y.1.db.currentDeploymentId == some "d_1") = true)
    secondDemotion (by decide +kernel) ?_
  rintro past f hrun ⟨hcur, hdesired, hobj, hledger, hhead, hwas⟩
  refine ⟨firstRelease_regular, hcur, hdesired, hobj,
    not_accountedAfterSwap hhead hwas ?_ hdesired hobj ?_⟩
  · rw [hcur]
    decide
  · rw [hledger]
    exact List.not_mem_nil

end Shop

end Unkey.Standby
