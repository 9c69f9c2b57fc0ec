import Unkey.Deploy.RollbackHolds

/-!
# Live routes and the live pointer

Promote and Rollback move the live routes and the live pointer in one step.
-/

namespace Unkey.Deploy

open Unkey.Base

variable {S : Setting}

/-- Every live route points at the current deployment. -/
def LiveAgrees (S : Setting) (db : Db) : Prop :=
  ∀ r ∈ db.routes, r.IsLive S → some r.deploymentId = db.currentDeploymentId

def DeployPc.afterAssign : DeployPc → Bool
  | .finalizing | .swapping => true
  | _ => false

def Flow.between : Flow → Bool
  | .deploy l pc => !l.inserted.isEmpty || pc.afterAssign
  | _ => false

/-- A Deploy that has inserted a live route, or has assigned routes and will move the pointer. -/
def Flow.Dirty (S : Setting) (t : Table) : Flow → Prop
  | .deploy l pc => (∃ r ∈ t, r.id ∈ l.inserted ∧ r.IsLive S) ∨
      pc.afterAssign = true ∧ l.appIsRolledBack = false
  | _ => False

instance (S : Setting) (t : Table) (f : Flow) : Decidable (f.Dirty S t) := by
  cases f <;> unfold Flow.Dirty <;> infer_instance

/-- No other workflow has routes of its own on the way to being live. -/
def Undisturbed (S : Setting) (s : World) (w : Nat) : Prop :=
  ∀ w' < s.flows.length, w' ≠ w → ¬ (s.flow w').Dirty S s.db.routes

instance (S : Setting) (s : World) (w : Nat) : Decidable (Undisturbed S s w) := by
  unfold Undisturbed
  infer_instance

def Covers (S : Setting) (t : Table) (ids : List Nat) : Prop :=
  ∀ r ∈ t, r.IsLive S → r.id ∈ ids

instance (S : Setting) (t : Table) (ids : List Nat) : Decidable (Covers S t ids) := by
  unfold Covers
  infer_instance

def Avoids (S : Setting) (t : Table) (ids : List Nat) : Prop :=
  ∀ r ∈ t, r.IsLive S → r.id ∉ ids

instance (S : Setting) (t : Table) (ids : List Nat) : Decidable (Avoids S t ids) := by
  unfold Avoids
  infer_instance

def Flow.Careful (S : Setting) (s : World) (w : Nat) : Flow → Prop
  -- creating a live route
  | .deploy l (.network (domain :: _)) =>
    domain.sticky = .live → findFrontlineRouteByFQDN s.db.routes domain.domain = none →
      l.appIsRolledBack = false ∧ Undisturbed S s w
  | .deploy l .assigning =>
    if l.appIsRolledBack = true then Avoids S s.db.routes (l.routeIDs ++ l.existingRouteIDs)
    else Undisturbed S s w ∧ Covers S s.db.routes (l.routeIDs ++ l.existingRouteIDs)
  | .rollback _ _ (.swapping routeIDs) => Undisturbed S s w ∧ Covers S s.db.routes routeIDs
  | .promote target (.swapping confirming routeIDs) => Undisturbed S s w ∧
    if confirming = true then s.db.currentDeploymentId = some target
    else Covers S s.db.routes routeIDs
  | _ => True

instance (S : Setting) (s : World) (w : Nat) : (f : Flow) → Decidable (f.Careful S s w)
  | .deploy l (.network (domain :: _)) => inferInstanceAs (Decidable (domain.sticky = .live →
      findFrontlineRouteByFQDN s.db.routes domain.domain = none →
      l.appIsRolledBack = false ∧ Undisturbed S s w))
  | .deploy l .assigning => inferInstanceAs (Decidable (if l.appIsRolledBack = true
      then Avoids S s.db.routes (l.routeIDs ++ l.existingRouteIDs)
      else Undisturbed S s w ∧ Covers S s.db.routes (l.routeIDs ++ l.existingRouteIDs)))
  | .rollback _ _ (.swapping routeIDs) =>
    inferInstanceAs (Decidable (Undisturbed S s w ∧ Covers S s.db.routes routeIDs))
  | .promote target (.swapping confirming routeIDs) =>
    inferInstanceAs (Decidable (Undisturbed S s w ∧ if confirming = true
      then s.db.currentDeploymentId = some target else Covers S s.db.routes routeIDs))
  | .deploy _ .starting | .deploy _ (.network []) | .deploy _ .findingSticky
  | .deploy _ .finalizing | .deploy _ .swapping | .rollback _ _ .findingSource
  | .rollback _ _ .findingTarget | .rollback _ _ (.findingApp _)
  | .rollback _ _ (.findingEnvironment _ _) | .rollback _ _ .findingRoutes
  | .promote _ .findingTarget | .promote _ (.findingApp _)
  | .promote _ (.findingEnvironment _ _ _) | .promote _ .findingRoutes | .done => .isTrue trivial

/-- The condition on a run: each step meets `Flow.Careful`, and no dirty workflow fails. -/
def Careful (S : Setting) (_past : List (World × Label)) (s : World) : Label → Prop
  | .step w => (s.flow w).Careful S s w
  | .fail w => ¬ (s.flow w).Dirty S s.db.routes
  | _ => True

instance (S : Setting) (past : List (World × Label)) (s : World) :
    (a : Label) → Decidable (Careful S past s a)
  | .step w => inferInstanceAs (Decidable ((s.flow w).Careful S s w))
  | .fail w => inferInstanceAs (Decidable (¬ (s.flow w).Dirty S s.db.routes))
  | .start _ | .external _ _ => .isTrue trivial

def Flow.Bounded (n : Nat) : Flow → Prop
  | .deploy l pc => (∀ id ∈ l.inserted, id < n) ∧ (pc = .starting → l.inserted = [])
  | _ => True

def Flow.Ahead (S : Setting) (db : Db) : Flow → Prop
  | .deploy l pc => l.appIsRolledBack = false ∧ ∀ r ∈ db.routes, r.IsLive S →
      if pc.afterAssign = true then r.deploymentId = l.deployment.id
      else some r.deploymentId = db.currentDeploymentId ∨ r.id ∈ l.inserted
  | _ => False

def Flow.Accounts (S : Setting) (db : Db) (f : Flow) : Prop :=
  f.Ahead S db ∨ ¬ f.Dirty S db.routes ∧ LiveAgrees S db

/-- What holds in every state of a careful run: all workflows but one are clean, and that one
accounts for the live routes. -/
structure Agreement (S : Setting) (db : Db) (flow : Nat → Flow) : Prop where
  bounded : ∀ w, (flow w).Bounded db.routes.length
  single : ∃ w, (∀ w', w' ≠ w → ¬ (flow w').Dirty S db.routes) ∧ (flow w).Accounts S db

theorem agreement_fresh : Agreement S World.fresh.db World.fresh.flow :=
  ⟨fun _ => trivial, 0, fun _ _ => id, .inr ⟨id, nofun⟩⟩

theorem flow_of_length_le {s : World} {w : Nat} (h : s.flows.length ≤ w) : s.flow w = .done := by
  simp [World.flow, List.getElem?_eq_none h]

theorem not_dirty_of_undisturbed {s : World} {w : Nat} (h : Undisturbed S s w) :
    ∀ w', w' ≠ w → ¬ (s.flow w').Dirty S s.db.routes := by
  intro w' hne
  by_cases hlt : w' < s.flows.length
  · exact h w' hlt hne
  · rw [flow_of_length_le (Nat.le_of_not_lt hlt)]
    exact id

theorem set_flow (s : World) (db : Db) (w : Nat) {f : Flow} (hdone : s.flow w = .done → f = .done) :
    (World.mk db (s.flows.set w f)).flow = Function.update s.flow w f := by
  funext w'
  rw [flow_set]
  by_cases hw : w' = w
  · grind [flow_of_length_le, Nat.le_of_not_lt]
  · simp [hw]

variable {f f' : Flow} {t : Table} {db db' : Db} {flow : Nat → Flow} {w : Nat}

theorem Flow.Accounts.agrees (h : f.Accounts S db) (hd : ¬ f.Dirty S db.routes) :
    LiveAgrees S db := by
  rcases h with h | h
  · cases f with
    | deploy l pc =>
      obtain ⟨hflag, hrows⟩ := h
      intro r hr hlive
      have hpc : pc.afterAssign ≠ true := fun hpc => hd (.inr ⟨hpc, hflag⟩)
      have hrow := hrows r hr hlive
      rw [if_neg hpc] at hrow
      exact hrow.resolve_right fun hid => hd (.inl ⟨r, hr, hid, hlive⟩)
    | _ => exact h.elim
  · exact h.2

theorem Agreement.cases (h : Agreement S db flow) (w : Nat) :
    (∀ w', w' ≠ w → ¬ (flow w').Dirty S db.routes) ∧ (flow w).Accounts S db ∨
    ¬ (flow w).Dirty S db.routes ∧ ∃ v, v ≠ w ∧ (∀ w', w' ≠ v → ¬ (flow w').Dirty S db.routes) ∧
      (flow v).Dirty S db.routes ∧ (flow v).Ahead S db := by
  obtain ⟨v, hclean, hrows⟩ := h.single
  by_cases hv : v = w
  · subst hv
    exact .inl ⟨hclean, hrows⟩
  · by_cases hd : (flow v).Dirty S db.routes
    · exact .inr ⟨hclean w (Ne.symm hv), v, hv, hclean, hd, hrows.resolve_right fun h => h.1 hd⟩
    · refine .inl ⟨fun w' _ => ?_, .inr ⟨hclean w (Ne.symm hv), hrows.agrees hd⟩⟩
      by_cases hw : w' = v
      · exact hw ▸ hd
      · exact hclean w' hw

theorem Agreement.update (h : Agreement S db flow) (hlen : db.routes.length ≤ db'.routes.length)
    (hbounded : f'.Bounded db'.routes.length)
    (hothers : ∀ w', w' ≠ w → (flow w').Dirty S db'.routes → (flow w').Dirty S db.routes)
    (hown : (∀ w', w' ≠ w → ¬ (flow w').Dirty S db.routes) → (flow w).Accounts S db →
      f'.Accounts S db')
    (hother : ∀ v, v ≠ w → (flow v).Dirty S db.routes → (flow v).Ahead S db →
      ¬ (flow w).Dirty S db.routes → ¬ f'.Dirty S db'.routes ∧ (flow v).Ahead S db') :
    Agreement S db' (Function.update flow w f') := by
  refine ⟨(Function.forall_update_iff flow fun _ f => f.Bounded _).mpr ⟨hbounded, ?_⟩, ?_⟩
  · intro w' _
    have hold := h.bounded w'
    cases hw' : flow w' with
    | deploy l pc =>
      rw [hw'] at hold
      exact ⟨fun id hid => Nat.lt_of_lt_of_le (hold.1 id hid) hlen, hold.2⟩
    | _ => trivial
  · rcases h.cases w with ⟨hclean, hrows⟩ | ⟨hw, v, hv, hclean, hd, hahead⟩
    · refine ⟨w, fun w' hw' hd => ?_, ?_⟩
      · rw [Function.update_of_ne hw'] at hd
        exact hclean w' hw' (hothers w' hw' hd)
      · rw [Function.update_self]
        exact hown hclean hrows
    · obtain ⟨hf', hv'⟩ := hother v hv hd hahead hw
      refine ⟨v, (Function.forall_update_iff flow fun w' f => w' ≠ v → ¬ f.Dirty S _).mpr
        ⟨fun _ => hf', fun w' hw' hne hd' => hclean w' hne (hothers w' hw' hd')⟩, ?_⟩
      rw [Function.update_of_ne hv]
      exact .inl hv'

structure SameLive (S : Setting) (db db' : Db) : Prop where
  rows : ∀ r : FrontlineRoute, r.IsLive S → (r ∈ db'.routes ↔ r ∈ db.routes)
  current : db'.currentDeploymentId = db.currentDeploymentId

namespace SameLive

theorem of_routes (hroutes : db'.routes = db.routes)
    (hcur : db'.currentDeploymentId = db.currentDeploymentId) : SameLive S db db' :=
  ⟨fun _ _ => by rw [hroutes], hcur⟩

theorem dirty (h : SameLive S db db') (hd : f.Dirty S db'.routes) : f.Dirty S db.routes := by
  cases f with
  | deploy l pc =>
    refine hd.imp_left ?_
    rintro ⟨r, hr, hid, hlive⟩
    exact ⟨r, (h.rows r hlive).mp hr, hid, hlive⟩
  | _ => exact hd

theorem agrees (h : SameLive S db db') (ha : LiveAgrees S db) : LiveAgrees S db' := by
  intro r hr hlive
  rw [h.current]
  exact ha r ((h.rows r hlive).mp hr) hlive

theorem ahead (h : SameLive S db db') (ha : f.Ahead S db) : f.Ahead S db' := by
  cases f with
  | deploy l pc =>
    refine ⟨ha.1, fun r hr hlive => ?_⟩
    rw [h.current]
    exact ha.2 r ((h.rows r hlive).mp hr) hlive
  | _ => exact ha

end SameLive

theorem Agreement.calm (h : Agreement S db flow) (hsame : SameLive S db db')
    (hlen : db'.routes.length = db.routes.length) (hf : ¬ (flow w).Dirty S db.routes)
    (hf' : ¬ f'.Dirty S db'.routes) (hbounded : f'.Bounded db'.routes.length) :
    Agreement S db' (Function.update flow w f') :=
  h.update (Nat.le_of_eq hlen.symm) hbounded (fun _ _ => hsame.dirty)
    (fun _ hrows => .inr ⟨hf', hsame.agrees (hrows.agrees hf)⟩)
    fun _ _ _ hahead _ => ⟨hf', hsame.ahead hahead⟩

theorem Agreement.read (h : Agreement S db flow) (hf : ¬ (flow w).Dirty S db.routes)
    (hf' : ∀ l pc, f' ≠ .deploy l pc) : Agreement S db (Function.update flow w f') := by
  cases f' with
  | deploy l pc => exact absurd rfl (hf' l pc)
  | _ => exact h.calm (.of_routes rfl rfl) rfl hf id trivial

variable {l l' : DeployLocals} {pc pc' : DeployPc}

theorem Agreement.advance (h : Agreement S db flow) (hflow : flow w = .deploy l pc)
    (hroutes : db'.routes = db.routes) (hcur : db'.currentDeploymentId = db.currentDeploymentId)
    (hd : l'.deployment = l.deployment) (hi : l'.inserted = l.inserted)
    (hf : l'.appIsRolledBack = l.appIsRolledBack) (hpc : pc'.afterAssign = pc.afterAssign)
    (hs : pc' ≠ .starting) : Agreement S db' (Function.update flow w (.deploy l' pc')) := by
  have hsame : SameLive S db db' := .of_routes hroutes hcur
  have hdirty : (Flow.deploy l' pc').Dirty S db'.routes → (flow w).Dirty S db.routes := by
    rw [hflow, hroutes, Flow.Dirty, Flow.Dirty, hi, hf, hpc]
    exact id
  have hahead : (flow w).Ahead S db → (Flow.deploy l' pc').Ahead S db' := by
    rw [hflow, Flow.Ahead, Flow.Ahead, hd, hi, hf, hpc, hroutes, hcur]
    exact id
  refine h.update (Nat.le_of_eq (by rw [hroutes])) ⟨?_, fun heq => absurd heq hs⟩
    (fun _ _ => hsame.dirty) (fun _ hrows => ?_) fun _ _ _ ha hw => ⟨hw ∘ hdirty, hsame.ahead ha⟩
  · have hold := h.bounded w
    rw [hflow] at hold
    rw [hi, hroutes]
    exact hold.1
  · exact hrows.imp hahead fun ⟨hw, hagree⟩ => ⟨hw ∘ hdirty, hsame.agrees hagree⟩

theorem Agreement.not_dirty_of_flag (h : Agreement S db flow) (hflow : flow w = .deploy l pc)
    (hflag : l.appIsRolledBack = true) : ¬ (flow w).Dirty S db.routes := by
  rcases h.cases w with ⟨-, hahead | hclean⟩ | ⟨hclean, -⟩
  · rw [hflow] at hahead
    exact absurd hahead.1 (by simp [hflag])
  · exact hclean.1
  · exact hclean

/-! ### Creating a route -/

section Insert

variable {domain : NewDomain} {rest : List NewDomain}

theorem dirty_of_dirty_insert {d : Deployment} (hold : f.Bounded t.length)
    (hd : f.Dirty S (insertFrontlineRoute t d domain)) : f.Dirty S t := by
  cases f with
  | deploy l pc =>
    refine hd.imp_left ?_
    rintro ⟨r, hr, hid, hlive⟩
    rcases List.mem_append.mp hr with hr | hr
    · exact ⟨r, hr, hid, hlive⟩
    · cases List.mem_singleton.mp hr
      exact absurd (hold.1 _ hid) (Nat.lt_irrefl _)
  | _ => exact hd

theorem sameLive_insert (db : Db) {d : Deployment} (hsticky : domain.sticky ≠ .live) :
    SameLive S db { db with routes := insertFrontlineRoute db.routes d domain } := by
  refine ⟨fun r hlive => ⟨fun hr => ?_, List.mem_append_left _⟩, rfl⟩
  refine (List.mem_append.mp hr).resolve_right fun hr => hsticky ?_
  cases List.mem_singleton.mp hr
  exact hlive.2

theorem dirty_of_dirty_note (hn : Numbered t)
    (hd : (Flow.deploy { l with inserted := l.inserted ++ [t.length] } (.network rest)).Dirty S t) :
    (Flow.deploy l (.network (domain :: rest))).Dirty S t := by
  refine hd.imp ?_ id
  rintro ⟨r, hr, hid, hlive⟩
  refine ⟨r, hr, (List.mem_append.mp hid).resolve_right fun hid => ?_, hlive⟩
  exact absurd (hn.lt hr) (by simp [List.mem_singleton.mp hid])

theorem Agreement.insert (h : Agreement S db flow) (hn : Numbered db.routes)
    (hflow : flow w = .deploy l (.network (domain :: rest)))
    (hcare : domain.sticky = .live → l.appIsRolledBack = false ∧
      ∀ w', w' ≠ w → ¬ (flow w').Dirty S db.routes) :
    Agreement S { db with routes := insertFrontlineRoute db.routes l.deployment domain }
      (Function.update flow w
        (.deploy { l with inserted := l.inserted ++ [db.routes.length] } (.network rest))) := by
  have hold := h.bounded w
  rw [hflow] at hold
  -- with a route that is not live, the workflow is as dirty as before
  have hback : domain.sticky ≠ .live → ¬ (flow w).Dirty S db.routes →
      ¬ (Flow.deploy { l with inserted := l.inserted ++ [db.routes.length] }
        (.network rest)).Dirty S (insertFrontlineRoute db.routes l.deployment domain) := by
    intro hsticky hw hd
    rw [hflow] at hw
    exact hw (dirty_of_dirty_note hn ((sameLive_insert db hsticky).dirty hd))
  refine h.update (by simp [insertFrontlineRoute]) ⟨?_, by simp⟩
    (fun w' _ => dirty_of_dirty_insert (h.bounded w')) (fun _ hrows => ?_) ?_
  · simp only [insertFrontlineRoute, List.length_append, List.length_singleton]
    refine List.forall_mem_append.mpr ⟨fun id hid => Nat.lt_succ_of_lt (hold.1 id hid), ?_⟩
    exact List.forall_mem_singleton.mpr (Nat.lt_succ_self _)
  · by_cases hsticky : domain.sticky = .live
    · refine .inl ⟨(hcare hsticky).1, List.forall_mem_append.mpr ⟨fun r hr hlive => ?_, ?_⟩⟩
      · rcases hrows with hahead | hclean
        · rw [hflow] at hahead
          exact (hahead.2 r hr hlive).imp_right (List.mem_append_left _)
        · exact .inl (hclean.2 r hr hlive)
      · exact List.forall_mem_singleton.mpr fun _ => .inr (by simp)
    · have hsame := sameLive_insert (S := S) db (d := l.deployment) hsticky
      refine hrows.imp (fun hahead => ?_) fun hclean =>
        ⟨hback hsticky hclean.1, hsame.agrees hclean.2⟩
      rw [hflow] at hahead
      refine hsame.ahead (f := .deploy _ _) ⟨hahead.1, fun r hr hlive => ?_⟩
      exact (hahead.2 r hr hlive).imp_right (List.mem_append_left _)
  · intro v hv hd hahead hw
    have hsticky : domain.sticky ≠ .live := fun hsticky => (hcare hsticky).2 v hv hd
    exact ⟨hback hsticky hw, (sameLive_insert _ hsticky).ahead hahead⟩

end Insert

/-! ### Reassigning routes -/

theorem assign_length (t : Table) (deploymentId : String) (ids : List Nat) :
    (assignFrontlineRoutes t deploymentId ids).length = t.length := List.length_map _

variable {deploymentId : String} {ids : List Nat}

theorem mem_assign {r' : FrontlineRoute} (h : r' ∈ assignFrontlineRoutes t deploymentId ids) :
    ∃ r ∈ t, r'.id = r.id ∧ (r'.IsLive S ↔ r.IsLive S) ∧
      (r.id ∈ ids → r'.deploymentId = deploymentId) ∧ (r.id ∉ ids → r' = r) := by
  obtain ⟨r, hr, rfl⟩ := List.mem_map.mp h
  refine ⟨r, hr, ?_⟩
  by_cases hid : r.id ∈ ids
  · rw [if_pos hid]
    exact ⟨rfl, Iff.rfl, fun _ => rfl, fun hn => absurd hid hn⟩
  · rw [if_neg hid]
    exact ⟨rfl, Iff.rfl, fun hf => absurd hf hid, fun _ => rfl⟩

theorem sameLive_assign (h : Avoids S db.routes ids) :
    SameLive S db { db with routes := assignFrontlineRoutes db.routes deploymentId ids } := by
  refine ⟨fun r hlive => ⟨fun hr => ?_, fun hr => ?_⟩, rfl⟩
  · obtain ⟨r₀, hr₀, -, hiff, -, hsame⟩ := mem_assign (S := S) hr
    rw [hsame (h r₀ hr₀ (hiff.mp hlive))]
    exact hr₀
  · exact mem_assign_of_not_mem hr deploymentId (h r hr hlive)

theorem deployment_of_covers
    (h : Covers S t ids) {r : FrontlineRoute} (hr : r ∈ assignFrontlineRoutes t deploymentId ids)
    (hlive : r.IsLive S) : r.deploymentId = deploymentId := by
  obtain ⟨r₀, hr₀, -, hiff, hnew, -⟩ := mem_assign (S := S) hr
  exact hnew (h r₀ hr₀ (hiff.mp hlive))

theorem dirty_of_dirty_assign
    (h : f.Dirty S (assignFrontlineRoutes t deploymentId ids)) : f.Dirty S t := by
  cases f with
  | deploy l pc =>
    refine h.imp_left ?_
    rintro ⟨r, hr, hid, hlive⟩
    obtain ⟨r₀, hr₀, hid₀, hiff, -⟩ := mem_assign (S := S) hr
    exact ⟨r₀, hr₀, hid₀ ▸ hid, hiff.mp hlive⟩
  | _ => exact h

theorem Agreement.moved (h : Agreement S db flow)
    (hclean : ∀ w', w' ≠ w → ¬ (flow w').Dirty S db.routes)
    (hroutes : db'.routes = assignFrontlineRoutes db.routes deploymentId ids)
    (hbounded : f'.Bounded db.routes.length) (hf' : f'.Accounts S db') :
    Agreement S db' (Function.update flow w f') := by
  have hlen : db'.routes.length = db.routes.length := by rw [hroutes, assign_length]
  refine h.update (Nat.le_of_eq hlen.symm) (hlen ▸ hbounded) (fun w' _ hd => ?_)
    (fun _ _ => hf') fun v hv hd _ _ => absurd hd (hclean v hv)
  rw [hroutes] at hd
  exact dirty_of_dirty_assign hd

theorem Agreement.swap (h : Agreement S db flow) {target : String} (flag : Bool)
    (hclean : ∀ w', w' ≠ w → ¬ (flow w').Dirty S db.routes)
    (hrows : ∀ r ∈ assignFrontlineRoutes db.routes target ids, r.IsLive S →
      r.deploymentId = target) :
    Agreement S (swapLiveDeployment db target ids flag) (Function.update flow w .done) :=
  h.moved hclean rfl trivial (.inr ⟨id, fun r hr hlive => congrArg some (hrows r hr hlive)⟩)

/-! ### The steps of the workflows -/

section Steps

variable {s s' : World}

theorem Agreement.assigning (h : Agreement S s.db s.flow) (hflow : s.flow w = .deploy l .assigning)
    (hc : (Flow.deploy l .assigning).Careful S s w) :
    Agreement S (deployStep S s.db l .assigning).1
      (Function.update s.flow w (.deploy l .finalizing)) := by
  have hold := h.bounded w
  rw [hflow] at hold
  cases hflag : l.appIsRolledBack with
  | false =>
    simp only [Flow.Careful, hflag, Bool.false_eq_true, if_false] at hc
    exact h.moved (not_dirty_of_undisturbed hc.1) rfl ⟨hold.1, by simp⟩
      (.inl ⟨hflag, fun r hr hlive => deployment_of_covers hc.2 hr hlive⟩)
  | true =>
    simp only [Flow.Careful, hflag, if_true] at hc
    have hclean := h.not_dirty_of_flag hflow hflag
    have hlen := assign_length s.db.routes l.deployment.id (l.routeIDs ++ l.existingRouteIDs)
    refine h.calm (sameLive_assign hc) hlen hclean ?_ ⟨hlen ▸ hold.1, by simp⟩
    intro hd
    rw [hflow] at hclean
    exact hclean ((dirty_of_dirty_assign hd).imp_right fun hand => by simp [hflag] at hand)

theorem Agreement.finish (h : Agreement S db flow) (hflow : flow w = .deploy l .swapping) :
    Agreement S (deployStep S db l .swapping).1
      (Function.update flow w (deployStep S db l .swapping).2) := by
  cases hflag : l.appIsRolledBack with
  | true =>
    simp only [deployStep, hflag, if_true]
    exact h.read (h.not_dirty_of_flag hflow hflag) (by simp)
  | false =>
    simp only [deployStep, hflag, Bool.false_eq_true, if_false]
    have hd : (flow w).Dirty S db.routes := by
      rw [hflow]
      exact .inr ⟨rfl, hflag⟩
    rcases h.cases w with ⟨hclean, hrows⟩ | ⟨hclean, -⟩
    · refine h.swap false hclean fun r hr hlive => ?_
      obtain ⟨r₀, hr₀, -, hiff, -, hsame⟩ := mem_assign (S := S) hr
      have hahead := hrows.resolve_right fun hand => hand.1 hd
      rw [hflow] at hahead
      rw [hsame (by simp)]
      exact hahead.2 r₀ hr₀ (hiff.mp hlive)
    · exact absurd hd hclean

theorem Agreement.deploy (h : Agreement S s.db s.flow) (hn : Numbered s.db.routes)
    (hflow : s.flow w = .deploy l pc) (hc : (Flow.deploy l pc).Careful S s w) :
    Agreement S (deployStep S s.db l pc).1
      (Function.update s.flow w (deployStep S s.db l pc).2) := by
  have hold := h.bounded w
  rw [hflow] at hold
  cases pc with
  | starting =>
    have hins := hold.2 rfl
    refine h.calm (.of_routes rfl rfl) rfl ?_ ?_ ⟨by simp [hins], by simp⟩
    · rw [hflow]
      simp [Flow.Dirty, hins, DeployPc.afterAssign]
    · simp [deployStep, Flow.Dirty, hins, DeployPc.afterAssign]
  | network rest =>
    cases rest with
    | nil => exact h.advance hflow rfl rfl rfl rfl rfl rfl (by simp)
    | cons domain rest =>
      cases hfind : findFrontlineRouteByFQDN s.db.routes domain.domain with
      | some found =>
        simp only [deployStep, upsertRoute, hfind]
        exact h.advance hflow rfl rfl rfl rfl rfl rfl (by simp)
      | none =>
        simp only [deployStep, upsertRoute, hfind]
        exact h.insert hn hflow fun hlive =>
          (hc hlive hfind).imp_right not_dirty_of_undisturbed
  | findingSticky => exact h.advance hflow rfl rfl rfl rfl rfl rfl (by simp)
  | assigning => exact h.assigning hflow hc
  | finalizing => exact h.advance hflow rfl rfl rfl rfl rfl rfl (by simp)
  | swapping => exact h.finish hflow

theorem Agreement.rollback (h : Agreement S s.db s.flow) {source target : String} {pc : RollbackPc}
    (hflow : s.flow w = .rollback source target pc)
    (hc : (Flow.rollback source target pc).Careful S s w) :
    Agreement S (rollbackStep S s.db source target pc).1
      (Function.update s.flow w (rollbackStep S s.db source target pc).2) := by
  cases pc with
  | swapping routeIDs =>
    exact h.swap true (not_dirty_of_undisturbed hc.1) fun r hr => deployment_of_covers hc.2 hr
  | _ =>
    simp only [rollbackStep]
    repeat' split
    all_goals exact h.read (by rw [hflow]; exact id) (by simp)

theorem Agreement.promote (h : Agreement S s.db s.flow) {target : String} {pc : PromotePc}
    (hflow : s.flow w = .promote target pc) (hc : (Flow.promote target pc).Careful S s w) :
    Agreement S (promoteStep S s.db target pc).1
      (Function.update s.flow w (promoteStep S s.db target pc).2) := by
  have hnot : ¬ (s.flow w).Dirty S s.db.routes := by
    rw [hflow]
    exact id
  cases pc with
  | swapping confirming routeIDs =>
    obtain ⟨hun, hcase⟩ := hc
    refine h.swap false (not_dirty_of_undisturbed hun) fun r hr hlive => ?_
    cases confirming with
    | false => exact deployment_of_covers hcase hr hlive
    | true =>
      -- a confirmed rollback finds the routes at its target
      obtain ⟨r₀, hr₀, -, hiff, hnew, hsame⟩ := mem_assign (S := S) hr
      by_cases hid : r₀.id ∈ routeIDs
      · exact hnew hid
      · have hagree : LiveAgrees S s.db := by
          rcases h.cases w with ⟨-, hrows⟩ | ⟨-, v, hv, -, hd, -⟩
          · exact hrows.agrees hnot
          · exact absurd hd (not_dirty_of_undisturbed hun v hv)
        have hcur := hagree r₀ hr₀ (hiff.mp hlive)
        rw [hcase] at hcur
        rw [hsame hid]
        exact Option.some.inj hcur
  | _ =>
    simp only [promoteStep]
    repeat' split
    all_goals exact h.read hnot (by simp)

theorem agreement_step {past : List (World × Label)} {a : Label} (h : Agreement S s.db s.flow)
    (hn : Numbered s.db.routes) (hc : Careful S past s a) (hs : World.step S s a = some s') :
    Agreement S s'.db s'.flow := by
  cases a with
  | start r =>
    simp only [World.step] at hs
    split at hs
    · cases hs
      have hdone : s.flow s.flows.length = .done := flow_of_length_le (Nat.le_refl _)
      have hflow : (World.mk s.db (s.flows ++ [r.flow])).flow
          = Function.update s.flow s.flows.length r.flow := by
        funext w
        rw [flow_append, Function.update_apply]
      show Agreement S s.db (World.mk s.db _).flow
      rw [hflow]
      refine h.calm (.of_routes rfl rfl) rfl (by rw [hdone]; exact id) ?_ ?_
      · cases r <;> simp [Request.flow, Flow.Dirty, DeployPc.afterAssign]
      · cases r <;> simp [Request.flow, Flow.Bounded]
    · cases hs
  | step w =>
    cases hs
    show Agreement S _ (World.mk _ (s.flows.set w _)).flow
    rw [set_flow s _ w fun hdone => by rw [hdone]; rfl]
    have hcare : (s.flow w).Careful S s w := hc
    cases hflow : s.flow w with
    | deploy l pc => exact h.deploy hn hflow (hflow ▸ hcare)
    | rollback source target pc => exact h.rollback hflow (hflow ▸ hcare)
    | promote target pc => exact h.promote hflow (hflow ▸ hcare)
    | done => exact h.read (by rw [hflow]; exact id) (by simp [flowStep])
  | fail w =>
    cases hs
    show Agreement S _ (World.mk _ (s.flows.set w _)).flow
    rw [set_flow s _ w fun _ => rfl]
    exact h.read hc (by simp)
  | external deploymentId row =>
    cases hs
    have hsame : SameLive S s.db { s.db with rows := Function.update s.db.rows deploymentId row } :=
      .of_routes rfl rfl
    obtain ⟨w, hclean, hrows⟩ := h.single
    exact ⟨h.bounded, w, hclean, hrows.imp hsame.ahead (And.imp_right hsame.agrees)⟩

end Steps

theorem between_of_dirty (h : f.Dirty S t) : f.between = true := by
  cases f with
  | deploy l pc =>
    rcases h with ⟨r, -, hid, -⟩ | ⟨hpc, -⟩
    · have hne : l.inserted.isEmpty = false := by
        cases hl : l.inserted with
        | nil => simp [hl] at hid
        | cons id ids => rfl
      simp [Flow.between, hne]
    · simp [Flow.between, hpc]
  | _ => exact h.elim

/-- In every state that a careful run reaches, if no workflow is between its first
write of a route and its pointer swap and the app is not rolled back, every live route
points at the app's current deployment. -/
theorem live_agrees_run {past : List (World × Label)} {s : World}
    (h : Run (World.step S) World.fresh past s) (hc : Always (Careful S) past)
    (hquiet : ∀ w, (s.flow w).between = false) (_hrolled : s.db.isRolledBack = false) :
    LiveAgrees S s.db := by
  have hinv := h.invariant_always (C := Careful S)
    (P := fun _ s => Collected S s ∧ Agreement S s.db s.flow) ⟨collected_fresh, agreement_fresh⟩
    (fun past s a s' hinv hcare hs =>
      ⟨collected_step hinv.1 hs, agreement_step hinv.2 hinv.1.numbered hcare hs⟩) hc
  have hclean : ∀ w, ¬ (s.flow w).Dirty S s.db.routes := by
    intro w hd
    have hbetween := between_of_dirty hd
    rw [hquiet w] at hbetween
    cases hbetween
  obtain ⟨w, -, hrows⟩ := hinv.2.single
  exact hrows.agrees (hclean w)

section Shop

theorem flow_between (s : World) (w : Nat) :
    (s.flow w).between = (s.flows.map Flow.between).getD w false := by
  simp only [World.flow, List.getD_eq_getElem?_getD, List.getElem?_map]
  cases s.flows[w]? <;> rfl

theorem live_agrees_run_releases :
    ∃ past s, Run (World.step shop) World.fresh past s ∧ Always (Careful shop) past ∧
      s.db.currentDeploymentId = some "d_2" ∧ LiveAgrees shop s.db := by
  refine Run.exists_of_record (P := fun past s => Always (Careful shop) past ∧
      s.flows.map Flow.between = [false, false] ∧ s.db.isRolledBack = false ∧
      s.db.currentDeploymentId = some "d_2")
    (deploys 0 "d_1" ++ deploys 1 "d_2") (by decide +kernel) ?_
  rintro past s hrun ⟨hcare, hbetween, hrolled, hcur⟩
  refine ⟨hcare, hcur, live_agrees_run hrun hcare (fun w => ?_) hrolled⟩
  rw [flow_between, hbetween]
  match w with
  | 0 | 1 | _ + 2 => rfl

def crossedReleases : List Label :=
  begins "d_1" ++ begins "d_2" ++ List.replicate 7 (Label.step 0) ++
    List.replicate 9 (Label.step 1) ++ List.replicate 2 (Label.step 0)

theorem crossedReleases_disagree :
    ∃ past s, Run (World.step shop) World.fresh past s ∧ (∀ w, (s.flow w).between = false) ∧
      s.db.isRolledBack = false ∧ ¬ LiveAgrees shop s.db := by
  refine Run.exists_of_record (P := fun _ s => s.flows.map Flow.between = [false, false] ∧
      s.db.isRolledBack = false ∧ liveTargets shop s.db.routes = [(1, "d_2")] ∧
      s.db.currentDeploymentId = some "d_1")
    crossedReleases (by decide +kernel) ?_
  rintro past s hrun ⟨hbetween, hrolled, hlive, hcur⟩
  refine ⟨fun w => ?_, hrolled, fun hagree => ?_⟩
  · rw [flow_between, hbetween]
    match w with
    | 0 | 1 | _ + 2 => rfl
  · have hmem : (1, "d_2") ∈ liveTargets shop s.db.routes := by simp [hlive]
    obtain ⟨r, hr, htarget⟩ := List.mem_map.mp hmem
    obtain ⟨hr, hl⟩ := List.mem_filter.mp hr
    have heq := hagree r hr (of_decide_eq_true hl)
    rw [hcur, (Prod.mk.inj htarget).2] at heq
    exact absurd (Option.some.inj heq) (by decide)

end Shop

end Unkey.Deploy
