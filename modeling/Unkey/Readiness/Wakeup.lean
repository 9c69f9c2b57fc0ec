import Unkey.Readiness.Notify

/-!
# Wake-ups of a parked deployment

A report that meets the threshold stays quiet when the expiring set has the deployment already.
-/

namespace Unkey.Readiness

open Unkey.Base

/-- How far a thread has come: a report has stored its instances, has found the threshold met, or
is about to send; the wait has stored its awakeable, is about to resolve it, waits, or has woken. -/
inductive Stage where
  | idle
  | committed
  | met
  | sending
  | checking
  | resolving
  | parked
  | leaving
  deriving DecidableEq

def Stage.reports : Stage → Bool
  | .committed | .met | .sending => true
  | .idle | .checking | .resolving | .parked | .leaving => false

def Stage.waits : Stage → Bool
  | .checking | .resolving | .parked | .leaving => true
  | .idle | .committed | .met | .sending => false

def Stage.listens : Stage → Bool
  | .checking | .resolving | .parked => true
  | .idle | .committed | .met | .sending | .leaving => false

structure Woken (d : Deployment) (s : State) (_ : List (Call × Empty)) (gs : Nat → Stage) :
    Prop where
  one : ∀ i j, (gs i).waits = true → (gs j).waits = true → i = j
  created : ∀ i, (gs i).waits = true → s.awakeable ≠ .absent
  stored : ∀ i, (gs i).listens = true → s.stored = true
  underway : ∀ i, gs i = .parked → s.awakeable = .pending →
    meetsThreshold d.topologies s.instances = true → 0 < s.sent ∨ ∃ j, (gs j).reports = true

variable {d : Deployment} {s s' : State} {h : List (Call × Empty)} {gs : Nat → Stage} {i : Nat}
  {g : Stage}

theorem Stage.waits_of_listens (hg : g.listens = true) : g.waits = true := by
  cases g <;> first | rfl | cases hg

/-! ### Steps -/

theorem Woken.report (hw : Woken d s h gs) (hi : (gs i).waits = false) (hg : g.waits = false)
    (hawakeable : s'.awakeable = s.awakeable) (hstored : s'.stored = s.stored)
    (hunderway : ∀ k, gs k = .parked → s.awakeable = .pending →
      meetsThreshold d.topologies s'.instances = true →
        0 < s'.sent ∨ ∃ j, (Function.update gs i g j).reports = true) :
    Woken d s' h (Function.update gs i g) := by
  -- the threads that wait are the same as before
  have hwaits : ∀ j, (Function.update gs i g j).waits = true →
      (gs j).waits = true ∧ Function.update gs i g j = gs j := by
    intro j hj
    by_cases hji : j = i
    · subst hji
      rw [Function.update_self, hg] at hj
      cases hj
    · rw [Function.update_of_ne hji] at hj ⊢
      exact ⟨hj, rfl⟩
  refine ⟨?_, ?_, ?_, ?_⟩
  · intro j k hj hk
    exact hw.one j k (hwaits j hj).1 (hwaits k hk).1
  · intro j hj
    rw [hawakeable]
    exact hw.created j (hwaits j hj).1
  · intro j hj
    have hsame := (hwaits j (Stage.waits_of_listens hj)).2
    rw [hsame] at hj
    rw [hstored]
    exact hw.stored j hj
  · intro j hj hpending hmeets
    have hsame := (hwaits j (by rw [hj]; rfl)).2
    rw [hsame] at hj
    rw [hawakeable] at hpending
    exact hunderway j hj hpending hmeets

theorem Woken.of_alone (hother : ∀ j, j ≠ i → (gs j).waits = false)
    (hcreated : g.waits = true → s'.awakeable ≠ .absent)
    (hstored : g.listens = true → s'.stored = true)
    (hunderway : g = .parked → s'.awakeable = .pending →
      meetsThreshold d.topologies s'.instances = true →
        0 < s'.sent ∨ ∃ j, (Function.update gs i g j).reports = true) :
    Woken d s' h (Function.update gs i g) := by
  have hself : ∀ j, (Function.update gs i g j).waits = true → j = i := by
    intro j hj
    by_contra hji
    rw [Function.update_of_ne hji, hother j hji] at hj
    cases hj
  refine ⟨?_, ?_, ?_, ?_⟩
  · intro j k hj hk
    rw [hself j hj, hself k hk]
  · grind
  · grind [Stage.waits_of_listens, Function.update_self]
  · intro j hj hpending hmeets
    have hji := hself j (by rw [hj]; rfl)
    rw [hji, Function.update_self] at hj
    exact hunderway hj hpending hmeets

theorem Woken.alone (hw : Woken d s h gs) (hi : (gs i).waits = true) :
    ∀ j, j ≠ i → (gs j).waits = false := by
  intro j hji
  rw [Bool.eq_false_iff]
  exact fun hj => hji (hw.one j i hj hi)

theorem Woken.delivered (hw : Woken d s h gs) {n : Nat} :
    Woken d (if s.stored then { s with sent := n, awakeable := .resolved }
      else { s with sent := n }) h gs := by
  split
  · exact ⟨hw.one, nofun, hw.stored, nofun⟩
  · rename_i hstored
    refine ⟨hw.one, hw.created, hw.stored, ?_⟩
    intro j hj
    exact absurd (hw.stored j (by rw [hj]; rfl)) hstored

/-! ### Programs -/

/-- The statements of the threshold checks succeed. -/
def Answered (w : ReadinessWorld) : Turn Call Env → Prop
  | .spawn _ => True
  | .run i e => w.next i = some .findTopologyMinReplicas ∨ w.next i = some .findInstances →
    e.fails = false

def Parked (w : ReadinessWorld) : Prop :=
  w.shared.awakeable = .pending ∧
    ∃ t ∈ w.threads, t.call = .waitForDeployments ∧ t.prog.next = some .await

/-- A message is sent and not delivered, or is about to be sent. -/
def Underway (w : ReadinessWorld) : Prop :=
  0 < w.shared.sent ∨ ∃ t ∈ w.threads, t.prog.next = some .send

/-- While `Deploy` is parked, a report that meets the threshold finds the deployment in the set
only as long as a message is under way. -/
def NotSwallowed (w : ReadinessWorld) : Turn Call Env → Prop
  | .spawn _ => True
  | .run i _ => w.next i = some .addIfAbsent → w.shared.notifiedReady = true → Parked w → Underway w

instance (w : ReadinessWorld) (l : Turn Call Env) : Decidable (Answered w l) := by
  cases l <;> unfold Answered <;> infer_instance

instance (w : ReadinessWorld) : Decidable (Parked w) := by
  unfold Parked
  infer_instance

instance (w : ReadinessWorld) : Decidable (Underway w) := by
  unfold Underway
  infer_instance

instance (w : ReadinessWorld) (l : Turn Call Env) : Decidable (NotSwallowed w l) := by
  cases l <;> unfold NotSwallowed <;> infer_instance

structure Stage.At (c : Call) (g : Stage) (op : Op) : Prop where
  call : g.reports = true → c.isReport = true
  parked : g = .parked → c = .waitForDeployments ∧ op = .await
  await : op = .await → g = .parked
  send : op = .send → g = .sending

def waking (d : Deployment) : Protocol State Call Op Op.Ret Empty Env Stage where
  Inv := Woken d
  At := Stage.At
  Guard := fun w l => Answered w l ∧ NotSwallowed w l
  idle := .idle

variable {c : Call} {α : Type}

theorem Stage.At.quiet {op : Op} (hg : g.reports = false) (hparked : g ≠ .parked)
    (hawait : op ≠ .await) (hsend : op ≠ .send) : Stage.At c g op :=
  ⟨(fun hr => by rw [hg] at hr; cases hr), fun hp => absurd hp hparked,
    fun ha => absurd ha hawait, fun hs => absurd hs hsend⟩

theorem Stage.At.report {op : Op} (hc : c.isReport = true) (hparked : g ≠ .parked)
    (hawait : op ≠ .await) (hsend : op ≠ .send) : Stage.At c g op :=
  ⟨fun _ => hc, fun hp => absurd hp hparked, fun ha => absurd ha hawait,
    fun hs => absurd hs hsend⟩

theorem mem_threads_of_isAt {w : ReadinessWorld} {j : Nat} {op : Op} (hat : w.IsAt j c op) :
    ∃ t ∈ w.threads, t.call = c ∧ t.prog.next = some op := by
  obtain ⟨t, ht, hcall, hnext⟩ := hat
  exact ⟨t, List.mem_of_getElem? ht, hcall, hnext⟩

theorem isAt_of_mem_threads {w : ReadinessWorld} {t : Thread Call Op Op.Ret Empty} {op : Op}
    (ht : t ∈ w.threads) (hnext : t.prog.next = some op) : ∃ j, w.IsAt j t.call op := by
  obtain ⟨j, hj⟩ := List.mem_iff_getElem?.mp ht
  exact ⟨j, t, hj, rfl, hnext⟩

theorem Woken.swallowed {w : ReadinessWorld} {e : Env} (hd : (waking d).Describes w gs)
    (hgi : gs i = .met) (hnext : w.next i = some .addIfAbsent)
    (hnotified : w.shared.notifiedReady = true) (hguard : NotSwallowed w (.run i e)) :
    Woken d w.shared w.history (Function.update gs i .idle) := by
  refine hd.inv.report (by rw [hgi]; rfl) rfl rfl rfl ?_
  intro k hk hpending _
  have hparked : Parked w := by
    obtain ⟨c, op, hat⟩ := hd.busy k (by rw [hk]; exact nofun)
    obtain ⟨rfl, rfl⟩ := (hd.pos k c op hat).parked hk
    exact ⟨hpending, mem_threads_of_isAt hat⟩
  rcases hguard hnext hnotified hparked with hsent | ⟨t, ht, hsend⟩
  · exact .inl hsent
  · -- the thread that is about to send is another one
    obtain ⟨j, hat⟩ := isAt_of_mem_threads ht hsend
    have hsending : gs j = .sending := (hd.pos j _ _ hat).send rfl
    refine .inr ⟨j, ?_⟩
    have hji : j ≠ i := by
      rintro rfl
      rw [hgi] at hsending
      cases hsending
    rw [Function.update_of_ne hji, hsending]
    rfl

abbrev Wakes (d : Deployment) (c : Call) (i : Nat) (g : Stage) (p : Code α) : Prop :=
  (waking d).Triple (fun _ => apply d) c i ((waking d).Owns i g) p fun _ => (waking d).Owns i .idle

theorem Woken.reporting (hw : Woken d s h gs) (hi : (gs i).waits = false) (hg : g.reports = true)
    (hawakeable : s'.awakeable = s.awakeable) (hstored : s'.stored = s.stored) :
    (waking d).Owns i g s' h gs := by
  refine hw.report hi (by cases g <;> first | rfl | cases hg) hawakeable hstored ?_
  exact fun _ _ _ _ => .inr ⟨i, by rw [Function.update_self]; exact hg⟩

theorem Woken.below (hw : Woken d s h gs) (hi : (gs i).waits = false)
    (hnot : meetsThreshold d.topologies s.instances = false) : (waking d).Owns i .idle s h gs := by
  refine hw.report hi rfl rfl rfl ?_
  intro _ _ _ hmeets
  rw [hnot] at hmeets
  cases hmeets

theorem wakes_send (hc : c.isReport = true) : Wakes d c i .sending (Prog.perform .send) := by
  refine .perform ⟨fun _ => hc, nofun, nofun, fun _ => rfl⟩ ?_
  intro w gs e _ s' hd hgi _ _ happ
  cases happ
  exact hd.inv.report (by rw [hgi]; rfl) rfl rfl rfl fun _ _ _ _ => .inl (Nat.succ_pos _)

theorem wakes_maybeNotifyInstancesReady (hactive : deploymentActiveStatuses d.status = true)
    (hc : c.isReport = true) : Wakes d c i .committed (maybeNotifyInstancesReady d.status) := by
  unfold maybeNotifyInstancesReady
  rw [if_neg (by rw [hactive]; exact nofun)]
  refine .act (o := Op.findTopologyMinReplicas)
    (.report hc (by decide) (by decide) (by decide)) ?_
  intro w gs e r s' hd hgi hat hguard happ
  have hfails : e.fails = false := hguard.1 (.inl hat.next)
  cases happ
  rw [hfails, if_neg Bool.false_ne_true]
  dsimp only
  split
  · rename_i hempty
    refine hd.inv.below (by rw [hgi]; rfl) ?_
    rw [List.eq_nil_of_length_eq_zero hempty, meetsThreshold_nil]
  · refine (?_ : Wakes d c i .committed _) (hd.owns hgi)
    refine .act (o := Op.findInstances) (.report hc (by decide) (by decide) (by decide)) ?_
    intro w gs e r s' hd hgi hat hguard happ
    have hfails : e.fails = false := hguard.1 (.inr hat.next)
    cases happ
    rw [hfails, if_neg Bool.false_ne_true]
    dsimp only
    split
    · rename_i hnot
      exact hd.inv.below (by rw [hgi]; rfl) hnot
    · refine (?_ : Wakes d c i .met _) (hd.inv.reporting (by rw [hgi]; rfl) rfl rfl rfl)
      refine .act (o := Op.addIfAbsent) (.report hc (by decide) (by decide) (by decide)) ?_
      intro w gs e r s' hd hgi hat hguard happ
      cases happ
      cases hnotified : w.shared.notifiedReady with
      | true =>
        have hidle := Woken.swallowed hd hgi hat.next hnotified hguard.2
        exact ⟨hidle.one, hidle.created, hidle.stored, hidle.underway⟩
      | false => exact wakes_send hc (hd.inv.reporting (by rw [hgi]; rfl) rfl rfl rfl)

theorem wakes_reportUpdate (hactive : deploymentActiveStatuses d.status = true) {regionID : String}
    {reported : List (String × InstanceStatus)} (hc : c.isReport = true) :
    Wakes d c i .idle (reportUpdate regionID reported) := by
  refine .act (o := Op.updateTx regionID reported) (.report hc (by decide) nofun nofun) ?_
  intro w gs e r s' hd hgi _ _ happ
  simp only [apply] at happ
  split at happ
  · cases happ
    exact hd.owns hgi
  · cases happ
    exact wakes_maybeNotifyInstancesReady hactive hc
      (hd.inv.reporting (by rw [hgi]; rfl) rfl rfl rfl)

theorem wakes_reportDelete {regionID : String} :
    Wakes d c i .idle (Prog.perform (Op.deleteTx regionID)) := by
  refine .perform (.quiet rfl (by decide) nofun nofun) ?_
  intro w gs e r s' hd hgi _ _ happ
  refine Protocol.owns_of_inv hgi ?_
  simp only [apply] at happ
  split at happ
  · cases happ
    exact hd.inv
  · cases happ
    refine ⟨hd.inv.one, hd.inv.created, hd.inv.stored, ?_⟩
    intro j hj hpending hmeets
    exact hd.inv.underway j hj hpending
      (meetsThreshold_mono _ (deleteInstances_sublist regionID _) hmeets)

theorem wakes_await : Wakes d .waitForDeployments i .parked
    (Prog.perform Op.await >>= fun _ => Prog.perform Op.clear) := by
  refine .act (o := Op.await) ⟨nofun, fun _ => ⟨rfl, rfl⟩, fun _ => rfl, nofun⟩ ?_
  intro w gs e _ s' hd hgi _ _ happ
  have hs' : s' = w.shared := by
    simp only [apply] at happ
    split at happ
    · cases happ
      rfl
    · cases happ
  have hwaits : (gs i).waits = true := by rw [hgi]; rfl
  rw [hs']
  refine (?_ : Wakes d .waitForDeployments i .leaving _)
    (Woken.of_alone (hd.inv.alone hwaits) (fun _ => hd.inv.created i hwaits) nofun nofun)
  refine .perform (.quiet rfl (by decide) (by decide) (by decide)) ?_
  intro w gs e _ s' hd hgi _ _ happ
  cases happ
  exact Woken.of_alone (hd.inv.alone (by rw [hgi]; rfl)) nofun nofun nofun

theorem wakes_waitForDeployments :
    Wakes d .waitForDeployments i .idle (waitForDeployments d.topologies) := by
  refine .act (o := Op.storeAwakeable) (.quiet rfl (by decide) (by decide) (by decide)) ?_
  intro w gs e _ s' hd hgi _ _ happ
  have hw : Woken d w.shared w.history gs := hd.inv
  simp only [apply] at happ
  split at happ
  · rename_i habsent
    cases happ
    -- no wait has begun before
    have hnone : ∀ j, (gs j).waits = false := by
      intro j
      rw [Bool.eq_false_iff]
      exact fun hj => hw.created j hj habsent
    refine (?_ : Wakes d .waitForDeployments i .checking _)
      (Woken.of_alone (fun j _ => hnone j) nofun (fun _ => rfl) nofun)
    refine .act (o := Op.findInstances) (.quiet rfl (by decide) (by decide) (by decide)) ?_
    intro w gs e _ s' hd hgi hat hguard happ
    have hw : Woken d w.shared w.history gs := hd.inv
    have hfails : e.fails = false := hguard.1 (.inr hat.next)
    have hwaits : (gs i).waits = true := by rw [hgi]; rfl
    have hstored : w.shared.stored = true := hw.stored i (by rw [hgi]; rfl)
    cases happ
    rw [hfails, if_neg Bool.false_ne_true]
    dsimp only [Prog.bind, pure]
    cases hmeets : meetsThreshold d.topologies w.shared.instances with
    | true =>
      refine (?_ : Wakes d .waitForDeployments i .resolving _) (Woken.of_alone (hw.alone hwaits)
        (fun _ => hw.created i hwaits) (fun _ => hstored) nofun)
      refine .act (o := Op.resolve) (.quiet rfl (by decide) (by decide) (by decide)) ?_
      intro w gs e _ s' hd hgi _ _ happ
      have hstored : w.shared.stored = true := hd.inv.stored i (by rw [hgi]; rfl)
      cases happ
      exact wakes_await (Woken.of_alone (hd.inv.alone (by rw [hgi]; rfl)) nofun
        (fun _ => hstored) nofun)
    | false =>
      refine wakes_await (Woken.of_alone (hw.alone hwaits) (fun _ => hw.created i hwaits)
        (fun _ => hstored) ?_)
      intro _ _ hnow
      rw [hmeets] at hnow
      cases hnow
  · cases happ

theorem waking_obeyed (hactive : deploymentActiveStatuses d.status = true) :
    (waking d).Obeyed (fun _ => apply d) (body d) := by
  intro w gs c hd hidle _
  refine (?_ : Wakes d c w.threads.length .idle (body d c)) (hd.owns hidle)
  cases c with
  | reportUpdate regionID reported => exact wakes_reportUpdate hactive rfl
  | reportDelete regionID => exact wakes_reportDelete
  | waitForDeployments => exact wakes_waitForDeployments
  | notifyInstancesReady =>
    refine .perform (.quiet rfl (by decide) (by decide) (by decide)) ?_
    intro w' gs' e r s' hd hgi _ _ happ
    refine Protocol.owns_of_inv hgi ?_
    simp only [apply] at happ
    split at happ
    · cases happ
    · cases happ
      exact hd.inv.delivered
  | sweep =>
    refine .perform (.quiet rfl (by decide) (by decide) (by decide)) ?_
    intro w' gs' e r s' hd hgi _ _ happ
    cases happ
    exact Protocol.owns_of_inv hgi ⟨hd.inv.one, hd.inv.created, hd.inv.stored, hd.inv.underway⟩

/-! ### No lost wake-up -/

theorem Woken.start (d : Deployment) (s₀ : State) : Woken d s₀ [] (fun _ => .idle) :=
  ⟨nofun, nofun, nofun, nofun⟩

def NoReport (w : ReadinessWorld) : Prop :=
  ∀ t ∈ w.threads, t.call.isReport = true → t.prog.next = none

instance (w : ReadinessWorld) : Decidable (NoReport w) := by
  unfold NoReport
  infer_instance

/-- For any topology, any reports and any order of their steps with those of the wait, of
deliveries and of sweeps: as long as statements do not fail and no report stays quiet about a parked
deployment without a message under way, a parked deployment with enough healthy regions has a
message to come once all reports are processed. -/
theorem message_underway (d : Deployment) (hactive : deploymentActiveStatuses d.status = true)
    {s₀ : State} {past : List (ReadinessWorld × Turn Call Env)} {w : ReadinessWorld}
    (hrun : Run (readinessStep d) (World.init s₀) past w)
    (hanswered : Always (fun _ w l => Answered w l) past)
    (hswallowed : Always (fun _ w l => NotSwallowed w l) past)
    (hparked : Parked w) (hmeets : meetsThreshold d.topologies w.shared.instances = true)
    (hquiet : NoReport w) : 0 < w.shared.sent := by
  obtain ⟨gs, hd⟩ := (waking d).sound (Woken.start d s₀) (waking_obeyed hactive) hrun
    (hanswered.and hswallowed)
  obtain ⟨hpending, t, ht, -, hnext⟩ := hparked
  obtain ⟨i, hat⟩ := isAt_of_mem_threads ht hnext
  rcases hd.inv.underway i ((hd.pos i _ _ hat).await rfl) hpending hmeets with hsent | ⟨j, hj⟩
  · exact hsent
  · -- a report that may still send is being processed
    obtain ⟨c, op, hat⟩ := hd.busy j (by rintro heq; rw [heq] at hj; cases hj)
    have hreport : c.isReport = true := (hd.pos j c op hat).call hj
    obtain ⟨t, ht, rfl, hnext⟩ := mem_threads_of_isAt hat
    rw [hquiet t ht hreport] at hnext
    cases hnext

/-! ### A deployment that is healthy, unhealthy and healthy again -/

def oneRegion : Deployment := ⟨[⟨"us-east-1", 1⟩], .deploying⟩

def noInstances : State := ⟨[], false, 0, .absent, false⟩

def takeSteps (i : Nat) (c : Call) (steps : Nat) : List (Turn Call Env) :=
  .spawn c :: List.replicate steps (.run i ⟨false, false, true⟩)

def podReport (status : InstanceStatus) : Call := .reportUpdate "us-east-1" [("pod", status)]

def notifiedEarly : List (Turn Call Env) :=
  takeSteps 0 (podReport .running) 5 ++ takeSteps 1 .notifyInstancesReady 1
    ++ takeSteps 2 (podReport .failed) 3 ++ takeSteps 3 .waitForDeployments 2

theorem message_underway_after_sweep :
    ∃ past w, Run (readinessStep oneRegion) (World.init noInstances) past w ∧ Parked w ∧
      meetsThreshold oneRegion.topologies w.shared.instances = true ∧ NoReport w ∧
      0 < w.shared.sent := by
  refine Run.exists_of_record (P := fun past w => Always (fun _ w l => Answered w l) past ∧
      Always (fun _ w l => NotSwallowed w l) past ∧ Parked w ∧
      meetsThreshold oneRegion.topologies w.shared.instances = true ∧ NoReport w)
    (notifiedEarly ++ takeSteps 4 .sweep 1 ++ takeSteps 5 (podReport .running) 5) (by decide +kernel) ?_
  rintro past w hrun ⟨hanswered, hswallowed, hparked, hmeets, hquiet⟩
  exact ⟨hparked, hmeets, hquiet,
    message_underway oneRegion rfl hrun hanswered hswallowed hparked hmeets hquiet⟩

theorem message_lost_before_wait :
    ∃ past w, Run (readinessStep oneRegion) (World.init noInstances) past w ∧
      Always (fun _ w l => Answered w l) past ∧ Parked w ∧
      meetsThreshold oneRegion.topologies w.shared.instances = true ∧ NoReport w ∧
      w.shared.sent = 0 :=
  Run.exists_of_record (notifiedEarly ++ takeSteps 4 (podReport .running) 4)
    (by decide +kernel) fun _ _ _ h => h

end Unkey.Readiness
