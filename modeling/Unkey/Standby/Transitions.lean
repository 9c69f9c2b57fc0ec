import Unkey.Deploy.Workflow

/-!
# The pending transition of one deployment

The deployment object stores at most one transition and sends itself a delayed `ChangeDesiredState`
message for it.
-/

namespace Unkey.Standby

open Unkey.Base Unkey.Deploy

inductive WireState
  | unspecified | running | stopped
  | unknown (code : Int)
  deriving DecidableEq

def WireState.desired : WireState → Option DesiredState
  | .running => some .running
  | .stopped => some .stopped
  | .unspecified | .unknown _ => none

structure Transition where
  nonce : Nat
  state : WireState
  deriving DecidableEq

structure Message where
  nonce : Nat
  state : WireState
  deriving DecidableEq

/-- The state of a deployment object. -/
structure Object where
  transition : Option Transition
  messages : List Message
  drawn : Nat
  deriving DecidableEq

def Object.fresh : Object := ⟨none, [], 0⟩

structure ScheduleRequest where
  state : WireState
  overwrite : Bool
  deriving DecidableEq

def Object.skips (o : Object) (req : ScheduleRequest) : Bool :=
  !req.overwrite && o.transition.isSome

def scheduleDesiredStateChange (o : Object) (req : ScheduleRequest) : Object :=
  if o.skips req then o
  else ⟨some ⟨o.drawn, req.state⟩, o.messages ++ [⟨o.drawn, req.state⟩], o.drawn + 1⟩

def clearScheduledStateChanges (o : Object) : Object := { o with transition := none }

/-- What the transaction of `ChangeDesiredState` finds: no deployment or no app, the
app's current deployment, or a deployment it may change. -/
inductive Found
  | missing | current | standby
  deriving DecidableEq

inductive Outcome
  | outdated
  | invalid
  | gone
  | refused
  | applied (state : DesiredState)
  deriving DecidableEq

def applyChange (state : WireState) (found : Found) : Outcome :=
  match state.desired, found with
  | none, _ => .invalid
  | some _, .missing => .gone
  | some _, .current => .refused
  | some desired, .standby => .applied desired

def changeDesiredState (o : Object) (m : Message) (found : Found) : Outcome :=
  match o.transition with
  | none => .outdated
  | some t => if t.nonce ≠ m.nonce then .outdated else applyChange m.state found

def Outcome.clears : Outcome → Bool
  | .gone | .applied _ => true
  | .outdated | .invalid | .refused => false

def Object.deliver (o : Object) (i : Nat) (m : Message) (found : Found) : Object :=
  { o with
    transition := if (changeDesiredState o m found).clears then none else o.transition
    messages := o.messages.eraseIdx i }

inductive Call
  | schedule (req : ScheduleRequest)
  | clear
  | deliver (i : Nat) (found : Found)
  deriving DecidableEq

def Object.step (o : Object) : Call → Option Object
  | .schedule req => some (scheduleDesiredStateChange o req)
  | .clear => some (clearScheduledStateChanges o)
  | .deliver i found => o.messages[i]?.map fun m => o.deliver i m found

def Object.Tracked (o : Object) : Prop :=
  ∀ t, o.transition = some t → ∃ m ∈ o.messages, m.nonce = t.nonce

def SkipsForPending (o : Object) (c : Call) : Prop :=
  ∀ req, c = .schedule req → o.skips req = true →
    ∃ t, o.transition = some t ∧ ∃ m ∈ o.messages, m.nonce = t.nonce

def Call.Applicable (o : Object) : Call → Prop
  | .deliver i found => ∀ m t, o.messages[i]? = some m → o.transition = some t →
      t.nonce = m.nonce → m.state.desired ≠ none ∧ found ≠ .current
  | _ => True

structure Object.Fresh (o : Object) : Prop where
  transition : ∀ t, o.transition = some t → t.nonce < o.drawn
  messages : ∀ m ∈ o.messages, m.nonce < o.drawn
  nodup : (o.messages.map Message.nonce).Nodup

theorem fresh_fresh : Object.fresh.Fresh :=
  ⟨nofun, nofun, List.nodup_nil⟩

variable {o : Object}

theorem fresh_schedule (h : o.Fresh) (req : ScheduleRequest) :
    (scheduleDesiredStateChange o req).Fresh := by
  unfold scheduleDesiredStateChange
  split
  · exact h
  · refine ⟨?_, ?_, ?_⟩
    · rintro t ⟨⟩
      exact Nat.lt_succ_self _
    · intro m hm
      rcases List.mem_append.mp hm with hm | hm
      · exact Nat.lt_succ_of_lt (h.messages m hm)
      · rw [List.mem_singleton.mp hm]
        exact Nat.lt_succ_self _
    · rw [List.map_append]
      refine List.nodup_append.mpr ⟨h.nodup, List.nodup_singleton _, ?_⟩
      intro n hn n' hn' heq
      obtain ⟨m, hm, rfl⟩ := List.mem_map.mp hn
      have hlt := h.messages m hm
      rw [heq, List.mem_singleton.mp hn'] at hlt
      exact Nat.lt_irrefl _ hlt

theorem fresh_deliver (h : o.Fresh) (i : Nat) (m : Message) (found : Found) :
    (o.deliver i m found).Fresh := by
  refine ⟨?_, ?_, ?_⟩
  · intro t ht
    simp only [Object.deliver] at ht
    split at ht
    · cases ht
    · exact h.transition t ht
  · intro m' hm'
    exact h.messages m' (List.mem_of_mem_eraseIdx hm')
  · exact h.nodup.sublist ((List.eraseIdx_sublist o.messages i).map _)

theorem fresh_step {o' : Object} {c : Call} (h : o.Fresh) (hs : o.step c = some o') :
    o'.Fresh := by
  cases c with
  | schedule req =>
    cases hs
    exact fresh_schedule h req
  | clear =>
    cases hs
    exact ⟨nofun, h.messages, h.nodup⟩
  | deliver i found =>
    obtain ⟨m, -, rfl⟩ := Option.map_eq_some_iff.mp hs
    exact fresh_deliver h i m found

theorem tracked_schedule (h : o.Tracked) (req : ScheduleRequest) :
    (scheduleDesiredStateChange o req).Tracked := by
  unfold scheduleDesiredStateChange
  split
  · exact h
  · rintro t ⟨⟩
    exact ⟨_, List.mem_append_right _ (List.mem_singleton_self _), rfl⟩

variable {m : Message}

theorem mem_eraseIdx_of_nonce {l : List Message} {i : Nat} {m' : Message} (hi : l[i]? = some m)
    (hm' : m' ∈ l) (hne : m'.nonce ≠ m.nonce) : m' ∈ l.eraseIdx i := by
  obtain ⟨j, hj⟩ := List.mem_iff_getElem?.mp hm'
  refine List.mem_eraseIdx_iff_getElem?.mpr ⟨j, ?_, hj⟩
  rintro rfl
  rw [hi] at hj
  cases hj
  exact hne rfl

theorem nonce_of_mem_eraseIdx {l : List Message} {i : Nat} {m' : Message}
    (hnd : (l.map Message.nonce).Nodup) (hi : l[i]? = some m) (hm' : m' ∈ l.eraseIdx i) :
    m'.nonce ≠ m.nonce := by
  obtain ⟨j, hj, hget⟩ := List.mem_eraseIdx_iff_getElem?.mp hm'
  intro heq
  have hij : (l.map Message.nonce)[j]? = (l.map Message.nonce)[i]? := by simp [hget, hi, heq]
  have hlt : j < (l.map Message.nonce).length := by
    rw [List.length_map]
    exact (List.getElem?_eq_some_iff.mp hget).1
  exact hj ((List.getElem?_inj hlt hnd).mp hij)

theorem applyChange_clears {state : WireState} {found : Found} :
    (applyChange state found).clears = true ↔ state.desired ≠ none ∧ found ≠ .current := by
  cases state <;> cases found <;> simp [applyChange, WireState.desired, Outcome.clears]

theorem changeDesiredState_match {t : Transition} (found : Found)
    (ht : o.transition = some t) (hn : t.nonce = m.nonce) :
    changeDesiredState o m found = applyChange m.state found := by
  simp [changeDesiredState, ht, hn]

theorem changeDesiredState_other {t : Transition} (found : Found)
    (ht : o.transition = some t) (hn : t.nonce ≠ m.nonce) :
    changeDesiredState o m found = .outdated := by
  simp [changeDesiredState, ht, hn]

theorem tracked_deliver {i : Nat} {found : Found} (hf : o.Fresh)
    (h : o.Tracked) (hi : o.messages[i]? = some m) :
    (o.deliver i m found).Tracked ↔ Call.Applicable o (.deliver i found) := by
  cases ht : o.transition with
  | none =>
    have hnone : (o.deliver i m found).transition = none := by simp [Object.deliver, ht]
    refine iff_of_true (fun t ht' => ?_) (fun _ t _ ht' => ?_)
    · rw [hnone] at ht'
      cases ht'
    · rw [ht] at ht'
      cases ht'
  | some t =>
    by_cases hn : t.nonce = m.nonce
    · have happ : Call.Applicable o (.deliver i found) ↔
          m.state.desired ≠ none ∧ found ≠ .current := by
        constructor
        · intro hc
          exact hc m t hi ht hn
        · intro hc m' t' hi' ht' _
          rw [hi] at hi'
          cases hi'
          exact hc
      rw [happ, ← applyChange_clears, ← changeDesiredState_match found ht hn]
      cases hclears : (changeDesiredState o m found).clears with
      | true =>
        have hnone : (o.deliver i m found).transition = none := by simp [Object.deliver, hclears]
        refine iff_of_true (fun t' ht' => ?_) rfl
        rw [hnone] at ht'
        cases ht'
      | false =>
        have hkept : (o.deliver i m found).transition = some t := by
          simp [Object.deliver, hclears, ht]
        refine iff_of_false (fun htr => ?_) (by simp)
        -- the only message with the stored nonce has been consumed
        obtain ⟨m', hm', hn'⟩ := htr t hkept
        exact nonce_of_mem_eraseIdx hf.nodup hi hm' (hn'.trans hn)
    · have hkept : (o.deliver i m found).transition = some t := by
        simp [Object.deliver, changeDesiredState_other found ht hn, Outcome.clears, ht]
      refine iff_of_true (fun t' ht' => ?_) (fun m' t' hi' ht' hn' => ?_)
      · rw [hkept] at ht'
        cases ht'
        obtain ⟨m', hm', hn'⟩ := h t ht
        exact ⟨m', mem_eraseIdx_of_nonce hi hm' (fun heq => hn (hn'.symm.trans heq)), hn'⟩
      · grind

theorem tracked_step {o' : Object} {c : Call} (hf : o.Fresh) (h : o.Tracked)
    (hs : o.step c = some o') : o'.Tracked ↔ c.Applicable o := by
  cases c with
  | schedule req =>
    cases hs
    exact iff_of_true (tracked_schedule h req) trivial
  | clear =>
    cases hs
    exact iff_of_true nofun trivial
  | deliver i found =>
    obtain ⟨m, hi, rfl⟩ := Option.map_eq_some_iff.mp hs
    exact tracked_deliver hf h hi

theorem fresh_run {past : List (Object × Call)}
    (h : Run Object.step Object.fresh past o) : o.Fresh := by
  exact h.invariant (P := fun _ o => o.Fresh) fresh_fresh fun _ _ _ _ ho hs => fresh_step ho hs

theorem skipsForPending_of_tracked (h : o.Tracked) (c : Call) :
    SkipsForPending o c := by
  intro req _ hskip
  simp only [Object.skips, Bool.and_eq_true] at hskip
  obtain ⟨t, ht⟩ := Option.isSome_iff_exists.mp hskip.2
  exact ⟨t, ht, h t ht⟩

/-- A transition is tracked in every state of a run, and no schedule is skipped for one
that will not be applied, exactly when no delivery of the run ends in a terminal
error. -/
theorem transitions_tracked_run_iff {past : List (Object × Call)} {o : Object}
    (h : Run Object.step Object.fresh past o) :
    (Always (fun _ o c => o.Tracked ∧ SkipsForPending o c) past ∧ o.Tracked) ↔
      Always (fun _ o c => Call.Applicable o c) past := by
  -- What is tracked is enough: a schedule that is skipped then has something to wait for.
  have hskips : ∀ (past : List (Object × Call)) o c,
      (o.Tracked ∧ SkipsForPending o c) ↔ o.Tracked :=
    fun _ _ c => and_iff_left_of_imp fun ht => skipsForPending_of_tracked ht c
  rw [Always.congr hskips past]
  refine h.always_iff (P := fun _ o => o.Tracked) ?_ ?_
  · intro t ht
    cases ht
  · intro past o c o' hr ht hs
    exact tracked_step (fresh_run hr) ht hs

def stopOfStandby : List (Object × Call) :=
  [(⟨some ⟨0, .stopped⟩, [⟨0, .stopped⟩], 1⟩, .deliver 0 .standby),
    (Object.fresh, .schedule ⟨.stopped, false⟩)]

theorem transitions_tracked_run_iff_stopOfStandby :
    Run Object.step Object.fresh stopOfStandby ⟨none, [], 1⟩ ∧
      Always (fun _ o c => o.Tracked ∧ SkipsForPending o c) stopOfStandby := by
  have hrun : Run Object.step Object.fresh stopOfStandby ⟨none, [], 1⟩ :=
    (Run.start.next rfl).next rfl
  refine ⟨hrun, ((transitions_tracked_run_iff hrun).mpr ⟨?_, trivial, trivial⟩).1⟩
  rintro m t ⟨⟩ _ _
  exact ⟨nofun, nofun⟩

def stopOfCurrent : List (Object × Call) :=
  [(⟨some ⟨0, .stopped⟩, [], 1⟩, .schedule ⟨.stopped, false⟩),
    (⟨some ⟨0, .stopped⟩, [⟨0, .stopped⟩], 1⟩, .deliver 0 .current),
    (Object.fresh, .schedule ⟨.stopped, false⟩)]

/-- The refused stop stays stored without a message, and the second schedule is skipped
for it. -/
theorem stopOfCurrent_orphans_transition :
    Run Object.step Object.fresh stopOfCurrent ⟨some ⟨0, .stopped⟩, [], 1⟩ ∧
      ¬ (Object.mk (some ⟨0, .stopped⟩) [] 1).Tracked ∧
      ¬ SkipsForPending ⟨some ⟨0, .stopped⟩, [], 1⟩ (.schedule ⟨.stopped, false⟩) := by
  refine ⟨((Run.start.next rfl).next rfl).next rfl, fun h => ?_, fun h => ?_⟩
  · obtain ⟨m, hm, -⟩ := h _ rfl
    cases hm
  · obtain ⟨t, -, m, hm, -⟩ := h _ rfl rfl
    cases hm

end Unkey.Standby
