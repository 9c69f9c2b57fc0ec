import Unkey.Krane.ChangeStream

/-!
# What the stream skips

One cursor is enough as long as rows become visible above everything that the stream has fetched,
and as long as the agent has a version to come back with.
-/

namespace Unkey.Krane

open Unkey.Base

variable {region : String}

/-- Every change that is watched was sent or is still ahead of the position. -/
def Feed.Complete (region : String) (f : Feed) : Prop :=
  ∀ c ∈ f.watched, c.pk ∈ f.sent ∨ f.position region < c.pk

def Feed.reached (f : Feed) : List Nat :=
  f.versionLastSeen :: (f.cursor.toList ++ f.fetched.map Event.version ++ f.wire.map Event.version)

def Feed.MayHangUp (f : Feed) : Prop :=
  f.versionLastSeen = 0 → ∀ c ∈ f.watched, c.pk ∈ f.sent

instance (f : Feed) : Decidable f.MayHangUp := inferInstanceAs (Decidable (_ = 0 → _))

/-- Changes commit behind what was reached, and the stream ends only where nothing is lost. -/
def InOrder (region : String) (_ : List (Feed × Label)) (f : Feed) : Label → Prop
  | .commit pks => f.established = true → ∀ c ∈ inRegion region (f.committing pks),
      (∀ v ∈ f.reached, v < c.pk) ∧ (f.cursor = none → f.versionLastSeen ≠ 0)
  | .poll lookup => (f.cursor.bind (fetchDeploymentChangeEvents region lookup f.visible)) = none →
      f.MayHangUp
  | .send ok => ok = false → f.MayHangUp
  | .disconnect => f.MayHangUp
  | _ => True

instance (past : List (Feed × Label)) (f : Feed) (l : Label) :
    Decidable (InOrder region past f l) := by
  cases l <;> unfold InOrder <;> infer_instance

section Queries

theorem maxVersion_append {visible new : List Change} (h : inRegion region new = []) :
    maxVersion region (visible ++ new) = maxVersion region visible := by
  have hsplit : inRegion region (visible ++ new) =
      inRegion region visible ++ inRegion region new := List.filter_append ..
  rw [maxVersion, maxVersion, hsplit, h, List.append_nil]

theorem page_spec {visible : List Change} {cursor : Nat} {c : Change}
    (hc : c ∈ inRegion region visible) (hlt : cursor < c.pk) :
    c.pk ∈ (listDeploymentChanges region visible cursor).map Change.pk ∨
      ∀ v ∈ (listDeploymentChanges region visible cursor).map Change.pk, v < c.pk := by
  by_cases hmem : c.pk ∈ (listDeploymentChanges region visible cursor).map Change.pk
  · exact .inl hmem
  · right
    intro v hv
    unfold listDeploymentChanges at hv hmem
    set page := ((inRegion region visible).filter fun c => decide (cursor < c.pk)).insertionSort
      fun x y => x.pk ≤ y.pk with hpage
    obtain ⟨x, hx, rfl⟩ := List.mem_map.mp hv
    have hin : c ∈ page := by
      rw [hpage, List.mem_insertionSort]
      exact List.mem_filter.mpr ⟨hc, decide_eq_true hlt⟩
    have hdrop : c ∈ page.drop changePageSize := by
      rw [← List.take_append_drop changePageSize page, List.mem_append] at hin
      rcases hin with htake | hdrop
      · exact absurd (List.mem_map_of_mem htake) hmem
      · exact hdrop
    have hsorted : page.Pairwise fun x y => x.pk ≤ y.pk := List.pairwise_insertionSort _ _
    rw [← List.take_append_drop changePageSize page, List.pairwise_append] at hsorted
    have hle := hsorted.2.2 x hx c hdrop
    have hne : x.pk ≠ c.pk := fun heq => hmem (heq ▸ List.mem_map_of_mem hx)
    omega

theorem page_sorted (visible : List Change) (cursor : Nat) :
    ((listDeploymentChanges region visible cursor).map Change.pk).Pairwise (· ≤ ·) := by
  rw [List.pairwise_map]
  exact (List.pairwise_insertionSort _ _).sublist (List.take_sublist _ _)

end Queries

structure Feed.Inv (region : String) (f : Feed) : Prop where
  complete : f.Complete region
  seen : ∀ v ∈ f.versionLastSeen :: f.wire.map Event.version, ∀ c ∈ f.watched, c.pk ≤ v →
    c.pk ∈ f.sent
  ahead : ∀ c ∈ f.watched, c.pk ∈ f.sent ∨ c.pk ∈ f.fetched.map Event.version ∨
    ∀ v ∈ f.fetched.map Event.version, v < c.pk
  sorted : (f.fetched.map Event.version).Pairwise (· ≤ ·)
  visible : ∀ c ∈ f.watched, c ∈ inRegion region f.visible
  fresh : f.established = false → f.watched = []

namespace Feed.Inv

variable {f : Feed}

theorem hangUp (h : f.Inv region) (hmay : f.MayHangUp) : f.hangUp.Inv region where
  complete := by
    intro c hc
    by_cases hzero : f.versionLastSeen = 0
    · exact .inl (hmay hzero c hc)
    · by_cases hle : c.pk ≤ f.versionLastSeen
      · exact .inl (h.seen _ List.mem_cons_self c hc hle)
      · right
        show (if f.versionLastSeen = 0 then _ else f.versionLastSeen) < c.pk
        rw [if_neg hzero]
        omega
  seen := h.seen
  ahead := fun c _ => .inr (.inr nofun)
  sorted := .nil
  visible := h.visible
  fresh := h.fresh

theorem connect (h : f.Inv region) (hoff : f.cursor = none) : (f.connect region).Inv region where
  complete := by
    intro c hc
    have hpos : (f.connect region).position region = f.position region := by
      simp only [Feed.position, Feed.connect, hoff, Option.getD_some, Option.getD_none]
    rw [hpos]
    exact h.complete c hc
  seen := fun v hv => h.seen v (List.mem_singleton.mp hv ▸ List.mem_cons_self)
  ahead := fun c _ => .inr (.inr nofun)
  sorted := .nil
  visible := h.visible
  fresh := nofun

theorem commit (h : f.Inv region) {pks : List Nat}
    (hc : f.established = true → ∀ c ∈ inRegion region (f.committing pks),
      (∀ v ∈ f.reached, v < c.pk) ∧ (f.cursor = none → f.versionLastSeen ≠ 0)) :
    (f.commit region pks).Inv region := by
  cases hest : f.established with
  | false =>
    have hnone : (f.commit region pks).watched = [] := by
      simp [Feed.commit, hest, h.fresh hest]
    refine ⟨?_, ?_, ?_, h.sorted, ?_, fun _ => hnone⟩
    · intro c hc'
      rw [hnone] at hc'
      cases hc'
    · intro v _ c hc'
      rw [hnone] at hc'
      cases hc'
    · intro c hc'
      rw [hnone] at hc'
      cases hc'
    · intro c hc'
      rw [hnone] at hc'
      cases hc'
  | true =>
    have hnew := hc hest
    have hpos : (f.commit region pks).position region = f.position region := by
      unfold Feed.position
      cases hcur : f.cursor with
      | some k => simp [Feed.commit, hcur]
      | none =>
        simp only [Feed.commit, hcur, Option.getD_none]
        split
        next hzero =>
          apply maxVersion_append
          by_contra hne
          obtain ⟨c, hmem⟩ := List.exists_mem_of_ne_nil _ hne
          exact (hnew c hmem).2 hcur hzero
        next => rfl
    have hmem : ∀ c ∈ (f.commit region pks).watched,
        c ∈ f.watched ∨ c ∈ inRegion region (f.committing pks) := by
      intro c hc'
      simpa [Feed.commit, hest] using hc'
    have hahead : ∀ c ∈ inRegion region (f.committing pks), f.position region < c.pk := by
      intro c hc'
      apply (hnew c hc').1
      unfold Feed.position Feed.reached
      cases hcur : f.cursor with
      | some k => simp
      | none => simp [(hnew c hc').2 hcur]
    refine ⟨?_, ?_, ?_, h.sorted, ?_, fun hno => ?_⟩
    · intro c hc'
      rw [hpos]
      rcases hmem c hc' with hold | hnew'
      · exact h.complete c hold
      · exact .inr (hahead c hnew')
    · intro v hv c hc' hle
      rcases hmem c hc' with hold | hnew'
      · exact h.seen v hv c hold hle
      · have hv' : v ∈ f.reached := by
          rcases List.mem_cons.mp hv with rfl | hv
          · exact List.mem_cons_self
          · exact List.mem_cons_of_mem _ (List.mem_append_right _ hv)
        have := (hnew c hnew').1 v hv'
        omega
    · intro c hc'
      rcases hmem c hc' with hold | hnew'
      · exact h.ahead c hold
      · refine .inr (.inr fun v hv => (hnew c hnew').1 v ?_)
        exact List.mem_cons_of_mem _ (List.mem_append_left _ (List.mem_append_right _ hv))
    · intro c hc'
      show c ∈ inRegion region (f.visible ++ f.committing pks)
      rw [inRegion, List.filter_append, List.mem_append]
      exact (hmem c hc').imp (h.visible c) id
    · rw [show (f.commit region pks).established = f.established from rfl, hest] at hno
      cases hno

theorem poll (h : f.Inv region) {lookup : Lookup} {cursor : Nat} {events : List Event}
    (hcur : f.cursor = some cursor)
    (hev : fetchDeploymentChangeEvents region lookup f.visible cursor = some events) :
    ({ f with fetched := events } : Feed).Inv region where
  complete := h.complete
  seen := h.seen
  ahead := by
    intro c hc
    rw [show events.map Event.version = _ from versions_of_loadEvents hev]
    rcases h.complete c hc with hsent | hlt
    · exact .inl hsent
    · rw [Feed.position, hcur] at hlt
      exact .inr (page_spec (h.visible c hc) hlt)
  sorted := by
    show (events.map Event.version).Pairwise (· ≤ ·)
    rw [show events.map Event.version = _ from versions_of_loadEvents hev]
    exact page_sorted _ _
  visible := h.visible
  fresh := h.fresh

theorem deliver (h : f.Inv region) {cursor : Nat} {event : Event} {rest : List Event}
    (hcur : f.cursor = some cursor) (hfetched : f.fetched = event :: rest) :
    (f.deliver cursor event rest).Inv region := by
  have hsorted := h.sorted
  rw [hfetched, List.map_cons, List.pairwise_cons] at hsorted
  -- What is neither sent before nor now is above the event.
  have habove : ∀ c ∈ f.watched, c.pk ∈ f.sent ++ [event.version] ∨
      (max cursor event.version < c.pk ∧ (c.pk ∈ rest.map Event.version ∨
        ∀ v ∈ rest.map Event.version, v < c.pk)) := by
    intro c hc
    by_cases hsent : c.pk ∈ f.sent ++ [event.version]
    · exact .inl hsent
    have hnot : c.pk ∉ f.sent ∧ c.pk ≠ event.version := by simpa using hsent
    have hlt : cursor < c.pk := by
      have := (h.complete c hc).resolve_left hnot.1
      rwa [Feed.position, hcur] at this
    have hahead := (h.ahead c hc).resolve_left hnot.1
    rw [hfetched, List.map_cons] at hahead
    right
    rcases hahead with hmem | hall
    · grind
    · have := hall _ List.mem_cons_self
      exact ⟨by omega, .inr fun v hv => hall v (List.mem_cons_of_mem _ hv)⟩
  refine ⟨?_, ?_, ?_, hsorted.2, h.visible, h.fresh⟩
  · intro c hc
    exact (habove c hc).imp id And.left
  · intro v hv c hc hle
    simp only [Feed.deliver, List.map_append, List.map_cons, List.map_nil, List.mem_cons,
      List.mem_append, List.not_mem_nil, or_false] at hv
    rcases hv with rfl | hv | rfl
    · exact List.mem_append_left _ (h.seen _ List.mem_cons_self c hc hle)
    · exact List.mem_append_left _ (h.seen v (List.mem_cons_of_mem _ hv) c hc hle)
    · rcases habove c hc with hsent | ⟨hlt, -⟩
      · exact hsent
      · omega
  · intro c hc
    exact (habove c hc).imp id And.right

theorem receive (h : f.Inv region) {event : Event} {rest : List Event}
    (hwire : f.wire = event :: rest) : (f.receive event rest).Inv region := by
  have hseen : ∀ v ∈ (f.receive event rest).versionLastSeen ::
      (f.receive event rest).wire.map Event.version, ∀ c ∈ f.watched, c.pk ≤ v →
        c.pk ∈ f.sent := by
    intro v hv c hc hle
    have hold := h.seen
    rw [hwire, List.map_cons] at hold
    rcases List.mem_cons.mp hv with rfl | hv
    · grind [Nat.le_total, Feed.receive, List.mem_cons_self]
    · exact hold v (List.mem_cons_of_mem _ (List.mem_cons_of_mem _ hv)) c hc hle
  refine ⟨?_, hseen, h.ahead, h.sorted, h.visible, h.fresh⟩
  intro c hc
  rcases h.complete c hc with hsent | hlt
  · exact .inl hsent
  by_cases hle : c.pk ≤ (f.receive event rest).versionLastSeen
  · exact .inl (hseen _ List.mem_cons_self c hc hle)
  · right
    -- The position moves only if the agent is disconnected, and then to the version seen.
    unfold Feed.position at hlt ⊢
    cases hcur : f.cursor with
    | some k => simpa [Feed.receive, hcur] using hlt
    | none =>
      rw [show (f.receive event rest).cursor = f.cursor from rfl, hcur, Option.getD_none]
      split
      next hzero =>
        have hbefore : f.versionLastSeen = 0 := by
          simp only [Feed.receive] at hzero
          omega
        simpa [Feed.receive, hcur, hbefore] using hlt
      next => omega

end Feed.Inv

theorem inv_step {past : List (Feed × Label)} {f f' : Feed} {l : Label} (h : f.Inv region)
    (hc : InOrder region past f l) (hs : f.step region l = some f') : f'.Inv region := by
  cases l with
  | insert resourceType resourceId regionId =>
    cases hs
    exact ⟨h.complete, h.seen, h.ahead, h.sorted, h.visible, h.fresh⟩
  | commit pks =>
    cases hs
    exact h.commit hc
  | rollback pks =>
    cases hs
    exact ⟨h.complete, h.seen, h.ahead, h.sorted, h.visible, h.fresh⟩
  | connect =>
    simp only [Feed.step] at hs
    split at hs
    next hoff =>
      cases hs
      exact h.connect hoff
    next => cases hs
  | poll lookup =>
    simp only [Feed.step] at hs
    split at hs
    next cursor hcur hfetched =>
      cases hs
      cases hev : fetchDeploymentChangeEvents region lookup f.visible cursor with
      | none => exact h.hangUp (hc (by rw [hcur]; exact hev))
      | some events => exact h.poll hcur hev
    next => cases hs
  | send ok =>
    simp only [Feed.step] at hs
    split at hs
    next cursor event rest hcur hfetched =>
      cases hs
      cases ok with
      | true => exact h.deliver hcur hfetched
      | false => exact h.hangUp (hc rfl)
    next => cases hs
  | receive =>
    simp only [Feed.step] at hs
    split at hs
    next event rest hwire =>
      cases hs
      exact h.receive hwire
    next => cases hs
  | disconnect =>
    simp only [Feed.step] at hs
    split at hs
    next => cases hs
    next =>
      cases hs
      exact h.hangUp hc

/-- In every run in which rows commit in order and no connection ends too early, the stream
skips nothing. -/
theorem stream_complete_run {nextPk : Nat} {uncommitted visible : List Change}
    {past : List (Feed × Label)} {f : Feed}
    (h : Run (Feed.step region) (Feed.start nextPk uncommitted visible) past f)
    (hc : Always (InOrder region) past) : f.Complete region := by
  have hinv : f.Inv region := by
    refine h.invariant_always (P := fun _ f => f.Inv region) ?_ ?_ hc
    · exact ⟨nofun, nofun, nofun,
        .nil, nofun, fun _ => rfl⟩
    · intro past f l f' hf hl hs
      exact inv_step hf hl hs
  exact hinv.complete

section Region

def insertChange : Label := .insert .deploymentTopology "d_1" "eu"

def running : Lookup := fun _ => .ok ⟨.running, "d-1", false, true⟩

def exchange : List Label := [.poll running, .send true, .receive]

def reconnecting : List Label :=
  [.connect, insertChange, .commit [1]] ++ exchange ++
    [.disconnect, insertChange, .commit [2], .connect] ++ exchange

theorem stream_complete_run_reconnecting :
    ∃ past f, Run (Feed.step "eu") (Feed.start 1 [] []) past f ∧ f.sent = [1, 2] ∧
      f.Complete "eu" := by
  refine Run.exists_of_record (P := fun past f => Always (InOrder "eu") past ∧ f.sent = [1, 2])
    reconnecting (by decide +kernel) ?_
  intro past f hrun heq
  exact ⟨heq.2, stream_complete_run hrun heq.1⟩

def lateCommit : List Label :=
  [.connect, insertChange, insertChange, .commit [2]] ++ exchange ++ [.commit [1]]

/-- The row of the late commit has not been sent and is below the cursor. -/
theorem lateCommit_skipped :
    ∃ past f, Run (Feed.step "eu") (Feed.start 1 [] []) past f ∧ ¬ f.Complete "eu" := by
  refine Run.exists_of_record (P := fun _ f => f.watched.map Change.pk = [2, 1] ∧ f.sent = [2] ∧
      f.position "eu" = 2)
    lateCommit (by decide +kernel) ?_
  rintro past f hrun ⟨hwatched, hsent, hpos⟩
  intro hcomplete
  obtain ⟨c, hc, hpk⟩ : ∃ c ∈ f.watched, c.pk = 1 := by
    rw [← List.mem_map, hwatched]
    decide
  have := hcomplete c hc
  rw [hsent, hpos, hpk] at this
  exact absurd this (by decide)

end Region

end Unkey.Krane
