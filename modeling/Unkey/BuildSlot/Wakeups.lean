import Unkey.BuildSlot.Queue

/-!
# Pending audits and wake-ups

Every deployment that holds a slot or waits for one has an `ExpireSlot` message under way, so no
slot leaks for ever.
-/

namespace Unkey.BuildSlot

open Unkey.Base

variable {released : Option String} {w w' : World} {id : String} {audit : Audit} {e : WaitEntry}

/-! ### Pending audits -/

/-- Every tracked deployment, apart from `except`, has an undelivered message. -/
def Covered (except : Option String) (w : World) : Prop :=
  ∀ id, w.slots.Tracks id → some id ≠ except → ∃ m ∈ w.pending, m.deploymentID = id

theorem Move.pending_subset (h : Move released w w') : w.pending ⊆ w'.pending := by
  cases h with
  | note => exact List.Subset.refl _
  | schedule m => exact List.subset_cons_self _ _
  | shrink => exact List.Subset.refl _
  | promote => exact List.subset_cons_self _ _

theorem Moves.pending_subset (h : Moves released w w') : w.pending ⊆ w'.pending :=
  h.keep (I := fun w' => w.pending ⊆ w'.pending)
    (fun _ _ hi hm => List.Subset.trans hi hm.pending_subset) (List.Subset.refl _)

theorem Covered.moves {except : Option String} (hc : Covered except w) (h : Moves released w w') :
    Covered except w' := by
  intro id ht hne
  obtain ⟨m, hm, hid⟩ := hc id (h.tracks ht) hne
  exact ⟨m, h.pending_subset hm, hid⟩

theorem Covered.of_except (hc : Covered (some id) w)
    (hid : w.slots.Tracks id → ∃ m ∈ w.pending, m.deploymentID = id) : Covered none w := by
  intro x ht _
  by_cases hx : x = id
  · subst x
    exact hid ht
  · exact hc x ht fun h => hx (Option.some.inj h)

variable {req : AcquireRequest}

theorem World.tracks_grantOrPark {limit : Nat} (ht : (w.grantOrPark req limit).slots.Tracks id) :
    id = req.deploymentID ∨ w.slots.Tracks id := by
  rw [World.grantOrPark] at ht
  split at ht
  · obtain hact | hwait := ht
    · exact (Finset.mem_insert.mp hact).imp_right .inl
    · exact .inr (.inr hwait)
  · obtain hact | ⟨e, he, rfl⟩ := ht
    · exact .inr (.inl (World.park_active w _ _ ▸ hact))
    · obtain he | rfl := World.mem_park_waiting.mp he
      · exact .inr (.inr ⟨e, he, rfl⟩)
      · exact .inl rfl

theorem World.grantOrPark_pending (w : World) (req : AcquireRequest) (limit : Nat) :
    ∃ delay, (w.grantOrPark req limit).pending = ⟨req.deploymentID, delay, 0⟩ :: w.pending := by
  rw [World.grantOrPark]
  split
  · exact ⟨slotLeaseDuration, rfl⟩
  · exact ⟨waiterExpiryDelay, rfl⟩

theorem Covered.grantOrPark (hc : Covered none w) (limit : Nat) :
    Covered none (w.grantOrPark req limit) := by
  intro x ht hx
  obtain ⟨delay, hpending⟩ := w.grantOrPark_pending req limit
  rw [hpending]
  obtain rfl | ht := World.tracks_grantOrPark ht
  · exact ⟨_, List.mem_cons_self, rfl⟩
  · obtain ⟨m, hm, hid⟩ := hc x ht hx
    exact ⟨m, List.mem_cons_of_mem _ hm, hid⟩

theorem World.not_tracks_untrack (hs : w.slots.Shape) : ¬ (w.untrack id).slots.Tracks id := by
  rintro (hact | ⟨e, he, hid⟩)
  · exact Finset.notMem_erase _ _ hact
  · exact (hs.mem_remove.mp he).2 hid

theorem Covered.expireSlot (hc : Covered (some id) w) (hs : w.slots.Shape) (renewals : Nat)
    (check : Option DeploymentCheck) (written : Bool) (audit : Audit) :
    Covered none (w.expireSlot id renewals check written audit) := by
  obtain ⟨hun, h⟩ | ⟨w₁, hnote, -, h⟩ := w.expireSlot_cases id renewals check written audit
  · rw [h]
    exact hc.of_except fun ht => absurd ht hun
  · have hc₁ := hc.moves hnote
    have hs₁ := hnote.shape hs
    obtain ⟨delay, renewals', h⟩ | h := h
    · rw [h]
      have hsend : Moves none w₁ (w₁.scheduleExpiry id delay renewals') := .single (.schedule _)
      exact (hc₁.moves hsend).of_except fun _ => ⟨_, List.mem_cons_self, rfl⟩
    · rw [h]
      have hdrop : Covered none ((w₁.rejectStaleAwakeable id).untrack id) := by
        refine (hc₁.moves (World.rejectStaleAwakeable_untrack_moves hs₁)).of_except fun ht => ?_
        refine absurd ht (World.not_tracks_untrack ?_)
        rw [World.rejectStaleAwakeable_slots]
        exact hs₁
      exact hdrop.moves (World.reclaim_moves hs₁)

theorem Covered.handle (hs : w.slots.Shape) (hc : Covered none w) (l : Label) :
    Covered none (w.handle l) := by
  cases l with
  | acquireOrWait req limits audit =>
    obtain ⟨w₁, h₁, h | ⟨-, limit, h⟩⟩ := World.acquireOrWait_moves hs req limits audit
    · rw [h]
      exact hc.moves h₁
    · rw [h]
      exact (hc.moves h₁).grantOrPark limit
  | release id audit => exact hc.moves (World.release_moves hs)
  | expireSlot message check written audit =>
    -- the delivered message no longer counts for its own deployment
    have hc₁ : Covered (some message.deploymentID) (w.deliver message) := by
      intro x ht hx
      obtain ⟨m, hm, rfl⟩ := hc x ht (Option.some_ne_none _)
      have hne : m ≠ message := by
        rintro rfl
        exact hx rfl
      exact ⟨m, (List.mem_erase_of_ne hne).mpr hm, rfl⟩
    exact hc₁.expireSlot hs _ _ _ _

/-- Every deployment with a slot or a wait entry has an undelivered `ExpireSlot` message. -/
theorem audit_pending {past : List (World × Label)} (hrun : Run step .initial past w) (id : String)
    (ht : id ∈ w.slots.active
      ∨ ∃ e ∈ w.slots.prodWait ++ w.slots.previewWait, e.deploymentID = id) :
    ∃ m ∈ w.pending, m.deploymentID = id := by
  have hstart : Covered none .initial := by
    intro x ht
    simp [World.initial, Slots.empty, Slots.Tracks, Slots.waiting] at ht
  have hinv : Orderly w ∧ Covered none w := by
    refine hrun.invariant (P := fun _ w => Orderly w ∧ Covered none w)
      ⟨orderly_initial, hstart⟩ ?_
    intro past s l s' hs h
    obtain rfl := eq_handle_of_step h
    exact ⟨hs.1.handle l, hs.2.handle hs.1.shape l⟩
  exact hinv.2 id ht (Option.some_ne_none _)

/-- The audit of `"a"` is delivered while the database is down; `"b"` waits. -/
theorem audit_pending_rearmed : ∃ past w, Run step .initial past w
    ∧ w.slots = ⟨{"a"}, [], [⟨"b", "wake b"⟩]⟩
    ∧ (∃ m ∈ w.pending, m.deploymentID = "a") ∧ ∃ m ∈ w.pending, m.deploymentID = "b" := by
  refine Run.exists_of_record (P := fun _ w => w.slots = ⟨{"a"}, [], [⟨"b", "wake b"⟩]⟩)
    [.acquireOrWait ⟨"a", "wake a", false⟩ (.row 1) (fun _ => some []),
      .acquireOrWait ⟨"b", "wake b", false⟩ (.row 1) (fun _ => some []),
      .expireSlot ⟨"a", slotLeaseDuration, 0⟩ none true (fun _ => none)] (by decide +kernel) ?_
  intro past w hrun heq
  refine ⟨heq, audit_pending hrun "a" ?_, audit_pending hrun "b" ?_⟩
  · simp [heq]
  · simp [heq]

/-! ### Wake-ups -/

/-- A waiting caller was woken, was told that it is rejected, or still waits. -/
def Kept (w : World) (e : WaitEntry) : Prop :=
  .resolved e.awakeableID ∈ w.log ∨ w.Rejected e.awakeableID ∨ e ∈ w.slots.waiting

theorem Kept.mono (hk : Kept w e) (hlog : w.log ⊆ w'.log)
    (hwait : e ∈ w.slots.waiting → Kept w' e) : Kept w' e := by
  obtain h | ⟨reason, h⟩ | h := hk
  · exact .inl (hlog h)
  · exact .inr (.inl ⟨reason, hlog h⟩)
  · exact hwait h

theorem Kept.move (hk : Kept w e) (hne : e.awakeableID ≠ "") (h : Move released w w') :
    Kept w' e ∨ released = some e.deploymentID := by
  cases h with
  | note ev hev => exact .inl (hk.mono (List.subset_cons_self _ _) fun h => .inr (.inr h))
  | schedule m => exact .inl (hk.mono (List.Subset.refl _) fun h => .inr (.inr h))
  | shrink s _ _ hgone =>
    by_cases hstays : e ∈ w.slots.waiting → e ∈ s.waiting
    · exact .inl (hk.mono (List.Subset.refl _) fun h => .inr (.inr (hstays h)))
    · rw [Classical.not_imp] at hstays
      obtain hempty | hrej | hrel := hgone e hstays.1 hstays.2
      · exact absurd hempty hne
      · exact .inl (.inr (.inl hrej))
      · exact .inr hrel
  | promote production e' rest hhead hfirst =>
    refine .inl (hk.mono ?_ ?_)
    · exact List.subset_cons_of_subset _ (List.subset_cons_self _ _)
    · intro he
      rw [World.waiting_eq_cons hhead hfirst] at he
      obtain rfl | he := List.mem_cons.mp he
      · exact .inl List.mem_cons_self
      · exact .inr (.inr he)

theorem Kept.moves (hk : Kept w e) (hne : e.awakeableID ≠ "") (h : Moves released w w') :
    Kept w' e ∨ released = some e.deploymentID := by
  refine h.keep (I := fun w' => Kept w' e ∨ released = some e.deploymentID) ?_ (.inl hk)
  rintro w₁ w₂ (hk₁ | hrel) hm
  · exact hk₁.move hne hm
  · exact .inr hrel

theorem kept_grantOrPark_caller (limit : Nat) :
    Kept (w.grantOrPark req limit) ⟨req.deploymentID, req.awakeableID⟩ := by
  rw [World.grantOrPark]
  split
  · exact .inl List.mem_cons_self
  · exact .inr (.inr (World.mem_park_waiting.mpr (.inr rfl)))

theorem Kept.grantOrPark (hk : Kept w e) (limit : Nat) :
    Kept (w.grantOrPark req limit) e := by
  rw [World.grantOrPark]
  split
  · refine hk.mono ?_ fun h => .inr (.inr h)
    exact List.subset_cons_of_subset _ (List.subset_cons_self _ _)
  · refine hk.mono (List.subset_cons_self _ _) fun h => ?_
    exact .inr (.inr (World.mem_park_waiting.mpr (.inl h)))

theorem Kept.handle (hs : w.slots.Shape) (hk : Kept w e) (hne : e.awakeableID ≠ "") (l : Label) :
    Kept (w.handle l) e ∨ ∃ audit, l = .release e.deploymentID audit := by
  cases l with
  | acquireOrWait req limits audit =>
    obtain ⟨w₁, h₁, h⟩ := World.acquireOrWait_moves hs req limits audit
    have hk₁ : Kept w₁ e := (hk.moves hne h₁).resolve_right (Option.some_ne_none _).symm
    obtain h | ⟨-, limit, h⟩ := h
    · rw [h]
      exact .inl hk₁
    · rw [h]
      exact .inl (hk₁.grantOrPark limit)
  | release id audit =>
    obtain h | h := hk.moves hne (World.release_moves hs)
    · exact .inl h
    · exact .inr ⟨audit, by rw [Option.some.inj h]⟩
  | expireSlot message check written audit =>
    have hs₁ : (w.deliver message).slots.Shape := hs
    have hk₁ : Kept (w.deliver message) e := hk
    exact .inl ((hk₁.moves hne (World.expireSlot_moves hs₁ _ _ _ _)).resolve_right
      (Option.some_ne_none _).symm)

/-- A call that may wait names an awakeable, always the same one, and its limit can be read. -/
def WakesCaller (_ : List (World × Label)) (w : World) : Label → Prop
  | .acquireOrWait req limits _ =>
    req.awakeableID ≠ ""
      ∧ (∀ e ∈ w.slots.waiting, e.deploymentID = req.deploymentID →
        e.awakeableID = req.awakeableID)
      ∧ (¬ w.slots.Tracks req.deploymentID → buildLimit limits ≠ none)
  | .release _ _ => True
  | .expireSlot _ _ _ _ => True

instance WakesCaller.decidable (past : List (World × Label)) (w : World) :
    (l : Label) → Decidable (WakesCaller past w l)
  | .acquireOrWait req limits _ =>
    inferInstanceAs (Decidable (req.awakeableID ≠ ""
      ∧ (∀ e ∈ w.slots.waiting, e.deploymentID = req.deploymentID →
        e.awakeableID = req.awakeableID)
      ∧ (¬ w.slots.Tracks req.deploymentID → buildLimit limits ≠ none)))
  | .release _ _ => .isTrue trivial
  | .expireSlot _ _ _ _ => .isTrue trivial

theorem kept_caller {past : List (World × Label)} {limits : DbRead UInt16}
    (hs : w.slots.Shape) (hc : WakesCaller past w (.acquireOrWait req limits audit)) :
    Kept (w.handle (.acquireOrWait req limits audit)) ⟨req.deploymentID, req.awakeableID⟩ := by
  obtain ⟨-, hsame, hread⟩ := hc
  obtain ⟨-, h⟩ | ⟨⟨e, he, hid⟩, h⟩ | ⟨hun, hlim, -⟩ | ⟨-, limit, -, w₁, -, -, h⟩ :=
    World.acquireOrWait_cases hs req limits audit
  · rw [h]
    exact .inl List.mem_cons_self
  · -- the stored entry carries this very awakeable
    rw [h, ← hid, ← hsame e he hid]
    exact .inr (.inr he)
  · exact absurd hlim (hread hun)
  · rw [h]
    exact kept_grantOrPark_caller limit

def AllKept (past : List (World × Label)) (w : World) : Prop :=
  ∀ later s req limits audit earlier,
    past = later ++ (s, .acquireOrWait req limits audit) :: earlier →
    req.awakeableID ≠ "" ∧ (Kept w ⟨req.deploymentID, req.awakeableID⟩
      ∨ ∃ s' audit', (s', .release req.deploymentID audit') ∈ later)

theorem AllKept.step {past : List (World × Label)} {l : Label} (hs : w.slots.Shape)
    (hk : AllKept past w) (hc : WakesCaller past w l) : AllKept ((w, l) :: past) (w.handle l) := by
  intro later s req limits audit earlier heq
  cases later with
  | nil =>
    obtain ⟨hhead, rfl⟩ := List.cons.inj heq
    obtain ⟨rfl, rfl⟩ := Prod.mk.inj hhead
    exact ⟨hc.1, .inl (kept_caller hs hc)⟩
  | cons x later =>
    obtain ⟨rfl, hpast⟩ := List.cons.inj heq
    obtain ⟨hne, hold | ⟨s', audit', hrel⟩⟩ := hk later s req limits audit earlier hpast
    · obtain hnew | ⟨audit', rfl⟩ := hold.handle hs hne l
      · exact ⟨hne, .inl hnew⟩
      · exact ⟨hne, .inr ⟨w, audit', List.mem_cons_self⟩⟩
    · exact ⟨hne, .inr ⟨s', audit', List.mem_cons_of_mem _ hrel⟩⟩

/-- If every caller meets `WakesCaller`, every awakeable passed to `AcquireOrWait` is resolved,
rejected or stored, or its deployment has called `Release` since. -/
theorem awakeable_kept_of_wakesCaller {past : List (World × Label)}
    (hrun : Run step .initial past w) (hc : Always WakesCaller past)
    (later earlier : List (World × Label)) {s : World} {req : AcquireRequest}
    {limits : DbRead UInt16} {audit : Audit}
    (hcall : past = later ++ (s, .acquireOrWait req limits audit) :: earlier) :
    .resolved req.awakeableID ∈ w.log
      ∨ w.Rejected req.awakeableID
      ∨ (∃ e ∈ w.slots.prodWait ++ w.slots.previewWait, e.awakeableID = req.awakeableID)
      ∨ ∃ s' audit', (s', .release req.deploymentID audit') ∈ later := by
  have hstart : AllKept [] .initial := by
    intro later s req limits audit earlier h
    simp at h
  have hinv : Orderly w ∧ AllKept past w := by
    refine hrun.invariant_always (P := fun past w => Orderly w ∧ AllKept past w)
      ⟨orderly_initial, hstart⟩ ?_ hc
    intro past s l s' hs hl h
    obtain rfl := eq_handle_of_step h
    exact ⟨hs.1.handle l, hs.2.step hs.1.shape hl⟩
  obtain ⟨-, (hres | hrej | hwait) | hrel⟩ := hinv.2 later s req limits audit earlier hcall
  · exact .inl hres
  · exact .inr (.inl hrej)
  · exact .inr (.inr (.inl ⟨_, hwait, rfl⟩))
  · exact .inr (.inr (.inr hrel))

/-- `"b"` calls twice with one awakeable, and its dead entry is pruned when `"a"` releases. -/
theorem awakeable_kept_of_wakesCaller_pruned : ∃ later s limits audit earlier w,
    Run step .initial (later ++ (s, .acquireOrWait ⟨"b", "wake b", false⟩ limits audit) :: earlier) w
      ∧ w.slots = ⟨∅, [], []⟩
      ∧ (.resolved "wake b" ∈ w.log
        ∨ w.Rejected "wake b"
        ∨ (∃ e ∈ w.slots.prodWait ++ w.slots.previewWait, e.awakeableID = "wake b")
        ∨ ∃ s' audit', (s', .release "b" audit') ∈ later) := by
  have hrun := (((Run.start.next (a := .acquireOrWait ⟨"a", "wake a", false⟩ (.row 1)
      (fun _ => some [])) (Eq.refl (step .initial _))).next
    (a := .acquireOrWait ⟨"b", "wake b", false⟩ (.row 1) (fun _ => some [])) rfl).next
    (a := .acquireOrWait ⟨"b", "wake b", false⟩ (.row 1) (fun _ => some [])) rfl).next
    (a := .release "a" (fun _ => some ["b"])) rfl
  exact ⟨[_], _, _, _, _, _, hrun, by decide +kernel,
    awakeable_kept_of_wakesCaller hrun (by decide +kernel) [_] _ rfl⟩

/-- A restarted invocation of `"b"` calls with a fresh awakeable while `"b"` waits. When the
slot is handed over, only the first awakeable is resolved. -/
theorem fresh_awakeable_lost : ∃ later s limits audit earlier w,
    Run step .initial
        (later ++ (s, .acquireOrWait ⟨"b", "wake b again", false⟩ limits audit) :: earlier) w
      ∧ w.slots = ⟨{"b"}, [], []⟩
      ∧ .resolved "wake b again" ∉ w.log
      ∧ ¬ w.Rejected "wake b again"
      ∧ ∀ s' audit', (s', .release "b" audit') ∉ later := by
  have hrun := (((Run.start.next (a := .acquireOrWait ⟨"a", "wake a", false⟩ (.row 1)
      (fun _ => some [])) (Eq.refl (step .initial _))).next
    (a := .acquireOrWait ⟨"b", "wake b", false⟩ (.row 1) (fun _ => some [])) rfl).next
    (a := .acquireOrWait ⟨"b", "wake b again", false⟩ (.row 1) (fun _ => some [])) rfl).next
    (a := .release "a" (fun _ => some [])) rfl
  refine ⟨[_], _, _, _, _, _, hrun, by decide +kernel, by decide +kernel, by decide +kernel,
    ?_⟩
  intro s' audit' hmem
  obtain ⟨-, hlabel⟩ := Prod.mk.inj (List.mem_singleton.mp hmem)
  exact absurd (Label.release.inj hlabel).1 (by decide)

end Unkey.BuildSlot
