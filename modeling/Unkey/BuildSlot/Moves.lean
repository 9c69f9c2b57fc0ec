import Mathlib.Logic.Relation
import Unkey.Base.Line
import Unkey.BuildSlot.Handlers

/-!
# What the handlers of the build slot service can do

Besides granting a slot to its caller and parking it, every handler is a sequence of four moves: it
notes an effect, schedules an audit, drops entries or slots, or promotes the waiter that is next.
-/

namespace Unkey.BuildSlot

open Unkey.Base

/-! ### The lists -/

variable {e : WaitEntry} {s : Slots}

namespace Slots

def Tracks (s : Slots) (id : String) : Prop :=
  id ∈ s.active ∨ ∃ e ∈ s.waiting, e.deploymentID = id

instance (s : Slots) (id : String) : Decidable (s.Tracks id) := by
  unfold Tracks
  infer_instance

structure Shape (s : Slots) : Prop where
  nodup : (s.waiting.map (·.deploymentID)).Nodup
  parted : ∀ e ∈ s.waiting, e.deploymentID ∉ s.active

theorem mem_waiting :
    e ∈ s.waiting ↔ ∃ production, e ∈ s.waitList production := by
  simp [waiting, waitList, or_comm]

@[simp] theorem setWaitList_active (s : Slots) (production : Bool) (l : List WaitEntry) :
    (s.setWaitList production l).active = s.active := by
  cases production <;> rfl

@[simp] theorem waitList_setWaitList (s : Slots) (p q : Bool) (l : List WaitEntry) :
    (s.setWaitList p l).waitList q = if q = p then l else s.waitList q := by
  cases p <;> cases q <;> rfl

theorem Shape.eq_of_deploymentID (hs : s.Shape) {e' : WaitEntry}
    (he : e ∈ s.waiting) (he' : e' ∈ s.waiting) (heq : e.deploymentID = e'.deploymentID) : e = e' :=
  List.inj_on_of_nodup_map hs.nodup he he' heq

end Slots

theorem waitListContains_or (s : Slots) (id : String) :
    (waitListContains s.prodWait id || waitListContains s.previewWait id) = true
      ↔ ∃ e ∈ s.waiting, e.deploymentID = id := by
  simp only [waitListContains, Slots.waiting, ← List.any_append, List.any_eq_true, beq_iff_eq]

theorem mem_removeFromWaitList {l : List WaitEntry} (hl : (l.map (·.deploymentID)).Nodup)
    {id : String} :
    e ∈ removeFromWaitList l id ↔ e ∈ l ∧ e.deploymentID ≠ id := by
  induction l with
  | nil => simp [removeFromWaitList]
  | cons x l ih =>
    rw [List.map_cons, List.nodup_cons] at hl
    by_cases hx : x.deploymentID = id
    · -- the first entry goes, and no other one has its id
      have hother : e ∈ l → e.deploymentID ≠ id := by
        rintro he rfl
        exact hl.1 (hx ▸ List.mem_map_of_mem he)
      simp only [removeFromWaitList, List.eraseP_cons, hx, beq_self_eq_true, cond_true,
        List.mem_cons]
      grind
    · grind [removeFromWaitList]

theorem Slots.Shape.mem_remove (hs : s.Shape) {id : String} :
    e ∈ (s.remove id).waiting ↔ e ∈ s.waiting ∧ e.deploymentID ≠ id := by
  have hnd := hs.nodup
  rw [Slots.waiting, List.map_append, List.nodup_append] at hnd
  simp only [Slots.waiting, Slots.remove, List.mem_append, mem_removeFromWaitList hnd.1,
    mem_removeFromWaitList hnd.2.1]
  grind

theorem Slots.Shape.eq_of_removed (hs : s.Shape) {id : String}
    (he : e ∈ s.waiting) (hgone : e ∉ (s.remove id).waiting) : e.deploymentID = id := by
  by_contra hid
  exact hgone (hs.mem_remove.mpr ⟨he, hid⟩)

theorem Slots.remove_waitList_sublist (s : Slots) (id : String) (production : Bool) :
    ((s.remove id).waitList production).Sublist (s.waitList production) := by
  cases production <;> exact List.eraseP_sublist

theorem Slots.Shape.findAwakeableID_eq (hs : s.Shape) (he : e ∈ s.waiting) :
    findAwakeableID s.prodWait s.previewWait e.deploymentID = e.awakeableID := by
  rw [findAwakeableID]
  cases hfind : (s.prodWait ++ s.previewWait).find? (·.deploymentID == e.deploymentID) with
  | none => simpa using List.find?_eq_none.mp hfind e he
  | some e' =>
    have hid := List.find?_some hfind
    have hmem : e' ∈ s.waiting := List.mem_of_find?_eq_some hfind
    rw [hs.eq_of_deploymentID hmem he (by simpa using hid), Option.elim_some]

/-! ### Moves -/

def Event.Quiet : Event → Prop
  | .resolved _ | .rejected _ _ | .forceFailed _ _ _ => True
  | .granted _ _ | .queued _ _ | .handedOff _ _ => False

def Event.rejects (awakeableID : String) : Event → Bool
  | .rejected id _ => id == awakeableID
  | _ => false

def World.Rejected (w : World) (awakeableID : String) : Prop :=
  ∃ reason, .rejected awakeableID reason ∈ w.log

theorem World.any_rejects_iff (w : World) (awakeableID : String) :
    w.log.any (·.rejects awakeableID) = true ↔ w.Rejected awakeableID := by
  rw [List.any_eq_true]
  constructor
  · rintro ⟨ev, hmem, hev⟩
    cases ev with
    | rejected id reason =>
      obtain rfl := beq_iff_eq.mp hev
      exact ⟨reason, hmem⟩
    | _ => cases hev
  · rintro ⟨reason, hmem⟩
    exact ⟨_, hmem, beq_self_eq_true _⟩

instance (w : World) (awakeableID : String) : Decidable (w.Rejected awakeableID) :=
  decidable_of_iff _ (w.any_rejects_iff awakeableID)

def World.handTo (w : World) (production : Bool) (e : WaitEntry) (rest : List WaitEntry) : World where
  slots := { w.slots.setWaitList production rest with
    active := insert e.deploymentID w.slots.active }
  pending := ⟨e.deploymentID, slotLeaseDuration, 0⟩ :: w.pending
  log := .resolved e.awakeableID :: .handedOff e w.slots :: w.log

inductive Move (released : Option String) (w : World) : World → Prop
  | note (ev : Event) (hev : ev.Quiet) : Move released w { w with log := ev :: w.log }
  | schedule (m : Message) : Move released w { w with pending := m :: w.pending }
  | shrink (s : Slots) (hactive : s.active ⊆ w.slots.active)
      (hlists : ∀ production, (s.waitList production).Sublist (w.slots.waitList production))
      (hgone : ∀ e ∈ w.slots.waiting, e ∉ s.waiting →
        e.awakeableID = "" ∨ w.Rejected e.awakeableID ∨ released = some e.deploymentID) :
      Move released w { w with slots := s }
  | promote (production : Bool) (e : WaitEntry) (rest : List WaitEntry)
      (hhead : w.slots.waitList production = e :: rest)
      (hfirst : production = false → w.slots.prodWait = []) :
      Move released w (w.handTo production e rest)

abbrev Moves (released : Option String) : World → World → Prop :=
  Relation.ReflTransGen (Move released)

theorem Moves.keep {released : Option String} {I : World → Prop}
    (hmove : ∀ w w', I w → Move released w w' → I w') {w w' : World} (h : Moves released w w')
    (hw : I w) : I w' := by
  induction h with
  | refl => exact hw
  | tail _ hm ih => exact hmove _ _ ih hm

variable {released : Option String} {w w' : World} {id : String} {audit : Audit}

theorem waiting_sublist {s' : Slots}
    (h : ∀ production, (s.waitList production).Sublist (s'.waitList production)) :
    s.waiting.Sublist s'.waiting :=
  (h true).append (h false)

theorem World.waiting_eq_cons {production : Bool} {rest : List WaitEntry}
    (hhead : w.slots.waitList production = e :: rest)
    (hfirst : production = false → w.slots.prodWait = []) :
    w.slots.waiting = e :: (w.handTo production e rest).slots.waiting := by
  cases production with
  | true =>
    change w.slots.prodWait = e :: rest at hhead
    simp [Slots.waiting, World.handTo, Slots.setWaitList, hhead]
  | false =>
    change w.slots.previewWait = e :: rest at hhead
    simp [Slots.waiting, World.handTo, Slots.setWaitList, hhead, hfirst rfl]

theorem Move.tracks (h : Move released w w') (ht : w'.slots.Tracks id) : w.slots.Tracks id := by
  cases h with
  | note => exact ht
  | schedule => exact ht
  | shrink s hactive hlists _ =>
    obtain ht | ⟨e, he, rfl⟩ := ht
    · exact .inl (hactive ht)
    · exact .inr ⟨e, (waiting_sublist hlists).subset he, rfl⟩
  | promote production e rest hhead hfirst =>
    have hw := World.waiting_eq_cons hhead hfirst
    obtain ht | ⟨e', he', rfl⟩ := ht
    · obtain rfl | ht := Finset.mem_insert.mp ht
      · exact .inr ⟨e, by rw [hw]; exact List.mem_cons_self, rfl⟩
      · exact .inl ht
    · exact .inr ⟨e', by rw [hw]; exact List.mem_cons_of_mem _ he', rfl⟩

theorem Moves.tracks (h : Moves released w w') (ht : w'.slots.Tracks id) : w.slots.Tracks id := by
  by_contra hn
  exact h.keep (I := fun w => ¬ w.slots.Tracks id) (fun _ _ hi hm ht => hi (hm.tracks ht)) hn ht

theorem Move.shape (h : Move released w w') (hs : w.slots.Shape) : w'.slots.Shape := by
  cases h with
  | note => exact hs
  | schedule => exact hs
  | shrink s hactive hlists _ =>
    have hsub := waiting_sublist hlists
    exact ⟨hs.nodup.sublist (hsub.map _), fun e he ha => hs.parted e (hsub.subset he) (hactive ha)⟩
  | promote production e rest hhead hfirst =>
    have hw := World.waiting_eq_cons hhead hfirst
    have hnd := hs.nodup
    rw [hw, List.map_cons, List.nodup_cons] at hnd
    refine ⟨hnd.2, ?_⟩
    intro e' he' ha
    obtain heq | ha := Finset.mem_insert.mp ha
    · exact hnd.1 (heq ▸ List.mem_map_of_mem he')
    · exact hs.parted e' (by rw [hw]; exact List.mem_cons_of_mem _ he') ha

theorem Moves.shape (h : Moves released w w') (hs : w.slots.Shape) : w'.slots.Shape :=
  h.keep (fun _ _ hi hm => hm.shape hi) hs

/-! ### The handlers are made of moves -/

namespace World

theorem promoteNext_cases (w : World) :
    (w.slots.waiting = [] ∧ w.promoteNext = w)
      ∨ ∃ production e rest, w.slots.waitList production = e :: rest
        ∧ (production = false → w.slots.prodWait = [])
        ∧ w.promoteNext = w.handTo production e rest := by
  obtain ⟨⟨active, prod, preview⟩, pending, log⟩ := w
  match prod, preview with
  | e :: rest, preview => exact .inr ⟨true, e, rest, rfl, by simp, rfl⟩
  | [], e :: rest => exact .inr ⟨false, e, rest, rfl, fun _ => rfl, rfl⟩
  | [], [] => exact .inl ⟨rfl, rfl⟩

theorem promoteNext_moves (w : World) : Moves released w w.promoteNext := by
  obtain ⟨-, h⟩ | ⟨production, e, rest, hhead, hfirst, h⟩ := w.promoteNext_cases
  · rw [h]
  · rw [h]
    exact .single (.promote production e rest hhead hfirst)

theorem untrack_move (hs : w.slots.Shape)
    (hgone : ∀ e ∈ w.slots.waiting, e.deploymentID = id →
      e.awakeableID = "" ∨ w.Rejected e.awakeableID ∨ released = some id) :
    Move released w (w.untrack id) := by
  refine .shrink _ (Finset.erase_subset _ _) (w.slots.remove_waitList_sublist id) ?_
  intro e he hne
  obtain rfl := hs.eq_of_removed he hne
  exact hgone e he rfl

theorem dropWaitEntry_moves (hs : w.slots.Shape) : Moves released w (w.dropWaitEntry id) := by
  rw [dropWaitEntry]
  split
  · exact .refl
  · refine .tail (.single (.note (.rejected _ _) trivial))
      (.shrink _ subset_rfl (w.slots.remove_waitList_sublist id) ?_)
    intro e he hne
    obtain rfl := hs.eq_of_removed he hne
    rw [hs.findAwakeableID_eq he]
    exact .inr (.inl ⟨_, List.mem_cons_self⟩)

theorem dropWaitEntries_moves (ids : List String) (hs : w.slots.Shape) :
    Moves released w (w.dropWaitEntries ids) := by
  induction ids generalizing w with
  | nil => exact .refl
  | cons id ids ih =>
    have hdrop : Moves released w (w.dropWaitEntry id) := dropWaitEntry_moves hs
    exact hdrop.trans (ih (hdrop.shape hs))

theorem pruneDeadWaiters_moves (hs : w.slots.Shape) :
    Moves released w (w.pruneDeadWaiters audit) := by
  rw [pruneDeadWaiters]
  split
  · exact .refl
  · split
    · exact .refl
    · exact dropWaitEntries_moves _ hs

theorem handOff_moves (hs : w.slots.Shape) : Moves released w (w.handOff audit) :=
  (pruneDeadWaiters_moves hs).trans (promoteNext_moves _)

theorem promoteRounds_moves (limit rounds : Nat) (w : World) :
    Moves released w (w.promoteRounds limit rounds) := by
  induction rounds generalizing w with
  | zero => exact .refl
  | succ rounds ih =>
    rw [promoteRounds]
    split
    · exact (promoteNext_moves w).trans (ih _)
    · exact .refl

theorem reclaimStaleSlots_moves (staleIDs : List String) (limit : Nat) :
    Moves released w (w.reclaimStaleSlots staleIDs limit) := by
  have hfree : Move released w (w.freeSlots staleIDs) := by
    refine .shrink _ Finset.sdiff_subset ?_ (fun e he hne => absurd he hne)
    intro production
    cases production <;> exact .refl _
  exact .head hfree (promoteRounds_moves _ _ _)

theorem reclaimDead_moves (hs : w.slots.Shape) (deadIDs : List String) (limit : Nat) :
    Moves released w (w.reclaimDead deadIDs limit) := by
  rw [reclaimDead]
  split
  · exact (dropWaitEntries_moves _ hs).trans (reclaimStaleSlots_moves _ _)
  · exact dropWaitEntries_moves _ hs

theorem release_moves (hs : w.slots.Shape) : Moves (some id) w (w.release id audit) := by
  have huntrack : Move (some id) w (w.untrack id) := untrack_move hs fun _ _ _ => .inr (.inr rfl)
  rw [release]
  split
  · exact .head huntrack (handOff_moves (huntrack.shape hs))
  · exact .single huntrack

@[simp] theorem rejectStaleAwakeable_slots (w : World) (id : String) :
    (w.rejectStaleAwakeable id).slots = w.slots := by
  rw [rejectStaleAwakeable]
  split <;> rfl

theorem rejectStaleAwakeable_untrack_moves (hs : w.slots.Shape) :
    Moves none w ((w.rejectStaleAwakeable id).untrack id) := by
  rw [rejectStaleAwakeable]
  split
  · rename_i hempty
    refine .single (untrack_move hs ?_)
    rintro e he rfl
    rw [hs.findAwakeableID_eq he] at hempty
    exact .inl hempty
  · refine .tail (.single (.note (.rejected _ _) trivial)) (untrack_move hs ?_)
    rintro e he rfl
    rw [hs.findAwakeableID_eq he]
    exact .inr (.inl ⟨_, List.mem_cons_self⟩)

theorem reclaim_moves (hs : w.slots.Shape) :
    Moves none ((w.rejectStaleAwakeable id).untrack id) (w.reclaim id audit) := by
  rw [reclaim]
  split
  · exact handOff_moves ((rejectStaleAwakeable_untrack_moves hs).shape hs)
  · exact .refl

/-! ### What each handler does -/

theorem acquireOrWait_cases (hs : w.slots.Shape) (req : AcquireRequest) (limits : DbRead UInt16)
    (audit : Audit) :
    (req.deploymentID ∈ w.slots.active
        ∧ w.handle (.acquireOrWait req limits audit) = w.resolveAwakeable req.awakeableID)
      ∨ ((∃ e ∈ w.slots.waiting, e.deploymentID = req.deploymentID)
        ∧ w.handle (.acquireOrWait req limits audit) = w)
      ∨ (¬ w.slots.Tracks req.deploymentID ∧ buildLimit limits = none
        ∧ w.handle (.acquireOrWait req limits audit) = w)
      ∨ (¬ w.slots.Tracks req.deploymentID ∧ ∃ limit, buildLimit limits = some limit
        ∧ ∃ w₁, Moves none w w₁
          ∧ (w₁ = w ∨ ¬ w.slots.HasRoom limit ∧ ∃ deadIDs, w₁ = w.reclaimDead deadIDs limit)
          ∧ w.handle (.acquireOrWait req limits audit) = w₁.grantOrPark req limit) := by
  by_cases hact : req.deploymentID ∈ w.slots.active
  · exact .inl ⟨hact, by simp [handle, acquireOrWait, hact]⟩
  by_cases hwait : ∃ e ∈ w.slots.waiting, e.deploymentID = req.deploymentID
  · refine .inr (.inl ⟨hwait, ?_⟩)
    rw [handle, acquireOrWait, if_neg hact, if_pos ((waitListContains_or _ _).mpr hwait)]
  have huntracked : ¬ w.slots.Tracks req.deploymentID := fun h => h.elim hact hwait
  rw [handle, acquireOrWait, if_neg hact, if_neg (mt (waitListContains_or _ _).mp hwait)]
  refine .inr (.inr ?_)
  cases hlim : buildLimit limits with
  | none => exact .inl ⟨huntracked, rfl, rfl⟩
  | some limit =>
    refine .inr ⟨huntracked, limit, rfl, ?_⟩
    by_cases hroom : w.slots.HasRoom limit
    · exact ⟨w, .refl, .inl rfl, by simp [grantOrPark, hroom]⟩
    · simp only [if_neg hroom]
      cases audit (w.slots.active.val
          + (waitListIDs [w.slots.prodWait, w.slots.previewWait] : Multiset String)) with
      | none => exact ⟨w, .refl, .inl rfl, by simp [grantOrPark, hroom]⟩
      | some deadIDs =>
        cases deadIDs with
        | nil => exact ⟨w, .refl, .inl rfl, by simp [grantOrPark, hroom]⟩
        | cons deadID deadIDs =>
          exact ⟨_, reclaimDead_moves hs _ limit, .inr ⟨hroom, _, rfl⟩, rfl⟩

theorem acquireOrWait_slots (hs : w.slots.Shape) (req : AcquireRequest) (limits : DbRead UInt16)
    (audit : Audit) :
    (w.handle (.acquireOrWait req limits audit)).slots = w.slots
      ∨ ∃ limit, buildLimit limits = some limit
        ∧ ∃ w₁, ¬ w₁.slots.Tracks req.deploymentID
          ∧ (w₁ = w ∨ ¬ w.slots.HasRoom limit ∧ ∃ deadIDs, w₁ = w.reclaimDead deadIDs limit)
          ∧ w.handle (.acquireOrWait req limits audit) = w₁.grantOrPark req limit := by
  obtain ⟨-, h⟩ | ⟨-, h⟩ | ⟨-, -, h⟩ | ⟨hun, limit, hlim, w₁, hmoves, hw₁, h⟩ :=
    acquireOrWait_cases hs req limits audit
  · exact .inl (by rw [h]; rfl)
  · exact .inl (by rw [h])
  · exact .inl (by rw [h])
  · exact .inr ⟨limit, hlim, w₁, fun ht => hun (hmoves.tracks ht), hw₁, h⟩

theorem expireSlot_cases (w : World) (id : String) (renewals : Nat)
    (check : Option DeploymentCheck) (written : Bool) (audit : Audit) :
    (¬ w.slots.Tracks id ∧ w.expireSlot id renewals check written audit = w)
      ∨ ∃ w₁, Moves none w w₁ ∧ w₁.slots = w.slots
        ∧ ((∃ delay renewals',
            w.expireSlot id renewals check written audit = w₁.scheduleExpiry id delay renewals')
          ∨ w.expireSlot id renewals check written audit = w₁.reclaim id audit) := by
  by_cases htracks : w.slots.Tracks id
  · refine .inr ?_
    have hseen : ¬ (id ∉ w.slots.active ∧ !(waitListContains w.slots.prodWait id
        || waitListContains w.slots.previewWait id)) := by
      rintro ⟨hact, hwait⟩
      rw [Bool.not_eq_true', ← Bool.not_eq_true, waitListContains_or] at hwait
      exact htracks.elim hact hwait
    rw [expireSlot.eq_def, if_neg hseen]
    -- one case for each exit of the handler
    cases check with
    | none => exact ⟨w, .refl, rfl, .inl ⟨_, _, rfl⟩⟩
    | some check =>
      dsimp only
      split
      · split
        · exact ⟨w, .refl, rfl, .inl ⟨_, _, rfl⟩⟩
        · split
          · split
            · exact ⟨_, .single (.note (.forceFailed _ _ _) trivial), rfl, .inr rfl⟩
            · exact ⟨_, .single (.note (.forceFailed _ _ _) trivial), rfl, .inl ⟨_, _, rfl⟩⟩
          · exact ⟨w, .refl, rfl, .inr rfl⟩
      · exact ⟨w, .refl, rfl, .inr rfl⟩
  · refine .inl ⟨htracks, ?_⟩
    have hact : id ∉ w.slots.active := fun h => htracks (.inl h)
    have hwait : (waitListContains w.slots.prodWait id
        || waitListContains w.slots.previewWait id) = false := by
      rw [← Bool.not_eq_true, waitListContains_or]
      exact fun h => htracks (.inr h)
    rw [expireSlot.eq_def, if_pos ⟨hact, by rw [hwait]; rfl⟩]

theorem acquireOrWait_moves (hs : w.slots.Shape) (req : AcquireRequest)
    (limits : DbRead UInt16) (audit : Audit) :
    ∃ w₁, Moves none w w₁ ∧ (w.handle (.acquireOrWait req limits audit) = w₁
      ∨ (¬ w₁.slots.Tracks req.deploymentID
        ∧ ∃ limit, w.handle (.acquireOrWait req limits audit) = w₁.grantOrPark req limit)) := by
  obtain ⟨-, h⟩ | ⟨-, h⟩ | ⟨-, -, h⟩ | ⟨hun, limit, -, w₁, hmoves, -, h⟩ :=
    acquireOrWait_cases hs req limits audit
  · exact ⟨_, .single (.note (.resolved _) trivial), .inl h⟩
  · exact ⟨w, .refl, .inl h⟩
  · exact ⟨w, .refl, .inl h⟩
  · exact ⟨w₁, hmoves, .inr ⟨fun ht => hun (hmoves.tracks ht), limit, h⟩⟩

theorem expireSlot_moves (hs : w.slots.Shape) (renewals : Nat) (check : Option DeploymentCheck)
    (written : Bool) (audit : Audit) :
    Moves none w (w.expireSlot id renewals check written audit) := by
  obtain ⟨-, h⟩ | ⟨w₁, hnote, -, ⟨delay, renewals', h⟩ | h⟩ :=
    w.expireSlot_cases id renewals check written audit
  · rw [h]
  · rw [h]
    exact hnote.tail (.schedule _)
  · rw [h]
    have hs₁ := hnote.shape hs
    exact hnote.trans ((rejectStaleAwakeable_untrack_moves hs₁).trans (reclaim_moves hs₁))

end World

end Unkey.BuildSlot
