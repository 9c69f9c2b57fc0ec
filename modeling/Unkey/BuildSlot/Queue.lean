import Unkey.BuildSlot.Moves

/-!
# The order of the build slot queue

Whatever the limits, the audits and the checks come to, no deployment is tracked twice, each wait
list is a line that is served at its head, and a preview deployment is promoted only when no
production deployment waits.
-/

namespace Unkey.BuildSlot

open Unkey.Base

variable {released : Option String} {w w' : World} {id : String} {audit : Audit}

def lineEvent (production : Bool) : Event → Option (LineEvent WaitEntry)
  | .queued p e => if p = production then some (.joins e) else none
  | .handedOff e found => if e ∈ found.waitList production then some (.served e) else none
  | .resolved _ | .rejected _ _ | .forceFailed _ _ _ | .granted _ _ => none

def World.line (w : World) (production : Bool) : List (LineEvent WaitEntry) :=
  w.log.filterMap (lineEvent production)

/-- Both wait lists serve in the order of arrival, production before preview. -/
structure Orderly (w : World) : Prop where
  shape : w.slots.Shape
  lines : ∀ production, Line (w.line production) (w.slots.waitList production)
  priority : ∀ e found, .handedOff e found ∈ w.log → e ∈ found.previewWait → found.prodWait = []

theorem Slots.Shape.waitList_eq {s : Slots} (hs : s.Shape) {e : WaitEntry} {p q : Bool}
    (hp : e ∈ s.waitList p) (hq : e ∈ s.waitList q) : p = q := by
  have hnd := hs.nodup
  rw [Slots.waiting, List.map_append, List.nodup_append] at hnd
  -- an entry of both lists would have its id in both
  have hboth : e ∈ s.prodWait → e ∉ s.previewWait := fun h h' =>
    hnd.2.2 _ (List.mem_map_of_mem h) _ (List.mem_map_of_mem h') rfl
  cases p <;> cases q
  · rfl
  · exact absurd hp (hboth hq)
  · exact absurd hq (hboth hp)
  · rfl

theorem lineEvent_of_quiet {ev : Event} (hev : ev.Quiet) (production : Bool) :
    lineEvent production ev = none := by
  cases ev with
  | resolved | rejected | forceFailed => rfl
  | granted | queued | handedOff => exact hev.elim

theorem World.handTo_waitList (w : World) (p q : Bool) (e : WaitEntry) (rest : List WaitEntry) :
    (w.handTo p e rest).slots.waitList q = if q = p then rest else w.slots.waitList q := by
  cases p <;> cases q <;> rfl

theorem World.handTo_line (w : World) (p q : Bool) (e : WaitEntry) (rest : List WaitEntry) :
    (w.handTo p e rest).line q
      = if e ∈ w.slots.waitList q then .served e :: w.line q else w.line q := by
  simp only [World.line, World.handTo, List.filterMap_cons, lineEvent]
  split <;> simp_all

theorem Move.orderly (h : Move released w w') (ho : Orderly w) : Orderly w' := by
  refine ⟨h.shape ho.shape, ?_, ?_⟩
  · intro q
    cases h with
    | note ev hev =>
      rw [World.line, List.filterMap_cons_none (lineEvent_of_quiet hev q)]
      exact ho.lines q
    | schedule => exact ho.lines q
    | shrink s _ hlists _ => exact (ho.lines q).leave (hlists q)
    | promote p e rest hhead _ =>
      have hmem : e ∈ w.slots.waitList p := by rw [hhead]; exact List.mem_cons_self
      have hline := ho.lines q
      rw [World.handTo_line, World.handTo_waitList]
      by_cases hq : q = p
      · subst q
        rw [hhead] at hline
        rw [if_pos hmem, if_pos rfl]
        exact hline.serve
      · -- the promoted entry is not on the other list
        have hother : e ∉ w.slots.waitList q := fun hmem' => hq (ho.shape.waitList_eq hmem' hmem)
        rw [if_neg hother, if_neg hq]
        exact hline
  · intro e found hmem hpre
    cases h with
    | note ev hev =>
      obtain rfl | hmem := List.mem_cons.mp hmem
      · exact hev.elim
      · exact ho.priority e found hmem hpre
    | schedule => exact ho.priority e found hmem hpre
    | shrink => exact ho.priority e found hmem hpre
    | promote p e' rest hhead hfirst =>
      simp only [World.handTo, List.mem_cons, reduceCtorEq, false_or] at hmem
      obtain heq | hmem := hmem
      · obtain ⟨rfl, rfl⟩ := Event.handedOff.inj heq
        have hmem' : e ∈ w.slots.waitList p := by rw [hhead]; exact List.mem_cons_self
        exact hfirst (ho.shape.waitList_eq hmem' hpre)
      · exact ho.priority e found hmem hpre

theorem Orderly.grantSlot (ho : Orderly w) (hun : ¬ w.slots.Tracks id) (awakeableID : String) :
    Orderly (w.grantSlot id awakeableID) := by
  refine ⟨⟨ho.shape.nodup, ?_⟩, ho.lines, ?_⟩
  · intro e he hact
    obtain rfl | hact := Finset.mem_insert.mp hact
    · exact hun (.inr ⟨e, he, rfl⟩)
    · exact ho.shape.parted e he hact
  · intro e found hmem
    have hmem : .handedOff e found ∈ w.log := by
      simpa [World.grantSlot, World.resolveAwakeable, World.scheduleExpiry] using hmem
    exact ho.priority e found hmem

@[simp] theorem World.park_active (w : World) (production : Bool) (e : WaitEntry) :
    (w.park production e).slots.active = w.slots.active :=
  Slots.setWaitList_active _ _ _

theorem World.mem_park_waiting {production : Bool} {e e' : WaitEntry} :
    e' ∈ (w.park production e).slots.waiting ↔ e' ∈ w.slots.waiting ∨ e' = e := by
  cases production <;>
    simp [World.park, World.scheduleExpiry, Slots.waiting, Slots.setWaitList, Slots.waitList] <;>
    grind

theorem Orderly.park {e : WaitEntry} (ho : Orderly w) (hun : ¬ w.slots.Tracks e.deploymentID)
    (production : Bool) : Orderly (w.park production e) := by
  have hnew : ∀ x ∈ w.slots.waiting, x.deploymentID ≠ e.deploymentID :=
    fun x hx heq => hun (.inr ⟨x, hx, heq⟩)
  refine ⟨⟨?_, ?_⟩, ?_, ?_⟩
  · -- the ids are those of before and one that was not tracked
    have hperm : (w.park production e).slots.waiting.Perm (e :: w.slots.waiting) := by
      cases production with
      | true => exact (List.perm_append_singleton e w.slots.prodWait).append_right _
      | false =>
        change (w.slots.prodWait ++ (w.slots.previewWait ++ [e])).Perm _
        rw [← List.append_assoc]
        exact List.perm_append_singleton e w.slots.waiting
    rw [(hperm.map _).nodup_iff, List.map_cons, List.nodup_cons]
    exact ⟨by simpa using hnew, ho.shape.nodup⟩
  · intro x hx
    rw [World.park_active]
    obtain hx | rfl := World.mem_park_waiting.mp hx
    · exact ho.shape.parted x hx
    · exact fun hact => hun (.inl hact)
  · intro q
    have hline := ho.lines q
    by_cases hq : q = production
    · subst q
      have hnot : e ∉ w.slots.waitList production := fun he =>
        hnew e (Slots.mem_waiting.mpr ⟨_, he⟩) rfl
      simpa [World.line, World.park, World.scheduleExpiry, lineEvent] using hline.join hnot
    · simpa [World.line, World.park, World.scheduleExpiry, lineEvent, hq, Ne.symm hq] using hline
  · intro x found hmem
    have hmem : .handedOff x found ∈ w.log := by
      simpa [World.park, World.scheduleExpiry] using hmem
    exact ho.priority x found hmem

theorem Orderly.grantOrPark {req : AcquireRequest} (ho : Orderly w)
    (hun : ¬ w.slots.Tracks req.deploymentID) (limit : Nat) : Orderly (w.grantOrPark req limit) := by
  rw [World.grantOrPark]
  split
  · exact ho.grantSlot hun _
  · exact ho.park hun _

theorem Orderly.handle (ho : Orderly w) (l : Label) : Orderly (w.handle l) := by
  have hmoves : ∀ {released w w'}, Orderly w → Moves released w w' → Orderly w' :=
    fun ho h => h.keep (fun _ _ hi hm => hm.orderly hi) ho
  cases l with
  | acquireOrWait req limits audit =>
    obtain ⟨w₁, h₁, h | ⟨hun, limit, h⟩⟩ := World.acquireOrWait_moves ho.shape req limits audit
    · rw [h]
      exact hmoves ho h₁
    · rw [h]
      exact (hmoves ho h₁).grantOrPark hun limit
  | release id audit => exact hmoves ho (World.release_moves ho.shape)
  | expireSlot message check written audit =>
    have ho₁ : Orderly (w.deliver message) := ⟨ho.shape, ho.lines, ho.priority⟩
    exact hmoves ho₁ (World.expireSlot_moves ho₁.shape _ _ _ _)

theorem eq_handle_of_step {l : Label} (h : step w l = some w') : w' = w.handle l :=
  (Option.some.inj h).symm

theorem orderly_initial : Orderly .initial where
  shape := ⟨List.nodup_nil, by simp [World.initial, Slots.empty, Slots.waiting]⟩
  lines := by
    intro production
    cases production <;> exact .empty
  priority := by simp [World.initial]

theorem orderly_of_run {past : List (World × Label)} (hrun : Run step .initial past w) :
    Orderly w :=
  hrun.invariant (P := fun _ w => Orderly w) orderly_initial fun _ _ l _ ho h =>
    eq_handle_of_step h ▸ ho.handle l

end Unkey.BuildSlot
