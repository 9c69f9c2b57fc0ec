import Unkey.BuildSlot.Queue

/-!
# The capacity of the build slot queue

At a constant limit no more slots than the limit are held, and all of them are while anyone waits.
-/

namespace Unkey.BuildSlot

open Unkey.Base

variable {w w' : World} {id : String} {audit : Audit} {limit L : Nat}

/-! ### Slots held -/

theorem buildLimit_lt {limits : DbRead UInt16} (h : buildLimit limits = some limit) :
    limit < 2 ^ 16 := by
  cases limits with
  | row max =>
    obtain rfl := Option.some.inj h
    exact max.toNat_lt
  | notFound =>
    obtain rfl := Option.some.inj h
    decide
  | failed => cases h

theorem hasRoom_iff {s : Slots} (hcard : s.active.card < 2 ^ 32) :
    s.HasRoom limit ↔ s.active.card < limit := by
  rw [Slots.HasRoom, Nat.mod_eq_of_lt hcard]

variable {req : AcquireRequest}

namespace World

theorem dropWaitEntry_slots (w : World) (id : String) :
    (w.dropWaitEntry id).slots.active = w.slots.active
      ∧ (w.dropWaitEntry id).slots.waiting.Sublist w.slots.waiting := by
  rw [dropWaitEntry]
  split
  · exact ⟨rfl, .refl _⟩
  · exact ⟨rfl, waiting_sublist (w.slots.remove_waitList_sublist id)⟩

theorem dropWaitEntries_slots (w : World) (ids : List String) :
    (w.dropWaitEntries ids).slots.active = w.slots.active
      ∧ (w.dropWaitEntries ids).slots.waiting.Sublist w.slots.waiting := by
  induction ids generalizing w with
  | nil => exact ⟨rfl, .refl _⟩
  | cons id ids ih =>
    obtain ⟨hactive, hwaiting⟩ := w.dropWaitEntry_slots id
    obtain ⟨ihactive, ihwaiting⟩ := ih (w.dropWaitEntry id)
    exact ⟨ihactive.trans hactive, ihwaiting.trans hwaiting⟩

theorem pruneDeadWaiters_slots (w : World) (audit : Audit) :
    (w.pruneDeadWaiters audit).slots.active = w.slots.active
      ∧ (w.pruneDeadWaiters audit).slots.waiting.Sublist w.slots.waiting := by
  rw [pruneDeadWaiters]
  split
  · exact ⟨rfl, .refl _⟩
  · split
    · exact ⟨rfl, .refl _⟩
    · exact w.dropWaitEntries_slots _

theorem promoteNext_of_waiting (hs : w.slots.Shape) (hne : w.slots.waiting ≠ []) :
    w.promoteNext.slots.active.card = w.slots.active.card + 1
      ∧ w.promoteNext.slots.waiting.length + 1 = w.slots.waiting.length := by
  obtain ⟨hnil, -⟩ | ⟨production, e, rest, hhead, hfirst, h⟩ := w.promoteNext_cases
  · exact absurd hnil hne
  · have hw := waiting_eq_cons hhead hfirst
    have hmem : e ∈ w.slots.waiting := by rw [hw]; exact List.mem_cons_self
    rw [h, hw, List.length_cons]
    exact ⟨Finset.card_insert_of_notMem (hs.parted e hmem), rfl⟩

theorem promoteNext_of_nil (hnil : w.slots.waiting = []) : w.promoteNext = w := by
  obtain ⟨-, h⟩ | ⟨production, e, rest, hhead, hfirst, -⟩ := w.promoteNext_cases
  · exact h
  · rw [waiting_eq_cons hhead hfirst] at hnil
    cases hnil

theorem promoteRounds_done (limit : Nat) {rounds : Nat} (hs : w.slots.Shape)
    (hr : w.slots.waiting.length ≤ rounds) :
    ¬ (w.promoteRounds limit rounds).slots.HasRoom limit
      ∨ (w.promoteRounds limit rounds).slots.waiting = [] := by
  induction rounds generalizing w with
  | zero => exact .inr (List.length_eq_zero_iff.mp (Nat.le_zero.mp hr))
  | succ rounds ih =>
    rw [promoteRounds]
    split
    · rename_i hgo
      have hnext : Moves none w w.promoteNext := w.promoteNext_moves
      have hlen := (promoteNext_of_waiting hs hgo.2).2
      exact ih (hnext.shape hs) (by omega)
    · grind

theorem promoteRounds_card_le (hL : L < 2 ^ 32) (hlimit : limit ≤ L) (rounds : Nat)
    (hs : w.slots.Shape) (hcard : w.slots.active.card ≤ L) :
    (w.promoteRounds limit rounds).slots.active.card ≤ L := by
  induction rounds generalizing w with
  | zero => exact hcard
  | succ rounds ih =>
    rw [promoteRounds]
    split
    · rename_i hgo
      have hroom := (hasRoom_iff (by omega)).mp hgo.1
      have hnext : Moves none w w.promoteNext := w.promoteNext_moves
      have hone := (promoteNext_of_waiting hs hgo.2).1
      exact ih (hnext.shape hs) (by omega)
    · exact hcard

theorem reclaimDead_cases (hs : w.slots.Shape) (deadIDs : List String) (limit : Nat) :
    (w.reclaimDead deadIDs limit).slots.active = w.slots.active
      ∨ ∃ freed : World, freed.slots.Shape ∧ freed.slots.active ⊆ w.slots.active
        ∧ w.reclaimDead deadIDs limit
          = freed.promoteRounds limit freed.slots.waiting.length := by
  obtain ⟨hactive, -⟩ := w.dropWaitEntries_slots deadIDs
  have hdrop : Moves none w (w.dropWaitEntries deadIDs) := dropWaitEntries_moves deadIDs hs
  have hs₁ := hdrop.shape hs
  rw [reclaimDead]
  split
  · refine .inr ⟨(w.dropWaitEntries deadIDs).freeSlots _, ⟨hs₁.nodup, ?_⟩, ?_, rfl⟩
    · exact fun e he h => hs₁.parted e he (Finset.sdiff_subset h)
    · exact Finset.sdiff_subset.trans hactive.subset
  · exact .inl hactive

theorem reclaimDead_done (hs : w.slots.Shape) (deadIDs : List String)
    (hroom : ¬ w.slots.HasRoom limit) :
    ¬ (w.reclaimDead deadIDs limit).slots.HasRoom limit
      ∨ (w.reclaimDead deadIDs limit).slots.waiting = [] := by
  obtain hactive | ⟨freed, hfreed, -, h⟩ := reclaimDead_cases hs deadIDs limit
  · rw [Slots.HasRoom, hactive]
    exact .inl hroom
  · rw [h]
    exact promoteRounds_done limit hfreed le_rfl

theorem reclaimDead_card_le (hL : L < 2 ^ 32) (hlimit : limit ≤ L) (hs : w.slots.Shape)
    (deadIDs : List String) (hcard : w.slots.active.card ≤ L) :
    (w.reclaimDead deadIDs limit).slots.active.card ≤ L := by
  obtain hactive | ⟨freed, hfreed, hsub, h⟩ := reclaimDead_cases hs deadIDs limit
  · rw [hactive]
    exact hcard
  · rw [h]
    exact promoteRounds_card_le hL hlimit _ hfreed ((Finset.card_le_card hsub).trans hcard)

theorem handOff_card (hs : w.slots.Shape) (audit : Audit) :
    (w.handOff audit).slots.active.card ≤ w.slots.active.card + 1
      ∧ ((w.handOff audit).slots.waiting ≠ [] →
        w.slots.waiting ≠ [] ∧ (w.handOff audit).slots.active.card = w.slots.active.card + 1) := by
  obtain ⟨hactive, hsub⟩ := w.pruneDeadWaiters_slots audit
  have hprune : Moves none w (w.pruneDeadWaiters audit) := pruneDeadWaiters_moves hs
  rw [handOff]
  by_cases hnil : (w.pruneDeadWaiters audit).slots.waiting = []
  · rw [promoteNext_of_nil hnil, hactive]
    exact ⟨Nat.le_succ _, fun hne => absurd hnil hne⟩
  · rw [(promoteNext_of_waiting (hprune.shape hs) hnil).1, hactive]
    refine ⟨le_rfl, fun _ => ⟨?_, rfl⟩⟩
    rintro hw
    rw [hw] at hsub
    exact hnil (List.sublist_nil.mp hsub)

theorem release_card (hs : w.slots.Shape) (id : String) (audit : Audit) :
    (w.release id audit).slots.active.card ≤ w.slots.active.card
      ∧ ((w.release id audit).slots.waiting ≠ [] →
        w.slots.waiting ≠ [] ∧ (w.release id audit).slots.active.card = w.slots.active.card) := by
  have huntrack : Move (some id) w (w.untrack id) := untrack_move hs fun _ _ _ => .inr (.inr rfl)
  have hsome : (w.untrack id).slots.waiting ≠ [] → w.slots.waiting ≠ [] := by
    intro hne hnil
    have hsub : (w.untrack id).slots.waiting.Sublist w.slots.waiting :=
      waiting_sublist (w.slots.remove_waitList_sublist id)
    rw [hnil] at hsub
    exact hne (List.sublist_nil.mp hsub)
  rw [release]
  split
  · rename_i hact
    have hcard : (w.untrack id).slots.active.card + 1 = w.slots.active.card :=
      Finset.card_erase_add_one hact
    obtain ⟨hle, hbusy⟩ := handOff_card (huntrack.shape hs) audit
    rw [hcard] at hle hbusy
    exact ⟨hle, fun hne => ⟨hsome (hbusy hne).1, (hbusy hne).2⟩⟩
  · rename_i hact
    have hactive : (w.untrack id).slots.active = w.slots.active := Finset.erase_eq_of_notMem hact
    rw [hactive]
    exact ⟨le_rfl, fun hne => ⟨hsome hne, rfl⟩⟩

theorem reclaim_eq_release (w : World) (id : String) (audit : Audit) :
    w.reclaim id audit = (w.rejectStaleAwakeable id).release id audit := by
  rw [reclaim, release, rejectStaleAwakeable_slots]

theorem expireSlot_card (hs : w.slots.Shape) (id : String) (renewals : Nat)
    (check : Option DeploymentCheck) (written : Bool) (audit : Audit) :
    (w.expireSlot id renewals check written audit).slots.active.card ≤ w.slots.active.card
      ∧ ((w.expireSlot id renewals check written audit).slots.waiting ≠ [] →
        w.slots.waiting ≠ []
        ∧ (w.expireSlot id renewals check written audit).slots.active.card
          = w.slots.active.card) := by
  obtain ⟨-, h⟩ | ⟨w₁, -, hslots, ⟨delay, renewals', h⟩ | h⟩ :=
    w.expireSlot_cases id renewals check written audit
  · rw [h]
    exact ⟨le_rfl, fun hne => ⟨hne, rfl⟩⟩
  · rw [h, ← hslots]
    exact ⟨le_rfl, fun hne => ⟨hne, rfl⟩⟩
  · grind [rejectStaleAwakeable_slots, reclaim_eq_release, release_card]

theorem grantOrPark_card_le (hL : L < 2 ^ 32) (hlimit : limit ≤ L)
    (hun : ¬ w.slots.Tracks req.deploymentID) (hcard : w.slots.active.card ≤ L) :
    (w.grantOrPark req limit).slots.active.card ≤ L := by
  rw [grantOrPark]
  split
  · rename_i hroom
    rw [hasRoom_iff (by omega)] at hroom
    have hadd : (w.grantSlot req.deploymentID req.awakeableID).slots.active.card
        = w.slots.active.card + 1 := Finset.card_insert_of_notMem fun h => hun (.inl h)
    omega
  · rw [park_active]
    exact hcard

end World

def Label.readLimit : Label → Option Nat
  | .acquireOrWait _ limits _ => buildLimit limits
  | .release _ _ => none
  | .expireSlot _ _ _ _ => none

theorem handle_card_le {l : Label} (hL : L < 2 ^ 32) (hs : w.slots.Shape)
    (hlimit : ∀ limit, l.readLimit = some limit → limit ≤ L) (hcard : w.slots.active.card ≤ L) :
    (w.handle l).slots.active.card ≤ L := by
  cases l with
  | acquireOrWait req limits audit =>
    obtain h | ⟨limit, hlim, w₁, hun, hw₁, h⟩ := World.acquireOrWait_slots hs req limits audit
    · rw [h]
      exact hcard
    · rw [h]
      have hle := hlimit limit hlim
      obtain rfl | ⟨-, deadIDs, rfl⟩ := hw₁
      · exact World.grantOrPark_card_le hL hle hun hcard
      · exact World.grantOrPark_card_le hL hle hun
          (World.reclaimDead_card_le hL hle hs deadIDs hcard)
  | release id audit => exact (World.release_card hs id audit).1.trans hcard
  | expireSlot message check written audit =>
    have hs₁ : (w.deliver message).slots.Shape := hs
    exact (World.expireSlot_card hs₁ _ _ _ _ _).1.trans hcard

/-! ### A constant limit -/

def ReadsLimit (L : Nat) (_ : List (World × Label)) (_ : World) (l : Label) : Prop :=
  l.readLimit = none ∨ l.readLimit = some L

instance (past : List (World × Label)) (w : World) (l : Label) : Decidable (ReadsLimit L past w l) :=
  inferInstanceAs (Decidable (_ ∨ _))

/-- No more slots are taken than there are, and nobody waits while one is free. -/
def Balanced (L : Nat) (s : Slots) : Prop :=
  s.active.card ≤ L ∧ (s.waiting ≠ [] → s.active.card = L)

theorem Balanced.grantOrPark (hL : L < 2 ^ 32)
    (hun : ¬ w.slots.Tracks req.deploymentID) (hb : Balanced L w.slots) :
    Balanced L (w.grantOrPark req L).slots := by
  refine ⟨World.grantOrPark_card_le hL le_rfl hun hb.1, ?_⟩
  have hcard := hb.1
  rw [World.grantOrPark]
  split
  · rename_i hroom
    rw [hasRoom_iff (by omega)] at hroom
    intro hne
    have := hb.2 hne
    omega
  · rename_i hroom
    rw [hasRoom_iff (by omega)] at hroom
    intro _
    rw [World.park_active]
    omega

theorem Balanced.reclaimDead (hL : L < 2 ^ 32) (hs : w.slots.Shape) (hb : Balanced L w.slots)
    (hroom : ¬ w.slots.HasRoom L) (deadIDs : List String) :
    Balanced L (w.reclaimDead deadIDs L).slots := by
  have hcard := World.reclaimDead_card_le hL le_rfl hs deadIDs hb.1
  refine ⟨hcard, fun hne => ?_⟩
  obtain hfull | hnil := World.reclaimDead_done hs deadIDs hroom
  · rw [hasRoom_iff (by omega)] at hfull
    omega
  · exact absurd hnil hne

theorem Balanced.handle {l : Label} (hs : w.slots.Shape) (hb : Balanced L w.slots)
    (hlimit : l.readLimit = none ∨ l.readLimit = some L) : Balanced L (w.handle l).slots := by
  cases l with
  | acquireOrWait req limits audit =>
    obtain h | ⟨limit, hlim, w₁, hun, hw₁, h⟩ := World.acquireOrWait_slots hs req limits audit
    · rw [h]
      exact hb
    · obtain rfl : limit = L := by
        simpa [Label.readLimit, hlim] using hlimit
      have hL : limit < 2 ^ 32 := (buildLimit_lt hlim).trans (by decide)
      rw [h]
      obtain rfl | ⟨hroom, deadIDs, rfl⟩ := hw₁
      · exact hb.grantOrPark hL hun
      · exact (hb.reclaimDead hL hs hroom deadIDs).grantOrPark hL hun
  | release id audit =>
    obtain ⟨hle, hbusy⟩ := World.release_card hs id audit
    exact ⟨hle.trans hb.1, fun hne => (hbusy hne).2.trans (hb.2 (hbusy hne).1)⟩
  | expireSlot message check written audit =>
    have hs₁ : (w.deliver message).slots.Shape := hs
    obtain ⟨hle, hbusy⟩ := World.expireSlot_card hs₁ message.deploymentID message.renewals check
      written audit
    exact ⟨hle.trans hb.1, fun hne => (hbusy hne).2.trans (hb.2 (hbusy hne).1)⟩

variable {past : List (World × Label)}

theorem balanced_of_run (hrun : Run step .initial past w)
    (hlimit : Always (ReadsLimit L) past) : Orderly w ∧ Balanced L w.slots := by
  refine hrun.invariant_always (P := fun _ w => Orderly w ∧ Balanced L w.slots) ?_ ?_ hlimit
  · exact ⟨orderly_initial, Nat.zero_le L, fun hne => absurd rfl hne⟩
  · intro past s l s' ⟨ho, hb⟩ hl h
    obtain rfl := eq_handle_of_step h
    exact ⟨ho.handle l, hb.handle ho.shape hl⟩

/-- At a constant limit no more slots than that are held, and every deployment is tracked
at most once. -/
theorem slots_capped_and_disjoint {past : List (World × Label)}
    (hrun : Run step .initial past w) (hlimit : Always (ReadsLimit L) past) :
    w.slots.active.card ≤ L
      ∧ ((w.slots.prodWait ++ w.slots.previewWait).map (·.deploymentID)).Nodup
      ∧ ∀ e ∈ w.slots.prodWait ++ w.slots.previewWait, e.deploymentID ∉ w.slots.active := by
  obtain ⟨ho, hb⟩ := balanced_of_run hrun hlimit
  exact ⟨hb.1, ho.shape.nodup, ho.shape.parted⟩

/-- `"b"` takes the slot of `"a"`, which is dead, before `"c"` parks. -/
theorem slots_capped_and_disjoint_reclaimed : ∃ past w, Run step .initial past w
    ∧ w.slots = ⟨{"b"}, [⟨"c", "wake c"⟩], []⟩ ∧ w.slots.active.card ≤ 1 := by
  refine Run.exists_of_record (P := fun past w => w.slots = ⟨{"b"}, [⟨"c", "wake c"⟩], []⟩ ∧
      Always (ReadsLimit 1) past)
    [.acquireOrWait ⟨"a", "wake a", true⟩ (.row 1) (fun _ => some []),
      .acquireOrWait ⟨"b", "wake b", false⟩ (.row 1) (fun _ => none),
      .acquireOrWait ⟨"c", "wake c", true⟩ (.row 1) (fun _ => some ["a"])] (by decide +kernel) ?_
  intro past w hrun heq
  exact ⟨heq.1, (slots_capped_and_disjoint hrun heq.2).1⟩

/-- At a constant limit all slots are held while anyone waits; preview deployments are
promoted only when no production deployment waits, and each list in its order. -/
theorem work_conserving_and_in_order {past : List (World × Label)}
    (hrun : Run step .initial past w) (hlimit : Always (ReadsLimit L) past) :
    (w.slots.prodWait ++ w.slots.previewWait ≠ [] → w.slots.active.card = L)
      ∧ (∀ e found, .handedOff e found ∈ w.log → e ∈ found.previewWait → found.prodWait = [])
      ∧ ∀ production, FirstComeFirstServed (w.line production) := by
  obtain ⟨ho, hb⟩ := balanced_of_run hrun hlimit
  exact ⟨hb.2, ho.priority, fun production => (ho.lines production).firstComeFirstServed⟩

theorem work_conserving_and_in_order_two_previews : ∃ past w, Run step .initial past w
    ∧ w.line false = [.served ⟨"c", "wake c"⟩, .served ⟨"b", "wake b"⟩, .joins ⟨"c", "wake c"⟩,
      .joins ⟨"b", "wake b"⟩]
    ∧ FirstComeFirstServed (w.line false)
    ∧ (w.slots.prodWait ++ w.slots.previewWait ≠ [] → w.slots.active.card = 1) := by
  refine Run.exists_of_record (P := fun past w => w.line false = [.served ⟨"c", "wake c"⟩, .served
        ⟨"b", "wake b"⟩, .joins ⟨"c", "wake c"⟩, .joins ⟨"b", "wake b"⟩] ∧
      Always (ReadsLimit 1) past)
    [.acquireOrWait ⟨"a", "wake a", false⟩ (.row 1) (fun _ => some []),
      .acquireOrWait ⟨"b", "wake b", false⟩ .notFound (fun _ => some []),
      .acquireOrWait ⟨"c", "wake c", false⟩ (.row 1) (fun _ => none),
      .acquireOrWait ⟨"d", "wake d", true⟩ (.row 1) (fun _ => none),
      .release "a" (fun _ => some ["d"]),
      .expireSlot ⟨"b", slotLeaseDuration, 0⟩ (some ⟨true, true, false⟩) true (fun _ => none)]
    (by decide +kernel) ?_
  intro past w hrun heq
  obtain ⟨hfull, -, hfifo⟩ := work_conserving_and_in_order hrun heq.2
  exact ⟨heq.1, hfifo false, hfull⟩

/-! ### Changing limits -/

/-- While others wait, a newcomer reads a limit that the active builds already reach. -/
def LimitWithinActive (_ : List (World × Label)) (w : World) : Label → Prop
  | .acquireOrWait req limits _ =>
    w.slots.waiting ≠ [] → ¬ w.slots.Tracks req.deploymentID →
      ∀ limit ∈ buildLimit limits, limit ≤ w.slots.active.card
  | .release _ _ => True
  | .expireSlot _ _ _ _ => True

instance LimitWithinActive.decidable (past : List (World × Label)) (w : World) :
    (l : Label) → Decidable (LimitWithinActive past w l)
  | .acquireOrWait req limits _ =>
    inferInstanceAs (Decidable (w.slots.waiting ≠ [] → ¬ w.slots.Tracks req.deploymentID →
      ∀ limit ∈ buildLimit limits, limit ≤ w.slots.active.card))
  | .release _ _ => .isTrue trivial
  | .expireSlot _ _ _ _ => .isTrue trivial

def FairGrants (w : World) : Prop :=
  ∀ id found, .granted id found ∈ w.log → found.waiting = []

theorem Move.fairGrants_iff {released : Option String} (h : Move released w w') :
    FairGrants w' ↔ FairGrants w := by
  cases h with
  | note ev hev =>
    refine forall₂_congr fun id found => imp_congr_left ?_
    rw [List.mem_cons, or_iff_right]
    rintro rfl
    exact hev
  | schedule => exact Iff.rfl
  | shrink => exact Iff.rfl
  | promote production e rest =>
    refine forall₂_congr fun id found => imp_congr_left ?_
    simp [World.handTo]

theorem Moves.fairGrants_iff {released : Option String} (h : Moves released w w') :
    FairGrants w' ↔ FairGrants w :=
  h.keep (I := fun w' => FairGrants w' ↔ FairGrants w)
    (fun _ _ hi hm => hm.fairGrants_iff.trans hi) Iff.rfl

theorem fairGrants_grantOrPark_iff :
    FairGrants (w.grantOrPark req limit)
      ↔ (w.slots.HasRoom limit → w.slots.waiting = []) ∧ FairGrants w := by
  rw [World.grantOrPark]
  split
  · rename_i hroom
    simp only [FairGrants, World.grantSlot, World.resolveAwakeable, World.scheduleExpiry,
      List.mem_cons, reduceCtorEq, false_or, Event.granted.injEq]
    constructor
    · intro h
      exact ⟨fun _ => h _ _ (.inl ⟨rfl, rfl⟩), fun id found hmem => h id found (.inr hmem)⟩
    · grind
  · rename_i hroom
    simp [FairGrants, World.park, World.scheduleExpiry, hroom]

theorem fairGrants_handle_iff {l : Label} (hs : w.slots.Shape)
    (hcard : w.slots.active.card < 2 ^ 32) :
    FairGrants (w.handle l) ↔ LimitWithinActive past w l ∧ FairGrants w := by
  cases l with
  | release id audit =>
    rw [LimitWithinActive, true_and]
    exact (World.release_moves hs).fairGrants_iff
  | expireSlot message check written audit =>
    have hs₁ : (w.deliver message).slots.Shape := hs
    rw [LimitWithinActive, true_and]
    exact (World.expireSlot_moves hs₁ _ _ _ _).fairGrants_iff
  | acquireOrWait req limits audit =>
    rw [LimitWithinActive]
    obtain ⟨hact, h⟩ | ⟨hwait, h⟩ | ⟨-, hlim, h⟩ | ⟨hun, limit, hlim, w₁, hmoves, hw₁, h⟩ :=
      World.acquireOrWait_cases hs req limits audit
    · have hnote : Moves none w (w.resolveAwakeable req.awakeableID) :=
        .single (.note (.resolved _) trivial)
      rw [h, hnote.fairGrants_iff, and_iff_right]
      exact fun _ hun => absurd (.inl hact) hun
    · rw [h, and_iff_right]
      exact fun _ hun => absurd (.inr hwait) hun
    · rw [h, and_iff_right]
      simp [hlim]
    · -- a limit within the slots held is one that leaves no room
      have hcond : (w.slots.waiting ≠ [] → ¬ w.slots.Tracks req.deploymentID →
          ∀ limit ∈ buildLimit limits, limit ≤ w.slots.active.card)
            ↔ (w.slots.HasRoom limit → w.slots.waiting = []) := by
        simp only [hun, not_false_eq_true, hlim, Option.mem_some_iff, forall_eq', forall_const,
          hasRoom_iff hcard, ← not_lt]
        exact not_imp_not
      rw [h, fairGrants_grantOrPark_iff, hcond, hmoves.fairGrants_iff]
      obtain rfl | ⟨hroom, deadIDs, rfl⟩ := hw₁
      · exact Iff.rfl
      · grind [World.reclaimDead_done]

theorem card_lt_of_run (hrun : Run step .initial past w) :
    w.slots.active.card < 2 ^ 32 := by
  have h := hrun.invariant (P := fun _ w => Orderly w ∧ w.slots.active.card ≤ 2 ^ 16)
    ⟨orderly_initial, Nat.zero_le _⟩ ?_
  · exact lt_of_le_of_lt h.2 (by decide)
  · intro past s l s' ⟨ho, hcard⟩ h
    obtain rfl := eq_handle_of_step h
    refine ⟨ho.handle l, handle_card_le (by decide) ho.shape ?_ hcard⟩
    intro limit hlim
    cases l with
    | acquireOrWait req limits audit => exact (buildLimit_lt hlim).le
    | release => cases hlim
    | expireSlot => cases hlim

/-- No newcomer has overtaken a parked deployment exactly if, whenever one was parked, the
limit that the newcomer read was at most the number of slots held. -/
theorem fair_iff_limitWithinActive {past : List (World × Label)}
    (hrun : Run step .initial past w) :
    (∀ id found, .granted id found ∈ w.log → found.prodWait ++ found.previewWait = [])
      ↔ Always LimitWithinActive past := by
  refine hrun.iff_always (P := fun _ w => FairGrants w) ?_ ?_
  · simp [FairGrants, World.initial]
  · intro past s l s' hrun h
    obtain rfl := eq_handle_of_step h
    exact fairGrants_handle_iff (orderly_of_run hrun).shape (card_lt_of_run hrun)

/-- The limit is raised once nobody waits. -/
theorem fair_iff_limitWithinActive_raised : ∃ past w, Run step .initial past w
    ∧ w.slots = ⟨{"c", "b"}, [], []⟩
    ∧ ∀ id found, .granted id found ∈ w.log → found.prodWait ++ found.previewWait = [] := by
  refine Run.exists_of_record (P := fun past w => w.slots = ⟨{"c", "b"}, [], []⟩ ∧
      Always LimitWithinActive past)
    [.acquireOrWait ⟨"a", "wake a", false⟩ (.row 1) (fun _ => some []),
      .acquireOrWait ⟨"b", "wake b", false⟩ (.row 1) (fun _ => some []),
      .release "a" (fun _ => some []),
      .acquireOrWait ⟨"c", "wake c", false⟩ (.row 2) (fun _ => some [])] (by decide +kernel) ?_
  intro past w hrun heq
  exact ⟨heq.1, (fair_iff_limitWithinActive hrun).mpr heq.2⟩

/-- The limit is raised to two while `"b"` waits, and `"c"` is granted the new slot. -/
theorem newcomer_overtakes_parked : ∃ past w, Run step .initial past w
    ∧ ∃ found, .granted "c" found ∈ w.log ∧ found.previewWait = [⟨"b", "wake b"⟩]
      ∧ w.slots = ⟨{"c", "a"}, [], [⟨"b", "wake b"⟩]⟩ := by
  refine Run.exists_of_record (P := fun _ w => w.slots = ⟨{"c", "a"}, [], [⟨"b", "wake b"⟩]⟩ ∧
      .granted "c" ⟨{"a"}, [], [⟨"b", "wake b"⟩]⟩ ∈ w.log)
    [.acquireOrWait ⟨"a", "wake a", false⟩ (.row 1) (fun _ => some []),
      .acquireOrWait ⟨"b", "wake b", false⟩ (.row 1) (fun _ => some []),
      .acquireOrWait ⟨"c", "wake c", false⟩ (.row 2) (fun _ => some [])] (by decide +kernel) ?_
  intro past w hrun heq
  exact ⟨_, heq.2, rfl, heq.1⟩

end Unkey.BuildSlot
