import Mathlib.Data.List.Nodup
import Unkey.CustomDomain.Verify

/-!
# Taking a verified domain over

A run that finds its CNAME asks once whether another workspace has the domain verified, and needs no
TXT proof if none has.
-/

namespace Unkey.CustomDomain

open Unkey.Base Unkey.Deploy

def Stage.checked : Stage → Option (DomainRow × Checks)
  | .lookingUpHost dom c | .countingAttempt dom c _ | .recordingOwnership dom c _
  | .markingVerified dom c | .creatingChallenge dom c | .revoking dom c => some (dom, c)
  | _ => none

def Stage.row : Stage → Option DomainRow
  | .markingFailed dom | .markingVerifying dom | .lookingUpCname dom | .checkingContention dom
  | .lookingUpTxt dom _ _ | .lookingUpHost dom _ | .countingAttempt dom _ _
  | .recordingOwnership dom _ _ | .markingVerified dom _ | .creatingChallenge dom _
  | .revoking dom _ | .creatingRoute dom => some dom
  | .resetting | .fetching | .done => none

def Verification.unproved (v : Verification) : Option DomainRow :=
  v.stage.checked.bind fun x => if x.2.requiresTxt || v.journal.revoked then none else some x.1

def Verification.marks (v : Verification) : Option DomainRow :=
  match v.stage with
  | .markingVerified dom _ => if v.journal.verified then none else some dom
  | _ => none

def Verification.revokes (rows : Rows) (v : Verification) : Option DomainRow :=
  match v.stage with
  | .revoking dom _ =>
    if v.journal.revoked then none
    else findVerifiedExcludingWorkspace rows dom.domain dom.workspaceId
  | _ => none

/-- The verification has seen a TXT record with the token of its domain. -/
def TxtProved (past : List (State × Label)) (r : Nat) : Prop :=
  ∃ x ∈ past, ∃ a v dom cnameVerified contested, x.2 = .step r a ∧ x.1.runs[r]? = some v ∧
    v.stage = .lookingUpTxt dom cnameVerified contested ∧
    checkTXTRecord dom.verificationToken a.txt = true

/-- A step that takes a domain away from another workspace is one of a verification with a TXT
proof. -/
def ProvedTakeover (past : List (State × Label)) (s : State) : Label → Prop
  | .step r _ => ∀ v, s.runs[r]? = some v → v.revokes s.rows ≠ none → TxtProved past r
  | _ => True

/-- When a domain is marked verified, no other workspace is about to mark it without a proof. -/
def Exclusive (_ : List (State × Label)) (s : State) : Label → Prop
  | .step r _ => ∀ v ∈ s.runs[r]?, ∀ dom ∈ v.marks, ∀ v' ∈ s.runs, ∀ dom' ∈ v'.unproved,
      sameName dom'.domain dom.domain = true → dom'.workspaceId = dom.workspaceId
  | _ => True

instance (past : List (State × Label)) (s : State) (l : Label) :
    Decidable (Exclusive past s l) := by
  cases l <;> unfold Exclusive <;> infer_instance

def DomainRow.key (row : DomainRow) : String × String × String :=
  (row.id, row.workspaceId, row.domain)

variable {rows : Rows}

theorem map_key_updateRow {id : String} {u : DomainRow → DomainRow}
    (hu : ∀ row, (u row).key = row.key) : (updateRow rows id u).map DomainRow.key =
      rows.map DomainRow.key := by
  unfold updateRow
  rw [List.map_map]
  apply List.map_congr_left
  intro row _
  simp only [Function.comp_apply]
  split
  · exact hu row
  · rfl

/-- What a step does to the rows: their keys stay, and a row becomes verified only by the
step that marks it. -/
structure RowsStep (rows rows' : Rows) (mark : Option DomainRow) : Prop where
  keys : rows'.map DomainRow.key = rows.map DomainRow.key
  verified : ∀ row' ∈ rows', row'.verificationStatus = .verified →
    (∃ row ∈ rows, row.key = row'.key ∧ row.verificationStatus = .verified) ∨
      ∃ dom ∈ mark, row'.id = dom.id

theorem RowsStep.refl (rows : Rows) (mark : Option DomainRow) : RowsStep rows rows mark :=
  ⟨rfl, fun row hrow hv => .inl ⟨row, hrow, rfl, hv⟩⟩

theorem RowsStep.update {id : String} {u : DomainRow → DomainRow}
    {mark : Option DomainRow} (hu : ∀ row, (u row).key = row.key)
    (hv : ∀ row, (u row).verificationStatus = .verified → row.verificationStatus = .verified) :
    RowsStep rows (updateRow rows id u) mark := by
  refine ⟨map_key_updateRow hu, fun row' hrow' hver => .inl ?_⟩
  obtain ⟨row, hrow, rfl⟩ := List.mem_map.mp hrow'
  split at hver
  next hid =>
    rw [if_pos hid]
    exact ⟨row, hrow, (hu row).symm, hv row hver⟩
  next hid =>
    rw [if_neg hid]
    exact ⟨row, hrow, rfl, hver⟩

variable {dom : DomainRow}

theorem RowsStep.mark :
    RowsStep rows (updateRow rows dom.id (setStatus .verified)) (some dom) := by
  refine ⟨map_key_updateRow fun _ => rfl, fun row' hrow' hver => ?_⟩
  obtain ⟨row, hrow, rfl⟩ := List.mem_map.mp hrow'
  split at hver
  next hid =>
    rw [if_pos hid]
    exact .inr ⟨dom, rfl, hid⟩
  next hid =>
    rw [if_neg hid]
    exact .inl ⟨row, hrow, rfl, hver⟩

variable {past : List (State × Label)} {r : Nat}

section Step

variable {isApex : String → Bool}

theorem rowsStep_verifyStep (rows : Rows) (v : Verification) (a : Answers) :
    RowsStep rows (verifyStep isApex rows v a).1 v.marks := by
  unfold verifyStep
  split
  · split
    · exact RowsStep.refl _ _
    · exact RowsStep.update (fun _ => rfl) (fun _ h => by cases h)
  · split
    · split <;> exact RowsStep.refl _ _
    · split <;> exact RowsStep.refl _ _
  · split
    · exact RowsStep.refl _ _
    · exact RowsStep.update (fun _ => rfl) (fun _ h => by cases h)
  · exact RowsStep.update (fun _ => rfl) (fun _ h => by cases h)
  · split <;> exact RowsStep.refl _ _
  · split <;> exact RowsStep.refl _ _
  · exact RowsStep.refl _ _
  · exact RowsStep.refl _ _
  · exact RowsStep.update (fun _ => rfl) (fun _ h => h)
  · exact RowsStep.update (fun _ => rfl) (fun _ h => h)
  next dom checks hstage =>
    by_cases hj : v.journal.verified = true
    · simp only [hj, if_true]
      exact RowsStep.refl _ _
    · grind [Verification.marks, Bool.false_eq_true, RowsStep.mark]
  · exact RowsStep.refl _ _
  · split
    · exact RowsStep.refl _ _
    · split
      · exact RowsStep.refl _ _
      · exact RowsStep.update (fun _ => rfl) (fun _ h => by cases h)
  · exact RowsStep.refl _ _
  · exact RowsStep.refl _ _

def Stage.Consistent : Stage → Prop
  | .lookingUpTxt _ cnameVerified contested => (!cnameVerified || contested) = true
  | .markingVerified _ c | .creatingChallenge _ c | .revoking _ c =>
    c.requiresTxt = true → c.txtVerified = true
  | _ => True

theorem txtVerified_of_verified {c : Checks} {apex records : Bool}
    (h : c.verified apex records = true) (hreq : c.requiresTxt = true) : c.txtVerified = true := by
  obtain ⟨cname, contested, txt⟩ := c
  cases cname <;> cases contested <;> cases txt <;> cases apex <;> cases records <;>
    simp_all [Checks.verified, Checks.requiresTxt]

def Unclaimed (rows : Rows) (dom : DomainRow) : Prop :=
  ∀ row ∈ rows, sameName row.domain dom.domain = true → row.workspaceId ≠ dom.workspaceId →
    row.verificationStatus ≠ .verified

/-- What a stage rests on: its row was fetched (`K`), an attempt that passed on its CNAME alone
found nobody else (`U`), and an attempt with the TXT record it needs has looked it up (`T`). -/
structure Stage.Sound (K U : DomainRow → Prop) (T : Prop) (st : Stage) : Prop where
  keyed : ∀ dom ∈ st.row, K dom
  unclaimed : ∀ dom c, st.checked = some (dom, c) → c.requiresTxt = false → U dom
  proved : ∀ dom c, st.checked = some (dom, c) → c.requiresTxt = true → c.txtVerified = true → T
  consistent : st.Consistent

namespace Stage.Sound

variable {K K' U U' : DomainRow → Prop} {T T' : Prop} {st : Stage} {c : Checks}

theorem mono (h : st.Sound K U T) (hK : ∀ dom, K dom → K' dom)
    (hU : ∀ dom c, st.checked = some (dom, c) → c.requiresTxt = false → U dom → U' dom)
    (hT : T → T') : st.Sound K' U' T' :=
  ⟨fun dom hdom => hK dom (h.keyed dom hdom),
    fun dom c hc hreq => hU dom c hc hreq (h.unclaimed dom c hc hreq),
    fun dom c hc hreq htxt => hT (h.proved dom c hc hreq htxt), h.consistent⟩

theorem of_no_row (h : st.row = none) : st.Sound K U T := by
  cases st with
  | resetting | fetching | done =>
    exact ⟨(fun _ hdom => by cases hdom), (fun _ _ hc => by cases hc),
      (fun _ _ hc => by cases hc), trivial⟩
  | _ => cases h

theorem of_unchecked (hrow : st.row = some dom) (hc : st.checked = none) (hdom : K dom)
    (hcon : st.Consistent) : st.Sound K U T := by
  refine ⟨fun d hd => ?_, fun _ _ h => ?_, fun _ _ h => ?_, hcon⟩
  · cases hrow.symm.trans hd
    exact hdom
  · cases hc.symm.trans h
  · cases hc.symm.trans h

theorem afterChecks (isApex : String → Bool) (hdom : K dom)
    (hun : c.requiresTxt = false → U dom)
    (hproved : c.requiresTxt = true → c.txtVerified = true → T) :
    (CustomDomain.afterChecks isApex dom c).Sound K U T := by
  unfold CustomDomain.afterChecks
  split
  all_goals
    refine ⟨?_, ?_, ?_, trivial⟩
    · rintro _ ⟨⟩
      exact hdom
    · rintro _ _ ⟨⟩
      exact hun
    · rintro _ _ ⟨⟩
      exact hproved

variable {v : Verification} {a : Answers}

variable (isApex rows a) in
theorem verifyStep (h : v.stage.Sound K U T) (hfetched : ∀ dom ∈ rows, K dom)
    (hnone : ∀ dom, findVerifiedExcludingWorkspace rows dom.domain dom.workspaceId = none → U dom)
    (htxt : ∀ dom cn co, v.stage = .lookingUpTxt dom cn co →
      checkTXTRecord dom.verificationToken a.txt = true → T) :
    (CustomDomain.verifyStep isApex rows v a).2.stage.Sound K U T := by
  have hkeyed := h.keyed
  cases hstage : v.stage with
  | fetching =>
    simp only [CustomDomain.verifyStep, hstage]
    split
    · split
      · exact .of_no_row (by rw [hstage]; rfl)
      · exact .of_no_row rfl
    next dom hfind =>
      have hdom := hfetched dom (List.mem_of_find?_eq_some hfind)
      split
      · exact .of_unchecked rfl rfl hdom trivial
      · exact .of_unchecked rfl rfl hdom trivial
  | lookingUpCname dom =>
    rw [hstage] at hkeyed
    simp only [CustomDomain.verifyStep, hstage]
    split
    · exact .of_unchecked rfl rfl (hkeyed dom rfl) trivial
    · exact .of_unchecked rfl rfl (hkeyed dom rfl) rfl
  | checkingContention dom =>
    rw [hstage] at hkeyed
    simp only [CustomDomain.verifyStep, hstage]
    split
    · exact .of_unchecked rfl rfl (hkeyed dom rfl) rfl
    next hfind =>
      exact .afterChecks isApex (hkeyed dom rfl) (fun _ => hnone dom (by simpa using hfind))
        nofun
  | lookingUpTxt dom cn co =>
    rw [hstage] at hkeyed h
    simp only [CustomDomain.verifyStep, hstage]
    refine .afterChecks isApex (hkeyed dom rfl) (fun hreq => ?_) fun _ => htxt dom cn co hstage
    have hneeded : (!cn || co) = true := h.consistent
    rw [Checks.requiresTxt, hneeded] at hreq
    cases hreq
  | recordingOwnership dom checks apexHasRecords =>
    rw [hstage] at h
    simp only [CustomDomain.verifyStep, hstage]
    split
    next hver => exact ⟨h.keyed, h.unclaimed, h.proved, txtVerified_of_verified hver⟩
    next => exact .of_no_row rfl
  | markingVerifying dom =>
    rw [hstage] at hkeyed
    simp only [CustomDomain.verifyStep, hstage]
    exact .of_unchecked rfl rfl (hkeyed dom rfl) trivial
  | revoking dom checks =>
    rw [hstage] at hkeyed
    simp only [CustomDomain.verifyStep, hstage]
    exact .of_unchecked rfl rfl (hkeyed dom rfl) trivial
  | lookingUpHost _ _ | countingAttempt _ _ _ | markingVerified _ _ | creatingChallenge _ _ =>
    rw [hstage] at h
    simp only [CustomDomain.verifyStep, hstage]
    exact ⟨h.keyed, h.unclaimed, h.proved, h.consistent⟩
  | resetting | markingFailed _ | creatingRoute _ | done =>
    simp only [CustomDomain.verifyStep, hstage]
    exact .of_no_row rfl

end Stage.Sound

variable {a : Answers}

def Verification.Sound (past : List (State × Label)) (rows : Rows) (r : Nat)
    (v : Verification) : Prop :=
  v.stage.Sound (fun dom => dom.key ∈ rows.map DomainRow.key)
    (fun dom => v.journal.revoked = false → Unclaimed rows dom) (TxtProved past r)

/-- Ids are unique and every verification under way is sound for the rows. -/
structure Inv (past : List (State × Label)) (s : State) : Prop where
  nodup : (s.rows.map DomainRow.id).Nodup
  sound : ∀ r (v : Verification), s.runs[r]? = some v → v.Sound past s.rows r

theorem TxtProved.cons (h : TxtProved past r) (x : State × Label) : TxtProved (x :: past) r := by
  obtain ⟨y, hy, rest⟩ := h
  exact ⟨y, List.mem_cons_of_mem _ hy, rest⟩

variable {v : Verification}

theorem unproved_of_checked {c : Checks}
    (hc : v.stage.checked = some (dom, c)) (hreq : c.requiresTxt = false)
    (hj : v.journal.revoked = false) : v.unproved = some dom := by
  simp [Verification.unproved, hc, hreq, hj]

theorem revoked_verifyStep
    (h : (verifyStep isApex rows v a).2.journal.revoked = false) : v.journal.revoked = false := by
  unfold verifyStep at h
  repeat' split at h
  all_goals first
    | exact h
    | cases h

theorem key_unique (hnd : (rows.map DomainRow.id).Nodup) {row : DomainRow}
    (hrow : row ∈ rows) (hdom : dom.key ∈ rows.map DomainRow.key) (hid : row.id = dom.id) :
    row.key = dom.key := by
  obtain ⟨row', hrow', hkey⟩ := List.mem_map.mp hdom
  have hid' : row'.id = dom.id := congrArg Prod.fst hkey
  rw [← hkey, List.inj_on_of_nodup_map hnd hrow hrow' (hid.trans hid'.symm)]

theorem unclaimed_rowsStep {rows' : Rows} {mark : Option DomainRow}
    (hstep : RowsStep rows rows' mark) (hnd : (rows.map DomainRow.id).Nodup)
    (hkeyed : ∀ d ∈ mark, d.key ∈ rows.map DomainRow.key)
    (hother : ∀ d ∈ mark, sameName dom.domain d.domain = true → dom.workspaceId = d.workspaceId)
    (h : Unclaimed rows dom) : Unclaimed rows' dom := by
  intro row' hrow' hname hws hver
  rcases hstep.verified row' hrow' hver with ⟨row, hrow, hkey, hv⟩ | ⟨d, hd, hid⟩
  · obtain ⟨-, hw, hdom⟩ : row.id = row'.id ∧ row.workspaceId = row'.workspaceId ∧
        row.domain = row'.domain := by simpa [DomainRow.key] using hkey
    exact h row hrow (hdom ▸ hname) (hw ▸ hws) hv
  · -- the marked row is the one that was fetched
    have hkey' : row'.key ∈ rows.map DomainRow.key := by
      rw [← hstep.keys]
      exact List.mem_map_of_mem hrow'
    obtain ⟨row, hrow, hkey⟩ := List.mem_map.mp hkey'
    have hrowid : row.id = row'.id := congrArg Prod.fst hkey
    have hk := (hkey.symm.trans (key_unique hnd hrow (hkeyed d hd) (hrowid.trans hid)))
    obtain ⟨-, hw, hdom⟩ : row'.id = d.id ∧ row'.workspaceId = d.workspaceId ∧
        row'.domain = d.domain := by simpa [DomainRow.key] using hk
    apply hws
    rw [hw]
    refine (hother d hd ?_).symm
    rw [hdom] at hname
    simp only [sameName, beq_iff_eq] at hname ⊢
    exact hname.symm

theorem nodup_of_keys {rows' : Rows} (hnd : (rows.map DomainRow.id).Nodup)
    (hkeys : rows'.map DomainRow.key = rows.map DomainRow.key) :
    (rows'.map DomainRow.id).Nodup := by
  have hids : ∀ l : Rows, l.map DomainRow.id = (l.map DomainRow.key).map Prod.fst := by
    intro l
    simp [DomainRow.key]
  rw [hids, hkeys, ← hids]
  exact hnd

theorem marks_row (h : dom ∈ v.marks) :
    v.stage.row = some dom := by
  unfold Verification.marks at h
  split at h
  next d c hstage =>
    split at h
    · cases h
    · cases h
      rw [hstage]
      rfl
  next => cases h

variable {s : State}

theorem checked_of_marks {d : DomainRow} {c : Checks} (hd : d ∈ v.marks)
    (hc : (verifyStep isApex rows v a).2.stage.checked = some (dom, c)) : dom = d := by
  unfold Verification.marks at hd
  split at hd
  next d' c' hstage =>
    split at hd
    · cases hd
    · cases hd
      simp only [verifyStep, hstage] at hc
      cases hc
      rfl
  next => cases hd

theorem sound_other {x : State × Label}
    {rows' : Rows} {mark : Option DomainRow} (h : v.Sound past s.rows r)
    (hnd : (s.rows.map DomainRow.id).Nodup) (hstep : RowsStep s.rows rows' mark)
    (hkeyed : ∀ d ∈ mark, d.key ∈ s.rows.map DomainRow.key)
    (hother : ∀ dom ∈ v.unproved, ∀ d ∈ mark, sameName dom.domain d.domain = true →
      dom.workspaceId = d.workspaceId) :
    v.Sound (x :: past) rows' r := by
  refine h.mono (fun dom hdom => by rwa [hstep.keys]) (fun dom c hc hreq hun hj => ?_) (·.cons x)
  exact unclaimed_rowsStep hstep hnd hkeyed (hother dom (unproved_of_checked hc hreq hj)) (hun hj)

theorem sound_verifyStep (h : Inv past s) (hv : s.runs[r]? = some v) :
    (verifyStep isApex s.rows v a).2.Sound ((s, .step r a) :: past)
      (verifyStep isApex s.rows v a).1 r := by
  have hsound := h.sound r v hv
  have hstep : RowsStep s.rows (verifyStep isApex s.rows v a).1 v.marks :=
    rowsStep_verifyStep s.rows v a
  have hnext := Stage.Sound.verifyStep s.rows isApex a (T := TxtProved ((s, .step r a) :: past) r)
    (hsound.mono (fun _ hdom => hdom) (fun _ _ _ _ hun => hun) (·.cons _))
    (fun dom hdom => List.mem_map_of_mem hdom) (fun dom hnone _ row hrow hname hws hver => ?_)
    (fun dom cn co hstage htxt => ⟨_, List.mem_cons_self, a, v, dom, cn, co, rfl, hv, hstage, htxt⟩)
  · refine hnext.mono (fun dom hdom => by rwa [hstep.keys]) (fun dom c hc _ hun hj => ?_) id
    refine unclaimed_rowsStep hstep h.nodup (fun d hd => hsound.keyed d (marks_row hd))
      (fun d hd _ => by rw [checked_of_marks hd hc]) (hun (revoked_verifyStep hj))
  · have := List.find?_eq_none.mp hnone row hrow
    simp [hname, hws, hver] at this

theorem getElem?_set_cases {runs : List Verification} {r' : Nat} {w : Verification}
    (h : (runs.set r w)[r']? = some v) : (r' = r ∧ v = w) ∨ (runs[r']? = some v) := by
  rw [List.getElem?_set] at h
  split at h
  next heq =>
    split at h
    · cases h
      exact .inl ⟨heq.symm, rfl⟩
    · cases h
  next => exact .inr h

theorem sound_again (v : Verification) : v.again.Sound past rows r := by
  refine Stage.Sound.of_no_row ?_
  unfold Verification.again
  split
  next hstage => rw [hstage]; rfl
  next hstage => rw [hstage]; rfl
  next => rfl

theorem inv_set {w : Verification}
    (x : State × Label) (h : Inv past s) (hw : w.Sound (x :: past) s.rows r) :
    Inv (x :: past) { s with runs := s.runs.set r w } := by
  refine ⟨h.nodup, fun r' v' hv' => ?_⟩
  rcases getElem?_set_cases hv' with ⟨rfl, rfl⟩ | hv'
  · exact hw
  · exact sound_other (h.sound r' v' hv') h.nodup (RowsStep.refl s.rows none)
      (fun _ hd => by cases hd) (fun _ _ _ hd => by cases hd)

theorem inv_step {s' : State} {l : Label} (h : Inv past s)
    (hex : Exclusive past s l) (hs : s.step isApex l = some s') : Inv ((s, l) :: past) s' := by
  cases l with
  | start domainId retry =>
    cases hs
    refine ⟨h.nodup, fun r v hv => ?_⟩
    rw [List.getElem?_append] at hv
    split at hv
    · exact sound_other (h.sound r v hv) h.nodup (RowsStep.refl s.rows none)
        (fun _ hd => by cases hd) (fun _ _ _ hd => by cases hd)
    · rw [List.mem_singleton.mp (List.mem_of_getElem? hv)]
      cases retry <;> exact Stage.Sound.of_no_row rfl
  | step r a =>
    obtain ⟨v, hv, rfl⟩ := Option.map_eq_some_iff.mp hs
    have hstep : RowsStep s.rows (verifyStep isApex s.rows v a).1 v.marks :=
      rowsStep_verifyStep s.rows v a
    have hkeyed : ∀ d ∈ v.marks, d.key ∈ s.rows.map DomainRow.key :=
      fun d hd => (h.sound r v hv).keyed d (marks_row hd)
    refine ⟨nodup_of_keys h.nodup hstep.keys, fun r' v' hv' => ?_⟩
    rcases getElem?_set_cases hv' with ⟨rfl, rfl⟩ | hv'
    · exact sound_verifyStep h hv
    · exact sound_other (h.sound r' v' hv') h.nodup hstep hkeyed fun dom hdom d hd =>
        hex v hv d hd v' (List.mem_of_getElem? hv') dom hdom
  | retry r =>
    obtain ⟨v, -, rfl⟩ := Option.map_eq_some_iff.mp hs
    exact inv_set _ h (sound_again v)
  | kill r =>
    obtain ⟨v, -, rfl⟩ := Option.map_eq_some_iff.mp hs
    exact inv_set _ h (Stage.Sound.of_no_row rfl)

theorem provedTakeover_of_inv {l : Label} (h : Inv past s) : ProvedTakeover past s l := by
  cases l with
  | step r a =>
    intro v hv hrev
    have hsound := h.sound r v hv
    unfold Verification.revokes at hrev
    split at hrev
    next dom c hstage =>
      split at hrev
      · exact absurd rfl hrev
      next hj =>
        have hchecked : v.stage.checked = some (dom, c) := by rw [hstage]; rfl
        cases hreq : c.requiresTxt with
        | true =>
          have hcon := hsound.consistent
          rw [hstage] at hcon
          exact hsound.proved dom c hchecked hreq (hcon hreq)
        | false =>
          have hun := hsound.unclaimed dom c hchecked hreq (by simpa using hj)
          obtain ⟨old, hold⟩ := Option.ne_none_iff_exists'.mp hrev
          have hmem := List.mem_of_find?_eq_some hold
          have hfound := List.find?_some hold
          simp only [Bool.and_eq_true, bne_iff_ne, beq_iff_eq] at hfound
          obtain ⟨⟨hname, hws⟩, hver⟩ := hfound
          exact absurd hver (hun old hmem hname hws)
    next => exact absurd rfl hrev
  | _ => trivial

/-- In every run in which no workspace verifies a domain under the eyes of a run of another
workspace that passed on its CNAME alone, whoever revokes a verified row has a TXT
proof. -/
theorem takeover_proved_run {rows : Rows} {past : List (State × Label)} {s : State}
    (h : Run (State.step isApex) ⟨rows, []⟩ past s) (hnd : (rows.map DomainRow.id).Nodup)
    (hc : Always Exclusive past) : Always ProvedTakeover past := by
  have h0 : Inv [] ⟨rows, []⟩ := ⟨hnd, fun _ _ hv => (nomatch hv)⟩
  exact h.always h0 (fun _ _ _ _ hi hex hs => inv_step hi hex hs)
    (fun _ _ _ hi _ => provedTakeover_of_inv hi) hc

end Step

section Crossing

def acmeRow : DomainRow :=
  ⟨"dom_1", "ws_1", "shop.example.com", "token-1", "a1.unkey-dns.com", .pending, none, false,
    false, 0⟩

def globexRow : DomainRow :=
  ⟨"dom_2", "ws_2", "shop.example.com", "token-2", "b2.unkey-dns.com", .pending, none, false,
    false, 0⟩

def noApex : String → Bool := fun _ => false

def pointsAt (target : String) : Answers := ⟨some target, some [], none, 0⟩

def bothWorkspaces : State := ⟨[acmeRow, globexRow], []⟩

def steps (n r : Nat) (a : Answers) : List Label := List.replicate n (.step r a)

def contestedTakeover : List Label :=
  .start "dom_1" false :: steps 10 0 (pointsAt "a1.unkey-dns.com") ++
    .start "dom_2" false :: steps 9 1
      ⟨some "b2.unkey-dns.com", some ["unkey-domain-verify=token-2"], none, 0⟩

theorem takeover_proved_run_contestedTakeover :
    ∃ past s v, Run (State.step noApex) bothWorkspaces past s ∧ s.runs[1]? = some v ∧
      v.revokes s.rows ≠ none ∧ Always ProvedTakeover past := by
  obtain ⟨past, s, hrun, hcareful, hrevokes⟩ : ∃ past s,
      Run (State.step noApex) bothWorkspaces past s ∧ Always Exclusive past ∧
      (s.runs[1]?.map fun v => (v.revokes s.rows).isSome) = some true :=
    Run.exists_of_record contestedTakeover (by decide +kernel) fun _ _ _ h => h
  obtain ⟨v, hv, hrev⟩ := Option.map_eq_some_iff.mp hrevokes
  exact ⟨past, s, v, hrun, hv, Option.isSome_iff_ne_none.mp hrev,
    takeover_proved_run hrun (by decide) hcareful⟩

def asksTxt (r : Nat) (x : State × Label) : Bool :=
  match x.2 with
  | .step r' _ => r' == r && (x.1.runs[r]?.map fun v => match v.stage with
    | .lookingUpTxt _ _ _ => true
    | _ => false) == some true
  | _ => false

theorem not_txtProved (h : past.any (asksTxt r) = false) : ¬ TxtProved past r := by
  rintro ⟨x, hx, a, v, dom, cn, co, hlabel, hv, hstage, -⟩
  have := List.any_eq_false.mp h x hx
  simp [asksTxt, hlabel, hv, hstage] at this

def crossing : List Label :=
  .start "dom_1" false :: steps 4 0 (pointsAt "a1.unkey-dns.com") ++
    .start "dom_2" false :: steps 10 1 (pointsAt "b2.unkey-dns.com") ++
    steps 4 0 (pointsAt "b2.unkey-dns.com")

/-- The first workspace is about to revoke the verified row of the second one, and has
never looked up a TXT record. -/
theorem crossing_revokes_without_proof :
    ∃ past s, Run (State.step noApex) bothWorkspaces past s ∧
      ¬ ProvedTakeover past s (.step 0 (pointsAt "b2.unkey-dns.com")) := by
  refine Run.exists_of_record (P := fun past s => past.any (asksTxt 0) = false ∧
      (s.runs[0]?.map fun v => (v.revokes s.rows).isSome) = some true)
    crossing (by decide +kernel) ?_
  intro past s hrun heq
  obtain ⟨v, hv, hrev⟩ := Option.map_eq_some_iff.mp heq.2
  intro hproved
  exact not_txtProved heq.1 (hproved v hv (Option.isSome_iff_ne_none.mp hrev))

end Crossing

end Unkey.CustomDomain
