import Mathlib.Data.List.Basic
import Unkey.Urn.Name

/-!
# Coverage between patterns

A pattern covers a name segment by segment: its base names the first segments of the target, each by
itself or by `*`, and unless it ends in `**` the target has no more of them.
-/

namespace Unkey.Urn

open Unkey.Base

namespace V1

def segments (v : V1) : List String := split '/' v.resource

def descends (v : V1) : Bool := decide (v.segments.getLast? = some "**")

def base (v : V1) : List String := if v.descends then v.segments.dropLast else v.segments

def Concrete (v : V1) : Prop := ∀ s ∈ v.segments, s ≠ "*" ∧ s ≠ "**"

instance (v : V1) : Decidable v.Concrete := by
  unfold Concrete
  infer_instance

theorem segments_ne_nil (v : V1) : v.segments ≠ [] := split_ne_nil '/' v.resource

theorem segments_of_descends {v : V1} (h : v.descends = true) : v.segments = v.base ++ ["**"] := by
  have hlast : v.segments.getLast? = some "**" := of_decide_eq_true h
  rw [base, if_pos h]
  exact (List.dropLast_append_getLast? _ hlast).symm

theorem base_of_not_descends {v : V1} (h : v.descends = false) : v.base = v.segments := by
  rw [base, if_neg (by rw [h]; decide)]

theorem Valid.base {v : V1} (h : v.Valid) : ∀ s ∈ v.base, s = "*" ∨ Plain s := by
  obtain ⟨base, tail, heq, hbase, htail⟩ := validateSegments_eq_ok.mp h.path
  have hsegments : v.segments = base ++ tail := heq
  rcases htail with rfl | rfl
  · rw [List.append_nil] at hsegments
    intro s hs
    refine hbase s ?_
    rw [← hsegments]
    unfold V1.base at hs
    split at hs
    · exact (List.dropLast_sublist _).subset hs
    · exact hs
  · have hdescends : v.descends = true := by
      rw [descends, hsegments]
      simp
    have heq := segments_of_descends hdescends
    rw [hsegments] at heq
    rw [← List.append_cancel_right heq]
    exact hbase

end V1

/-! ### Covering, position by position -/

theorem segmentsMatch_take (pattern target : List String) :
    segmentsMatch pattern (target.take pattern.length) = segmentsMatch pattern target := by
  induction pattern generalizing target with
  | nil => simp [segmentsMatch]
  | cons p pattern ih =>
    cases target with
    | nil => rfl
    | cons t target => simp [segmentsMatch, ih]

theorem segmentsMatch_iff {pattern target : List String} (hle : pattern.length ≤ target.length) :
    segmentsMatch pattern target = true ↔
      ∀ (i : Nat) (s : String), pattern[i]? = some s → s ≠ "*" → target[i]? = some s := by
  induction pattern generalizing target with
  | nil => simp [segmentsMatch]
  | cons p pattern ih =>
    cases target with
    | nil => simp at hle
    | cons t target =>
      rw [segmentsMatch, Bool.and_eq_true, Bool.or_eq_true, decide_eq_true_eq, decide_eq_true_eq,
        ih (by simpa using hle)]
      constructor
      · rintro ⟨hp, hrest⟩ (_ | i) s hs hne
        · cases hs
          rcases hp with hp | rfl
          · exact absurd hp hne
          · rfl
        · exact hrest i s hs hne
      · intro h
        refine ⟨?_, fun i s hs hne => h (i + 1) s hs hne⟩
        by_cases hp : p = "*"
        · exact .inl hp
        · have ht := h 0 p rfl hp
          exact .inr (Option.some.inj ht).symm

structure V1.Covers (v target : V1) : Prop where
  workspaceID : v.workspaceID = target.workspaceID
  long : v.base.length ≤ target.segments.length
  exact : v.descends = false → target.segments.length = v.base.length
  segment : ∀ (i : Nat) (s : String), v.base[i]? = some s → s ≠ "*" → target.segments[i]? = some s

theorem V1.covers_iff {v target : V1} : v.covers target = true ↔ v.Covers target := by
  have hshape : v.covers target = true ↔ v.workspaceID = target.workspaceID ∧
      (if v.descends then v.base.length ≤ target.segments.length
        else v.base.length = target.segments.length) ∧
      segmentsMatch v.base target.segments = true := by
    unfold V1.covers
    split
    · rename_i hne
      exact iff_of_false (by decide) fun h => hne h.1
    · rename_i heq
      rw [not_not] at heq
      dsimp only
      split
      · rename_i hlast
        have hdescends : v.descends = true := decide_eq_true hlast
        rw [segmentsMatch_take, Bool.and_eq_true, decide_eq_true_eq, V1.base, if_pos hdescends,
          if_pos hdescends]
        exact (and_iff_right heq).symm
      · rename_i hlast
        have hdescends : ¬ v.descends = true := fun h => hlast (of_decide_eq_true h)
        rw [Bool.and_eq_true, decide_eq_true_eq, V1.base, if_neg hdescends, if_neg hdescends]
        exact (and_iff_right heq).symm
  rw [hshape]
  constructor
  · rintro ⟨hws, hlen, hmatch⟩
    cases hd : v.descends with
    | true =>
      rw [hd, if_pos rfl] at hlen
      exact ⟨hws, hlen, fun h => absurd (hd.symm.trans h) (by decide),
        (segmentsMatch_iff hlen).mp hmatch⟩
    | false =>
      rw [hd, if_neg (by decide)] at hlen
      exact ⟨hws, hlen.le, fun _ => hlen.symm, (segmentsMatch_iff hlen.le).mp hmatch⟩
  · intro h
    refine ⟨h.workspaceID, ?_, (segmentsMatch_iff h.long).mpr h.segment⟩
    split
    · exact h.long
    · rename_i hd
      exact (h.exact (Bool.eq_false_iff.mpr hd)).symm

/-! ### Patterns in patterns -/

/-- If the inner pattern ends in `**`, so does the outer one, with no more segments unless the inner
one is `**` itself: every resource has the one segment that `*/**` asks for. -/
def V1.Contains (p q : V1) : Prop :=
  q.descends = true →
    p.descends = true ∧ (p.segments.length ≤ q.segments.length ∨ q.resource = "**")

instance (p q : V1) : Decidable (p.Contains q) := inferInstanceAs (Decidable (_ → _))

theorem V1.length_segments_of_descends {v : V1} (h : v.descends = true) :
    v.segments.length = v.base.length + 1 := by
  rw [V1.segments_of_descends h]
  simp

theorem V1.Covers.trans {p q t : V1} (hp : p.Valid) (hpq : p.Covers q) (hc : p.Contains q)
    (hqt : q.Covers t) : p.Covers t := by
  have hpos : 0 < t.segments.length := List.length_pos_iff.mpr t.segments_ne_nil
  cases hq : q.descends with
  | false =>
    have hbase := V1.base_of_not_descends hq
    have hlen := hqt.exact hq
    rw [hbase] at hlen
    refine ⟨hpq.workspaceID.trans hqt.workspaceID, hlen ▸ hpq.long,
      fun h => hlen.trans (hpq.exact h), ?_⟩
    intro i s hs hne
    exact hqt.segment i s (by rw [hbase]; exact hpq.segment i s hs hne) hne
  | true =>
    obtain ⟨hdescends, hshort⟩ := hc hq
    have hplen := V1.length_segments_of_descends hdescends
    have hqlen := V1.length_segments_of_descends hq
    have hpq_long := hpq.long
    have hqt_long := hqt.long
    refine ⟨hpq.workspaceID.trans hqt.workspaceID, ?_,
      fun h => absurd (hdescends.symm.trans h) (by decide), ?_⟩
    · rcases hshort with hshort | hglobal
      · omega
      · have hone : q.segments.length = 1 := by
          rw [V1.segments, hglobal]
          decide
        omega
    · intro i s hs hne
      have hqs := hpq.segment i s hs hne
      rw [V1.segments_of_descends hq, List.getElem?_append] at hqs
      split at hqs
      · exact hqt.segment i s hqs hne
      · -- the base of `p` has no `**`
        have hstar : s = "**" := by
          have hmem := List.mem_of_getElem? hqs
          exact List.mem_singleton.mp hmem
        rcases hp.base s (List.mem_of_getElem? hs) with hs' | hplain
        · exact absurd hs' hne
        · exact absurd hstar hplain.ne_starStar

/-! ### Instances of a pattern -/

def V1.ofSegments (workspaceID : String) (segments : List String) : V1 :=
  ⟨workspaceID, join '/' segments⟩

theorem V1.workspaceID_ofSegments (workspaceID : String) (segments : List String) :
    (V1.ofSegments workspaceID segments).workspaceID = workspaceID := rfl

theorem V1.segments_ofSegments {segments : List String} (hne : segments ≠ [])
    (hplain : ∀ s ∈ segments, Plain s ∧ '/' ∉ s.toList) (workspaceID : String) :
    (V1.ofSegments workspaceID segments).segments = segments :=
  split_join hne fun s hs => (hplain s hs).2

theorem V1.ofSegments_valid {workspaceID : String}
    (hws : validateWorkspaceID workspaceID = .ok ()) {segments : List String}
    (hne : segments ≠ []) (hplain : ∀ s ∈ segments, Plain s ∧ '/' ∉ s.toList) :
    (V1.ofSegments workspaceID segments).Valid ∧ (V1.ofSegments workspaceID segments).Concrete := by
  have hsegments := V1.segments_ofSegments hne hplain workspaceID
  have hpath : validateSegments (V1.ofSegments workspaceID segments).segments = .ok () := by
    rw [hsegments]
    exact validateSegments_eq_ok.mpr
      ⟨segments, [], (List.append_nil _).symm, fun s hs => .inr (hplain s hs).1, .inl rfl⟩
  refine ⟨⟨hws, hpath⟩, ?_⟩
  intro s hs
  rw [hsegments] at hs
  exact ⟨(hplain s hs).1.ne_star, (hplain s hs).1.ne_starStar⟩

def V1.instanceSegments (q : V1) (n : Nat) : List String :=
  q.base.map (fun s => if s = "*" then "x" else s) ++ List.replicate n "x"

theorem V1.length_instanceSegments (q : V1) (n : Nat) :
    (q.instanceSegments n).length = q.base.length + n := by
  simp [V1.instanceSegments]

theorem V1.plain_instanceSegments {q : V1} (hq : q.Valid) (n : Nat) :
    ∀ s ∈ q.instanceSegments n, Plain s ∧ '/' ∉ s.toList := by
  have hx : Plain "x" ∧ '/' ∉ "x".toList := ⟨⟨by decide, by simp⟩, by decide⟩
  intro s hs
  rcases List.mem_append.mp hs with hs | hs
  · obtain ⟨b, hb, rfl⟩ := List.mem_map.mp hs
    split
    · exact hx
    · rename_i hne
      refine ⟨(hq.base b hb).resolve_left hne, not_mem_of_mem_split (s := q.resource) ?_⟩
      unfold V1.base at hb
      split at hb
      · exact (List.dropLast_sublist _).subset hb
      · exact hb
  · rw [List.eq_of_mem_replicate hs]
    exact hx

theorem V1.covers_instance {q : V1} (hq : q.Valid) (hdescends : q.descends = true) {n : Nat}
    (hne : q.instanceSegments n ≠ []) :
    q.Covers (V1.ofSegments q.workspaceID (q.instanceSegments n)) := by
  have hsegments := V1.segments_ofSegments hne (V1.plain_instanceSegments hq n) q.workspaceID
  refine ⟨(V1.workspaceID_ofSegments _ _).symm, ?_,
    fun h => absurd (hdescends.symm.trans h) (by decide), ?_⟩
  · rw [hsegments, V1.length_instanceSegments]
    omega
  · intro i s hs hstar
    rw [hsegments, V1.instanceSegments, List.getElem?_append_left, List.getElem?_map, hs]
    · simp [hstar]
    · rw [List.length_map]
      exact (List.getElem?_eq_some_iff.mp hs).1

theorem V1.covers_instances_iff {p q : V1} (hp : p.Valid) (hq : q.Valid) (hpq : p.Covers q) :
    (∀ t : V1, t.Valid → t.Concrete → q.Covers t → p.Covers t) ↔ p.Contains q := by
  constructor
  · intro hall hdescends
    have hqlen := V1.length_segments_of_descends hdescends
    have hinstance : ∀ n, q.instanceSegments n ≠ [] →
        p.Covers (V1.ofSegments q.workspaceID (q.instanceSegments n)) ∧
          (V1.ofSegments q.workspaceID (q.instanceSegments n)).segments.length
            = q.base.length + n := by
      intro n hne
      have hplain := V1.plain_instanceSegments hq n
      obtain ⟨hvalid, hconcrete⟩ := V1.ofSegments_valid hq.workspace hne hplain
      rw [V1.segments_ofSegments hne hplain, V1.length_instanceSegments]
      exact ⟨hall _ hvalid hconcrete (V1.covers_instance hq hdescends hne), rfl⟩
    have hp_descends : p.descends = true := by
      by_contra hnot
      rw [Bool.not_eq_true] at hnot
      obtain ⟨hcover, hlen⟩ := hinstance 2 (by simp [V1.instanceSegments])
      have h1 := hcover.exact hnot
      have h2 := hpq.exact hnot
      omega
    refine ⟨hp_descends, ?_⟩
    by_cases hbase : q.base = []
    · -- the whole workspace
      right
      have hsegments := V1.segments_of_descends hdescends
      rw [hbase, List.nil_append] at hsegments
      rw [← join_split '/' q.resource]
      show join '/' q.segments = "**"
      rw [hsegments]
      decide
    · left
      obtain ⟨hcover, hlen⟩ := hinstance 0 (by simpa [V1.instanceSegments] using hbase)
      have hlong := hcover.long
      have hplen := V1.length_segments_of_descends hp_descends
      omega
  · intro hc t _ _ hqt
    exact hpq.trans hp hc hqt

end Unkey.Urn
