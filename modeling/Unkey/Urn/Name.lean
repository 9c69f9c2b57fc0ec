import Unkey.Base.GoString

/-!
# Resource names

`V1` of `pkg/urn`: the canonical string of a resource name, `ParseV1` with its error texts, and
`Covers`.
-/

namespace Unkey.Urn

open Unkey.Base

def urnPrefix : String := "unkey"

def version : String := "v1"

def invalidResourceName : String := "invalid resource name"

structure V1 where
  workspaceID : String
  resource : String
  deriving DecidableEq

def V1.string (v : V1) : String :=
  urnPrefix ++ ":" ++ version ++ ":" ++ v.workspaceID ++ ":" ++ v.resource

/-! ### Parsing -/

def validateWorkspaceID (value : String) : Except String Unit :=
  if value = "" then .error "must not be empty"
  else if containsAny value ":#/" then .error "must not contain \":\", \"#\", or \"/\""
  else .ok ()

/-- The loop of `validateResourcePath`. -/
def validateSegments : List String → Except String Unit
  | [] => .ok ()
  | segment :: rest =>
    if segment = "" then .error "must not contain empty segments"
    else if containsAny segment ":#" then .error "must not contain \":\" or \"#\""
    else if segment = "*" then validateSegments rest
    else if segment = "**" then
      if rest = [] then validateSegments rest else .error "\"**\" must be the last segment"
    else if containsAny segment "*" then .error "\"*\" must be a whole segment"
    else validateSegments rest

def validateResourcePath (path : String) : Except String Unit := validateSegments (split '/' path)

def parseV1 (value : String) : Except String V1 :=
  match splitN ':' 4 value with
  | [scheme, ver, workspaceID, path] =>
    if scheme ≠ urnPrefix then .error (invalidResourceName ++ ": prefix must be \"unkey\"")
    else if ver ≠ version then .error (invalidResourceName ++ ": version must be \"v1\"")
    else match validateWorkspaceID workspaceID with
      | .error err => .error (invalidResourceName ++ ": invalid workspace id: " ++ err)
      | .ok () => match validateResourcePath path with
        | .error err => .error (invalidResourceName ++ ": invalid resource path: " ++ err)
        | .ok () => .ok ⟨workspaceID, path⟩
  | _ => .error (invalidResourceName ++ ": expected 4 colon-separated fields")

/-! ### Covering -/

def segmentsMatch : (pattern target : List String) → Bool
  | [], _ => true
  | _ :: _, [] => false
  | p :: pattern, t :: target => (p = "*" || p = t) && segmentsMatch pattern target

/-- In one workspace and segment by segment; a final `**` covers all that are left. -/
def V1.covers (v target : V1) : Bool :=
  if v.workspaceID ≠ target.workspaceID then false
  else
    let patternSegments := split '/' v.resource
    let targetSegments := split '/' target.resource
    if patternSegments.getLast? = some "**" then
      let patternSegments := patternSegments.dropLast
      decide (patternSegments.length ≤ targetSegments.length) &&
        segmentsMatch patternSegments (targetSegments.take patternSegments.length)
    else decide (patternSegments.length = targetSegments.length) &&
      segmentsMatch patternSegments targetSegments

/-! ### What is accepted -/

structure Plain (segment : String) : Prop where
  nonempty : segment ≠ ""
  free : ∀ c ∈ [':', '#', '*'], c ∉ segment.toList

theorem validateWorkspaceID_eq_ok {value : String} : validateWorkspaceID value = .ok () ↔
    value ≠ "" ∧ ∀ c ∈ [':', '#', '/'], c ∉ value.toList := by
  have hany : containsAny value ":#/" = false ↔ ∀ c ∈ [':', '#', '/'], c ∉ value.toList :=
    containsAny_eq_false
  unfold validateWorkspaceID
  split
  · simp_all
  · split
    · simp_all
    · rename_i hne hfree
      exact iff_of_true rfl ⟨hne, hany.mp (Bool.not_eq_true _ ▸ hfree)⟩

variable {segment : String}

theorem Plain.of_not_star (hne : segment ≠ "")
    (hsep : containsAny segment ":#" = false) (hstar : containsAny segment "*" = false) :
    Plain segment := by
  have hsep' : ∀ c ∈ [':', '#'], c ∉ segment.toList := containsAny_eq_false.mp hsep
  have hstar' : ∀ c ∈ ['*'], c ∉ segment.toList := containsAny_eq_false.mp hstar
  refine ⟨hne, ?_⟩
  intro c hc
  simp only [List.mem_cons, List.not_mem_nil, or_false] at hc
  rcases hc with rfl | rfl | rfl
  · exact hsep' _ (by decide)
  · exact hsep' _ (by decide)
  · exact hstar' _ (by decide)

theorem Plain.ne_star (h : Plain segment) : segment ≠ "*" := by
  rintro rfl
  exact h.free '*' (by decide) (by decide)

theorem Plain.ne_starStar (h : Plain segment) : segment ≠ "**" := by
  rintro rfl
  exact h.free '*' (by decide) (by decide)

theorem validateSegments_cons (h : segment = "*" ∨ Plain segment)
    (rest : List String) : validateSegments (segment :: rest) = validateSegments rest := by
  rcases h with rfl | hplain
  · simp [validateSegments, containsAny]
  · have hsep : containsAny segment ":#" = false := by
      refine containsAny_eq_false.mpr fun c hc => hplain.free c ?_
      have hsub : ":#".toList ⊆ [':', '#', '*'] := List.subset_def.mpr (by simp)
      exact hsub hc
    have hstar : containsAny segment "*" = false := by
      refine containsAny_eq_false.mpr fun c hc => hplain.free c ?_
      have hsub : "*".toList ⊆ [':', '#', '*'] := List.subset_def.mpr (by simp)
      exact hsub hc
    simp [validateSegments, hplain.nonempty, hsep, hstar, hplain.ne_star, hplain.ne_starStar]

theorem validateSegments_eq_ok {segments : List String} : validateSegments segments = .ok () ↔
    ∃ base tail, segments = base ++ tail ∧ (∀ s ∈ base, s = "*" ∨ Plain s) ∧
      (tail = [] ∨ tail = ["**"]) := by
  constructor
  · intro hok
    induction segments with
    | nil => exact ⟨[], [], rfl, by simp, .inl rfl⟩
    | cons segment rest ih =>
      -- the segment is the last one and means descendants, or validation goes on after it
      have hsegment : (segment = "**" ∧ rest = []) ∨ segment = "*" ∨ Plain segment := by
        unfold validateSegments at hok
        split at hok
        · cases hok
        rename_i hne
        split at hok
        · cases hok
        rename_i hsep
        split at hok
        · rename_i hstar
          exact .inr (.inl hstar)
        split at hok
        · rename_i hdescend
          split at hok
          · rename_i hrest
            exact .inl ⟨hdescend, hrest⟩
          · cases hok
        split at hok
        · cases hok
        · rename_i hfree
          exact .inr (.inr (.of_not_star hne (Bool.eq_false_iff.mpr hsep)
            (Bool.eq_false_iff.mpr hfree)))
      rcases hsegment with ⟨rfl, rfl⟩ | hsegment
      · exact ⟨[], ["**"], rfl, by simp, .inr rfl⟩
      · rw [validateSegments_cons hsegment] at hok
        obtain ⟨base, tail, rfl, hbase, htail⟩ := ih hok
        refine ⟨segment :: base, tail, rfl, ?_, htail⟩
        intro s hs
        rcases List.mem_cons.mp hs with rfl | hs
        · exact hsegment
        · exact hbase s hs
  · rintro ⟨base, tail, rfl, hbase, htail⟩
    induction base with
    | nil =>
      rcases htail with rfl | rfl
      · rfl
      · decide
    | cons segment base ih =>
      rw [List.cons_append, validateSegments_cons (hbase segment List.mem_cons_self)]
      exact ih fun s hs => hbase s (List.mem_cons_of_mem _ hs)

/-- The grammar of a path, by its segments: none is empty, a star stands for a whole segment, and
two of them stand at the end only. -/
structure PathShape (segments : List String) : Prop where
  nonempty : ∀ s ∈ segments, s ≠ ""
  whole : ∀ s ∈ segments, '*' ∈ s.toList → s = "*" ∨ s = "**"
  last : "**" ∉ segments.dropLast

theorem validateSegments_eq_ok_iff_shape {segments : List String} :
    validateSegments segments = .ok () ↔
      PathShape segments ∧ ∀ s ∈ segments, ':' ∉ s.toList ∧ '#' ∉ s.toList := by
  rw [validateSegments_eq_ok]
  constructor
  · rintro ⟨base, tail, rfl, hbase, htail⟩
    have hkind : ∀ s ∈ base ++ tail, s = "*" ∨ s = "**" ∨ Plain s := by
      intro s hs
      rcases List.mem_append.mp hs with hs | hs
      · exact (hbase s hs).imp_right .inr
      · rcases htail with rfl | rfl
        · cases hs
        · exact .inr (.inl (List.mem_singleton.mp hs))
    refine ⟨⟨?_, ?_, ?_⟩, ?_⟩
    · intro s hs
      rcases hkind s hs with rfl | rfl | hplain
      · decide
      · decide
      · exact hplain.nonempty
    · intro s hs hstar
      rcases hkind s hs with rfl | rfl | hplain
      · exact .inl rfl
      · exact .inr rfl
      · exact absurd hstar (hplain.free '*' (by decide))
    · have hsub : (base ++ tail).dropLast ⊆ base := by
        rcases htail with rfl | rfl
        · rw [List.append_nil]
          exact List.dropLast_subset base
        · rw [List.dropLast_concat]
          exact List.Subset.refl base
      intro hmem
      rcases hbase _ (hsub hmem) with heq | hplain
      · exact absurd heq (by decide)
      · exact hplain.ne_starStar rfl
    · intro s hs
      rcases hkind s hs with rfl | rfl | hplain
      · decide
      · decide
      · exact ⟨hplain.free ':' (by decide), hplain.free '#' (by decide)⟩
  · rintro ⟨hshape, hfree⟩
    -- a segment other than the double star is a wildcard or plain
    have hkind : ∀ s ∈ segments, s ≠ "**" → s = "*" ∨ Plain s := by
      intro s hs hne
      by_cases hstar : '*' ∈ s.toList
      · exact .inl ((hshape.whole s hs hstar).resolve_right hne)
      · refine .inr ⟨hshape.nonempty s hs, ?_⟩
        simp [hfree s hs, hstar]
    rcases segments.eq_nil_or_concat with rfl | ⟨base, x, hconcat⟩
    · exact ⟨[], [], rfl, by simp, .inl rfl⟩
    · rw [List.concat_eq_append] at hconcat
      subst hconcat
      have hlast : "**" ∉ base := by simpa using hshape.last
      by_cases hx : x = "**"
      · refine ⟨base, ["**"], by rw [hx], ?_, .inr rfl⟩
        exact fun s hs => hkind s (by simp [hs]) (fun heq => hlast (heq ▸ hs))
      · refine ⟨base ++ [x], [], by simp, ?_, .inl rfl⟩
        intro s hs
        refine hkind s hs ?_
        rcases List.mem_append.mp hs with hs | hs
        · exact fun heq => hlast (heq ▸ hs)
        · rw [List.mem_singleton.mp hs]
          exact hx

/-! ### Parsing and printing -/

structure V1.Valid (v : V1) : Prop where
  workspace : validateWorkspaceID v.workspaceID = .ok ()
  path : validateResourcePath v.resource = .ok ()

theorem not_mem_resource {path : String} (h : validateResourcePath path = .ok ()) {c : Char}
    (hc : c = ':' ∨ c = '#') : c ∉ path.toList := by
  obtain ⟨base, tail, heq, hbase, htail⟩ := validateSegments_eq_ok.mp h
  rw [← join_split '/' path]
  intro hmem
  rcases mem_join hmem with rfl | ⟨s, hs, hcs⟩
  · revert hc
    decide
  rw [heq, List.mem_append] at hs
  rcases hs with hs | hs
  · rcases hbase s hs with rfl | hplain
    · rcases hc with rfl | rfl <;> revert hcs <;> decide
    · refine hplain.free c ?_ hcs
      rcases hc with rfl | rfl <;> decide
  · rcases htail with rfl | rfl
    · cases hs
    · cases List.mem_singleton.mp hs
      rcases hc with rfl | rfl <;> revert hcs <;> decide

theorem V1.Valid.not_mem_workspaceID {v : V1} (h : v.Valid) {c : Char}
    (hc : c ∈ [':', '#', '/']) : c ∉ v.workspaceID.toList :=
  (validateWorkspaceID_eq_ok.mp h.workspace).2 c hc

theorem splitN_four {value a b c d : String} : splitN ':' 4 value = [a, b, c, d] ↔
    value = a ++ ":" ++ b ++ ":" ++ c ++ ":" ++ d ∧
      ':' ∉ a.toList ∧ ':' ∉ b.toList ∧ ':' ∉ c.toList := by
  simp only [splitN_eq_cons_cons, cut_eq_some]
  constructor
  · rintro ⟨r, ⟨hv, ha⟩, r', ⟨hr, hb⟩, r'', ⟨hr', hc⟩, hd⟩
    obtain rfl : r'' = d := List.singleton_inj.mp hd
    refine ⟨?_, ha, hb, hc⟩
    rw [← String.toList_inj, hv, hr, hr']
    simp
  · rintro ⟨rfl, ha, hb, hc⟩
    refine ⟨b ++ ":" ++ c ++ ":" ++ d, ⟨by simp, ha⟩, c ++ ":" ++ d, ⟨by simp, hb⟩, d,
      ⟨by simp, hc⟩, rfl⟩

theorem parseV1_eq_ok {value : String} {v : V1} :
    parseV1 value = .ok v ↔ value = v.string ∧ v.Valid := by
  constructor
  · intro hok
    unfold parseV1 at hok
    split at hok
    · rename_i scheme ver workspaceID path hsplit
      split at hok
      · cases hok
      split at hok
      · cases hok
      rename_i hscheme hver
      split at hok
      · cases hok
      rename_i hworkspace
      split at hok
      · cases hok
      rename_i hpath
      cases hok
      rw [not_not] at hscheme hver
      rw [(splitN_four.mp hsplit).1, hscheme, hver]
      exact ⟨rfl, hworkspace, hpath⟩
    · cases hok
  · rintro ⟨rfl, hvalid⟩
    have hsplit : splitN ':' 4 v.string = [urnPrefix, version, v.workspaceID, v.resource] :=
      splitN_four.mpr ⟨rfl, by decide, by decide, hvalid.not_mem_workspaceID (by decide)⟩
    unfold parseV1
    rw [hsplit]
    simp [hvalid.workspace, hvalid.path]

end Unkey.Urn
