import Mathlib
import Unkey.Deploy.Domains

/-!
# Hostnames as DNS names

What the first label of a generated hostname is made of, and how long it gets.
-/

namespace Unkey.Deploy

def isLabelChar (c : Char) : Bool := c.isLower || c.isDigit || c == '-'

structure ValidLabel (label : List Char) : Prop where
  pos : 1 ≤ label.length
  short : label.length ≤ 63
  chars : ∀ c ∈ label, isLabelChar c = true
  head : label.head? ≠ some '-'
  last : label.getLast? ≠ some '-'

def firstLabel (domain : String) : List Char := domain.toList.takeWhile (· ≠ '.')

/-- The pattern `^[a-z0-9]+(-[a-z0-9]+)*$`, with a length of at most 64: no hyphen stands at an end
or next to another. -/
structure IsSlug (s : String) : Prop where
  nonempty : s.toList ≠ []
  chars : ∀ c ∈ s.toList, isLabelChar c = true
  head : s.toList.head? ≠ some '-'
  last : s.toList.getLast? ≠ some '-'
  single : ¬ ['-', '-'] <:+: s.toList
  length : s.toList.length ≤ 64

def isHexDigit (c : Char) : Bool := c.isDigit || ('a' ≤ c && c ≤ 'f') || ('A' ≤ c && c ≤ 'F')

def middles (environmentSlug gitSha branchName : String) (isProduction uniquifyCommitDomain : Bool)
    (deploymentID : String) : List String :=
  (if gitSha ≠ "" then
    ["-git-" ++ (firstChars 7 gitSha ++ disambiguator uniquifyCommitDomain deploymentID) ++ "-"]
    else []) ++
  (if branchName ≠ "" then ["-git-" ++ sluggify branchName ++ "-"] else []) ++
  ["-" ++ environmentSlug ++ "-"] ++ (if isProduction then ["-"] else []) ++
  ["-" ++ sluggify deploymentID ++ "-"]

theorem buildDomains_eq (workspaceSlug projectSlug appSlug environmentSlug gitSha branchName
    forkOwner apex : String) (isProduction uniquify : Bool) (deploymentID : String) :
    (buildDomains workspaceSlug projectSlug appSlug environmentSlug gitSha branchName forkOwner apex
      isProduction uniquify deploymentID).map NewDomain.domain =
    (middles environmentSlug gitSha branchName isProduction uniquify deploymentID).map fun m =>
      hostPrefix projectSlug appSlug forkOwner ++ m ++ workspaceSlug ++ "." ++ apex := by
  unfold buildDomains middles
  cases isProduction <;> by_cases hs : gitSha = "" <;> by_cases hb : branchName = "" <;>
    simp [hs, hb, String.append_assoc]

/-! ### The characters -/

variable {c : Char} {s : String} {cs : List Char}

theorem isLabelChar_toLower (h : c.isAlphanum = true) : isLabelChar c.toLower = true := by
  rw [Char.isAlphanum, Bool.or_eq_true] at h
  rcases h with halpha | hdigit
  · simp [isLabelChar, halpha]
  · have hupper : c.isUpper = false := by
      simp only [Char.isDigit, Char.isUpper, Bool.and_eq_true, decide_eq_true_eq,
        UInt32.le_iff_toNat_le] at hdigit ⊢
      simp only [Char.reduceVal, UInt32.reduceToNat, decide_eq_false_iff_not] at hdigit ⊢
      omega
    simp [isLabelChar, Char.toLower_eq_of_not_isUpper, hupper, hdigit]

theorem mem_collapseSpaces {b : Bool} (h : c ∈ collapseSpaces b cs) :
    c = ' ' ∨ c ∈ cs ∧ isRegexSpace c = false := by
  induction cs generalizing b with
  | nil => cases h
  | cons x cs ih =>
    rw [collapseSpaces] at h
    have hrest : ∀ {b}, c ∈ collapseSpaces b cs → c = ' ' ∨ c ∈ x :: cs ∧ isRegexSpace c = false :=
      fun h => (ih h).imp_right fun h => ⟨List.mem_cons_of_mem _ h.1, h.2⟩
    split at h
    · grind
    · grind

theorem mem_trimHyphen (h : c ∈ trimHyphen cs) : c ∈ cs := by
  unfold trimHyphen at h
  split at h
  · exact List.dropLast_subset cs h
  · exact h

/-- A letter, a digit or a space: what `blankOthers` leaves. -/
def Blanked (c : Char) : Prop := c.isAlphanum = true ∨ isRegexSpace c = true

theorem blanked_blankOthers (h : c ∈ blankOthers cs) : Blanked c := by
  obtain ⟨x, -, rfl⟩ := List.mem_map.mp h
  split
  · rename_i hx
    simpa [Blanked] using hx
  · exact .inr (by decide)

theorem blanked_replaceChar {old : Char} (hcs : ∀ c ∈ cs, Blanked c)
    (h : c ∈ replaceChar old ' ' cs) : Blanked c := by
  obtain ⟨x, hx, rfl⟩ := List.mem_map.mp h
  split
  · exact .inr (by decide)
  · exact hcs x hx

theorem isLabelChar_sluggify (s : String) : ∀ c ∈ (sluggify s).toList, isLabelChar c = true := by
  intro c h
  rw [sluggify, String.toList_ofList] at h
  obtain ⟨x, hx, rfl⟩ := List.mem_map.mp (List.mem_of_mem_take (mem_trimHyphen h))
  obtain ⟨y, hy, rfl⟩ := List.mem_map.mp hx
  rcases mem_collapseSpaces hy with rfl | ⟨hy, hspace⟩
  · decide
  · have hblank : Blanked y := blanked_replaceChar
      (fun _ h => blanked_replaceChar (fun _ h => blanked_blankOthers h) h) hy
    have halnum : y.isAlphanum = true := hblank.resolve_right (by simp [hspace])
    have hne : y ≠ ' ' := by
      rintro rfl
      exact absurd halnum (by decide)
    rw [if_neg hne]
    exact isLabelChar_toLower halnum

/-! ### The labels -/

variable {l : List Char} {d : NewDomain}

theorem firstLabel_eq {label apex : String} (h : '.' ∉ label.toList) :
    firstLabel (label ++ "." ++ apex) = label.toList := by
  have hall : ∀ c ∈ label.toList, decide (c ≠ '.') = true := by
    intro c hc
    refine decide_eq_true ?_
    rintro rfl
    exact h hc
  rw [firstLabel, String.toList_append, String.toList_append, List.append_assoc,
    List.takeWhile_append_of_pos hall]
  simp

theorem validLabel_iff {pre m post : String} (hhead : pre.toList ≠ [] ∧ pre.toList.head? ≠ some '-')
    (hpost : IsSlug post) :
    ValidLabel (pre ++ m ++ post).toList ↔
      (pre.toList.length + m.toList.length + post.toList.length ≤ 63 ∧
        ∀ c ∈ (pre ++ m ++ post).toList, isLabelChar c = true) := by
  have hlen : (pre ++ m ++ post).toList.length =
      pre.toList.length + m.toList.length + post.toList.length := by simp [Nat.add_assoc]
  have hpos := List.length_pos_of_ne_nil hhead.1
  constructor
  · intro h
    exact ⟨hlen ▸ h.short, h.chars⟩
  · rintro ⟨hshort, hchars⟩
    refine ⟨by omega, by omega, hchars, ?_, ?_⟩
    · simp_all
    · rw [String.toList_append, List.getLast?_append_of_ne_nil _ hpost.nonempty]
      exact hpost.last

variable {workspaceSlug projectSlug appSlug environmentSlug gitSha branchName forkOwner apex
  deploymentID m : String} {isProduction uniquify : Bool}

theorem hostPrefix_chars (hproject : IsSlug projectSlug) (happ : IsSlug appSlug) :
    ∀ c ∈ (hostPrefix projectSlug appSlug forkOwner).toList, isLabelChar c = true := by
  have hfork := isLabelChar_sluggify forkOwner
  intro c hc
  have hlit : ∀ c ∈ "-fork-".toList, isLabelChar c = true := by simp [isLabelChar]
  have hproject' : ∀ c ∈ (if appSlug ≠ "default" then projectSlug ++ "-" ++ appSlug
      else projectSlug).toList, isLabelChar c = true := by
    intro c hc
    split at hc
    · simp only [String.toList_append, List.mem_append] at hc
      rcases hc with (hc | hc) | hc
      · exact hproject.chars c hc
      · obtain rfl : c = '-' := by simpa using hc
        rfl
      · exact happ.chars c hc
    · exact hproject.chars c hc
  unfold hostPrefix at hc
  dsimp only at hc
  split at hc
  · simp only [String.toList_append, List.mem_append] at hc
    rcases hc with (hc | hc) | hc
    · exact hproject' c hc
    · exact hlit c hc
    · exact hfork c hc
  · exact hproject' c hc

theorem hostPrefix_head (hproject : IsSlug projectSlug) :
    (hostPrefix projectSlug appSlug forkOwner).toList ≠ [] ∧
      (hostPrefix projectSlug appSlug forkOwner).toList.head? ≠ some '-' := by
  have hstart : ∃ rest, (hostPrefix projectSlug appSlug forkOwner).toList =
      projectSlug.toList ++ rest := by
    unfold hostPrefix
    dsimp only
    split <;> split <;> simp
  obtain ⟨rest, hrest⟩ := hstart
  rw [hrest]
  refine ⟨List.append_ne_nil_of_left_ne_nil hproject.nonempty _, ?_⟩
  rw [List.head?_append_of_ne_nil _ hproject.nonempty]
  exact hproject.head

def commitMiddle (gitSha : String) (uniquify : Bool) (deploymentID : String) : String :=
  "-git-" ++ (firstChars 7 gitSha ++ disambiguator uniquify deploymentID) ++ "-"

theorem disambiguator_chars :
    ∀ c ∈ (disambiguator uniquify deploymentID).toList, isLabelChar c = true := by
  intro c hc
  unfold disambiguator at hc
  dsimp only at hc
  split at hc
  · rw [String.toList_append, List.mem_append] at hc
    rcases hc with hc | hc
    · obtain rfl : c = '-' := by simpa using hc
      rfl
    · rw [lastChars, String.toList_ofList] at hc
      exact isLabelChar_sluggify _ c (List.mem_of_mem_drop hc)
  · simp at hc

theorem mem_middles (henv : IsSlug environmentSlug)
    (h : m ∈ middles environmentSlug gitSha branchName isProduction uniquify deploymentID) :
    (∀ c ∈ m.toList, isLabelChar c = true) ∨
      gitSha ≠ "" ∧ m = commitMiddle gitSha uniquify deploymentID := by
  have hmid : ∀ pre s : String, (∀ c ∈ pre.toList, isLabelChar c = true) →
      (∀ c ∈ s.toList, isLabelChar c = true) →
      ∀ c ∈ (pre ++ s ++ "-").toList, isLabelChar c = true := by
    intro pre s hpre hs c hc
    simp only [String.toList_append, List.mem_append] at hc
    rcases hc with (hc | hc) | hc
    · exact hpre c hc
    · exact hs c hc
    · obtain rfl : c = '-' := by simpa using hc
      rfl
  have hgit : ∀ c ∈ "-git-".toList, isLabelChar c = true := by simp [isLabelChar]
  have hhyphen : ∀ c ∈ "-".toList, isLabelChar c = true := by simp [isLabelChar]
  simp only [middles, List.mem_append, List.mem_ite_nil_right, List.mem_singleton] at h
  rcases h with (((⟨hsha, rfl⟩ | ⟨-, rfl⟩) | rfl) | ⟨-, rfl⟩) | rfl
  · exact .inr ⟨hsha, rfl⟩
  · exact .inl (hmid _ _ hgit (isLabelChar_sluggify branchName))
  · exact .inl (hmid _ _ hhyphen henv.chars)
  · exact .inl hhyphen
  · exact .inl (hmid _ _ hhyphen (isLabelChar_sluggify deploymentID))

theorem isLabelChar_hexDigit (h : isHexDigit c = true) :
    isLabelChar c = true ↔ c.isUpper = false := by
  simp only [isHexDigit, Char.le_def, Char.isDigit, UInt32.le_iff_toNat_le, Char.reduceVal,
    UInt32.reduceToNat, Bool.or_eq_true, Bool.and_eq_true, decide_eq_true_eq, ge_iff_le] at h
  have hhyphen : c = '-' → c.val.toNat = 45 := by
    rintro rfl
    rfl
  simp only [isLabelChar, Char.isLower, Char.isDigit, Char.isUpper, UInt32.le_iff_toNat_le,
    Char.reduceVal, UInt32.reduceToNat, Bool.or_eq_true, Bool.and_eq_true, beq_iff_eq,
    decide_eq_true_eq, ge_iff_le, decide_eq_false_iff_not]
  constructor
  · rintro ((hlower | hdigit) | rfl)
    · omega
    · omega
    · have := hhyphen rfl
      omega
  · omega

theorem commitMiddle_chars (hsha : ∀ c ∈ gitSha.toList, isHexDigit c = true) :
    (∀ c ∈ (commitMiddle gitSha uniquify deploymentID).toList, isLabelChar c = true) ↔
      ∀ c ∈ (firstChars 7 gitSha).toList, c.isUpper = false := by
  have hhex : ∀ c ∈ (firstChars 7 gitSha).toList, isHexDigit c = true := by
    intro c hc
    rw [firstChars, String.toList_ofList] at hc
    exact hsha c (List.mem_of_mem_take hc)
  constructor
  · intro h c hc
    refine (isLabelChar_hexDigit (hhex c hc)).mp (h c ?_)
    simp only [commitMiddle, String.toList_append, List.mem_append]
    exact .inl (.inr (.inl hc))
  · intro h c hc
    simp only [commitMiddle, String.toList_append, List.mem_append] at hc
    rcases hc with (hc | hc | hc) | hc
    · revert c
      simp [isLabelChar]
    · exact (isLabelChar_hexDigit (hhex c hc)).mpr (h c hc)
    · exact disambiguator_chars c hc
    · obtain rfl : c = '-' := by simpa using hc
      rfl

/-- The first labels of all hostnames are valid exactly if the part of the commit sha they show has
no capital and each of them, put together from the prefix, its middle and the workspace, fits. -/
theorem buildDomains_valid_iff (hworkspace : IsSlug workspaceSlug) (hproject : IsSlug projectSlug)
    (happ : IsSlug appSlug) (henv : IsSlug environmentSlug)
    (hsha : ∀ c ∈ gitSha.toList, isHexDigit c = true) (apex branchName forkOwner : String)
    (isProduction uniquify : Bool) (deploymentID : String) :
    (∀ d ∈ buildDomains workspaceSlug projectSlug appSlug environmentSlug gitSha branchName forkOwner
        apex isProduction uniquify deploymentID, ValidLabel (firstLabel d.domain)) ↔
      (∀ c ∈ (firstChars 7 gitSha).toList, c.isUpper = false) ∧
        ∀ m ∈ middles environmentSlug gitSha branchName isProduction uniquify deploymentID,
          (hostPrefix projectSlug appSlug forkOwner).toList.length + m.toList.length +
            workspaceSlug.toList.length ≤ 63 := by
  set pre := hostPrefix projectSlug appSlug forkOwner
  have hpre : ∀ c ∈ pre.toList, isLabelChar c = true := hostPrefix_chars hproject happ
  have hdot : ∀ m ∈ middles environmentSlug gitSha branchName isProduction uniquify deploymentID,
      '.' ∉ (pre ++ m ++ workspaceSlug).toList := by
    intro m hm hmem
    simp only [String.toList_append, List.mem_append] at hmem
    rcases hmem with (hmem | hmem) | hmem
    · exact absurd (hpre _ hmem) (by decide)
    · rcases mem_middles henv hm with hchars | ⟨-, rfl⟩
      · exact absurd (hchars _ hmem) (by decide)
      · simp only [commitMiddle, String.toList_append, List.mem_append] at hmem
        rcases hmem with (hmem | hmem | hmem) | hmem
        · simp at hmem
        · rw [firstChars, String.toList_ofList] at hmem
          exact absurd (hsha _ (List.mem_of_mem_take hmem)) (by decide)
        · exact absurd (disambiguator_chars _ hmem) (by decide)
        · simp at hmem
    · exact absurd (hworkspace.chars _ hmem) (by decide)
  have hlabels : (∀ d ∈ buildDomains workspaceSlug projectSlug appSlug environmentSlug gitSha
      branchName forkOwner apex isProduction uniquify deploymentID,
        ValidLabel (firstLabel d.domain)) ↔
      ∀ m ∈ middles environmentSlug gitSha branchName isProduction uniquify deploymentID,
        ValidLabel (pre ++ m ++ workspaceSlug).toList := by
    rw [← List.forall_mem_map (f := NewDomain.domain) (P := fun x => ValidLabel (firstLabel x)),
      buildDomains_eq, List.forall_mem_map]
    exact forall₂_congr fun m hm => by rw [firstLabel_eq (hdot m hm)]
  have hiff : ∀ m, ValidLabel (pre ++ m ++ workspaceSlug).toList ↔ _ := fun m =>
    validLabel_iff (hostPrefix_head hproject) hworkspace
  simp only [hlabels, hiff]
  constructor
  · intro h
    refine ⟨?_, fun m hm => (h m hm).1⟩
    by_cases hempty : gitSha = ""
    · simp [hempty, firstChars]
    · have hmem : commitMiddle gitSha uniquify deploymentID ∈ middles environmentSlug gitSha
          branchName isProduction uniquify deploymentID := by simp [middles, hempty, commitMiddle]
      have hchars : ∀ c ∈ (commitMiddle gitSha uniquify deploymentID).toList,
          isLabelChar c = true := by
        intro c hc
        refine (h _ hmem).2 c ?_
        simp only [String.toList_append, List.mem_append]
        exact .inl (.inr hc)
      exact (commitMiddle_chars hsha).mp hchars
  · rintro ⟨hlower, hfit⟩ m hm
    refine ⟨hfit m hm, fun c hc => ?_⟩
    simp only [String.toList_append, List.mem_append] at hc
    rcases hc with (hc | hc) | hc
    · exact hpre c hc
    · rcases mem_middles henv hm with hchars | ⟨-, rfl⟩
      · exact hchars c hc
      · exact (commitMiddle_chars hsha).mpr hlower c hc
    · exact hworkspace.chars c hc

theorem isSlug_acme : IsSlug "acme" := by
  refine ⟨?_, ?_, ?_, ?_, ?_, ?_⟩ <;> simp [isLabelChar]
  decide

/-- A short production deployment. -/
theorem buildDomains_valid_acme : IsSlug "acme" ∧
    ∀ d ∈ buildDomains "acme" "acme" "acme" "acme" "0123abc" "Feat/x" "" "unkey.app" true true
      "d_1", ValidLabel (firstLabel d.domain) :=
  ⟨isSlug_acme, (buildDomains_valid_iff isSlug_acme isSlug_acme isSlug_acme isSlug_acme
    (by simp [isHexDigit]) "unkey.app" "Feat/x" "" true true "d_1").mpr
      ⟨by simp [firstChars], by decide⟩⟩

def longSlug : String := String.ofList (List.replicate 64 'a')

theorem isSlug_longSlug : IsSlug longSlug := by
  have hlist : longSlug.toList = List.replicate 64 'a' := String.toList_ofList
  have hmem : ∀ c ∈ longSlug.toList, c = 'a' := by
    rw [hlist]
    exact fun c => List.eq_of_mem_replicate
  refine ⟨?_, ?_, ?_, ?_, ?_, ?_⟩
  · simp [hlist]
  · intro c hc
    rw [hmem c hc]
    rfl
  · simp [hlist]
  · simp [hlist]
  · intro h
    exact absurd (hmem '-' (h.subset List.mem_cons_self)) (by decide)
  · simp [hlist]

/-- A project slug of the allowed length leaves no room for anything else. -/
theorem buildDomains_too_long :
    IsSlug "acme" ∧ IsSlug longSlug ∧ ∃ d ∈ buildDomains "acme" longSlug "acme" "acme" "0123abc"
      "main" "" "unkey.app" true false "d_1", ¬ ValidLabel (firstLabel d.domain) := by
  have hlong : ∃ d ∈ buildDomains "acme" longSlug "acme" "acme" "0123abc" "main" "" "unkey.app" true
      false "d_1", 63 < (firstLabel d.domain).length := by decide
  obtain ⟨d, hd, hlt⟩ := hlong
  exact ⟨isSlug_acme, isSlug_longSlug, d, hd, fun h => absurd h.short (Nat.not_le.mpr hlt)⟩

end Unkey.Deploy
