import Mathlib.Data.List.Basic
import Unkey.Base.GoString

/-!
# Hostnames of a deployment

Every hostname is a sequence of slugs glued with hyphens.
-/

namespace Unkey.Deploy

open Unkey.Base

structure Workspace where
  id : String
  slug : String
  deriving DecidableEq

structure Project where
  id : String
  workspace : Workspace
  slug : String
  deriving DecidableEq

structure App where
  id : String
  project : Project
  slug : String
  deriving DecidableEq

inductive EnvironmentKind
  | production | preview
  deriving DecidableEq

structure Environment where
  id : String
  app : App
  slug : String
  kind : EnvironmentKind
  deriving DecidableEq

inductive Trigger
  | unknown | github | api | cli | dashboard | unkey
  deriving DecidableEq

structure CommitSha where
  text : String
  ascii : text.toList.all (fun c => ' '.toNat ≤ c.toNat && c.toNat < 127) = true

def CommitSha.absent : CommitSha := ⟨"", rfl⟩

structure Deployment where
  id : String
  environment : Environment
  gitCommitSha : CommitSha
  gitBranch : String
  forkRepositoryFullName : Option String
  trigger : Trigger

inductive Sticky
  | none | branch | environment | live | deployment
  deriving DecidableEq

structure NewDomain where
  domain : String
  sticky : Sticky
  deriving DecidableEq

def isRegexSpace (c : Char) : Bool := c == '\t' || c == '\n' || c == '\x0c' || c == '\r' || c == ' '

def blankOthers (cs : List Char) : List Char :=
  cs.map fun c => if c.isAlphanum || isRegexSpace c then c else ' '

/-- `multipleSpacesRegex.ReplaceAllString(s, " ")`; `inSpace` after a space character. -/
def collapseSpaces (inSpace : Bool) : List Char → List Char
  | [] => []
  | c :: cs =>
    if isRegexSpace c then
      if inSpace then collapseSpaces true cs else ' ' :: collapseSpaces true cs
    else c :: collapseSpaces false cs

def replaceChar (old new : Char) (cs : List Char) : List Char :=
  cs.map fun c => if c = old then new else c

def trimHyphen (cs : List Char) : List Char :=
  if cs.getLast? = some '-' then cs.dropLast else cs

def sluggify (s : String) : String :=
  let cs := blankOthers (trimSpace s).toList
  let cs := replaceChar '_' ' ' (replaceChar '-' ' ' cs)
  let cs := replaceChar ' ' '-' (collapseSpaces false cs)
  let cs := (cs.map Char.toLower).take 80
  String.ofList (trimHyphen cs)

def forkOwner (d : Deployment) : String :=
  match d.forkRepositoryFullName with
  | none => ""
  | some name =>
    if '/' ∈ name.toList then String.ofList (name.toList.takeWhile (· ≠ '/')) else ""

def lastChars (n : Nat) (s : String) : String :=
  String.ofList (s.toList.drop (s.toList.length - n))

def firstChars (n : Nat) (s : String) : String := String.ofList (s.toList.take n)

def hostPrefix (projectSlug appSlug forkOwner : String) : String :=
  let project := if appSlug ≠ "default" then projectSlug ++ "-" ++ appSlug else projectSlug
  if forkOwner ≠ "" then project ++ "-fork-" ++ sluggify forkOwner else project

def disambiguator (uniquifyCommitDomain : Bool) (deploymentID : String) : String :=
  let tail := lastChars 4 (sluggify deploymentID)
  if uniquifyCommitDomain && tail ≠ "" then "-" ++ tail else ""

def buildDomains (workspaceSlug projectSlug appSlug environmentSlug gitSha branchName forkOwner
    apex : String) (isProduction uniquifyCommitDomain : Bool) (deploymentID : String) :
    List NewDomain :=
  let pre := hostPrefix projectSlug appSlug forkOwner
  let short := firstChars 7 gitSha ++ disambiguator uniquifyCommitDomain deploymentID
  (if gitSha ≠ "" then
    [⟨pre ++ "-git-" ++ short ++ "-" ++ workspaceSlug ++ "." ++ apex, .none⟩] else []) ++
  (if branchName ≠ "" then
    [⟨pre ++ "-git-" ++ sluggify branchName ++ "-" ++ workspaceSlug ++ "." ++ apex, .branch⟩]
    else []) ++
  [⟨pre ++ "-" ++ environmentSlug ++ "-" ++ workspaceSlug ++ "." ++ apex, .environment⟩] ++
  (if isProduction then [⟨pre ++ "-" ++ workspaceSlug ++ "." ++ apex, .live⟩] else []) ++
  [⟨pre ++ "-" ++ sluggify deploymentID ++ "-" ++ workspaceSlug ++ "." ++ apex, .deployment⟩]

def domainsOf (apex : String) (d : Deployment) : List NewDomain :=
  let env := d.environment
  buildDomains env.app.project.workspace.slug env.app.project.slug env.app.slug env.slug
    d.gitCommitSha.text d.gitBranch (forkOwner d) apex (env.kind = .production)
    (d.trigger = .cli) d.id

def collate (s : String) : List Char := s.toList.map Char.toLower

def sameName (a b : String) : Bool := collate a == collate b

def words (s : String) : List (List Char) := (collate s).splitOn '-'

theorem words_glue (a b : String) : words (a ++ "-" ++ b) = words a ++ words b := by
  have h : collate (a ++ "-" ++ b) = collate a ++ '-' :: collate b := by
    simp [collate]
  rw [words, h, List.splitOn_append_cons_self]
  rfl

theorem words_inj {a b : String} : words a = words b ↔ collate a = collate b := by
  constructor
  · intro h
    have hi := congrArg (List.intercalate ['-']) h
    simpa [words, List.intercalate_splitOn] using hi
  · intro h
    rw [words, words, h]

theorem sameName_apex {a b apex : String} :
    sameName (a ++ "." ++ apex) (b ++ "." ++ apex) = true ↔ words a = words b := by
  rw [words_inj, sameName, beq_iff_eq]
  simp [collate, List.append_assoc]

theorem words_literal (lit word : String) (hl : lit = "-" ++ word ++ "-") (a b : String) :
    words (a ++ lit ++ b) = words a ++ (words word ++ words b) := by
  have h : a ++ lit ++ b = a ++ "-" ++ (word ++ "-" ++ b) := by
    rw [hl]
    simp [String.append_assoc]
  rw [h, words_glue, words_glue]

def prefixWords (projectSlug appSlug forkOwner : String) : List (List Char) :=
  words projectSlug ++ (if appSlug ≠ "default" then words appSlug else []) ++
    (if forkOwner ≠ "" then words "fork" ++ words (sluggify forkOwner) else [])

theorem words_hostPrefix (projectSlug appSlug forkOwner : String) :
    words (hostPrefix projectSlug appSlug forkOwner) =
      prefixWords projectSlug appSlug forkOwner := by
  unfold hostPrefix prefixWords
  by_cases ha : appSlug = "default"
  · by_cases hf : forkOwner = ""
    · simp [ha, hf]
    · simp [ha, hf, words_literal "-fork-" "fork" rfl]
  · by_cases hf : forkOwner = ""
    · simp [ha, hf, words_glue]
    · simp [ha, hf, words_glue, words_literal "-fork-" "fork" rfl]

def commitWords (d : Deployment) : List (List Char) :=
  let tail := lastChars 4 (sluggify d.id)
  words (firstChars 7 d.gitCommitSha.text) ++
    if d.trigger = .cli ∧ tail ≠ "" then words tail else []

theorem words_commit (d : Deployment) :
    words (firstChars 7 d.gitCommitSha.text ++ disambiguator (d.trigger = .cli) d.id) =
      commitWords d := by
  unfold disambiguator commitWords
  by_cases hc : d.trigger = .cli ∧ lastChars 4 (sluggify d.id) ≠ ""
  · obtain ⟨hcli, htail⟩ := hc
    simp [hcli, htail, ← String.append_assoc, words_glue]
  · simp only [ne_eq, not_and, not_not] at hc
    by_cases hcli : d.trigger = .cli
    · simp [hcli, hc hcli]
    · simp [hcli]

def hostWords (d : Deployment) : List (List (List Char)) :=
  let env := d.environment
  let pre := prefixWords env.app.project.slug env.app.slug (forkOwner d)
  let workspace := words env.app.project.workspace.slug
  (if d.gitCommitSha.text ≠ "" then [pre ++ words "git" ++ commitWords d ++ workspace] else []) ++
  (if d.gitBranch ≠ "" then
    [pre ++ words "git" ++ words (sluggify d.gitBranch) ++ workspace] else []) ++
  [pre ++ words env.slug ++ workspace] ++
  (if env.kind = .production then [pre ++ workspace] else []) ++
  [pre ++ words (sluggify d.id) ++ workspace]

theorem domainsOf_words (apex : String) (d : Deployment) :
    ∃ hosts : List String,
      (domainsOf apex d).map NewDomain.domain = hosts.map (fun h => h ++ "." ++ apex) ∧
      hosts.map words = hostWords d := by
  let env := d.environment
  let pre := hostPrefix env.app.project.slug env.app.slug (forkOwner d)
  let workspace := env.app.project.workspace.slug
  refine ⟨(if d.gitCommitSha.text ≠ "" then [pre ++ "-git-" ++ (firstChars 7 d.gitCommitSha.text ++
        disambiguator (d.trigger = .cli) d.id) ++ "-" ++ workspace] else []) ++
      (if d.gitBranch ≠ "" then
        [pre ++ "-git-" ++ sluggify d.gitBranch ++ "-" ++ workspace] else []) ++
      [pre ++ "-" ++ env.slug ++ "-" ++ workspace] ++
      (if env.kind = .production then [pre ++ "-" ++ workspace] else []) ++
      [pre ++ "-" ++ sluggify d.id ++ "-" ++ workspace], ?_, ?_⟩
  · simp only [domainsOf, buildDomains, List.map_append, List.map_cons, List.map_nil,
      decide_eq_true_eq, apply_ite (List.map _)]
    rfl
  · simp only [hostWords, List.map_append, List.map_cons, List.map_nil, apply_ite (List.map _),
      words_glue, words_literal "-git-" "git" rfl, words_hostPrefix,
      words_commit, List.append_assoc, pre, workspace, env]

end Unkey.Deploy
