import Unkey.Base.Escaped

/-!
# Rate-limit identifiers

`extractIdentifier` derives the key of a rate-limit bucket from one or several sources of the
request.
-/

namespace Unkey.Frontline.Identifier

open Unkey.Base.Escaped

abbrev Bytes := List UInt8

/-- A principal as `ResolveField` reads it back from its JSON. -/
inductive Json where
  | string (s : Bytes)
  | object (members : List (Bytes × Json))
  | other

structure Principal where
  subject : Bytes
  json : Json

def dot : UInt8 := 46

/-- The loop of `ResolveField` over the segments of the path. -/
def resolve : Json → List Bytes → Bytes
  | .string s, [] => s
  | .object members, seg :: segs =>
    match members.find? (·.1 == seg) with
    | some (_, j) => resolve j segs
    | none => []
  | _, _ => []

def Principal.resolveField (p : Principal) (path : Bytes) : Bytes := resolve p.json (path.splitOn dot)

/-- What a part can be taken from: the address of the client, the header values, the path. -/
structure Request where
  location : Bytes
  header : Bytes → Bytes
  path : Bytes
  principal : Option Principal

inductive Source where
  | remoteIp
  | header (name : Bytes)
  | path
  | authenticatedSubject
  | principalField (path : Bytes)
  deriving DecidableEq

def extractIdentifierPart (r : Request) : Option Source → Bytes
  | none => []
  | some .remoteIp => r.location
  | some (.header name) => r.header name
  | some .path => r.path
  | some .authenticatedSubject => r.principal.elim [] (·.subject)
  | some (.principalField path) => r.principal.elim [] (·.resolveField path)

structure RateLimit where
  identifier : Option Source
  identifiers : List (Option Source)

/-- The bytes of `"unknown"`. -/
def unknown : Bytes := [117, 110, 107, 110, 111, 119, 110]

def colon : UInt8 := 58

def backslash : UInt8 := 92

def partOrUnknown (part : Bytes) : Bytes := if part = [] then unknown else part

def extractIdentifier (cfg : RateLimit) (r : Request) : Bytes :=
  match cfg.identifiers with
  | [] => extractIdentifierPart r cfg.identifier
  | [source] => extractIdentifierPart r source
  | sources =>
    let parts := sources.map (extractIdentifierPart r)
    if parts.all (· = []) then [] else joined colon backslash (parts.map partOrUnknown)

def resolvedParts (cfg : RateLimit) (r : Request) : List Bytes :=
  cfg.identifiers.map fun source => partOrUnknown (extractIdentifierPart r source)

def Resolves (cfg : RateLimit) (r : Request) : Prop :=
  ∃ source ∈ cfg.identifiers, extractIdentifierPart r source ≠ []

variable {cfg : RateLimit} {r : Request}

theorem extractIdentifier_compound (hmany : 2 ≤ cfg.identifiers.length) (r : Request) :
    (Resolves cfg r → extractIdentifier cfg r = joined colon backslash (resolvedParts cfg r)) ∧
      (¬ Resolves cfg r → extractIdentifier cfg r = []) := by
  unfold extractIdentifier Resolves resolvedParts
  split
  · simp_all
  · simp_all
  · dsimp only
    rw [List.map_map]
    by_cases hall : (cfg.identifiers.map (extractIdentifierPart r)).all (· = []) = true
    · simp_all
    · rw [if_neg hall]
      refine ⟨fun _ => rfl, fun hnone => absurd ?_ hall⟩
      simp only [List.all_map, List.all_eq_true, Function.comp_apply, decide_eq_true_eq]
      intro source hsource
      by_contra hne
      exact hnone ⟨source, hsource, hne⟩

theorem joined_ne_nil (hmany : 2 ≤ cfg.identifiers.length) (r : Request) :
    joined colon backslash (resolvedParts cfg r) ≠ [] := by
  unfold resolvedParts
  match cfg.identifiers, hmany with
  | s :: s' :: rest, _ => simp [joined]

/-- Over two or more sources, requests that resolve at least one part each have the same key exactly
if they have the same parts, and a key is empty exactly if no part resolves. -/
theorem extractIdentifier_unambiguous (cfg : RateLimit) (hmany : 2 ≤ cfg.identifiers.length)
    (r r' : Request) :
    (Resolves cfg r → Resolves cfg r' →
      (extractIdentifier cfg r = extractIdentifier cfg r' ↔
        resolvedParts cfg r = resolvedParts cfg r')) ∧
    (extractIdentifier cfg r = [] ↔ ¬ Resolves cfg r) := by
  have hne : ∀ r, resolvedParts cfg r ≠ [] := by
    intro r hnil
    rw [resolvedParts, List.map_eq_nil_iff] at hnil
    simp [hnil] at hmany
  obtain ⟨hyes, hno⟩ := extractIdentifier_compound hmany r
  refine ⟨fun hr hr' => ?_, fun hempty hr => ?_, hno⟩
  · rw [hyes hr, (extractIdentifier_compound hmany r').1 hr']
    exact ⟨joined_inj (by decide) (hne r) (hne r'), congrArg _⟩
  · rw [hyes hr] at hempty
    exact joined_ne_nil hmany r hempty

def byPath : RateLimit := ⟨none, [some .authenticatedSubject, some .path]⟩

/-- The subject `a:b` with the path `c` is not taken for `a` with `b:c`. -/
theorem extractIdentifier_unambiguous_colon :
    extractIdentifier byPath ⟨[], fun _ => [], [99], some ⟨[97, 58, 98], .other⟩⟩ ≠
      extractIdentifier byPath ⟨[], fun _ => [], [98, 58, 99], some ⟨[97], .other⟩⟩ := by
  intro h
  have hparts := ((extractIdentifier_unambiguous byPath (by decide) _ _).1
    ⟨some .path, by decide, by decide⟩ ⟨some .path, by decide, by decide⟩).mp h
  exact absurd hparts (by decide)

end Unkey.Frontline.Identifier
