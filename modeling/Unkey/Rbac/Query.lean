import Unkey.Rbac.Permission

/-!
# Permission queries

The tree of `And`, `Or` and leaves of `pkg/rbac` and its evaluation, with the messages.
-/

namespace Unkey.Rbac

open Unkey.Base Unkey.Urn

inductive QueryOperator where
  | nil
  | and
  | or
  | other (text : String)
  deriving DecidableEq

def QueryOperator.text : QueryOperator → String
  | .nil => ""
  | .and => "and"
  | .or => "or"
  | .other text => text

inductive PermissionQuery where
  | node (operation : QueryOperator) (value : String) (children : List PermissionQuery)
      (matchUnkeyPermission : Bool)

namespace PermissionQuery

def and (queries : List PermissionQuery) : PermissionQuery := .node .and "" queries false

def or (queries : List PermissionQuery) : PermissionQuery := .node .or "" queries false

def S (s : String) : PermissionQuery := .node .nil s [] false

def U (resource : V1) (action : String) : PermissionQuery :=
  .node .nil (UnkeyPermission.string ⟨resource, action⟩) [] true

end PermissionQuery

/-! ### Evaluation -/

structure EvaluationResult where
  valid : Bool
  message : String
  deriving DecidableEq

mutual

def formatPermissionQuery : PermissionQuery → String
  | .node operation value children _ =>
    if value ≠ "" then value
    else
      let parts := formatAll children
      match operation with
      | .nil => "invalid permission query"
      | .and => String.intercalate " and " parts
      | .or => String.intercalate " or " parts
      | .other _ => "invalid permission query"

def formatAll : List PermissionQuery → List String
  | [] => []
  | child :: children => formatPermissionQuery child :: formatAll children

end

def evaluateLeafPermission (value : String) (matchUnkeyPermission : Bool)
    (permissions : List String) : Bool :=
  if value ∈ permissions then true
  else if matchUnkeyPermission = false then false
  else match parseUrnPermission value with
    | .error _ => false
    | .ok requiredPermission => evaluateUnkeyPermission requiredPermission permissions

mutual

def evaluateQueryV1 (permissions : List String) :
    PermissionQuery → Except String EvaluationResult
  | .node operation value children matchUnkeyPermission =>
    if value ≠ "" then
      if evaluateLeafPermission value matchUnkeyPermission permissions then .ok ⟨true, ""⟩
      else .ok ⟨false, "Missing permission: '" ++ value ++ "'"⟩
    else match operation with
      | .and => evaluateAnd permissions children
      | .or => evaluateOr permissions [] children
      | .nil | .other _ =>
        .error ("query has invalid structure: operation=" ++ operation.text ++ ", value=" ++
          value ++ ", children=" ++ itoa children.length)

def evaluateAnd (permissions : List String) :
    List PermissionQuery → Except String EvaluationResult
  | [] => .ok ⟨true, ""⟩
  | child :: children =>
    match evaluateQueryV1 permissions child with
    | .error err => .error err
    | .ok result => if result.valid = false then .ok result else evaluateAnd permissions children

def evaluateOr (permissions : List String) (missingPerms : List String) :
    List PermissionQuery → Except String EvaluationResult
  | [] => .ok ⟨false, "Missing one of these permissions: " ++
      String.intercalate " or " missingPerms⟩
  | child :: children =>
    match evaluateQueryV1 permissions child with
    | .error err => .error err
    | .ok result =>
      if result.valid then .ok result
      else evaluateOr permissions (missingPerms ++ [formatPermissionQuery child]) children

end

def evaluatePermissions (query : PermissionQuery) (permissions : List String) :
    Except String EvaluationResult := evaluateQueryV1 permissions query

def Granted (query : PermissionQuery) (permissions : List String) : Prop :=
  ∃ result, evaluatePermissions query permissions = .ok result ∧ result.valid = true

/-! ### The formula of a tree -/

inductive PermissionQuery.WellFormed : PermissionQuery → Prop
  | leaf {operation : QueryOperator} {value : String} {children : List PermissionQuery} {m : Bool}
      (hvalue : value ≠ "") : WellFormed (.node operation value children m)
  | inner {operation : QueryOperator} {children : List PermissionQuery} {m : Bool}
      (hop : operation = .and ∨ operation = .or) (hchildren : ∀ c ∈ children, WellFormed c) :
      WellFormed (.node operation "" children m)

mutual

def PermissionQuery.holds (leaf : String → Bool → Bool) : PermissionQuery → Bool
  | .node operation value children m =>
    if value ≠ "" then leaf value m
    else match operation with
      | .and => allHold leaf children
      | .or => anyHolds leaf children
      | .nil | .other _ => false

def PermissionQuery.allHold (leaf : String → Bool → Bool) : List PermissionQuery → Bool
  | [] => true
  | child :: children => child.holds leaf && allHold leaf children

def PermissionQuery.anyHolds (leaf : String → Bool → Bool) : List PermissionQuery → Bool
  | [] => false
  | child :: children => child.holds leaf || anyHolds leaf children

end

mutual

def PermissionQuery.leaves : PermissionQuery → List (String × Bool)
  | .node _ value children m => if value ≠ "" then [(value, m)] else leavesOf children

def PermissionQuery.leavesOf : List PermissionQuery → List (String × Bool)
  | [] => []
  | child :: children => child.leaves ++ leavesOf children

end

namespace PermissionQuery

variable {leaf leaf' : String → Bool → Bool} {permissions : List String} {q : PermissionQuery}

variable {operation : QueryOperator} {value : String} {children : List PermissionQuery} {m : Bool}

theorem holds_leaf (hvalue : value ≠ "") :
    (node operation value children m).holds leaf = leaf value m := by
  rw [holds.eq_def]
  exact if_pos hvalue

theorem holds_and : (node .and "" children m).holds leaf = allHold leaf children := rfl

theorem holds_or : (node .or "" children m).holds leaf = anyHolds leaf children := rfl

theorem evaluateQueryV1_leaf (hvalue : value ≠ "") :
    evaluateQueryV1 permissions (node operation value children m)
      = if evaluateLeafPermission value m permissions then .ok ⟨true, ""⟩
        else .ok ⟨false, "Missing permission: '" ++ value ++ "'"⟩ := by
  rw [evaluateQueryV1.eq_def]
  exact if_pos hvalue

theorem evaluateQueryV1_and : evaluateQueryV1 permissions (node .and "" children m)
    = evaluateAnd permissions children := rfl

theorem evaluateQueryV1_or : evaluateQueryV1 permissions (node .or "" children m)
    = evaluateOr permissions [] children := rfl

theorem allHold_eq (leaf : String → Bool → Bool) (children : List PermissionQuery) :
    allHold leaf children = children.all (holds leaf) := by
  induction children with
  | nil => rfl
  | cons child children ih => rw [allHold, ih, List.all_cons]

theorem anyHolds_eq (leaf : String → Bool → Bool) (children : List PermissionQuery) :
    anyHolds leaf children = children.any (holds leaf) := by
  induction children with
  | nil => rfl
  | cons child children ih => rw [anyHolds, ih, List.any_cons]

theorem leavesOf_eq (children : List PermissionQuery) :
    leavesOf children = children.flatMap leaves := by
  induction children with
  | nil => rfl
  | cons child children ih => rw [leavesOf, ih, List.flatMap_cons]

theorem leaves_child {c : PermissionQuery} (hc : c ∈ children) {x : String × Bool} (hx : x ∈ c.leaves) :
    x ∈ (node operation "" children m).leaves := by
  rw [leaves, if_neg (by simp), leavesOf_eq]
  exact List.mem_flatMap.mpr ⟨c, hc, hx⟩

def granting (permissions : List String) (value : String) (m : Bool) : Bool :=
  evaluateLeafPermission value m permissions

theorem evaluateAnd_valid
    (h : ∀ c ∈ children, ∃ result, evaluateQueryV1 permissions c = .ok result ∧
      result.valid = c.holds (granting permissions)) :
    ∃ result, evaluateAnd permissions children = .ok result ∧
      result.valid = allHold (granting permissions) children := by
  induction children with
  | nil => exact ⟨⟨true, ""⟩, rfl, rfl⟩
  | cons child children ih =>
    obtain ⟨result, hok, hvalid⟩ := h child List.mem_cons_self
    rw [evaluateAnd, hok, allHold, ← hvalid]
    dsimp only
    cases hresult : result.valid with
    | false => exact ⟨result, rfl, hresult⟩
    | true => exact ih fun c hc => h c (List.mem_cons_of_mem _ hc)

theorem evaluateOr_valid
    (h : ∀ c ∈ children, ∃ result, evaluateQueryV1 permissions c = .ok result ∧
      result.valid = c.holds (granting permissions)) (missingPerms : List String) :
    ∃ result, evaluateOr permissions missingPerms children = .ok result ∧
      result.valid = anyHolds (granting permissions) children := by
  induction children generalizing missingPerms with
  | nil => exact ⟨_, rfl, rfl⟩
  | cons child children ih =>
    obtain ⟨result, hok, hvalid⟩ := h child List.mem_cons_self
    rw [evaluateOr, hok, anyHolds, ← hvalid]
    dsimp only
    cases hresult : result.valid with
    | false => exact ih (fun c hc => h c (List.mem_cons_of_mem _ hc)) _
    | true => exact ⟨result, rfl, hresult⟩

theorem evaluateQueryV1_valid (hq : q.WellFormed) :
    ∃ result, evaluateQueryV1 permissions q = .ok result ∧
      result.valid = q.holds (granting permissions) := by
  induction hq with
  | leaf hvalue =>
    rename_i value children m
    rw [evaluateQueryV1_leaf hvalue, holds_leaf hvalue, granting]
    cases evaluateLeafPermission value m permissions with
    | false => exact ⟨_, rfl, rfl⟩
    | true => exact ⟨_, rfl, rfl⟩
  | inner hop _ ih =>
    rcases hop with rfl | rfl
    · rw [evaluateQueryV1_and, holds_and]
      exact evaluateAnd_valid ih
    · rw [evaluateQueryV1_or, holds_or]
      exact evaluateOr_valid ih []

theorem granted_iff (hq : q.WellFormed) :
    Granted q permissions ↔ q.holds (granting permissions) = true := by
  obtain ⟨result, hok, hvalid⟩ : ∃ result, evaluateQueryV1 permissions q = .ok result ∧
      result.valid = q.holds (granting permissions) := evaluateQueryV1_valid hq
  constructor
  · rintro ⟨result', hok', hvalid'⟩
    have heq : result' = result := Except.ok.inj (hok'.symm.trans hok)
    rw [← hvalid, ← heq, hvalid']
  · intro h
    exact ⟨result, hok, hvalid.trans h⟩

theorem holds_mono (hq : q.WellFormed)
    (hleaf : ∀ x ∈ q.leaves, leaf x.1 x.2 = true → leaf' x.1 x.2 = true)
    (hholds : q.holds leaf = true) : q.holds leaf' = true := by
  induction hq with
  | leaf hvalue =>
    rename_i value children m
    rw [holds_leaf hvalue] at hholds ⊢
    refine hleaf (value, m) ?_ hholds
    rw [leaves, if_pos hvalue]
    exact List.mem_singleton_self _
  | inner hop _ ih =>
    have hchild := fun c hc => ih c hc fun x hx => hleaf x (leaves_child hc hx)
    rcases hop with rfl | rfl
    · simp only [holds_and, allHold_eq, List.all_eq_true] at hholds ⊢
      exact fun c hc => hchild c hc (hholds c hc)
    · grind [holds_or, anyHolds_eq, List.any_eq_true]

end PermissionQuery

theorem evaluateUnkeyPermission_eq_true {required : UnkeyPermission} {granted : List String} :
    evaluateUnkeyPermission required granted = true ↔ ∃ permission ∈ granted,
      ∃ u, parseUrnPermission permission = .ok u ∧ permissionCovers required u = true := by
  unfold evaluateUnkeyPermission
  rw [List.any_eq_true]
  refine exists_congr fun permission => and_congr_right fun _ => ?_
  cases parseUrnPermission permission with
  | error err => simp
  | ok u => simp

theorem evaluateLeafPermission_eq_true {value : String} {m : Bool} {permissions : List String} :
    evaluateLeafPermission value m permissions = true ↔ value ∈ permissions ∨
      (m = true ∧ ∃ required, parseUrnPermission value = .ok required ∧
        ∃ permission ∈ permissions, ∃ u, parseUrnPermission permission = .ok u ∧
          permissionCovers required u = true) := by
  unfold evaluateLeafPermission
  split
  · rename_i hmem
    exact iff_of_true rfl (.inl hmem)
  rename_i hmem
  split
  · rename_i hm
    simp [hmem, hm]
  rename_i hm
  rw [Bool.not_eq_false] at hm
  cases parseUrnPermission value with
  | error err => simp [hmem]
  | ok required => simp [hmem, hm, evaluateUnkeyPermission_eq_true]

/-! ### More grants, and grants of other workspaces -/

theorem evaluateLeafPermission_mono {value : String} {m : Bool} {P P' : List String}
    (hsub : ∀ p ∈ P, p ∈ P') (h : evaluateLeafPermission value m P = true) :
    evaluateLeafPermission value m P' = true := by
  rw [evaluateLeafPermission_eq_true] at h ⊢
  rcases h with hmem | ⟨hm, required, hparse, permission, hpermission, hgranted⟩
  · exact .inl (hsub value hmem)
  · exact .inr ⟨hm, required, hparse, permission, hsub permission hpermission, hgranted⟩

/-- Every leaf is one of `U` on a resource of the workspace. -/
def PermissionQuery.Within (workspaceID : String) (q : PermissionQuery) : Prop :=
  ∀ x ∈ q.leaves, ∃ (resource : V1) (action : String), resource.workspaceID = workspaceID ∧
    x = (UnkeyPermission.string ⟨resource, action⟩, true)

inductive PermissionQuery.Vacuous : PermissionQuery → Prop
  | and {children : List PermissionQuery} {m : Bool} (hall : ∀ c ∈ children, Vacuous c) :
      Vacuous (.node .and "" children m)
  | or {children : List PermissionQuery} {m : Bool} {c : PermissionQuery} (hc : c ∈ children)
      (hany : Vacuous c) : Vacuous (.node .or "" children m)

theorem PermissionQuery.vacuous_of_holds {q : PermissionQuery} (hq : q.WellFormed)
    (h : q.holds (fun _ _ => false) = true) : q.Vacuous := by
  induction hq with
  | leaf hvalue =>
    rw [holds_leaf hvalue] at h
    cases h
  | inner hop _ ih =>
    rcases hop with rfl | rfl
    · simp only [holds_and, allHold_eq, List.all_eq_true] at h
      exact .and fun c hc => ih c hc (h c hc)
    · simp only [holds_or, anyHolds_eq, List.any_eq_true] at h
      obtain ⟨c, hc, h⟩ := h
      exact .or hc (ih c hc h)

theorem evaluateLeafPermission_other {resource : V1} {action : String} {P : List String}
    (hliteral : UnkeyPermission.string ⟨resource, action⟩ ∉ P)
    (hother : ∀ p ∈ P, ∀ u, parseUrnPermission p = .ok u →
      u.resource.workspaceID ≠ resource.workspaceID) (m : Bool) :
    ¬ evaluateLeafPermission (UnkeyPermission.string ⟨resource, action⟩) m P = true := by
  rw [evaluateLeafPermission_eq_true]
  rintro (hmem | ⟨-, required, hrequired, p, hp, u, hu, hcovers⟩)
  · exact hliteral hmem
  · refine hother p hp u hu ?_
    unfold permissionCovers at hcovers
    split at hcovers
    · cases hcovers
    · rw [(V1.covers_iff.mp hcovers).workspaceID, workspaceID_of_parse hrequired]

/-- Over all well-formed queries: what is granted stays granted under more grants, and a query on
the resources of one workspace is not granted by the literal permissions and the permission URNs
of others, except where empty `And`s alone satisfy it. -/
theorem granted_mono_and_within {q : PermissionQuery} (hq : q.WellFormed) :
    (∀ P P' : List String, (∀ p ∈ P, p ∈ P') → Granted q P → Granted q P') ∧
    ∀ (workspaceID : String) (P : List String), q.Within workspaceID →
      (∀ x ∈ q.leaves, x.1 ∉ P) →
      (∀ p ∈ P, ∀ u, parseUrnPermission p = .ok u → u.resource.workspaceID ≠ workspaceID) →
      Granted q P → q.Vacuous := by
  constructor
  · intro P P' hsub hgranted
    rw [PermissionQuery.granted_iff hq] at hgranted ⊢
    exact PermissionQuery.holds_mono hq (fun x _ => evaluateLeafPermission_mono hsub) hgranted
  · intro workspaceID P hwithin hliteral hother hgranted
    rw [PermissionQuery.granted_iff hq] at hgranted
    refine PermissionQuery.vacuous_of_holds hq
      (PermissionQuery.holds_mono hq (fun x hx hleaf => ?_) hgranted)
    obtain ⟨resource, action, rfl, rfl⟩ := hwithin x hx
    exact absurd hleaf (evaluateLeafPermission_other (hliteral _ hx) hother true)

def readKeyAndKeyspace : PermissionQuery :=
  .and [.U ⟨"ws_1", "keyspaces/ks_1/keys/k_1"⟩ "read_key",
    .or [.U ⟨"ws_1", "keyspaces/ks_1"⟩ "read_keyspace"]]

theorem granted_mono_and_within_tenants :
    Granted readKeyAndKeyspace ["unkey:v1:ws_1:**#*", "unkey:v1:ws_2:**#*"] ∧
      ¬ Granted readKeyAndKeyspace ["unkey:v1:ws_2:**#*", "api.api_1.read_key"] := by
  have hleaf : ∀ (v : V1) (a : String), (PermissionQuery.U v a).WellFormed := fun v a =>
    .leaf (UnkeyPermission.string_ne_empty _)
  have hq : readKeyAndKeyspace.WellFormed := by
    refine .inner (.inl rfl) ?_
    simp only [List.forall_mem_cons, List.not_mem_nil, false_implies, implies_true, and_true]
    exact ⟨hleaf _ _, .inner (.inr rfl) (by simpa using hleaf _ _)⟩
  constructor
  · refine (granted_mono_and_within hq).1 ["unkey:v1:ws_1:**#*"] _ (by simp) ⟨⟨true, ""⟩, ?_, rfl⟩
    decide +kernel
  · intro hgranted
    have hvacuous := (granted_mono_and_within hq).2 "ws_1" _ ?_ ?_ ?_ hgranted
    · cases hvacuous with
      | and hall => cases hall (.U _ _) List.mem_cons_self
    · have hleaves : readKeyAndKeyspace.leaves =
          [(UnkeyPermission.string ⟨⟨"ws_1", "keyspaces/ks_1/keys/k_1"⟩, "read_key"⟩, true),
            (UnkeyPermission.string ⟨⟨"ws_1", "keyspaces/ks_1"⟩, "read_keyspace"⟩, true)] := by
        decide +kernel
      intro x hx
      rw [hleaves] at hx
      simp only [List.mem_cons, List.not_mem_nil, or_false] at hx
      rcases hx with rfl | rfl
      · exact ⟨_, _, rfl, rfl⟩
      · exact ⟨_, _, rfl, rfl⟩
    · decide +kernel
    · have hgrant : parseUrnPermission "unkey:v1:ws_2:**#*" = .ok ⟨⟨"ws_2", "**"⟩, "*"⟩ := by
        decide +kernel
      have hlegacy : parseUrnPermission "api.api_1.read_key"
          = .error "invalid urn permission: expected exactly one action separator" := by
        decide +kernel
      intro p hp u hu
      simp only [List.mem_cons, List.not_mem_nil, or_false] at hp
      rcases hp with rfl | rfl
      · rw [hgrant] at hu
        cases hu
        decide
      · rw [hlegacy] at hu
        cases hu

end Unkey.Rbac
