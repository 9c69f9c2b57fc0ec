import Unkey.Urn.Coverage

/-!
# Permissions on resources

A permission of `pkg/rbac` puts an action behind a resource name.
-/

namespace Unkey.Rbac

open Unkey.Base Unkey.Urn

structure UnkeyPermission where
  resource : V1
  action : String
  deriving DecidableEq

def UnkeyPermission.string (u : UnkeyPermission) : String := u.resource.string ++ "#" ++ u.action

theorem UnkeyPermission.string_ne_empty (u : UnkeyPermission) : u.string ≠ "" := by
  intro h
  have hlist := congrArg String.toList h
  simp [UnkeyPermission.string] at hlist

def invalidURNPermission : String := "invalid urn permission"

def validatePermissionAction (action : String) : Except String Unit :=
  if action = "*" then .ok ()
  else if action = "" then .error "must not be empty"
  else if containsAny action ":#/*" then
    .error "must not contain \":\", \"#\", \"/\", or \"*\""
  else if hasPrefix action "_" || hasSuffix action "_" then
    .error "must not start or end with \"_\""
  else .ok ()

def parseUrnPermission (value : String) : Except String UnkeyPermission :=
  match cut '#' value with
  | none => .error (invalidURNPermission ++ ": expected exactly one action separator")
  | some (urnStr, action) =>
    if containsAny action "#" then
      .error (invalidURNPermission ++ ": expected exactly one action separator")
    else match parseV1 urnStr with
      | .error err => .error (invalidURNPermission ++ ": " ++ err)
      | .ok resource => match validatePermissionAction action with
        | .error err => .error (invalidURNPermission ++ ": invalid action: " ++ err)
        | .ok () =>
          if action = "*" ∧ resource.resource ≠ "**" then
            .error (invalidURNPermission ++
              ": action wildcard requires the global resource pattern \"**\"")
          else .ok ⟨resource, action⟩

def permissionCovers (required granted : UnkeyPermission) : Bool :=
  if granted.action ≠ "*" ∧ granted.action ≠ required.action then false
  else granted.resource.covers required.resource

def evaluateUnkeyPermission (required : UnkeyPermission) (granted : List String) : Bool :=
  granted.any fun permission =>
    match parseUrnPermission permission with
    | .error _ => false
    | .ok grantedPermission => permissionCovers required grantedPermission

/-! ### What is accepted -/

structure UnkeyPermission.Valid (u : UnkeyPermission) : Prop where
  resource : u.resource.Valid
  action : validatePermissionAction u.action = .ok ()
  global : u.action = "*" → u.resource.resource = "**"

theorem not_mem_action {action : String} (h : validatePermissionAction action = .ok ()) :
    '#' ∉ action.toList := by
  unfold validatePermissionAction at h
  split at h
  · rename_i hstar
    rw [hstar]
    decide
  split at h
  · cases h
  split at h
  · cases h
  · rename_i hfree
    exact containsAny_eq_false.mp (Bool.eq_false_iff.mpr hfree) '#' (by decide)

theorem not_mem_string {v : V1} (h : v.Valid) : '#' ∉ v.string.toList := by
  have hws := h.not_mem_workspaceID (c := '#') (by decide)
  have hpath := not_mem_resource h.path (c := '#') (.inr rfl)
  simp [V1.string, urnPrefix, version, hws, hpath]

variable {u : UnkeyPermission}

theorem parseUrnPermission_eq_ok {value : String} :
    parseUrnPermission value = .ok u ↔ value = u.string ∧ u.Valid := by
  constructor
  · intro hok
    unfold parseUrnPermission at hok
    split at hok
    · cases hok
    rename_i urnStr action hcut
    split at hok
    · cases hok
    split at hok
    · cases hok
    rename_i resource hresource
    split at hok
    · cases hok
    rename_i haction
    split at hok
    · cases hok
    rename_i hglobal
    cases hok
    obtain ⟨rfl, hvalid⟩ := parseV1_eq_ok.mp hresource
    refine ⟨?_, hvalid, haction, fun hstar => by_contra fun hne => hglobal ⟨hstar, hne⟩⟩
    rw [← String.toList_inj, (cut_eq_some.mp hcut).1]
    simp [UnkeyPermission.string]
  · rintro ⟨rfl, hvalid⟩
    have hcut : cut '#' u.string = some (u.resource.string, u.action) :=
      cut_eq_some.mpr ⟨by simp [UnkeyPermission.string], not_mem_string hvalid.resource⟩
    have haction : containsAny u.action "#" = false := by
      refine containsAny_eq_false.mpr fun c hc => ?_
      obtain rfl : c = '#' := by simpa using hc
      exact not_mem_action hvalid.action
    have hresource : parseV1 u.resource.string = .ok u.resource :=
      parseV1_eq_ok.mpr ⟨rfl, hvalid.resource⟩
    have hglobal : ¬ (u.action = "*" ∧ u.resource.resource ≠ "**") :=
      fun h => h.2 (hvalid.global h.1)
    unfold parseUrnPermission
    rw [hcut]
    simp only [haction, hresource, hvalid.action, if_neg hglobal]
    rfl

/-! ### Round trip -/

def ActionShape (action : String) : Prop :=
  action = "*" ∨ action ≠ "" ∧ (∀ c ∈ [':', '#', '/', '*'], c ∉ action.toList) ∧
    ¬ ['_'] <+: action.toList ∧ ¬ ['_'] <:+ action.toList

theorem validatePermissionAction_eq_ok {action : String} :
    validatePermissionAction action = .ok () ↔ ActionShape action := by
  have hany : containsAny action ":#/*" = false ↔
      ∀ c ∈ [':', '#', '/', '*'], c ∉ action.toList := containsAny_eq_false
  have hprefix : hasPrefix action "_" = true ↔ ['_'] <+: action.toList := hasPrefix_iff
  have hsuffix : hasSuffix action "_" = true ↔ ['_'] <:+ action.toList :=
    List.isSuffixOf_iff_suffix
  rw [ActionShape, ← hany, ← hprefix, ← hsuffix, validatePermissionAction]
  split
  · rename_i hstar
    exact iff_of_true rfl (.inl hstar)
  rename_i hstar
  split
  · rename_i hempty
    simp [hempty]
  rename_i hempty
  split
  · rename_i hchars
    simp [hstar, hchars]
  rename_i hchars
  split
  · grind
  · grind

/-- The conditions on the fields of a permission, apart from what keeps the separators out of the
path and the action. -/
structure UnkeyPermission.Shape (u : UnkeyPermission) : Prop where
  workspace : u.resource.workspaceID ≠ ""
  free : ∀ c ∈ [':', '#', '/'], c ∉ u.resource.workspaceID.toList
  path : PathShape (split '/' u.resource.resource)
  global : u.action = "*" → u.resource.resource = "**"

structure UnkeyPermission.WellFormed (u : UnkeyPermission) : Prop extends u.Shape where
  segments : ∀ s ∈ split '/' u.resource.resource, ':' ∉ s.toList ∧ '#' ∉ s.toList
  action : ActionShape u.action

theorem UnkeyPermission.valid_iff_wellFormed : u.Valid ↔ u.WellFormed := by
  constructor
  · rintro ⟨⟨hworkspace, hpath⟩, haction, hglobal⟩
    obtain ⟨hne, hfree⟩ := validateWorkspaceID_eq_ok.mp hworkspace
    obtain ⟨hshape, hsegments⟩ := validateSegments_eq_ok_iff_shape.mp hpath
    exact ⟨⟨hne, hfree, hshape, hglobal⟩, hsegments, validatePermissionAction_eq_ok.mp haction⟩
  · rintro ⟨⟨hne, hfree, hshape, hglobal⟩, hsegments, haction⟩
    exact ⟨⟨validateWorkspaceID_eq_ok.mpr ⟨hne, hfree⟩,
      validateSegments_eq_ok_iff_shape.mpr ⟨hshape, hsegments⟩⟩,
      validatePermissionAction_eq_ok.mpr haction, hglobal⟩

/-- Every string that is read is the printed form of what was read, which is well formed, and
every well-formed permission is read back from its printed form. -/
theorem parseUrnPermission_string :
    (∀ s u, parseUrnPermission s = .ok u → u.string = s ∧ u.WellFormed) ∧
      ∀ u : UnkeyPermission, u.WellFormed → parseUrnPermission u.string = .ok u := by
  constructor
  · intro s u hparse
    obtain ⟨hs, hvalid⟩ := parseUrnPermission_eq_ok.mp hparse
    exact ⟨hs.symm, UnkeyPermission.valid_iff_wellFormed.mp hvalid⟩
  · intro u hu
    exact parseUrnPermission_eq_ok.mpr ⟨rfl, UnkeyPermission.valid_iff_wellFormed.mpr hu⟩

/-- The admin grant is well formed and read back. -/
theorem parseUrnPermission_string_admin :
    UnkeyPermission.WellFormed ⟨⟨"ws_1", "**"⟩, "*"⟩ ∧
      parseUrnPermission "unkey:v1:ws_1:**#*" = .ok ⟨⟨"ws_1", "**"⟩, "*"⟩ := by
  have hparse : parseUrnPermission "unkey:v1:ws_1:**#*" = .ok ⟨⟨"ws_1", "**"⟩, "*"⟩ := by
    decide +kernel
  obtain ⟨hstring, hwell⟩ := parseUrnPermission_string.1 _ _ hparse
  exact ⟨hwell, hstring ▸ parseUrnPermission_string.2 _ hwell⟩

/-- A permission with no action at all, and one with a separator in its action, have the shape but
are not read back. -/
theorem parseUrnPermission_no_action :
    UnkeyPermission.Shape ⟨⟨"ws_1", "keyspaces"⟩, ""⟩ ∧
      parseUrnPermission (UnkeyPermission.string ⟨⟨"ws_1", "keyspaces"⟩, ""⟩) =
        .error "invalid urn permission: invalid action: must not be empty" ∧
      UnkeyPermission.Shape ⟨⟨"ws_1", "keyspaces"⟩, "read#key"⟩ ∧
      parseUrnPermission (UnkeyPermission.string ⟨⟨"ws_1", "keyspaces"⟩, "read#key"⟩) =
        .error "invalid urn permission: expected exactly one action separator" := by
  have hpath : PathShape (split '/' "keyspaces") := by
    constructor <;> decide +kernel
  refine ⟨⟨by decide, by simp, hpath, by decide⟩, by decide +kernel,
    ⟨by decide, by simp, hpath, by decide⟩, by decide +kernel⟩

theorem workspaceID_of_parse {v : V1} {action : String}
    (h : parseUrnPermission (UnkeyPermission.string ⟨v, action⟩) = .ok u) :
    u.resource.workspaceID = v.workspaceID := by
  obtain ⟨hstring, hvalid⟩ := parseUrnPermission_eq_ok.mp h
  obtain ⟨hname, -⟩ := glue_inj_of_free "#" (c := '#') rfl (not_mem_string hvalid.resource)
    (not_mem_action hvalid.action) hstring
  have hfields : v.workspaceID ++ ":" ++ v.resource
      = u.resource.workspaceID ++ ":" ++ u.resource.resource := by
    simpa [V1.string, String.append_assoc] using hname
  obtain ⟨hws, -⟩ := glue_inj_of_free ":" (c := ':') rfl
    (hvalid.resource.not_mem_workspaceID (by decide))
    (not_mem_resource hvalid.resource.path (.inl rfl)) hfields
  exact hws.symm

end Unkey.Rbac
