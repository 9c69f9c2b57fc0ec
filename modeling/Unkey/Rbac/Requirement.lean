import Unkey.Rbac.Query

/-!
# Requirements with wildcards

Handlers ask for permissions on resources that do not exist yet by writing `*` for the identifier.
-/

namespace Unkey.Rbac

open Unkey.Base Unkey.Urn

def actions : List String :=
  ["create_app", "create_deployment", "create_domain", "create_environment", "create_identity",
    "create_key", "create_permission", "create_portal", "create_portal_session", "create_project",
    "create_variable", "decrypt_key", "delete_app", "delete_identity", "delete_key",
    "delete_override", "delete_portal", "delete_project", "encrypt_key", "promote_deployment",
    "read_environment", "read_environment_variables", "read_identity", "read_key",
    "read_keyspace", "read_override", "read_portal", "remove_environment_variables",
    "rollback_deployment", "set_environment_variables", "set_override", "start_deployment",
    "stop_deployment", "update_environment", "update_identity", "update_key", "update_portal",
    "update_project", "verify_key"]

structure Action where
  name : String
  known : name ∈ actions

theorem Action.valid (a : Action) : validatePermissionAction a.name = .ok () ∧ a.name ≠ "*" := by
  have hall : ∀ s ∈ actions, validatePermissionAction s = .ok () ∧ s ≠ "*" := by
    decide +kernel
  exact hall a.name a.known

theorem granted_U_iff {v : V1} {action : String} {P : List String} :
    Granted (.U v action) P ↔
      evaluateLeafPermission (UnkeyPermission.string ⟨v, action⟩) true P = true := by
  have hne := UnkeyPermission.string_ne_empty ⟨v, action⟩
  unfold PermissionQuery.U
  rw [PermissionQuery.granted_iff (.leaf hne), PermissionQuery.holds_leaf hne]
  rfl

theorem parse_requirement {v : V1} (hv : v.Valid) (a : Action) :
    parseUrnPermission (UnkeyPermission.string ⟨v, a.name⟩) = .ok ⟨v, a.name⟩ :=
  parseUrnPermission_eq_ok.mpr
    ⟨rfl, hv, a.valid.1, fun hstar => absurd hstar a.valid.2⟩

theorem granted_requirement_iff {v : V1} (hv : v.Valid) (a : Action) {P : List String} :
    Granted (.U v a.name) P ↔ UnkeyPermission.string ⟨v, a.name⟩ ∈ P ∨
      ∃ p ∈ P, ∃ u, parseUrnPermission p = .ok u ∧ permissionCovers ⟨v, a.name⟩ u = true := by
  rw [granted_U_iff, evaluateLeafPermission_eq_true]
  refine or_congr_right ?_
  constructor
  · rintro ⟨-, required, hrequired, hgrant⟩
    rw [parse_requirement hv a] at hrequired
    cases hrequired
    exact hgrant
  · exact fun hgrant => ⟨rfl, _, parse_requirement hv a, hgrant⟩

theorem granted_instance {q t : V1} (hq : q.Valid) (ht : t.Valid) (hqt : q.Covers t) (a : Action)
    {P : List String}
    (hgrants : ∀ p ∈ P, ∀ u, parseUrnPermission p = .ok u →
      permissionCovers ⟨q, a.name⟩ u = true → u.resource.Contains q)
    (hgranted : Granted (.U q a.name) P) : Granted (.U t a.name) P := by
  rw [granted_requirement_iff hq a] at hgranted
  rw [granted_requirement_iff ht a]
  right
  rcases hgranted with hliteral | ⟨p, hp, u, hu, hcovers⟩
  · grind [parse_requirement, permissionCovers, V1.covers_iff]
  · refine ⟨p, hp, u, hu, ?_⟩
    have hcontains := hgrants p hp u hu hcovers
    have hvalid := (parseUrnPermission_eq_ok.mp hu).2.resource
    unfold permissionCovers at hcovers ⊢
    split at hcovers
    · cases hcovers
    · rename_i haction
      rw [if_neg haction]
      exact V1.covers_iff.mpr ((V1.covers_iff.mp hcovers).trans hvalid hcontains hqt)

def Accepted (v : V1) : Prop := ∃ s, parseV1 s = .ok v

theorem accepted_iff {v : V1} : Accepted v ↔ v.Valid := by
  constructor
  · rintro ⟨s, hs⟩
    exact (parseV1_eq_ok.mp hs).2
  · exact fun hv => ⟨v.string, parseV1_eq_ok.mpr ⟨rfl, hv⟩⟩

/-- A pattern that covers another covers every concrete name that the other covers exactly when,
should the other end in `**`, it ends in `**` as well, and it has no more segments unless the other
is the whole workspace. Whoever passes the check for a requirement through grants of which that is true
passes it for every concrete resource that the requirement covers. -/
theorem covers_concrete_iff {p q : V1} (hp : Accepted p) (hq : Accepted q) :
    (p.covers q = true →
      ((∀ t, Accepted t → t.Concrete → q.covers t = true → p.covers t = true) ↔ p.Contains q)) ∧
    ∀ (a : Action) (P : List String),
      (∀ g ∈ P, ∀ u, parseUrnPermission g = .ok u →
        permissionCovers ⟨q, a.name⟩ u = true → u.resource.Contains q) →
      Granted (.U q a.name) P →
      ∀ t, Accepted t → t.Concrete → q.covers t = true → Granted (.U t a.name) P := by
  rw [accepted_iff] at hp hq
  simp only [accepted_iff, V1.covers_iff]
  refine ⟨V1.covers_instances_iff hp hq, ?_⟩
  intro a P hgrants hgranted t ht _ hqt
  exact granted_instance hq ht hqt a hgrants hgranted

theorem covers_concrete_iff_keys :
    Granted (.U ⟨"ws_1", "keyspaces/ks_1/keys/k_1"⟩ "read_key")
      [UnkeyPermission.string ⟨⟨"ws_1", "keyspaces/*/keys/*"⟩, "read_key"⟩] := by
  have hp : Accepted ⟨"ws_1", "keyspaces/*/keys/*"⟩ :=
    ⟨"unkey:v1:ws_1:keyspaces/*/keys/*", by decide +kernel⟩
  have hq : Accepted ⟨"ws_1", "keyspaces/ks_1/keys/*"⟩ :=
    ⟨"unkey:v1:ws_1:keyspaces/ks_1/keys/*", by decide +kernel⟩
  let a : Action := ⟨"read_key", by decide⟩
  refine (covers_concrete_iff hp hq).2 a _ ?_ ?_ _ ?_ ?_ ?_
  · intro g _ u _ _ hdescends
    exact absurd hdescends (by decide +kernel)
  · refine (granted_requirement_iff (accepted_iff.mp hq) a).mpr (.inr ?_)
    exact ⟨_, List.mem_cons_self, _, parse_requirement (accepted_iff.mp hp) a, by decide +kernel⟩
  · exact ⟨"unkey:v1:ws_1:keyspaces/ks_1/keys/k_1", by decide +kernel⟩
  · decide +kernel
  · decide +kernel

/-- `keyspaces/*` covers the pattern `keyspaces/**`, one segment for one segment, and not the keys
below. -/
theorem covers_pattern_not_instance :
    Accepted ⟨"ws_1", "keyspaces/*"⟩ ∧ Accepted ⟨"ws_1", "keyspaces/**"⟩ ∧
      V1.covers ⟨"ws_1", "keyspaces/*"⟩ ⟨"ws_1", "keyspaces/**"⟩ = true ∧
      Accepted ⟨"ws_1", "keyspaces/ks_1/keys/k_1"⟩ ∧
      V1.Concrete ⟨"ws_1", "keyspaces/ks_1/keys/k_1"⟩ ∧
      V1.covers ⟨"ws_1", "keyspaces/**"⟩ ⟨"ws_1", "keyspaces/ks_1/keys/k_1"⟩ = true ∧
      V1.covers ⟨"ws_1", "keyspaces/*"⟩ ⟨"ws_1", "keyspaces/ks_1/keys/k_1"⟩ = false := by
  refine ⟨⟨"unkey:v1:ws_1:keyspaces/*", ?_⟩, ⟨"unkey:v1:ws_1:keyspaces/**", ?_⟩, ?_,
    ⟨"unkey:v1:ws_1:keyspaces/ks_1/keys/k_1", ?_⟩, ?_, ?_, ?_⟩ <;> decide +kernel

end Unkey.Rbac
