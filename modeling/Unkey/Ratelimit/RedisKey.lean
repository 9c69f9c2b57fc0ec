import Mathlib.Data.Set.Basic
import Unkey.Base.GoString
import Unkey.Ratelimit.Entry

/-!
# The Redis keys of the counters

In memory a counter is found by the fields of its `counterKey`; in the origin by one string in which
the fields are joined with `-` and `:`.
-/

namespace Unkey.Ratelimit

open Unkey.Base

def CounterKey.redisKey (k : CounterKey) : String :=
  k.workspaceID ++ "-" ++ k.nameSpace ++ "-" ++ k.identifier ++ "-" ++ itoa k.durationMs ++ ":"
    ++ itoa k.sequence

structure CounterKey.Proper (k : CounterKey) : Prop where
  workspaceID : k.workspaceID ≠ ""
  nameSpace : k.nameSpace ≠ ""
  identifier : k.identifier ≠ ""
  durationMs : 1000 ≤ k.durationMs
  sequence : 0 ≤ k.sequence

theorem CounterKey.Proper.durationMs_nonneg {k : CounterKey} (h : k.Proper) : 0 ≤ k.durationMs := by
  have := h.durationMs
  omega

structure Scope where
  workspaceID : String
  nameSpace : String
  deriving DecidableEq

def CounterKey.scope (k : CounterKey) : Scope := ⟨k.workspaceID, k.nameSpace⟩

def Scope.lead (s : Scope) : String := s.workspaceID ++ "-" ++ s.nameSpace ++ "-"

variable {k₁ k₂ : CounterKey}

theorem redisKey_eq_iff (h₁ : k₁.Proper) (h₂ : k₂.Proper) :
    k₁.redisKey = k₂.redisKey ↔ k₁.scope.lead ++ k₁.identifier = k₂.scope.lead ++ k₂.identifier ∧
      k₁.durationMs = k₂.durationMs ∧ k₁.sequence = k₂.sequence := by
  have hfree : ∀ (c : Char) (n : Int), 0 ≤ n → c.isDigit = false → c ∉ (itoa n).toList := by
    intro c n hn hc hmem
    rw [isDigit_of_mem_itoa hn hmem] at hc
    cases hc
  constructor
  · intro heq
    obtain ⟨hfront, hsequence⟩ := glue_inj ":" rfl (hfree ':' _ h₁.sequence (by decide))
      (hfree ':' _ h₂.sequence (by decide)) heq
    obtain ⟨hfront, hduration⟩ := glue_inj "-" rfl (hfree '-' _ h₁.durationMs_nonneg (by decide))
      (hfree '-' _ h₂.durationMs_nonneg (by decide)) hfront
    exact ⟨hfront, itoa_inj h₁.durationMs_nonneg h₂.durationMs_nonneg hduration,
      itoa_inj h₁.sequence h₂.sequence hsequence⟩
  · rintro ⟨hfront, hduration, hsequence⟩
    have hfront : k₁.workspaceID ++ "-" ++ k₁.nameSpace ++ "-" ++ k₁.identifier
      = k₂.workspaceID ++ "-" ++ k₂.nameSpace ++ "-" ++ k₂.identifier := hfront
    rw [CounterKey.redisKey, CounterKey.redisKey, hfront, hduration, hsequence]

theorem redisKey_inj_of_scope (h₁ : k₁.Proper) (h₂ : k₂.Proper) (hscope : k₁.scope = k₂.scope)
    (heq : k₁.redisKey = k₂.redisKey) : k₁ = k₂ := by
  obtain ⟨hfront, hduration, hsequence⟩ := (redisKey_eq_iff h₁ h₂).mp heq
  rw [hscope, ← String.toList_inj, String.toList_append, String.toList_append] at hfront
  have hidentifier := String.toList_inj.mp (List.append_cancel_left hfront)
  obtain ⟨hworkspace, hnameSpace⟩ := Scope.mk.inj hscope
  cases k₁
  cases k₂
  simp_all

theorem lead_of_redisKey_eq (h₁ : k₁.Proper) (h₂ : k₂.Proper)
    (heq : k₁.redisKey = k₂.redisKey) :
    hasPrefix k₁.scope.lead k₂.scope.lead = true ∨
      hasPrefix k₂.scope.lead k₁.scope.lead = true := by
  have hfront := congrArg String.toList ((redisKey_eq_iff h₁ h₂).mp heq).1
  rw [String.toList_append, String.toList_append] at hfront
  rw [hasPrefix_iff, hasPrefix_iff]
  rcases List.append_eq_append_iff.mp hfront with ⟨rest, hlead, -⟩ | ⟨rest, hlead, -⟩
  · exact .inr ⟨rest, hlead.symm⟩
  · exact .inl ⟨rest, hlead.symm⟩

theorem exists_shared_redisKey {s t : Scope} (hs : s.workspaceID ≠ "" ∧ s.nameSpace ≠ "")
    (ht : t.workspaceID ≠ "" ∧ t.nameSpace ≠ "") (hlead : hasPrefix t.lead s.lead = true) :
    ∃ k₁ k₂ : CounterKey, k₁.Proper ∧ k₂.Proper ∧ k₁.scope = s ∧ k₂.scope = t ∧
      k₁.redisKey = k₂.redisKey := by
  obtain ⟨rest, hrest⟩ := hasPrefix_iff.mp hlead
  have hidentifier : String.ofList rest ++ "x" ≠ "" := by simp_all
  have h₁ : CounterKey.Proper ⟨s.workspaceID, s.nameSpace, String.ofList rest ++ "x", 1000, 0⟩ :=
    ⟨hs.1, hs.2, hidentifier, Int.le_refl 1000, Int.le_refl 0⟩
  have h₂ : CounterKey.Proper ⟨t.workspaceID, t.nameSpace, "x", 1000, 0⟩ :=
    ⟨ht.1, ht.2, (by decide : "x" ≠ ""), Int.le_refl 1000, Int.le_refl 0⟩
  refine ⟨_, _, h₁, h₂, rfl, rfl, (redisKey_eq_iff h₁ h₂).mpr ⟨?_, rfl, rfl⟩⟩
  show s.lead ++ (String.ofList rest ++ "x") = t.lead ++ "x"
  rw [← String.toList_inj, String.toList_append, String.toList_append, String.toList_append,
    String.toList_ofList, ← List.append_assoc, hrest]

/-- The scopes in use keep their Redis counters apart, whatever identifiers, durations and
windows are asked for, exactly when no scope's text begins with that of another. -/
theorem redisKey_injective_iff (scopes : Set Scope)
    (hscopes : ∀ s ∈ scopes, s.workspaceID ≠ "" ∧ s.nameSpace ≠ "") :
    (∀ k₁ k₂ : CounterKey, k₁.Proper → k₂.Proper → k₁.scope ∈ scopes → k₂.scope ∈ scopes →
      k₁.redisKey = k₂.redisKey → k₁ = k₂) ↔
    ∀ s ∈ scopes, ∀ t ∈ scopes, s ≠ t → hasPrefix t.lead s.lead = false := by
  constructor
  · intro hinj s hs t ht hne
    rw [Bool.eq_false_iff]
    intro hlead
    obtain ⟨k₁, k₂, h₁, h₂, rfl, rfl, heq⟩ := exists_shared_redisKey (hscopes s hs) (hscopes t ht)
      hlead
    exact hne (congrArg CounterKey.scope (hinj k₁ k₂ h₁ h₂ hs ht heq))
  · grind [redisKey_inj_of_scope, lead_of_redisKey_eq]

def plainScopes : Set Scope := {⟨"ws_a", "requests"⟩, ⟨"ws_a", "emails"⟩, ⟨"ws_b", "requests"⟩}

theorem redisKey_injective_plainScopes :
    (CounterKey.mk "ws_a" "requests" "user-1" 60000 3).redisKey
      ≠ (CounterKey.mk "ws_b" "requests" "user-1" 60000 3).redisKey := by
  have hscopes : ∀ s ∈ plainScopes, s.workspaceID ≠ "" ∧ s.nameSpace ≠ "" := by
    rintro s (rfl | rfl | rfl) <;> decide
  have hapart : ∀ s ∈ plainScopes, ∀ t ∈ plainScopes, s ≠ t →
      hasPrefix t.lead s.lead = false := by
    rintro s (rfl | rfl | rfl) t (rfl | rfl | rfl) hne <;>
      first
        | exact absurd rfl hne
        | decide
  intro heq
  have hsame := (redisKey_injective_iff plainScopes hscopes).mpr hapart
    ⟨"ws_a", "requests", "user-1", 60000, 3⟩ ⟨"ws_b", "requests", "user-1", 60000, 3⟩
    ⟨by decide, by decide, by decide, by decide, by decide⟩
    ⟨by decide, by decide, by decide, by decide, by decide⟩ (.inl rfl) (.inr (.inr rfl)) heq
  exact absurd hsame (by decide)

/-- The limit `a-b` of a workspace counts together with its limit `a`, and two workspaces that
use one namespace count together. -/
theorem redisKey_shared :
    (∃ k₁ k₂ : CounterKey, k₁.Proper ∧ k₂.Proper ∧ k₁.workspaceID = k₂.workspaceID ∧
      k₁.nameSpace ≠ k₂.nameSpace ∧ k₁.redisKey = k₂.redisKey) ∧
    ∃ k₁ k₂ : CounterKey, k₁.Proper ∧ k₂.Proper ∧ k₁.workspaceID ≠ k₂.workspaceID ∧
      k₁.nameSpace = k₂.nameSpace ∧ k₁.redisKey = k₂.redisKey := by
  refine ⟨⟨⟨"ws", "a-b", "c", 1000, 0⟩, ⟨"ws", "a", "b-c", 1000, 0⟩, ?_, ?_, ?_⟩,
    ⟨⟨"ws", "x", "y-x-z", 1000, 0⟩, ⟨"ws-x-y", "x", "z", 1000, 0⟩, ?_, ?_, ?_⟩⟩
  · exact ⟨by decide, by decide, by decide, by decide, by decide⟩
  · exact ⟨by decide, by decide, by decide, by decide, by decide⟩
  · decide
  · exact ⟨by decide, by decide, by decide, by decide, by decide⟩
  · exact ⟨by decide, by decide, by decide, by decide, by decide⟩
  · decide

end Unkey.Ratelimit
