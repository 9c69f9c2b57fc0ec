import Mathlib
import Unkey.Frontline.Hops

/-!
# What one request is charged

Every frontline that decides for a local instance evaluates the policies first, and with them
deducts credits and rate-limit costs.
-/

namespace Unkey.Frontline

abbrev Charge := Nat × Nat

structure KeyAuth where
  keySpaceIds : List String
  credits : Option Int
  permissionQuery : String
  ratelimitCosts : List Nat

inductive PolicyConfig where
  | keyauth (cfg : KeyAuth)
  | ratelimit
  | firewall
  | openapi
  | logging
  | unset

structure Policy where
  enabled : Bool
  config : PolicyConfig

/-- What the evaluation finds out at one frontline: keys, limits and the request itself. -/
structure Engine where
  matchesRequest : Policy → Except Fault Bool
  rawKey : Policy → String
  keyValid : String → Except Fault Bool
  keyAuthID : String → String
  parseQuery : String → Except Fault Unit
  verify : String → Int → List Nat → Charge × Except Fault Unit
  identifier : Policy → String
  ratelimit : Policy → Nat × Except Fault Unit
  firewall : Policy → Except Fault Unit
  openapi : Policy → Except Fault Unit

def KeyAuth.execute (e : Engine) (p : Policy) (cfg : KeyAuth) : Charge × Except Fault Unit :=
  let key := e.rawKey p
  if key = "" then (0, .error .policyRejected)
  else match e.keyValid key with
    | .error f => (0, .error f)
    | .ok false => (0, .error .policyRejected)
    | .ok true =>
      let credits := cfg.credits.getD 1
      if e.keyAuthID key ∉ cfg.keySpaceIds then (0, .error .policyRejected)
      else if credits < 0 then (0, .error .policyRejected)
      else match e.parseQuery cfg.permissionQuery with
        | .error f => (0, .error f)
        | .ok _ => e.verify key credits cfg.ratelimitCosts

def executeRatelimit (e : Engine) (p : Policy) : Charge × Except Fault Unit :=
  if e.identifier p = "" then (0, .error .policyRejected)
  else ((0, (e.ratelimit p).1), (e.ratelimit p).2)

def andThen (x rest : Charge × Except Fault Unit) : Charge × Except Fault Unit :=
  match x.2 with
  | .error f => (x.1, .error f)
  | .ok _ => (x.1 + rest.1, rest.2)

/-- `Evaluate`: `principal` after a key authentication, which makes further ones be skipped. -/
def Engine.evaluate (e : Engine) : (principal : Bool) → List Policy → Charge × Except Fault Unit
  | _, [] => (0, .ok ())
  | principal, p :: ps =>
    if p.enabled = false then e.evaluate principal ps
    else match e.matchesRequest p with
      | .error f => (0, .error f)
      | .ok false => e.evaluate principal ps
      | .ok true =>
        match p.config with
        | .keyauth cfg =>
          if principal then e.evaluate principal ps
          else andThen (cfg.execute e p) (e.evaluate true ps)
        | .ratelimit => andThen (executeRatelimit e p) (e.evaluate principal ps)
        | .firewall => andThen (0, e.firewall p) (e.evaluate principal ps)
        | .openapi => andThen (0, e.openapi p) (e.evaluate principal ps)
        | .logging | .unset => e.evaluate principal ps

structure MeteredVisit where
  visit : Visit
  engine : Engine
  policies : List Policy
  verdict : visit.view.evaluate = (engine.evaluate false policies).2

def MeteredVisit.charge (m : MeteredVisit) : Charge := (m.engine.evaluate false m.policies).1

def evaluates (own : String) (v : Visit) : Bool :=
  match route own v.view with
  | .ok d => d.destination == .localInstance
  | .error _ => false

/-- What the `k`-th frontline of the chain deducts. -/
def deducted (F : Fleet) (ms : Nat → MeteredVisit) (entry : String) (r : Request) (k : Nat) :
    Charge :=
  match chain F (fun k => (ms k).visit) entry r k with
  | some (region, _) =>
    if evaluates (F.service region).regionPlatform (ms k).visit then (ms k).charge else 0
  | none => 0

def metered (F : Fleet) (ms : Nat → MeteredVisit) (entry : String) (r : Request) (n : Nat) : Charge :=
  ∑ k ∈ Finset.range n, deducted F ms entry r k

/-- If the frontline evaluates the policies, it does not pass the request on. -/
def Settles (own : String) (v : Visit) : Prop :=
  evaluates own v = true → onward own v = none

variable {F : Fleet} {ms : Nat → MeteredVisit} {entry : String} {r : Request}

theorem chain_succ_eq_none {k : Nat} {at_ : String × Request}
    (hk : chain F (fun k => (ms k).visit) entry r k = some at_)
    (h : onward (F.service at_.1).regionPlatform (ms k).visit = none) :
    chain F (fun k => (ms k).visit) entry r (k + 1) = none := by
  have hhop := hop_region F (ms k).visit at_
  rw [h, Option.map_eq_none_iff] at hhop
  rw [chain, hk]
  exact hhop

theorem chain_none_mono {v : Nat → Visit} {k : Nat} (hk : chain F v entry r k = none) (n : Nat) :
    chain F v entry r (k + n) = none := by
  induction n with
  | zero => exact hk
  | succ n ih => rw [← Nat.add_assoc, chain, ih, Option.bind_none]

/-- If every frontline that evaluates settles the request, then all frontlines together deduct what
one evaluation does, at a frontline that the request visits. -/
theorem metered_le_single (F : Fleet) (ms : Nat → MeteredVisit) (entry : String) (r : Request)
    (hsettles : ∀ k at_, chain F (fun k => (ms k).visit) entry r k = some at_ →
      Settles (F.service at_.1).regionPlatform (ms k).visit) (n : Nat) :
    ∃ k, (chain F (fun k => (ms k).visit) entry r k).isSome = true ∧
      metered F ms entry r n ≤ (ms k).charge := by
  have hstep : ∀ n, metered F ms entry r n = 0 ∨ ∃ k, metered F ms entry r n = (ms k).charge ∧
      (chain F (fun k => (ms k).visit) entry r k).isSome = true ∧
      chain F (fun k => (ms k).visit) entry r n = none := by
    intro n
    induction n with
    | zero => exact .inl rfl
    | succ n ih =>
      rw [metered, Finset.sum_range_succ]
      rcases ih with hzero | ⟨k, hk, hvisited, hnone⟩
      · rw [metered] at hzero
        rw [hzero, zero_add, deducted]
        cases hchain : chain F (fun k => (ms k).visit) entry r n with
        | none => exact .inl rfl
        | some at_ =>
          dsimp only
          split
          · rename_i heval
            exact .inr ⟨n, rfl, by rw [hchain]; rfl,
              chain_succ_eq_none hchain (hsettles n at_ hchain heval)⟩
          · exact .inl rfl
      · grind [chain_none_mono, deducted, metered]
  rcases hstep n with hzero | ⟨k, hk, hvisited, -⟩
  · refine ⟨0, rfl, ?_⟩
    rw [hzero]
    exact ⟨Nat.zero_le _, Nat.zero_le _⟩
  · exact ⟨k, hvisited, hk.le⟩

def payingEngine : Engine where
  matchesRequest _ := .ok true
  rawKey _ := "key"
  keyValid _ := .ok true
  keyAuthID _ := "ks_1"
  parseQuery _ := .ok ()
  verify _ credits _ := ((credits.toNat, 0), .ok ())
  identifier _ := "key"
  ratelimit _ := (1, .ok ())
  firewall _ := .ok ()
  openapi _ := .ok ()

def keyAndLimit : List Policy := [⟨true, .keyauth ⟨["ks_1"], none, "", []⟩⟩, ⟨true, .ratelimit⟩]

def sharedVisit (attempt : Attempt) : MeteredVisit where
  visit := { outdatedVisit "us-east-1" with
    view := { (outdatedVisit "us-east-1").view with
      instances := .ok [⟨"i_1", "10.0.0.1:8080", "us-east-1", "aws", .running⟩,
        ⟨"i_2", "10.0.0.2:8080", "us-east-2", "aws", .running⟩] }
    instanceAttempt := fun _ => attempt }
  engine := payingEngine
  policies := keyAndLimit
  verdict := rfl

/-- The first frontline serves the request. -/
theorem metered_le_single_served :
    metered pairFleet (fun _ => sharedVisit .answered) "us-east-1.aws" ⟨"app.example.com", []⟩ 3 ≤
      (1, 1) := by
  have hone : chain pairFleet (fun _ => (sharedVisit .answered).visit) "us-east-1.aws"
      ⟨"app.example.com", []⟩ 1 = none := by
    rw [← Option.map_eq_none_iff (f := Prod.fst), chain_path]
    decide
  have hsettles : ∀ k at_, chain pairFleet (fun _ => (sharedVisit .answered).visit) "us-east-1.aws"
      ⟨"app.example.com", []⟩ k = some at_ →
      Settles (pairFleet.service at_.1).regionPlatform (sharedVisit .answered).visit := by
    intro k at_ hat heval
    cases k with
    | zero =>
      cases hat
      decide
    | succ k =>
      rw [Nat.add_comm, chain_none_mono hone k] at hat
      cases hat
  obtain ⟨k, -, hk⟩ := metered_le_single pairFleet (fun _ => sharedVisit .answered) "us-east-1.aws"
    ⟨"app.example.com", []⟩ hsettles 3
  exact hk

/-- The instance of the first frontline does not take the connection: the peer evaluates again. -/
theorem metered_twice :
    (sharedVisit .dialFailed).charge = (1, 1) ∧ (sharedVisit .answered).charge = (1, 1) ∧
      metered pairFleet (fun k => sharedVisit (if k = 0 then .dialFailed else .answered))
        "us-east-1.aws" ⟨"app.example.com", []⟩ 2 = (2, 2) := by
  refine ⟨by decide, by decide, ?_⟩
  decide +kernel

end Unkey.Frontline
