import Unkey.Frontline.Proxy

/-!
# The chain of hops of one request

A request entering the fleet is handled by one frontline after the other, each with its own view,
until one does not forward it.
-/

namespace Unkey.Frontline

structure Fleet where
  service : String → Service
  maxHops : Nat
  service_maxHops : ∀ region, (service region).maxHops = maxHops

def hop (F : Fleet) (v : Visit) (at_ : String × Request) : Option (String × Request) :=
  match serve (F.service at_.1) v at_.2 with
  | .forwarded region r => some (region, r)
  | _ => none

/-- Region and request after `n` hops; `visits k` is what the `k`-th frontline sees. -/
def chain (F : Fleet) (visits : Nat → Visit) (entry : String) (r : Request) :
    Nat → Option (String × Request)
  | 0 => some (entry, r)
  | n + 1 => (chain F visits entry r n).bind (hop F (visits n))

/-- Where routing and dial failures alone send a request that `own` handles. -/
def onward (own : String) (v : Visit) : Option String :=
  match v.peerAttempt, route own v.view with
  | .answered, .ok d =>
    match d.destination, v.view.evaluate, tryInstances v d.localInstances with
    | .remoteRegion, _, _ => some d.remoteRegionAddress
    | .localInstance, .ok _, none =>
      if d.remoteRegionAddress != "" then some d.remoteRegionAddress else none
    | _, _, _ => none
  | _, _ => none

def path (F : Fleet) (visits : Nat → Visit) (entry : String) : Nat → Option String
  | 0 => some entry
  | n + 1 => (path F visits entry n).bind fun region =>
      onward (F.service region).regionPlatform (visits n)

theorem tryInstances_not_forwarded (v : Visit) (xs : List InstanceRow) (t : String)
    (r : Request) : tryInstances v xs ≠ some (.forwarded t r) := by
  induction xs with
  | nil => simp [tryInstances]
  | cons i rest ih =>
    unfold tryInstances
    cases v.instanceAttempt i with
    | answered => simp
    | failed => simp
    | dialFailed => exact ih

theorem forwardToRegion_peer (s : Service) (v : Visit) (target : String) (r : Request) :
    (forwardToRegion s v target (withReservedHeaderStrip r)).peer =
      if v.peerAttempt = .answered then some target else none := by
  rw [forwardToRegion_stripped]
  unfold forwardToRegion.send
  cases v.peerAttempt <;> rfl

theorem serve_peer (s : Service) (v : Visit) (r : Request) :
    (serve s v r).peer = onward s.regionPlatform v := by
  unfold serve handle onward
  cases hroute : route s.regionPlatform v.view with
  | error e => cases v.peerAttempt <;> rfl
  | ok d =>
    cases hd : d.destination with
    | remoteRegion =>
      cases hp : v.peerAttempt <;> simp [hd, forwardToRegion_peer, hp]
    | localInstance =>
      cases hev : v.view.evaluate with
      | error e => cases v.peerAttempt <;> simp [hd, Outcome.peer]
      | ok _ =>
        cases htry : tryInstances v d.localInstances with
        | some o =>
          cases o with
          | forwarded t q => exact absurd htry (tryInstances_not_forwarded v _ t q)
          | served => cases v.peerAttempt <;> simp [hd, htry, Outcome.peer]
          | failed e => cases v.peerAttempt <;> simp [hd, htry, Outcome.peer]
        | none => grind [Outcome.peer, forwardToRegion_peer]

theorem hop_region (F : Fleet) (v : Visit) (at_ : String × Request) :
    (hop F v at_).map Prod.fst = onward (F.service at_.1).regionPlatform v := by
  rw [← serve_peer _ v at_.2]
  unfold hop
  cases serve (F.service at_.1) v at_.2 <;> rfl

theorem chain_path (F : Fleet) (visits : Nat → Visit) (entry : String) (r : Request) (n : Nat) :
    (chain F visits entry r n).map Prod.fst = path F visits entry n := by
  induction n with
  | zero => rfl
  | succ n ih =>
    unfold chain path
    rw [← ih]
    cases chain F visits entry r n with
    | none => rfl
    | some at_ => exact hop_region F (visits n) at_

theorem path_none_iff (F : Fleet) (visits : Nat → Visit) (entry : String) (n : Nat) :
    path F visits entry (n + 1) = none ↔ ∃ k ≤ n, ∃ region,
      path F visits entry k = some region ∧
      onward (F.service region).regionPlatform (visits k) = none := by
  induction n with
  | zero =>
    constructor
    · intro h
      exact ⟨0, Nat.le_refl 0, entry, rfl, h⟩
    · rintro ⟨k, hk, region, hp, ho⟩
      obtain rfl : k = 0 := by omega
      cases hp
      exact ho
  | succ n ih =>
    constructor
    · intro h
      cases hn : path F visits entry (n + 1) with
      | none =>
        obtain ⟨k, hk, hstop⟩ := ih.mp hn
        exact ⟨k, by omega, hstop⟩
      | some region =>
        refine ⟨n + 1, Nat.le_refl _, region, hn, ?_⟩
        rw [path, hn] at h
        exact h
    · grind [path]

/-- A request makes at most `maxHops` hops exactly when one of the first
`maxHops + 1` frontlines that routing leads it through does not want to forward it. -/
theorem hops_le_maxHops_iff (F : Fleet) (visits : Nat → Visit) (entry : String) (r : Request) :
    chain F visits entry r (F.maxHops + 1) = none ↔
      ∃ k ≤ F.maxHops, ∃ region, path F visits entry k = some region ∧
        onward (F.service region).regionPlatform (visits k) = none := by
  rw [← path_none_iff, ← chain_path F visits entry r, Option.map_eq_none_iff]

def pairFleet : Fleet where
  service region := Service.new "fl" "aws" (if region = "us-east-1.aws" then "us-east-1" else
    "us-east-2") 0
  maxHops := 3
  service_maxHops _ := rfl

/-- A visit whose outdated view places the only running instance in `region`. -/
def outdatedVisit (region : String) : Visit where
  view := {
    route := .ok ⟨"d_1", none, .running⟩
    instances := .ok [⟨"i_1", "10.0.0.1:8080", region, "aws", .running⟩]
    getPolicies := .ok ()
    evaluate := .ok ()
    shuffle := id
    mapOrder := id
    shuffle_perm := List.Perm.refl
    mapOrder_perm := List.Perm.refl }
  requestID := "req_1"
  instanceAttempt _ := .dialFailed
  peerAttempt := .answered

/-- The two regions bounce a request without any header past its third hop. -/
theorem pairFleet_fourth_hop :
    chain pairFleet (fun n => outdatedVisit (if n % 2 = 0 then "us-east-2" else "us-east-1"))
      "us-east-1.aws" ⟨"app.example.com", []⟩ (pairFleet.maxHops + 1) ≠ none := by
  intro h
  have hpath := chain_path pairFleet
    (fun n => outdatedVisit (if n % 2 = 0 then "us-east-2" else "us-east-1"))
    "us-east-1.aws" ⟨"app.example.com", []⟩ (pairFleet.maxHops + 1)
  rw [h] at hpath
  exact absurd hpath (by decide)

end Unkey.Frontline
