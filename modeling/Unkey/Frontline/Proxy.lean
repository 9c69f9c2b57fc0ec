import Unkey.Frontline.Router

/-!
# Forwarding between frontlines

Request headers, the reserved-header strip that every registered route runs first, `ForwardToRegion`
with its hop check, the region director that writes the hop count, and the catch-all handler that
composes them.
-/

namespace Unkey.Frontline
open Unkey.Base

abbrev Header := List (String × List String)

namespace Header

def get (h : Header) (name : String) : String := ((h.lookup name).getD []).headD ""

def del (h : Header) (name : String) : Header := h.filter (·.1 != name)

def set (h : Header) (name value : String) : Header := (name, [value]) :: h.del name

end Header

structure Request where
  host : String
  header : Header
  deriving DecidableEq

def headerFrontlineID := "X-Unkey-Frontline-Id"
def headerRegion := "X-Unkey-Region"
def headerRequestID := "X-Unkey-Request-Id"
def headerParentFrontlineID := "X-Unkey-Parent-Frontline-Id"
def headerParentRequestID := "X-Unkey-Parent-Request-Id"
def headerFrontlineHops := "X-Unkey-Frontline-Hops"

def reservedHeaderPrefix := "X-Unkey-"

def withReservedHeaderStrip (r : Request) : Request :=
  { r with header := r.header.filter (fun kv => !hasPrefix kv.1 reservedHeaderPrefix) }

structure Service where
  instanceID : String
  platform : String
  region : String
  maxHops : Nat
  deriving DecidableEq

def Service.regionPlatform (s : Service) : String := s.region ++ "." ++ s.platform

def Service.new (instanceID platform region : String) (maxHops : Nat) : Service :=
  ⟨instanceID, platform, region, if maxHops = 0 then 3 else maxHops⟩

/-- The headers `makeRegionDirector` writes on the outgoing copy of the request. -/
def makeRegionDirector (s : Service) (requestID : String) (r : Request) : Request :=
  let currentHops := (atoi (r.header.get headerFrontlineHops)).getD 0 + 1
  let written := [
    (headerFrontlineID, s.instanceID),
    (headerRegion, s.platform ++ "::" ++ s.region),
    (headerRequestID, requestID),
    ("Host", r.host),
    (headerParentFrontlineID, s.instanceID),
    (headerParentRequestID, requestID),
    (headerFrontlineHops, itoa currentHops)]
  { r with header := written.foldl (fun h kv => h.set kv.1 kv.2) r.header }

inductive Attempt where
  | answered | dialFailed | failed
  deriving DecidableEq

inductive Outcome where
  | served
  | failed (fault : Fault)
  | forwarded (region : String) (request : Request)
  deriving DecidableEq

def Outcome.peer : Outcome → Option String
  | .forwarded region _ => some region
  | _ => none

def canonicalHeaderKey (name : List Char) : List Char :=
  (name.foldl (fun (acc : List Char × Bool) c =>
    ((if acc.2 then c.toUpper else c.toLower) :: acc.1, c == '-')) ([], true)).1.reverse

def isSpaceByte (c : Char) : Bool := c == ' ' || c == '\t' || c == '\r' || c == '\n'

def connectionListed (h : Header) : List String :=
  ((h.lookup "Connection").getD []).flatMap fun field =>
    (field.toList.splitOn ',').map fun name =>
      String.ofList (canonicalHeaderKey (((name.dropWhile isSpaceByte).reverse.dropWhile
        isSpaceByte).reverse))

/-- `removeHopByHopHeaders` of `httputil.ReverseProxy`, which runs after the director
on whatever the director wrote. -/
def removeHopByHopHeaders (h : Header) : Header :=
  h.filter fun kv => !(connectionListed h ++ ["Connection", "Proxy-Connection", "Keep-Alive",
    "Proxy-Authenticate", "Proxy-Authorization", "Te", "Trailer", "Transfer-Encoding",
    "Upgrade"]).contains kv.1

/-- What the handling of one request by one frontline depends on besides the request. -/
structure Visit where
  view : View
  requestID : String
  instanceAttempt : InstanceRow → Attempt
  peerAttempt : Attempt

/-- `ForwardToRegion`. -/
def forwardToRegion (s : Service) (v : Visit) (target : String) (r : Request) : Outcome :=
  match atoi (r.header.get headerFrontlineHops) with
  | some hops =>
    if (s.maxHops : Int) ≤ hops then .failed (.tooManyHops hops) else send
  | none => send
where
  send : Outcome :=
    match v.peerAttempt with
    | .answered =>
      let out := makeRegionDirector s v.requestID r
      .forwarded target { out with header := removeHopByHopHeaders out.header }
    | _ => .failed .peerUnreachable

/-- The instance loop of `Handle`: `none` when every candidate failed to dial. -/
def tryInstances (v : Visit) : List InstanceRow → Option Outcome
  | [] => none
  | i :: rest =>
    match v.instanceAttempt i with
    | .answered => some .served
    | .failed => some (.failed .upstream)
    | .dialFailed => tryInstances v rest

def handle (s : Service) (v : Visit) (r : Request) : Outcome :=
  match route s.regionPlatform v.view with
  | .error e => .failed e
  | .ok d =>
    match d.destination with
    | .remoteRegion => forwardToRegion s v d.remoteRegionAddress r
    | .localInstance =>
      match v.view.evaluate with
      | .error e => .failed e
      | .ok _ =>
        match tryInstances v d.localInstances with
        | some o => o
        | none =>
          if d.remoteRegionAddress != "" then forwardToRegion s v d.remoteRegionAddress r
          else if d.localInstances.isEmpty then .failed .localDecisionWithNoInstances
          else .failed .upstream

def serve (s : Service) (v : Visit) (r : Request) : Outcome :=
  handle s v (withReservedHeaderStrip r)

theorem strip_hops (r : Request) :
    (withReservedHeaderStrip r).header.get headerFrontlineHops = "" := by
  have hnone : (withReservedHeaderStrip r).header.lookup headerFrontlineHops = none := by
    rw [List.lookup_eq_none_iff]
    intro kv hkv
    obtain ⟨_, hkeep⟩ := List.mem_filter.mp hkv
    rw [bne_iff_ne]
    intro he
    rw [← he] at hkeep
    exact absurd hkeep (by decide)
  simp [Header.get, hnone]

theorem forwardToRegion_stripped (s : Service) (v : Visit) (target : String) (r : Request) :
    forwardToRegion s v target (withReservedHeaderStrip r) =
      forwardToRegion.send s v target (withReservedHeaderStrip r) := by
  have hatoi : atoi ((withReservedHeaderStrip r).header.get headerFrontlineHops) = none := by
    rw [strip_hops]
    decide
  simp [forwardToRegion, hatoi]

end Unkey.Frontline
