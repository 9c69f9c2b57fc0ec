import Unkey.Frontline.Session

/-!
# The address of the client behind frontlines

Every frontline of a chain sees the one before it as the peer of the connection, and passes on a
forwarded address that the two directors and the reverse proxy write by different rules.
-/

namespace Unkey.Frontline

open Unkey.Base

/-- One end of a connection: the text of its IP, and the remote address that the other end sees. -/
structure Peer where
  ip : String
  port : String
  addr : String
  ip_ne : ip ≠ ""
  ip_comma : ',' ∉ ip.toList
  ip_trim : trimSpace ip = ip
  ip_split : splitHostPort ip = none
  addr_split : splitHostPort addr = some (ip, port)

/-- What `httputil.ReverseProxy` does after the director: hop-by-hop headers go, and the IP of the
inbound connection is appended. -/
def reverseProxy (remoteAddr : String) (h : Header) : Header :=
  let h := removeHopByHopHeaders h
  match splitHostPort remoteAddr with
  | none => h
  | some (ip, _) =>
    let prior := (h.lookup forwardedFor).getD []
    h.set forwardedFor (if prior.isEmpty then ip else ", ".intercalate prior ++ ", " ++ ip)

def makeInstanceDirector (s : Service) (requestID : String) (sess : Session) : Header :=
  let h := [(headerFrontlineID, s.instanceID), (headerRegion, s.platform ++ "::" ++ s.region),
    (headerRequestID, requestID)].foldl (fun h kv => h.set kv.1 kv.2) sess.request.header
  let h := match splitHostPort sess.remoteAddr with
    | some (ip, _) => h.set forwardedFor ip
    | none => if sess.location ≠ "" then h.set forwardedFor sess.location else h
  (h.set "X-Forwarded-Host" sess.request.host).set "X-Forwarded-Proto" "https"

/-- A frontline that hands the request on, with the address under which the next one sees it. -/
structure Forwarder where
  service : Service
  requestID : String
  peer : Peer

def Forwarder.forward (f : Forwarder) (sess : Session) : Session :=
  let out := makeRegionDirector f.service f.requestID (withReservedHeaderStrip sess.request)
  { sess with
    remoteAddr := f.peer.addr
    request := { out with header := reverseProxy sess.remoteAddr out.header } }

def serving (client : Peer) (request : Request) (path : String) : List Forwarder → Session
  | [] => ⟨client.addr, request, path⟩
  | f :: fs => f.forward (serving client request path fs)

/-- The first address of a forwarded list that is not blank. -/
def firstAddress (v : String) : Option String := ((split ',' v).map trimSpace).find? (· ≠ "")

/-- The first address that the instance finds. -/
def instanceAddress (s : Service) (requestID : String) (sess : Session) : Option String :=
  firstAddress ((reverseProxy sess.remoteAddr (makeInstanceDirector s requestID sess)).get
    forwardedFor)

/-- The address that the client names itself: a frontline it is connected to reads the first value
of the header, and a hop hands on all values unless `Connection` lists the header. -/
def named (request : Request) : List Forwarder → Option String
  | [] => firstAddress (request.header.get forwardedFor)
  | _ :: _ => firstAddress
    (", ".intercalate (((removeHopByHopHeaders request.header).lookup forwardedFor).getD []))

/-! ### One hop -/

variable {h : Header} {client : Peer}

theorem map_trimSpace_split_space (w : String) :
    (split ',' (" " ++ w)).map trimSpace = (split ',' w).map trimSpace := by
  have hspace (s : List Char) :
      trimSpace (String.ofList (' ' :: s)) = trimSpace (String.ofList s) := by
    simp [trimSpace, show isSpaceRune ' ' = true by decide]
  have hlist : (" " ++ w).toList = ' ' :: w.toList := by simp
  rw [split, split, hlist, List.splitOn, List.splitOn,
    List.splitOnP_cons_eq_if_modifyHead, if_neg (by decide)]
  cases hsplit : w.toList.splitOnP (· == ',') with
  | nil => rfl
  | cons s rest => simp only [List.modifyHead_cons, List.map_cons, hspace]

theorem firstAddress_append (v w : String) :
    firstAddress (v ++ ", " ++ w) = (firstAddress v).or (firstAddress w) := by
  have hlist : (v ++ ", " ++ w).toList = v.toList ++ ',' :: (" " ++ w).toList := by simp
  have hsplit : split ',' (v ++ ", " ++ w) = split ',' v ++ split ',' (" " ++ w) := by
    rw [split, hlist, List.splitOn_append_cons_self, List.map_append]
    rfl
  rw [firstAddress, hsplit, List.map_append, map_trimSpace_split_space, List.find?_append]
  rfl

theorem Peer.firstAddress_ip (p : Peer) : firstAddress p.ip = some p.ip := by
  have hone : split ',' p.ip = [p.ip] := by
    have h : split ',' (join ',' [p.ip]) = [p.ip] := split_join (by simp) (by simpa using p.ip_comma)
    simpa [join] using h
  simp [firstAddress, hone, p.ip_trim, p.ip_ne]

theorem location_eq (sess : Session) : sess.location =
    ((firstAddress (sess.request.header.get forwardedFor)).map stripPort).getD
      (stripPort sess.remoteAddr) := by
  rw [Session.location, ← firstAddress]
  cases firstAddress (sess.request.header.get forwardedFor) <;> rfl

/-- What a frontline behind a hop sees: one list, whose first address is `a`. -/
structure Passed (a : String) (sess : Session) : Prop where
  connection : sess.request.header.lookup "Connection" = none
  first : ∃ v, sess.request.header.lookup forwardedFor = some [v] ∧ firstAddress v = some a

theorem connection_removeHopByHopHeaders (h : Header) :
    (removeHopByHopHeaders h).lookup "Connection" = none :=
  lookup_filter_none (p := fun k => !(connectionListed h ++ _).contains k) (by simp)

theorem forwardedFor_removeHopByHopHeaders {h' : Header}
    (hc : h.lookup "Connection" = h'.lookup "Connection")
    (hf : h.lookup forwardedFor = h'.lookup forwardedFor) :
    (removeHopByHopHeaders h).lookup forwardedFor =
      (removeHopByHopHeaders h').lookup forwardedFor := by
  have hlisted : connectionListed h = connectionListed h' := by
    rw [connectionListed, hc, connectionListed]
  unfold removeHopByHopHeaders
  rw [hlisted]
  generalize connectionListed h' ++ _ = gone
  cases hp : !gone.contains forwardedFor with
  | true =>
    rw [lookup_filter (p := fun k => !gone.contains k) hp, hf,
      lookup_filter (p := fun k => !gone.contains k) hp]
  | false =>
    rw [lookup_filter_none (p := fun k => !gone.contains k) hp,
      lookup_filter_none (p := fun k => !gone.contains k) hp]

theorem forwardedFor_kept (hc : h.lookup "Connection" = none) :
    (removeHopByHopHeaders h).lookup forwardedFor = h.lookup forwardedFor :=
  lookup_filter (p := fun k => !(connectionListed h ++ _).contains k)
    (by simp [connectionListed, hc, forwardedFor])

theorem removeHopByHopHeaders_cases (h : Header) (b : String) :
    (removeHopByHopHeaders h).lookup b = h.lookup b ∨ (removeHopByHopHeaders h).lookup b = none := by
  unfold removeHopByHopHeaders
  cases hp : !(connectionListed h ++ ["Connection", "Proxy-Connection", "Keep-Alive",
    "Proxy-Authenticate", "Proxy-Authorization", "Te", "Trailer", "Transfer-Encoding",
    "Upgrade"]).contains b with
  | true => exact .inl (lookup_filter (p := fun k => !(connectionListed h ++ _).contains k) hp)
  | false => exact .inr (lookup_filter_none (p := fun k => !(connectionListed h ++ _).contains k) hp)

variable {sess : Session} {f : Forwarder}

theorem lookup_out {name : String} (hname : hasPrefix name reservedHeaderPrefix = false)
    (hhost : name ≠ "Host") (f : Forwarder) (r : Request) :
    (makeRegionDirector f.service f.requestID (withReservedHeaderStrip r)).header.lookup name =
      r.header.lookup name := by
  rw [makeRegionDirector, lookup_foldl_set]
  · exact lookup_filter (p := fun k => !hasPrefix k reservedHeaderPrefix) (by simp [hname])
  · intro kv hkv hne
    rw [hne] at hname hhost
    simp only [List.mem_cons, List.not_mem_nil, or_false] at hkv
    rcases hkv with rfl | rfl | rfl | rfl | rfl | rfl | rfl <;> dsimp only at hname hhost <;>
      first
      | exact hhost rfl
      | exact absurd hname (by decide)

/-- The header behind a hop, by what the hop before it made of the one it got. -/
theorem forwardedFor_forward (f : Forwarder) (sess : Session) {p : Peer}
    (haddr : sess.remoteAddr = p.addr) :
    Passed ((firstAddress (", ".intercalate (((removeHopByHopHeaders sess.request.header).lookup
      forwardedFor).getD []))).getD p.ip) (f.forward sess) := by
  set out := makeRegionDirector f.service f.requestID (withReservedHeaderStrip sess.request)
  have hfor : (removeHopByHopHeaders out.header).lookup forwardedFor =
      (removeHopByHopHeaders sess.request.header).lookup forwardedFor :=
    forwardedFor_removeHopByHopHeaders (lookup_out (by decide) (by decide) f sess.request)
      (lookup_out (by decide) (by decide) f sess.request)
  have hheader : (f.forward sess).request.header =
      let prior := ((removeHopByHopHeaders out.header).lookup forwardedFor).getD []
      (removeHopByHopHeaders out.header).set forwardedFor
        (if prior.isEmpty then p.ip else ", ".intercalate prior ++ ", " ++ p.ip) := by
    show reverseProxy sess.remoteAddr out.header = _
    rw [haddr, reverseProxy, p.addr_split]
  constructor
  · rw [hheader]
    exact (lookup_set_of_ne _ (by decide)).trans (connection_removeHopByHopHeaders out.header)
  · rw [hheader]
    refine ⟨_, lookup_set_self _, ?_⟩
    rw [hfor]
    cases hprior : ((removeHopByHopHeaders sess.request.header).lookup forwardedFor).getD [] with
    | nil => exact p.firstAddress_ip
    | cons v vs =>
      rw [List.isEmpty_cons, if_neg Bool.false_ne_true, firstAddress_append, p.firstAddress_ip]
      cases firstAddress (", ".intercalate (v :: vs)) <;> rfl

theorem Passed.forward {a : String} {p : Peer} (hs : Passed a sess)
    (haddr : sess.remoteAddr = p.addr) : Passed a (f.forward sess) := by
  obtain ⟨hnone, v, hv, hfirst⟩ := hs
  have hforward := forwardedFor_forward f sess haddr
  rwa [forwardedFor_kept hnone, hv, Option.getD_some, String.intercalate_singleton, hfirst]
    at hforward

/-- The peer that the serving frontline is connected to. -/
def lastPeer (client : Peer) : List Forwarder → Peer
  | [] => client
  | f :: _ => f.peer

variable {request : Request} {path : String} {fs : List Forwarder}

theorem remoteAddr_serving :
    (serving client request path fs).remoteAddr = (lastPeer client fs).addr := by
  cases fs <;> rfl

theorem passed_serving (client : Peer) (request : Request) (path : String) (fs : List Forwarder)
    (f : Forwarder) :
    Passed ((named request (f :: fs)).getD client.ip) (serving client request path (f :: fs)) := by
  induction fs generalizing f with
  | nil => exact forwardedFor_forward f ⟨client.addr, request, path⟩ rfl
  | cons g fs ih => exact (ih g).forward remoteAddr_serving

theorem Peer.stripPort_addr (p : Peer) : stripPort p.addr = p.ip := by
  rw [stripPort, p.addr_split]
  rfl

/-- The serving frontline limits the client under the address that the client names, and under its
own if it names none. -/
theorem location_serving : (serving client request path fs).location =
    ((named request fs).map stripPort).getD client.ip := by
  cases fs with
  | nil =>
    rw [location_eq]
    exact congrArg _ client.stripPort_addr
  | cons f fs =>
    obtain ⟨-, v, hv, hfirst⟩ := passed_serving client request path fs f
    rw [location_eq, get_of_lookup hv, hfirst]
    cases named request (f :: fs) with
    | none => simp [stripPort, client.ip_split]
    | some a => rfl

theorem instanceAddress_connected {s : Service} {requestID : String} {p : Peer}
    (haddr : sess.remoteAddr = p.addr) : instanceAddress s requestID sess = some p.ip := by
  have hset : (makeInstanceDirector s requestID sess).lookup forwardedFor = some [p.ip] := by
    rw [makeInstanceDirector, haddr, p.addr_split]
    refine ((lookup_set_of_ne _ (by decide)).trans (lookup_set_of_ne _ (by decide))).trans ?_
    exact lookup_set_self _
  rw [instanceAddress, haddr, reverseProxy, p.addr_split]
  dsimp only
  rw [get_of_lookup (lookup_set_self _)]
  rcases removeHopByHopHeaders_cases (makeInstanceDirector s requestID sess) forwardedFor with
    hkept | hgone
  · rw [hkept, hset]
    simp [firstAddress_append, p.firstAddress_ip]
  · rw [hgone]
    simp [p.firstAddress_ip]

def laptop : Peer where
  ip := "203.0.113.7"
  port := "52000"
  addr := "203.0.113.7:52000"
  ip_ne := by decide
  ip_comma := by decide
  ip_trim := by decide
  ip_split := by decide
  addr_split := by decide

def frontlinePeer : Peer where
  ip := "192.0.2.9"
  port := "443"
  addr := "192.0.2.9:443"
  ip_ne := by decide
  ip_comma := by decide
  ip_trim := by decide
  ip_split := by decide
  addr_split := by decide

def frontlineService : Service := Service.new "fl_1" "aws" "us-east-1" 0

/-- Both addresses are the client's exactly when the client names no other address and the frontline
that serves the request is connected to the client's IP. -/
theorem client_address_iff (client : Peer) (request : Request) (path : String)
    (forwarders : List Forwarder) (s : Service) (requestID : String) :
    ((serving client request path forwarders).location = client.ip ∧
      instanceAddress s requestID (serving client request path forwarders) = some client.ip) ↔
    (∀ a, named request forwarders = some a → stripPort a = client.ip) ∧
      (lastPeer client forwarders).ip = client.ip := by
  rw [location_serving, instanceAddress_connected remoteAddr_serving, Option.some_inj]
  refine and_congr_left fun _ => ?_
  cases named request forwarders <;> simp

/-- The client names the address it is limited under, and behind one hop the instance takes the
forwarding frontline for the client. -/
theorem client_address_lost :
    (serving laptop ⟨"app.example.com", [(forwardedFor, ["198.51.100.1"])]⟩ "/" []).location =
        "198.51.100.1" ∧
      instanceAddress frontlineService "req_1" (serving laptop ⟨"app.example.com", []⟩ "/"
        [⟨frontlineService, "req_0", frontlinePeer⟩]) = some "192.0.2.9" := by
  decide

end Unkey.Frontline
