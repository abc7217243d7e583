import FlannelRs.CniTypes
import FlannelRs.InteractionPrograms

/-!
# The peers of `flanneld`

Every other node of the cluster is a peer. `flanneld` reads the desired peers from the
node objects (`annotation.rs`, `kube_mgr.rs`), compares them with those it has installed
(`peer.rs`) and requests their kernel entries (`netlink.rs`). `main.rs` does one after the other.
-/

namespace FlannelRs.Flanneld
open InteractionPrograms Ipv4Addresses RustText JsonValues CniTypes

inductive BackendType where
  | vxlan
  | hostGw
  deriving DecidableEq

def BackendType.parse : String → Option BackendType
  | "vxlan" => some .vxlan
  | "host-gw" => some .hostGw
  | _ => none

structure Peer where
  node : String
  podCidr : String
  publicIp : String
  vtepMac : Option String
  deriving DecidableEq

inductive Action where
  | add (p : Peer)
  | remove (p : Peer)
  deriving DecidableEq

/-- A `HashMap`. Its entries stand in the order in which it is walked through. -/
abbrev PeerMap := AList fun _ : String => Peer

def reconcile (installed desired : PeerMap) : List Action :=
  (installed.entries.flatMap fun e => match desired.lookup e.1 with
    | none => [.remove e.2]
    | some new => if new ≠ e.2 then [.remove e.2, .add new] else []) ++
  desired.entries.flatMap fun e => if e.1 ∈ installed then [] else [.add e.2]

def annotationKey (suffix : String) : String := "flannel.alpha.coreos.com" ++ "/" ++ suffix

/-- `BackendData::from_json`, for its only field. -/
def vtepMacFromJson [Crates] (s : String) : Option String := do
  match (← Crates.jsonFromStr s).fields [⟨["VtepMAC"], false⟩] with
  | some [mac] => required Json.decodeString mac
  | _ => none

/-- A node object, as far as it is read for a peer. -/
structure Node where
  name : Option String
  annotations : Option (AList fun _ : String => String)
  podCidr : Option String

def nodeToPeer [Crates] (n : Node) (backend : BackendType) : Option Peer := do
  let ann ← n.annotations
  let publicIp ← ann.lookup (annotationKey "public-ip")
  let podCidr ← n.podCidr
  let vtepMac ← match backend with
    | .vxlan => ((ann.lookup (annotationKey "backend-data")).bind vtepMacFromJson).map some
    | .hostGw => some none
  return { node := ← n.name, podCidr, publicIp, vtepMac }

def desiredFromNodes [Crates] (nodes : List Node) (selfName : String) (backend : BackendType) :
    PeerMap :=
  nodes.foldl (fun out n =>
    let name := n.name.getD ""
    if name = selfName then out
    else match nodeToPeer n backend with
      | some peer => out.insert name peer
      | none => out) ∅

/-- The six bytes of a MAC address. -/
structure Mac where
  bytes : List (Fin 256)
  length_eq : bytes.length = 6
  deriving DecidableEq

/-- Why a function of `Netlink` failed, which is only logged. -/
inductive Failure where
  | parsePeerCidr
  | parsePeerNodeIp
  | missingVtepMac
  | parseMac
  | macNotSixBytes
  | podCidr
  | publicIp
  | route (e : NlError)
  | dump (e : NlError)

/-- `u8::from_str_radix` with radix 16. -/
def parseHexByte (s : String) : Option (Fin 256) :=
  let digits := match s.toList with
    | '+' :: cs => cs
    | cs => cs
  if digits = [] then none
  else do
    let n := (← digits.mapM hexDigit).foldl (fun n d => 16 * n + d) 0
    if h : n < 256 then some ⟨n, h⟩ else none

def parseMac (s : String) : Except Failure Mac :=
  match (splitOn ':' s).mapM parseHexByte with
  | none => .error .parseMac
  | some bytes =>
    if h : bytes.length = 6 then .ok ⟨bytes, h⟩ else .error .macNotSixBytes

structure Gateway where
  addr : Ipv4Addr
  onlink : Bool
  deriving DecidableEq

structure RouteMessage where
  dst : Ipv4Addr
  len : ℕ
  oif : ℕ
  gateway : Gateway

structure NeighbourMessage where
  dev : ℕ
  ip : Ipv4Addr
  mac : Mac

/-- A neighbour of the bridge family. -/
structure FdbMessage where
  dev : ℕ
  mac : Mac
  underlay : Ipv4Addr

/-- The messages of a dump, and the error that broke it off. -/
structure Dump (α : Type) where
  received : List α
  broken : Option NlError

inductive PeerOp where
  | addRoute (m : RouteMessage)
  | getRoutes
  | delRoute (m : RouteMessage)
  | addNeighbour (m : NeighbourMessage)
  | getNeighbours
  | delNeighbour (m : NeighbourMessage)
  | addFdb (m : FdbMessage)
  | getFdb
  | delFdb (m : FdbMessage)

@[reducible] def PeerRes : PeerOp → Type
  | .getRoutes => Dump RouteMessage
  | .getNeighbours => Dump NeighbourMessage
  | .getFdb => Dump FdbMessage
  | _ => Except NlError Unit

abbrev PeerProgram := Program PeerOp PeerRes

abbrev NetlinkProgram := ExceptT Failure PeerProgram

def call (o : PeerOp) : PeerProgram (PeerRes o) := Program.send o

def orFailure {α : Type} (e : Failure) : Option α → NetlinkProgram α
  | some a => pure a
  | none => throw e

/-- `EEXIST`. -/
def eexist : ℤ := -17

/-- The end of both functions that add a route: of the errors, only a code of the kernel
other than `EEXIST` is one. -/
def requestRoute (m : RouteMessage) : NetlinkProgram Unit := do
  match ← liftM (call (.addRoute m)) with
  | .ok _ => return ()
  | .error e =>
    match e.code with
    | some code => if code ≠ eexist then throw (.route e)
    | none => return ()

/-- The first loop of `del_peer`, and the loop of `del_host_gw_route`. -/
def delRouteTo (dev : ℕ) (net : Ipv4Network) : NetlinkProgram Unit := do
  let routes ← liftM (call .getRoutes)
  let found := routes.received.find? fun r =>
    r.len = net.len ∧ r.dst = net.network ∧ r.oif = dev
  match found with
  | some r =>
    let _ ← liftM (call (.delRoute r))
  | none =>
    match routes.broken with
    | some e => throw (.dump e)
    | none => return ()

/-- The second loop of `del_peer`. -/
def delNeighbourOf (dev : ℕ) (ip : Ipv4Addr) : PeerProgram Unit := do
  let neighbours ← call .getNeighbours
  match neighbours.received.find? fun n => n.dev = dev ∧ n.ip = ip with
  | some n =>
    let _ ← call (.delNeighbour n)
  | none => return ()

/-- The third loop of `del_peer`. -/
def delFdbOf (dev : ℕ) (mac : Mac) : PeerProgram Unit := do
  let fdb ← call .getFdb
  match fdb.received.find? fun n => n.dev = dev ∧ n.mac = mac with
  | some n =>
    let _ ← call (.delFdb n)
  | none => return ()

variable [Crates]

def addRoute (dev : ℕ) (peer : Peer) : NetlinkProgram Unit := do
  let net ← orFailure .parsePeerCidr (Crates.parseNetwork peer.podCidr)
  requestRoute ⟨net.network, net.len, dev, net.network, true⟩

def addHostGwRoute (oif : ℕ) (peer : Peer) : NetlinkProgram Unit := do
  let net ← orFailure .parsePeerCidr (Crates.parseNetwork peer.podCidr)
  let gw ← orFailure .parsePeerNodeIp (parseIpv4 peer.publicIp)
  requestRoute ⟨net.network, net.len, oif, gw, false⟩

def delHostGwRoute (oif : ℕ) (peer : Peer) : NetlinkProgram Unit := do
  let net ← orFailure .parsePeerCidr (Crates.parseNetwork peer.podCidr)
  delRouteTo oif net

def addPeerL2 (dev : ℕ) (peer : Peer) : NetlinkProgram Unit := do
  let mac ← ExceptT.mk (pure (parseMac (← orFailure .missingVtepMac peer.vtepMac)))
  let cidr ← orFailure .podCidr (Crates.parseNetwork peer.podCidr)
  let vtepIp := cidr.network
  let underlay ← orFailure .publicIp (parseIpv4 peer.publicIp)
  let _ ← liftM (call (.addNeighbour ⟨dev, vtepIp, mac⟩))
  let _ ← liftM (call (.addFdb ⟨dev, mac, underlay⟩))

def delPeer (dev : ℕ) (peer : Peer) : NetlinkProgram Unit := do
  let net ← orFailure .parsePeerCidr (Crates.parseNetwork peer.podCidr)
  let vtepIp := net.network
  let mac ← ExceptT.mk (pure (parseMac (← orFailure .missingVtepMac peer.vtepMac)))
  delRouteTo dev net
  liftM (delNeighbourOf dev vtepIp)
  liftM (delFdbOf dev mac)

/-- The part of `reconcile_from_store` that adds a peer, with its `added`. -/
def addPeer (backend : BackendType) (dev : ℕ) (p : Peer) : PeerProgram Bool := do
  match backend with
  | .vxlan =>
    let r1 ← (addRoute dev p).run
    let r2 ← (addPeerL2 dev p).run
    return r1.isOk && r2.isOk
  | .hostGw => return (← (addHostGwRoute dev p).run).isOk

def removePeer (backend : BackendType) (dev : ℕ) (p : Peer) : PeerProgram Unit := do
  let _ ← match backend with
    | .vxlan => (delPeer dev p).run
    | .hostGw => (delHostGwRoute dev p).run

/-- One round of the loop of `reconcile_from_store`. -/
def applyAction (backend : BackendType) (dev : ℕ) (next : PeerMap) : Action → PeerProgram PeerMap
  | .add p => do
    if ← addPeer backend dev p then return next.insert p.node p
    else return next.erase p.node
  | .remove p => do
    removePeer backend dev p
    return next.erase p.node

/-- `reconcile_from_store`, once the desired peers are read. -/
def reconcilePeers (backend : BackendType) (dev : ℕ) (installed desired : PeerMap) :
    PeerProgram PeerMap :=
  (reconcile installed desired).foldlM (applyAction backend dev) installed

def reconcileFromStore (nodes : List Node) (selfName : String) (dev : ℕ) (backend : BackendType)
    (installed : PeerMap) : PeerProgram PeerMap :=
  reconcilePeers backend dev installed (desiredFromNodes nodes selfName backend)

end FlannelRs.Flanneld
