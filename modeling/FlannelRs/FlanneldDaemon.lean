import FlannelRs.FlanneldBootstrap
import FlannelRs.Masquerade
import FlannelRs.VxlanDevices

/-!
# `flanneld` from its start to its loop

An attempt of the bootstrap with all its requests, the attempts one after the other, and the
rounds of the loop of `main`. The requests are those of `kube_mgr.rs` and `netlink.rs`.
-/

namespace FlannelRs.FlanneldDaemon
open InteractionPrograms Ipv4Addresses JsonValues CniTypes Flanneld LeasePublication VxlanDevices
open FlanneldBootstrap NatTables
open SubnetEnvFiles (SubnetEnv)

def subnetInNetwork (subnet network : Ipv4Network) : Bool :=
  network.contains subnet.network && network.contains subnet.broadcast

/-- The first and the last address tell whether the subnet is part of the network. -/
theorem subnetInNetwork_iff {subnet network : Ipv4Network} :
    subnetInNetwork subnet network = true ↔
      ∀ ip, subnet.contains ip = true → network.contains ip = true := by
  rw [subnetInNetwork, Bool.and_eq_true]
  constructor
  · rintro ⟨hfirst, hlast⟩ ip hip
    obtain ⟨hge, hle⟩ := Ipv4Network.network_le_of_contains hip
    rw [Ipv4Network.contains, decide_eq_true_eq] at hfirst hlast ⊢
    apply Nat.le_antisymm
    · rw [← hlast]
      exact Nat.div_le_div_right hle
    · rw [← hfirst]
      exact Nat.div_le_div_right hge
  · intro h
    exact ⟨h _ subnet.contains_network, h _ subnet.contains_broadcast⟩

structure NodeAddress where
  kind : String
  address : String

/-- A node object, as far as `flanneld` reads it. -/
structure NodeObject extends Node where
  addresses : Option (List NodeAddress)

def extractOwnNode (n : NodeObject) : Except String OwnNode :=
  match n.podCidr with
  | none => .error "node has no PodCIDR"
  | some podCidr =>
    match n.addresses.bind (List.find? fun x => x.kind = "InternalIP") with
    | none => .error "node has no InternalIP"
    | some x => .ok ⟨podCidr, x.address⟩

/-- A message about the addresses of an interface. -/
structure AddressMessage where
  index : ℕ
  inet : Bool
  addrs : List Ipv4Addr

/-- What is read of a link for the MTU. -/
structure MtuMessage where
  mtu : Option { n : ℕ // n < 2 ^ 32 }

inductive HostOp where
  | readFile (path : String)
  | getNode
  | patchNode (patch : Json)
  | getAddresses
  | getMtu (index : ℕ)
  | link (o : LinkOp)
  | createDirAll (dir : String)
  | writeFile (path text : String)
  | sleep (seconds : ℕ)

@[reducible] def HostRes : HostOp → Type
  | .readFile _ => Except String String
  | .getNode => Except String NodeObject
  | .patchNode _ => Except String Unit
  | .getAddresses => Dump AddressMessage
  | .getMtu _ => Except NlError (Option MtuMessage)
  | .link o => LinkRes o
  | .createDirAll _ => Except String Unit
  | .writeFile _ _ => Except String Unit
  | .sleep _ => Unit

abbrev HostProgram := Program HostOp HostRes

def ask (o : HostOp) : HostProgram (HostRes o) := Program.send o

def linkIndexByIp (ip : Ipv4Addr) : ExceptT LinkFailure HostProgram ℕ := do
  let addrs ← liftM (ask .getAddresses)
  match addrs.received.find? fun m => m.inet ∧ ip ∈ m.addrs with
  | some m => return m.index
  | none =>
    match addrs.broken with
    | some e => throw (.netlink none e)
    | none => throw (.message ("no interface owns address " ++ ip.toString))

def linkMtuByIp (ip : Ipv4Addr) : ExceptT LinkFailure HostProgram { n : ℕ // n < 2 ^ 32 } := do
  let idx ← linkIndexByIp ip
  match ← liftM (ask (.getMtu idx)) with
  | .error e => throw (.netlink none e)
  | .ok none => throw (.message "underlay link disappeared")
  | .ok (some l) =>
    match l.mtu with
    | some mtu => return mtu
    | none => throw (.message ("no MTU on underlay link " ++ idx.repr))

/-- A request about addresses or the MTU of a link. -/
def LooksUp : HostOp → Prop
  | .getAddresses => True
  | .getMtu _ => True
  | _ => False

theorem uses_linkIndexByIp (ip : Ipv4Addr) : (linkIndexByIp ip).run.Uses LooksUp := by
  refine Program.Uses.exceptBind (Program.Uses.lift (.send trivial)) fun addrs => ?_
  cases addrs.received.find? fun m => m.inet ∧ ip ∈ m.addrs with
  | some m => trivial
  | none => cases addrs.broken <;> trivial

theorem uses_linkMtuByIp (ip : Ipv4Addr) : (linkMtuByIp ip).run.Uses LooksUp := by
  refine Program.Uses.exceptBind (uses_linkIndexByIp ip) fun idx => ?_
  refine Program.Uses.exceptBind (Program.Uses.lift (.send trivial)) fun r => ?_
  cases r with
  | error e => trivial
  | ok l =>
    cases l with
    | none => trivial
    | some l => obtain ⟨_ | mtu⟩ := l <;> trivial

def dev : String := "flannel.1"

def vni : ℕ := 1

def dstPort : ℕ := 8472

def netConfPath : String := "/etc/kube-flannel/net-conf.json"

def subnetEnvPath : String := "/run/flannel/subnet.env"

/-- What the loop needs of a successful attempt. -/
structure BootstrapState where
  devIdx : ℕ
  backend : BackendType
  network : String
  subnet : String

/-- Why an attempt failed. Only the fatal errors are told from the others. -/
inductive AttemptError where
  | fatal (e : Fatal)
  | transient (text : String)
  | link (e : LinkFailure)

abbrev AttemptProgram := ExceptT AttemptError HostProgram

/-- `.context(..)?` -/
def orTransient {α : Type} (text : String) (x : HostProgram (Except String α)) : AttemptProgram α :=
  ExceptT.mk do
    return (← x).mapError fun e => .transient (text ++ ": " ++ e)

/-- `.context(..)?` on what was parsed. -/
def orUnparsed {α : Type} (text : String) : Option α → AttemptProgram α
  | some a => return a
  | none => throw (.transient text)

def orLink {α : Type} (x : ExceptT LinkFailure HostProgram α) : AttemptProgram α :=
  ExceptT.mk do
    return (← x.run).mapError .link

/-- `ensure_vxlan` among the other requests. -/
def onLinks {α : Type} (x : LinkProgram α) : ExceptT LinkFailure HostProgram α :=
  ExceptT.mk (x.run.interpret fun o => ask (.link o))

def ownNode : AttemptProgram OwnNode := do
  let n ← orTransient "get own node" (ask .getNode)
  ExceptT.mk (pure ((extractOwnNode n).mapError .transient))

theorem mtuFor_underlay_lt (backend : BackendType) (linkMtu : Option { n : ℕ // n < 2 ^ 32 }) :
    mtuFor backend (underlayMtu linkMtu).1 < 2 ^ 32 :=
  (mtuFor_le _ _).trans_lt (underlayMtu linkMtu).2

/-- The file that an attempt writes. -/
def envOf (nc : FlanneldBootstrap.NetConf) (own : OwnNode) (backend : BackendType)
    (linkMtu : Option { n : ℕ // n < 2 ^ 32 }) : SubnetEnv where
  network := nc.network
  subnet := own.podCidr
  mtu := mtuFor backend (underlayMtu linkMtu).1
  ipmasq := true
  mtu_lt := mtuFor_underlay_lt backend linkMtu

section

variable [Crates]

def publish (backend : BackendType) (publicIp : String) (vtepMac : Option String) :
    AttemptProgram Unit :=
  orTransient "patch own annotations"
    (ask (.patchNode (buildPublishPatch backend publicIp vtepMac)))

/-- The set-up of the backend, with the interface for the routes of the peers. -/
def setUpBackend (backend : BackendType) (publicIp : String) (endpoint gateway : Ipv4Addr)
    (mtu : ℕ) : AttemptProgram ℕ :=
  match backend with
  | .vxlan => do
    let (mac, idx) ← orLink (onLinks (ensureVxlan dev vni dstPort endpoint gateway mtu))
    publish .vxlan publicIp (some mac)
    return idx
  | .hostGw => do
    let oif ← orLink (linkIndexByIp endpoint)
    publish .hostGw publicIp none
    return oif

/-- A subnet that is not in the network is only warned of. -/
def tryBootstrap : AttemptProgram BootstrapState := do
  let raw ← orTransient "read /etc/kube-flannel/net-conf.json" (ask (.readFile netConfPath))
  let conf ← ExceptT.mk (pure ((classifyNetConf raw).mapError .fatal))
  let own ← ownNode
  let endpoint ← orUnparsed "parse node IP" (parseIpv4 own.publicIp)
  let cidr ← orUnparsed "parse own PodCIDR" (Crates.parseNetwork own.podCidr)
  let linkMtu ← ExceptT.lift (linkMtuByIp endpoint).run
  let env := envOf conf.1 own conf.2 linkMtu.toOption
  let devIdx ← setUpBackend conf.2 own.publicIp endpoint cidr.network env.mtu
  let _ ← ExceptT.lift (ask (.createDirAll "/run/flannel"))
  orTransient "write subnet.env" (ask (.writeFile subnetEnvPath env.render))
  return { devIdx, backend := conf.2, network := conf.1.network, subnet := own.podCidr }

/-- The delay after the next attempt. -/
def nextDelay (delay : ℕ) : ℕ := min (delay * 2) 30

/-- The loop of `bootstrap` from the given delay on, for a number of attempts. -/
def bootstrapFrom : ℕ → ℕ → HostProgram (Option (Except Fatal BootstrapState))
  | 0, _ => return none
  | attempts + 1, delay => do
    match ← tryBootstrap.run with
    | .ok s => return some (.ok s)
    | .error (.fatal e) => return some (.error e)
    | .error _ =>
      ask (.sleep delay)
      bootstrapFrom attempts (nextDelay delay)

def bootstrap (attempts : ℕ) : HostProgram (Option (Except Fatal BootstrapState)) :=
  bootstrapFrom attempts 1

end

inductive DaemonOp where
  | host (o : HostOp)
  | peer (o : PeerOp)
  | nat (c : Command)

@[reducible] def DaemonRes : DaemonOp → Type
  | .host o => HostRes o
  | .peer o => PeerRes o
  | .nat c => Masquerade.CommandRes c

abbrev DaemonProgram := Program DaemonOp DaemonRes

def onHost {α : Type} (x : HostProgram α) : DaemonProgram α :=
  x.interpret fun o => Program.send (DaemonOp.host o)

def onPeers {α : Type} (x : PeerProgram α) : DaemonProgram α :=
  x.interpret fun o => Program.send (DaemonOp.peer o)

def onNat {α : Type} (x : Program Command Masquerade.CommandRes α) : DaemonProgram α :=
  x.interpret fun c => Program.send (DaemonOp.nat c)

/-- The branch that `select!` takes. -/
inductive LoopEvent where
  | watched
  | watchError
  | watchEnded
  | peerResync
  | masqTick
  deriving DecidableEq

def LoopEvent.Reconciles (ev : LoopEvent) : Prop := ev = .watched ∨ ev = .peerResync

instance (ev : LoopEvent) : Decidable ev.Reconciles := instDecidableOr

section

variable [Crates]

/-- One round of the loop, with the installed peers after it, or none if the loop has ended.
`masq` says whether a backend of `iptables` was detected, and `desired` is the map that is
built from the store, in the order in which it is walked through. -/
def round (boot : BootstrapState) (masq : Bool) (installed desired : PeerMap) :
    LoopEvent → DaemonProgram (Option PeerMap)
  | .watched => do
    return some (← onPeers (reconcilePeers boot.backend boot.devIdx installed desired))
  | .peerResync => do
    return some (← onPeers (reconcilePeers boot.backend boot.devIdx installed desired))
  | .watchError => return some installed
  | .watchEnded => return none
  | .masqTick => do
    if masq then
      let _ ← onNat (Masquerade.ensure boot.network boot.subnet).run
    return some installed

end

end FlannelRs.FlanneldDaemon
