import FlannelRs.HostLocalCommands

/-!
# The `bridge` plugin

Its `config.rs`, `plan.rs` and `main.rs`. The commands request what `hostns.rs`, `contns.rs` and
the shared `run_delegate` do. `HostNetworking` implements these requests one system call at a time.
-/

namespace FlannelRs.Bridge
open InteractionPrograms Ipv4Addresses RustText JsonValues CniTypes

structure Ipam where
  kind : String
  deriving DecidableEq

structure BridgeConf where
  cniVersion : String
  bridge : String
  isGateway : Bool
  isDefaultGateway : Bool
  hairpinMode : Bool
  mtu : Option ℕ
  ipam : Ipam
  deriving DecidableEq

def defaultBridge : String := "cni0"

def Ipam.decode (j : Json) : Option Ipam :=
  match j.fields [⟨["type"], false⟩] with
  | some [kind] => do return { kind := ← required Json.decodeString kind }
  | _ => none

/-- `name` is an alias of the field `bridge`. -/
def BridgeConf.decode (j : Json) : Option BridgeConf :=
  match j.fields [⟨["cniVersion"], true⟩, ⟨["bridge", "name"], true⟩, ⟨["isGateway"], true⟩,
      ⟨["isDefaultGateway"], true⟩, ⟨["hairpinMode"], true⟩, ⟨["mtu"], true⟩,
      ⟨["ipam"], false⟩] with
  | some [cniVersion, bridge, isGateway, isDefaultGateway, hairpinMode, mtu, ipam] => do
    return {
      cniVersion := ← defaulted "" Json.decodeString cniVersion
      bridge := ← defaulted defaultBridge Json.decodeString bridge
      isGateway := ← defaulted false Json.decodeBool isGateway
      isDefaultGateway := ← defaulted false Json.decodeBool isDefaultGateway
      hairpinMode := ← defaulted false Json.decodeBool hairpinMode
      mtu := ← defaulted none (Json.decodeOption (Json.decodeUnsigned (2 ^ 32))) mtu
      ipam := ← required Ipam.decode ipam }
  | _ => none

section

variable [Crates]

/-- `BridgeConf::parse`. -/
def BridgeConf.parse (s : String) : Option BridgeConf :=
  (Crates.jsonFromStr s).bind BridgeConf.decode

end

def ifnameMax : ℕ := 15

def isAsciiAlphanumeric (c : Char) : Bool :=
  ('0' ≤ c ∧ c ≤ '9') ∨ ('A' ≤ c ∧ c ≤ 'Z') ∨ ('a' ≤ c ∧ c ≤ 'z')

def sanitizedId (containerId : String) : List Char :=
  containerId.toList.filter isAsciiAlphanumeric

def hostVethName (containerId : String) : String :=
  "veth" ++ String.ofList ((sanitizedId containerId).take 11)

def tempContName (containerId : String) : String :=
  "vethc" ++ String.ofList ((sanitizedId containerId).take (ifnameMax - 5))

structure IpPlan where
  addr : Ipv4Addr
  len : ℕ
  gateway : Option Ipv4Addr
  routes : List Ipv4Network

/-- The gateway of an IPAM result, which may be missing but not malformed. -/
def planGateway : Option String → Except String (Option Ipv4Addr)
  | none => .ok none
  | some g =>
    match parseIpv4 g with
    | some gw => .ok (some gw)
    | none => .error ("bad IPAM gateway " ++ g)

section

variable [Crates]

def planRoutes : List Route → Except String (List Ipv4Network)
  | [] => .ok []
  | r :: rs =>
    match Crates.parseNetwork r.dst with
    | none => .error ("bad route dst " ++ r.dst)
    | some net => (planRoutes rs).map (net :: ·)

def ipPlan (result : CniResult) : Except String IpPlan := do
  match result.ips.head? with
  | none => throw "IPAM result has no IPs"
  | some ip =>
    match Crates.parseNetwork ip.address with
    | none => throw ("bad IPAM address " ++ ip.address)
    | some net =>
      let gateway ← planGateway ip.gateway
      let routes ← planRoutes result.routes
      return ⟨net.ip, net.len, gateway, routes⟩

/-- What `ip_plan` takes from the first address. -/
theorem ipPlan_ok {result : CniResult} {plan : IpPlan} (h : ipPlan result = .ok plan) :
    ∃ ip net, result.ips.head? = some ip ∧ Crates.parseNetwork ip.address = some net ∧
      plan.addr = net.ip ∧ plan.len = net.len ∧ planGateway ip.gateway = .ok plan.gateway := by
  unfold ipPlan at h
  cases hip : result.ips.head? with
  | none => simp [hip] at h
  | some ip =>
    cases hnet : Crates.parseNetwork ip.address with
    | none => simp [hip, hnet] at h
    | some net =>
      cases hgateway : planGateway ip.gateway with
      | error e => simp [hip, hnet, hgateway, bind, Except.bind] at h
      | ok gateway =>
        cases hroutes : planRoutes result.routes with
        | error e => simp [hip, hnet, hgateway, hroutes, bind, Except.bind] at h
        | ok routes =>
          simp only [hip, hnet, hgateway, hroutes, bind, Except.bind] at h
          obtain rfl := Except.ok.inj h
          exact ⟨ip, net, rfl, hnet, rfl, rfl, hgateway⟩

/-- The plan of a result of `host-local`. -/
theorem ipPlan_addResult (hc : Crates.Lawful) {nc : NetConf} {alloc : HostLocal.Allocator}
    {ip : Ipv4Addr} {plan : IpPlan} (h : ipPlan (HostLocal.addResult nc alloc ip) = .ok plan) :
    plan.addr = ip ∧ plan.len = alloc.net.len := by
  obtain ⟨first, net, hfirst, hnet, haddr, hlen, -⟩ := ipPlan_ok h
  obtain rfl := Option.some.inj hfirst
  rw [hc.network ip alloc.net.len alloc.net.len_le] at hnet
  obtain rfl := Option.some.inj hnet
  exact ⟨haddr, hlen⟩

end

/-- What the commands ask of the other modules. -/
inductive BridgeOp where
  | newConnection
  | ensureBridge (name : String) (mtu : Option ℕ)
  | runDelegate (name : String) (args : CniArgs) (stdin : String)
  | createVeth (host peer : String) (mtu : Option ℕ)
  | openNetns (path : String)
  | moveToNetns (idx fd : ℕ)
  | configureContainerIface (netns temp ifname : String) (plan : IpPlan) (defaultRoute : Bool)
  | attachHostVeth (hostIdx bridgeIdx : ℕ) (hairpin : Bool)
  | setBridgeGateway (bridgeIdx : ℕ) (gw : Ipv4Addr) (len : ℕ)
  | enableIpForward
  | delLink (idx : ℕ)
  | deleteContainerIface (netns ifname : String)

@[reducible] def BridgeRes : BridgeOp → Type
  | .ensureBridge _ _ => Except String ℕ
  | .runDelegate _ _ _ => Except CniError DelegateOutput
  | .createVeth _ _ _ => Except String (ℕ × ℕ)
  | .openNetns _ => Except String ℕ
  | .enableIpForward => Unit
  | .delLink _ => Unit
  | _ => Except String Unit

abbrev BridgeProgram := ExceptT CniError (Program BridgeOp BridgeRes)

def ask (o : BridgeOp) : Program BridgeOp BridgeRes (BridgeRes o) := Program.send o

/-- A request whose error ends the command with the given one. -/
def orFail {α : Type} (x : Program BridgeOp BridgeRes (Except String α)) (e : CniError) :
    BridgeProgram α :=
  ExceptT.mk do
    match ← x with
    | .ok a => return .ok a
    | .error text => return .error (e.withDetails text)

theorem run_orFail_bind {α β : Type} (x : Program BridgeOp BridgeRes (Except String α))
    (e : CniError) (f : α → BridgeProgram β) :
    (orFail x e >>= f).run = x >>= fun r => match r with
      | .ok a => (f a).run
      | .error text => .ret (.error (e.withDetails text)) := by
  refine (Program.bind_assoc _ _ _).trans ?_
  congr 1
  funext r
  cases r <;> rfl

theorem uses_orFail {α : Type} {P : BridgeOp → Prop}
    {x : Program BridgeOp BridgeRes (Except String α)} {e : CniError} (h : x.Uses P) :
    (orFail x e).run.Uses P := by
  refine h.bind fun r => ?_
  cases r <;> trivial

/-- As `orFail`, but the veth pair is deleted before the command ends. -/
def orDelLink {α : Type} (idx : ℕ) (x : Program BridgeOp BridgeRes (Except String α))
    (e : CniError) : BridgeProgram α :=
  ExceptT.mk do
    match ← x with
    | .ok a => return .ok a
    | .error text =>
      ask (.delLink idx)
      return .error (e.withDetails text)

theorem run_orDelLink_bind {α β : Type} (idx : ℕ)
    (x : Program BridgeOp BridgeRes (Except String α)) (e : CniError) (f : α → BridgeProgram β) :
    (orDelLink idx x e >>= f).run = x >>= fun r => match r with
      | .ok a => (f a).run
      | .error text =>
        .request (.delLink idx) fun _ => .ret (.error (e.withDetails text)) := by
  refine (Program.bind_assoc _ _ _).trans ?_
  congr 1
  funext r
  cases r <;> rfl

theorem uses_orDelLink {α : Type} {P : BridgeOp → Prop} {idx : ℕ}
    {x : Program BridgeOp BridgeRes (Except String α)} {e : CniError} (h : x.Uses P)
    (hdel : P (.delLink idx)) : (orDelLink idx x e).run.Uses P := by
  refine h.bind fun r => ?_
  cases r with
  | ok a => trivial
  | error text => exact ⟨hdel, fun _ => trivial⟩

/-- The length after the slash of an address, `24` if there is none that can be read. -/
def gatewayLen (address : String) : ℕ :=
  ((splitOn '/' address)[1]?.bind (parseUnsigned 256)).getD 24

/-- The gateway of the first address of the result, if it can be read, and its length. -/
def bridgeGateway (ipam : CniResult) : Option (Ipv4Addr × ℕ) := do
  let ip ← ipam.ips.head?
  let gw ← ip.gateway.bind parseIpv4
  return (gw, gatewayLen ip.address)

/-- Step 6 of ADD: the address of the bridge, and forwarding. -/
def setGateway (bridgeIdx : ℕ) (ipam : CniResult) : Program BridgeOp BridgeRes Unit := do
  match bridgeGateway ipam with
  | none => pure ()
  | some (gw, len) =>
    let _ ← ask (.setBridgeGateway bridgeIdx gw len)
  ask .enableIpForward

variable [Crates]

/-- Steps 3 to 6 of ADD. -/
def wirePod (bridgeIdx : ℕ) (conf : BridgeConf) (args : CniArgs) (ipamStdout : String) :
    BridgeProgram Unit := do
  let ipam ← ExceptT.mk (pure (match CniResult.parse ipamStdout with
    | some r => .ok r
    | none => .error ((CniError.new 6 "parse ipam result").withDetails
        (Crates.jsonError "CniResult" ipamStdout))))
  let plan ← ExceptT.mk (pure ((ipPlan ipam).mapError fun text =>
    (CniError.new 7 "ipam plan").withDetails text))
  let hostVeth := hostVethName args.containerId
  let tempCont := tempContName args.containerId
  let (hostIdx, peerIdx) ← orFail (ask (.createVeth hostVeth tempCont conf.mtu))
    (.new 5 "create veth")
  let netnsFd ← orFail (ask (.openNetns args.netns)) (.new 5 "open netns")
  orDelLink hostIdx (ask (.moveToNetns peerIdx netnsFd))
    (.new 5 "move veth to netns")
  orDelLink hostIdx (ask (.configureContainerIface args.netns tempCont
    args.ifname plan conf.isDefaultGateway)) (.new 7 "configure container iface")
  orDelLink hostIdx (ask (.attachHostVeth hostIdx bridgeIdx conf.hairpinMode))
    (.new 5 "attach host veth")
  if conf.isGateway then
    setGateway bridgeIdx ipam

/-- `ipam_del`: the release on the failure paths of ADD. -/
def ipamDel (conf : BridgeConf) (args : CniArgs) (stdin : String) :
    Program BridgeOp BridgeRes Unit := do
  let _ ← ask (.runDelegate conf.ipam.kind { args with command := "DEL" } stdin)

def cmdAdd (args : CniArgs) (conf : BridgeConf) (stdin : String) : BridgeProgram String := do
  orFail (ask .newConnection) (.new 5 "netlink")
  let bridgeIdx ← orFail (ask (.ensureBridge conf.bridge conf.mtu))
    (.new 7 "ensure bridge")
  let out ← ExceptT.mk (ask (.runDelegate conf.ipam.kind args stdin))
  if !out.success then
    throw ((CniError.new 7 "ipam add failed").withDetails out.stdout)
  ExceptT.mk do
    match ← (wirePod bridgeIdx conf args out.stdout).run with
    | .ok _ => return .ok out.stdout
    | .error e =>
      ipamDel conf args stdin
      return .error e

def cmdDel (args : CniArgs) (conf : BridgeConf) (stdin : String) : BridgeProgram String := do
  let _ ← ExceptT.lift (ask (.runDelegate conf.ipam.kind args stdin))
  if args.netns ≠ "" then
    let _ ← ExceptT.lift (ask (.deleteContainerIface args.netns args.ifname))
  return ""

/-- `run`, once the arguments and the standard input are read. -/
def run (args : CniArgs) (stdin : String) : BridgeProgram String :=
  let conf : Except CniError BridgeConf := match BridgeConf.parse stdin with
    | some conf => .ok conf
    | none => .error ((CniError.new 6 "decode config").withDetails
        (Crates.jsonError "BridgeConf" stdin))
  if args.command = "VERSION" then return versionResult
  else if args.command = "ADD" then do
    cmdAdd args (← ExceptT.mk (pure conf)) stdin
  else if args.command = "DEL" then do
    cmdDel args (← ExceptT.mk (pure conf)) stdin
  else if args.command = "CHECK" then return ""
  else throw (.new 4 ("unknown CNI_COMMAND " ++ args.command))

/-- The command ends with an error where the configuration cannot be read. -/
def decodeFailure (stdin : String) : CniError :=
  (CniError.new 6 "decode config").withDetails (Crates.jsonError "BridgeConf" stdin)

theorem run_add {args : CniArgs} (h : args.command = "ADD") (stdin : String) :
    (run args stdin).run = match BridgeConf.parse stdin with
      | some conf => (cmdAdd args conf stdin).run
      | none => .ret (.error (decodeFailure stdin)) := by
  have hrun : run args stdin = ExceptT.mk (pure (match BridgeConf.parse stdin with
      | some conf => .ok conf
      | none => .error (decodeFailure stdin))) >>= fun conf => cmdAdd args conf stdin := by
    simp [run, h, decodeFailure]
  rw [hrun, Program.run_pure_bind]
  cases BridgeConf.parse stdin <;> rfl

theorem run_del {args : CniArgs} (h : args.command = "DEL") (stdin : String) :
    (run args stdin).run = match BridgeConf.parse stdin with
      | some conf => (cmdDel args conf stdin).run
      | none => .ret (.error (decodeFailure stdin)) := by
  have hrun : run args stdin = ExceptT.mk (pure (match BridgeConf.parse stdin with
      | some conf => .ok conf
      | none => .error (decodeFailure stdin))) >>= fun conf => cmdDel args conf stdin := by
    simp [run, h, decodeFailure]
  rw [hrun, Program.run_pure_bind]
  cases BridgeConf.parse stdin <;> rfl

end FlannelRs.Bridge
