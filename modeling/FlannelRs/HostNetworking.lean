import FlannelRs.BridgePlugin

/-!
# Links, namespaces and delegates, one system call at a time

`hostns.rs` and `contns.rs` of the `bridge` plugin and `delegate.rs` of the shared crate.
Every system call may fail. Requests of a network namespace carry the path it was opened
by, and none for the namespace of the host.
-/

namespace FlannelRs.HostNetworking
open InteractionPrograms Ipv4Addresses RustText CniTypes Bridge

/-- The netlink requests of the plugins. -/
inductive NlReq where
  | getLink (name : String)
  | addBridge (name : String)
  | addVeth (host peer : String)
  | setMtu (idx mtu : ℕ)
  | setUp (idx : ℕ)
  | setName (idx : ℕ) (name : String)
  | setController (idx bridgeIdx : ℕ)
  | setNs (idx fd : ℕ)
  | delLink (idx : ℕ)
  | addAddress (idx : ℕ) (addr : Ipv4Addr) (len : ℕ)
  | addRoute (dst : Ipv4Addr) (len : ℕ) (gw : Option Ipv4Addr) (idx : ℕ)

/-- Why a delegate gave no output. -/
inductive ExecError where
  | spawn (text : String)
  | wait (text : String)

inductive SysOp where
  | newConnection (ns : Option String)
  | netlink (ns : Option String) (req : NlReq)
  | openFile (path : String)
  | setns (fd : ℕ)
  | buildRuntime
  | isFile (path : String)
  | exec (bin : String) (args : CniArgs) (stdin : String)
  | writeFile (path text : String)

@[reducible] def SysRes : SysOp → Type
  | .netlink _ (.getLink _) => Except NlError (Option ℕ)
  | .netlink _ _ => Except NlError Unit
  | .openFile _ => Except String ℕ
  | .isFile _ => Bool
  | .exec _ _ _ => Except ExecError DelegateOutput
  | _ => Except String Unit

abbrev SysProgram := Program SysOp SysRes

/-- `anyhow::Result` around system calls. -/
abbrev AnyProgram := ExceptT String SysProgram

def call (o : SysOp) : SysProgram (SysRes o) := Program.send o

/-- `.context(..)`, as `{:#}` prints it. -/
def context {α : Type} (text : String) (x : SysProgram (Except String α)) : AnyProgram α :=
  ExceptT.mk do
    return (← x).mapError fun e => text ++ ": " ++ e

/-- An error of `rtnetlink` as its text. -/
def plain {α : Type} (x : SysProgram (Except NlError α)) : SysProgram (Except String α) := do
  return (← x).mapError NlError.text

/-- `link_index` and `idx_by_name`: `ENODEV` means that there is no such link. -/
def linkIndex (ns : Option String) (name : String) : AnyProgram (Option ℕ) :=
  ExceptT.mk do
    match ← call (.netlink ns (.getLink name)) with
    | .ok idx => return .ok idx
    | .error e => return if e.code = some (-19) then .ok none else .error e.text

/-- `.context(..)` on an `Option`. -/
def orMissing {α : Type} (text : String) : Option α → AnyProgram α
  | some a => return a
  | none => throw text

def setMtuIfGiven (idx : ℕ) : Option ℕ → SysProgram Unit
  | none => return
  | some m => do
    let _ ← call (.netlink none (.setMtu idx m))

def ensureBridge (name : String) (mtu : Option ℕ) : AnyProgram ℕ := do
  match ← linkIndex none name with
  | some idx =>
    setMtuIfGiven idx mtu
    ExceptT.mk (plain (call (.netlink none (.setUp idx))))
    return idx
  | none =>
    context "create bridge" (plain (call (.netlink none (.addBridge name))))
    let idx ← orMissing "bridge missing after create" (← linkIndex none name)
    setMtuIfGiven idx mtu
    ExceptT.mk (plain (call (.netlink none (.setUp idx))))
    return idx

def createVeth (hostName peerName : String) (mtu : Option ℕ) : AnyProgram (ℕ × ℕ) := do
  context "create veth pair" (plain (call (.netlink none (.addVeth hostName peerName))))
  let hostIdx ← orMissing "host veth missing" (← linkIndex none hostName)
  let peerIdx ← orMissing "peer veth missing" (← linkIndex none peerName)
  setMtuIfGiven hostIdx mtu
  setMtuIfGiven peerIdx mtu
  return (hostIdx, peerIdx)

def moveToNetns (idx fd : ℕ) : AnyProgram Unit :=
  context "move link to netns" (plain (call (.netlink none (.setNs idx fd))))

/-- Setting hairpin mode does nothing. -/
def attachHostVeth (hostIdx bridgeIdx : ℕ) (_hairpin : Bool) : AnyProgram Unit := do
  ExceptT.mk (plain (call (.netlink none (.setUp hostIdx))))
  context "set bridge master" (plain (call (.netlink none (.setController hostIdx bridgeIdx))))

/-- An address that is already there is fine, and so are errors that are not answers of
the kernel. -/
def setBridgeGateway (bridgeIdx : ℕ) (gw : Ipv4Addr) (len : ℕ) : AnyProgram Unit :=
  ExceptT.mk do
    match ← call (.netlink none (.addAddress bridgeIdx gw len)) with
    | .ok _ => return .ok ()
    | .error e =>
      match e.code with
      | none => return .ok ()
      | some code =>
        return if code = -17 then .ok () else .error ("set bridge gateway: " ++ e.text)

def delLink (idx : ℕ) : SysProgram Unit := do
  let _ ← call (.netlink none (.delLink idx))

def addRoutes (netns : String) (idx : ℕ) (gw : Option Ipv4Addr) :
    List Ipv4Network → SysProgram Unit
  | [] => return
  | net :: nets => do
    let _ ← call (.netlink (some netns) (.addRoute net.network net.len gw idx))
    addRoutes netns idx gw nets

def configure (netns temp ifname : String) (plan : IpPlan) (defaultRoute : Bool) :
    AnyProgram Unit := do
  context "netlink conn in container ns" (call (.newConnection (some netns)))
  let idx ← orMissing "moved iface not found in container ns" (← linkIndex (some netns) temp)
  context "rename iface" (plain (call (.netlink (some netns) (.setName idx ifname))))
  context "set iface up" (plain (call (.netlink (some netns) (.setUp idx))))
  context "assign pod ip"
    (plain (call (.netlink (some netns) (.addAddress idx plan.addr plan.len))))
  addRoutes netns idx plan.gateway plan.routes
  if defaultRoute then
    match plan.gateway with
    | none => return
    | some g =>
      let _ ← call (.netlink (some netns) (.addRoute (.ofOctets 0 0 0 0) 0 (some g) idx))

/-- A part that runs in the namespace of the container. The thread goes back whatever the
part gives. -/
def configureContainerIface (netns temp ifname : String) (plan : IpPlan)
    (defaultRoute : Bool) : AnyProgram Unit := do
  let hostNs ← context "open host netns" (call (.openFile "/proc/self/ns/net"))
  let contNs ← context ("open netns " ++ netns) (call (.openFile netns))
  context "setns into container" (call (.setns contNs))
  context "build container-ns runtime" (call .buildRuntime)
  let res ← ExceptT.lift (configure netns temp ifname plan defaultRoute).run
  let _ ← ExceptT.lift (call (.setns hostNs))
  ExceptT.mk (pure res)

def deleteLinkByName (netns ifname : String) : AnyProgram Unit := do
  ExceptT.mk (call (.newConnection (some netns)))
  match ← linkIndex (some netns) ifname with
  | none => return
  | some idx =>
    let _ ← call (.netlink (some netns) (.delLink idx))

def deleteContainerIface (netns ifname : String) : AnyProgram Unit := do
  let hostNs ← context "open host netns" (call (.openFile "/proc/self/ns/net"))
  match ← ExceptT.lift (call (.openFile netns)) with
  | .error _ => return
  | .ok contNs =>
    context "setns into container" (call (.setns contNs))
    ExceptT.mk (call .buildRuntime)
    let _ ← ExceptT.lift (deleteLinkByName netns ifname).run
    let _ ← ExceptT.lift (call (.setns hostNs))

def findInDirs (name : String) : List String → SysProgram (Option String)
  | [] => return none
  | dir :: dirs => do
    if ← call (.isFile (joinPath dir name)) then return some (joinPath dir name)
    else findInDirs name dirs

def findInPath (name cniPath : String) : SysProgram (Option String) :=
  findInDirs name ((splitOn ':' cniPath).filter (· ≠ ""))

def runDelegate (name : String) (args : CniArgs) (stdin : String) :
    SysProgram (Except CniError DelegateOutput) := do
  match ← findInPath name args.path with
  | none =>
    return .error (.new 5 ("delegate plugin " ++ debugText name ++ " not found in CNI_PATH"))
  | some bin =>
    match ← call (.exec bin args stdin) with
    | .ok out => return .ok out
    | .error (.spawn text) =>
      return .error ((CniError.new 5 ("exec delegate " ++ name ++ " failed")).withDetails text)
    | .error (.wait text) =>
      return .error ((CniError.new 5 "wait for delegate").withDetails text)

def impl : (o : BridgeOp) → SysProgram (BridgeRes o)
  | .newConnection => call (.newConnection none)
  | .ensureBridge name mtu => (ensureBridge name mtu).run
  | .runDelegate name args stdin => runDelegate name args stdin
  | .createVeth host peer mtu => (createVeth host peer mtu).run
  | .openNetns path => call (.openFile path)
  | .moveToNetns idx fd => (moveToNetns idx fd).run
  | .configureContainerIface netns temp ifname plan defaultRoute =>
    (configureContainerIface netns temp ifname plan defaultRoute).run
  | .attachHostVeth hostIdx bridgeIdx hairpin => (attachHostVeth hostIdx bridgeIdx hairpin).run
  | .setBridgeGateway bridgeIdx gw len => (setBridgeGateway bridgeIdx gw len).run
  | .enableIpForward => do
    let _ ← call (.writeFile "/proc/sys/net/ipv4/ip_forward" "1")
  | .delLink idx => delLink idx
  | .deleteContainerIface netns ifname => (deleteContainerIface netns ifname).run

/-- Requests that neither make, move nor delete a veth pair. -/
def Benign : NlReq → Prop
  | .addVeth _ _ => False
  | .setNs _ _ => False
  | .delLink _ => False
  | _ => True

section

variable {P : SysOp → Prop} {α : Type}

theorem uses_call {o : SysOp} (h : P o) : (call o).Uses P := Program.Uses.send h

theorem uses_context {text : String} {x : SysProgram (Except String α)} (h : x.Uses P) :
    (context text x).run.Uses P :=
  h.bind fun _ => trivial

theorem uses_plain {x : SysProgram (Except NlError α)} (h : x.Uses P) : (plain x).Uses P :=
  h.bind fun _ => trivial

theorem uses_linkIndex {ns : Option String} {name : String}
    (h : P (.netlink ns (.getLink name))) : (linkIndex ns name).run.Uses P := by
  apply (uses_call h).bind
  intro r
  cases r <;> trivial

theorem uses_orMissing (text : String) (a : Option α) : (orMissing text a).run.Uses P := by
  cases a <;> trivial

theorem uses_setBridgeGateway {bridgeIdx len : ℕ} {gw : Ipv4Addr}
    (h : P (.netlink none (.addAddress bridgeIdx gw len))) :
    (setBridgeGateway bridgeIdx gw len).run.Uses P := by
  apply (uses_call h).bind
  intro r
  cases r with
  | ok a => trivial
  | error e =>
    cases e with
    | mk code text => cases code <;> trivial

section

variable (h : ∀ req, Benign req → P (.netlink none req))

include h

theorem uses_setMtuIfGiven (idx : ℕ) (mtu : Option ℕ) : (setMtuIfGiven idx mtu).Uses P := by
  cases mtu with
  | none => trivial
  | some m => exact (uses_call (h (.setMtu idx m) trivial)).bind fun _ => trivial

theorem uses_ensureBridge (name : String) (mtu : Option ℕ) :
    (ensureBridge name mtu).run.Uses P := by
  have hup : ∀ idx, (do setMtuIfGiven idx mtu
                        ExceptT.mk (plain (call (.netlink none (.setUp idx))))
                        return idx : AnyProgram ℕ).run.Uses P := by
    intro idx
    refine Program.Uses.exceptBind (uses_setMtuIfGiven h idx mtu).lift fun _ => ?_
    exact Program.Uses.exceptBind (uses_plain (uses_call (h _ trivial))) fun _ => trivial
  refine Program.Uses.exceptBind (uses_linkIndex (h _ trivial)) fun found => ?_
  cases found with
  | some idx => exact hup idx
  | none =>
    have hcreate := uses_plain (uses_call (h (.addBridge name) trivial))
    refine Program.Uses.exceptBind (uses_context hcreate) fun _ => ?_
    refine Program.Uses.exceptBind (uses_linkIndex (h _ trivial)) fun found => ?_
    exact Program.Uses.exceptBind (uses_orMissing _ found) hup

theorem uses_attachHostVeth (hostIdx bridgeIdx : ℕ) (hairpin : Bool) :
    (attachHostVeth hostIdx bridgeIdx hairpin).run.Uses P := by
  refine Program.Uses.exceptBind (uses_plain (uses_call (h _ trivial))) fun _ => ?_
  exact uses_context (uses_plain (uses_call (h _ trivial)))

/-- After the pair is made. -/
theorem uses_createVeth {host peer : String} (hadd : P (.netlink none (.addVeth host peer)))
    (mtu : Option ℕ) : (createVeth host peer mtu).run.Uses P := by
  refine Program.Uses.exceptBind (uses_context (uses_plain (uses_call hadd))) fun _ => ?_
  refine Program.Uses.exceptBind (uses_linkIndex (h _ trivial)) fun found => ?_
  refine Program.Uses.exceptBind (uses_orMissing _ found) fun hostIdx => ?_
  refine Program.Uses.exceptBind (uses_linkIndex (h _ trivial)) fun found => ?_
  refine Program.Uses.exceptBind (uses_orMissing _ found) fun peerIdx => ?_
  refine Program.Uses.exceptBind (uses_setMtuIfGiven h hostIdx mtu).lift fun _ => ?_
  exact Program.Uses.exceptBind (uses_setMtuIfGiven h peerIdx mtu).lift fun _ => trivial

end

theorem uses_addRoutes {netns : String} {idx : ℕ} {gw : Option Ipv4Addr}
    (h : ∀ dst len gw, P (.netlink (some netns) (.addRoute dst len gw idx)))
    (routes : List Ipv4Network) : (addRoutes netns idx gw routes).Uses P := by
  induction routes with
  | nil => trivial
  | cons net nets ih => exact (uses_call (h _ _ _)).bind fun _ => ih

section

variable {netns : String} (hconn : P (.newConnection (some netns)))
  (h : ∀ req, Benign req → P (.netlink (some netns) req))

include hconn h

theorem uses_configure (temp ifname : String) (plan : IpPlan) (defaultRoute : Bool) :
    (configure netns temp ifname plan defaultRoute).run.Uses P := by
  refine Program.Uses.exceptBind (uses_context (uses_call hconn)) fun _ => ?_
  refine Program.Uses.exceptBind (uses_linkIndex (h _ trivial)) fun found => ?_
  refine Program.Uses.exceptBind (uses_orMissing _ found) fun idx => ?_
  have hname := uses_plain (uses_call (h (.setName idx ifname) trivial))
  have hup := uses_plain (uses_call (h (.setUp idx) trivial))
  have haddr := uses_plain (uses_call (h (.addAddress idx plan.addr plan.len) trivial))
  refine Program.Uses.exceptBind (uses_context hname) fun _ => ?_
  refine Program.Uses.exceptBind (uses_context hup) fun _ => ?_
  refine Program.Uses.exceptBind (uses_context haddr) fun _ => ?_
  have hroutes : (addRoutes netns idx plan.gateway plan.routes).Uses P :=
    uses_addRoutes (fun dst len gw => h (.addRoute dst len gw idx) trivial) plan.routes
  refine Program.Uses.exceptBind hroutes.lift fun _ => ?_
  split
  · split
    · trivial
    · rename_i g _
      have hroute := uses_call (h (.addRoute (.ofOctets 0 0 0 0) 0 (some g) idx) trivial)
      exact Program.Uses.exceptBind hroute.lift fun _ => trivial
  · trivial

theorem uses_configureContainerIface (hfile : ∀ path, P (.openFile path))
    (hsetns : ∀ fd, P (.setns fd)) (hruntime : P .buildRuntime) (temp ifname : String)
    (plan : IpPlan) (defaultRoute : Bool) :
    (configureContainerIface netns temp ifname plan defaultRoute).run.Uses P := by
  refine Program.Uses.exceptBind (uses_context (uses_call (hfile _))) fun hostNs => ?_
  refine Program.Uses.exceptBind (uses_context (uses_call (hfile netns))) fun contNs => ?_
  refine Program.Uses.exceptBind (uses_context (uses_call (hsetns contNs))) fun _ => ?_
  refine Program.Uses.exceptBind (uses_context (uses_call hruntime)) fun _ => ?_
  refine Program.Uses.exceptBind (uses_configure hconn h _ _ _ _).lift fun res => ?_
  refine Program.Uses.exceptBind (uses_call (hsetns hostNs)).lift fun _ => ?_
  trivial

end

theorem uses_findInDirs (h : ∀ path, P (.isFile path)) (name : String) (dirs : List String) :
    (findInDirs name dirs).Uses P := by
  induction dirs with
  | nil => trivial
  | cons dir dirs ih =>
    refine (uses_call (h _)).bind fun found => ?_
    cases found with
    | true => trivial
    | false => exact ih

theorem uses_runDelegate {name : String} {args : CniArgs} {stdin : String}
    (hfile : ∀ path, P (.isFile path)) (hexec : ∀ bin, P (.exec bin args stdin)) :
    (runDelegate name args stdin).Uses P := by
  refine (uses_findInDirs hfile name _).bind fun found => ?_
  cases found with
  | none => trivial
  | some bin =>
    refine (uses_call (hexec bin)).bind fun r => ?_
    cases r with
    | ok out => trivial
    | error e => cases e <;> trivial

end

end FlannelRs.HostNetworking
