import FlannelRs.CniTypes
import FlannelRs.InteractionPrograms
import FlannelRs.NatTables

/-!
# The `portmap` plugin

Every container has a chain of its own, to which a chain that all share jumps. The sources are
`config.rs`, `rules.rs` and `main.rs`, and `iptables.rs` of the shared `cni` crate.
-/

namespace FlannelRs.Portmap
open InteractionPrograms Ipv4Addresses RustText JsonValues CniTypes NatTables

structure PortMapping where
  hostPort : ℕ
  containerPort : ℕ
  protocol : String
  hostIp : Option String
  deriving DecidableEq

/-- `host_ip_some`. -/
def PortMapping.hostIpSome (m : PortMapping) : Option String := m.hostIp.filter (· ≠ "")

/-- `PortmapConf`, as far as it is consumed. -/
structure PortmapConf where
  prevResult : Option CniResult
  portMappings : List PortMapping

def PortMapping.decode (j : Json) : Option PortMapping :=
  match j.fields [⟨["hostPort", "HostPort"], false⟩, ⟨["containerPort", "ContainerPort"], false⟩,
      ⟨["protocol", "Protocol"], true⟩, ⟨["hostIP", "HostIP", "hostIp"], true⟩] with
  | some [hostPort, containerPort, protocol, hostIp] => do
    return {
      hostPort := ← required (Json.decodeUnsigned (2 ^ 16)) hostPort
      containerPort := ← required (Json.decodeUnsigned (2 ^ 16)) containerPort
      protocol := ← defaulted "tcp" Json.decodeString protocol
      hostIp := ← defaulted none (Json.decodeOption Json.decodeString) hostIp }
  | _ => none

/-- `RuntimeConfig`, which has one field. -/
def decodeRuntimeConfig (j : Json) : Option (List PortMapping) :=
  match j.fields [⟨["portMappings"], true⟩] with
  | some [portMappings] => defaulted [] (Json.decodeVec PortMapping.decode) portMappings
  | _ => none

def PortmapConf.decode (j : Json) : Option PortmapConf :=
  match j.fields [⟨["cniVersion"], true⟩, ⟨["prevResult"], true⟩, ⟨["runtimeConfig"], true⟩] with
  | some [cniVersion, prevResult, runtimeConfig] => do
    let _ ← defaulted "" Json.decodeString cniVersion
    return {
      prevResult := ← defaulted none (Json.decodeOption CniResult.decode) prevResult
      portMappings := ← defaulted [] decodeRuntimeConfig runtimeConfig }
  | _ => none

def PortmapConf.parse [Crates] (s : String) : Option PortmapConf :=
  (Crates.jsonFromStr s).bind PortmapConf.decode

/-- `pod_ipv4`. -/
def podIpv4 [Crates] (result : CniResult) : Option Ipv4Addr :=
  result.ips.findSome? fun ip => (Crates.parseNetwork ip.address).map Ipv4Network.ip

/-- A command is run, or there is an error before. -/
abbrev CommandRes : Command → Type := fun _ => Except String Output

abbrev TableProgram := Program Command CommandRes

abbrev IptablesProgram := ExceptT CniError TableProgram

structure Iptables where
  backend : String

namespace Iptables

def run (ipt : Iptables) (c : Command) : IptablesProgram Output := do
  match ← liftM (Program.send c : TableProgram (Except String Output)) with
  | .ok out => return out
  | .error e => throw ((CniError.new 7 ("exec " ++ ipt.backend)).withDetails e)

def ensureChain (ipt : Iptables) (chain : String) : IptablesProgram Unit := do
  let out ← ipt.run (.newChain chain)
  if out.success then return ()
  else if contains out.stderr "exists" then return ()
  else throw ((CniError.new 7 ("create chain " ++ chain)).withDetails out.stderr)

def ensureRule (ipt : Iptables) (chain : String) (rule : List String) : IptablesProgram Unit := do
  if (← ipt.run (.check chain rule)).success then return ()
  else
    let out ← ipt.run (.append chain rule)
    if out.success then return ()
    else throw ((CniError.new 7 ("append rule to " ++ chain)).withDetails out.stderr)

def insertRule (ipt : Iptables) (chain : String) (rule : List String) : IptablesProgram Unit := do
  if (← ipt.run (.check chain rule)).success then return ()
  else
    let out ← ipt.run (.insert chain rule)
    if out.success then return ()
    else throw ((CniError.new 7 ("insert rule into " ++ chain)).withDetails out.stderr)

def deleteRule (_ipt : Iptables) (chain : String) (rule : List String) : TableProgram Unit := do
  let _ ← (Program.send (.delete chain rule) : TableProgram (Except String Output))

def flushDeleteChain (_ipt : Iptables) (chain : String) : TableProgram Unit := do
  let _ ← (Program.send (.flush chain) : TableProgram (Except String Output))
  let _ ← (Program.send (.deleteChain chain) : TableProgram (Except String Output))

end Iptables

def topChain : String := "CNI-HOSTPORT-DNAT"

def setmarkChain : String := "CNI-HOSTPORT-SETMARK"

def masqChain : String := "CNI-HOSTPORT-MASQ"

def markText : String := "0x2000/0x2000"

def dnChain (containerId : String) : String :=
  "CNI-DN-" ++ String.ofList ((containerId.toList.filter Char.isAlphanum).take 16)

/-- The match on the host address, if there is one. -/
def hostIpArgs (m : PortMapping) : List String :=
  match m.hostIpSome with
  | some hostIp => ["-d", hostIp ++ "/32"]
  | none => []

def dnatArgs (m : PortMapping) (podIp : Ipv4Addr) : List String :=
  ["-p", m.protocol] ++ hostIpArgs m ++
    ["--dport", m.hostPort.repr, "-j", "DNAT", "--to-destination",
      podIp.toString ++ ":" ++ m.containerPort.repr]

def hairpinMarkArgs (m : PortMapping) (podIp : Ipv4Addr) : List String :=
  ["-p", m.protocol, "-s", podIp.toString ++ "/32"] ++ hostIpArgs m ++
    ["--dport", m.hostPort.repr, "-j", setmarkChain]

def localhostMarkArgs (m : PortMapping) : List String :=
  ["-p", m.protocol, "-s", "127.0.0.1/32", "--dport", m.hostPort.repr, "-j", setmarkChain]

def jumpArgs : List String := ["-m", "addrtype", "--dst-type", "LOCAL", "-j", topChain]

def ensureTopChains (ipt : Iptables) : IptablesProgram Unit := do
  ipt.ensureChain topChain
  ipt.insertRule "PREROUTING" jumpArgs
  ipt.insertRule "OUTPUT" jumpArgs
  ipt.ensureChain setmarkChain
  ipt.ensureRule setmarkChain ["-j", "MARK", "--set-xmark", markText]
  ipt.ensureChain masqChain
  ipt.ensureRule masqChain ["-m", "mark", "--mark", markText, "-j", "MASQUERADE"]
  ipt.insertRule "POSTROUTING" ["-j", masqChain]

/-- The rules of one mapping, in the order in which they are ensured. -/
def mappingArgs (podIp : Ipv4Addr) (m : PortMapping) : List (List String) :=
  [hairpinMarkArgs m podIp, localhostMarkArgs m, dnatArgs m podIp]

def apply (ipt : Iptables) (containerId : String) (podIp : Ipv4Addr)
    (mappings : List PortMapping) : IptablesProgram Unit := do
  let dn := dnChain containerId
  ensureTopChains ipt
  ipt.ensureChain dn
  ipt.ensureRule topChain ["-j", dn]
  mappings.forM fun m => (mappingArgs podIp m).forM (ipt.ensureRule dn)

def remove (ipt : Iptables) (containerId : String) : TableProgram Unit := do
  let dn := dnChain containerId
  ipt.deleteRule topChain ["-j", dn]
  ipt.flushDeleteChain dn

variable [Crates]

/-- `cmd_add`, with the backend that was detected. -/
def cmdAdd (ipt : Iptables) (args : CniArgs) (stdin : String) : IptablesProgram String := do
  match PortmapConf.parse stdin with
  | none => throw ((CniError.new 6 "decode config").withDetails (Crates.jsonError "PortmapConf" stdin))
  | some conf =>
    match conf.prevResult with
    | none => throw (.new 7 "portmap requires prevResult")
    | some prev =>
      if conf.portMappings ≠ [] then
        match podIpv4 prev with
        | none => throw (.new 7 "no IPv4 in prevResult")
        | some podIp => apply ipt args.containerId podIp conf.portMappings
      return prev.toJson

/-- `cmd_del`, with the backend that was detected. -/
def cmdDel (ipt : Iptables) (args : CniArgs) (stdin : String) : IptablesProgram String := do
  match PortmapConf.parse stdin with
  | some conf => if conf.portMappings = [] then return ""
  | none => pure ()
  liftM (remove ipt args.containerId)
  return ""

end FlannelRs.Portmap
