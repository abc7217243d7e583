import FlannelRs.CniTypes
import FlannelRs.FileSystem

/-!
# The `host-local` IPAM plugin

The allocator (`alloc.rs`) is pure. The lease store (`store.rs`) is a directory: a lease is a file
named by its address, the cursor and the lock are files beside the leases. The commands are those
of `command.rs` and `main.rs`.
-/

namespace FlannelRs.HostLocal
open InteractionPrograms FileSystem Ipv4Addresses RustText CniTypes

/-- `Allocator`: a subnet and its gateway, which is never handed out. -/
structure Allocator where
  net : Ipv4Network
  gateway : Ipv4Addr

/-- `wrapping_add` of one to the network address. -/
def firstUsable (net : Ipv4Network) : Ipv4Addr := .ofNat (net.network.toNat + 1)

def Allocator.new (net : Ipv4Network) (gateway : Option Ipv4Addr) : Allocator :=
  ⟨net, gateway.getD (firstUsable net)⟩

def Allocator.usableHosts (a : Allocator) : List Ipv4Addr :=
  a.net.iter.filter fun ip => ip ≠ a.net.network ∧ ip ≠ a.net.broadcast ∧ ip ≠ a.gateway

theorem Allocator.nodup_usableHosts (a : Allocator) : a.usableHosts.Nodup :=
  a.net.nodup_iter.filter _

/-- The usable hosts are the addresses of the subnet but for three. -/
theorem Allocator.mem_usableHosts {a : Allocator} {ip : Ipv4Addr} : ip ∈ a.usableHosts ↔
    a.net.contains ip = true ∧ ip ≠ a.net.network ∧ ip ≠ a.net.broadcast ∧ ip ≠ a.gateway := by
  rw [usableHosts, List.mem_filter, Ipv4Network.mem_iter, decide_eq_true_eq]

/-- `Allocator::next_ip`. The set of leased addresses is given by its members. -/
def Allocator.nextIp (a : Allocator) (leased : List Ipv4Addr) (last : Option Ipv4Addr) :
    Option Ipv4Addr :=
  let hosts := a.usableHosts
  if hosts.isEmpty then none
  else
    let start := match last with
      | some l => ((hosts.idxOf? l).map (· + 1)).getD 0
      | none => 0
    (List.range hosts.length).findSome? fun k =>
      (hosts[(start + k) % hosts.length]?).bind fun ip =>
        if ip ∈ leased then none else some ip

/-- What is handed out is a usable host that is not leased. -/
theorem Allocator.nextIp_spec {a : Allocator} {leased : List Ipv4Addr}
    {last : Option Ipv4Addr} {ip : Ipv4Addr} (h : a.nextIp leased last = some ip) :
    ip ∈ a.usableHosts ∧ ip ∉ leased := by
  simp only [Allocator.nextIp] at h
  split at h
  · cases h
  · obtain ⟨k, -, hk⟩ := List.exists_of_findSome?_eq_some h
    obtain ⟨host, hget, hip⟩ := Option.bind_eq_some_iff.mp hk
    split at hip
    · cases hip
    · rename_i hfree
      obtain rfl := Option.some.inj hip
      exact ⟨List.mem_of_getElem? hget, hfree⟩

structure Store where
  dir : String

namespace Store

def new (dataDir network : String) : IoProgram Store := do
  let dir := joinPath dataDir network
  createDirAll dir
  return ⟨dir⟩

def lock (s : Store) : IoProgram Unit := do
  createFile s.dir "lock"
  lockExclusive s.dir "lock"

def leased (s : Store) : IoProgram (List Ipv4Addr) := do
  let names ← readDir s.dir
  return names.filterMap parseIpv4

def lastReserved (s : Store) : FsProgram (Option Ipv4Addr) := do
  match ← (readToString s.dir "last_reserved_ip.0").run with
  | .ok t => return parseIpv4 (trim t)
  | .error _ => return none

/-- The contents of the lease file of an attachment. -/
def leaseText (containerId ifname : String) : String := containerId ++ "\n" ++ ifname

def reserve (s : Store) (ip : Ipv4Addr) (containerId ifname : String) : IoProgram Unit := do
  write s.dir ip.toString (leaseText containerId ifname)
  write s.dir "last_reserved_ip.0" ip.toString

/-- `read_to_string(..).unwrap_or_default()`. -/
def readOrDefault (s : Store) (name : String) : FsProgram String := do
  match ← (readToString s.dir name).run with
  | .ok t => return t
  | .error _ => return ""

/-- One round of the loop in `release`. -/
def releaseEntry (s : Store) (containerId ifname name : String) : IoProgram Unit := do
  if (parseIpv4 name).isNone then return
  let content ← s.readOrDefault name
  let cid := (lines content)[0]?.getD ""
  let ifn := (lines content)[1]?.getD ""
  if cid = containerId ∧ ifn = ifname then
    removeFile s.dir name

def release (s : Store) (containerId ifname : String) : IoProgram Unit := do
  let names ← readDir s.dir
  names.forM (s.releaseEntry containerId ifname)

/-- The loop in `has`, which ends at the first match. -/
def hasLoop (s : Store) (containerId ifname : String) : List String → IoProgram Bool
  | [] => return false
  | name :: rest => do
    if (parseIpv4 name).isNone then s.hasLoop containerId ifname rest
    else
      let content ← s.readOrDefault name
      if (lines content)[0]? = some containerId ∧ (lines content)[1]? = some ifname then
        return true
      else s.hasLoop containerId ifname rest

def has (s : Store) (containerId ifname : String) : IoProgram Bool := do
  let names ← readDir s.dir
  s.hasLoop containerId ifname names

end Store

variable [Crates]

/-- A plugin's result around file operations. -/
abbrev CniProgram := ExceptT CniError FsProgram

def orError {α : Type} (x : IoProgram α) (e : CniError) : CniProgram α :=
  ExceptT.mk do
    match ← x.run with
    | .ok a => return .ok a
    | .error io => return .error (e.withDetails io.text)

omit [Crates] in
theorem run_orError_bind {α β : Type} (x : IoProgram α) (e : CniError) (f : α → CniProgram β) :
    (orError x e >>= f).run = x.run >>= fun r => match r with
      | .ok a => (f a).run
      | .error io => .ret (.error (e.withDetails io.text)) := by
  refine (Program.bind_assoc _ _ _).trans ?_
  congr 1
  funext r
  cases r <;> rfl

/-- The body runs under the lock, which is dropped when the command returns. -/
def withLock {α : Type} (s : Store) (body : CniProgram α) : CniProgram α := do
  orError s.lock (.new 11 "failed to lock data dir")
  ExceptT.mk do
    let r ← body.run
    let _ ← (unlock s.dir "lock").run
    return r

def defaultDataDir : String := "/var/lib/cni/networks"

def load (stdin : String) : Except CniError NetConf :=
  match NetConf.parse stdin with
  | some nc => .ok nc
  | none => .error ((CniError.new 6 "failed to decode network config").withDetails
      (Crates.jsonError "NetConf" stdin))

def allocatorFor (nc : NetConf) : Except CniError Allocator :=
  match nc.ipam.ranges.head?.bind List.head? with
  | none => .error (.new 7 "ipam.ranges is empty")
  | some range =>
    match Crates.parseNetwork range.subnet with
    | none => .error (.new 7 ("invalid subnet " ++ range.subnet))
    | some net =>
      -- a wide range would materialize a huge host set
      if net.len < 16 then
        .error (.new 7 ("subnet " ++ range.subnet ++ " too large (min prefix /16)"))
      else
        match range.gateway with
        | none => .ok (.new net none)
        | some g =>
          match parseIpv4 g with
          | some gw => .ok (.new net (some gw))
          | none => .error (.new 7 ("invalid gateway " ++ g))

def storeFor (nc : NetConf) : CniProgram Store :=
  orError (Store.new (nc.ipam.dataDir.getD defaultDataDir) nc.name)
    (.new 5 "failed to open data dir")

/-- The result that `cmd_add` prints. -/
def addResult (nc : NetConf) (alloc : Allocator) (ip : Ipv4Addr) : CniResult where
  cniVersion := if nc.cniVersion = "" then "0.3.1" else nc.cniVersion
  ips := [{
    version := "4"
    address := ip.toString ++ "/" ++ alloc.net.len.repr
    gateway := some alloc.gateway.toString }]
  routes := nc.ipam.routes

/-- `cmd_add` from the moment the lock is held. -/
def addLocked (args : CniArgs) (nc : NetConf) (alloc : Allocator) (store : Store) :
    CniProgram String := do
  let leased ← orError store.leased (.new 5 "read leases")
  let last ← store.lastReserved
  match alloc.nextIp leased last with
  | none => throw (.new 7 "no IP addresses available in range")
  | some ip =>
    orError (store.reserve ip args.containerId args.ifname) (.new 5 "write lease")
    return (addResult nc alloc ip).toJson

def cmdAdd (args : CniArgs) (stdin : String) : CniProgram String := do
  let nc ← ExceptT.mk (pure (load stdin))
  let alloc ← ExceptT.mk (pure (allocatorFor nc))
  let store ← storeFor nc
  withLock store (addLocked args nc alloc store)

def cmdDel (args : CniArgs) (stdin : String) : CniProgram String := do
  let nc ← ExceptT.mk (pure (load stdin))
  let store ← storeFor nc
  withLock store do
    orError (store.release args.containerId args.ifname) (.new 5 "release lease")
    return ""

def cmdCheck (args : CniArgs) (stdin : String) : CniProgram String := do
  let nc ← ExceptT.mk (pure (load stdin))
  let store ← storeFor nc
  if ← orError (store.has args.containerId args.ifname) (.new 5 "check lease") then
    return ""
  else throw (.new 7 "no allocation found for container")

/-- `run`, once the arguments and the standard input are read. -/
def run (args : CniArgs) (stdin : String) : CniProgram String :=
  if args.command = "VERSION" then return versionResult
  else if args.command = "ADD" then cmdAdd args stdin
  else if args.command = "DEL" then cmdDel args stdin
  else if args.command = "CHECK" then cmdCheck args stdin
  else throw (.new 4 ("unknown CNI_COMMAND " ++ args.command))

theorem run_add {args : CniArgs} (h : args.command = "ADD") (stdin : String) :
    run args stdin = cmdAdd args stdin := by
  simp [run, h]

theorem run_del {args : CniArgs} (h : args.command = "DEL") (stdin : String) :
    run args stdin = cmdDel args stdin := by
  simp [run, h]

end FlannelRs.HostLocal
