import FlannelRs.DelegateIpam
import FlannelRs.ExclusiveLeases
import FlannelRs.FlanneldBootstrap
import FlannelRs.FlannelTeardown
import FlannelRs.LeaseRequests

/-!
# The addresses of a cluster

On every node `flanneld` takes the address of `flannel.1` from the PodCIDR and writes the
PodCIDR to `subnet.env`, the `flannel` plugin makes a range of it, `host-local` leases the
addresses of the range and `bridge` takes its own address from what `host-local` prints.
-/

namespace FlannelRs.ClusterAddresses
open InteractionPrograms ProcessPools FileSystem Ipv4Addresses RustText CniTypes HostLocal
open FlannelPlugin DelegateIpam
open LeaseStores (Attachment lease LeadsTo)
open LeaseRequests (Asks Local Allocates local_run)
open ExclusiveLeases (Job Shared Event holder Exclusive attachment)
open FlanneldBootstrap (OwnNode Bootstrap tryBootstrap tryBootstrap_ok parse_env)
open SubnetEnvFiles (PlainNetworks)

section

variable [Crates]

/-- A node of the cluster: what `flanneld` reads, and the configurations that the runtime
gives the `flannel` plugin. They are those of one network, and the JSON that the plugin
prints of them is read back. -/
structure ClusterNode where
  raw : String
  own : OwnNode
  linkMtu : Option { n : ℕ // n < 2 ^ 32 }
  cidr : Ipv4Network
  confs : String → Prop
  network : String
  podCidr_eq : Crates.parseNetwork own.podCidr = some cidr
  len_ge : 16 ≤ cidr.len
  len_le : cidr.len ≤ 30
  named : ∀ stdin conf, confs stdin → FlannelConf.parse stdin = some conf → conf.name = network
  readsBack : ∀ stdin conf env, confs stdin → FlannelConf.parse stdin = some conf →
    ReadsBack (.ofMap (buildDelegate conf env))

namespace ClusterNode

def boot (n : ClusterNode) : Option Bootstrap := (tryBootstrap n.raw n.own n.linkMtu).toOption

/-- The directory of the leases. -/
def dir (n : ClusterNode) : String := joinPath defaultDataDir n.network

/-- The file `subnet.env` may not be there yet. -/
def Offers (n : ClusterNode) (files : String → Option String) : Prop :=
  ∀ text, files subnetEnvPath = some text → ∃ b, n.boot = some b ∧ text = b.env.render

/-- `host-local` is run with what the `flannel` plugin prints. Its ADD belongs to an ADD of
the plugin, its DEL may also take back what an ADD has done. -/
def Feeds (n : ClusterNode) (j : Job) : Prop :=
  ∃ stdin files command kind, n.confs stdin ∧ n.Offers files ∧
    delegateJson files stdin command = .ok (kind, j.2) ∧
    (j.1.command = "ADD" → command = "ADD")

end ClusterNode

/-- The leases of a node, and the addresses that were given to its bridge. -/
structure NodeState where
  shared : Shared
  gateways : List Ipv4Addr

/-- The address that `bridge` takes from the result of an ADD. -/
def assigned (j : Job) : Except CniError String → Option Ipv4Addr
  | .ok out =>
    if j.1.command = "ADD" then
      ((CniResult.parse out).bind Bridge.bridgeGateway).map Prod.fst
    else none
  | .error _ => none

/-- The processes of `host-local` on a node. -/
def nodeSystem (n : ClusterNode) :
    System NodeState ℕ Job FsOp FsRes (Except CniError String) where
  code _ j := (HostLocal.run j.1 j.2).run
  start _ j s s' := (attachment j).Valid ∧ n.Feeds j ∧ s' = s
  answers p j s o r s' := (ExclusiveLeases.system n.dir).answers p j s.shared o r s'.shared ∧
    s'.gateways = s.gateways
  finish _ j a s s' := s'.shared = s.shared ∧ s'.gateways = (assigned j a).toList ++ s.gateways

abbrev NodeConfig := Config NodeState ℕ Job FsOp FsRes (Except CniError String)

/-- No process runs, no address is leased and the bridge has no address. -/
structure Initial (n : ClusterNode) (c : NodeConfig) : Prop where
  shared : ExclusiveLeases.Initial n.dir ⟨c.state.shared, c.busy⟩
  gateways : c.state.gateways = []

/-- Who may have an address in a cluster of nodes `N`. -/
inductive Owner (N : Type) where
  | pod (n : N) (o : Attachment)
  | vtep (n : N)
  | bridge (n : N)

/-- The address was handed to the attachment, which was not deleted since. -/
def Holds (log : List Event) (o : Attachment) (ip : Ipv4Addr) : Prop :=
  ∃ later earlier, log = later ++ .handed ip o :: earlier ∧ .deleted o ∉ later

/-- The owners of an address. -/
def Has {N : Type} (nodes : N → ClusterNode) (d : N → NodeConfig) :
    Owner N → Ipv4Addr → Prop
  | .pod n o, ip => Holds (d n).state.shared.log o ip
  | .vtep n, ip => (nodes n).boot.bind Bootstrap.vtepIp = some ip
  | .bridge n, ip => ip ∈ (d n).state.gateways

end

/-- An address has one holder. -/
theorem Holds.holder {log : List Event} {o : Attachment} {ip : Ipv4Addr} (h : Holds log o ip)
    (hlog : Exclusive log) : holder log ip = some o := by
  obtain ⟨later, earlier, rfl, hdeleted⟩ := h
  by_contra hne
  exact hdeleted (hlog.deleted_between hne)

theorem holds_of_holder {log : List Event} {o : Attachment} {ip : Ipv4Addr}
    (h : holder log ip = some o) : Holds log o ip := by
  induction log with
  | nil => cases h
  | cons e log ih =>
    cases e with
    | handed x q =>
      by_cases hx : x = ip
      · subst hx
        obtain rfl : q = o := by simpa [holder] using h
        exact ⟨[], log, rfl, List.not_mem_nil⟩
      · obtain ⟨later, earlier, rfl, hdeleted⟩ := ih (by simpa [holder, hx] using h)
        exact ⟨.handed x q :: later, earlier, rfl, by simpa using hdeleted⟩
    | deleted q =>
      rw [holder, Option.filter_eq_some_iff] at h
      obtain ⟨later, earlier, rfl, hdeleted⟩ := ih h.1
      have hne : o ≠ q := by simpa using h.2
      exact ⟨.deleted q :: later, earlier, rfl, by simp [hne, hdeleted]⟩

theorem Holds.handed {log : List Event} {o : Attachment} {ip : Ipv4Addr} (h : Holds log o ip) :
    .handed ip o ∈ log := by
  obtain ⟨later, earlier, rfl, -⟩ := h
  simp

section

variable {net : Ipv4Network}

theorem four_le_size (h : net.len ≤ 30) : 4 ≤ net.size := by
  have hpow : 2 ^ 2 ≤ 2 ^ (32 - net.len) := Nat.pow_le_pow_right (by decide) (by omega)
  exact hpow

theorem toNat_firstUsable (h : net.len ≤ 30) :
    (firstUsable net).toNat = net.network.toNat + 1 :=
  Ipv4Addr.toNat_ofNat (net.network_add_lt (by have := four_le_size h; omega))

/-- The gateway is an address of the subnet, and neither its first nor its last one. -/
theorem firstUsable_inside (h : net.len ≤ 30) : net.contains (firstUsable net) = true ∧
    firstUsable net ≠ net.network ∧ firstUsable net ≠ net.broadcast := by
  have hsize := four_le_size h
  have hfirst := toNat_firstUsable h
  have hlast : net.broadcast.toNat = net.network.toNat + (net.size - 1) := rfl
  refine ⟨Ipv4Network.contains_of_offset hfirst (by omega), fun he => ?_, fun he => ?_⟩
  · rw [he] at hfirst
    omega
  · rw [he] at hfirst
    omega

end

section

variable [Crates] {n : ClusterNode} {j : Job}

theorem boot_eq_some {b : Bootstrap} (h : n.boot = some b) :
    tryBootstrap n.raw n.own n.linkMtu = .ok b := by
  unfold ClusterNode.boot at h
  cases hb : tryBootstrap n.raw n.own n.linkMtu with
  | error e =>
    rw [hb] at h
    cases h
  | ok b' =>
    rw [hb] at h
    rw [Option.some.inj h]

/-- The address of `flannel.1` is the first of the subnet. -/
theorem vtepIp_eq {ip : Ipv4Addr} (h : n.boot.bind Bootstrap.vtepIp = some ip) :
    ip = n.cidr.network := by
  obtain ⟨b, hb, hip⟩ := Option.bind_eq_some_iff.mp h
  obtain ⟨cidr, hcidr, hgateway, -⟩ := tryBootstrap_ok (boot_eq_some hb)
  obtain rfl := Option.some.inj (hcidr.symm.trans n.podCidr_eq)
  rw [← hgateway]
  unfold Bootstrap.vtepIp at hip
  split at hip
  · exact (Option.some.inj hip).symm
  · cases hip

/-- What `host-local` reads on a node. -/
theorem feeds_netConf (hplain : PlainNetworks) (h : n.Feeds j) :
    ∃ stdin conf env, n.confs stdin ∧ FlannelConf.parse stdin = some conf ∧
      NetConf.parse j.2 = some (nodeNetConf conf env) ∧
      (j.1.command = "ADD" → ∃ b, n.boot = some b ∧ env = b.env.read) := by
  obtain ⟨stdin, files, command, kind, hgiven, hoffers, hjson, hadd⟩ := h
  unfold delegateJson resolveDelegate at hjson
  cases hconf : FlannelConf.parse stdin with
  | none => simp [hconf] at hjson
  | some conf =>
    cases henv : envFor ((files subnetEnvPath).bind FlannelPlugin.SubnetEnv.parse) command with
    | none => simp [hconf, henv] at hjson
    | some env =>
      simp only [hconf, henv] at hjson
      obtain ⟨-, hprinted⟩ := Prod.mk.inj (Except.ok.inj hjson)
      have hread := n.readsBack stdin conf env hgiven hconf
      refine ⟨stdin, conf, env, hgiven, hconf, ?_, fun hj => ?_⟩
      · rw [← hprinted]
        exact parse_buildDelegate hread
      · obtain rfl := hadd hj
        have hsome : (files subnetEnvPath).bind FlannelPlugin.SubnetEnv.parse = some env := by
          unfold envFor at henv
          split at henv
          · rename_i e he
            rw [he, Option.some.inj henv]
          · simp at henv
        obtain ⟨text, htext, hparse⟩ := Option.bind_eq_some_iff.mp hsome
        obtain ⟨b, hb, rfl⟩ := hoffers text htext
        rw [parse_env hplain (boot_eq_some hb)] at hparse
        exact ⟨b, hb, (Option.some.inj hparse).symm⟩

/-- The range of the node has no gateway, so `host-local` takes the first address for it. -/
theorem feeds_allocator (hplain : PlainNetworks) (h : n.Feeds j) (hadd : j.1.command = "ADD")
    {nc : NetConf} {alloc : Allocator} (hnc : NetConf.parse j.2 = some nc)
    (halloc : allocatorFor nc = .ok alloc) : alloc = Allocator.new n.cidr none := by
  obtain ⟨-, conf, env, -, -, hparse, henv⟩ := feeds_netConf hplain h
  obtain ⟨b, hb, rfl⟩ := henv hadd
  obtain rfl := Option.some.inj (hnc.symm.trans hparse)
  obtain ⟨-, -, -, hsubnet, -⟩ := tryBootstrap_ok (boot_eq_some hb)
  have hrange : Crates.parseNetwork b.env.read.subnet = some n.cidr := by
    rw [SubnetEnvFiles.SubnetEnv.read, hsubnet]
    exact n.podCidr_eq
  have hlen : ¬ n.cidr.len < 16 := Nat.not_lt.mpr n.len_ge
  simp only [allocatorFor, nodeNetConf, List.head?_cons, Option.bind_some, hrange, if_neg hlen]
    at halloc
  exact (Except.ok.inj halloc).symm

/-- What the plugin prints in its ADD. -/
theorem printed_feeds {stdin : String} {files : String → Option String} (hgiven : n.confs stdin)
    (hoffers : n.Offers files) (h : (delegateJson files stdin "ADD").toOption.isSome = true)
    (args : CniArgs) :
    n.Feeds (args, ((delegateJson files stdin "ADD").toOption.map Prod.snd).getD "") := by
  cases hjson : delegateJson files stdin "ADD" with
  | error e =>
    rw [hjson] at h
    cases h
  | ok out => exact ⟨stdin, files, "ADD", out.1, hgiven, hoffers, hjson, fun _ => rfl⟩

theorem feeds_leadsTo (hplain : PlainNetworks) (h : n.Feeds j) : LeadsTo j.2 n.dir := by
  obtain ⟨stdin, conf, env, hgiven, hconf, hparse, -⟩ := feeds_netConf hplain h
  intro nc hnc
  obtain rfl := Option.some.inj (hnc.symm.trans hparse)
  rw [ClusterNode.dir, ← n.named stdin conf hgiven hconf]
  rfl

/-- The addresses that `host-local` hands out. -/
def Usable (n : ClusterNode) (ip : Ipv4Addr) : Prop :=
  ip ∈ (Allocator.new n.cidr none).usableHosts

theorem Usable.inside {ip : Ipv4Addr} (h : Usable n ip) : n.cidr.contains ip = true ∧
    ip ≠ n.cidr.network ∧ ip ≠ n.cidr.broadcast ∧ ip ≠ firstUsable n.cidr :=
  Allocator.mem_usableHosts.mp h

structure NodeInv (n : ClusterNode) (c : NodeConfig) : Prop where
  running : ∀ p j prog, c.busy p = some (j, prog) →
    n.Feeds j ∧ prog.Uses (Asks n.dir (attachment j) (Usable n))
  handed : ∀ ip o, .handed ip o ∈ c.state.shared.log → Usable n ip
  gateways : ∀ ip ∈ c.state.gateways, ip = firstUsable n.cidr

/-- A process of the node goes on, or ends. -/
theorem NodeInv.goOn {c : NodeConfig} {p : ℕ} {s : NodeState}
    {b : Option (Job × FsProgram (Except CniError String))} (h : NodeInv n c)
    (hb : ∀ j prog, b = some (j, prog) →
      n.Feeds j ∧ prog.Uses (Asks n.dir (attachment j) (Usable n)))
    (hhanded : ∀ ip o, .handed ip o ∈ s.shared.log → Usable n ip)
    (hgateways : ∀ ip ∈ s.gateways, ip = firstUsable n.cidr) : NodeInv n (c.goOn p s b) := by
  refine ⟨fun q j prog hq => ?_, hhanded, hgateways⟩
  by_cases hqp : q = p
  · subst hqp
    rw [Config.goOn_busy_self] at hq
    exact hb j prog hq
  · rw [Config.goOn_busy_other c hqp] at hq
    exact h.running q j prog hq

/-- What is asked for is handed out. -/
theorem usable_of_record {o : FsOp} (ho : Asks n.dir (attachment j) (Usable n) o)
    {ip : Ipv4Addr} {q : Attachment} (h : .handed ip q ∈ ExclusiveLeases.record j o) :
    Usable n ip := by
  cases o with
  | write d name text =>
    simp only [ExclusiveLeases.record] at h
    split at h
    · simp only [Option.mem_toList, Option.map_eq_some_iff] at h
      obtain ⟨x, hx, he⟩ := h
      obtain ⟨rfl, -⟩ := Event.handed.inj he
      obtain ⟨-, ⟨rfl, -⟩ | ⟨y, hy, rfl, -⟩⟩ := ho
      · have hnone : parseIpv4 "last_reserved_ip.0" = none := by decide
        rw [hnone] at hx
        cases hx
      · rw [Ipv4Addr.parseIpv4_toString] at hx
        rwa [← Option.some.inj hx]
    · cases h
  | unlock d name =>
    simp only [ExclusiveLeases.record] at h
    split at h <;> simp at h
  | _ => cases h

/-- The bridge gets the first address after that of the network. -/
theorem assigned_eq (hc : Crates.Lawful) (hplain : PlainNetworks) (h : n.Feeds j)
    {a : Except CniError String} {s : Shared} (hdone : ExclusiveLeases.Outcome j a s)
    {ip : Ipv4Addr} (hip : assigned j a = some ip) : ip = firstUsable n.cidr := by
  cases a with
  | error e => cases hip
  | ok out =>
    simp only [assigned] at hip
    split at hip
    · rename_i hadd
      obtain ⟨nc, alloc, x, hnc, halloc, rfl, -⟩ := hdone hadd out rfl
      obtain rfl := feeds_allocator hplain h hadd hnc halloc
      rw [CniResult.parse_toJson hc, Option.bind_some] at hip
      simp only [Bridge.bridgeGateway, addResult, List.head?_cons, Allocator.new,
        Option.getD_none] at hip
      simpa using hip.symm
    · cases hip

variable (hc : Crates.Lawful) (hplain : PlainNetworks)

include hplain

/-- The leases of a node are those of a pool on its directory. -/
theorem reachable_shared {c d : NodeConfig} (h : (nodeSystem n).Reachable c d) :
    (ExclusiveLeases.system n.dir).Reachable ⟨c.state.shared, c.busy⟩
      ⟨d.state.shared, d.busy⟩ := by
  refine h.project NodeState.shared rfl ?_ ?_ ?_
  · rintro p j s s' ⟨hvalid, hfeeds, rfl⟩
    exact ⟨⟨hvalid, feeds_leadsTo hplain hfeeds⟩, rfl⟩
  · exact fun p j s o r s' h => h.1
  · exact fun p j a s s' h => h.1

include hc

theorem nodeInv {c d : NodeConfig} (hinitial : Initial n c)
    (h : (nodeSystem n).Reachable c d) : NodeInv n d := by
  induction h with
  | here =>
    refine ⟨fun p j prog hp => ?_, fun ip o ho => ?_, fun ip hip => ?_⟩
    · rw [hinitial.shared.idle p] at hp
      cases hp
    · rw [hinitial.shared.log] at ho
      cases ho
    · rw [hinitial.gateways] at hip
      cases hip
  | @step d e p j run act ih =>
    obtain ⟨hi₀, hs₀⟩ := ExclusiveLeases.initial_stands hinitial.shared
    obtain ⟨hi, hs⟩ := (ExclusiveLeases.verified n.dir).reachable hi₀ hs₀
      (reachable_shared hplain run)
    cases act with
    | start idle act =>
      obtain ⟨-, hfeeds, rfl⟩ := act
      refine ih.goOn (fun j' prog hb => ?_) ih.handed ih.gateways
      obtain ⟨rfl, rfl⟩ := Prod.mk.inj (Option.some.inj hb)
      refine ⟨hfeeds, local_run (feeds_leadsTo hplain hfeeds) fun hadd nc alloc hnc halloc => ?_⟩
      obtain rfl := feeds_allocator hplain hfeeds hadd hnc halloc
      exact fun ip hip => hip
    | request turn act =>
      obtain ⟨hfeeds, huses⟩ := ih.running _ _ _ turn
      obtain ⟨⟨-, hlog⟩, hgateways⟩ := act
      refine ih.goOn (fun j' prog hb => ?_) (fun ip o ho => ?_) (hgateways ▸ ih.gateways)
      · obtain ⟨rfl, rfl⟩ := Prod.mk.inj (Option.some.inj hb)
        exact ⟨hfeeds, huses.2 _⟩
      · rw [hlog] at ho
        rcases List.mem_append.mp ho with ho | ho
        · exact usable_of_record huses.1 ho
        · exact ih.handed ip o ho
    | @finish _ _ _ s a done act =>
      obtain ⟨hfeeds, -⟩ := ih.running _ _ _ done
      obtain ⟨hshared, hgateways⟩ := act
      have hsafe := hs p
      simp only [Stands, done] at hsafe
      have houtcome : ExclusiveLeases.Outcome j a d.state.shared :=
        hsafe _ ((ExclusiveLeases.contract n.dir).rely_refl _ _) hi
      refine ih.goOn (fun j' prog hb => by cases hb) (hshared ▸ ih.handed) fun ip hip => ?_
      rw [hgateways] at hip
      rcases List.mem_append.mp hip with hip | hip
      · exact assigned_eq hc hplain hfeeds houtcome (by simpa using hip)
      · exact ih.gateways ip hip

omit hc in
/-- The log of a node, and what it says of the lease files. -/
theorem leases_of_reachable {c d : NodeConfig} (hinitial : Initial n c)
    (h : (nodeSystem n).Reachable c d) : ExclusiveLeases.Inv n.dir d.state.shared := by
  obtain ⟨hi₀, hs₀⟩ := ExclusiveLeases.initial_stands hinitial.shared
  exact ((ExclusiveLeases.verified n.dir).reachable hi₀ hs₀ (reachable_shared hplain h)).1

omit hc hplain in
/-- The node of an owner. -/
def Owner.node {N : Type} : Owner N → N
  | .pod n _ => n
  | .vtep n => n
  | .bridge n => n

omit hc hplain in
/-- Where the addresses of an owner come from. -/
def Place {N : Type} (nodes : N → ClusterNode) (d : N → NodeConfig) (ip : Ipv4Addr) :
    Owner N → Prop
  | .pod n o => Usable (nodes n) ip ∧ holder (d n).state.shared.log ip = some o
  | .vtep n => ip = (nodes n).cidr.network
  | .bridge n => ip = firstUsable (nodes n).cidr

theorem place_of_has {N : Type} {nodes : N → ClusterNode} {c d : N → NodeConfig}
    (hinitial : ∀ n, Initial (nodes n) (c n))
    (h : ∀ n, (nodeSystem (nodes n)).Reachable (c n) (d n)) {w : Owner N} {ip : Ipv4Addr}
    (hw : Has nodes d w ip) : Place nodes d ip w := by
  cases w with
  | pod n o =>
    have hlog := (leases_of_reachable hplain (hinitial n) (h n)).exclusive
    exact ⟨(nodeInv hc hplain (hinitial n) (h n)).handed ip o hw.handed, hw.holder hlog⟩
  | vtep n => exact vtepIp_eq hw
  | bridge n => exact (nodeInv hc hplain (hinitial n) (h n)).gateways ip hw

theorem has_inside {N : Type} {nodes : N → ClusterNode} {c d : N → NodeConfig}
    (hinitial : ∀ n, Initial (nodes n) (c n))
    (h : ∀ n, (nodeSystem (nodes n)).Reachable (c n) (d n)) {w : Owner N} {ip : Ipv4Addr}
    (hw : Has nodes d w ip) :
    (nodes w.node).cidr.contains ip = true ∧ ip ≠ (nodes w.node).cidr.broadcast := by
  have hplace := place_of_has hc hplain hinitial h hw
  cases w with
  | pod n o => exact ⟨hplace.1.inside.1, hplace.1.inside.2.2.1⟩
  | vtep n =>
    obtain rfl : ip = (nodes n).cidr.network := hplace
    have hsize := four_le_size (nodes n).len_le
    refine ⟨(nodes n).cidr.contains_network, fun he => ?_⟩
    have hlast : (nodes n).cidr.broadcast.toNat =
        (nodes n).cidr.network.toNat + ((nodes n).cidr.size - 1) := rfl
    change (nodes n).cidr.network = (nodes n).cidr.broadcast at he
    rw [← he] at hlast
    omega
  | bridge n =>
    obtain rfl : ip = firstUsable (nodes n).cidr := hplace
    obtain ⟨hin, -, hlast⟩ := firstUsable_inside (nodes n).len_le
    exact ⟨hin, hlast⟩

/-- In every run of a cluster whose PodCIDRs do not overlap, no address has two owners: not
two pods, and not a pod, a `flannel.1` or a bridge and another of these. The address of a
pod and of a bridge is one of its node's PodCIDR, but not the broadcast address, that of
`flannel.1` is the first one of the PodCIDR, and each lease file is that of a pod. -/
theorem cluster_addresses {N : Type} [DecidableEq N] (nodes : N → ClusterNode)
    (hdisjoint : ∀ m n, m ≠ n → ∀ ip, (nodes m).cidr.contains ip = true →
      (nodes n).cidr.contains ip = false)
    {c d : N → NodeConfig} (hinitial : ∀ n, Initial (nodes n) (c n))
    (hrun : System.Beside (fun n => nodeSystem (nodes n)) c d) :
    (∀ w w' ip, Has nodes d w ip → Has nodes d w' ip → w = w') ∧
    (∀ n o ip, Has nodes d (.pod n o) ip →
      (nodes n).cidr.contains ip = true ∧ ip ≠ (nodes n).cidr.broadcast) ∧
    (∀ n ip, Has nodes d (.bridge n) ip →
      (nodes n).cidr.contains ip = true ∧ ip ≠ (nodes n).cidr.broadcast) ∧
    (∀ n ip, Has nodes d (.vtep n) ip → ip = (nodes n).cidr.network) ∧
    ∀ n ip, lease (nodes n).dir (d n).state.shared.fs ip ≠ none →
      ∃ o, Has nodes d (.pod n o) ip := by
  have h : ∀ n, (nodeSystem (nodes n)).Reachable (c n) (d n) := fun n => hrun.reachable n
  refine ⟨fun w w' ip hw hw' => ?_, fun n o ip hw => has_inside hc hplain hinitial h hw,
    fun n ip hw => has_inside hc hplain hinitial h hw,
    fun n ip hw => place_of_has hc hplain hinitial h hw, fun n ip hl => ?_⟩
  · have hnode : w.node = w'.node := by
      by_contra hne
      have hin := (has_inside hc hplain hinitial h hw).1
      have hin' := (has_inside hc hplain hinitial h hw').1
      rw [hdisjoint _ _ hne ip hin] at hin'
      cases hin'
    have hplace := place_of_has hc hplain hinitial h hw
    have hplace' := place_of_has hc hplain hinitial h hw'
    have hfirst := fun n => (firstUsable_inside (nodes n).len_le).2.1
    cases w with
    | pod n o =>
      obtain ⟨-, hnetwork, -, hgateway⟩ := hplace.1.inside
      cases w' with
      | pod m q =>
        obtain rfl : n = m := hnode
        rw [Option.some.inj (hplace.2.symm.trans hplace'.2)]
      | vtep m =>
        obtain rfl : n = m := hnode
        exact absurd hplace' hnetwork
      | bridge m =>
        obtain rfl : n = m := hnode
        exact absurd hplace' hgateway
    | vtep n =>
      cases w' with
      | pod m q =>
        obtain rfl : n = m := hnode
        exact absurd hplace hplace'.1.inside.2.1
      | vtep m =>
        obtain rfl : n = m := hnode
        rfl
      | bridge m =>
        obtain rfl : n = m := hnode
        exact absurd (hplace'.symm.trans hplace) (hfirst n)
    | bridge n =>
      cases w' with
      | pod m q =>
        obtain rfl : n = m := hnode
        exact absurd hplace hplace'.1.inside.2.2.2
      | vtep m =>
        obtain rfl : n = m := hnode
        exact absurd (hplace.symm.trans hplace') (hfirst n)
      | bridge m =>
        obtain rfl : n = m := hnode
        rfl
  · obtain ⟨content, hcontent⟩ := Option.ne_none_iff_exists'.mp hl
    obtain ⟨o, ho, -⟩ :=
      (leases_of_reachable hplain (hinitial n) (h n)).named ip content hcontent
    exact ⟨o, holds_of_holder ho⟩

end

/-- The configuration of two nodes, one of them with host bits in its PodCIDR, and the other with
a pod. -/
def netConf : String :=
  "\x7b\"Network\":\"10.244.0.0/16\",\"Backend\":\x7b\"Type\":\"vxlan\"\x7d\x7d"

theorem exampleLen_le : 24 ≤ 32 := by decide

def exampleCidr : Bool → Ipv4Network
  | true => ⟨.ofOctets 10 244 1 0, 24, exampleLen_le⟩
  | false => ⟨.ofOctets 10 244 2 77, 24, exampleLen_le⟩

def exampleOwn : Bool → OwnNode
  | true => ⟨"10.244.1.0/24", "192.168.0.1"⟩
  | false => ⟨"10.244.2.77/24", "192.168.0.2"⟩

def exampleNode (b : Bool) : @ClusterNode Crates.compact :=
  let := Crates.compact
  { raw := netConf
    own := exampleOwn b
    linkMtu := none
    cidr := exampleCidr b
    confs := fun stdin => stdin = hairpinConf
    network := "cbr0"
    podCidr_eq := by cases b <;> decide +kernel
    len_ge := by cases b <;> decide
    len_le := by cases b <;> decide
    named := by
      rintro _ conf rfl hconf
      have h := hairpinConf_parse
      rw [hconf] at h
      simp only [Option.map_some, Option.some.injEq, Prod.mk.injEq] at h
      exact h.1.1
    readsBack := by
      rintro _ conf env rfl hconf
      exact FlannelTeardown.hairpinConf_readsBack conf env hconf }

theorem exampleNode_disjoint (m n : Bool) (hne : m ≠ n) (ip : Ipv4Addr)
    (h : (@ClusterNode.cidr Crates.compact (exampleNode m)).contains ip = true) :
    (@ClusterNode.cidr Crates.compact (exampleNode n)).contains ip = false := by
  change (exampleCidr m).contains ip = true at h
  change (exampleCidr n).contains ip = false
  have hsize : ∀ b, (exampleCidr b).size = 256 := fun b => by cases b <;> rfl
  simp only [Ipv4Network.contains, hsize, decide_eq_true_eq, decide_eq_false_iff_not] at h ⊢
  rw [h]
  cases m <;> cases n <;> first | exact absurd rfl hne | decide

/-- The files of the first node, once `flanneld` has run. -/
def exampleFiles (path : String) : Option String :=
  if path = subnetEnvPath then (@ClusterNode.boot Crates.compact (exampleNode true)).map
    fun b => b.env.render
  else none

/-- What the `flannel` plugin prints for its delegate on the first node. -/
def exampleStdin : String :=
  ((@delegateJson Crates.compact exampleFiles hairpinConf "ADD").toOption.map Prod.snd).getD ""

def exampleJob : Job := (ExclusiveLeases.podJob.1, exampleStdin)

theorem exampleJob_accepted :
    (@delegateJson Crates.compact exampleFiles hairpinConf "ADD").toOption.isSome = true := by
  decide +kernel

theorem exampleFiles_offered :
    @ClusterNode.Offers Crates.compact (exampleNode true) exampleFiles := by
  let := Crates.compact
  intro text htext
  rw [exampleFiles, if_pos rfl] at htext
  obtain ⟨b, hb, rfl⟩ := Option.map_eq_some_iff.mp htext
  exact ⟨b, hb, rfl⟩

theorem exampleJob_add : exampleJob.1.command = "ADD" := rfl

theorem exampleJob_feeds : @ClusterNode.Feeds Crates.compact (exampleNode true) exampleJob := by
  let := Crates.compact
  have hgiven : (exampleNode true).confs hairpinConf := rfl
  unfold exampleJob exampleStdin
  exact printed_feeds hgiven exampleFiles_offered exampleJob_accepted _

/-- An ADD of `host-local` on a configuration that was read. -/
def addWith [Crates] (args : CniArgs) (nc : NetConf) : CniProgram String := do
  let alloc ← ExceptT.mk (pure (allocatorFor nc))
  let store ← storeFor nc
  withLock store (addLocked args nc alloc store)

theorem run_eq_addWith [Crates] {args : CniArgs} {stdin : String} {nc : NetConf}
    (hadd : args.command = "ADD") (hnc : NetConf.parse stdin = some nc) :
    (HostLocal.run args stdin).run = (addWith args nc).run := by
  rw [run_add hadd, cmdAdd, Program.run_pure_bind, load, hnc]
  rfl

/-- What `host-local` reads of it. -/
def exampleNetConf : NetConf :=
  ⟨"0.3.1", "cbr0", ⟨"host-local", [[⟨"10.244.1.0/24", none⟩]], [⟨"10.244.0.0/16", none⟩], none⟩⟩

theorem exampleBoot : (@ClusterNode.boot Crates.compact (exampleNode true)).map
    (fun b => (b.env.subnet, b.env.network)) = some ("10.244.1.0/24", "10.244.0.0/16") := by
  decide +kernel

theorem exampleJob_parse :
    @NetConf.parse Crates.compact exampleJob.2 = some exampleNetConf := by
  let := Crates.compact
  obtain ⟨_, conf, env, rfl, hconf, hparse, henv⟩ :=
    feeds_netConf SubnetEnvFiles.plainNetworks_compact exampleJob_feeds
  obtain ⟨b, hb, rfl⟩ := henv rfl
  have hkeys := hairpinConf_parse
  rw [hconf] at hkeys
  simp only [Option.map_some, Option.some.injEq, Prod.mk.injEq] at hkeys
  obtain ⟨⟨hname, hversion⟩, -⟩ := hkeys
  have henv := exampleBoot
  rw [hb] at henv
  obtain ⟨hsubnet, hnetwork⟩ := Prod.mk.inj (Option.some.inj henv)
  rw [hparse, nodeNetConf, hname, hversion, SubnetEnvFiles.SubnetEnv.read, hsubnet, hnetwork]
  rfl

/-- How process 0 is answered. -/
def perform (j : Job) (o : FsOp) (s : NodeState) : Option (FsRes o × NodeState) :=
  (ExclusiveLeases.perform j o s.shared).map fun rs => (rs.1, ⟨rs.2, s.gateways⟩)

def freshNode : NodeState := ⟨ExclusiveLeases.emptyStore, []⟩

def exampleRun : Option (Except CniError String × NodeState) :=
  (@addWith Crates.compact exampleJob.1 exampleNetConf).run.run
    (perform exampleJob) freshNode

theorem exampleRun_addresses : exampleRun.map (fun r =>
      (holder r.2.shared.log (.ofOctets 10 244 1 2), @assigned Crates.compact exampleJob r.1)) =
    some (some ("c1", "eth0"), some (.ofOctets 10 244 1 1)) := by
  decide +kernel

theorem exampleVtep (b : Bool) : (@ClusterNode.boot Crates.compact (exampleNode b)).bind
    Bootstrap.vtepIp = some (exampleCidr b).network := by
  cases b <;> decide +kernel

/-- One pod on the first node: the pod, the bridge of its node and the devices of both nodes
have addresses, and no address has two owners. -/
theorem cluster_addresses_two_nodes : ∃ d,
    System.Beside (fun b => @nodeSystem Crates.compact (exampleNode b))
      (fun _ => ⟨freshNode, fun _ => none⟩) d ∧
    @Has Crates.compact Bool exampleNode d (.pod true ("c1", "eth0")) (.ofOctets 10 244 1 2) ∧
    @Has Crates.compact Bool exampleNode d (.bridge true) (.ofOctets 10 244 1 1) ∧
    @Has Crates.compact Bool exampleNode d (.vtep true) (.ofOctets 10 244 1 0) ∧
    @Has Crates.compact Bool exampleNode d (.vtep false) (.ofOctets 10 244 2 0) ∧
    ∀ w w' ip, @Has Crates.compact Bool exampleNode d w ip →
      @Has Crates.compact Bool exampleNode d w' ip → w = w' := by
  let := Crates.compact
  obtain ⟨⟨a, s'⟩, hrun, haddresses⟩ := Option.map_eq_some_iff.mp exampleRun_addresses
  obtain ⟨hholder, hassigned⟩ := Prod.mk.inj haddresses
  have hexec : Exec ((nodeSystem (exampleNode true)).answers 0 exampleJob) freshNode
      (HostLocal.run exampleJob.1 exampleJob.2).run a s' := by
    rw [run_eq_addWith exampleJob_add exampleJob_parse]
    unfold exampleRun at hrun
    refine Program.exec_of_run (fun o s r s₁ h => ?_) hrun
    obtain ⟨⟨r', shared⟩, hshared, he⟩ := Option.map_eq_some_iff.mp h
    obtain ⟨rfl, rfl⟩ := Prod.mk.inj he
    obtain ⟨⟨r'', fs'⟩, hfs, he⟩ := Option.map_eq_some_iff.mp hshared
    obtain ⟨rfl, rfl⟩ := Prod.mk.inj he
    exact ⟨⟨Fs.perform_answers hfs, rfl⟩, rfl⟩
  have hvalid : (attachment exampleJob).Valid := by
    unfold exampleJob attachment
    exact ExclusiveLeases.podJob_admissible.1
  have hinitial : ∀ b, Initial (exampleNode b) ⟨freshNode, fun _ => none⟩ := fun b =>
    ⟨⟨fun _ => rfl, fun _ => rfl, rfl, rfl⟩, rfl⟩
  have hdone := (System.Reachable.here (S := nodeSystem (exampleNode true))
    (c := ⟨freshNode, fun _ => none⟩)).job (p := 0) rfl ⟨hvalid, exampleJob_feeds, rfl⟩ hexec
  have hend := hdone.step (.finish (s := ⟨s'.shared, (assigned exampleJob a).toList ++
    s'.gateways⟩) (Config.goOn_busy_self ..) ⟨rfl, rfl⟩)
  obtain ⟨d, hcluster, hd⟩ : ∃ d, System.Beside (fun b => nodeSystem (exampleNode b))
      (fun _ => ⟨freshNode, fun _ => none⟩) d ∧ d true = _ :=
    ⟨_, .of_reachable (i := true) .here hend, Function.update_self ..⟩
  refine ⟨d, hcluster, ?_, ?_, exampleVtep true, exampleVtep false, (cluster_addresses
    Crates.compact_lawful SubnetEnvFiles.plainNetworks_compact exampleNode exampleNode_disjoint
    hinitial hcluster).1⟩
  · change Holds (d true).state.shared.log _ _
    rw [hd]
    exact holds_of_holder hholder
  · change _ ∈ (d true).state.gateways
    rw [hd, Config.goOn_state, hassigned]
    exact List.mem_cons_self

end FlannelRs.ClusterAddresses
