import FlannelRs.ClusterAddresses
import FlannelRs.OverlayDelivery

/-!
# Pods on the overlay

The PodCIDR of a node comes to its pods through `subnet.env`, the configuration that the `flannel`
plugin prints, and the leases of `host-local`. To the other nodes it comes through the node object
and their kernels. Both ways end at the same addresses.
-/

namespace FlannelRs.PodDelivery
open InteractionPrograms ProcessPools FileSystem Ipv4Addresses CniTypes HostLocal FlannelPlugin
open Flanneld PeerFailures LeasePublication OverlaySafety OverlayDelivery
open ClusterAddresses
open ExclusiveLeases (Job holder attachment)
open SubnetEnvFiles (PlainNetworks)
open BootstrapSuccess (pair pairNet)
open OverlayProgress (pairPeer)
open OverlayCluster (Cluster Running)

section

variable [Crates]

/-- What a node leases to its pods is of its pod network. -/
theorem contains_of_holds (hc : Crates.Lawful) (hplain : PlainNetworks) {n : ClusterNode}
    {c e : NodeConfig} (hinitial : Initial n c) (h : (nodeSystem n).Reachable c e)
    {o : LeaseStores.Attachment} {ip : Ipv4Addr} (hpod : Holds e.state.shared.log o ip) :
    n.cidr.contains ip = true :=
  ((nodeInv hc hplain hinitial h).handed ip o hpod.handed).inside.1

/-- In every run of the cluster and of the plugins of a node, each node that has installed it and
is between two rounds sends the packets for every pod of the node to it. -/
theorem pods_delivered (hc : Crates.Lawful) (hplain : PlainNetworks) (hjson : BackendDataRead)
    (S : Cluster) {c d : Cluster.ClusterConfig} (hfresh : S.Fresh c)
    (h : (S.system ToleratedAnswers).Reachable c d) {a b : String} (idle : d.busy (some a) = none)
    {r : Running} (hrun : (d.state.hosts a).running = some r) {p : Peer}
    (hp : r.installed.lookup b = some p) {n : ClusterNode} (hown : n.own.podCidr = S.podCidr b)
    {c' e : NodeConfig} (hinitial : Initial n c') (hpods : (nodeSystem n).Reachable c' e)
    {o : LeaseStores.Attachment} {ip : Ipv4Addr} (hpod : Holds e.state.shared.log o ip) :
    Delivers (d.state.hosts a).peers.kernel r.boot.devIdx p ip := by
  have hnet : S.net b = some n.cidr := by
    rw [Cluster.net, ← hown, n.podCidr_eq]
  have hip := contains_of_holds hc hplain hinitial hpods hpod
  obtain ⟨hi, hidle⟩ := reached hjson (fun _ _ _ _ h => h.1) hfresh h
  exact delivers_of_runs hi (hidle _ idle a rfl r hrun) hp hnet hip

end

/-- The second of two nodes, with one pod. -/
def podNode : @ClusterNode Crates.compact :=
  let := Crates.compact
  { raw := netConf
    own := ⟨"10.244.2.0/24", "172.18.0.3"⟩
    linkMtu := none
    cidr := pairNet 2
    confs := (exampleNode true).confs
    network := (exampleNode true).network
    podCidr_eq := by decide +kernel
    len_ge := by decide
    len_le := by decide
    named := (exampleNode true).named
    readsBack := (exampleNode true).readsBack }

def podFiles (path : String) : Option String :=
  if path = subnetEnvPath then (@ClusterNode.boot Crates.compact podNode).map fun b => b.env.render
  else none

def podStdin : String :=
  ((@delegateJson Crates.compact podFiles hairpinConf "ADD").toOption.map Prod.snd).getD ""

def podJob : Job := (ExclusiveLeases.podJob.1, podStdin)

theorem podJob_accepted :
    (@delegateJson Crates.compact podFiles hairpinConf "ADD").toOption.isSome = true := by
  decide +kernel

theorem podJob_add : podJob.1.command = "ADD" := rfl

theorem podJob_feeds : @ClusterNode.Feeds Crates.compact podNode podJob := by
  let := Crates.compact
  have hgiven : podNode.confs hairpinConf := rfl
  have hoffers : podNode.Offers podFiles := by
    intro text htext
    rw [podFiles, if_pos rfl] at htext
    obtain ⟨b, hb, rfl⟩ := Option.map_eq_some_iff.mp htext
    exact ⟨b, hb, rfl⟩
  unfold podJob podStdin
  exact printed_feeds hgiven hoffers podJob_accepted _

/-- What `host-local` reads of it. -/
def podNetConf : NetConf :=
  ⟨"0.3.1", "cbr0", ⟨"host-local", [[⟨"10.244.2.0/24", none⟩]], [⟨"10.244.0.0/16", none⟩], none⟩⟩

theorem podBoot : (@ClusterNode.boot Crates.compact podNode).map
    (fun b => (b.env.subnet, b.env.network)) = some ("10.244.2.0/24", "10.244.0.0/16") := by
  decide +kernel

theorem podJob_parse : @NetConf.parse Crates.compact podJob.2 = some podNetConf := by
  let := Crates.compact
  obtain ⟨_, conf, env, rfl, hconf, hparse, henv⟩ :=
    feeds_netConf SubnetEnvFiles.plainNetworks_compact podJob_feeds
  obtain ⟨b, hb, rfl⟩ := henv rfl
  have hkeys := hairpinConf_parse
  rw [hconf] at hkeys
  simp only [Option.map_some, Option.some.injEq, Prod.mk.injEq] at hkeys
  obtain ⟨⟨hname, hversion⟩, -⟩ := hkeys
  have henv := podBoot
  rw [hb] at henv
  obtain ⟨hsubnet, hnetwork⟩ := Prod.mk.inj (Option.some.inj henv)
  rw [hparse, DelegateIpam.nodeNetConf, hname, hversion, SubnetEnvFiles.SubnetEnv.read, hsubnet,
    hnetwork]
  rfl

def podRun : Option (Except CniError String × NodeState) :=
  (@addWith Crates.compact podJob.1 podNetConf).run.run (perform podJob) freshNode

theorem podRun_holder : podRun.map (fun r => holder r.2.shared.log (.ofOctets 10 244 2 2)) =
    some (some ("c1", "eth0")) := by
  decide +kernel

theorem exists_pod : ∃ e,
    (@nodeSystem Crates.compact podNode).Reachable ⟨freshNode, fun _ => none⟩ e ∧
    Holds e.state.shared.log ("c1", "eth0") (.ofOctets 10 244 2 2) := by
  let := Crates.compact
  obtain ⟨⟨a, s'⟩, hrun, hholder⟩ := Option.map_eq_some_iff.mp podRun_holder
  have hexec : Exec ((nodeSystem podNode).answers 0 podJob) freshNode
      (HostLocal.run podJob.1 podJob.2).run a s' := by
    rw [run_eq_addWith podJob_add podJob_parse]
    unfold podRun at hrun
    refine Program.exec_of_run (fun o s r s₁ h => ?_) hrun
    obtain ⟨⟨r', shared⟩, hshared, he⟩ := Option.map_eq_some_iff.mp h
    obtain ⟨rfl, rfl⟩ := Prod.mk.inj he
    obtain ⟨⟨r'', fs'⟩, hfs, he⟩ := Option.map_eq_some_iff.mp hshared
    obtain ⟨rfl, rfl⟩ := Prod.mk.inj he
    exact ⟨⟨Fs.perform_answers hfs, rfl⟩, rfl⟩
  have hvalid : (attachment podJob).Valid := by
    unfold podJob attachment
    exact ExclusiveLeases.podJob_admissible.1
  have hdone := (System.Reachable.here (S := nodeSystem podNode)
    (c := ⟨freshNode, fun _ => none⟩)).job (p := 0) rfl ⟨hvalid, podJob_feeds, rfl⟩ hexec
  exact ⟨_, hdone, holds_of_holder hholder⟩

/-- The first node sends the packets for the pod to the second one. -/
theorem pods_delivered_pair : ∃ (d : Cluster.ClusterConfig) (r : Running) (e : NodeConfig),
    (d.state.hosts "a").running = some r ∧
    Holds e.state.shared.log ("c1", "eth0") (.ofOctets 10 244 2 2) ∧
    Delivers (d.state.hosts "a").peers.kernel r.boot.devIdx pairPeer (.ofOctets 10 244 2 2) := by
  let := Crates.compact
  obtain ⟨e, hpods, hpod⟩ := exists_pod
  obtain ⟨c, w, r, hfresh, hreach, hrunning, hlookup⟩ := exists_connected
  have hinitial : Initial podNode ⟨freshNode, fun _ => none⟩ :=
    ⟨⟨fun _ => rfl, fun _ => rfl, rfl, rfl⟩, rfl⟩
  have hown : podNode.own.podCidr = pair.podCidr "b" := by decide
  exact ⟨⟨w, fun _ => none⟩, r, e, hrunning, hpod, pods_delivered Crates.compact_lawful
    SubnetEnvFiles.plainNetworks_compact backendDataRead_compact pair hfresh hreach rfl hrunning
    hlookup hown hinitial hpods hpod⟩

end FlannelRs.PodDelivery
