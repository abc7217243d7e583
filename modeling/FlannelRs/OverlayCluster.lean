import FlannelRs.FlanneldDaemon
import FlannelRs.PeerFailures
import FlannelRs.ProcessPools

/-!
# The overlay network of a cluster

On every node runs `flanneld`. It publishes the lease of its node at the API server, reads from
a watch what the other nodes have published and installs it in the kernel. The requests of all
nodes are answered in any order, any of them may fail, what is read may be out of date, and
`flanneld` may be ended after any request and started again.
-/

namespace FlannelRs.OverlayCluster
open InteractionPrograms ProcessPools Ipv4Addresses JsonValues CniTypes Flanneld KernelTables
open LeasePublication VxlanDevices FlanneldBootstrap FlanneldDaemon

def annotation (n : Node) (suffix : String) : Option String :=
  n.annotations.bind (AList.lookup (annotationKey suffix))

section

variable [Crates]

/-- The part of `node_to_peer` that reads annotations. -/
def leaseOf (backend : BackendType) (n : Node) : Option (String × Option String) := do
  let publicIp ← annotation n "public-ip"
  let vtepMac ← match backend with
    | .vxlan => annotation n "backend-data" |>.bind vtepMacFromJson |>.map some
    | .hostGw => some none
  return (publicIp, vtepMac)

theorem leaseOf_congr {backend : BackendType} {n n' : Node}
    (h : ∀ suffix, annotation n suffix = annotation n' suffix) :
    leaseOf backend n = leaseOf backend n' := by
  simp only [leaseOf, h]

theorem nodeToPeer_eq_some {backend : BackendType} {n : Node} {p : Peer} :
    nodeToPeer n backend = some p ↔ n.name = some p.node ∧ n.podCidr = some p.podCidr ∧
      leaseOf backend n = some (p.publicIp, p.vtepMac) := by
  obtain ⟨name, annotations, podCidr⟩ := n
  obtain ⟨node, cidr, publicIp, vtepMac⟩ := p
  cases annotations with
  | none => simp [nodeToPeer, leaseOf, annotation]
  | some ann =>
    simp only [nodeToPeer, leaseOf, annotation, Option.bind_eq_bind, Option.bind_some]
    cases ann.lookup (annotationKey "public-ip") with
    | none => simp
    | some ip =>
      cases podCidr with
      | none => simp
      | some c =>
        cases name with
        | none => cases backend <;> simp
        | some name =>
          cases backend with
          | vxlan =>
            cases (ann.lookup (annotationKey "backend-data")).bind vtepMacFromJson with
            | none => simp
            | some m => simp
          | hostGw => simp

/-- The lease that is read of a node which has stored a patch. -/
theorem leaseOf_of_stored (hjson : BackendDataRead) {backend : BackendType} {publicIp : String}
    {vtepMac : Option String} {n : Node} {ann : AList fun _ : String => String}
    (hmac : vtepMac.isSome ↔ backend = .vxlan) (hann : n.annotations = some ann)
    (h : Stored (buildPublishPatch backend publicIp vtepMac) ann) :
    leaseOf backend n = some (publicIp, vtepMac) := by
  have hip := h.lookup_publicIp
  cases backend with
  | vxlan =>
    obtain ⟨mac, rfl⟩ := Option.isSome_iff_exists.mp (hmac.mpr rfl)
    simp [leaseOf, annotation, hann, hip, h.lookup_backendData, vtepMacFromJson_toJson hjson]
  | hostGw =>
    obtain rfl : vtepMac = none := by
      cases vtepMac with
      | none => rfl
      | some mac => exact absurd (hmac.mp rfl) (by decide)
    simp [leaseOf, annotation, hann, hip]

/-- What does not change: the configuration, which is the same on all nodes, the PodCIDR of each
node name, of which no two overlap, and the one node that makes a hardware address. -/
structure Cluster where
  raw : String
  backend : BackendType
  classified : (classifyNetConf raw).map Prod.snd = .ok backend
  podCidr : String → String
  owner : Mac → String
  disjoint : ∀ a b net net' ip, Crates.parseNetwork (podCidr a) = some net →
    Crates.parseNetwork (podCidr b) = some net' → net.contains ip = true →
    net'.contains ip = true → a = b

def Cluster.net (S : Cluster) (n : String) : Option Ipv4Network :=
  Crates.parseNetwork (S.podCidr n)

end

/-- What `flanneld` has in its memory while it is in its loop. -/
structure Running where
  boot : BootstrapState
  installed : PeerMap

/-- A node: its kernel, and the memory of its `flanneld`. The store is what the watch has
brought. -/
structure Host where
  links : Links
  peers : PeerFailures.State
  store : List Node
  running : Option Running

/-- The node objects of the API server and the nodes. Books are kept of the versions that the
objects have had, and of the patches that were applied. -/
structure World where
  objects : String → Option NodeObject
  hosts : String → Host
  versions : List Node
  patches : List (String × Json)

namespace World

def setHost (w : World) (a : String) (h : Host) : World :=
  { w with hosts := Function.update w.hosts a h }

def write (w : World) (a : String) (o : NodeObject) : World :=
  { w with objects := Function.update w.objects a (some o), versions := o.toNode :: w.versions }

def delete (w : World) (a : String) : World :=
  { w with objects := Function.update w.objects a none }

def blank (a : String) : NodeObject where
  name := some a
  annotations := none
  podCidr := none
  addresses := none

def patch (w : World) (a : String) (patch : Json) (ann : AList fun _ : String => String) : World :=
  { w.write a { (w.objects a).getD (blank a) with annotations := some ann } with
    patches := (a, patch) :: w.patches }

section

variable {w : World} {a b : String} {h : Host} {o : NodeObject}

@[simp] theorem setHost_self : (w.setHost a h).hosts a = h := Function.update_self ..

theorem setHost_other (hb : b ≠ a) : (w.setHost a h).hosts b = w.hosts b :=
  Function.update_of_ne hb ..

@[simp] theorem setHost_setHost {h' : Host} : (w.setHost a h).setHost a h' = w.setHost a h' := by
  simp [setHost]

@[simp] theorem setHost_same : w.setHost a (w.hosts a) = w := by
  simp [setHost]

@[simp] theorem write_self : (w.write a o).objects a = some o := Function.update_self ..

theorem write_other (hb : b ≠ a) : (w.write a o).objects b = w.objects b :=
  Function.update_of_ne hb ..

@[simp] theorem delete_self : (w.delete a).objects a = none := Function.update_self ..

theorem delete_other (hb : b ≠ a) : (w.delete a).objects b = w.objects b :=
  Function.update_of_ne hb ..

end

end World

namespace Cluster

variable [Crates] (S : Cluster)

/-- The device of `flanneld` has a hardware address that the node made. -/
def Owned (a : String) (l : Links) : Prop :=
  ∀ i d bytes, l.devices.lookup i = some d → d.name = dev → d.address = some bytes →
    ∃ m : Mac, m.bytes = bytes ∧ S.owner m = a

/-- What decides on packets of node `a` to the pods of other nodes. -/
def Concerns (a : String) : Key → Prop
  | .route dst len => ∃ b net, b ≠ a ∧ S.net b = some net ∧ net.len ≤ len ∧
      net.contains dst = true
  | .neighbour ip => ∃ b net, b ≠ a ∧ S.net b = some net ∧ ip = net.network
  | .fdb m => S.owner m ≠ a

/-- A node that has just been started. Its kernel may have entries, but none that decides on
packets to the pods of other nodes. -/
structure Booted (a : String) (h : Host) : Prop where
  owned : S.Owned a h.links
  foreign : ∀ oif x, S.Concerns a x → h.peers.kernel.view oif x = none
  store : h.store = []
  running : h.running = none

/-- An empty cluster. -/
structure Initial (w : World) : Prop where
  objects : ∀ a, w.objects a = none
  booted : ∀ a, S.Booted a (w.hosts a)
  versions : w.versions = []
  patches : w.patches = []

/-- A patch may be applied although an error is returned. -/
def hostAnswers (a : String) (w : World) : (o : HostOp) → HostRes o → World → Prop
  | .readFile path, r, w' => w' = w ∧ ∀ text, r = .ok text → path = netConfPath → text = S.raw
  | .getNode, r, w' => w' = w ∧ ∀ o, r = .ok o → w.objects a = some o
  | .patchNode patch, r, w' => (w' = w ∧ ∃ e, r = .error e) ∨
      ∃ ann, Stored patch ann ∧ w' = w.patch a patch ann
  | .link o, r, w' => ∃ refused l, (w.hosts a).links.MayFail refused o r l ∧ S.Owned a l ∧
      w' = w.setHost a { w.hosts a with links := l }
  | .getAddresses, _, w' => w' = w
  | .getMtu _, _, w' => w' = w
  | .createDirAll _, _, w' => w' = w
  | .writeFile _ _, _, w' => w' = w
  | .sleep _, _, w' => w' = w

/-- The NAT table is another part of the kernel. -/
def answers (kernel : Environment PeerFailures.State PeerOp PeerRes) (a : String) (w : World) :
    (o : DaemonOp) → DaemonRes o → World → Prop
  | .host o, r, w' => S.hostAnswers a w o r w'
  | .peer o, r, w' => ∃ k, kernel (w.hosts a).peers o r k ∧
      w' = w.setHost a { w.hosts a with peers := k }
  | .nat _, _, w' => w' = w

end Cluster

/-- What `flanneld` does, and what is done to it, to the node objects and to the stores. A
`flanneld` is ended when its `budget` of requests is used up. -/
inductive Job where
  | bootstrap (attempts budget : ℕ)
  | round (boot : BootstrapState) (masq : Bool) (installed desired : PeerMap) (ev : LoopEvent)
      (budget : ℕ)
  | stop
  | reboot
  | write (a : String) (o : NodeObject)
  | delete (a : String)
  | deliver (a : String) (nodes : List Node)

def started : Option (Except Fatal BootstrapState) → Option Running
  | some (.ok boot) => some ⟨boot, ∅⟩
  | _ => none

variable [Crates]

/-- A job returns the memory with which `flanneld` goes on. -/
def program : Job → DaemonProgram (Option Running)
  | .bootstrap attempts budget => do
    return ((← (onHost (bootstrap attempts)).cut budget).bind started)
  | .round boot masq installed desired ev budget => do
    return ((← (round boot masq installed desired ev).cut budget).bind
      fun m => m.map (Running.mk boot))
  | _ => return none

namespace Cluster

variable (S : Cluster)

/-- A change of a node object by others keeps its name and its PodCIDR, which may be missing, and
leaves the annotations of `flanneld` alone. -/
structure Writes (a : String) (old : Option NodeObject) (o : NodeObject) : Prop where
  name : o.name = some a
  podCidr : ∀ c, o.podCidr = some c → c = S.podCidr a
  annotations : ∀ suffix, annotation o.toNode suffix =
    old.bind fun old => annotation old.toNode suffix

/-- The process `some a` is the `flanneld` of node `a`. All others are `none`. -/
def starts : Option String → Job → World → World → Prop
  | some a, .bootstrap _ _, w, w' => (w.hosts a).running = none ∧
      w' = w.setHost a { w.hosts a with store := [] }
  | some a, .round boot _ installed desired _ _, w, w' => w' = w ∧ ∃ r,
      (w.hosts a).running = some r ∧ boot = r.boot ∧
      installed.entries.Perm r.installed.entries ∧
      desired.entries.Perm (desiredFromNodes (w.hosts a).store a boot.backend).entries
  | some a, .stop, w, w' => w' = w.setHost a { w.hosts a with running := none }
  | some a, .reboot, w, w' => ∃ h, S.Booted a h ∧ w' = w.setHost a h
  | none, .write a o, w, w' => S.Writes a (w.objects a) o ∧ w' = w.write a o
  | none, .delete a, w, w' => w' = w.delete a
  | none, .deliver a nodes, w, w' => (nodes.map Node.name).Nodup ∧
      (∀ v ∈ nodes, v ∈ w.versions) ∧ w' = w.setHost a { w.hosts a with store := nodes }
  | _, _, _, _ => False

def finishes : Option String → Job → Option Running → World → World → Prop
  | some a, .bootstrap _ _, r, w, w' => w' = w.setHost a { w.hosts a with running := r }
  | some a, .round _ _ _ _ _ _, r, w, w' => w' = w.setHost a { w.hosts a with running := r }
  | _, _, _, w, w' => w' = w

/-- The cluster, on kernels that give the given answers to the requests for peers. -/
def system (kernel : Environment PeerFailures.State PeerOp PeerRes) :
    System World (Option String) Job DaemonOp DaemonRes (Option Running) where
  code _ j := program j
  start := S.starts
  answers p _ := match p with
    | some a => S.answers kernel a
    | none => fun _ _ _ _ => False
  finish := finishes

abbrev ClusterConfig := Config World (Option String) Job DaemonOp DaemonRes (Option Running)

/-- Nothing runs, and nothing has happened yet. -/
structure Fresh (c : ClusterConfig) : Prop where
  initial : S.Initial c.state
  idle : ∀ p, c.busy p = none

end Cluster

end FlannelRs.OverlayCluster
