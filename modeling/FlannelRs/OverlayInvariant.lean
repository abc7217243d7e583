import FlannelRs.OverlayRequests

/-!
# The invariant of the overlay

What a node object says of a lease was published by its node, and what a kernel has of a node
was read from a node object.
-/

namespace FlannelRs.OverlayInvariant
open InteractionPrograms ProcessPools Ipv4Addresses JsonValues CniTypes Flanneld ExclusiveTables
open KernelTables PeerReconciliation PeerFailures PeerBookkeeping LeasePublication VxlanDevices
open FlanneldBootstrap FlanneldDaemon OverlayCluster OverlayRequests PacketForwarding

variable [Crates]

/-- The hardware address is one that the node has made. -/
def MadeBy (S : Cluster) (a : String) (vtepMac : Option String) : Prop :=
  match S.backend with
  | .vxlan => ∃ m : Mac, vtepMac = some (linkMac m.bytes) ∧ S.owner m = a
  | .hostGw => vtepMac = none

/-- A lease that the others can install. -/
structure Legit (S : Cluster) (a publicIp : String) (vtepMac : Option String) : Prop where
  vtepMac : MadeBy S a vtepMac
  publicIp : (parseIpv4 publicIp).isSome
  podCidr : (S.net a).isSome

/-- The node has published the lease. -/
structure Published (S : Cluster) (patches : List (String × Json)) (a publicIp : String)
    (vtepMac : Option String) : Prop where
  patch : (a, buildPublishPatch S.backend publicIp vtepMac) ∈ patches
  legit : Legit S a publicIp vtepMac

/-- The peer is what its node has published, at some time. -/
structure Known (S : Cluster) (patches : List (String × Json)) (p : Peer) : Prop where
  podCidr : p.podCidr = S.podCidr p.node
  published : Published S patches p.node p.publicIp p.vtepMac

/-- A version of the node object of a node. -/
structure Version (S : Cluster) (patches : List (String × Json)) (a : String) (v : Node) :
    Prop where
  name : v.name = some a
  podCidr : ∀ c, v.podCidr = some c → c = S.podCidr a
  lease : ∀ publicIp vtepMac, leaseOf S.backend v = some (publicIp, vtepMac) →
    Published S patches a publicIp vtepMac

/-- What holds all the time. -/
structure Inv (S : Cluster) (w : World) : Prop where
  objects : ∀ a o, w.objects a = some o → o.name = some a ∧ o.toNode ∈ w.versions
  versions : ∀ v ∈ w.versions, ∃ a, Version S w.patches a v
  distinct : ∀ a, ((w.hosts a).store.map Node.name).Nodup
  stores : ∀ a, ∀ v ∈ (w.hosts a).store, v ∈ w.versions
  owned : ∀ a, S.Owned a (w.hosts a).links
  entries : ∀ a oif x v, S.Concerns a x → (w.hosts a).peers.kernel.view oif x = some v →
    ∃ p, p.node ≠ a ∧ Known S w.patches p ∧ (x, v) ∈ entries S.backend p

/-- The device is there, and what the node object says of the lease is its hardware address. -/
def SetUp (S : Cluster) (w : World) (a : String) (idx : ℕ) : Prop :=
  S.backend = .vxlan → ∃ mac, Holds idx dev mac (w.hosts a).links ∧
    ∀ o publicIp vtepMac, w.objects a = some o →
      leaseOf S.backend o.toNode = some (publicIp, vtepMac) → vtepMac = mac

/-- The others leave the node alone. They may delete its object. -/
structure Leaves (S : Cluster) (a : String) (w w' : World) : Prop where
  links : (w'.hosts a).links = (w.hosts a).links
  peers : (w'.hosts a).peers = (w.hosts a).peers
  running : (w'.hosts a).running = (w.hosts a).running
  lease : ∀ o', w'.objects a = some o' → leaseOf S.backend o'.toNode = none ∨
    ∃ o, w.objects a = some o ∧ leaseOf S.backend o'.toNode = leaseOf S.backend o.toNode

variable {S : Cluster} {w w' w'' : World} {a b : String} {patches patches' : List (String × Json)}

theorem Published.mono {publicIp : String} {vtepMac : Option String}
    (h : Published S patches a publicIp vtepMac) (hsub : ∀ x ∈ patches, x ∈ patches') :
    Published S patches' a publicIp vtepMac :=
  ⟨hsub _ h.patch, h.legit⟩

theorem Known.mono {p : Peer} (h : Known S patches p) (hsub : ∀ x ∈ patches, x ∈ patches') :
    Known S patches' p :=
  ⟨h.podCidr, h.published.mono hsub⟩

theorem Version.mono {v : Node} (h : Version S patches a v)
    (hsub : ∀ x ∈ patches, x ∈ patches') : Version S patches' a v :=
  ⟨h.name, h.podCidr, fun ip mac hlease => (h.lease ip mac hlease).mono hsub⟩

/-- What is read of a version is a known peer. -/
theorem Version.known {v : Node} {p : Peer} (h : Version S patches a v)
    (hp : nodeToPeer v S.backend = some p) : Known S patches p := by
  obtain ⟨hname, hcidr, hlease⟩ := nodeToPeer_eq_some.mp hp
  obtain rfl : p.node = a := Option.some.inj (hname.symm.trans h.name)
  exact ⟨h.podCidr _ hcidr, h.lease _ _ hlease⟩

theorem Leaves.refl (S : Cluster) (a : String) (w : World) : Leaves S a w w :=
  ⟨rfl, rfl, rfl, fun o' ho' => .inr ⟨o', ho', rfl⟩⟩

theorem Leaves.trans (h : Leaves S a w w') (h' : Leaves S a w' w'') : Leaves S a w w'' := by
  refine ⟨h'.links.trans h.links, h'.peers.trans h.peers, h'.running.trans h.running, ?_⟩
  intro o'' ho''
  rcases h'.lease o'' ho'' with hnone | ⟨o', ho', heq⟩
  · exact .inl hnone
  · rw [heq]
    exact h.lease o' ho'

theorem SetUp.leaves {idx : ℕ} (hs : SetUp S w a idx) (h : Leaves S a w w') :
    SetUp S w' a idx := by
  intro hb
  obtain ⟨mac, hholds, hlease⟩ := hs hb
  refine ⟨mac, h.links ▸ hholds, fun o' ip vtepMac ho' hl => ?_⟩
  rcases h.lease o' ho' with hnone | ⟨o, ho, heq⟩
  · rw [hnone] at hl
    cases hl
  · exact hlease o ip vtepMac ho (heq ▸ hl)

section

variable {h : Host}

theorem leaves_setHost (hb : b ≠ a) : Leaves S b w (w.setHost a h) := by
  refine ⟨?_, ?_, ?_, fun o' ho' => .inr ⟨o', ho', rfl⟩⟩ <;> rw [World.setHost_other hb]

/-- The memory of `flanneld` may be changed by itself. -/
theorem leaves_store (hl : h.links = (w.hosts a).links) (hp : h.peers = (w.hosts a).peers)
    (hr : h.running = (w.hosts a).running) : Leaves S b w (w.setHost a h) := by
  by_cases hb : b = a
  · subst hb
    exact ⟨by simpa, by simpa, by simpa, fun o' ho' => .inr ⟨o', ho', rfl⟩⟩
  · exact leaves_setHost hb

theorem Inv.setHost (hi : Inv S w) (hdistinct : (h.store.map Node.name).Nodup)
    (hstore : ∀ v ∈ h.store, v ∈ w.versions) (howned : S.Owned a h.links)
    (hentries : ∀ oif x v, S.Concerns a x → h.peers.kernel.view oif x = some v →
      ∃ p, p.node ≠ a ∧ Known S w.patches p ∧ (x, v) ∈ KernelTables.entries S.backend p) :
    Inv S (w.setHost a h) := by
  refine ⟨hi.objects, hi.versions, fun b => ?_, fun b => ?_, fun b => ?_, fun b => ?_⟩ <;>
  by_cases hb : b = a
  · subst hb
    rwa [World.setHost_self]
  · rw [World.setHost_other hb]
    exact hi.distinct b
  · subst hb
    rwa [World.setHost_self]
  · rw [World.setHost_other hb]
    exact hi.stores b
  · subst hb
    rwa [World.setHost_self]
  · rw [World.setHost_other hb]
    exact hi.owned b
  · subst hb
    rwa [World.setHost_self]
  · rw [World.setHost_other hb]
    exact hi.entries b

/-- The kernel of the node is as it was. -/
theorem Inv.setMemory (hi : Inv S w) (hdistinct : (h.store.map Node.name).Nodup)
    (hstore : ∀ v ∈ h.store, v ∈ w.versions) (hl : h.links = (w.hosts a).links)
    (hp : h.peers = (w.hosts a).peers) : Inv S (w.setHost a h) :=
  hi.setHost hdistinct hstore (hl ▸ hi.owned a) (hp ▸ hi.entries a)

end

section

variable {o : NodeObject} {ann : AList fun _ : String => String}

theorem Inv.write (hi : Inv S w) (hv : Version S w.patches a o.toNode) : Inv S (w.write a o) := by
  refine ⟨fun b o' ho' => ?_, fun v hmem => ?_, hi.distinct, fun b v hmem => ?_, hi.owned,
    hi.entries⟩
  · by_cases hb : b = a
    · subst hb
      rw [World.write_self] at ho'
      obtain rfl := Option.some.inj ho'
      exact ⟨hv.name, List.mem_cons_self⟩
    · rw [World.write_other hb] at ho'
      obtain ⟨hname, hmem⟩ := hi.objects b o' ho'
      exact ⟨hname, List.mem_cons_of_mem _ hmem⟩
  · rcases List.mem_cons.mp hmem with rfl | hmem
    · exact ⟨a, hv⟩
    · exact hi.versions v hmem
  · exact List.mem_cons_of_mem _ (hi.stores b v hmem)

theorem Inv.recordPatch (hi : Inv S w) (x : String × Json) :
    Inv S { w with patches := x :: w.patches } := by
  have hsub : ∀ y ∈ w.patches, y ∈ x :: w.patches := fun y hy => List.mem_cons_of_mem x hy
  refine ⟨hi.objects, fun v hv => ?_, hi.distinct, hi.stores, hi.owned,
    fun a oif x v hx hview => ?_⟩
  · obtain ⟨b, hb⟩ := hi.versions v hv
    exact ⟨b, hb.mono hsub⟩
  · obtain ⟨p, hne, hp, hmem⟩ := hi.entries a oif x v hx hview
    exact ⟨p, hne, hp.mono hsub, hmem⟩

theorem leaves_write (hlease : b = a → leaseOf S.backend o.toNode = none ∨
    ∃ o₀, w.objects a = some o₀ ∧ leaseOf S.backend o.toNode = leaseOf S.backend o₀.toNode) :
    Leaves S b w (w.write a o) := by
  refine ⟨rfl, rfl, rfl, fun o' ho' => ?_⟩
  by_cases hb : b = a
  · subst hb
    rw [World.write_self] at ho'
    obtain rfl := Option.some.inj ho'
    exact hlease rfl
  · rw [World.write_other hb] at ho'
    exact .inr ⟨o', ho', rfl⟩

/-- The others keep what a node object says of the lease. -/
theorem leaseOf_writes (h : S.Writes a (w.objects a) o) :
    leaseOf S.backend o.toNode = none ∨
      ∃ o₀, w.objects a = some o₀ ∧ leaseOf S.backend o.toNode = leaseOf S.backend o₀.toNode := by
  have hann := h.annotations
  cases ho : w.objects a with
  | none =>
    left
    simp only [ho, Option.bind_none] at hann
    simp [leaseOf, hann]
  | some o₀ =>
    right
    simp only [ho, Option.bind_some] at hann
    exact ⟨o₀, rfl, leaseOf_congr hann⟩

theorem version_of_writes (hi : Inv S w) (h : S.Writes a (w.objects a) o) :
    Version S w.patches a o.toNode := by
  refine ⟨h.name, h.podCidr, fun ip mac hlease => ?_⟩
  rcases leaseOf_writes h with hnone | ⟨o₀, ho₀, heq⟩
  · rw [hnone] at hlease
    cases hlease
  · obtain ⟨hname, hmem⟩ := hi.objects a o₀ ho₀
    obtain ⟨b, hb⟩ := hi.versions _ hmem
    obtain rfl : a = b := Option.some.inj (hname.symm.trans hb.name)
    exact hb.lease ip mac (heq ▸ hlease)

/-- The node object after a patch of its node. -/
theorem lease_of_patch (hjson : BackendDataRead) {publicIp : String} {vtepMac : Option String}
    (hlegit : Legit S a publicIp vtepMac) (ho : o.annotations = some ann)
    (hann : Stored (buildPublishPatch S.backend publicIp vtepMac) ann) :
    leaseOf S.backend o.toNode = some (publicIp, vtepMac) := by
  refine leaseOf_of_stored hjson ?_ ho hann
  have hmade := hlegit.vtepMac
  unfold MadeBy at hmade
  cases hb : S.backend with
  | vxlan =>
    rw [hb] at hmade
    obtain ⟨m, rfl, -⟩ := hmade
    simp
  | hostGw =>
    rw [hb] at hmade
    obtain rfl := hmade
    simp

theorem Inv.patch (hjson : BackendDataRead) (hi : Inv S w) {publicIp : String}
    {vtepMac : Option String} (hlegit : Legit S a publicIp vtepMac)
    (hann : Stored (buildPublishPatch S.backend publicIp vtepMac) ann) :
    Inv S (w.patch a (buildPublishPatch S.backend publicIp vtepMac) ann) := by
  have hrecord := hi.recordPatch (a, buildPublishPatch S.backend publicIp vtepMac)
  refine hrecord.write (a := a) ?_
  have hlease := fun o ho => lease_of_patch (S := S) (o := o) hjson hlegit ho hann
  refine ⟨?_, fun c hc => ?_, fun ip mac hl => ?_⟩
  · cases ho : w.objects a with
    | none => rfl
    | some o => exact (hi.objects a o ho).1
  · cases ho : w.objects a with
    | none =>
      rw [ho] at hc
      cases hc
    | some o =>
      rw [ho] at hc
      obtain ⟨hname, hmem⟩ := hi.objects a o ho
      obtain ⟨b, hb⟩ := hi.versions _ hmem
      obtain rfl : a = b := Option.some.inj (hname.symm.trans hb.name)
      exact hb.podCidr c hc
  · obtain ⟨rfl, rfl⟩ := Prod.mk.inj (Option.some.inj ((hlease _ rfl).symm.trans hl))
    exact ⟨List.mem_cons_self, hlegit⟩

theorem leaves_patch {j : Json} (hb : b ≠ a) : Leaves S b w (w.patch a j ann) := by
  have h := leaves_write (S := S) (w := w) (o := { (w.objects a).getD (World.blank a) with
    annotations := some ann }) (fun he => absurd he hb)
  exact ⟨h.links, h.peers, h.running, h.lease⟩

theorem leaves_delete (S : Cluster) (w : World) (a b : String) :
    Leaves S b w (w.delete a) := by
  refine ⟨rfl, rfl, rfl, fun o' ho' => ?_⟩
  by_cases hb : b = a
  · subst hb
    simp at ho'
  · rw [World.delete_other hb] at ho'
    exact .inr ⟨o', ho', rfl⟩

theorem Inv.delete (hi : Inv S w) (a : String) :
    Inv S (w.delete a) := by
  refine ⟨fun b o' ho' => ?_, hi.versions, hi.distinct, hi.stores, hi.owned, hi.entries⟩
  by_cases hb : b = a
  · subst hb
    simp at ho'
  · rw [World.delete_other hb] at ho'
    exact hi.objects b o' ho'

end

end FlannelRs.OverlayInvariant
