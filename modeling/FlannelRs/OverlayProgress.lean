import FlannelRs.BootstrapSuccess
import FlannelRs.OverlaySafety

/-!
# How a cluster comes up

What the overlay may do when nothing goes wrong: a node without links comes up, and a round brings
in its peers.
-/

namespace FlannelRs.OverlayProgress
open InteractionPrograms ProcessPools Ipv4Addresses CniTypes Flanneld KernelTables PeerFailures
open LeasePublication VxlanDevices FlanneldBootstrap FlanneldDaemon OverlayCluster OverlaySafety
open BootstrapSuccess

/-- No request fails, and nothing else stands where an entry belongs. -/
def Steady (s : State) (o : PeerOp) (r : PeerRes o) (s' : State) : Prop :=
  ToleratedAnswers s o r s' ∧ s.kernel.Answers o r s'.kernel

/-- The store has the node objects as they are. -/
def Current (w : World) (a : String) : Prop :=
  ∀ v, v ∈ (w.hosts a).store ↔ ∃ b o, w.objects b = some o ∧ v = o.toNode

variable [Crates] {S : Cluster} {w : World} {a : String}
  {kernel : Environment State PeerOp PeerRes} {c : Cluster.ClusterConfig}

/-- What has changed when a node has come up. -/
structure Joined (S : Cluster) (a publicIp : String) (m : Mac) (o : NodeObject)
    (boot : BootstrapState) (w w' : World) : Prop where
  object : ∃ ann, Stored (buildPublishPatch S.backend publicIp (some (linkMac m.bytes))) ann ∧
    w'.objects a = some { o with annotations := some ann }
  others : ∀ b, b ≠ a → w'.objects b = w.objects b ∧ w'.hosts b = w.hosts b
  peers : (w'.hosts a).peers = (w.hosts a).peers
  running : (w'.hosts a).running = some ⟨boot, ∅⟩

/-- A node without links can come up. -/
theorem reachable_joined {endpoint : Ipv4Addr}
    (h : (S.system kernel).Reachable c ⟨w, fun _ => none⟩)
    (hrun : (w.hosts a).running = none) (hb : S.backend = .vxlan) {o : NodeObject} {own : OwnNode}
    {cidr : Ipv4Network} (hobj : w.objects a = some o) (hown : extractOwnNode o = .ok own)
    (hip : parseIpv4 own.publicIp = some endpoint)
    (hcidr : Crates.parseNetwork own.podCidr = some cidr)
    (hfresh : (w.hosts a).links = VxlanConvergence.noLinks) {m : Mac} (howner : S.owner m = a) :
    ∃ boot w', boot.devIdx = 4 ∧ boot.backend = S.backend ∧
      Joined S a own.publicIp m o boot w w' ∧
      (S.system kernel).Reachable c ⟨w', fun _ => none⟩ := by
  let emptied := w.setHost a { w.hosts a with store := [] }
  obtain ⟨boot, mtu, ann, hidx, hbackend, hann, hexec⟩ := exists_bootstrap (S := S) (w := emptied)
    hb hobj hown hip hcidr (by simpa [emptied]) howner 0
  let leased := published S a own.publicIp endpoint cidr.network mtu m ann emptied
  have hanswered :
      Exec (S.answers kernel a) emptied (onHost (bootstrap 1)) (some (.ok boot)) leased :=
    Exec.interpret_send (f := DaemonOp.host) (hexec.project id fun _ _ _ _ h => h.1)
  obtain ⟨budget, hcut⟩ := hanswered.exists_cut
  have hstart : (S.system kernel).start (some a) (.bootstrap 1 budget) w emptied := ⟨hrun, rfl⟩
  let w' := leased.setHost a { leased.hosts a with running := some ⟨boot, ∅⟩ }
  have hreached : (S.system kernel).Reachable c ⟨w', fun _ => none⟩ :=
    h.done hstart (hcut.bind (.ret ..)) rfl
  have hobjects : w'.objects = Function.update w.objects a
    (some { (w.objects a).getD (World.blank a) with annotations := some ann }) := rfl
  have hleased : leased.hosts = (emptied.setHost a { emptied.hosts a with
    links := VxlanConvergence.oneLink 4 (readyDevice endpoint cidr.network mtu m) }).hosts := rfl
  refine ⟨boot, w', hidx, hbackend, ⟨⟨ann, hann, ?_⟩, fun b hb => ⟨?_, ?_⟩, ?_, ?_⟩, hreached⟩
  · rw [hobjects, Function.update_self, hobj]
    rfl
  · rw [hobjects, Function.update_of_ne hb]
  · rw [World.setHost_other hb, hleased, World.setHost_other hb, World.setHost_other hb]
  · simp only [w', World.setHost_self, hleased, emptied]
  · simp only [w', World.setHost_self]

theorem round_of_reconciles {boot : BootstrapState} {masq : Bool} {installed desired : PeerMap}
    {ev : LoopEvent} (hev : ev.Reconciles) : round boot masq installed desired ev = (do
      return some (← onPeers (reconcilePeers boot.backend boot.devIdx installed desired))) := by
  rcases hev with rfl | rfl <;> rfl

theorem exec_round {boot : BootstrapState} {masq : Bool} {installed desired next : PeerMap}
    {ev : LoopEvent} (hev : ev.Reconciles) {s : State} (h : Exec kernel (w.hosts a).peers
      (reconcilePeers boot.backend boot.devIdx installed desired) next s) :
    Exec (S.answers kernel a) w (round boot masq installed desired ev) (some next)
      (w.setHost a { w.hosts a with peers := s }) := by
  rw [round_of_reconciles hev]
  refine Exec.bind (Exec.interpret_send (f := DaemonOp.peer) ?_) (.ret ..)
  refine Exec.lift (E := kernel) (t := fun w : World => (w.hosts a).peers)
    (fun w k => w.setHost a { w.hosts a with peers := k }) ?_ ?_ ?_ ?_ h rfl
  · exact fun w k => by simp
  · exact fun w k k' => by simp
  · exact fun w => World.setHost_same
  · exact fun w o r k hk => ⟨k, hk, rfl⟩

/-- A round of a node. -/
theorem reachable_round (h : (S.system kernel).Reachable c ⟨w, fun _ => none⟩)
    {boot : BootstrapState} {masq : Bool} {installed desired next : PeerMap} {ev : LoopEvent}
    {w' : World} (hstart : ∀ budget,
      S.starts (some a) (.round boot masq installed desired ev budget) w w)
    (hexec : Exec (S.answers kernel a) w (round boot masq installed desired ev) (some next) w') :
    (S.system kernel).Reachable c
      ⟨w'.setHost a { w'.hosts a with running := some ⟨boot, next⟩ }, fun _ => none⟩ := by
  obtain ⟨budget, hcut⟩ := hexec.exists_cut
  have hround :
      (S.system kernel).start (some a) (.round boot masq installed desired ev budget) w w :=
    hstart budget
  exact h.done hround (hcut.bind (.ret ..)) rfl

theorem reachable_write (h : (S.system kernel).Reachable c ⟨w, fun _ => none⟩) {o : NodeObject}
    (hw : S.Writes a (w.objects a) o) :
    (S.system kernel).Reachable c ⟨w.write a o, fun _ => none⟩ := by
  have hstart : (S.system kernel).start none (.write a o) w (w.write a o) := ⟨hw, rfl⟩
  exact h.done hstart (.ret ..) rfl

theorem reachable_deliver (h : (S.system kernel).Reachable c ⟨w, fun _ => none⟩)
    (nodes : List Node) (hdistinct : (nodes.map Node.name).Nodup) (hnodes : ∀ v ∈ nodes, v ∈ w.versions) :
    (S.system kernel).Reachable c
      ⟨w.setHost a { w.hosts a with store := nodes }, fun _ => none⟩ := by
  have hstart : (S.system kernel).start none (.deliver a nodes) w
    (w.setHost a { w.hosts a with store := nodes }) := ⟨hdistinct, hnodes, rfl⟩
  exact h.done hstart (.ret ..) rfl

/-- The lease of the second node. -/
def pairPeer : Peer := ⟨"b", "10.244.2.0/24", "172.18.0.3", some (linkMac vtep.bytes)⟩

omit [Crates] in
/-- The first round on an empty kernel. -/
theorem exists_steady : ∃ next s', Exec Steady ⟨⟨∅, ∅, ∅⟩, false⟩
    (@reconcilePeers Crates.compact .vxlan 4 ∅ (AList.singleton "b" pairPeer)) next s' := by
  let := Crates.compact
  let answer (o : PeerOp) (s : State) : Option (PeerRes o × State) :=
    if Tolerated s o (respond (fun _ => false) o s).1 then some (respond (fun _ => false) o s)
    else none
  have hrun : ((reconcilePeers .vxlan 4 ∅ (AList.singleton "b" pairPeer)).run answer
      ⟨⟨∅, ∅, ∅⟩, false⟩).isSome := by
    decide +kernel
  obtain ⟨⟨next, s'⟩, hrun⟩ := Option.isSome_iff_exists.mp hrun
  refine ⟨next, s', Program.exec_of_run (fun o s r s₁ hr => ?_) hrun⟩
  by_cases htol : Tolerated s o (respond (fun _ => false) o s).1
  · simp only [answer, if_pos htol] at hr
    obtain rfl := (congrArg Prod.fst (Option.some.inj hr)).symm
    obtain rfl := (congrArg Prod.snd (Option.some.inj hr)).symm
    exact ⟨⟨respond_answers _ o s, htol⟩, s.kernel.perform_answers o⟩
  · simp only [answer, if_neg htol] at hr
    cases hr

/-- Both nodes are there, and the first one has up-to-date leases. -/
structure Met (S : Cluster) (c : Cluster.ClusterConfig) (boot : BootstrapState)
    (desired next : PeerMap) (w w' : World) (o : NodeObject) : Prop where
  fresh : S.Fresh c
  reachable : (S.system ToleratedAnswers).Reachable c ⟨w, fun _ => none⟩
  current : Current w "a"
  start : ∀ budget, S.starts (some "a") (.round boot false ∅ desired .watched budget) w w
  exec : Exec (S.answers Steady "a") w (round boot false ∅ desired .watched) (some next) w'
  object : w.objects "b" = some o
  peer : nodeToPeer o.toNode S.backend = some pairPeer
  running : (w.hosts "b").running.isSome

omit [Crates] in
theorem fresh_pair : @Cluster.Fresh Crates.compact pair ⟨freshWorld, fun _ => none⟩ := by
  let := Crates.compact
  refine ⟨⟨fun _ => rfl, fun a => ⟨?_, ?_, rfl, rfl⟩, rfl, rfl⟩, fun _ => rfl⟩
  · intro i d bytes h
    cases h
  · intro oif x _
    cases x <;> rfl

omit [Crates] in
theorem writes_nodeObject (n publicIp : String) :
    @Cluster.Writes Crates.compact pair n none (nodeObject n publicIp) := by
  let := Crates.compact
  exact ⟨rfl, fun _ h => (Option.some.inj h).symm, fun _ => rfl⟩

omit [Crates] in
theorem exists_met : ∃ c boot desired next w w' o,
    @Met Crates.compact pair c boot desired next w w' o := by
  let := Crates.compact
  let c : Cluster.ClusterConfig := ⟨freshWorld, fun _ => none⟩
  let oa := nodeObject "a" "172.18.0.2"
  let ob := nodeObject "b" "172.18.0.3"
  have hwritten : (pair.system ToleratedAnswers).Reachable c
      ⟨(freshWorld.write "a" oa).write "b" ob, fun _ => none⟩ :=
    reachable_write (reachable_write .here (writes_nodeObject "a" "172.18.0.2"))
      (writes_nodeObject "b" "172.18.0.3")
  obtain ⟨bootb, w₁, -, -, hjoinb, hb⟩ := reachable_joined (a := "b") (o := ob)
    (m := vtep) hwritten rfl rfl World.write_self
    (show extractOwnNode ob = .ok ⟨"10.244.2.0/24", "172.18.0.3"⟩ from rfl)
    (show parseIpv4 "172.18.0.3" = some (.ofOctets 172 18 0 3) by decide +kernel)
    (show Crates.parseNetwork "10.244.2.0/24" = some (pairNet 2) by decide +kernel) rfl
    (by decide +kernel)
  have hba : "b" ≠ "a" := by decide
  have hobja : w₁.objects "a" = some oa := (hjoinb.others "a" hba.symm).1
  have hosta : w₁.hosts "a" = freshHost := (hjoinb.others "a" hba.symm).2
  obtain ⟨boot, w₂, hidx, hbackend, hjoina, ha⟩ := reachable_joined (a := "a") (o := oa)
    (m := pairMac) hb (by rw [hosta]; rfl) rfl hobja
    (show extractOwnNode oa = .ok ⟨"10.244.1.0/24", "172.18.0.2"⟩ from rfl)
    (show parseIpv4 "172.18.0.2" = some (.ofOctets 172 18 0 2) by decide +kernel)
    (show Crates.parseNetwork "10.244.1.0/24" = some (pairNet 1) by decide +kernel)
    (by rw [hosta]; rfl) rfl
  obtain ⟨anna, -, hnewa⟩ := hjoina.object
  obtain ⟨annb, hannb, hnewb⟩ := hjoinb.object
  rw [← (hjoina.others "b" hba).1] at hnewb
  have hinv := (reached backendDataRead_compact (fun _ _ _ _ h => h.1) fresh_pair ha).1
  let na : NodeObject := { oa with annotations := some anna }
  let nb : NodeObject := { ob with annotations := some annb }
  have hdelivered := reachable_deliver (a := "a") ha [na.toNode, nb.toNode]
    (show [some "a", some "b"].Nodup by decide) (by
      simp only [List.mem_cons, List.not_mem_nil, or_false, forall_eq_or_imp, forall_eq]
      exact ⟨(hinv.objects "a" na hnewa).2, (hinv.objects "b" nb hnewb).2⟩)
  let w₃ := w₂.setHost "a" { w₂.hosts "a" with store := [na.toNode, nb.toNode] }
  have hcurrent : Current w₃ "a" := by
    intro v
    simp only [w₃, World.setHost_self, List.mem_cons, List.not_mem_nil, or_false]
    constructor
    · rintro (rfl | rfl)
      · exact ⟨"a", na, hnewa, rfl⟩
      · exact ⟨"b", nb, hnewb, rfl⟩
    · rintro ⟨n, o, ho, rfl⟩
      by_cases hna : n = "a"
      · subst hna
        exact .inl (congrArg NodeObject.toNode (Option.some.inj (ho.symm.trans hnewa)))
      · by_cases hnb : n = "b"
        · subst hnb
          exact .inr (congrArg NodeObject.toNode (Option.some.inj (ho.symm.trans hnewb)))
        · change w₂.objects n = some o at ho
          rw [(hjoina.others n hna).1, (hjoinb.others n hnb).1, World.write_other hnb,
            World.write_other hna] at ho
          cases ho
  have hlease : leaseOf pair.backend nb.toNode = some ("172.18.0.3", some (linkMac vtep.bytes)) :=
    leaseOf_of_stored backendDataRead_compact (by simp [pair]) rfl hannb
  have hpeer : nodeToPeer nb.toNode pair.backend = some pairPeer :=
    nodeToPeer_eq_some.mpr ⟨rfl, rfl, hlease⟩
  have hdesired : desiredFromNodes [na.toNode, nb.toNode] "a" pair.backend =
      AList.singleton "b" pairPeer := by
    have hnamea : na.toNode.name.getD "" = "a" := rfl
    have hnameb : nb.toNode.name.getD "" = "b" := rfl
    simp only [desiredFromNodes, List.foldl_cons, List.foldl_nil, hnamea, hnameb, if_pos, hpeer,
      if_neg hba]
    exact AList.ext rfl
  obtain ⟨next, s', hsteady⟩ := exists_steady
  have hhost : w₃.hosts "a" = { w₂.hosts "a" with store := [na.toNode, nb.toNode] } :=
    World.setHost_self
  refine ⟨c, boot, AList.singleton "b" pairPeer, next, w₃, _, nb, fresh_pair, hdelivered, hcurrent,
    fun budget => ?_, exec_round (.inl rfl) (s := s') ?_, hnewb, hpeer, ?_⟩
  · refine ⟨rfl, ⟨boot, ∅⟩, ?_, rfl, .refl _, ?_⟩
    · rw [hhost]
      exact hjoina.running
    · rw [hhost, hbackend, hdesired]
  · rw [hhost, hjoina.peers, hosta, hidx, hbackend]
    exact hsteady
  · rw [show w₃.hosts "b" = w₂.hosts "b" from World.setHost_other hba, (hjoina.others "b" hba).2,
      hjoinb.running]
    rfl

end FlannelRs.OverlayProgress
