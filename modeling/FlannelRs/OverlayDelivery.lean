import FlannelRs.OverlayProgress

/-!
# Where the packets of the overlay go

No packet for a pod of another node goes to a third node, and a round with an up-to-date store
brings the packets to their node.
-/

namespace FlannelRs.OverlayDelivery
open InteractionPrograms ProcessPools Ipv4Addresses JsonValues CniTypes Flanneld ExclusiveTables
open KernelTables PeerReconciliation PeerFailures PeerBookkeeping LeasePublication VxlanDevices
open FlanneldBootstrap FlanneldDaemon OverlayCluster OverlayRequests OverlayInvariant OverlaySafety
open PacketForwarding OverlayProgress
open BootstrapSuccess (pair pairNet)

variable [Crates] {S : Cluster} {w : World} {a b : String} {net : Ipv4Network} {ip : Ipv4Addr}

/-- Of a known peer the pod network is that of its node. -/
theorem net_of_known {patches : List (String × Json)} {p : Peer} (h : Known S patches p) :
    Crates.parseNetwork p.podCidr = S.net p.node := by
  rw [h.podCidr]
  rfl

/-- A route for an address of another node that is as specific as its pod network is the route of
this network. -/
theorem route_of_inv (hi : Inv S w) (hab : b ≠ a) (hnet : S.net b = some net)
    (hip : net.contains ip = true) {dst : Ipv4Addr} {len oif : ℕ} {g : Gateway}
    (hroute : (w.hosts a).peers.kernel.routes.lookup (dst, len, oif) = some g)
    (hcovers : covers dst len ip = true) (hlen : net.len ≤ len) :
    dst = net.network ∧ len = net.len ∧ match S.backend with
      | .vxlan => g = ⟨net.network, true⟩
      | .hostGw => ∃ p gw, p.node = b ∧ Known S w.patches p ∧ parseIpv4 p.publicIp = some gw ∧
          g = ⟨gw, false⟩ := by
  have hdst := contains_of_covers hlen hcovers hip
  have hconcerns : S.Concerns a (.route dst len) := ⟨b, net, hab, hnet, hlen, hdst⟩
  obtain ⟨p, -, hp, hmem⟩ := hi.entries a oif _ _ hconcerns (view_route.mpr ⟨g, hroute, rfl⟩)
  have howner : ∀ n, S.net p.node = some n → dst = n.network → p.node = b ∧ n = net := by
    rintro n hn rfl
    have hnode := S.disjoint _ _ n net _ hn hnet n.contains_network hdst
    refine ⟨hnode, ?_⟩
    rw [hnode] at hn
    exact Option.some.inj (hn.symm.trans hnet)
  rw [mem_entries] at hmem
  cases hb : S.backend with
  | vxlan =>
    rw [hb] at hmem
    rcases hmem with ⟨n, hn, hx, hv⟩ | hl2
    · rw [net_of_known hp] at hn
      obtain ⟨rfl, rfl⟩ := Key.route.inj hx
      obtain ⟨-, rfl⟩ := howner n hn rfl
      exact ⟨rfl, rfl, Value.gateway.inj hv⟩
    · obtain ⟨m, n, u, -, -, -, ⟨hx, -⟩ | ⟨hx, -⟩⟩ := mem_l2Entries.mp hl2 <;> cases hx
  | hostGw =>
    rw [hb] at hmem
    obtain ⟨n, gw, hn, hgw, hx, hv⟩ := hmem
    rw [net_of_known hp] at hn
    obtain ⟨rfl, rfl⟩ := Key.route.inj hx
    obtain ⟨hnode, rfl⟩ := howner n hn rfl
    exact ⟨rfl, rfl, p, gw, hnode, hp, hgw, Value.gateway.inj hv⟩

/-- An address of the second layer is that of the node in whose network it stands. -/
theorem l2_of_inv (hi : Inv S w) {oif : ℕ} {x : Key} {v : Value} (hx : S.Concerns a x)
    (hview : (w.hosts a).peers.kernel.view oif x = some v)
    (hroute : ∀ dst len, x ≠ .route dst len) : ∃ p m n u, Known S w.patches p ∧
      mac p = some m ∧ S.owner m = p.node ∧ S.net p.node = some n ∧ parseIpv4 p.publicIp = some u ∧
      ((x = .neighbour n.network ∧ v = .mac m) ∨ (x = .fdb m ∧ v = .underlay u)) := by
  obtain ⟨p, -, hp, hmem⟩ := hi.entries a oif x v hx hview
  have hl2 : (x, v) ∈ l2Entries p := by
    rw [mem_entries] at hmem
    cases hb : S.backend with
    | vxlan =>
      rw [hb] at hmem
      rcases hmem with ⟨n, -, h, -⟩ | hl2
      · exact absurd h (hroute _ _)
      · exact hl2
    | hostGw =>
      rw [hb] at hmem
      obtain ⟨n, gw, -, -, h, -⟩ := hmem
      exact absurd h (hroute _ _)
  obtain ⟨m, n, u, hm, hn, hu, hentry⟩ := mem_l2Entries.mp hl2
  rw [net_of_known hp] at hn
  exact ⟨p, m, n, u, hp, hm, (mac_of_known hp hm).2, hn, hu, hentry⟩

theorem mac_eq_none (hb : S.backend = .hostGw) {patches : List (String × Json)} {p : Peer}
    (h : Known S patches p) : mac p = none := by
  have hmade := h.published.legit.vtepMac
  unfold MadeBy at hmade
  rw [hb] at hmade
  simp [mac, show p.vtepMac = none from hmade]

/-- A hop that is as specific as the pod network of another node leads to what that node has
published. -/
theorem hop_of_inv (hi : Inv S w) (hab : b ≠ a) (hnet : S.net b = some net)
    (hip : net.contains ip = true) {h : Hop} (hhop : h ∈ hops (w.hosts a).peers.kernel ip)
    (hlen : net.len ≤ h.len) : ∃ p, p.node = b ∧ Known S w.patches p ∧
      parseIpv4 p.publicIp = some h.underlay ∧ h.mac = mac p := by
  obtain ⟨dst, len, oif, g, hroute, hcovers, -, hstep⟩ := mem_hops.mp hhop
  have hhlen := (hop_route hstep).1
  obtain ⟨rfl, rfl, hg⟩ := route_of_inv hi hab hnet hip hroute hcovers (hhlen ▸ hlen)
  cases hb : S.backend with
  | vxlan =>
    rw [hb] at hg
    obtain rfl := hg
    obtain ⟨m, u, hneighbour, hfdb, rfl⟩ := hop_onlink hstep
    obtain ⟨p, m', n, u', hp, hm, howner, hn, hu, ⟨hx, hv⟩ | ⟨hx, -⟩⟩ := l2_of_inv hi
      (x := .neighbour net.network) ⟨b, net, hab, hnet, rfl⟩
      (view_neighbour.mpr ⟨m, hneighbour, rfl⟩) (fun _ _ hx => by cases hx)
    · obtain rfl := Value.mac.inj hv
      have hnetwork : n.contains net.network = true := by
        rw [Key.neighbour.inj hx]
        exact n.contains_network
      have hnode := S.disjoint _ _ n net _ hn hnet hnetwork net.contains_network
      obtain ⟨q, m', n', u', hq, hm', howner', -, hu', ⟨hx', -⟩ | ⟨hx', hv'⟩⟩ := l2_of_inv hi
        (x := .fdb m) (fun he => hab (by rw [← hnode, ← howner, he]))
        (view_fdb.mpr ⟨u, hfdb, rfl⟩) (fun _ _ hx => by cases hx)
      · cases hx'
      · obtain rfl := Key.fdb.inj hx'
        obtain rfl := Value.underlay.inj hv'
        refine ⟨q, ?_, hq, hu', hm'.symm⟩
        rw [← howner', howner, hnode]
    · cases hx
  | hostGw =>
    rw [hb] at hg
    obtain ⟨p, gw, hnode, hp, hgw, rfl⟩ := hg
    obtain rfl := Option.some.inj (show some ⟨_, oif, gw, none⟩ = some h from hstep)
    exact ⟨p, hnode, hp, hgw, (mac_eq_none hb hp).symm⟩

/-- Over the interface the packets go to the peer, and nowhere else. An equally specific route over
another interface is not looked at. -/
def Delivers (k : Kernel) (idx : ℕ) (p : Peer) (ip : Ipv4Addr) : Prop :=
  ∃ h ∈ hops k ip, h.oif = idx ∧ parseIpv4 p.publicIp = some h.underlay ∧ h.mac = mac p ∧
    ∀ h' ∈ hops k ip, h'.oif = idx → h' = h

/-- The route of a peer that is present, with the hop behind it. -/
theorem route_of_present {k : Kernel} {idx : ℕ} {p : Peer}
    (h : Present S.backend (k.view idx) p) {patches : List (String × Json)}
    (hp : Known S patches p) (hnet : S.net p.node = some net) : ∃ g u,
      k.routes.lookup (net.network, net.len, idx) = some g ∧ parseIpv4 p.publicIp = some u ∧
      hop k net.len idx g = some ⟨net.len, idx, u, mac p⟩ := by
  obtain ⟨u, hu⟩ := Option.isSome_iff_exists.mp h.parses.publicIp
  have hparse := (net_of_known hp).trans hnet
  have hentries := h.entries
  simp only [mem_entries] at hentries
  cases hb : S.backend with
  | vxlan =>
    rw [hb] at hentries
    obtain ⟨m, hm⟩ := Option.isSome_iff_exists.mp (h.parses.vtepMac hb)
    obtain ⟨g, hg, hgate⟩ := view_route.mp (hentries _ _ (.inl ⟨net, hparse, rfl, rfl⟩))
    obtain ⟨m', hm', hmac⟩ := view_neighbour.mp (hentries _ _ (.inr (mem_l2Entries.mpr
      ⟨m, net, u, hm, hparse, hu, .inl ⟨rfl, rfl⟩⟩)))
    obtain ⟨u', hu', hunderlay⟩ := view_fdb.mp (hentries _ _ (.inr (mem_l2Entries.mpr
      ⟨m, net, u, hm, hparse, hu, .inr ⟨rfl, rfl⟩⟩)))
    obtain rfl := Value.gateway.inj hgate
    obtain rfl := Value.mac.inj hmac
    obtain rfl := Value.underlay.inj hunderlay
    exact ⟨_, u, hg, hu, by simp [hop, hm', hu', hm]⟩
  | hostGw =>
    rw [hb] at hentries
    obtain ⟨g, hg, hgate⟩ := view_route.mp (hentries _ _ ⟨net, u, hparse, hu, rfl, rfl⟩)
    obtain rfl := Value.gateway.inj hgate
    exact ⟨_, u, hg, hu, by simp [hop, mac_eq_none hb hp]⟩

/-- The route of a present peer is the most specific one. -/
theorem hop_of_present (hi : Inv S w) {idx : ℕ} {p : Peer} (hne : p.node ≠ a)
    (h : Present S.backend ((w.hosts a).peers.kernel.view idx) p) (hp : Known S w.patches p)
    (hnet : S.net p.node = some net) (hip : net.contains ip = true) :
    ∃ u, parseIpv4 p.publicIp = some u ∧
      ⟨net.len, idx, u, mac p⟩ ∈ hops (w.hosts a).peers.kernel ip ∧
      ∀ h' ∈ hops (w.hosts a).peers.kernel ip, h'.oif = idx → h' = ⟨net.len, idx, u, mac p⟩ := by
  obtain ⟨g, u, hroute, hu, hhop⟩ := route_of_present h hp hnet
  have hcovers : covers net.network net.len ip = true := by rwa [covers_network]
  refine ⟨u, hu, ?_, fun h' hh' hoif => ?_⟩
  · refine mem_hops.mpr ⟨net.network, net.len, idx, g, hroute, hcovers, ?_, hhop⟩
    intro dst len oif g' hroute' hcovers'
    rcases Nat.le_total len net.len with hle | hle
    · exact hle
    · exact (route_of_inv hi hne hnet hip hroute' hcovers' hle).2.1.le
  · obtain ⟨dst, len, oif, g', hroute', hcovers', hmost, hhop'⟩ := mem_hops.mp hh'
    obtain ⟨rfl, rfl, -⟩ := route_of_inv hi hne hnet hip hroute' hcovers'
      (hmost _ _ _ _ hroute hcovers)
    obtain rfl : oif = idx := (hop_route hhop').2.symm.trans hoif
    obtain rfl := Option.some.inj (hroute'.symm.trans hroute)
    exact Option.some.inj (hhop'.symm.trans hhop)

theorem present_of_runs {r : Running} (hr : Runs S ToleratedAnswers a r w) {p : Peer}
    (hp : r.installed.lookup b = some p) : p.node = b ∧ b ≠ a ∧ Known S w.patches p ∧
      Present S.backend ((w.hosts a).peers.kernel.view r.boot.devIdx) p := by
  obtain ⟨hne, hknown⟩ := hr.known b p hp
  have hkept := hr.kept fun _ _ _ _ => id
  exact ⟨hr.keyed b p hp, hne, hknown, hkept.present _ p hp⟩

theorem delivers_of_runs {r : Running} (hi : Inv S w) (hr : Runs S ToleratedAnswers a r w)
    {p : Peer} (hp : r.installed.lookup b = some p) (hnet : S.net b = some net)
    (hip : net.contains ip = true) : Delivers (w.hosts a).peers.kernel r.boot.devIdx p ip := by
  obtain ⟨rfl, hne, hknown, hpresent⟩ := present_of_runs hr hp
  obtain ⟨u, hu, hhop, honly⟩ := hop_of_present hi hne hpresent hknown hnet hip
  exact ⟨_, hhop, rfl, hu, rfl, honly⟩

/-- The tunnel device takes frames for its own hardware address. -/
def Accepts (l : Links) (m : Mac) : Prop :=
  ∃ i d, l.devices.lookup i = some d ∧ d.name = dev ∧ d.address = some m.bytes

/-- The addition of a peer in the course of a call. -/
theorem exec_of_ran {σ : Type} {answers : Environment σ PeerOp PeerRes} {backend : BackendType}
    {idx : ℕ} {added : Peer → Bool} {s s' : σ} {as : List Action} {p : Peer}
    (h : Ran answers backend idx added s as s') (hp : Action.add p ∈ as) :
    ∃ s₁ s₂, Exec answers s₁ (addPeer backend idx p) (added p) s₂ := by
  induction h with
  | nil s => cases hp
  | @add s s₁ s₂ q as first rest ih =>
    rcases List.mem_cons.mp hp with hq | hp
    · obtain rfl := Action.add.inj hq
      exact ⟨s, s₁, first⟩
    · exact ih hp
  | remove first rest ih =>
    rcases List.mem_cons.mp hp with hq | hp
    · cases hq
    · exact ih hp

/-- Every desired peer that can be read is installed. -/
theorem lookup_of_steady {backend : BackendType} {idx : ℕ} {installed desired next : PeerMap}
    {s s' : State} (hi : Keyed installed) (hd : Keyed desired)
    (hexec : Exec Steady s (reconcilePeers backend idx installed desired) next s') {n : String}
    {p : Peer} (hp : desired.lookup n = some p) (hparses : Parses backend p) :
    next.lookup n = some p := by
  obtain ⟨added, hran, rfl⟩ := exists_ran (nodup_reconcile hi hd) hexec
  rw [(bookkept hi hd added).held]
  refine ⟨hp, ?_⟩
  by_cases hold : installed.lookup n = some p
  · exact .inl hold
  · right
    obtain rfl := hd n p hp
    have hmem : Action.add p ∈ reconcile installed desired := by
      rw [mem_reconcile hi hd, add_mem_actionsAt]
      exact ⟨hp, hold⟩
    obtain ⟨s₁, s₂, hadd⟩ := exec_of_ran hran hmem
    have hkernel : Exec (fun k o r k' => k.Answers o r k') s₁.kernel (addPeer backend idx p)
        (added p) s₂.kernel := hadd.project State.kernel fun _ _ _ _ h => h.2
    exact (hkernel.wlp (KernelTables.wlp_addPeer backend p)).1.mpr hparses

/-- What a node has published can be read. -/
theorem parses_of_known {patches : List (String × Json)} {p : Peer} (h : Known S patches p) :
    Parses S.backend p := by
  refine ⟨?_, h.published.legit.publicIp, fun hb => ?_⟩
  · rw [net_of_known h]
    exact h.published.legit.podCidr
  · have hmade := h.published.legit.vtepMac
    unfold MadeBy at hmade
    rw [hb] at hmade
    obtain ⟨m, hm, -⟩ := hmade
    simp [mac, hm, parseMac_linkMac, Except.toOption]

/-- The peer that a node object stands for is desired. -/
theorem lookup_desired (hi : Inv S w) (hcurrent : Current w a) {desired : PeerMap}
    (hperm : desired.entries.Perm (desiredFromNodes (w.hosts a).store a S.backend).entries)
    (hab : b ≠ a) {o : NodeObject} (hobj : w.objects b = some o) {p : Peer}
    (hp : nodeToPeer o.toNode S.backend = some p) : desired.lookup b = some p := by
  rw [AList.perm_lookup hperm, lookup_desiredFromNodes (hi.distinct a)]
  exact ⟨hab, o.toNode, (hcurrent _).mpr ⟨b, o, hobj, rfl⟩, (hi.objects b o hobj).1, hp⟩

/-- A frame for the hardware address that a node has published last is taken there. -/
theorem accepts_of_attempted (hi : Inv S w) (hb : S.backend = .vxlan) {boot : BootstrapState}
    (hs : Attempted S b boot w) {o : NodeObject} (hobj : w.objects b = some o) {p : Peer}
    (hp : nodeToPeer o.toNode S.backend = some p) :
    ∃ m, mac p = some m ∧ Accepts (w.hosts b).links m := by
  obtain ⟨text, ⟨d, hd, hname, hmac⟩, hlease⟩ := hs.2 hb
  have hl := hlease o p.publicIp p.vtepMac hobj (nodeToPeer_eq_some.mp hp).2.2
  obtain ⟨honame, hmem⟩ := hi.objects b o hobj
  obtain ⟨n, hv⟩ := hi.versions _ hmem
  have hmade := (hv.known hp).published.legit.vtepMac
  unfold MadeBy at hmade
  rw [hb] at hmade
  obtain ⟨m, hm, -⟩ := hmade
  rw [← hl, hm] at hmac
  obtain ⟨bytes, hbytes, htext⟩ := Option.map_eq_some_iff.mp hmac
  obtain ⟨m', rfl, -⟩ := hi.owned b boot.devIdx d bytes hd hname hbytes
  obtain rfl : m' = m := by
    have hparse := parseMac_linkMac m'
    rw [htext, parseMac_linkMac] at hparse
    exact (Except.ok.inj hparse).symm
  exact ⟨m', by simp [mac, hm, parseMac_linkMac, Except.toOption], boot.devIdx, d, hd, hname,
    hbytes⟩

theorem tolerated_of_steady {w' : World} {α : Type} {prog : DaemonProgram α} {x : α}
    (h : Exec (S.answers Steady a) w prog x w') :
    Exec (S.answers ToleratedAnswers a) w prog x w' := by
  refine h.project id fun w o res w' h => ?_
  cases o with
  | host o => exact h
  | nat c => exact h
  | peer o =>
    obtain ⟨k, hk, hw⟩ := h
    exact ⟨k, hk.1, hw⟩

/-- A round installs what the node objects say. -/
theorem lookup_after_round {r : Running} (hi : Inv S w) (hr : Runs S ToleratedAnswers a r w)
    (hcurrent : Current w a) {masq : Bool} {desired next : PeerMap}
    (hdesired : desired.entries.Perm (desiredFromNodes (w.hosts a).store a S.backend).entries)
    {ev : LoopEvent} {w' : World} (hev : ev.Reconciles)
    (hexec : Exec (S.answers Steady a) w (round r.boot masq r.installed desired ev) (some next) w')
    (hab : b ≠ a) {o : NodeObject} (hobj : w.objects b = some o) {p : Peer}
    (hp : nodeToPeer o.toNode S.backend = some p) : next.lookup b = some p := by
  rw [round_of_reconciles hev] at hexec
  obtain ⟨next', w₁, hround, hret⟩ := hexec.of_bind
  cases hret
  have hpeers : Exec Steady (w.hosts a).peers
      (reconcilePeers r.boot.backend r.boot.devIdx r.installed desired) next
      (w'.hosts a).peers := by
    refine (Exec.of_interpret_send (f := DaemonOp.peer) hround).project
      (fun w => (w.hosts a).peers) ?_
    rintro w o res _ ⟨k, hk, rfl⟩
    simpa using hk
  refine lookup_of_steady hr.keyed (fun n q hq => (known_of_desired hi hdesired hq).1.symm) hpeers
    (lookup_desired hi hcurrent hdesired hab hobj hp) ?_
  obtain ⟨-, hmem⟩ := hi.objects b o hobj
  obtain ⟨n, hv⟩ := hi.versions _ hmem
  rw [hr.attempted.1]
  exact parses_of_known (hv.known hp)

omit [Crates] in
/-- A round of the first of two nodes with which it has met the second one. -/
theorem exists_connected : ∃ c w r, @Cluster.Fresh Crates.compact pair c ∧
    (@Cluster.system Crates.compact pair ToleratedAnswers).Reachable c ⟨w, fun _ => none⟩ ∧
    (w.hosts "a").running = some r ∧ r.installed.lookup "b" = some pairPeer := by
  let := Crates.compact
  obtain ⟨c, boot, desired, next, w, w', o, hmet⟩ := exists_met
  obtain ⟨hi, hidle⟩ :=
    reached backendDataRead_compact (fun _ _ _ _ h => h.1) hmet.fresh hmet.reachable
  obtain ⟨-, r, hrun, rfl, hinstalled, hdesired⟩ := hmet.start 0
  have hr := (hidle (some "a") rfl "a" rfl r hrun).perm hinstalled
  rw [hr.attempted.1] at hdesired
  have hlookup := lookup_after_round hi hr hmet.current hdesired (.inl rfl) hmet.exec
    (show "b" ≠ "a" by decide) hmet.object hmet.peer
  refine ⟨c, _, ⟨r.boot, next⟩, hmet.fresh, reachable_round hmet.reachable hmet.start
    (tolerated_of_steady hmet.exec), ?_, hlookup⟩
  rw [World.setHost_self]

/-- In every run, whatever requests fail, whatever is out of date and whenever `flanneld` is
ended or a node started again, a route that is as specific as the pod network of another node sends
the packets for its pods to nothing but an address that this node has published, in frames for a
hardware address that it has made. -/
theorem never_misdelivered (S : Cluster) (hjson : BackendDataRead) {c d : Cluster.ClusterConfig}
    (hc : S.Fresh c) (h : (S.system Answers).Reachable c d) {a b : String} (hab : b ≠ a)
    {net : Ipv4Network} (hnet : S.net b = some net) {ip : Ipv4Addr} (hip : net.contains ip = true)
    {hop : Hop} (hhop : hop ∈ hops (d.state.hosts a).peers.kernel ip) (hlen : net.len ≤ hop.len) :
    ∃ publicIp vtepMac, (b, buildPublishPatch S.backend publicIp vtepMac) ∈ d.state.patches ∧
      parseIpv4 publicIp = some hop.underlay ∧ (hop.mac.isSome ↔ S.backend = .vxlan) ∧
      ∀ m ∈ hop.mac, vtepMac = some (linkMac m.bytes) ∧ S.owner m = b := by
  obtain ⟨hi, -⟩ := reached hjson (fun _ _ _ _ => id) hc h
  obtain ⟨p, rfl, hp, hunderlay, hmac⟩ := hop_of_inv hi hab hnet hip hhop hlen
  refine ⟨p.publicIp, p.vtepMac, hp.published.patch, hunderlay, ?_, fun m hm => ?_⟩
  · rw [hmac]
    cases hb : S.backend with
    | vxlan =>
      have hmade := hp.published.legit.vtepMac
      unfold MadeBy at hmade
      rw [hb] at hmade
      obtain ⟨m, hm, -⟩ := hmade
      simp [mac, hm, parseMac_linkMac, Except.toOption]
    | hostGw => simp [mac_eq_none hb hp]
  · rw [hmac] at hm
    exact mac_of_known hp hm

omit [Crates] in
/-- A packet from the first of two nodes to a pod of the second one. -/
theorem never_misdelivered_pair : ∃ (d : Cluster.ClusterConfig) (hop : Hop),
    hop ∈ hops (d.state.hosts "a").peers.kernel (.ofOctets 10 244 2 5) ∧
    ∃ publicIp vtepMac,
      ("b", @buildPublishPatch Crates.compact .vxlan publicIp vtepMac) ∈ d.state.patches ∧
      parseIpv4 publicIp = some hop.underlay := by
  let := Crates.compact
  obtain ⟨c, w, r, hfresh, hreach, hrun, hlookup⟩ := exists_connected
  obtain ⟨hi, hidle⟩ := reached backendDataRead_compact (fun _ _ _ _ h => h.1) hfresh hreach
  have hnet : pair.net "b" = some (pairNet 2) := by decide +kernel
  have hip : (pairNet 2).contains (.ofOctets 10 244 2 5) = true := by decide
  have hr := hidle (some "a") rfl "a" rfl r hrun
  obtain ⟨-, hne, hknown, hpresent⟩ := present_of_runs hr hlookup
  obtain ⟨u, -, hhop, -⟩ := hop_of_present hi hne hpresent hknown hnet hip
  have hreach' : (pair.system Answers).Reachable c ⟨w, fun _ => none⟩ := by
    refine System.Reachable.project (S := pair.system ToleratedAnswers) (T := pair.system Answers)
      id rfl (fun _ _ _ _ h => h) ?_ (fun _ _ _ _ _ h => h) hreach
    rintro (_ | n) j w o res w' h
    · exact h
    · cases o with
      | host o => exact h
      | nat c => exact h
      | peer o =>
        obtain ⟨k, hk, hw⟩ := h
        exact ⟨k, hk.1, hw⟩
  obtain ⟨publicIp, vtepMac, hpatch, hunderlay, -, -⟩ := never_misdelivered pair
    backendDataRead_compact hfresh hreach' (show "b" ≠ "a" by decide) hnet hip hhop le_rfl
  exact ⟨⟨w, fun _ => none⟩, _, hhop, publicIp, vtepMac, hpatch, hunderlay⟩

/-- Between two rounds the packets for the pods of every installed peer go to it. -/
theorem installed_delivered (S : Cluster) (hjson : BackendDataRead) {c d : Cluster.ClusterConfig}
    (hc : S.Fresh c) (h : (S.system ToleratedAnswers).Reachable c d) {a b : String}
    (idle : d.busy (some a) = none) {r : Running} (hrun : (d.state.hosts a).running = some r)
    {p : Peer} (hp : r.installed.lookup b = some p) {net : Ipv4Network} (hnet : S.net b = some net)
    {ip : Ipv4Addr} (hip : net.contains ip = true) :
    Delivers (d.state.hosts a).peers.kernel r.boot.devIdx p ip := by
  obtain ⟨hi, hidle⟩ := reached hjson (fun _ _ _ _ h => h.1) hc h
  exact delivers_of_runs hi (hidle _ idle a rfl r hrun) hp hnet hip

omit [Crates] in
/-- The first of two nodes, after it has met the second one. -/
theorem installed_delivered_pair : ∃ (d : Cluster.ClusterConfig) (r : Running),
    (d.state.hosts "a").running = some r ∧
    Delivers (d.state.hosts "a").peers.kernel r.boot.devIdx pairPeer
      (.ofOctets 10 244 2 5) := by
  let := Crates.compact
  obtain ⟨c, w, r, hfresh, hreach, hrun, hlookup⟩ := exists_connected
  have hnet : pair.net "b" = some (pairNet 2) := by decide +kernel
  exact ⟨⟨w, fun _ => none⟩, r, hrun, installed_delivered pair backendDataRead_compact hfresh hreach
    rfl hrun hlookup hnet (by decide)⟩

/-- After one round in which no request fails and no other entry stands in the way, with a store
that is up to date, all packets for the pods of every node with a lease go to it, and it takes
them in if its `flanneld` is in its loop. Before, requests may have failed, and anything may have
been out of date. -/
theorem converges_in_one_round (S : Cluster) (hjson : BackendDataRead)
    {c d : Cluster.ClusterConfig} (hc : S.Fresh c)
    (h : (S.system ToleratedAnswers).Reachable c d) {a b : String}
    (idle : d.busy (some a) = none) (hcurrent : Current d.state a) {boot : BootstrapState}
    {masq : Bool} {installed desired next : PeerMap} {ev : LoopEvent} {budget : ℕ} {w' : World}
    (hev : ev.Reconciles)
    (hstart : S.starts (some a) (.round boot masq installed desired ev budget) d.state d.state)
    (hexec : Exec (S.answers Steady a) d.state (round boot masq installed desired ev) (some next)
      w')
    (hab : b ≠ a) {o : NodeObject} (hobj : d.state.objects b = some o) {p : Peer}
    (hp : nodeToPeer o.toNode S.backend = some p) :
    next.lookup b = some p ∧
    (∀ net ip, S.net b = some net → net.contains ip = true →
      Delivers (w'.hosts a).peers.kernel boot.devIdx p ip) ∧
    (S.backend = .vxlan → d.busy (some b) = none → (d.state.hosts b).running.isSome →
      ∃ m, mac p = some m ∧ Accepts (w'.hosts b).links m) := by
  obtain ⟨hi, hidle⟩ := reached hjson (fun _ _ _ _ h => h.1) hc h
  obtain ⟨-, r, hrun, rfl, hinstalled, hdesired⟩ := hstart
  have hr := (hidle _ idle a rfl r hrun).perm hinstalled
  rw [hr.attempted.1] at hdesired
  have hlookup := lookup_after_round hi hr hcurrent hdesired hev hexec hab hobj hp
  obtain ⟨hi', hruns, hothers⟩ := (safe_round (j := .stop) (fun _ _ _ _ h => h.1) masq ev hr
    fun n q hq => known_of_desired hi hdesired hq).exec hi (tolerated_of_steady hexec)
  refine ⟨hlookup, fun net ip hnet hip => ?_, fun hb hbidle hbrun => ?_⟩
  · exact delivers_of_runs hi' (hruns next rfl) hlookup hnet hip
  · obtain ⟨rb, hrb⟩ := Option.isSome_iff_exists.mp hbrun
    obtain ⟨m, hm, haccepts⟩ := accepts_of_attempted hi hb
      (hidle _ hbidle b rfl rb hrb).attempted hobj hp
    refine ⟨m, hm, ?_⟩
    rwa [((hothers (some b) (fun he => hab (Option.some.inj he))).2 b rfl).links]

omit [Crates] in
/-- The first round of the first of two nodes. -/
theorem converges_in_one_round_pair :
    ∃ (boot : BootstrapState) (next : PeerMap) (w' : World) (m : Mac),
    next.lookup "b" = some pairPeer ∧
    Delivers (w'.hosts "a").peers.kernel boot.devIdx pairPeer (.ofOctets 10 244 2 5) ∧
    mac pairPeer = some m ∧ Accepts (w'.hosts "b").links m := by
  let := Crates.compact
  obtain ⟨c, boot, desired, next, w, w', o, hmet⟩ := exists_met
  have hnet : pair.net "b" = some (pairNet 2) := by decide +kernel
  obtain ⟨hlookup, hdelivers, haccepts⟩ := converges_in_one_round pair backendDataRead_compact
    hmet.fresh hmet.reachable rfl hmet.current (.inl rfl) (hmet.start 0) hmet.exec
    (show "b" ≠ "a" by decide) hmet.object hmet.peer
  obtain ⟨m, hm, haccepts⟩ := haccepts rfl rfl hmet.running
  exact ⟨boot, next, w', m, hlookup, hdelivers _ _ hnet (by decide), hm, haccepts⟩

end FlannelRs.OverlayDelivery
