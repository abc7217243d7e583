import FlannelRs.BootstrapRuns
import FlannelRs.ClusterAddresses
import FlannelRs.OverlayInvariant

/-!
# A bootstrap that is not disturbed

When no request fails the first attempt sets the node up and publishes its lease.
-/

namespace FlannelRs.BootstrapSuccess
open InteractionPrograms Ipv4Addresses JsonValues CniTypes Flanneld LeasePublication VxlanDevices
open FlanneldBootstrap FlanneldDaemon OverlayCluster OverlayRequests
open VxlanConvergence (noLinks oneLink oneLink_lookup oneLink_insert noLinks_free)

/-- The kernel gives the device a hardware address. -/
def Addressed (l : Links) : Prop :=
  ∀ i d, l.devices.lookup i = some d → d.name = dev → d.address.isSome

def CalmLinks (l : Links) (o : LinkOp) (r : LinkRes o) (l' : Links) : Prop :=
  l.Answers o r l' ∧ Addressed l'

section

variable {l l' : Links} {idx : ℕ} {mac : Option String}

theorem linkAnswers_of_calm {o : LinkOp} {r : LinkRes o} (h : CalmLinks l o r l') :
    linkAnswers l o r l' := by
  refine ⟨fun _ => False, ?_⟩
  cases o with
  | addAddress i addr len => exact .inr ⟨id, h.1⟩
  | _ => exact .inl h.1

theorem calm_holds {o : LinkOp} {r : LinkRes o} (h : CalmLinks l o r l')
    (hl : Holds idx dev mac l) : Holds idx dev mac l' :=
  holds_answers (linkAnswers_of_calm h) hl

/-- The device is found if it is there. -/
theorem calm_linkIndex : wlp CalmLinks (fun r l' => Addressed l' ∧ l' = l ∧
    ((∃ idx mac, r = .ok (some idx) ∧ Holds idx dev mac l) ∨ (r = .ok none ∧ l.Free dev)))
    (linkIndex dev).run l := by
  rintro r l' ⟨⟨rfl, hr⟩, haddr⟩
  rcases hr with ⟨i, d, hd, hname, rfl⟩ | ⟨hfree, rfl | ⟨text, rfl⟩⟩
  · exact ⟨haddr, rfl, .inl ⟨i, _, rfl, d, hd, hname, rfl⟩⟩
  · exact ⟨haddr, rfl, .inr ⟨rfl, hfree⟩⟩
  · exact ⟨haddr, rfl, .inr ⟨rfl, hfree⟩⟩

theorem calm_linkMacOf (h : Holds idx dev mac l) (haddr : Addressed l) :
    wlp CalmLinks (fun r l' => Addressed l' ∧ l' = l ∧ ∃ text, r = .ok text)
      (linkMacOf idx).run l := by
  obtain ⟨d, hd, hname, -⟩ := h
  obtain ⟨bytes, hbytes⟩ := Option.isSome_iff_exists.mp (haddr idx d hd hname)
  rintro r l' ⟨⟨rfl, ⟨e, he, rfl⟩ | ⟨hnone, -⟩⟩, haddr'⟩
  · obtain rfl := Option.some.inj (hd.symm.trans he)
    rw [hbytes]
    exact ⟨haddr', rfl, linkMac bytes, rfl⟩
  · rw [hd] at hnone
    cases hnone

theorem calm_setMtu (h : Holds idx dev mac l) (mtu : ℕ) :
    wlp CalmLinks (fun r l' => Addressed l' ∧ Holds idx dev mac l' ∧ r = .ok ())
      (setMtu idx mtu).run l := by
  rintro r l' hcalm
  obtain rfl := hcalm.1.1
  exact ⟨hcalm.2, calm_holds hcalm h, rfl⟩

theorem calm_bringUp (h : Holds idx dev mac l) :
    wlp CalmLinks (fun r l' => Addressed l' ∧ Holds idx dev mac l' ∧ r = .ok ())
      (bringUp idx).run l := by
  rintro r l' hcalm
  obtain rfl := hcalm.1.1
  exact ⟨hcalm.2, calm_holds hcalm h, rfl⟩

theorem calm_createVxlan (endpoint : Ipv4Addr) :
    wlp CalmLinks (fun r l' => r = .ok () ∧ ∃ idx mac, Holds idx dev mac l')
      (createVxlan dev vni dstPort endpoint).run l := by
  rintro r l' ⟨⟨rfl, -, i, mtu, address, -, hl⟩, -⟩
  exact ⟨rfl, i, address.map linkMac, _, by rw [hl, AList.lookup_insert], rfl, rfl⟩

theorem calm_addAddress (h : Holds idx dev mac l) (gateway : Ipv4Addr) :
    wlp CalmLinks (fun _ l' => Addressed l' ∧ Holds idx dev mac l')
      (addAddress idx gateway).run l := by
  rintro r l' hcalm
  exact ⟨hcalm.2, calm_holds hcalm h⟩

/-- The device is returned, if it was there or not. -/
theorem calm_ensureVxlan (endpoint gateway : Ipv4Addr) (mtu : ℕ) :
    wlp CalmLinks (fun r _ => ∃ x, r = .ok x)
      (ensureVxlan dev vni dstPort endpoint gateway mtu).run l := by
  refine wlp.exceptBind calm_linkIndex ?_ ?_
  · rintro found l₁ ⟨haddr₁, rfl, ⟨idx, mac, hfound, hl⟩ | ⟨hfound, hfree⟩⟩
    · obtain rfl := Except.ok.inj hfound
      refine wlp.exceptBind (calm_setMtu hl mtu) ?_ (fun e l₂ h => nomatch h.2.2)
      rintro _ l₂ ⟨haddr₂, hl₂, -⟩
      refine wlp.exceptBind (calm_linkMacOf hl₂ haddr₂) ?_ (fun e l₃ h => nomatch h.2.2)
      rintro text _ ⟨-, rfl, -⟩
      refine wlp.exceptBind (calm_bringUp hl₂) ?_ (fun e l₃ h => nomatch h.2.2)
      exact fun _ l₃ _ => ⟨_, rfl⟩
    · obtain rfl := Except.ok.inj hfound
      refine wlp.exceptBind (calm_createVxlan endpoint) ?_ (fun e l₂ h => nomatch h.1)
      rintro _ l₂ ⟨-, idx, mac, hl₂⟩
      refine wlp.exceptBind calm_linkIndex ?_ ?_
      · rintro again _ ⟨haddr₃, rfl, ⟨idx', mac', hagain, hl₃⟩ | ⟨-, hfree'⟩⟩
        · obtain rfl := Except.ok.inj hagain
          refine wlp.liftBind (calm_addAddress hl₃ gateway) fun _ l₄ ⟨haddr₄, hl₄⟩ => ?_
          refine wlp.exceptBind (calm_setMtu hl₄ mtu) ?_ (fun e l₅ h => nomatch h.2.2)
          rintro _ l₅ ⟨haddr₅, hl₅, -⟩
          refine wlp.exceptBind (calm_bringUp hl₅) ?_ (fun e l₆ h => nomatch h.2.2)
          rintro _ l₆ ⟨haddr₆, hl₆, -⟩
          refine wlp.exceptBind (calm_linkMacOf hl₆ haddr₆) ?_ (fun e l₇ h => nomatch h.2.2)
          exact fun text l₇ _ => ⟨_, rfl⟩
        · obtain ⟨d, hd, hname, -⟩ := hl₂
          exact absurd hname (hfree' idx d hd)
      · rintro e l₃ ⟨-, -, ⟨_, _, h, -⟩ | ⟨h, -⟩⟩ <;> cases h
  · rintro e l₁ ⟨-, -, ⟨_, _, h, -⟩ | ⟨h, -⟩⟩ <;> cases h

end

variable [Crates]

/-- No request of the node fails, and one of its interfaces has its address. -/
def Calm (S : Cluster) (a : String) (endpoint : Ipv4Addr) (w : World) (o : HostOp) (r : HostRes o)
    (w' : World) : Prop :=
  S.hostAnswers a w o r w' ∧ match o, r with
    | .readFile _, r => ∃ text, r = .ok text
    | .getNode, r => ∃ o, r = .ok o
    | .patchNode _, r => r = .ok ()
    | .getAddresses, r => ∃ m ∈ r.received, m.inet = true ∧ endpoint ∈ m.addrs
    | .link o, r => CalmLinks (w.hosts a).links o r (w'.hosts a).links
    | .writeFile _ _, r => r = .ok ()
    | _, _ => True

variable {S : Cluster} {a : String} {endpoint : Ipv4Addr} {w : World}

theorem calm_readFile (text : String) :
    wlp (Calm S a endpoint) (fun r w' => w' = w ∧ r = .ok S.raw)
      (orTransient text (ask (.readFile netConfPath))).run w := by
  rintro r _ ⟨⟨rfl, hraw⟩, raw, rfl⟩
  refine ⟨rfl, ?_⟩
  rw [← hraw raw rfl rfl]
  rfl

theorem calm_ownNode {o : NodeObject} {own : OwnNode} (hobj : w.objects a = some o)
    (hown : extractOwnNode o = .ok own) :
    wlp (Calm S a endpoint) (fun r w' => w' = w ∧ r = .ok own) ownNode.run w := by
  rintro r _ ⟨⟨rfl, hnode⟩, o', rfl⟩
  obtain rfl := Option.some.inj (hobj.symm.trans (hnode o' rfl))
  exact ⟨rfl, congrArg (Except.mapError AttemptError.transient) hown⟩

/-- What is looked up of addresses changes nothing. -/
theorem calm_looksUp {α : Type} {prog : HostProgram α} (huses : prog.Uses LooksUp) :
    wlp (Calm S a endpoint) (fun _ w' => w' = w) prog w := by
  refine (huses.wlp (R := fun w w' => w' = w) (fun _ => rfl) (fun _ _ _ h h' => h'.trans h) ?_ w)
  intro w o r w' ho h
  cases o with
  | getAddresses => exact h.1
  | getMtu i => exact h.1
  | _ => exact ho.elim

theorem calm_linkIndexByIp : wlp (Calm S a endpoint) (fun r w' => w' = w ∧ ∃ idx, r = .ok idx)
    (linkIndexByIp endpoint).run w := by
  have hasked : wlp (Calm S a endpoint) (fun (r : Dump AddressMessage) w' => w' = w ∧
      ∃ m ∈ r.received, m.inet = true ∧ endpoint ∈ m.addrs) (ask .getAddresses) w :=
    fun r w' h => h
  refine wlp.liftBind hasked ?_
  rintro addrs _ ⟨rfl, m, hm, hinet, hip⟩
  have hfound : (addrs.received.find? fun m => m.inet ∧ endpoint ∈ m.addrs).isSome := by
    rw [List.find?_isSome]
    exact ⟨m, hm, by simp [hinet, hip]⟩
  obtain ⟨x, hx⟩ := Option.isSome_iff_exists.mp hfound
  rw [hx]
  exact ⟨rfl, x.index, rfl⟩

/-- The requests about links leave the node objects alone. -/
theorem calm_onLinks (gateway : Ipv4Addr) (mtu : ℕ) :
    wlp (Calm S a endpoint) (fun r w' => w'.objects = w.objects ∧ ∃ text idx,
        r = .ok (text, idx) ∧ Holds idx dev (some text) (w'.hosts a).links)
      (onLinks (ensureVxlan dev vni dstPort endpoint gateway mtu)).run w := by
  refine wlp_of_exec fun r w' hexec => ?_
  have hlinks := Exec.of_interpret_send (f := HostOp.link) hexec
  have hpart : Exec CalmLinks (w.hosts a).links
      (ensureVxlan dev vni dstPort endpoint gateway mtu).run r (w'.hosts a).links :=
    hlinks.project (fun w => (w.hosts a).links) fun _ _ _ _ h => h.2
  obtain ⟨⟨text, idx⟩, rfl⟩ := hpart.wlp (calm_ensureVxlan endpoint gateway mtu)
  refine ⟨?_, text, idx, rfl, ?_⟩
  · refine hlinks.preserves (R := fun (w w' : World) => w'.objects = w.objects) (fun _ => rfl)
      (fun _ _ _ h h' => h'.trans h) ?_
    rintro w o r _ ⟨⟨refused, l, -, -, rfl⟩, -⟩
    rfl
  · exact (hpart.project id fun _ _ _ _ h => linkAnswers_of_calm h).wlp
      (wlp_ensureVxlan dev vni dstPort endpoint gateway mtu) text idx rfl

/-- The node has published its lease, and its device is there. -/
def Leased (S : Cluster) (a publicIp : String) (idx : ℕ) (w : World) : Prop :=
  ∃ vtepMac o, w.objects a = some o ∧ leaseOf S.backend o.toNode = some (publicIp, vtepMac) ∧
    (S.backend = .vxlan → Holds idx dev vtepMac (w.hosts a).links)

theorem calm_publish (hjson : BackendDataRead) {publicIp : String} (vtepMac : Option String)
    (idx : ℕ) (hmac : vtepMac.isSome ↔ S.backend = .vxlan)
    (hdev : S.backend = .vxlan → Holds idx dev vtepMac (w.hosts a).links) :
    wlp (Calm S a endpoint) (fun r w' => r = .ok () ∧ Leased S a publicIp idx w')
      (publish S.backend publicIp vtepMac).run w := by
  rintro r w' ⟨⟨-, e, rfl⟩ | ⟨ann, hann, rfl⟩, hr⟩
  · cases hr
  · obtain rfl := hr
    refine ⟨rfl, vtepMac, _, World.write_self, ?_, hdev⟩
    exact leaseOf_of_stored hjson hmac rfl hann

theorem calm_setUpBackend (hjson : BackendDataRead) (publicIp : String) (gateway : Ipv4Addr)
    (mtu : ℕ) : wlp (Calm S a endpoint) (fun r w' => ∃ idx, r = .ok idx ∧
        Leased S a publicIp idx w')
      (setUpBackend S.backend publicIp endpoint gateway mtu).run w := by
  cases hb : S.backend with
  | vxlan =>
    refine wlp.exceptBind (m := fun r w' => ∃ text idx, r = .ok (text, idx) ∧
      Holds idx dev (some text) (w'.hosts a).links) ?_ ?_ (fun e w' h => nomatch h)
    · refine (calm_onLinks gateway mtu).bind fun r w' h => ?_
      obtain ⟨-, text, idx, rfl, hholds⟩ := h
      exact ⟨text, idx, rfl, hholds⟩
    · rintro ⟨mac, idx⟩ w₁ ⟨text, idx', hr, hholds⟩
      obtain ⟨rfl, rfl⟩ := Prod.mk.inj (Except.ok.inj hr)
      rw [← hb]
      refine wlp.exceptBind (calm_publish hjson (some mac) idx (by simp [hb])
        fun _ => hholds) ?_ (fun e w' h => nomatch h.1)
      exact fun _ w₂ h => ⟨idx, rfl, h.2⟩
  | hostGw =>
    refine wlp.exceptBind (m := fun r w' => ∃ idx, r = .ok idx) ?_ ?_ (fun e w' h => nomatch h)
    · refine calm_linkIndexByIp.bind fun r w' h => ?_
      obtain ⟨-, idx, rfl⟩ := h
      exact ⟨idx, rfl⟩
    · rintro idx w₁ -
      rw [← hb]
      refine wlp.exceptBind (calm_publish hjson none idx (by simp [hb])
        fun h => absurd (hb.symm.trans h) (by decide)) ?_ (fun e w' h => nomatch h.1)
      exact fun _ w₂ h => ⟨idx, rfl, h.2⟩

theorem calm_tryBootstrap (hjson : BackendDataRead) {o : NodeObject} {own : OwnNode}
    {cidr : Ipv4Network} (hobj : w.objects a = some o) (hown : extractOwnNode o = .ok own)
    (hip : parseIpv4 own.publicIp = some endpoint)
    (hcidr : Crates.parseNetwork own.podCidr = some cidr) :
    wlp (Calm S a endpoint) (fun r w' => ∃ boot, r = .ok boot ∧ boot.backend = S.backend ∧
        boot.subnet = own.podCidr ∧ Leased S a own.publicIp boot.devIdx w') tryBootstrap.run w := by
  refine wlp.exceptBind (calm_readFile _) ?_ (fun e w' h => nomatch h.2)
  rintro raw _ ⟨rfl, hraw⟩
  obtain rfl := Except.ok.inj hraw
  rw [Program.run_pure_bind]
  have hclass := S.classified
  cases hconf : classifyNetConf S.raw with
  | error e =>
    rw [hconf] at hclass
    cases hclass
  | ok conf =>
    rw [hconf] at hclass
    have hbackend : conf.2 = S.backend := Except.ok.inj hclass
    refine wlp.exceptBind (calm_ownNode hobj hown) ?_ (fun e w' h => nomatch h.2)
    rintro _ _ ⟨rfl, ⟨⟩⟩
    simp only [hip, hcidr, hbackend, orUnparsed, pure_bind]
    refine wlp.liftBind (calm_looksUp (uses_linkMtuByIp endpoint)) ?_
    rintro linkMtu _ rfl
    refine wlp.exceptBind (calm_setUpBackend hjson own.publicIp cidr.network _) ?_ ?_
    · rintro idx w₁ ⟨idx', hr, hleased⟩
      obtain rfl := Except.ok.inj hr
      rintro dir _ ⟨rfl, -⟩ written _ ⟨rfl, rfl⟩
      exact ⟨_, rfl, rfl, rfl, hleased⟩
    · rintro e w₁ ⟨idx', hr, -⟩
      cases hr

/-- The device as it is made, with the given address and MTU. -/
def readyDevice (endpoint gateway : Ipv4Addr) (mtu : ℕ) (m : Mac) : Device :=
  ⟨dev, some ⟨vni, dstPort, endpoint, false⟩, mtu, true, some m.bytes, [(gateway, 32)]⟩

omit [Crates] in
theorem oneLink_only {i j : ℕ} {d e : Device} (h : (oneLink i d).devices.lookup j = some e) :
    e = d := by
  by_cases hj : j = i
  · subst hj
    rw [oneLink_lookup] at h
    exact (Option.some.inj h).symm
  · rw [oneLink, AList.lookup_insert_ne hj] at h
    cases h

/-- The kernel of a node that has made the address. -/
def CalmOwned (S : Cluster) (a : String) (l : Links) (o : LinkOp) (r : LinkRes o) (l' : Links) :
    Prop :=
  CalmLinks l o r l' ∧ S.Owned a l'

theorem calmOwned_oneLink {m : Mac} (howner : S.owner m = a) {l : Links} {o : LinkOp}
    {r : LinkRes o} {i : ℕ} {d : Device} (hd : d.address = some m.bytes)
    (h : l.Answers o r (oneLink i d)) : CalmOwned S a l o r (oneLink i d) := by
  refine ⟨⟨h, fun j e he _ => ?_⟩, fun j e bytes he _ hbytes => ⟨m, ?_, howner⟩⟩
  · rw [oneLink_only he, hd]
    rfl
  · rw [oneLink_only he, hd] at hbytes
    exact Option.some.inj hbytes

theorem calmOwned_noLinks {o : LinkOp} {r : LinkRes o} (h : noLinks.Answers o r noLinks) :
    CalmOwned S a noLinks o r noLinks :=
  ⟨⟨h, fun _ _ he => nomatch he⟩, fun _ _ _ he => nomatch he⟩

theorem exec_ensureVxlan {m : Mac} (howner : S.owner m = a) (endpoint gateway : Ipv4Addr)
    (mtu : ℕ) : Exec (CalmOwned S a) noLinks
      (ensureVxlan dev vni dstPort endpoint gateway mtu).run (.ok (linkMac m.bytes, 4))
      (oneLink 4 (readyDevice endpoint gateway mtu m)) := by
  let made : Device := ⟨dev, some ⟨vni, dstPort, endpoint, false⟩, 1500, true, some m.bytes, []⟩
  let addressed : Device := { made with addrs := [(gateway, 32)] }
  have hfound : CalmOwned S a (oneLink 4 made) (.getLinkByName dev)
      (.ok (some ⟨4, some m.bytes⟩)) (oneLink 4 made) :=
    calmOwned_oneLink howner rfl ⟨rfl, .inl ⟨4, made, oneLink_lookup, rfl, rfl⟩⟩
  have hadded : CalmOwned S a (oneLink 4 made) (.addAddress 4 gateway 32) (.ok ())
      (oneLink 4 addressed) :=
    calmOwned_oneLink howner rfl
      ⟨made, oneLink_lookup, .inl ⟨List.not_mem_nil, rfl, oneLink_insert _⟩⟩
  have hset : CalmOwned S a (oneLink 4 addressed) (.setMtu 4 mtu) (.ok ())
      (oneLink 4 (readyDevice endpoint gateway mtu m)) :=
    calmOwned_oneLink howner rfl ⟨rfl, addressed, oneLink_lookup, oneLink_insert _⟩
  have hup : CalmOwned S a (oneLink 4 (readyDevice endpoint gateway mtu m)) (.setUp 4) (.ok ())
      (oneLink 4 (readyDevice endpoint gateway mtu m)) :=
    calmOwned_oneLink howner rfl
      ⟨rfl, readyDevice endpoint gateway mtu m, oneLink_lookup, oneLink_insert _⟩
  refine .request (calmOwned_noLinks ⟨rfl, .inr ⟨noLinks_free dev, .inl rfl⟩⟩) ?_
  refine .request (calmOwned_oneLink (i := 4) (d := made) howner rfl
    ⟨rfl, noLinks_free dev, 4, 1500, some m.bytes, rfl, rfl⟩) ?_
  refine .request hfound ?_
  refine .request hadded ?_
  refine .request hset ?_
  refine .request hup ?_
  exact .request (calmOwned_oneLink howner rfl
    ⟨rfl, .inl ⟨readyDevice endpoint gateway mtu m, oneLink_lookup, rfl⟩⟩) (.ret ..)

theorem exec_onLinks (hfresh : (w.hosts a).links = noLinks) {m : Mac} (howner : S.owner m = a)
    (gateway : Ipv4Addr) (mtu : ℕ) :
    Exec (Calm S a endpoint) w (onLinks (ensureVxlan dev vni dstPort endpoint gateway mtu)).run
      (.ok (linkMac m.bytes, 4))
      (w.setHost a { w.hosts a with links := oneLink 4 (readyDevice endpoint gateway mtu m) }) := by
  refine Exec.interpret_send (f := HostOp.link) ?_
  refine Exec.lift (E := CalmOwned S a) (t := fun w : World => (w.hosts a).links)
    (fun w l => w.setHost a { w.hosts a with links := l }) ?_ ?_ ?_ ?_
    (exec_ensureVxlan howner endpoint gateway mtu) hfresh
  · exact fun w l => by simp
  · exact fun w l l' => by simp
  · exact fun w => World.setHost_same
  · rintro w o r l ⟨hcalm, howned⟩
    obtain ⟨refused, hl⟩ := linkAnswers_of_calm hcalm
    refine ⟨⟨refused, l, hl, howned, rfl⟩, ?_⟩
    simpa using hcalm

/-- An address of the node is found, and the MTU is read or not. -/
theorem exists_looksUp {α : Type} {prog : HostProgram α} (endpoint : Ipv4Addr)
    (huses : prog.Uses LooksUp) :
    ∃ x, Exec (Calm S a endpoint) w prog x w := by
  have htotal : ∀ (w : World) (o : HostOp), LooksUp o → ∃ r w', Calm S a endpoint w o r w' := by
    intro w o ho
    cases o with
    | getAddresses =>
      exact ⟨⟨[⟨2, true, [endpoint]⟩], none⟩, w, rfl, _, List.mem_singleton_self _, rfl,
        List.mem_singleton_self _⟩
    | getMtu i => exact ⟨.ok none, w, rfl, trivial⟩
    | _ => exact ho.elim
  obtain ⟨x, w', hexec⟩ := huses.exists_exec htotal w
  obtain rfl := hexec.wlp (calm_looksUp huses)
  exact ⟨x, hexec⟩

/-- The world after the node has published its lease from a fresh device. -/
def published (S : Cluster) (a publicIp : String) (endpoint gateway : Ipv4Addr) (mtu : ℕ) (m : Mac)
    (ann : AList fun _ : String => String) (w : World) : World :=
  (w.setHost a { w.hosts a with links := oneLink 4 (readyDevice endpoint gateway mtu m) }).patch a
    (buildPublishPatch S.backend publicIp (some (linkMac m.bytes))) ann

theorem exec_setUpBackend (hb : S.backend = .vxlan) (hfresh : (w.hosts a).links = noLinks) {m : Mac}
    (howner : S.owner m = a) {publicIp : String} (gateway : Ipv4Addr) (mtu : ℕ)
    {ann : AList fun _ : String => String}
    (hann : Stored (buildPublishPatch S.backend publicIp (some (linkMac m.bytes))) ann) :
    Exec (Calm S a endpoint) w (setUpBackend S.backend publicIp endpoint gateway mtu).run (.ok 4)
      (published S a publicIp endpoint gateway mtu m ann w) := by
  unfold published
  rw [hb] at hann ⊢
  refine Exec.exceptBind (a := (linkMac m.bytes, 4))
    ((exec_onLinks hfresh howner gateway mtu).bind (.ret ..)) ?_
  exact Exec.exceptBind (a := ()) (.request (r := .ok ()) ⟨.inr ⟨ann, hann, rfl⟩, rfl⟩ (.ret ..))
    (.ret ..)

/-- A node without links can be set up with the first attempt. -/
theorem exists_attempt (hb : S.backend = .vxlan) {o : NodeObject} {own : OwnNode}
    {cidr : Ipv4Network} (hobj : w.objects a = some o) (hown : extractOwnNode o = .ok own)
    (hip : parseIpv4 own.publicIp = some endpoint)
    (hcidr : Crates.parseNetwork own.podCidr = some cidr)
    (hfresh : (w.hosts a).links = noLinks) {m : Mac} (howner : S.owner m = a) :
    ∃ boot mtu ann, boot.devIdx = 4 ∧ boot.backend = S.backend ∧
      Stored (buildPublishPatch S.backend own.publicIp (some (linkMac m.bytes))) ann ∧
      Exec (Calm S a endpoint) w tryBootstrap.run (.ok boot)
        (published S a own.publicIp endpoint cidr.network mtu m ann w) := by
  have hclass := S.classified
  cases hconf : classifyNetConf S.raw with
  | error e =>
    rw [hconf] at hclass
    cases hclass
  | ok conf =>
    rw [hconf] at hclass
    have hbackend : conf.2 = S.backend := Except.ok.inj hclass
    obtain ⟨linkMtu, hlinkMtu⟩ := exists_looksUp (S := S) (a := a) (w := w) endpoint
      (uses_linkMtuByIp endpoint)
    obtain ⟨ann, hann⟩ := exists_stored S.backend own.publicIp (some (linkMac m.bytes))
    let env := envOf conf.1 own S.backend linkMtu.toOption
    refine ⟨⟨4, conf.2, conf.1.network, own.podCidr⟩, env.mtu, ann, rfl, hbackend, hann, ?_⟩
    refine Exec.exceptBind (a := S.raw) (t := w) (.request (r := .ok S.raw)
      ⟨⟨rfl, fun _ h _ => (Except.ok.inj h).symm⟩, S.raw, rfl⟩ (.ret ..)) ?_
    rw [Program.run_pure_bind, hconf]
    refine Exec.exceptBind (a := own) (t := w) (.request (r := .ok o)
      ⟨⟨rfl, fun _ h => Except.ok.inj h ▸ hobj⟩, o, rfl⟩ ?_) ?_
    · change Exec _ w (.ret ((extractOwnNode o).mapError AttemptError.transient)) _ w
      rw [hown]
      exact .ret ..
    · simp only [hip, hcidr, orUnparsed, pure_bind]
      refine Exec.liftBind hlinkMtu ?_
      refine Exec.exceptBind (a := 4)
        (t := published S a own.publicIp endpoint cidr.network env.mtu m ann w) ?_ ?_
      · rw [hbackend]
        exact exec_setUpBackend hb hfresh howner cidr.network _ hann
      · refine .request (r := .ok ()) ⟨rfl, trivial⟩ ?_
        exact .request (r := .ok ()) ⟨rfl, rfl⟩ (.ret ..)

theorem exists_bootstrap (hb : S.backend = .vxlan) {o : NodeObject} {own : OwnNode}
    {cidr : Ipv4Network} (hobj : w.objects a = some o) (hown : extractOwnNode o = .ok own)
    (hip : parseIpv4 own.publicIp = some endpoint)
    (hcidr : Crates.parseNetwork own.podCidr = some cidr)
    (hfresh : (w.hosts a).links = noLinks) {m : Mac} (howner : S.owner m = a) (attempts : ℕ) :
    ∃ boot mtu ann, boot.devIdx = 4 ∧ boot.backend = S.backend ∧
      Stored (buildPublishPatch S.backend own.publicIp (some (linkMac m.bytes))) ann ∧
      Exec (Calm S a endpoint) w (bootstrap (attempts + 1)) (some (.ok boot))
        (published S a own.publicIp endpoint cidr.network mtu m ann w) := by
  obtain ⟨boot, mtu, ann, hidx, hbackend, hann, hexec⟩ :=
    exists_attempt hb hobj hown hip hcidr hfresh howner
  exact ⟨boot, mtu, ann, hidx, hbackend, hann, hexec.bind (.ret ..)⟩

def pairNet (third : ℕ) : Ipv4Network :=
  ⟨.ofOctets 10 244 third 0, 24, ClusterAddresses.exampleLen_le⟩

def pairCidr (n : String) : String :=
  if n = "a" then "10.244.1.0/24" else if n = "b" then "10.244.2.0/24" else ""

def pairMac : Mac := ⟨vtep.bytes.reverse, List.length_reverse.trans vtep.length_eq⟩

omit [Crates] in
theorem parse_pairCidr {n : String} {net : Ipv4Network}
    (h : parseCidr (pairCidr n) = some net) :
    (n = "a" ∧ net = pairNet 1) ∨ (n = "b" ∧ net = pairNet 2) := by
  unfold pairCidr at h
  by_cases ha : n = "a"
  · rw [if_pos ha, show parseCidr "10.244.1.0/24" = some (pairNet 1) by decide +kernel] at h
    exact .inl ⟨ha, (Option.some.inj h).symm⟩
  · by_cases hb : n = "b"
    · rw [if_neg ha, if_pos hb, show parseCidr "10.244.2.0/24" = some (pairNet 2) by
        decide +kernel] at h
      exact .inr ⟨hb, (Option.some.inj h).symm⟩
    · rw [if_neg ha, if_neg hb, show parseCidr "" = none by decide +kernel] at h
      cases h

omit [Crates] in
theorem pairNet_disjoint {ip : Ipv4Addr} (h : (pairNet 1).contains ip = true)
    (h' : (pairNet 2).contains ip = true) : False := by
  have hsize : ∀ n, (pairNet n).size = 256 := fun n => rfl
  simp only [Ipv4Network.contains, hsize, decide_eq_true_eq] at h h'
  rw [h] at h'
  revert h'
  decide

def pair : @Cluster Crates.compact :=
  let := Crates.compact
  { raw := ClusterAddresses.netConf
    backend := .vxlan
    classified := by
      have h : (classifyNetConf ClusterAddresses.netConf).toOption.map Prod.snd =
        some .vxlan := by decide +kernel
      cases hconf : classifyNetConf ClusterAddresses.netConf with
      | error e =>
        rw [hconf] at h
        cases h
      | ok conf =>
        rw [hconf] at h
        exact congrArg Except.ok (Option.some.inj h)
    podCidr := pairCidr
    owner := fun m => if m = pairMac then "a" else "b"
    disjoint := by
      intro a b net net' ip hnet hnet' hip hip'
      rcases parse_pairCidr hnet with ⟨rfl, rfl⟩ | ⟨rfl, rfl⟩ <;>
        rcases parse_pairCidr hnet' with ⟨rfl, rfl⟩ | ⟨rfl, rfl⟩
      · rfl
      · exact (pairNet_disjoint hip hip').elim
      · exact (pairNet_disjoint hip' hip).elim
      · rfl }

def freshHost : Host := ⟨noLinks, ⟨⟨∅, ∅, ∅⟩, false⟩, [], none⟩

def freshWorld : World := ⟨fun _ => none, fun _ => freshHost, [], []⟩

/-- A node without annotations. -/
def nodeObject (name publicIp : String) : NodeObject where
  name := some name
  annotations := none
  podCidr := some (pairCidr name)
  addresses := some [⟨"Hostname", name⟩, ⟨"InternalIP", publicIp⟩]

/-- When no request fails, the bootstrap of a node with a PodCIDR and an internal address ends with
the first attempt, and then everyone can read its lease. -/
theorem first_attempt_succeeds (S : Cluster) (hjson : BackendDataRead) {a : String}
    {endpoint : Ipv4Addr} {w w' : World} {o : NodeObject} {own : OwnNode}
    (hobj : w.objects a = some o) (hown : extractOwnNode o = .ok own)
    (hip : parseIpv4 own.publicIp = some endpoint)
    (hcidr : (Crates.parseNetwork own.podCidr).isSome) {attempts : ℕ}
    {r : Option (Except Fatal BootstrapState)}
    (hexec : Exec (Calm S a endpoint) w (bootstrap (attempts + 1)) r w') :
    ∃ boot, r = some (.ok boot) ∧ boot.backend = S.backend ∧ boot.subnet = own.podCidr ∧
      Leased S a own.publicIp boot.devIdx w' := by
  obtain ⟨cidr, hcidr⟩ := Option.isSome_iff_exists.mp hcidr
  have hwlp : wlp (Calm S a endpoint) (fun r w' => ∃ boot, r = some (.ok boot) ∧
      boot.backend = S.backend ∧ boot.subnet = own.podCidr ∧
      Leased S a own.publicIp boot.devIdx w') (bootstrap (attempts + 1)) w := by
    refine (calm_tryBootstrap hjson hobj hown hip hcidr).bind ?_
    rintro _ w₁ ⟨boot, rfl, hboot⟩
    exact ⟨boot, rfl, hboot⟩
  exact hexec.wlp hwlp

omit [Crates] in
/-- The first node of the cluster. -/
theorem first_attempt_succeeds_pair : ∃ (boot : BootstrapState) (w' : World),
    boot.backend = .vxlan ∧ boot.subnet = "10.244.1.0/24" ∧
    @Leased Crates.compact pair "a" "172.18.0.2" boot.devIdx w' := by
  let := Crates.compact
  let w : World := freshWorld.write "a" (nodeObject "a" "172.18.0.2")
  have hobj : w.objects "a" = some (nodeObject "a" "172.18.0.2") := World.write_self
  have hown : extractOwnNode (nodeObject "a" "172.18.0.2") =
    .ok ⟨"10.244.1.0/24", "172.18.0.2"⟩ := rfl
  have hip : parseIpv4 "172.18.0.2" = some (.ofOctets 172 18 0 2) := by decide +kernel
  have hcidr : Crates.parseNetwork "10.244.1.0/24" = some (pairNet 1) := by decide +kernel
  obtain ⟨_, mtu, ann, -, -, -, hexec⟩ :=
    exists_bootstrap (S := pair) (m := pairMac) rfl hobj hown hip hcidr rfl rfl 0
  obtain ⟨boot, -, hbackend, hsubnet, hleased⟩ := first_attempt_succeeds pair
    backendDataRead_compact hobj hown hip (Option.isSome_of_mem hcidr) hexec
  exact ⟨boot, _, hbackend, hsubnet, hleased⟩

end FlannelRs.BootstrapSuccess
