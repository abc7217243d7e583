import FlannelRs.OverlayInvariant

/-!
# Every interleaving keeps the invariant of the overlay

Of a node the others change only its object, and there they leave the lease as it is. So each job
of its `flanneld` can be followed by itself.
-/

namespace FlannelRs.OverlaySafety
open InteractionPrograms ProcessPools Ipv4Addresses JsonValues CniTypes Flanneld ExclusiveTables
open KernelTables PeerReconciliation PeerFailures PeerBookkeeping LeasePublication VxlanDevices
open FlanneldBootstrap FlanneldDaemon OverlayCluster OverlayRequests OverlayInvariant

variable [Crates]

def contract (S : Cluster) : Contract World (Option String) Job where
  inv := Inv S
  rely p w w' := (∀ x ∈ w.patches, x ∈ w'.patches) ∧ ∀ a, p = some a → Leaves S a w w'
  guar p _ w w' := (∀ x ∈ w.patches, x ∈ w'.patches) ∧ ∀ a, p ≠ some a → Leaves S a w w'
  rely_refl _ w := ⟨fun _ => id, fun a _ => .refl S a w⟩
  rely_trans _ _ _ _ h h' :=
    ⟨fun x hx => h'.1 x (h.1 x hx), fun a ha => (h.2 a ha).trans (h'.2 a ha)⟩
  guar_rely _ _ _ _ _ hne _ h := ⟨h.1, fun a ha => h.2 a fun hp => hne (ha.trans hp.symm)⟩

variable {S : Cluster} {w w' : World} {a : String} {j : Job}

/-- What a step of a node has to keep, when it changes no more than the node itself. -/
theorem guar_setHost (h : Host) : (contract S).guar (some a) j w (w.setHost a h) :=
  ⟨fun _ => id, fun _ hb => leaves_setHost fun he => hb (by rw [he])⟩

theorem guar_refl (p : Option String) (w : World) : (contract S).guar p j w w :=
  ⟨fun _ => id, fun b _ => .refl S b w⟩

theorem setUp_stable {idx : ℕ} (h : (contract S).rely (some a) w w') (hs : SetUp S w a idx) :
    SetUp S w' a idx :=
  hs.leaves (h.2 a rfl)

/-- The requests that change nothing. -/
def Quiet : HostOp → Prop
  | .patchNode _ => False
  | .link _ => False
  | _ => True

theorem quiet_answers {o : HostOp} {r : HostRes o} (ho : Quiet o)
    (h : S.hostAnswers a w o r w') : w' = w := by
  cases o with
  | readFile path => exact h.1
  | getNode => exact h.1
  | patchNode patch => exact ho.elim
  | link o => exact ho.elim
  | _ => exact h

abbrev HostSafe (S : Cluster) (a : String) (j : Job) {β : Type} (post : β → World → Prop)
    (prog : HostProgram β) (w : World) : Prop :=
  (contract S).Safe (S.hostAnswers a) (some a) j post prog w

theorem safe_quiet {β : Type} {K : World → Prop} {prog : HostProgram β}
    (hstable : ∀ w w', (contract S).rely (some a) w w' → K w → K w') (huses : prog.Uses Quiet)
    (hk : K w) : HostSafe S a j (fun _ => K) prog w := by
  refine Contract.Safe.of_uses hstable (fun w o r w' ho hi hk h => ?_) huses hk
  obtain rfl := quiet_answers ho h
  exact ⟨hi, guar_refl _ _, hk⟩

theorem safe_pure {ε β : Type} {Q : β → World → Prop} {x : Except ε β}
    (h : ∀ b, x = .ok b → ∀ w, Q b w) : HostSafe S a j (Contract.OnOk Q) (.ret x) w :=
  fun w' _ _ b hb => h b hb w'

/-- Nothing is known of the result. -/
theorem safe_quiet_ok {ε β : Type} {prog : HostProgram (Except ε β)} (huses : prog.Uses Quiet) :
    HostSafe S a j (Contract.OnOk fun _ _ => True) prog w :=
  (safe_quiet (K := fun _ => True) (fun _ _ _ _ => trivial) huses trivial).mono
    fun _ _ _ _ _ _ => trivial

omit [Crates] in
theorem quiet_of_looksUp (o : HostOp) (h : LooksUp o) : Quiet o := by
  cases o with
  | getAddresses => trivial
  | getMtu i => trivial
  | _ => exact h.elim

theorem safe_ensureVxlan (endpoint gateway : Ipv4Addr) (mtu : ℕ) :
    HostSafe S a j (Contract.OnOk fun x w' => Holds x.2 dev (some x.1) (w'.hosts a).links)
      (onLinks (ensureVxlan dev vni dstPort endpoint gateway mtu)).run w := by
  have hlinks : (contract S).Safe (fun (w : World) (o : LinkOp) (r : LinkRes o) (w' : World) =>
      S.hostAnswers a w (.link o) r w') (some a) j (fun r w' => (∀ text idx, r = .ok (text, idx) →
        Holds idx dev (some text) (w'.hosts a).links) ∧ True)
      (ensureVxlan dev vni dstPort endpoint gateway mtu).run w := by
    refine Contract.Safe.of_wlp (f := fun w : World => (w.hosts a).links) (E := linkAnswers)
      (K := fun _ => True) (P := fun _ => True) ?_ ?_
      (Program.uses_true (ensureVxlan dev vni dstPort endpoint gateway mtu).run)
      (wlp_ensureVxlan dev vni dstPort endpoint gateway mtu) trivial
    · exact fun w w' h _ => ⟨(h.2 a rfl).links, trivial⟩
    · rintro w o r _ - hi - ⟨refused, l, hl, howned, rfl⟩
      refine ⟨?_, guar_setHost _, ⟨refused, ?_⟩, trivial⟩
      · exact hi.setHost (hi.distinct a) (hi.stores a) howned (hi.entries a)
      · simpa using hl
  refine Contract.Safe.interpret_send (f := HostOp.link) (hlinks.mono ?_)
  rintro r w' - ⟨h, -⟩ x rfl
  exact h x.1 x.2 rfl

/-- The hardware address of the device is one that the node has made. -/
theorem madeBy_of_holds (hi : Inv S w) (hb : S.backend = .vxlan) {idx : ℕ} {text : String}
    (h : Holds idx dev (some text) (w.hosts a).links) : MadeBy S a (some text) := by
  obtain ⟨d, hd, hname, hmac⟩ := h
  obtain ⟨bytes, hbytes, rfl⟩ := Option.map_eq_some_iff.mp hmac
  obtain ⟨m, rfl, howner⟩ := hi.owned a idx d bytes hd hname hbytes
  unfold MadeBy
  rw [hb]
  exact ⟨m, rfl, howner⟩

theorem safe_publish (hjson : BackendDataRead) {publicIp : String} {vtepMac : Option String}
    (idx : ℕ) (hlegit : Legit S a publicIp vtepMac)
    (hdev : S.backend = .vxlan → Holds idx dev vtepMac (w.hosts a).links) :
    HostSafe S a j (Contract.OnOk fun _ w' => SetUp S w' a idx)
      (publish S.backend publicIp vtepMac).run w := by
  intro w₁ hr hi r w₂ h
  have hdev₁ : S.backend = .vxlan → Holds idx dev vtepMac (w₁.hosts a).links :=
    fun hb => (hr.2 a rfl).links ▸ hdev hb
  rcases h with ⟨rfl, e, rfl⟩ | ⟨ann, hann, rfl⟩
  · exact ⟨hi, guar_refl _ _, fun _ _ _ b hb => nomatch hb⟩
  · refine ⟨hi.patch hjson hlegit hann, ⟨fun x => List.mem_cons_of_mem _, fun b hb => ?_⟩, ?_⟩
    · exact leaves_patch fun he => hb (by rw [he])
    · intro w₃ hr₃ _ _ _
      refine setUp_stable hr₃ fun hb => ⟨vtepMac, hdev₁ hb, fun o ip mac ho hlease => ?_⟩
      obtain rfl : { (w₁.objects a).getD (World.blank a) with annotations := some ann } = o :=
        Option.some.inj (World.write_self.symm.trans ho)
      have h := lease_of_patch (S := S) (o := { (w₁.objects a).getD (World.blank a) with
        annotations := some ann }) hjson hlegit rfl hann
      exact (Prod.mk.inj (Option.some.inj (h.symm.trans hlease))).2.symm

theorem safe_setUpBackend (hjson : BackendDataRead) (hi : Inv S w) {publicIp : String}
    (hip : (parseIpv4 publicIp).isSome) (hnet : (S.net a).isSome) (endpoint gateway : Ipv4Addr)
    (mtu : ℕ) :
    HostSafe S a j (Contract.OnOk fun idx w' => SetUp S w' a idx)
      (setUpBackend S.backend publicIp endpoint gateway mtu).run w := by
  have hret : ∀ {w idx}, SetUp S w a idx → HostSafe S a j
      (Contract.OnOk fun idx w' => SetUp S w' a idx)
      (.ret (.ok idx : Except AttemptError ℕ)) w := by
    intro w idx hs w' hr _ idx' h
    obtain rfl := Except.ok.inj h
    exact setUp_stable hr hs
  cases hb : S.backend with
  | vxlan =>
    refine Contract.Safe.okBind (m := fun x w' => Holds x.2 dev (some x.1) (w'.hosts a).links)
      ?_ hi ?_
    · refine Contract.Safe.map ((safe_ensureVxlan endpoint gateway mtu).mono ?_)
      intro r w' _ h x hx
      cases r with
      | error e => cases hx
      | ok y => exact h x (by rw [← Except.ok.inj hx])
    · rintro ⟨text, idx⟩ w₁ hi₁ hholds
      rw [← hb]
      refine Contract.Safe.okBind (safe_publish hjson idx
        ⟨madeBy_of_holds hi₁ hb hholds, hip, hnet⟩ fun _ => hholds) hi₁ fun _ w₂ _ hs => hret hs
  | hostGw =>
    refine Contract.Safe.okBind (m := fun _ _ => True) ?_ hi ?_
    · refine safe_quiet_ok (Program.Uses.bind ((uses_linkIndexByIp endpoint).mono quiet_of_looksUp)
        fun _ => trivial)
    · rintro idx w₁ hi₁ -
      rw [← hb]
      have hmade : MadeBy S a none := by
        unfold MadeBy
        rw [hb]
      refine Contract.Safe.okBind (safe_publish hjson idx ⟨hmade, hip, hnet⟩ ?_) hi₁
        fun _ w₂ _ hs => hret hs
      · exact fun h => absurd (hb.symm.trans h) (by decide)

/-- What is known of an attempt that succeeds. -/
def Attempted (S : Cluster) (a : String) (boot : BootstrapState) (w : World) : Prop :=
  boot.backend = S.backend ∧ SetUp S w a boot.devIdx

theorem attempted_stable {boot : BootstrapState} (h : (contract S).rely (some a) w w')
    (hs : Attempted S a boot w) : Attempted S a boot w' :=
  ⟨hs.1, setUp_stable h hs.2⟩

/-- The node object has the PodCIDR of the node. -/
theorem safe_ownNode : HostSafe S a j (Contract.OnOk fun own _ => own.podCidr = S.podCidr a)
    ownNode.run w := by
  rintro w₁ - hi res w₂ ⟨rfl, hobject⟩
  refine ⟨hi, guar_refl _ _, ?_⟩
  cases res with
  | error e => exact fun _ _ _ _ h => nomatch h
  | ok o =>
    intro w₃ _ _ own hown
    obtain ⟨hname, hmem⟩ := hi.objects a o (hobject o rfl)
    obtain ⟨b, hb⟩ := hi.versions _ hmem
    obtain rfl : a = b := Option.some.inj (hname.symm.trans hb.name)
    have hextract : extractOwnNode o = .ok own := by
      cases he : extractOwnNode o with
      | error e =>
        rw [he] at hown
        cases hown
      | ok own' =>
        rw [he] at hown
        rw [← Except.ok.inj hown]
    unfold extractOwnNode at hextract
    cases hcidr : o.podCidr with
    | none =>
      rw [hcidr] at hextract
      cases hextract
    | some c =>
      rw [hcidr] at hextract
      cases hfind : o.addresses.bind (List.find? fun x => x.kind = "InternalIP") with
      | none =>
        simp only [hfind] at hextract
        cases hextract
      | some x =>
        simp only [hfind] at hextract
        rw [← Except.ok.inj hextract]
        exact hb.podCidr c hcidr

theorem safe_readFile (text : String) : HostSafe S a j (Contract.OnOk fun raw _ => raw = S.raw)
    (orTransient text (ask (.readFile netConfPath))).run w := by
  rintro w₁ - hi r w₂ ⟨rfl, hraw⟩
  refine ⟨hi, guar_refl _ _, ?_⟩
  intro w₃ _ _ raw hr
  cases r with
  | error e => cases hr
  | ok raw' =>
    obtain rfl := Except.ok.inj hr
    exact hraw raw' rfl rfl

/-- The end of an attempt. -/
theorem safe_writeEnv {text : String} {boot : BootstrapState} (hi : Inv S w)
    (hs : Attempted S a boot w) : HostSafe S a j (Contract.OnOk (Attempted S a)) (do
      let _ ← ExceptT.lift (ask (.createDirAll "/run/flannel"))
      orTransient "write subnet.env" (ask (.writeFile subnetEnvPath text))
      return boot : AttemptProgram BootstrapState).run w := by
  have hstable : ∀ w w', (contract S).rely (some a) w w' → Attempted S a boot w →
      Attempted S a boot w' := fun _ _ => attempted_stable
  refine Contract.Safe.okBind (m := fun _ => Attempted S a boot) ?_ hi fun _ w₁ hi₁ hs₁ => ?_
  · have huses : (ask (.createDirAll "/run/flannel")).Uses Quiet := .send trivial
    exact (safe_quiet hstable huses.lift hs).mono fun _ _ _ h _ _ => h
  refine Contract.Safe.okBind (m := fun _ => Attempted S a boot) ?_ hi₁ fun _ w₂ _ hs₂ => ?_
  · have huses : (ask (.writeFile subnetEnvPath text)).Uses Quiet := .send trivial
    have hall : (orTransient "write subnet.env" (ask (.writeFile subnetEnvPath text))).run.Uses
        Quiet := huses.bind fun _ => trivial
    exact (safe_quiet hstable hall hs₁).mono fun _ _ _ h _ _ => h
  intro w₃ hr _ boot' hboot
  obtain rfl := Except.ok.inj hboot
  exact attempted_stable hr hs₂

/-- Whatever fails, an attempt that succeeds has set the node up. -/
theorem safe_tryBootstrap (hjson : BackendDataRead) (hi : Inv S w) :
    HostSafe S a j (Contract.OnOk (Attempted S a)) tryBootstrap.run w := by
  refine Contract.Safe.okBind (safe_readFile _) hi ?_
  rintro _ w₁ hi₁ rfl
  refine Contract.Safe.okBind (m := fun conf _ => conf.2 = S.backend) ?_ hi₁ ?_
  · refine safe_pure fun conf hconf _ => ?_
    have hclass := S.classified
    cases hc : classifyNetConf S.raw with
    | error e =>
      rw [hc] at hconf
      cases hconf
    | ok conf' =>
      rw [hc] at hconf hclass
      obtain rfl := Except.ok.inj hconf
      exact Except.ok.inj hclass
  rintro conf w₂ hi₂ hconf
  refine Contract.Safe.okBind safe_ownNode hi₂ fun own w₃ hi₃ hown => ?_
  cases hip : parseIpv4 own.publicIp with
  | none => exact fun _ _ _ _ h => nomatch h
  | some endpoint =>
    simp only [orUnparsed, pure_bind]
    cases hcidr : Crates.parseNetwork own.podCidr with
    | none => exact fun _ _ _ _ h => nomatch h
    | some cidr =>
      simp only [pure_bind]
      refine Contract.Safe.okBind
        (safe_quiet_ok (Program.Uses.lift ((uses_linkMtuByIp endpoint).mono quiet_of_looksUp)))
        hi₃ ?_
      intro linkMtu w₄ hi₄ _
      simp only [hconf]
      have hnet : (S.net a).isSome := by
        rw [Cluster.net, ← hown, hcidr]
        rfl
      refine Contract.Safe.okBind (safe_setUpBackend hjson hi₄ (by simp [hip]) hnet _ _ _) hi₄ ?_
      intro idx w₅ hi₅ hs
      exact safe_writeEnv hi₅ ⟨rfl, hs⟩

/-- All attempts, one after the other. -/
theorem safe_bootstrapFrom (hjson : BackendDataRead) (attempts delay : ℕ) (hi : Inv S w) :
    HostSafe S a j (fun r w' => ∀ boot, r = some (.ok boot) → Attempted S a boot w')
      (bootstrapFrom attempts delay) w := by
  induction attempts generalizing delay w with
  | zero => exact fun _ _ _ _ h => nomatch h
  | succ attempts ih =>
    refine Contract.Safe.bind (safe_tryBootstrap hjson hi) hi fun r w₁ hi₁ hr => ?_
    have hagain : HostSafe S a j (fun r w' => ∀ boot, r = some (.ok boot) →
        Attempted S a boot w') (do
          ask (.sleep delay)
          bootstrapFrom attempts (nextDelay delay)) w₁ :=
      Contract.Safe.bind (safe_quiet (K := fun _ => True) (fun _ _ _ _ => trivial)
        (.send trivial) trivial) hi₁ fun _ w₂ hi₂ _ => ih _ hi₂
    cases r with
    | ok boot =>
      intro w₂ hrely _ boot' hboot
      obtain rfl := Except.ok.inj (Option.some.inj hboot)
      exact attempted_stable hrely (hr boot rfl)
    | error e =>
      cases e with
      | fatal e => exact fun _ _ _ _ h => nomatch Option.some.inj h
      | transient text => exact hagain
      | link e => exact hagain

open Classical in
/-- The nodes that the PodCIDRs and the hardware addresses belong to. -/
noncomputable def owners (S : Cluster) : Owners where
  podCidr net := if h : ∃ b n, S.net b = some n ∧ (n.network, n.len) = net then h.choose else ""
  vtepMac := S.owner

/-- The hardware address of a known peer. -/
theorem mac_of_known {patches : List (String × Json)} {p : Peer} (h : Known S patches p) {m : Mac}
    (hm : KernelTables.mac p = some m) :
    p.vtepMac = some (linkMac m.bytes) ∧ S.owner m = p.node := by
  have hmade := h.published.legit.vtepMac
  unfold MadeBy at hmade
  cases hb : S.backend with
  | vxlan =>
    rw [hb] at hmade
    obtain ⟨m', hmac, howner⟩ := hmade
    have hm' : KernelTables.mac p = some m' := by
      simp [KernelTables.mac, hmac, parseMac_linkMac, Except.toOption]
    obtain rfl := Option.some.inj (hm'.symm.trans hm)
    exact ⟨hmac, howner⟩
  | hostGw =>
    rw [hb] at hmade
    have hnone : p.vtepMac = none := hmade
    simp [KernelTables.mac, hnone] at hm

theorem owns_of_known {patches : List (String × Json)} {p : Peer} (h : Known S patches p) :
    (owners S).Owns p := by
  refine ⟨fun net hnet => ?_, fun m hm => (mac_of_known h hm).2⟩
  obtain ⟨n, hn, rfl⟩ := Option.map_eq_some_iff.mp hnet
  rw [h.podCidr] at hn
  have hex : ∃ b n', S.net b = some n' ∧ (n'.network, n'.len) = (n.network, n.len) :=
    ⟨p.node, n, hn, rfl⟩
  have howner : (owners S).podCidr (n.network, n.len) = hex.choose := dif_pos hex
  rw [howner]
  obtain ⟨n', hn', heq⟩ := hex.choose_spec
  have hnetwork : n'.contains n.network = true := by
    rw [← (Prod.mk.inj heq).1]
    exact n'.contains_network
  exact S.disjoint _ _ n' n n.network hn' hn hnetwork n.contains_network

/-- No request leaves an entry of a peer out that counts as installed. -/
abbrev Tolerating (kernel : Environment State PeerOp PeerRes) : Prop :=
  ∀ s o r s', kernel s o r s' → ToleratedAnswers s o r s'

/-- The memory of a `flanneld` in its loop. -/
structure Runs (S : Cluster) (kernel : Environment State PeerOp PeerRes) (a : String) (r : Running)
    (w : World) : Prop where
  attempted : Attempted S a r.boot w
  keyed : Keyed r.installed
  known : ∀ n p, r.installed.lookup n = some p → n ≠ a ∧ Known S w.patches p
  kept : Tolerating kernel → Kept (owners S) S.backend r.boot.devIdx r.installed (w.hosts a).peers

variable {kernel : Environment State PeerOp PeerRes} {r : Running}

theorem runs_stable (h : (contract S).rely (some a) w w') (hr : Runs S kernel a r w) :
    Runs S kernel a r w' := by
  refine ⟨attempted_stable h hr.attempted, hr.keyed, fun n p hp => ?_, fun ht => ?_⟩
  · exact ⟨(hr.known n p hp).1, (hr.known n p hp).2.mono h.1⟩
  · rw [(h.2 a rfl).peers]
    exact hr.kept ht

/-- The memory is walked through in any order. -/
theorem Runs.perm (h : Runs S kernel a r w) {installed : PeerMap}
    (hperm : installed.entries.Perm r.installed.entries) :
    Runs S kernel a ⟨r.boot, installed⟩ w := by
  have hsame : ∀ n, installed.lookup n = r.installed.lookup n := fun n => AList.perm_lookup hperm
  refine ⟨h.attempted, fun n p hp => ?_, fun n p hp => ?_,
    fun ht => ⟨fun n p hp => ?_, fun n p hp => ?_, fun n p hp => ?_⟩⟩
  · exact h.keyed n p (hsame n ▸ hp)
  · exact h.known n p (hsame n ▸ hp)
  · exact (h.kept ht).node n p (hsame n ▸ hp)
  · exact (h.kept ht).owned n p (hsame n ▸ hp)
  · exact (h.kept ht).present n p (hsame n ▸ hp)

/-- A change of the host that leaves its links. -/
theorem attempted_setHost {h : Host} {boot : BootstrapState} (hs : Attempted S a boot w)
    (hl : h.links = (w.hosts a).links) : Attempted S a boot (w.setHost a h) := by
  refine ⟨hs.1, fun hb => ?_⟩
  obtain ⟨mac, hholds, hlease⟩ := hs.2 hb
  exact ⟨mac, by rwa [World.setHost_self, hl], hlease⟩

theorem runs_setHost {h : Host} (hr : Runs S kernel a r w) (hl : h.links = (w.hosts a).links)
    (hp : h.peers = (w.hosts a).peers) : Runs S kernel a r (w.setHost a h) :=
  ⟨attempted_setHost hr.attempted hl, hr.keyed, hr.known, fun ht => by
    rw [World.setHost_self, hp]
    exact hr.kept ht⟩

/-- The desired peers of a round are known, and none of them is the node itself. -/
theorem known_of_desired (hi : Inv S w) {desired : PeerMap}
    (hperm : desired.entries.Perm (desiredFromNodes (w.hosts a).store a S.backend).entries)
    {n : String} {p : Peer} (hp : desired.lookup n = some p) :
    n = p.node ∧ n ≠ a ∧ Known S w.patches p := by
  rw [AList.perm_lookup hperm, lookup_desiredFromNodes (hi.distinct a)] at hp
  obtain ⟨hne, v, hv, hname, hpeer⟩ := hp
  obtain ⟨b, hb⟩ := hi.versions v (hi.stores a v hv)
  refine ⟨Option.some.inj (hname.symm.trans (nodeToPeer_node hpeer)), hne, hb.known hpeer⟩

omit [Crates] in
theorem isAddition_of_adds {oif : ℕ} {x : Key} {v : Value} {o : PeerOp} (h : Adds oif x v o) :
    PeerOrphans.IsAddition o := by
  cases o with
  | addRoute m => trivial
  | addNeighbour m => trivial
  | addFdb m => trivial
  | _ => exact h.elim

theorem wlp_round {idx : ℕ} {installed desired : PeerMap} {s : State} (hi : Keyed installed)
    (hd : Keyed desired) (howned : ∀ n p, desired.lookup n = some p → (owners S).Owns p)
    (hkept : Tolerating kernel → Kept (owners S) S.backend idx installed s) :
    wlp kernel (fun next s' => Keyed next ∧
        (∀ n p, next.lookup n = some p → desired.lookup n = some p) ∧
        (Tolerating kernel → Kept (owners S) S.backend idx next s'))
      (reconcilePeers S.backend idx installed desired) s := by
  refine wlp_of_exec fun next s' hexec => ?_
  obtain ⟨added, -, hnext⟩ := exists_ran (nodup_reconcile hi hd) hexec
  have hbooks := bookkept hi hd added
  rw [← hnext] at hbooks
  refine ⟨hbooks.keyed, fun n p hp => ((hbooks.held n p).mp hp).1, fun ht => ?_⟩
  exact (hkept ht).reconcilePeers (fun n p hp => ⟨hd n p hp, howned n p hp⟩) (hexec.project id ht)

abbrev RoundSafe (S : Cluster) (kernel : Environment State PeerOp PeerRes) (a : String) (j : Job)
    {β : Type} (post : β → World → Prop) (prog : DaemonProgram β) (w : World) : Prop :=
  (contract S).Safe (S.answers kernel a) (some a) j post prog w

variable (hkernel : ∀ s o r s', kernel s o r s' → Answers s o r s')

include hkernel in
theorem safe_reconcilePeers {desired : PeerMap} (hr : Runs S kernel a r w)
    (hdesired : ∀ n p, desired.lookup n = some p → n = p.node ∧ n ≠ a ∧ Known S w.patches p) :
    RoundSafe S kernel a j (fun next w' => Runs S kernel a ⟨r.boot, next⟩ w')
      (onPeers (reconcilePeers r.boot.backend r.boot.devIdx r.installed desired)) w := by
  let K (w : World) : Prop := Attempted S a r.boot w ∧
    ∀ n p, desired.lookup n = some p → n = p.node ∧ n ≠ a ∧ Known S w.patches p
  have hd : Keyed desired := fun n p hp => (hdesired n p hp).1.symm
  have hround := wlp_round (S := S) (s := (w.hosts a).peers) hr.keyed hd
    (fun n p hp => owns_of_known (hdesired n p hp).2.2) hr.kept
  rw [hr.attempted.1]
  have hsafe : (contract S).Safe (fun (w : World) (o : PeerOp) (r : PeerRes o) (w' : World) =>
      S.answers kernel a w (.peer o) r w') (some a) j (fun next w' => (Keyed next ∧
        (∀ n p, next.lookup n = some p → desired.lookup n = some p) ∧
        (Tolerating kernel → Kept (owners S) S.backend r.boot.devIdx next
          (w'.hosts a).peers)) ∧ K w')
      (reconcilePeers S.backend r.boot.devIdx r.installed desired) w := by
    refine Contract.Safe.of_wlp (f := fun w : World => (w.hosts a).peers) (E := kernel) (K := K)
      ?_ ?_ (uses_reconcilePeers r.installed) hround ⟨hr.attempted, hdesired⟩
    · rintro w w' hrely ⟨hattempted, hknown⟩
      refine ⟨(hrely.2 a rfl).peers, attempted_stable hrely hattempted, fun n p hp => ?_⟩
      obtain ⟨hnode, hne, hk⟩ := hknown n p hp
      exact ⟨hnode, hne, hk.mono hrely.1⟩
    · rintro w o res _ ho hi ⟨hattempted, hknown⟩ ⟨k, hk, rfl⟩
      refine ⟨?_, guar_setHost _, by simpa using hk, attempted_setHost hattempted rfl, hknown⟩
      refine hi.setHost (hi.distinct a) (hi.stores a) (hi.owned a) fun oif x v hx hview => ?_
      rcases view_answered (hkernel _ _ _ _ hk) hview with hold | hadds
      · exact hi.entries a oif x v hx hold
      · obtain ⟨n, p, hp, hentry⟩ := ho (isAddition_of_adds hadds)
        obtain ⟨rfl, hne, hk⟩ := hknown n p hp
        exact ⟨p, hne, hk, entry_of_adds hentry hadds⟩
  refine Contract.Safe.interpret_send (f := DaemonOp.peer) (hsafe.mono ?_)
  rintro next w' - ⟨⟨hkeyed, hnext, hkept⟩, hattempted, hknown⟩
  exact ⟨hattempted, hkeyed, fun n p hp => (hknown n p (hnext n p hp)).2, hkept⟩

include hkernel in
theorem safe_round {desired : PeerMap} (masq : Bool) (ev : LoopEvent) (hr : Runs S kernel a r w)
    (hdesired : ∀ n p, desired.lookup n = some p → n = p.node ∧ n ≠ a ∧ Known S w.patches p) :
    RoundSafe S kernel a j (fun next w' => ∀ m, next = some m → Runs S kernel a ⟨r.boot, m⟩ w')
      (round r.boot masq r.installed desired ev) w := by
  have hreconcile : RoundSafe S kernel a j
      (fun next w' => ∀ m, next = some m → Runs S kernel a ⟨r.boot, m⟩ w') (do
        return some (← onPeers
          (reconcilePeers r.boot.backend r.boot.devIdx r.installed desired))) w := by
    refine Contract.Safe.map ((safe_reconcilePeers hkernel hr hdesired).mono ?_)
    intro next w' _ h m hm
    exact Option.some.inj hm ▸ h
  have hret : ∀ {w}, Runs S kernel a r w → RoundSafe S kernel a j
      (fun next w' => ∀ m, next = some m → Runs S kernel a ⟨r.boot, m⟩ w')
      (.ret (some r.installed)) w := by
    intro w hr w' hrely _ m hm
    obtain rfl := Option.some.inj hm
    exact runs_stable hrely hr
  cases ev with
  | watched => exact hreconcile
  | peerResync => exact hreconcile
  | watchError => exact hret hr
  | watchEnded => exact fun _ _ _ m hm => nomatch hm
  | masqTick =>
    cases masq with
    | false => exact hret hr
    | true =>
      have hnat : (contract S).Safe (fun (w : World) (c : NatTables.Command)
          (res : Masquerade.CommandRes c) (w' : World) => S.answers kernel a w (.nat c) res w')
          (some a) j (fun _ w' => Runs S kernel a r w')
          (Masquerade.ensure r.boot.network r.boot.subnet).run w := by
        refine Contract.Safe.of_uses (P := fun _ => True) (fun _ _ => runs_stable) ?_
          (Program.uses_true _) hr
        rintro w c res _ - hi hr rfl
        exact ⟨hi, guar_refl _ _, hr⟩
      exact Contract.Safe.map ((Contract.Safe.interpret_send (f := DaemonOp.nat) hnat).mono
        fun _ w' _ h m hm => Option.some.inj hm ▸ h)

/-- What `flanneld` has in its memory between two jobs. -/
def Idle (S : Cluster) (kernel : Environment State PeerOp PeerRes) (p : Option String) (w : World) :
    Prop :=
  ∀ a, p = some a → ∀ r, (w.hosts a).running = some r → Runs S kernel a r w

/-- The job ends with a memory for `flanneld`. -/
def Returns : Job → Prop
  | .bootstrap _ _ => True
  | .round _ _ _ _ _ _ => True
  | _ => False

/-- What a job leaves behind. -/
def Left (S : Cluster) (kernel : Environment State PeerOp PeerRes) (p : Option String) (j : Job)
    (r : Option Running) (w : World) : Prop :=
  ∀ a, p = some a → (∀ r', r = some r' → Runs S kernel a r' w) ∧
    (¬ Returns j → (w.hosts a).running = none)

theorem safe_ret_none {answers : Environment World DaemonOp DaemonRes} {p : Option String}
    (h : ∀ a, p = some a → (w.hosts a).running = none) :
    (contract S).Safe answers p j (Left S kernel p j) (.ret none) w := by
  intro w' hr _ a ha
  refine ⟨nofun, fun _ => ?_⟩
  rw [(hr.2 a ha).running]
  exact h a ha

theorem safe_left {prog : DaemonProgram (Option Running)} (hj : Returns j)
    (h : RoundSafe S kernel a j (fun r w' => ∀ r', r = some r' → Runs S kernel a r' w') prog w) :
    RoundSafe S kernel a j (Left S kernel (some a) j) prog w := by
  refine h.mono fun r w' _ hr b hb => ⟨fun r' hr' => ?_, fun hnot => absurd hj hnot⟩
  obtain rfl := Option.some.inj hb
  exact hr r' hr'

/-- A `flanneld` that starts, and may be ended in the middle. -/
theorem safe_bootstrap (hjson : BackendDataRead) (attempts budget : ℕ) (hj : Returns j)
    (hi : Inv S w) :
    RoundSafe S kernel a j (Left S kernel (some a) j) (program (.bootstrap attempts budget)) w := by
  refine safe_left hj (Contract.Safe.map (Contract.Safe.mono (Contract.Safe.cut
    (Contract.Safe.interpret_send (f := DaemonOp.host)
      (safe_bootstrapFrom hjson attempts 1 hi)) budget) ?_))
  intro r w' _ h r' hr'
  obtain ⟨res, hres, hstarted⟩ := Option.bind_eq_some_iff.mp hr'
  obtain ⟨boot, rfl, rfl⟩ : ∃ boot, res = some (.ok boot) ∧ r' = ⟨boot, ∅⟩ := by
    rcases res with _ | (e | boot)
    · cases hstarted
    · cases hstarted
    · exact ⟨boot, rfl, (Option.some.inj hstarted).symm⟩
  refine ⟨h _ hres boot rfl, ?_, ?_, fun _ => ?_⟩
  · simp [Keyed]
  · simp
  · constructor <;> simp

include hkernel in
theorem safe_budgeted {desired : PeerMap} (masq : Bool) (ev : LoopEvent) (budget : ℕ)
    (hj : Returns j) (hr : Runs S kernel a r w)
    (hdesired : ∀ n p, desired.lookup n = some p → n = p.node ∧ n ≠ a ∧ Known S w.patches p) :
    RoundSafe S kernel a j (Left S kernel (some a) j)
      (program (.round r.boot masq r.installed desired ev budget)) w := by
  refine safe_left hj (Contract.Safe.map (Contract.Safe.mono (Contract.Safe.cut
    (safe_round hkernel masq ev hr hdesired) budget) ?_))
  intro res w' _ h r' hr'
  obtain ⟨m, rfl, hm⟩ := Option.bind_eq_some_iff.mp hr'
  obtain ⟨installed, rfl, rfl⟩ := Option.map_eq_some_iff.mp hm
  exact h _ rfl installed rfl

/-- Only the memory of a `flanneld` that has ended is taken back. -/
theorem inv_setRunning (hi : Inv S w) (r : Option Running) :
    Inv S (w.setHost a { w.hosts a with running := r }) :=
  hi.setMemory (hi.distinct a) (hi.stores a) rfl rfl

theorem idle_setHost {h : Host} (hr : ∀ r, h.running = some r → Runs S kernel a r (w.setHost a h)) :
    Idle S kernel (some a) (w.setHost a h) := by
  intro b hb r hrun
  obtain rfl := Option.some.inj hb
  rw [World.setHost_self] at hrun
  exact hr r hrun

include hkernel in
theorem safe_start (hjson : BackendDataRead) {p : Option String} (hi : Inv S w)
    (hidle : Idle S kernel p w) (h : S.starts p j w w') :
    Inv S w' ∧ (contract S).guar p j w w' ∧
      (contract S).Safe ((S.system kernel).answers p j) p j (Left S kernel p j) (program j) w' := by
  cases p with
  | none =>
    cases j with
    | write a o =>
      obtain ⟨hwrites, rfl⟩ := h
      refine ⟨hi.write (version_of_writes hi hwrites), ⟨fun _ => id, fun b _ => ?_⟩,
        safe_ret_none nofun⟩
      exact leaves_write fun _ => leaseOf_writes hwrites
    | delete a =>
      obtain rfl := h
      exact ⟨hi.delete a, ⟨fun _ => id, fun b _ => leaves_delete S w a b⟩, safe_ret_none nofun⟩
    | deliver a nodes =>
      obtain ⟨hdistinct, hmem, rfl⟩ := h
      exact ⟨hi.setMemory hdistinct hmem rfl rfl,
        ⟨fun _ => id, fun b _ => leaves_store rfl rfl rfl⟩, safe_ret_none nofun⟩
    | _ => exact h.elim
  | some a =>
    cases j with
    | bootstrap attempts budget =>
      obtain ⟨-, rfl⟩ := h
      have hi' : Inv S (w.setHost a { w.hosts a with store := [] }) :=
        hi.setMemory List.nodup_nil (by simp) rfl rfl
      exact ⟨hi', guar_setHost _, safe_bootstrap hjson attempts budget trivial hi'⟩
    | round boot masq installed desired ev budget =>
      obtain ⟨rfl, r, hrun, rfl, hinstalled, hdesired⟩ := h
      have hr := hidle a rfl r hrun
      rw [hr.attempted.1] at hdesired
      have hj : Returns (.round r.boot masq installed desired ev budget) := trivial
      exact ⟨hi, guar_refl _ _, safe_budgeted hkernel masq ev budget hj (hr.perm hinstalled)
        fun n p hp => known_of_desired hi hdesired hp⟩
    | stop =>
      obtain rfl := h
      refine ⟨inv_setRunning hi none, guar_setHost _, safe_ret_none fun b hb => ?_⟩
      obtain rfl := Option.some.inj hb
      simp
    | reboot =>
      obtain ⟨host, hbooted, rfl⟩ := h
      refine ⟨hi.setHost ?_ ?_ hbooted.owned fun oif x v hx hview => ?_, guar_setHost _,
        safe_ret_none fun b hb => ?_⟩
      · rw [hbooted.store]
        exact List.nodup_nil
      · simp [hbooted.store]
      · rw [hbooted.foreign oif x hx] at hview
        cases hview
      · obtain rfl := Option.some.inj hb
        simp [hbooted.running]
    | _ => exact h.elim

theorem safe_finish {p : Option String} {res : Option Running} (hi : Inv S w)
    (hleft : Left S kernel p j res w) (h : Cluster.finishes p j res w w') :
    Inv S w' ∧ (contract S).guar p j w w' ∧ Idle S kernel p w' := by
  cases p with
  | none =>
    obtain rfl : w' = w := by cases j <;> exact h
    exact ⟨hi, guar_refl _ _, nofun⟩
  | some a =>
    obtain ⟨hruns, hnone⟩ := hleft a rfl
    have hset : w' = w.setHost a { w.hosts a with running := res } →
        Inv S w' ∧ (contract S).guar (some a) j w w' ∧ Idle S kernel (some a) w' := by
      rintro rfl
      exact ⟨inv_setRunning hi res, guar_setHost _,
        idle_setHost fun r hr => runs_setHost (hruns r hr) rfl rfl⟩
    have hsame : ¬ Returns j → w' = w →
        Inv S w' ∧ (contract S).guar (some a) j w w' ∧ Idle S kernel (some a) w' := by
      rintro hj rfl
      refine ⟨hi, guar_refl _ _, fun b hb r hr => ?_⟩
      obtain rfl := Option.some.inj hb
      rw [hnone hj] at hr
      cases hr
    cases j with
    | bootstrap attempts budget => exact hset h
    | round boot masq installed desired ev budget => exact hset h
    | _ => exact hsame id h

theorem verified (hjson : BackendDataRead)
    (hkernel : ∀ s o r s', kernel s o r s' → Answers s o r s') :
    Verified (S.system kernel) (contract S) (Idle S kernel) (Left S kernel) where
  idle_rely p w w' _ hrely hidle a ha r hr := by
    subst ha
    rw [(hrely.2 a rfl).running] at hr
    exact runs_stable hrely (hidle a rfl r hr)
  start p j w w' hi hidle h := safe_start hkernel hjson hi hidle h
  finish p j res w w' hi hleft h := safe_finish hi hleft h

theorem inv_of_initial (h : S.Initial w) : Inv S w := by
  have hbooted := h.booted
  refine ⟨fun a o ho => ?_, fun v hv => ?_, fun a => ?_, fun a v hv => ?_,
    fun a => (hbooted a).owned, fun a oif x v hx hview => ?_⟩
  · rw [h.objects a] at ho
    cases ho
  · rw [h.versions] at hv
    cases hv
  · rw [(hbooted a).store]
    exact List.nodup_nil
  · rw [(hbooted a).store] at hv
    cases hv
  · rw [(hbooted a).foreign oif x hx] at hview
    cases hview

/-- What is known of every configuration that is reached. -/
theorem reached {c d : Cluster.ClusterConfig} (hjson : BackendDataRead)
    (hkernel : ∀ s o r s', kernel s o r s' → Answers s o r s') (hc : S.Fresh c)
    (h : (S.system kernel).Reachable c d) :
    Inv S d.state ∧ ∀ p, d.busy p = none → Idle S kernel p d.state := by
  have hstands :
      ∀ p, Stands (S.system kernel) (contract S) (Idle S kernel) (Left S kernel) c p := by
    intro p
    rw [Stands, hc.idle p]
    rintro a rfl r hr
    rw [(hc.initial.booted a).running] at hr
    cases hr
  obtain ⟨hi, hs⟩ := (verified hjson hkernel).reachable (inv_of_initial hc.initial) hstands h
  refine ⟨hi, fun p hp => ?_⟩
  have hstand := hs p
  rwa [Stands, hp] at hstand

end FlannelRs.OverlaySafety
