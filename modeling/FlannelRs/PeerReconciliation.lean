import FlannelRs.KernelTables

/-!
# Reconciling peers with the kernel when no request fails
-/

namespace FlannelRs.PeerReconciliation
open InteractionPrograms Ipv4Addresses RustText CniTypes Flanneld ExclusiveTables KernelTables

variable [Crates] {backend : BackendType} {dev : ℕ} {k k' : Kernel} {installed desired : PeerMap}

def changes (backend : BackendType) : Action → List (Change Key Value)
  | .add p => adds (entries backend p)
  | .remove p => removes (entries backend p)

/-- The actions are the changes of the keyed diff. -/
theorem flatMap_changes_reconcile (installed desired : PeerMap) :
    (reconcile installed desired).flatMap (changes backend) =
      updates (entries backend) installed desired := by
  rw [reconcile, List.flatMap_append, List.flatMap_assoc, List.flatMap_assoc, updates, additions]
  congr 1
  · apply List.flatMap_congr
    intro e _
    unfold update
    cases desired.lookup e.1 with
    | none => simp [changes]
    | some new => by_cases hne : new = e.2 <;> simp [hne, changes]
  · apply List.flatMap_congr
    intro e _
    by_cases hin : e.1 ∈ installed <;> simp [hin, changes]

/-- One round of the loop makes the changes of its action. -/
theorem wlp_applyAction {a : Action} (ha : ∀ p, a = .remove p → Parses backend p)
    (next : PeerMap) :
    PeerWlp (fun _ k' => k'.view dev = run (changes backend a) (k.view dev))
      (applyAction backend dev next a) k := by
  cases a with
  | add p =>
    refine (wlp_addPeer backend p).bind fun added k₁ ⟨_, hview⟩ => ?_
    cases added <;> exact hview
  | remove p => exact (wlp_removePeer (ha p rfl)).bind fun _ _ hview => hview

/-- The loop makes the changes of its actions in order. -/
theorem wlp_foldlM_applyAction {as : List Action}
    (has : ∀ p, Action.remove p ∈ as → Parses backend p) (next : PeerMap) :
    PeerWlp (fun _ k' => k'.view dev = run (as.flatMap (changes backend)) (k.view dev))
      (as.foldlM (applyAction backend dev) next) k := by
  induction as generalizing next k with
  | nil => exact rfl
  | cons a as ih =>
    rw [List.foldlM_cons]
    refine (wlp_applyAction (fun p hp => has p (by simp [hp])) next).bind fun next' k₁ hview => ?_
    refine (ih (fun p hp => has p (List.mem_cons_of_mem a hp)) next').mono fun _ k₂ hrest => ?_
    rw [hrest, hview, List.flatMap_cons, run_append]

omit [Crates] in
theorem remove_mem_reconcile {p : Peer} (h : Action.remove p ∈ reconcile installed desired) :
    ∃ n, installed.lookup n = some p := by
  rcases List.mem_append.mp h with h | h
  · obtain ⟨e, he, hp⟩ := List.mem_flatMap.mp h
    have hlookup : installed.lookup e.1 = some e.2 := AList.mem_lookup_iff.mpr he
    refine ⟨e.1, hlookup.trans ?_⟩
    cases hd : desired.lookup e.1 with
    | none => simpa [hd, eq_comm] using hp
    | some new =>
      by_cases hne : new = e.2
      · simp [hd, hne] at hp
      · simpa [hd, hne, eq_comm] using hp
  · obtain ⟨e, -, hp⟩ := List.mem_flatMap.mp h
    by_cases hin : e.1 ∈ installed <;> simp [hin] at hp

theorem wlp_reconcilePeers (hi : ∀ n p, installed.lookup n = some p → Parses backend p) :
    PeerWlp (fun _ k' => k'.view dev =
        run (updates (entries backend) installed desired) (k.view dev))
      (reconcilePeers backend dev installed desired) k := by
  rw [← flatMap_changes_reconcile]
  apply wlp_foldlM_applyAction
  intro p hp
  obtain ⟨n, hn⟩ := remove_mem_reconcile hp
  exact hi n p hn

/-- The network of the pod CIDR of a peer. -/
def podNet (p : Peer) : Option (Ipv4Addr × ℕ) :=
  (Crates.parseNetwork p.podCidr).map fun net => (net.network, net.len)

/-- The fields of all peers can be read, and the pod CIDRs and the VTEP MACs are pairwise
distinct. -/
structure Distinct (backend : BackendType) (m : PeerMap) : Prop where
  parses : ∀ n p, m.lookup n = some p → Parses backend p
  podCidrs : m.entries.Pairwise fun e e' => podNet e.2 ≠ podNet e'.2
  vtepMacs : backend = .vxlan → m.entries.Pairwise fun e e' => mac e.2 ≠ mac e'.2

instance (p : Peer) : Decidable (Parses backend p) :=
  decidable_of_iff ((Crates.parseNetwork p.podCidr).isSome ∧ (parseIpv4 p.publicIp).isSome ∧
      (backend = .vxlan → (mac p).isSome))
    ⟨fun h => ⟨h.1, h.2.1, h.2.2⟩, fun h => ⟨h.podCidr, h.publicIp, h.vtepMac⟩⟩

instance (m : PeerMap) : Decidable (Distinct backend m) :=
  decidable_of_iff ((∀ e ∈ m.entries, Parses backend e.2) ∧
      (m.entries.Pairwise fun e e' => podNet e.2 ≠ podNet e'.2) ∧
      (backend = .vxlan → m.entries.Pairwise fun e e' => mac e.2 ≠ mac e'.2))
    ⟨fun h => ⟨fun n p hn => h.1 ⟨n, p⟩ (AList.mem_lookup_iff.mp hn), h.2.1, h.2.2⟩,
      fun h => ⟨fun e he => h.parses e.1 e.2 (AList.mem_lookup_iff.mpr he), h.podCidrs,
        h.vtepMacs⟩⟩

/-- The kernel entries of the device are those of the peers. -/
abbrev Realised (backend : BackendType) (dev : ℕ) (k : Kernel) (m : PeerMap) : Prop :=
  Realises (entries backend) (k.view dev) m

instance : Decidable (Realised backend dev k installed) :=
  decidable_of_iff (∀ e ∈ k.listed dev ++ installed.entries.flatMap (entries backend ·.2),
      e ∈ k.listed dev ↔ e ∈ installed.entries.flatMap (entries backend ·.2)) <| by
    rw [Realised, realises_iff_listed _ fun _ _ => Kernel.mem_listed]
    constructor
    · intro h e
      by_cases he : e ∈ k.listed dev ++ installed.entries.flatMap (entries backend ·.2)
      · exact h e he
      · rw [List.mem_append, not_or] at he
        exact ⟨fun hm => absurd hm he.1, fun hm => absurd hm he.2⟩
    · exact fun h e _ => h e

theorem mem_l2Entries {p : Peer} {x : Key} {v : Value} :
    (x, v) ∈ l2Entries p ↔ ∃ m net ip, mac p = some m ∧ Crates.parseNetwork p.podCidr = some net ∧
      parseIpv4 p.publicIp = some ip ∧
      ((x = .neighbour net.network ∧ v = .mac m) ∨ (x = .fdb m ∧ v = .underlay ip)) := by
  unfold l2Entries
  cases mac p <;> cases Crates.parseNetwork p.podCidr <;> cases parseIpv4 p.publicIp <;> simp

/-- The entries of a peer in terms of its fields. -/
theorem mem_entries {p : Peer} {x : Key} {v : Value} :
    (x, v) ∈ entries backend p ↔
      match backend with
      | .vxlan => (∃ net, Crates.parseNetwork p.podCidr = some net ∧
          x = .route net.network net.len ∧ v = .gateway ⟨net.network, true⟩) ∨ (x, v) ∈ l2Entries p
      | .hostGw => ∃ net ip, Crates.parseNetwork p.podCidr = some net ∧
          parseIpv4 p.publicIp = some ip ∧ x = .route net.network net.len ∧
          v = .gateway ⟨ip, false⟩ := by
  cases backend with
  | vxlan => cases h : Crates.parseNetwork p.podCidr <;> simp [entries, h]
  | hostGw =>
    cases h : Crates.parseNetwork p.podCidr <;> cases h' : parseIpv4 p.publicIp <;>
      simp [entries, h, h']

theorem entries_functional (p : Peer) (x : Key) (v w : Value) (hv : (x, v) ∈ entries backend p)
    (hw : (x, w) ∈ entries backend p) : v = w := by
  rw [mem_entries] at hv hw
  cases backend with
  | vxlan =>
    simp only [mem_l2Entries] at hv hw
    grind
  | hostGw => grind

/-- Two peers with one key and one value there have a pod CIDR or a VTEP MAC in common. -/
theorem common_of_entries {p q : Peer} {x : Key} {v : Value} (hp : (x, v) ∈ entries backend p)
    (hq : (x, v) ∈ entries backend q) :
    podNet p = podNet q ∨ backend = .vxlan ∧ mac p = mac q := by
  rw [mem_entries] at hp hq
  cases backend with
  | vxlan =>
    simp only [mem_l2Entries] at hp hq
    rcases hp with ⟨net, hnet, rfl, rfl⟩ | ⟨m, net, ip, hm, hnet, hip, hkey⟩
    · rcases hq with ⟨net', hnet', hx, -⟩ | ⟨m', net', ip', -, -, -, ⟨hx, -⟩ | ⟨hx, -⟩⟩
      · obtain ⟨hnetwork, hlen⟩ := Key.route.inj hx
        simp [podNet, hnet, hnet', hnetwork, hlen]
      · cases hx
      · cases hx
    · rcases hq with ⟨net', hnet', rfl, -⟩ | ⟨m', net', ip', hm', hnet', hip', hkey'⟩
      · simp at hkey
      · right
        refine ⟨rfl, ?_⟩
        rw [hm, hm']
        rcases hkey with ⟨rfl, rfl⟩ | ⟨rfl, rfl⟩
        · have hboth : net.network = net'.network ∧ m = m' := by simpa using hkey'
          rw [hboth.2]
        · simp only [reduceCtorEq, false_and, false_or, Key.fdb.injEq] at hkey'
          rw [hkey'.1]
  | hostGw =>
    obtain ⟨net, ip, hnet, -, rfl, -⟩ := hp
    obtain ⟨net', ip', hnet', -, hx, -⟩ := hq
    obtain ⟨hnetwork, hlen⟩ := Key.route.inj hx
    simp [podNet, hnet, hnet', hnetwork, hlen]

/-- The peers that a kernel state realises have different keys. -/
theorem Distinct.separate {m : PeerMap} (h : Distinct backend m)
    (hr : Realised backend dev k m) : Separate (entries backend) m := by
  have hshared : ∀ e ∈ m.entries, ∀ e' ∈ m.entries,
      ¬ KeysDisjoint (entries backend e.2) (entries backend e'.2) →
        podNet e.2 = podNet e'.2 ∨ backend = .vxlan ∧ mac e.2 = mac e'.2 := by
    intro e he e' he' hd
    simp only [KeysDisjoint, not_forall, not_not] at hd
    obtain ⟨⟨x, v⟩, hv, ⟨x', w⟩, hw, rfl⟩ := hd
    have hxv := (hr x v).mpr ⟨e.1, e.2, AList.mem_lookup_iff.mpr he, hv⟩
    have hxw := (hr x w).mpr ⟨e'.1, e'.2, AList.mem_lookup_iff.mpr he', hw⟩
    obtain rfl := Option.some.inj (hxv.symm.trans hxw)
    exact common_of_entries hv hw
  cases hb : backend with
  | vxlan =>
    subst hb
    refine (h.podCidrs.and (h.vtepMacs rfl)).imp_of_mem fun {e e'} he he' ⟨hcidr, hmac⟩ => ?_
    by_contra hd
    rcases hshared e he e' he' hd with heq | ⟨-, heq⟩
    · exact hcidr heq
    · exact hmac heq
  | hostGw =>
    subst hb
    refine h.podCidrs.imp_of_mem fun {e e'} he he' hcidr => ?_
    by_contra hd
    rcases hshared e he e' he' hd with heq | ⟨hb, -⟩
    · exact hcidr heq
    · cases hb

/-- Reconciling, on a kernel state that realises the installed peers, runs to its end, and then
the kernel state realises the desired peers exactly if no installed peer stands behind one that
takes one of its keys, and the desired peers have different keys. -/
theorem reconcile_realises_iff (hi : Distinct backend installed) (hd : Distinct backend desired)
    (hk : Realised backend dev k installed) :
    (∃ next k', Exec (fun k o r k' => k.Answers o r k') k
      (reconcilePeers backend dev installed desired) next k') ∧
    ∀ next k', Exec (fun k o r k' => k.Answers o r k') k
      (reconcilePeers backend dev installed desired) next k' →
      (Realised backend dev k' desired ↔
        InOrder (entries backend) installed desired ∧ Separate (entries backend) desired) := by
  have htotal : ∀ (k : Kernel) o, ∃ r k', k.Answers o r k' :=
    fun k o => ⟨_, _, k.perform_answers o⟩
  refine ⟨Exec.exists_of_total htotal _ k, fun next k' h => ?_⟩
  have hview := h.wlp (wlp_reconcilePeers hi.parses)
  have hsep := hi.separate hk
  constructor
  · intro hr
    have hsep' := hd.separate hr
    rw [Realised, hview, realises_updates_iff entries_functional hk hsep hsep'] at hr
    exact ⟨hr, hsep'⟩
  · rintro ⟨ho, hsep'⟩
    rw [Realised, hview]
    exact (realises_updates_iff entries_functional hk hsep hsep').mpr ho

/-- The first of two nodes, as a peer. -/
def peerA (podCidr : String) : Peer := ⟨"a", podCidr, "172.18.0.2", some "0a:00:00:00:00:0a"⟩

def peerB (podCidr : String) : Peer := ⟨"b", podCidr, "172.18.0.3", some "0a:00:00:00:00:0b"⟩

def peersAB (podCidr podCidr' : String) : PeerMap :=
  ⟨[⟨"a", peerA podCidr⟩, ⟨"b", peerB podCidr'⟩], by simp [List.NodupKeys, List.keys]⟩

def peersB (podCidr : String) : PeerMap := AList.singleton "b" (peerB podCidr)

def emptyKernel : Kernel := ⟨∅, ∅, ∅⟩

/-- A reconciliation against a kernel that computes its answers. -/
def reconciled (backend : BackendType) (installed desired : PeerMap) (k : Kernel) :
    Option (PeerMap × Kernel) :=
  (reconcilePeers backend 7 installed desired).run (fun o k => some (k.perform o)) k

theorem exec_of_reconciled {next : PeerMap}
    (h : reconciled backend installed desired k = some (next, k')) :
    Exec (fun k o r k' => k.Answers o r k') k (reconcilePeers backend 7 installed desired)
      next k' := by
  refine Program.exec_of_run (fun o k r k₁ hr => ?_) h
  obtain rfl := (congrArg Prod.fst (Option.some.inj hr)).symm
  obtain rfl := (congrArg Prod.snd (Option.some.inj hr)).symm
  exact k.perform_answers o

omit [Crates] in
/-- When node `a` is gone and node `b` has taken its pod CIDR, reconciling realises that. -/
theorem reconcile_realises_taken_podCidr : ∃ k next k',
    @Realised Crates.compact .vxlan 7 k (peersAB "10.244.1.0/24" "10.244.2.0/24") ∧
    Exec (fun k o r k' => k.Answers o r k') k (@reconcilePeers Crates.compact .vxlan 7
      (peersAB "10.244.1.0/24" "10.244.2.0/24") (peersB "10.244.1.0/24")) next k' ∧
    @Realised Crates.compact .vxlan 7 k' (peersB "10.244.1.0/24") := by
  let := Crates.compact
  have hk : (reconciled .vxlan ∅ (peersAB "10.244.1.0/24" "10.244.2.0/24") emptyKernel).map
      (fun r => decide (Realised .vxlan 7 r.2 (peersAB "10.244.1.0/24" "10.244.2.0/24"))) =
        some true := by
    decide +kernel
  obtain ⟨⟨m, k⟩, -, hk⟩ := Option.map_eq_some_iff.mp hk
  have hi : Distinct .vxlan (peersAB "10.244.1.0/24" "10.244.2.0/24") := by decide +kernel
  have hd : Distinct .vxlan (peersB "10.244.1.0/24") := by decide +kernel
  obtain ⟨⟨next, k', hrun⟩, hiff⟩ := reconcile_realises_iff hi hd (of_decide_eq_true hk)
  exact ⟨k, next, k', of_decide_eq_true hk, hrun,
    (hiff next k' hrun).mpr ⟨by decide +kernel, by decide +kernel⟩⟩

omit [Crates] in
/-- When two surviving nodes have changed their pod CIDRs with each other, the route to the one
that is walked through first is lost. -/
theorem swapped_podCidrs_lost : ∃ installed desired k next k',
    @Distinct Crates.compact .hostGw installed ∧ @Distinct Crates.compact .hostGw desired ∧
    @Realised Crates.compact .hostGw 7 k installed ∧
    Exec (fun k o r k' => k.Answers o r k') k
      (@reconcilePeers Crates.compact .hostGw 7 installed desired) next k' ∧
    ¬ @Realised Crates.compact .hostGw 7 k' desired := by
  let := Crates.compact
  have h : ((reconciled .hostGw ∅ (peersAB "10.244.1.0/24" "10.244.2.0/24") emptyKernel).bind
      fun r => (reconciled .hostGw (peersAB "10.244.1.0/24" "10.244.2.0/24")
        (peersAB "10.244.2.0/24" "10.244.1.0/24") r.2).map fun r' =>
      (decide (Realised .hostGw 7 r.2 (peersAB "10.244.1.0/24" "10.244.2.0/24")),
        decide (Realised .hostGw 7 r'.2 (peersAB "10.244.2.0/24" "10.244.1.0/24")))) =
      some (true, false) := by
    decide +kernel
  obtain ⟨⟨m, k⟩, -, h⟩ := Option.bind_eq_some_iff.mp h
  obtain ⟨⟨next, k'⟩, hrun, he⟩ := Option.map_eq_some_iff.mp h
  obtain ⟨hk, hk'⟩ := Prod.mk.inj he
  exact ⟨_, _, k, next, k', by decide +kernel, by decide +kernel, of_decide_eq_true hk,
    exec_of_reconciled hrun, of_decide_eq_false hk'⟩

end FlannelRs.PeerReconciliation
