import FlannelRs.PeerReconciliation

/-!
# The first reconciliation after a restart

The memory of the installed peers is lost with the process, the kernel entries stay.
-/

namespace FlannelRs.PeerRestart
open InteractionPrograms CniTypes Flanneld ExclusiveTables KernelTables PeerReconciliation

variable [Crates] {backend : BackendType} {dev : ℕ} {k k' : Kernel} {before desired : PeerMap}

/-- The entries of a peer whose values can change while their keys stay. -/
def valued (backend : BackendType) (p : Peer) : List (Key × Value) :=
  match backend with
  | .vxlan => l2Entries p
  | .hostGw => entries .hostGw p

/-- The kernel entries of a peer have its values. -/
structure Current (backend : BackendType) (t : Table Key Value) (p : Peer) : Prop where
  parses : Parses backend p
  values : ∀ x v, (x, v) ∈ valued backend p → t x = some v

/-- No peer of the map has another value at a key of the peer. -/
def Agrees (backend : BackendType) (p : Peer) (m : PeerMap) : Prop :=
  ∀ e ∈ m.entries, ∀ x ∈ valued backend p, ∀ y ∈ valued backend e.2, x.1 = y.1 → x.2 = y.2

instance (p : Peer) (m : PeerMap) : Decidable (Agrees backend p m) :=
  inferInstanceAs (Decidable (∀ e ∈ m.entries, _))

instance (t : Table Key Value) (p : Peer) : Decidable (Current backend t p) :=
  decidable_of_iff (Parses backend p ∧ ∀ x ∈ valued backend p, t x.1 = some x.2)
    ⟨fun h => ⟨h.1, fun x v hx => h.2 (x, v) hx⟩, fun h => ⟨h.parses, fun _ hx => h.values _ _ hx⟩⟩

theorem mem_entries_of_valued {p : Peer} {x : Key} {v : Value} (h : (x, v) ∈ valued backend p) :
    (x, v) ∈ entries backend p := by
  cases backend with
  | vxlan => exact List.mem_append_right _ h
  | hostGw => exact h

/-- Entries at the same key are of the same kind. -/
theorem mem_valued_of_entries {p q : Peer} {x : Key} {v w : Value}
    (hp : (x, v) ∈ valued backend p) (hq : (x, w) ∈ entries backend q) :
    (x, w) ∈ valued backend q := by
  cases backend with
  | vxlan =>
    rcases mem_entries.mp hq with ⟨net, -, rfl, -⟩ | hq
    · obtain ⟨m, net', ip, -, -, -, ⟨hx, -⟩ | ⟨hx, -⟩⟩ := mem_l2Entries.mp hp
      · cases hx
      · cases hx
    · exact hq
  | hostGw => exact hq

/-- Without installed peers, all that happens is that the desired ones are added. -/
theorem updates_empty (desired : PeerMap) :
    updates (entries backend) ∅ desired =
      adds (desired.entries.flatMap fun e => entries backend e.2) := by
  simp only [updates, additions, adds, List.map_flatMap]
  rfl

/-- The values at one key, in the kernel after the first reconciliation. -/
theorem valued_iff (hk : Realised backend dev k before)
    (hview : k'.view dev = run (adds (desired.entries.flatMap fun e => entries backend e.2))
      (k.view dev)) :
    (∀ e ∈ desired.entries, ∀ x v, (x, v) ∈ valued backend e.2 → k'.view dev x = some v) ↔
      ∀ e ∈ desired.entries, Agrees backend e.2 before ∧ Agrees backend e.2 desired := by
  have hmem : ∀ {x v w} {p : Peer}, (x, v) ∈ valued backend p →
      ((x, w) ∈ desired.entries.flatMap (fun e => entries backend e.2) ↔
        ∃ e ∈ desired.entries, (x, w) ∈ valued backend e.2) := by
    intro x v w p hp
    rw [List.mem_flatMap]
    exact ⟨fun ⟨e, he, hx⟩ => ⟨e, he, mem_valued_of_entries hp hx⟩,
      fun ⟨e, he, hx⟩ => ⟨e, he, mem_entries_of_valued hx⟩⟩
  constructor
  · intro h e he
    have hall : ∀ x v, (x, v) ∈ valued backend e.2 → (∀ w, k.view dev x = some w → w = v) ∧
        ∀ w, (x, w) ∈ desired.entries.flatMap (fun e => entries backend e.2) → w = v := by
      intro x v hx
      refine run_adds_iff.mp (fun w hw => ?_) v ((hmem hx).mpr ⟨e, he, hx⟩)
      obtain ⟨e', he', hw⟩ := (hmem hx).mp hw
      rw [← hview]
      exact h e' he' x w hw
    constructor
    · rintro e' he' ⟨x, v⟩ hx ⟨_, w⟩ hw rfl
      have hold := (hk x w).mpr
        ⟨e'.1, e'.2, AList.mem_lookup_iff.mpr he', mem_entries_of_valued hw⟩
      exact ((hall x v hx).1 w hold).symm
    · rintro e' he' ⟨x, v⟩ hx ⟨_, w⟩ hw rfl
      exact ((hall x v hx).2 w ((hmem hx).mpr ⟨e', he', hw⟩)).symm
  · intro h e he x v hx
    rw [hview]
    refine run_adds_iff.mpr (fun u hu => ⟨fun w hw => ?_, fun w hw => ?_⟩) v
      ((hmem hx).mpr ⟨e, he, hx⟩)
    · obtain ⟨e₁, he₁, hu⟩ := (hmem hx).mp hu
      obtain ⟨n, q, hq, hw⟩ := (hk x w).mp hw
      have hagrees := (h e₁ he₁).1 ⟨n, q⟩ (AList.mem_lookup_iff.mp hq)
      exact (hagrees (x, u) hu (x, w) (mem_valued_of_entries hx hw) rfl).symm
    · obtain ⟨e₁, he₁, hu⟩ := (hmem hx).mp hu
      obtain ⟨e₂, he₂, hw⟩ := (hmem hx).mp hw
      exact ((h e₁ he₁).2 e₂ he₂ (x, u) hu (x, w) hw rfl).symm

/-- The first reconciliation runs to its end, and then the kernel entries of every desired
peer have its values exactly if its fields can be read and no peer, of those realised before
or of those desired, has another value at one of its keys. -/
theorem restart_current_iff (hk : Realised backend dev k before) :
    (∃ next k', Exec (fun k o r k' => k.Answers o r k') k
      (reconcilePeers backend dev ∅ desired) next k') ∧
    ∀ next k', Exec (fun k o r k' => k.Answers o r k') k
      (reconcilePeers backend dev ∅ desired) next k' →
      ((∀ e ∈ desired.entries, Current backend (k'.view dev) e.2) ↔
        ∀ e ∈ desired.entries, Parses backend e.2 ∧ Agrees backend e.2 before ∧
          Agrees backend e.2 desired) := by
  have htotal : ∀ (k : Kernel) o, ∃ r k', k.Answers o r k' :=
    fun k o => ⟨_, _, k.perform_answers o⟩
  refine ⟨Exec.exists_of_total htotal _ k, fun next k' h => ?_⟩
  have hview := h.wlp (wlp_reconcilePeers (by simp))
  rw [updates_empty] at hview
  have hiff := valued_iff hk hview
  constructor
  · intro hcurrent e he
    exact ⟨(hcurrent e he).parses, hiff.mp (fun e he => (hcurrent e he).values) e he⟩
  · intro hagrees e he
    exact ⟨(hagrees e he).1, hiff.mpr (fun e he => (hagrees e he).2) e he⟩

/-- One node, which has another address after the restart. -/
def peersA (publicIp : String) : PeerMap :=
  AList.singleton "a" { peerA "10.244.1.0/24" with publicIp }

omit [Crates] in
theorem realised_peersA (backend : BackendType) : ∃ k,
    @Realised Crates.compact backend 7 k (peersA "172.18.0.2") := by
  let := Crates.compact
  have h : (reconciled backend ∅ (peersA "172.18.0.2") emptyKernel).map
      (fun r => decide (Realised backend 7 r.2 (peersA "172.18.0.2"))) = some true := by
    cases backend <;> decide +kernel
  obtain ⟨⟨m, k⟩, -, hk⟩ := Option.map_eq_some_iff.mp h
  exact ⟨k, of_decide_eq_true hk⟩

omit [Crates] in
/-- A node that has joined meanwhile is added, and the old one is found unchanged. -/
theorem restart_current_joined : ∃ k next k',
    @Realised Crates.compact .vxlan 7 k (peersA "172.18.0.2") ∧
    Exec (fun k o r k' => k.Answers o r k') k (@reconcilePeers Crates.compact .vxlan 7 ∅
      (peersAB "10.244.1.0/24" "10.244.2.0/24")) next k' ∧
    ∀ e ∈ (peersAB "10.244.1.0/24" "10.244.2.0/24").entries,
      @Current Crates.compact .vxlan (k'.view 7) e.2 := by
  have hagrees : ∀ e ∈ (peersAB "10.244.1.0/24" "10.244.2.0/24").entries,
      @Parses Crates.compact .vxlan e.2 ∧ @Agrees Crates.compact .vxlan e.2 (peersA "172.18.0.2") ∧
        @Agrees Crates.compact .vxlan e.2 (peersAB "10.244.1.0/24" "10.244.2.0/24") := by
    decide +kernel
  let := Crates.compact
  obtain ⟨k, hk⟩ := realised_peersA .vxlan
  obtain ⟨⟨next, k', hrun⟩, hiff⟩ := restart_current_iff hk
  exact ⟨k, next, k', hk, hrun, (hiff next k' hrun).mpr hagrees⟩

omit [Crates] in
/-- A node that has changed its address meanwhile is still routed to by the old one. -/
theorem changed_publicIp_stale : ∃ before desired k next k',
    @Realised Crates.compact .hostGw 7 k before ∧
    Exec (fun k o r k' => k.Answers o r k') k
      (@reconcilePeers Crates.compact .hostGw 7 ∅ desired) next k' ∧
    ¬ ∀ e ∈ desired.entries, @Current Crates.compact .hostGw (k'.view 7) e.2 := by
  let := Crates.compact
  have h : ((reconciled .hostGw ∅ (peersA "172.18.0.2") emptyKernel).bind fun r =>
      (reconciled .hostGw ∅ (peersA "172.18.0.9") r.2).map fun r' =>
        (decide (Realised .hostGw 7 r.2 (peersA "172.18.0.2")),
          decide (∀ e ∈ (peersA "172.18.0.9").entries, Current .hostGw (r'.2.view 7) e.2))) =
      some (true, false) := by
    decide +kernel
  obtain ⟨⟨m, k⟩, -, h⟩ := Option.bind_eq_some_iff.mp h
  obtain ⟨⟨next, k'⟩, hrun, he⟩ := Option.map_eq_some_iff.mp h
  obtain ⟨hk, hk'⟩ := Prod.mk.inj he
  exact ⟨_, _, k, next, k', of_decide_eq_true hk, exec_of_reconciled hrun, of_decide_eq_false hk'⟩

end FlannelRs.PeerRestart
