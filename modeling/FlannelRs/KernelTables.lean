import FlannelRs.ExclusiveTables
import FlannelRs.FlanneldPeers

/-!
# The kernel tables that hold the entries of the peers

The kernel of the node has one table for each kind of entry. The entries of one device
are a table with exclusive insertions, on which the netlink functions make the changes
that the entries of a peer call for.
-/

namespace FlannelRs.KernelTables
open InteractionPrograms Ipv4Addresses RustText CniTypes Flanneld ExclusiveTables

structure Kernel where
  routes : AList fun _ : Ipv4Addr × ℕ × ℕ => Gateway
  neighbours : AList fun _ : ℕ × Ipv4Addr => Mac
  fdb : AList fun _ : ℕ × Mac => Ipv4Addr

def Kernel.routeMessages (k : Kernel) : List RouteMessage :=
  k.routes.entries.map fun e => ⟨e.1.1, e.1.2.1, e.1.2.2, e.2⟩

def Kernel.neighbourMessages (k : Kernel) : List NeighbourMessage :=
  k.neighbours.entries.map fun e => ⟨e.1.1, e.1.2, e.2⟩

def Kernel.fdbMessages (k : Kernel) : List FdbMessage :=
  k.fdb.entries.map fun e => ⟨e.1.1, e.1.2, e.2⟩

section

variable {α β : Type} [DecidableEq α]

/-- An insertion with `NLM_F_EXCL`. -/
def Inserted (t : AList fun _ : α => β) (x : α) (v : β) (r : Except NlError Unit)
    (t' : AList fun _ : α => β) : Prop :=
  (x ∉ t ∧ r = .ok () ∧ t' = t.insert x v) ∨
  (x ∈ t ∧ (∃ text, r = .error ⟨some eexist, text⟩) ∧ t' = t)

end

/-- The answers of a kernel that fails no request. -/
def Kernel.Answers (k : Kernel) : (o : PeerOp) → PeerRes o → Kernel → Prop
  | .addRoute m, r, k' => ∃ t, Inserted k.routes (m.dst, m.len, m.oif) m.gateway r t ∧
      k' = { k with routes := t }
  | .getRoutes, r, k' => r.received.Perm k.routeMessages ∧ r.broken = none ∧ k' = k
  | .delRoute m, _, k' => k' = { k with routes := k.routes.erase (m.dst, m.len, m.oif) }
  | .addNeighbour m, r, k' => ∃ t, Inserted k.neighbours (m.dev, m.ip) m.mac r t ∧
      k' = { k with neighbours := t }
  | .getNeighbours, r, k' => r.received.Perm k.neighbourMessages ∧ r.broken = none ∧ k' = k
  | .delNeighbour m, _, k' => k' = { k with neighbours := k.neighbours.erase (m.dev, m.ip) }
  | .addFdb m, r, k' => ∃ t, Inserted k.fdb (m.dev, m.mac) m.underlay r t ∧
      k' = { k with fdb := t }
  | .getFdb, r, k' => r.received.Perm k.fdbMessages ∧ r.broken = none ∧ k' = k
  | .delFdb m, _, k' => k' = { k with fdb := k.fdb.erase (m.dev, m.mac) }

section

variable {α β : Type} [DecidableEq α]

/-- What is there already is kept, with an error. -/
def insertNew (t : AList fun _ : α => β) (x : α) (v : β) :
    Except NlError Unit × AList fun _ : α => β :=
  if x ∈ t then (.error ⟨some eexist, "File exists"⟩, t) else (.ok (), t.insert x v)

theorem inserted_insertNew (t : AList fun _ : α => β) (x : α) (v : β) :
    Inserted t x v (insertNew t x v).1 (insertNew t x v).2 := by
  unfold insertNew
  by_cases hx : x ∈ t
  · rw [if_pos hx]
    exact .inr ⟨hx, ⟨_, rfl⟩, rfl⟩
  · rw [if_neg hx]
    exact .inl ⟨hx, rfl, rfl⟩

end

/-- A kernel that computes its answers. -/
def Kernel.perform (k : Kernel) : (o : PeerOp) → PeerRes o × Kernel
  | .addRoute m =>
    let new := insertNew k.routes (m.dst, m.len, m.oif) m.gateway
    (new.1, { k with routes := new.2 })
  | .getRoutes => (⟨k.routeMessages, none⟩, k)
  | .delRoute m => (.ok (), { k with routes := k.routes.erase (m.dst, m.len, m.oif) })
  | .addNeighbour m =>
    let new := insertNew k.neighbours (m.dev, m.ip) m.mac
    (new.1, { k with neighbours := new.2 })
  | .getNeighbours => (⟨k.neighbourMessages, none⟩, k)
  | .delNeighbour m => (.ok (), { k with neighbours := k.neighbours.erase (m.dev, m.ip) })
  | .addFdb m =>
    let new := insertNew k.fdb (m.dev, m.mac) m.underlay
    (new.1, { k with fdb := new.2 })
  | .getFdb => (⟨k.fdbMessages, none⟩, k)
  | .delFdb m => (.ok (), { k with fdb := k.fdb.erase (m.dev, m.mac) })

theorem Kernel.perform_answers (k : Kernel) (o : PeerOp) :
    k.Answers o (k.perform o).1 (k.perform o).2 := by
  cases o with
  | addRoute m => exact ⟨_, inserted_insertNew _ _ _, rfl⟩
  | addNeighbour m => exact ⟨_, inserted_insertNew _ _ _, rfl⟩
  | addFdb m => exact ⟨_, inserted_insertNew _ _ _, rfl⟩
  | getRoutes => exact ⟨.refl _, rfl, rfl⟩
  | getNeighbours => exact ⟨.refl _, rfl, rfl⟩
  | getFdb => exact ⟨.refl _, rfl, rfl⟩
  | delRoute m => exact rfl
  | delNeighbour m => exact rfl
  | delFdb m => exact rfl

inductive Key where
  | route (dst : Ipv4Addr) (len : ℕ)
  | neighbour (ip : Ipv4Addr)
  | fdb (mac : Mac)
  deriving DecidableEq

inductive Value where
  | gateway (g : Gateway)
  | mac (m : Mac)
  | underlay (ip : Ipv4Addr)
  deriving DecidableEq

def Kernel.view (dev : ℕ) (k : Kernel) : Table Key Value
  | .route dst len => (k.routes.lookup (dst, len, dev)).map .gateway
  | .neighbour ip => (k.neighbours.lookup (dev, ip)).map .mac
  | .fdb mac => (k.fdb.lookup (dev, mac)).map .underlay

/-- The entries of the device, one by one. -/
def Kernel.listed (dev : ℕ) (k : Kernel) : List (Key × Value) :=
  (k.routes.entries.filterMap fun e =>
    if e.1.2.2 = dev then some (.route e.1.1 e.1.2.1, .gateway e.2) else none) ++
  (k.neighbours.entries.filterMap fun e =>
    if e.1.1 = dev then some (.neighbour e.1.2, .mac e.2) else none) ++
  k.fdb.entries.filterMap fun e =>
    if e.1.1 = dev then some (.fdb e.1.2, .underlay e.2) else none

theorem Kernel.mem_listed {dev : ℕ} {k : Kernel} {x : Key} {v : Value} :
    (x, v) ∈ k.listed dev ↔ k.view dev x = some v := by
  cases x with
  | route dst len =>
    have h : ∀ g, k.routes.lookup (dst, len, dev) = some g ↔ ⟨(dst, len, dev), g⟩ ∈ k.routes.entries :=
      fun _ => AList.mem_lookup_iff
    cases v <;> simp [Kernel.listed, Kernel.view, h]
  | neighbour ip =>
    have h : ∀ m, k.neighbours.lookup (dev, ip) = some m ↔ ⟨(dev, ip), m⟩ ∈ k.neighbours.entries :=
      fun _ => AList.mem_lookup_iff
    cases v <;> simp [Kernel.listed, Kernel.view, h]
  | fdb mac =>
    have h : ∀ u, k.fdb.lookup (dev, mac) = some u ↔ ⟨(dev, mac), u⟩ ∈ k.fdb.entries :=
      fun _ => AList.mem_lookup_iff
    cases v <;> simp [Kernel.listed, Kernel.view, h]

theorem Inserted.lookup {α β : Type} [DecidableEq α] {t t' : AList fun _ : α => β} {x : α} {v : β}
    {r : Except NlError Unit} (h : Inserted t x v r t') (y : α) :
    t'.lookup y = if y = x then some ((t.lookup x).getD v) else t.lookup y := by
  rcases h with ⟨hx, -, rfl⟩ | ⟨hx, -, rfl⟩
  · by_cases hy : y = x
    · subst hy
      simp [AList.lookup_eq_none.mpr hx]
    · simp [hy]
  · obtain ⟨w, hw⟩ := Option.isSome_iff_exists.mp (AList.lookup_isSome.mpr hx)
    by_cases hy : y = x
    · subst hy
      simp [hw]
    · simp [hy]

/-- An insertion with its effect at every key. -/
theorem apply_add_eq {K V : Type} [DecidableEq K] {t t' : Table K V} {k : K} {v : V}
    (hself : t' k = some ((t k).getD v)) (hne : ∀ x, x ≠ k → t' x = t x) :
    t' = (Change.add k v).apply t := by
  funext x
  by_cases hx : x = k
  · subst hx
    cases h : t x with
    | none => rw [hself, apply_add_self h, h, Option.getD_none]
    | some w => rw [hself, apply_add_taken h, h, Option.getD_some]
  · rw [apply_add_ne hx, hne x hx]

theorem apply_remove_eq {K V : Type} [DecidableEq K] {t t' : Table K V} {k : K}
    (hself : t' k = none) (hne : ∀ x, x ≠ k → t' x = t x) :
    t' = (Change.remove k : Change K V).apply t := by
  funext x
  by_cases hx : x = k
  · subst hx
    rw [hself, apply_remove_self]
  · rw [apply_remove_ne hx, hne x hx]

variable {k k' : Kernel} {dev : ℕ}

theorem view_addRoute {dst : Ipv4Addr} {len : ℕ} {g : Gateway} {r : Except NlError Unit}
    (h : k.Answers (.addRoute ⟨dst, len, dev, g⟩) r k') :
    k'.view dev = (Change.add (.route dst len) (.gateway g)).apply (k.view dev) := by
  obtain ⟨t, ht, rfl⟩ := h
  apply apply_add_eq
  · simp only [Kernel.view]
    rw [ht.lookup, if_pos rfl]
    cases k.routes.lookup (dst, len, dev) <;> rfl
  · intro x hx
    cases x with
    | route d l =>
      have hne : (d, l, dev) ≠ (dst, len, dev) := by
        rintro he
        simp only [Prod.mk.injEq, and_true] at he
        exact hx (by rw [he.1, he.2])
      simp only [Kernel.view]
      rw [ht.lookup, if_neg hne]
    | neighbour ip => rfl
    | fdb mac => rfl

theorem view_addNeighbour {ip : Ipv4Addr} {mac : Mac} {r : Except NlError Unit}
    (h : k.Answers (.addNeighbour ⟨dev, ip, mac⟩) r k') :
    k'.view dev = (Change.add (.neighbour ip) (.mac mac)).apply (k.view dev) := by
  obtain ⟨t, ht, rfl⟩ := h
  apply apply_add_eq
  · simp only [Kernel.view]
    rw [ht.lookup, if_pos rfl]
    cases k.neighbours.lookup (dev, ip) <;> rfl
  · intro x hx
    cases x with
    | neighbour i =>
      have hne : (dev, i) ≠ (dev, ip) := fun he => hx (by rw [(Prod.mk.inj he).2])
      simp only [Kernel.view]
      rw [ht.lookup, if_neg hne]
    | route d l => rfl
    | fdb mac => rfl

theorem view_addFdb {mac : Mac} {ip : Ipv4Addr} {r : Except NlError Unit}
    (h : k.Answers (.addFdb ⟨dev, mac, ip⟩) r k') :
    k'.view dev = (Change.add (.fdb mac) (.underlay ip)).apply (k.view dev) := by
  obtain ⟨t, ht, rfl⟩ := h
  apply apply_add_eq
  · simp only [Kernel.view]
    rw [ht.lookup, if_pos rfl]
    cases k.fdb.lookup (dev, mac) <;> rfl
  · intro x hx
    cases x with
    | fdb m =>
      have hne : (dev, m) ≠ (dev, mac) := fun he => hx (by rw [(Prod.mk.inj he).2])
      simp only [Kernel.view]
      rw [ht.lookup, if_neg hne]
    | route d l => rfl
    | neighbour i => rfl

theorem view_delRoute (dst : Ipv4Addr) (len : ℕ) (k : Kernel) :
    ({ k with routes := k.routes.erase (dst, len, dev) } : Kernel).view dev =
      (Change.remove (.route dst len)).apply (k.view dev) := by
  apply apply_remove_eq
  · simp [Kernel.view]
  · intro x hx
    cases x with
    | route d l =>
      have hne : (d, l, dev) ≠ (dst, len, dev) := by
        rintro he
        simp only [Prod.mk.injEq, and_true] at he
        exact hx (by rw [he.1, he.2])
      simp [Kernel.view, AList.lookup_erase_ne hne]
    | neighbour ip => rfl
    | fdb mac => rfl

theorem view_delNeighbour (ip : Ipv4Addr) (k : Kernel) :
    ({ k with neighbours := k.neighbours.erase (dev, ip) } : Kernel).view dev =
      (Change.remove (.neighbour ip)).apply (k.view dev) := by
  apply apply_remove_eq
  · simp [Kernel.view]
  · intro x hx
    cases x with
    | neighbour i =>
      have hne : (dev, i) ≠ (dev, ip) := fun he => hx (by rw [(Prod.mk.inj he).2])
      simp [Kernel.view, AList.lookup_erase_ne hne]
    | route d l => rfl
    | fdb mac => rfl

theorem view_delFdb (mac : Mac) (k : Kernel) :
    ({ k with fdb := k.fdb.erase (dev, mac) } : Kernel).view dev =
      (Change.remove (.fdb mac)).apply (k.view dev) := by
  apply apply_remove_eq
  · simp [Kernel.view]
  · intro x hx
    cases x with
    | fdb m =>
      have hne : (dev, m) ≠ (dev, mac) := fun he => hx (by rw [(Prod.mk.inj he).2])
      simp [Kernel.view, AList.lookup_erase_ne hne]
    | route d l => rfl
    | neighbour i => rfl

variable [Crates]

/-- The VTEP MAC of a peer, if it has one that can be read. -/
def mac (p : Peer) : Option Mac := p.vtepMac.bind fun s => (parseMac s).toOption

/-- The entries of the second layer. -/
def l2Entries (p : Peer) : List (Key × Value) :=
  match mac p, Crates.parseNetwork p.podCidr, parseIpv4 p.publicIp with
  | some mac, some net, some ip => [(.neighbour net.network, .mac mac), (.fdb mac, .underlay ip)]
  | _, _, _ => []

/-- The kernel entries that a peer calls for, as far as its fields can be read. -/
def entries (backend : BackendType) (p : Peer) : List (Key × Value) :=
  match backend with
  | .vxlan =>
    ((Crates.parseNetwork p.podCidr).map fun net =>
      (.route net.network net.len, .gateway ⟨net.network, true⟩)).toList ++ l2Entries p
  | .hostGw =>
    match Crates.parseNetwork p.podCidr, parseIpv4 p.publicIp with
    | some net, some ip => [(.route net.network net.len, .gateway ⟨ip, false⟩)]
    | _, _ => []

/-- The fields that the backend reads can be read. -/
structure Parses (backend : BackendType) (p : Peer) : Prop where
  podCidr : (Crates.parseNetwork p.podCidr).isSome
  publicIp : (parseIpv4 p.publicIp).isSome
  vtepMac : backend = .vxlan → (mac p).isSome

abbrev PeerWlp {α : Type} (post : α → Kernel → Prop) (prog : PeerProgram α) (k : Kernel) : Prop :=
  wlp (fun k o r k' => k.Answers o r k') post prog k

omit [Crates] in
theorem wlp_requestRoute (dst : Ipv4Addr) (len : ℕ) (g : Gateway) :
    PeerWlp (fun r k' => r = .ok () ∧
        k'.view dev = (Change.add (.route dst len) (.gateway g)).apply (k.view dev))
      (requestRoute ⟨dst, len, dev, g⟩).run k := by
  intro r k' h
  have hview := view_addRoute h
  cases r with
  | ok a => exact ⟨rfl, hview⟩
  | error e =>
    obtain ⟨t, (⟨-, hr, -⟩ | ⟨-, ⟨text, hr⟩, -⟩), -⟩ := h
    · cases hr
    · obtain rfl := Except.error.inj hr
      exact ⟨rfl, hview⟩

omit [Crates] in
/-- A dump in which nothing is found for a key comes from a table without it. -/
theorem lookup_of_find?_eq_none {α β γ : Type} [DecidableEq α] {t : AList fun _ : α => β} {x : α}
    {message : (Sigma fun _ : α => β) → γ} {received : List γ} {p : γ → Bool}
    (hperm : received.Perm (t.entries.map message)) (hfound : received.find? p = none)
    (hp : ∀ v, p (message ⟨x, v⟩) = true) : t.lookup x = none := by
  cases hv : t.lookup x with
  | none => rfl
  | some v =>
    have hmem : message ⟨x, v⟩ ∈ t.entries.map message :=
      List.mem_map_of_mem (AList.mem_lookup_iff.mp hv)
    exact absurd (hp v) (List.find?_eq_none.mp hfound _ (hperm.mem_iff.mpr hmem))

omit [Crates] in
theorem wlp_delRouteTo (net : Ipv4Network) :
    PeerWlp (fun r k' => r = .ok () ∧
        k'.view dev = (Change.remove (.route net.network net.len)).apply (k.view dev))
      (delRouteTo dev net).run k := by
  refine wlp.liftBind (m := fun (r : Dump RouteMessage) k' =>
    r.received.Perm k.routeMessages ∧ r.broken = none ∧ k = k') ?_ ?_
  · rintro r k' ⟨hperm, hbroken, rfl⟩
    exact ⟨hperm, hbroken, rfl⟩
  rintro ⟨received, broken⟩ _ ⟨hperm, hbroken, rfl⟩
  simp only at hperm hbroken ⊢
  subst hbroken
  cases hfound : received.find? fun r => r.len = net.len ∧ r.dst = net.network ∧ r.oif = dev with
  | some m =>
    have hm := List.find?_some hfound
    simp only [decide_eq_true_eq] at hm
    obtain ⟨hlen, hdst, hoif⟩ := hm
    rintro r k' rfl
    refine ⟨rfl, ?_⟩
    rw [hdst, hlen, hoif]
    exact view_delRoute _ _ _
  | none =>
    refine ⟨rfl, (apply_remove_free ?_).symm⟩
    rw [Kernel.view, Option.map_eq_none_iff]
    exact lookup_of_find?_eq_none hperm hfound (by simp)

omit [Crates] in
theorem wlp_delNeighbourOf (ip : Ipv4Addr) :
    PeerWlp (fun _ k' => k'.view dev = (Change.remove (.neighbour ip)).apply (k.view dev))
      (delNeighbourOf dev ip) k := by
  refine wlp.bind (m := fun (r : Dump NeighbourMessage) k' =>
    r.received.Perm k.neighbourMessages ∧ k = k') ?_ ?_
  · rintro r k' ⟨hperm, -, rfl⟩
    exact ⟨hperm, rfl⟩
  rintro ⟨received, broken⟩ _ ⟨hperm, rfl⟩
  simp only at hperm ⊢
  cases hfound : received.find? fun n => n.dev = dev ∧ n.ip = ip with
  | some m =>
    have hm := List.find?_some hfound
    simp only [decide_eq_true_eq] at hm
    obtain ⟨hdev, hip⟩ := hm
    rintro r k' rfl
    rw [hdev, hip]
    exact view_delNeighbour _ _
  | none =>
    refine (apply_remove_free ?_).symm
    rw [Kernel.view, Option.map_eq_none_iff]
    exact lookup_of_find?_eq_none hperm hfound (by simp)

omit [Crates] in
theorem wlp_delFdbOf (mac : Mac) :
    PeerWlp (fun _ k' => k'.view dev = (Change.remove (.fdb mac)).apply (k.view dev))
      (delFdbOf dev mac) k := by
  refine wlp.bind (m := fun (r : Dump FdbMessage) k' =>
    r.received.Perm k.fdbMessages ∧ k = k') ?_ ?_
  · rintro r k' ⟨hperm, -, rfl⟩
    exact ⟨hperm, rfl⟩
  rintro ⟨received, broken⟩ _ ⟨hperm, rfl⟩
  simp only at hperm ⊢
  cases hfound : received.find? fun n => n.dev = dev ∧ n.mac = mac with
  | some m =>
    have hm := List.find?_some hfound
    simp only [decide_eq_true_eq] at hm
    obtain ⟨hdev, hmac⟩ := hm
    rintro r k' rfl
    rw [hdev, hmac]
    exact view_delFdb _ _
  | none =>
    refine (apply_remove_free ?_).symm
    rw [Kernel.view, Option.map_eq_none_iff]
    exact lookup_of_find?_eq_none hperm hfound (by simp)

theorem wlp_addRoute (p : Peer) :
    PeerWlp (fun r k' => (r = .ok () ↔ (Crates.parseNetwork p.podCidr).isSome) ∧
        k'.view dev = run (adds ((Crates.parseNetwork p.podCidr).map fun net =>
          (Key.route net.network net.len, Value.gateway ⟨net.network, true⟩)).toList)
          (k.view dev))
      (addRoute dev p).run k := by
  unfold addRoute
  cases Crates.parseNetwork p.podCidr with
  | none => exact ⟨by simp, rfl⟩
  | some net =>
    refine (wlp_requestRoute _ _ _).mono ?_
    rintro r k' ⟨rfl, hview⟩
    exact ⟨by simp, hview⟩

/-- `add_host_gw_route` requests a route, or nothing if a field cannot be read. -/
theorem addHostGwRoute_cases (dev : ℕ) (p : Peer) :
    (∃ e, (addHostGwRoute dev p).run = .ret (.error e) ∧ ¬ Parses .hostGw p ∧
      entries .hostGw p = []) ∨
    ∃ dst len gw, (addHostGwRoute dev p).run = (requestRoute ⟨dst, len, dev, gw, false⟩).run ∧
      Parses .hostGw p ∧ entries .hostGw p = [(.route dst len, .gateway ⟨gw, false⟩)] := by
  unfold addHostGwRoute
  cases hnet : Crates.parseNetwork p.podCidr with
  | none =>
    refine .inl ⟨_, rfl, fun h => ?_, by simp [entries, hnet]⟩
    simpa [hnet] using h.podCidr
  | some net =>
    cases hip : parseIpv4 p.publicIp with
    | none =>
      refine .inl ⟨_, rfl, fun h => ?_, by simp [entries, hnet, hip]⟩
      simpa [hip] using h.publicIp
    | some gw =>
      refine .inr ⟨net.network, net.len, gw, rfl, ⟨?_, ?_, nofun⟩, by simp [entries, hnet, hip]⟩
      · rw [hnet]
        rfl
      · rw [hip]
        rfl

theorem wlp_addHostGwRoute (p : Peer) :
    PeerWlp (fun r k' => (r = .ok () ↔ Parses .hostGw p) ∧
        k'.view dev = run (adds (entries .hostGw p)) (k.view dev))
      (addHostGwRoute dev p).run k := by
  rcases addHostGwRoute_cases dev p with ⟨e, hrun, hp, hnone⟩ | ⟨dst, len, gw, hrun, hp, hone⟩
  · rw [hrun, hnone]
    exact ⟨iff_of_false nofun hp, rfl⟩
  · rw [hrun, hone]
    refine (wlp_requestRoute _ _ _).mono ?_
    rintro r k' ⟨rfl, hview⟩
    exact ⟨iff_of_true rfl hp, hview⟩

/-- The messages of `add_peer_l2`. -/
def addL2 (dev : ℕ) (ip : Ipv4Addr) (mac : Mac) (underlay : Ipv4Addr) : NetlinkProgram Unit := do
  let _ ← liftM (call (.addNeighbour ⟨dev, ip, mac⟩))
  let _ ← liftM (call (.addFdb ⟨dev, mac, underlay⟩))

/-- `add_peer_l2` sends its messages, or nothing if a field cannot be read. -/
theorem addPeerL2_cases (dev : ℕ) (p : Peer) :
    (∃ e, (addPeerL2 dev p).run = .ret (.error e) ∧ ¬ Parses .vxlan p ∧ l2Entries p = []) ∨
    ∃ ip m underlay, (addPeerL2 dev p).run = (addL2 dev ip m underlay).run ∧ Parses .vxlan p ∧
      l2Entries p = [(.neighbour ip, .mac m), (.fdb m, .underlay underlay)] := by
  unfold addPeerL2
  cases hs : p.vtepMac with
  | none =>
    have hmac : mac p = none := by simp [mac, hs]
    refine .inl ⟨_, rfl, fun h => ?_, by simp [l2Entries, hmac]⟩
    simpa [hmac] using h.vtepMac rfl
  | some s =>
    simp only [orFailure, pure_bind]
    cases hm : parseMac s with
    | error e =>
      have hmac : mac p = none := by simp [mac, hs, hm, Except.toOption]
      refine .inl ⟨_, rfl, fun h => ?_, by simp [l2Entries, hmac]⟩
      simpa [hmac] using h.vtepMac rfl
    | ok m =>
      have hmac : mac p = some m := by simp [mac, hs, hm, Except.toOption]
      cases hnet : Crates.parseNetwork p.podCidr with
      | none =>
        refine .inl ⟨_, rfl, fun h => ?_, by simp [l2Entries, hmac, hnet]⟩
        simpa [hnet] using h.podCidr
      | some net =>
        cases hip : parseIpv4 p.publicIp with
        | none =>
          refine .inl ⟨_, rfl, fun h => ?_, by simp [l2Entries, hmac, hnet, hip]⟩
          simpa [hip] using h.publicIp
        | some underlay =>
          refine .inr ⟨net.network, m, underlay, rfl, ⟨?_, ?_, fun _ => ?_⟩,
            by simp [l2Entries, hmac, hnet, hip]⟩
          · rw [hnet]
            rfl
          · rw [hip]
            rfl
          · rw [hmac]
            rfl

omit [Crates] in
theorem wlp_addL2 (ip underlay : Ipv4Addr) (mac : Mac) :
    PeerWlp (fun r k' => r = .ok () ∧ k'.view dev =
        run (adds [(.neighbour ip, .mac mac), (.fdb mac, .underlay underlay)]) (k.view dev))
      (addL2 dev ip mac underlay).run k := by
  intro r k₁ h₁ r' k₂ h₂
  refine ⟨rfl, ?_⟩
  rw [view_addFdb h₂, view_addNeighbour h₁]
  rfl

theorem wlp_addPeerL2 (p : Peer) :
    PeerWlp (fun r k' => (r = .ok () ↔ Parses .vxlan p) ∧
        k'.view dev = run (adds (l2Entries p)) (k.view dev))
      (addPeerL2 dev p).run k := by
  rcases addPeerL2_cases dev p with ⟨e, hrun, hp, hnone⟩ | ⟨ip, m, underlay, hrun, hp, htwo⟩
  · rw [hrun, hnone]
    exact ⟨iff_of_false nofun hp, rfl⟩
  · rw [hrun, htwo]
    refine (wlp_addL2 ip underlay m).mono ?_
    rintro r k' ⟨rfl, hview⟩
    exact ⟨iff_of_true rfl hp, hview⟩

omit [Crates] in
theorem isOk_iff (r : Except Failure Unit) : r.isOk = true ↔ r = .ok () := by
  cases r <;> simp [Except.isOk, Except.toBool]

/-- Adding a peer makes the insertions of its entries, and counts it as added exactly if its
fields can be read. -/
theorem wlp_addPeer (backend : BackendType) (p : Peer) :
    PeerWlp (fun added k' => (added = true ↔ Parses backend p) ∧
        k'.view dev = run (adds (entries backend p)) (k.view dev))
      (addPeer backend dev p) k := by
  cases backend with
  | vxlan =>
    refine (wlp_addRoute p).bind fun r1 k₁ hroute => ?_
    obtain ⟨hr1, hview₁⟩ := hroute
    refine (wlp_addPeerL2 p).bind fun r2 k₂ hentries => ?_
    obtain ⟨hr2, hview₂⟩ := hentries
    constructor
    · simp only [Bool.and_eq_true, isOk_iff, hr1, hr2]
      exact ⟨fun h => h.2, fun h => ⟨h.podCidr, h⟩⟩
    · rw [hview₂, hview₁, ← run_append]
      simp [entries, adds]
  | hostGw =>
    refine (wlp_addHostGwRoute p).bind fun r k₁ hroute => ?_
    obtain ⟨hr, hview⟩ := hroute
    refine ⟨?_, hview⟩
    rw [isOk_iff, hr]

omit [Crates] in
theorem parseMac_of_mac {p : Peer} {m : Mac} (h : mac p = some m) :
    ∃ s, p.vtepMac = some s ∧ parseMac s = .ok m := by
  obtain ⟨s, hs, hparse⟩ := Option.bind_eq_some_iff.mp h
  refine ⟨s, hs, ?_⟩
  cases hm : parseMac s with
  | error e => simp [hm, Except.toOption] at hparse
  | ok m' => simpa [hm, Except.toOption] using hparse

/-- Once its fields are read, removing a peer consists of three loops. -/
theorem delPeer_eq {p : Peer} {net : Ipv4Network} {m : Mac}
    (hnet : Crates.parseNetwork p.podCidr = some net) (hm : mac p = some m) :
    delPeer dev p = (do
      delRouteTo dev net
      liftM (delNeighbourOf dev net.network)
      liftM (delFdbOf dev m)) := by
  obtain ⟨s, hs, hparse⟩ := parseMac_of_mac hm
  simp only [delPeer, hnet, hs, hparse, orFailure, pure_bind]
  rfl

theorem delHostGwRoute_eq {p : Peer} {net : Ipv4Network}
    (hnet : Crates.parseNetwork p.podCidr = some net) :
    delHostGwRoute dev p = delRouteTo dev net := by
  simp [delHostGwRoute, hnet, orFailure]

/-- Removing a peer whose fields can be read removes its entries. -/
theorem wlp_removePeer {backend : BackendType} {p : Peer} (hp : Parses backend p) :
    PeerWlp (fun _ k' => k'.view dev = run (removes (entries backend p)) (k.view dev))
      (removePeer backend dev p) k := by
  obtain ⟨net, hnet⟩ := Option.isSome_iff_exists.mp hp.podCidr
  obtain ⟨ip, hip⟩ := Option.isSome_iff_exists.mp hp.publicIp
  cases backend with
  | vxlan =>
    obtain ⟨m, hm⟩ := Option.isSome_iff_exists.mp (hp.vtepMac rfl)
    have hdel : PeerWlp (fun _ k' => k'.view dev = run (removes (entries .vxlan p)) (k.view dev))
        (delPeer dev p).run k := by
      rw [delPeer_eq hnet hm]
      refine wlp.exceptBind (wlp_delRouteTo net) ?_ ?_
      · rintro _ k₁ ⟨-, h₁⟩
        refine (wlp_delNeighbourOf net.network).liftBind fun _ k₂ h₂ => ?_
        refine (wlp_delFdbOf m).bind fun _ k₃ h₃ => ?_
        change k₃.view dev = _
        rw [h₃, h₂, h₁]
        simp [entries, l2Entries, hm, hnet, hip, removes]
      · rintro e k₁ ⟨h, -⟩
        cases h
    exact hdel.bind fun _ _ h => h
  | hostGw =>
    have hdel : PeerWlp (fun _ k' => k'.view dev = run (removes (entries .hostGw p)) (k.view dev))
        (delHostGwRoute dev p).run k := by
      rw [delHostGwRoute_eq hnet]
      refine (wlp_delRouteTo net).mono ?_
      rintro _ k₁ ⟨-, h₁⟩
      rw [h₁]
      simp [entries, hnet, hip, removes]
    exact hdel.bind fun _ _ h => h

end FlannelRs.KernelTables
