import FlannelRs.PeerReconciliation

/-!
# Reconciling peers while requests fail

Any request may fail, at any time and in any of the calls. A peer that is counted as
installed stays in the memory until it is removed or changed, so all its kernel entries
have to be there.
-/

namespace FlannelRs.PeerFailures
open InteractionPrograms Ipv4Addresses CniTypes Flanneld ExclusiveTables KernelTables
open PeerReconciliation

/-- The response to a request that has changed nothing. -/
def Failed (r : Except NlError Unit) : Prop := ∃ e, r = .error e ∧ e.code ≠ some eexist

def Fails (k : Kernel) : (o : PeerOp) → PeerRes o → Kernel → Prop
  | .addRoute _, r, k' => Failed r ∧ k' = k
  | .getRoutes, r, k' => r.received.Subperm k.routeMessages ∧ r.broken.isSome ∧ k' = k
  | .delRoute _, r, k' => Failed r ∧ k' = k
  | .addNeighbour _, r, k' => Failed r ∧ k' = k
  | .getNeighbours, r, k' => r.received.Subperm k.neighbourMessages ∧ r.broken.isSome ∧ k' = k
  | .delNeighbour _, r, k' => Failed r ∧ k' = k
  | .addFdb _, r, k' => Failed r ∧ k' = k
  | .getFdb, r, k' => r.received.Subperm k.fdbMessages ∧ r.broken.isSome ∧ k' = k
  | .delFdb _, r, k' => Failed r ∧ k' = k

/-- The kernel, and whether it has refused the last route it was asked to add. -/
structure State where
  kernel : Kernel
  refused : Bool

def refusedAfter : (o : PeerOp) → PeerRes o → Bool → Bool
  | .addRoute _, .ok _, _ => false
  | .addRoute _, .error e, _ => e.code.any (· ≠ eexist)
  | _, _, refused => refused

def Answers (s : State) (o : PeerOp) (r : PeerRes o) (s' : State) : Prop :=
  (s.kernel.Answers o r s'.kernel ∨ Fails s.kernel o r s'.kernel) ∧
    s'.refused = refusedAfter o r s.refused

/-- What `flanneld` takes for an added entry is one: no route fails to be added without a
code of the kernel, no neighbour or fdb entry fails to be added after the route was, and an
entry that exists is the same. -/
def Tolerated (s : State) : (o : PeerOp) → PeerRes o → Prop
  | .addRoute m, .error e => e.code ≠ none ∧
      (e.code = some eexist → s.kernel.routes.lookup (m.dst, m.len, m.oif) = some m.gateway)
  | .addNeighbour m, .error e => s.refused ∨
      e.code = some eexist ∧ s.kernel.neighbours.lookup (m.dev, m.ip) = some m.mac
  | .addFdb m, .error e => s.refused ∨
      e.code = some eexist ∧ s.kernel.fdb.lookup (m.dev, m.mac) = some m.underlay
  | _, _ => True

def ToleratedAnswers (s : State) (o : PeerOp) (r : PeerRes o) (s' : State) : Prop :=
  Answers s o r s' ∧ Tolerated s o r

variable {dev : ℕ} {s s' : State}

theorem lookup_of_inserted {α β : Type} [DecidableEq α] {t t' : AList fun _ : α => β} {x : α}
    {v : β} {r : Except NlError Unit} (h : Inserted t x v r t')
    (hsame : ∀ e, r = .error e → t.lookup x = some v) : t'.lookup x = some v := by
  rw [h.lookup, if_pos rfl]
  obtain ⟨hnot, -, -⟩ | ⟨-, ⟨text, rfl⟩, -⟩ := h
  · rw [AList.lookup_eq_none.mpr hnot, Option.getD_none]
  · rw [hsame _ rfl, Option.getD_some]

theorem answers_addRoute {dst : Ipv4Addr} {len : ℕ} {g : Gateway} {r : Except NlError Unit}
    (h : ToleratedAnswers s (.addRoute ⟨dst, len, dev, g⟩) r s') :
    Extends (s.kernel.view dev) (s'.kernel.view dev) ∧
    ((∀ e, r = .error e → e.code = some eexist) →
      s'.refused = false ∧ s'.kernel.view dev (.route dst len) = some (.gateway g)) := by
  obtain ⟨⟨hr | ⟨⟨e, rfl, he⟩, hk⟩, hrefused⟩, htol⟩ := h
  · refine ⟨view_addRoute hr ▸ extends_add _ _ _, fun hok => ⟨?_, ?_⟩⟩
    · rw [hrefused]
      cases r with
      | ok a => rfl
      | error e => simp [refusedAfter, hok e rfl]
    · obtain ⟨t, ht, hk⟩ := hr
      have hlookup := lookup_of_inserted ht (by rintro e rfl; exact htol.2 (hok e rfl))
      simp [hk, Kernel.view, hlookup]
  · exact ⟨hk ▸ .refl _, fun hok => absurd (hok e rfl) he⟩

theorem answers_addNeighbour {ip : Ipv4Addr} {mac : Mac} {r : Except NlError Unit}
    (h : ToleratedAnswers s (.addNeighbour ⟨dev, ip, mac⟩) r s') :
    Extends (s.kernel.view dev) (s'.kernel.view dev) ∧ s'.refused = s.refused ∧
      (s.refused = false → s'.kernel.view dev (.neighbour ip) = some (.mac mac)) := by
  obtain ⟨⟨hr | ⟨⟨e, rfl, he⟩, hk⟩, hrefused⟩, htol⟩ := h
  · refine ⟨view_addNeighbour hr ▸ extends_add _ _ _, hrefused, fun hs => ?_⟩
    obtain ⟨t, ht, hk⟩ := hr
    have hlookup := lookup_of_inserted ht (by
      rintro e rfl
      exact (htol.resolve_left (by simp [hs])).2)
    simp [hk, Kernel.view, hlookup]
  · exact ⟨hk ▸ .refl _, hrefused, fun hs => absurd (htol.resolve_left (by simp [hs])).1 he⟩

theorem answers_addFdb {mac : Mac} {ip : Ipv4Addr} {r : Except NlError Unit}
    (h : ToleratedAnswers s (.addFdb ⟨dev, mac, ip⟩) r s') :
    Extends (s.kernel.view dev) (s'.kernel.view dev) ∧
      (s.refused = false → s'.kernel.view dev (.fdb mac) = some (.underlay ip)) := by
  obtain ⟨⟨hr | ⟨⟨e, rfl, he⟩, hk⟩, hrefused⟩, htol⟩ := h
  · refine ⟨view_addFdb hr ▸ extends_add _ _ _, fun hs => ?_⟩
    obtain ⟨t, ht, hk⟩ := hr
    have hlookup := lookup_of_inserted ht (by
      rintro e rfl
      exact (htol.resolve_left (by simp [hs])).2)
    simp [hk, Kernel.view, hlookup]
  · exact ⟨hk ▸ .refl _, fun hs => absurd (htol.resolve_left (by simp [hs])).1 he⟩

/-- A dump of any kind changes nothing. -/
theorem answers_getRoutes {r : Dump RouteMessage} (h : ToleratedAnswers s .getRoutes r s') :
    s'.kernel = s.kernel := by
  obtain ⟨⟨⟨-, -, hk⟩ | ⟨-, -, hk⟩, -⟩, -⟩ := h
  · exact hk
  · exact hk

theorem answers_getNeighbours {r : Dump NeighbourMessage}
    (h : ToleratedAnswers s .getNeighbours r s') : s'.kernel = s.kernel := by
  obtain ⟨⟨⟨-, -, hk⟩ | ⟨-, -, hk⟩, -⟩, -⟩ := h
  · exact hk
  · exact hk

theorem answers_getFdb {r : Dump FdbMessage} (h : ToleratedAnswers s .getFdb r s') :
    s'.kernel = s.kernel := by
  obtain ⟨⟨⟨-, -, hk⟩ | ⟨-, -, hk⟩, -⟩, -⟩ := h
  · exact hk
  · exact hk

theorem answers_delRoute {dst : Ipv4Addr} {len : ℕ} {g : Gateway} {r : Except NlError Unit}
    (h : ToleratedAnswers s (.delRoute ⟨dst, len, dev, g⟩) r s') {x : Key}
    (hx : x ≠ .route dst len) : s'.kernel.view dev x = s.kernel.view dev x := by
  obtain ⟨⟨hk | ⟨-, hk⟩, -⟩, -⟩ := h
  · rw [hk, view_delRoute, apply_remove_ne hx]
  · rw [hk]

theorem answers_delNeighbour {ip : Ipv4Addr} {mac : Mac} {r : Except NlError Unit}
    (h : ToleratedAnswers s (.delNeighbour ⟨dev, ip, mac⟩) r s') {x : Key}
    (hx : x ≠ .neighbour ip) : s'.kernel.view dev x = s.kernel.view dev x := by
  obtain ⟨⟨hk | ⟨-, hk⟩, -⟩, -⟩ := h
  · rw [hk, view_delNeighbour, apply_remove_ne hx]
  · rw [hk]

theorem answers_delFdb {mac : Mac} {ip : Ipv4Addr} {r : Except NlError Unit}
    (h : ToleratedAnswers s (.delFdb ⟨dev, mac, ip⟩) r s') {x : Key}
    (hx : x ≠ .fdb mac) : s'.kernel.view dev x = s.kernel.view dev x := by
  obtain ⟨⟨hk | ⟨-, hk⟩, -⟩, -⟩ := h
  · rw [hk, view_delFdb, apply_remove_ne hx]
  · rw [hk]

abbrev FailingWlp {α : Type} (post : α → State → Prop) (prog : PeerProgram α) (s : State) : Prop :=
  wlp ToleratedAnswers post prog s

/-- Of the route, a success promises that it is there. -/
theorem wlp_requestRoute (dst : Ipv4Addr) (len : ℕ) (g : Gateway) :
    FailingWlp (fun r s' => Extends (s.kernel.view dev) (s'.kernel.view dev) ∧
        (r = .ok () → s'.refused = false ∧
          s'.kernel.view dev (.route dst len) = some (.gateway g)))
      (requestRoute ⟨dst, len, dev, g⟩).run s := by
  refine wlp.liftBind (m := fun (r : Except NlError Unit) s' =>
    ToleratedAnswers s (.addRoute ⟨dst, len, dev, g⟩) r s') (fun r s' h => h) fun r s' h => ?_
  obtain ⟨hext, hok⟩ := answers_addRoute h
  cases r with
  | ok a => exact ⟨hext, fun _ => hok fun e he => by cases he⟩
  | error e =>
    have htol := h.2.1
    obtain ⟨code, text⟩ := e
    cases code with
    | none => exact absurd rfl htol
    | some code =>
      by_cases hexist : code = eexist
      · subst hexist
        exact ⟨hext, fun _ => hok fun e he => by rw [← Except.error.inj he]⟩
      · simp only [ne_eq, hexist, not_false_eq_true, if_true]
        exact ⟨hext, fun hr => by cases hr⟩

theorem wlp_delRouteTo (net : Ipv4Network) :
    FailingWlp (fun _ s' => ∀ x, x ≠ .route net.network net.len →
        s'.kernel.view dev x = s.kernel.view dev x)
      (delRouteTo dev net).run s := by
  refine wlp.liftBind (m := fun (_ : Dump RouteMessage) (s' : State) => s'.kernel = s.kernel)
    (fun r s' h => answers_getRoutes h) fun routes s₁ hs₁ => ?_
  rw [← hs₁]
  cases hfound : routes.received.find? fun r =>
      r.len = net.len ∧ r.dst = net.network ∧ r.oif = dev with
  | some m =>
    obtain ⟨dst, len, oif, g⟩ := m
    obtain ⟨hlen, hdst, hoif⟩ : len = net.len ∧ dst = net.network ∧ oif = dev := by
      simpa using List.find?_some hfound
    rintro r s' h x hx
    rw [hlen, hdst, hoif] at h
    exact answers_delRoute h hx
  | none =>
    simp only
    cases routes.broken with
    | none => exact fun _ _ => rfl
    | some e => exact fun _ _ => rfl

theorem wlp_delNeighbourOf (ip : Ipv4Addr) :
    FailingWlp (fun _ s' => ∀ x, x ≠ .neighbour ip →
        s'.kernel.view dev x = s.kernel.view dev x)
      (delNeighbourOf dev ip) s := by
  refine wlp.bind (m := fun (_ : Dump NeighbourMessage) (s' : State) => s'.kernel = s.kernel)
    (fun r s' h => answers_getNeighbours h) fun neighbours s₁ hs₁ => ?_
  rw [← hs₁]
  cases hfound : neighbours.received.find? fun n => n.dev = dev ∧ n.ip = ip with
  | some m =>
    obtain ⟨dev', ip', mac⟩ := m
    obtain ⟨hdev, hip⟩ : dev' = dev ∧ ip' = ip := by simpa using List.find?_some hfound
    rintro r s' h x hx
    rw [hdev, hip] at h
    exact answers_delNeighbour h hx
  | none => exact fun _ _ => rfl

theorem wlp_delFdbOf (mac : Mac) :
    FailingWlp (fun _ s' => ∀ x, x ≠ .fdb mac → s'.kernel.view dev x = s.kernel.view dev x)
      (delFdbOf dev mac) s := by
  refine wlp.bind (m := fun (_ : Dump FdbMessage) (s' : State) => s'.kernel = s.kernel)
    (fun r s' h => answers_getFdb h) fun fdb s₁ hs₁ => ?_
  rw [← hs₁]
  cases hfound : fdb.received.find? fun n => n.dev = dev ∧ n.mac = mac with
  | some m =>
    obtain ⟨dev', mac', ip⟩ := m
    obtain ⟨hdev, hmac⟩ : dev' = dev ∧ mac' = mac := by simpa using List.find?_some hfound
    rintro r s' h x hx
    rw [hdev, hmac] at h
    exact answers_delFdb h hx
  | none => exact fun _ _ => rfl

variable [Crates] {backend : BackendType}

/-- All kernel entries of a peer are there. -/
structure Present (backend : BackendType) (t : Table Key Value) (p : Peer) : Prop where
  parses : Parses backend p
  entries : ∀ x v, (x, v) ∈ entries backend p → t x = some v

theorem wlp_addRoute (p : Peer) :
    FailingWlp (fun r s' => Extends (s.kernel.view dev) (s'.kernel.view dev) ∧
        (r = .ok () → s'.refused = false ∧ ∃ net, Crates.parseNetwork p.podCidr = some net ∧
          s'.kernel.view dev (.route net.network net.len) = some (.gateway ⟨net.network, true⟩)))
      (addRoute dev p).run s := by
  unfold addRoute
  cases hnet : Crates.parseNetwork p.podCidr with
  | none => exact ⟨.refl _, fun h => by cases h⟩
  | some net =>
    refine (wlp_requestRoute _ _ _).mono ?_
    rintro r s' ⟨hext, hok⟩
    exact ⟨hext, fun hr => ⟨(hok hr).1, net, rfl, (hok hr).2⟩⟩

theorem wlp_addHostGwRoute (p : Peer) :
    FailingWlp (fun r s' => Extends (s.kernel.view dev) (s'.kernel.view dev) ∧
        (r = .ok () → Present .hostGw (s'.kernel.view dev) p))
      (addHostGwRoute dev p).run s := by
  rcases addHostGwRoute_cases dev p with ⟨e, hrun, -, -⟩ | ⟨dst, len, gw, hrun, hp, hone⟩
  · rw [hrun]
    exact ⟨.refl _, fun h => by cases h⟩
  · rw [hrun]
    refine (wlp_requestRoute _ _ _).mono ?_
    rintro r s' ⟨hext, hok⟩
    refine ⟨hext, fun hr => ⟨hp, fun x v hx => ?_⟩⟩
    obtain ⟨rfl, rfl⟩ : x = .route dst len ∧ v = .gateway ⟨gw, false⟩ := by simpa [hone] using hx
    exact (hok hr).2

theorem wlp_addPeerL2 (p : Peer) :
    FailingWlp (fun r s' => Extends (s.kernel.view dev) (s'.kernel.view dev) ∧
        (r = .ok () → s.refused = false → Parses .vxlan p ∧
          ∀ x v, (x, v) ∈ l2Entries p → s'.kernel.view dev x = some v))
      (addPeerL2 dev p).run s := by
  rcases addPeerL2_cases dev p with ⟨e, hrun, -, -⟩ | ⟨ip, m, underlay, hrun, hp, htwo⟩
  · rw [hrun]
    exact ⟨.refl _, fun h => by cases h⟩
  · rw [hrun]
    intro r₁ s₁ h₁ r₂ s₂ h₂
    obtain ⟨hext₁, hrefused, hneighbour⟩ := answers_addNeighbour h₁
    obtain ⟨hext₂, hfdb⟩ := answers_addFdb h₂
    refine ⟨hext₁.trans hext₂, fun _ hs => ⟨hp, fun x v hx => ?_⟩⟩
    simp only [htwo, List.mem_cons, Prod.mk.injEq, List.not_mem_nil, or_false] at hx
    rcases hx with ⟨rfl, rfl⟩ | ⟨rfl, rfl⟩
    · exact hext₂ _ _ (hneighbour hs)
    · exact hfdb (by rw [hrefused, hs])

/-- A peer that counts as added is present. -/
theorem wlp_addPeer (p : Peer) :
    FailingWlp (fun added s' => Extends (s.kernel.view dev) (s'.kernel.view dev) ∧
        (added = true → Present backend (s'.kernel.view dev) p))
      (addPeer backend dev p) s := by
  cases backend with
  | vxlan =>
    refine (wlp_addRoute p).bind fun r₁ s₁ ⟨hext₁, hok₁⟩ => ?_
    refine (wlp_addPeerL2 p).bind fun r₂ s₂ ⟨hext₂, hok₂⟩ => ?_
    refine ⟨hext₁.trans hext₂, fun hadded => ?_⟩
    rw [Bool.and_eq_true, isOk_iff, isOk_iff] at hadded
    obtain ⟨hrefused, net, hnet, hroute⟩ := hok₁ hadded.1
    obtain ⟨hparses, hl2⟩ := hok₂ hadded.2 hrefused
    refine ⟨hparses, fun x v hx => ?_⟩
    rcases mem_entries.mp hx with ⟨net', hnet', rfl, rfl⟩ | hx
    · obtain rfl := Option.some.inj (hnet.symm.trans hnet')
      exact hext₂ _ _ hroute
    · exact hl2 x v hx
  | hostGw =>
    refine (wlp_addHostGwRoute p).bind fun r s' ⟨hext, hok⟩ => ⟨hext, fun hadded => ?_⟩
    exact hok ((isOk_iff r).mp hadded)

/-- Removing a peer touches no entries but its own. -/
theorem wlp_removePeer {p : Peer} (hp : Parses backend p) :
    FailingWlp (fun _ s' => ∀ x, (∀ v, (x, v) ∉ entries backend p) →
        s'.kernel.view dev x = s.kernel.view dev x)
      (removePeer backend dev p) s := by
  obtain ⟨net, hnet⟩ := Option.isSome_iff_exists.mp hp.podCidr
  obtain ⟨ip, hip⟩ := Option.isSome_iff_exists.mp hp.publicIp
  cases backend with
  | vxlan =>
    obtain ⟨m, hm⟩ := Option.isSome_iff_exists.mp (hp.vtepMac rfl)
    have hroute : ∀ {x}, (∀ v, (x, v) ∉ entries .vxlan p) → x ≠ .route net.network net.len := by
      rintro x hx rfl
      exact hx _ (mem_entries.mpr (.inl ⟨net, hnet, rfl, rfl⟩))
    have hl2 : ∀ {x}, (∀ v, (x, v) ∉ entries .vxlan p) → x ≠ .neighbour net.network ∧ x ≠ .fdb m := by
      intro x hx
      have hnot : ∀ v, (x, v) ∉ l2Entries p := fun v hv => hx v (mem_entries.mpr (.inr hv))
      simp only [l2Entries, hm, hnet, hip] at hnot
      constructor
      · rintro rfl
        exact hnot (.mac m) (by simp)
      · rintro rfl
        exact hnot (.underlay ip) (by simp)
    have hdel : FailingWlp (fun _ s' => ∀ x, (∀ v, (x, v) ∉ entries .vxlan p) →
        s'.kernel.view dev x = s.kernel.view dev x) (delPeer dev p).run s := by
      rw [delPeer_eq hnet hm]
      refine wlp.exceptBind (wlp_delRouteTo net) (fun _ s₁ h₁ => ?_)
        fun e s₁ h₁ x hx => h₁ x (hroute hx)
      refine (wlp_delNeighbourOf net.network).liftBind fun _ s₂ h₂ => ?_
      refine (wlp_delFdbOf m).bind fun _ s₃ h₃ x hx => ?_
      rw [h₃ x (hl2 hx).2, h₂ x (hl2 hx).1, h₁ x (hroute hx)]
    exact hdel.bind fun _ _ h => h
  | hostGw =>
    have hdel : FailingWlp (fun _ s' => ∀ x, (∀ v, (x, v) ∉ entries .hostGw p) →
        s'.kernel.view dev x = s.kernel.view dev x) (delHostGwRoute dev p).run s := by
      rw [delHostGwRoute_eq hnet]
      refine (wlp_delRouteTo net).mono fun _ s' h x hx => h x ?_
      rintro rfl
      exact hx _ (mem_entries.mpr ⟨net, ip, hnet, hip, rfl, rfl⟩)
    exact hdel.bind fun _ _ h => h

/-- The node that each pod CIDR and each VTEP MAC belongs to. -/
structure Owners where
  podCidr : Ipv4Addr × ℕ → String
  vtepMac : Mac → String

structure Owners.Owns (owners : Owners) (p : Peer) : Prop where
  podCidr : ∀ net ∈ podNet p, owners.podCidr net = p.node
  vtepMac : ∀ m ∈ mac p, owners.vtepMac m = p.node

/-- The installed peers and the kernel after any number of calls of `reconcile_from_store`.
Both maps are walked through in any order in each of them. -/
inductive Reached (answers : Environment State PeerOp PeerRes) (owners : Owners)
    (backend : BackendType) (dev : ℕ) (selfName : String) (k : Kernel) : PeerMap → State → Prop
  | start : Reached answers owners backend dev selfName k ∅ ⟨k, false⟩
  | call {installed installed' desired next : PeerMap} {nodes : List Node} {s s' : State}
      (before : Reached answers owners backend dev selfName k installed s)
      (owned : ∀ n p, (desiredFromNodes nodes selfName backend).lookup n = some p → owners.Owns p)
      (order : installed'.entries.Perm installed.entries)
      (order' : desired.entries.Perm (desiredFromNodes nodes selfName backend).entries)
      (exec : Exec answers s (reconcilePeers backend dev installed' desired) next s') :
      Reached answers owners backend dev selfName k next s'

/-- What holds of the peers in the memory. -/
structure Kept (owners : Owners) (backend : BackendType) (dev : ℕ) (m : PeerMap) (s : State) :
    Prop where
  node : ∀ n p, m.lookup n = some p → p.node = n
  owned : ∀ n p, m.lookup n = some p → owners.Owns p
  present : ∀ n p, m.lookup n = some p → Present backend (s.kernel.view dev) p

variable {owners : Owners}

/-- The entries of two peers in the memory have different keys. -/
theorem Kept.keysDisjoint {m : PeerMap} (h : Kept owners backend dev m s) {n n' : String}
    {p q : Peer} (hp : m.lookup n = some p) (hq : m.lookup n' = some q) (hne : n ≠ n') {x : Key}
    {v w : Value} (hv : (x, v) ∈ entries backend p) : (x, w) ∉ entries backend q := by
  intro hw
  have hxv := (h.present n p hp).entries x v hv
  have hxw := (h.present n' q hq).entries x w hw
  obtain rfl := Option.some.inj (hxv.symm.trans hxw)
  apply hne
  rw [← h.node n p hp, ← h.node n' q hq]
  have hparses := (h.present n p hp).parses
  rcases common_of_entries hv hw with heq | ⟨hb, heq⟩
  · obtain ⟨net, hnet⟩ := Option.isSome_iff_exists.mp hparses.podCidr
    have hpod : podNet p = some (net.network, net.len) := by simp [podNet, hnet]
    rw [← (h.owned n p hp).podCidr _ hpod, ← (h.owned n' q hq).podCidr _ (heq ▸ hpod)]
  · obtain ⟨m, hm⟩ := Option.isSome_iff_exists.mp (hparses.vtepMac hb)
    rw [← (h.owned n p hp).vtepMac m hm, ← (h.owned n' q hq).vtepMac m (heq ▸ hm)]

theorem Kept.erase {m : PeerMap} (h : Kept owners backend dev m s) (n : String)
    (hkeep : ∀ n' p, n' ≠ n → m.lookup n' = some p → Present backend (s.kernel.view dev) p →
      Present backend (s'.kernel.view dev) p) :
    Kept owners backend dev (m.erase n) s' := by
  have hlookup : ∀ n' p, (m.erase n).lookup n' = some p → n' ≠ n ∧ m.lookup n' = some p := by
    intro n' p hp
    by_cases hn : n' = n
    · subst hn
      simp at hp
    · exact ⟨hn, by rwa [AList.lookup_erase_ne hn] at hp⟩
  exact {
    node := fun n' p hp => h.node n' p (hlookup n' p hp).2
    owned := fun n' p hp => h.owned n' p (hlookup n' p hp).2
    present := fun n' p hp => hkeep n' p (hlookup n' p hp).1 (hlookup n' p hp).2
      (h.present n' p (hlookup n' p hp).2) }

theorem Kept.insert {m : PeerMap} (h : Kept owners backend dev m s)
    (hext : Extends (s.kernel.view dev) (s'.kernel.view dev)) {p : Peer} (howned : owners.Owns p)
    (hp : Present backend (s'.kernel.view dev) p) :
    Kept owners backend dev (m.insert p.node p) s' := by
  have hlookup : ∀ n q, (m.insert p.node p).lookup n = some q →
      (n = p.node ∧ q = p) ∨ m.lookup n = some q := by
    intro n q hq
    by_cases hn : n = p.node
    · subst hn
      rw [AList.lookup_insert] at hq
      exact .inl ⟨rfl, (Option.some.inj hq).symm⟩
    · exact .inr (by rwa [AList.lookup_insert_ne hn] at hq)
  constructor
  · intro n q hq
    rcases hlookup n q hq with ⟨rfl, rfl⟩ | hq
    · rfl
    · exact h.node n q hq
  · intro n q hq
    rcases hlookup n q hq with ⟨rfl, rfl⟩ | hq
    · exact howned
    · exact h.owned n q hq
  · intro n q hq
    rcases hlookup n q hq with ⟨rfl, rfl⟩ | hq
    · exact hp
    · exact ⟨(h.present n q hq).parses, fun x v hx => hext x v ((h.present n q hq).entries x v hx)⟩

def actionNode : Action → String
  | .add p => p.node
  | .remove p => p.node

/-- One round of the loop. A peer that is removed is still in the memory. -/
theorem wlp_applyAction {next : PeerMap} (h : Kept owners backend dev next s) {a : Action}
    (hadd : ∀ p, a = .add p → owners.Owns p)
    (hremove : ∀ p, a = .remove p → next.lookup p.node = some p) :
    FailingWlp (fun next' s' => Kept owners backend dev next' s' ∧
        ∀ n, n ≠ actionNode a → next'.lookup n = next.lookup n)
      (applyAction backend dev next a) s := by
  cases a with
  | add p =>
    refine (wlp_addPeer p).bind fun added s' ⟨hext, hpresent⟩ => ?_
    cases added with
    | true =>
      exact ⟨h.insert hext (hadd p rfl) (hpresent rfl), fun n hn => AList.lookup_insert_ne hn⟩
    | false =>
      refine ⟨h.erase p.node fun n q _ _ hq => ?_, fun n hn => AList.lookup_erase_ne hn⟩
      exact ⟨hq.parses, fun x v hx => hext x v (hq.entries x v hx)⟩
  | remove p =>
    have hp := hremove p rfl
    refine (wlp_removePeer (h.present _ p hp).parses).bind fun _ s' hframe => ?_
    refine ⟨h.erase p.node fun n q hn hq hpresent => ?_, fun n hn => AList.lookup_erase_ne hn⟩
    refine ⟨hpresent.parses, fun x v hx => ?_⟩
    rw [hframe x fun w => h.keysDisjoint hq hp hn hx]
    exact hpresent.entries x v hx

/-- The loop, over actions that touch no node before its removal. -/
theorem wlp_foldlM_applyAction {as : List Action} {next : PeerMap}
    (h : Kept owners backend dev next s)
    (horder : as.Pairwise fun a b => ∀ p, b = .remove p → actionNode a ≠ p.node)
    (hadd : ∀ p, Action.add p ∈ as → owners.Owns p)
    (hremove : ∀ p, Action.remove p ∈ as → next.lookup p.node = some p) :
    FailingWlp (Kept owners backend dev) (as.foldlM (applyAction backend dev) next) s := by
  induction as generalizing next s with
  | nil => exact h
  | cons a as ih =>
    rw [List.foldlM_cons]
    obtain ⟨hfirst, hrest⟩ := List.pairwise_cons.mp horder
    refine (wlp_applyAction h (fun p hp => hadd p (by simp [hp]))
      (fun p hp => hremove p (by simp [hp]))).bind fun next' s' ⟨h', hsame⟩ => ?_
    refine ih h' hrest (fun p hp => hadd p (List.mem_cons_of_mem a hp)) fun p hp => ?_
    rw [hsame p.node (hfirst _ hp p rfl).symm]
    exact hremove p (List.mem_cons_of_mem a hp)

omit [Crates] in
theorem add_mem_reconcile {installed desired : PeerMap} {p : Peer}
    (h : Action.add p ∈ reconcile installed desired) : ∃ n, desired.lookup n = some p := by
  rcases List.mem_append.mp h with h | h
  · obtain ⟨e, -, hp⟩ := List.mem_flatMap.mp h
    refine ⟨e.1, ?_⟩
    cases hd : desired.lookup e.1 with
    | none => simp [hd] at hp
    | some new =>
      by_cases hne : new = e.2
      · simp [hd, hne] at hp
      · simpa [hd, hne, eq_comm] using hp
  · obtain ⟨e, he, hp⟩ := List.mem_flatMap.mp h
    refine ⟨e.1, ?_⟩
    by_cases hin : e.1 ∈ installed
    · simp [hin] at hp
    · obtain rfl : p = e.2 := by simpa [hin] using hp
      exact AList.mem_lookup_iff.mpr he

omit [Crates] in
/-- What the diff does about a peer that is installed is about its node. -/
theorem actionNode_of_mem_replacements {installed desired : PeerMap}
    (hi : ∀ n p, installed.lookup n = some p → p.node = n)
    (hd : ∀ n p, desired.lookup n = some p → p.node = n) {e : Sigma fun _ : String => Peer}
    (he : e ∈ installed.entries) {a : Action}
    (ha : a ∈ match desired.lookup e.1 with
      | none => [Action.remove e.2]
      | some new => if new ≠ e.2 then [.remove e.2, .add new] else []) : actionNode a = e.1 := by
  have hold := hi e.1 e.2 (AList.mem_lookup_iff.mpr he)
  cases hlookup : desired.lookup e.1 with
  | none =>
    obtain rfl : a = .remove e.2 := by simpa [hlookup] using ha
    exact hold
  | some new =>
    by_cases hne : new = e.2
    · simp [hlookup, hne] at ha
    · rcases (by simpa [hlookup, hne] using ha : a = .remove e.2 ∨ a = .add new) with rfl | rfl
      · exact hold
      · exact hd e.1 new hlookup

omit [Crates] in
/-- No node is touched before its removal. -/
theorem pairwise_reconcile {installed desired : PeerMap}
    (hi : ∀ n p, installed.lookup n = some p → p.node = n)
    (hd : ∀ n p, desired.lookup n = some p → p.node = n) :
    (reconcile installed desired).Pairwise fun a b =>
      ∀ p, b = .remove p → actionNode a ≠ p.node := by
  have hadds : ∀ p, Action.remove p ∉ desired.entries.flatMap fun e =>
      if e.1 ∈ installed then [] else [.add e.2] := by
    intro p hp
    obtain ⟨e, -, hp⟩ := List.mem_flatMap.mp hp
    by_cases hin : e.1 ∈ installed <;> simp [hin] at hp
  rw [reconcile, List.pairwise_append]
  refine ⟨?_, ?_, ?_⟩
  · rw [List.pairwise_flatMap]
    constructor
    · intro e he
      cases desired.lookup e.1 with
      | none => simp
      | some new => by_cases hne : new = e.2 <;> simp [hne]
    · have hkeys := installed.nodupKeys
      refine (List.pairwise_map.mp hkeys).imp_of_mem fun {e e'} he he' hne a ha b hb p hp => ?_
      subst hp
      rw [actionNode_of_mem_replacements hi hd he ha]
      exact fun h => hne (h.trans (actionNode_of_mem_replacements hi hd he' hb))
  · exact List.pairwise_of_forall_mem_list fun a _ b hb p hp => absurd (hp ▸ hb) (hadds p)
  · exact fun a _ b hb p hp => absurd (hp ▸ hb) (hadds p)

/-- A call keeps what holds of the memory, whatever the order of both maps. -/
theorem Kept.reconcilePeers {installed desired next : PeerMap}
    (h : Kept owners backend dev installed s)
    (hdesired : ∀ n p, desired.lookup n = some p → p.node = n ∧ owners.Owns p)
    (hexec : Exec ToleratedAnswers s (reconcilePeers backend dev installed desired) next s') :
    Kept owners backend dev next s' := by
  refine hexec.wlp (wlp_foldlM_applyAction h ?_ ?_ ?_)
  · exact pairwise_reconcile h.node fun n p hp => (hdesired n p hp).1
  · intro p hp
    obtain ⟨n, hn⟩ := add_mem_reconcile hp
    exact (hdesired n p hn).2
  · intro p hp
    obtain ⟨n, hn⟩ := remove_mem_reconcile hp
    rw [h.node n p hn]
    exact hn

theorem nodeToPeer_node {n : Node} {p : Peer} (h : nodeToPeer n backend = some p) :
    n.name = some p.node := by
  unfold nodeToPeer at h
  cases backend <;>
  · simp only [Option.bind_eq_bind, Option.bind_eq_some_iff, Option.map_eq_some_iff] at h
    grind

/-- The desired peers stand under the names of their nodes. -/
theorem desiredFromNodes_node {nodes : List Node} {selfName n : String} {p : Peer}
    (h : (desiredFromNodes nodes selfName backend).lookup n = some p) : p.node = n := by
  refine List.foldlRecOn nodes _ (motive := fun out : PeerMap =>
    ∀ n p, out.lookup n = some p → p.node = n) (by simp) (fun out hout node _ n p hp => ?_) n p h
  by_cases hself : node.name.getD "" = selfName
  · exact hout n p (by simpa [hself] using hp)
  · cases hpeer : nodeToPeer node backend with
    | none => exact hout n p (by simpa [hself, hpeer] using hp)
    | some peer =>
      have hnode : node.name.getD "" = peer.node := by simp [nodeToPeer_node hpeer]
      rw [hnode] at hself
      simp only [hnode, if_neg hself, hpeer] at hp
      by_cases hn : n = peer.node
      · subst hn
        rw [AList.lookup_insert] at hp
        rw [Option.some.inj hp]
      · exact hout n p (by rwa [AList.lookup_insert_ne hn] at hp)

/-- In every run whose requests are answered within what is tolerated, all kernel entries of
every peer that is counted as installed are there after every call. -/
theorem installed_present {selfName : String} {k : Kernel} {installed : PeerMap}
    (h : Reached ToleratedAnswers owners backend dev selfName k installed s) {n : String} {p : Peer}
    (hp : installed.lookup n = some p) : Present backend (s.kernel.view dev) p := by
  have hkept : Kept owners backend dev installed s := by
    clear hp
    induction h with
    | start => constructor <;> simp
    | call before owned order order' exec ih =>
      have hinstalled : ∀ n, AList.lookup n _ = AList.lookup n _ := fun n => AList.perm_lookup order
      refine Kept.reconcilePeers ⟨?_, ?_, ?_⟩ (fun n p hp => ?_) exec
      · exact fun n p hp => ih.node n p (hinstalled n ▸ hp)
      · exact fun n p hp => ih.owned n p (hinstalled n ▸ hp)
      · exact fun n p hp => ih.present n p (hinstalled n ▸ hp)
      · rw [AList.perm_lookup order'] at hp
        exact ⟨desiredFromNodes_node hp, owned n p hp⟩
  exact hkept.present n p hp

/-- The only other node. -/
def nodeB : Node where
  name := some "b"
  annotations := some ((AList.singleton (annotationKey "public-ip") "172.18.0.3").insert
    (annotationKey "backend-data") "\x7b\"VtepMAC\":\"0a:00:00:00:00:0b\"\x7d")
  podCidr := some "10.244.2.0/24"

def ownedByB : Owners := ⟨fun _ => "b", fun _ => "b"⟩

omit [Crates] in
theorem desired_nodeB :
    @desiredFromNodes Crates.compact [nodeB] "a" .vxlan = peersB "10.244.2.0/24" := by
  apply AList.ext
  decide +kernel

omit [Crates] in
theorem ownedByB_owns (n : String) (p : Peer)
    (h : (@desiredFromNodes Crates.compact [nodeB] "a" .vxlan).lookup n = some p) :
    @Owners.Owns Crates.compact ownedByB p := by
  let := Crates.compact
  have hb : p = peerB "10.244.2.0/24" := by
    rw [desired_nodeB] at h
    have hmem := AList.mem_lookup_iff.mp h
    exact (by simpa [peersB] using hmem : n = "b" ∧ p = peerB "10.244.2.0/24").2
  subst hb
  exact ⟨fun _ _ => rfl, fun _ _ => rfl⟩

omit [Crates] in
theorem lookup_peersB (podCidr : String) : (peersB podCidr).lookup "b" = some (peerB podCidr) :=
  AList.mem_lookup_iff.mpr (List.mem_singleton.mpr rfl)

instance (t : Table Key Value) (p : Peer) : Decidable (Present backend t p) :=
  decidable_of_iff (Parses backend p ∧ ∀ e ∈ entries backend p, t e.1 = some e.2)
    ⟨fun h => ⟨h.1, fun x v hx => h.2 (x, v) hx⟩, fun h => ⟨h.parses, fun _ he => h.entries _ _ he⟩⟩

def failure (e : NlError) : (o : PeerOp) → PeerRes o
  | .getRoutes => ⟨[], some e⟩
  | .getNeighbours => ⟨[], some e⟩
  | .getFdb => ⟨[], some e⟩
  | .addRoute _ => .error e
  | .delRoute _ => .error e
  | .addNeighbour _ => .error e
  | .delNeighbour _ => .error e
  | .addFdb _ => .error e
  | .delFdb _ => .error e

def noBufs : NlError := ⟨some (-105), "No buffer space available"⟩

def respond (fails : PeerOp → Bool) (o : PeerOp) (s : State) : PeerRes o × State :=
  let rk := if fails o then (failure noBufs o, s.kernel) else s.kernel.perform o
  (rk.1, ⟨rk.2, refusedAfter o rk.1 s.refused⟩)

omit [Crates] in
theorem respond_answers (fails : PeerOp → Bool) (o : PeerOp) (s : State) :
    Answers s o (respond fails o s).1 (respond fails o s).2 := by
  refine ⟨?_, rfl⟩
  unfold respond
  cases fails o with
  | false => exact .inl (s.kernel.perform_answers o)
  | true =>
    right
    have he : noBufs.code ≠ some eexist := by decide
    cases o with
    | getRoutes => exact ⟨List.nil_subperm, rfl, rfl⟩
    | getNeighbours => exact ⟨List.nil_subperm, rfl, rfl⟩
    | getFdb => exact ⟨List.nil_subperm, rfl, rfl⟩
    | _ => exact ⟨⟨_, rfl, he⟩, rfl⟩

instance (s : State) (o : PeerOp) (r : PeerRes o) : Decidable (Tolerated s o r) :=
  match o, r with
  | .addRoute _, .error _ => inferInstanceAs (Decidable (_ ∧ _))
  | .addNeighbour _, .error _ => inferInstanceAs (Decidable (_ ∨ _))
  | .addFdb _, .error _ => inferInstanceAs (Decidable (_ ∨ _))
  | .addRoute _, .ok _ => .isTrue trivial
  | .addNeighbour _, .ok _ => .isTrue trivial
  | .addFdb _, .ok _ => .isTrue trivial
  | .getRoutes, _ => .isTrue trivial
  | .getNeighbours, _ => .isTrue trivial
  | .getFdb, _ => .isTrue trivial
  | .delRoute _, _ => .isTrue trivial
  | .delNeighbour _, _ => .isTrue trivial
  | .delFdb _, _ => .isTrue trivial

/-- One call with node `b` and the given failures. -/
def called (fails : PeerOp → Bool) (installed : PeerMap) (s : State) :
    Option (PeerMap × State) :=
  (reconcilePeers .vxlan 7 installed (desiredFromNodes [nodeB] "a" .vxlan)).run
    (fun o s => if Tolerated s o (respond fails o s).1 then some (respond fails o s) else none) s

theorem exec_of_called {fails : PeerOp → Bool} {installed next : PeerMap}
    (h : called fails installed s = some (next, s')) :
    Exec ToleratedAnswers s
      (reconcilePeers .vxlan 7 installed (desiredFromNodes [nodeB] "a" .vxlan)) next s' := by
  refine Program.exec_of_run (fun o s r s₁ hr => ?_) h
  by_cases htol : Tolerated s o (respond fails o s).1
  · rw [if_pos htol] at hr
    obtain rfl := (congrArg Prod.fst (Option.some.inj hr)).symm
    obtain rfl := (congrArg Prod.snd (Option.some.inj hr)).symm
    exact ⟨respond_answers fails o s, htol⟩
  · rw [if_neg htol] at hr
    cases hr

def isAddRoute : PeerOp → Bool
  | .addRoute _ => true
  | _ => false

def isAddNeighbour : PeerOp → Bool
  | .addNeighbour _ => true
  | _ => false

omit [Crates] in
/-- A peer whose route is refused in one call is present after the next one. -/
theorem installed_present_retried : ∃ s,
    @Reached Crates.compact ToleratedAnswers ownedByB .vxlan 7 "a" emptyKernel
      (peersB "10.244.2.0/24") s ∧
    @Present Crates.compact .vxlan (s.kernel.view 7) (peerB "10.244.2.0/24") := by
  let := Crates.compact
  have h : ((called isAddRoute ∅ ⟨emptyKernel, false⟩).bind fun r =>
      (called (fun _ => false) r.1 r.2).map fun r' => (r.1.entries, r'.1.entries)) =
        some ([], [⟨"b", peerB "10.244.2.0/24"⟩]) := by
    decide +kernel
  obtain ⟨⟨next₁, s₁⟩, h₁, h⟩ := Option.bind_eq_some_iff.mp h
  obtain ⟨⟨next₂, s₂⟩, h₂, he⟩ := Option.map_eq_some_iff.mp h
  obtain rfl : next₂ = peersB "10.244.2.0/24" := AList.ext (Prod.mk.inj he).2
  have hcall₁ := Reached.call .start ownedByB_owns (.refl _) (.refl _) (exec_of_called h₁)
  have hcall₂ := Reached.call hcall₁ ownedByB_owns (.refl _) (.refl _) (exec_of_called h₂)
  exact ⟨s₂, hcall₂, installed_present hcall₂ (lookup_peersB _)⟩

omit [Crates] in
/-- A peer whose neighbour entry could not be added counts as installed. -/
theorem missing_neighbour_installed : ∃ installed s n p,
    @Reached Crates.compact Answers ownedByB .vxlan 7 "a" emptyKernel installed s ∧
    installed.lookup n = some p ∧ ¬ @Present Crates.compact .vxlan (s.kernel.view 7) p := by
  let := Crates.compact
  have h : ((reconcilePeers .vxlan 7 ∅ (desiredFromNodes [nodeB] "a" .vxlan)).run
      (fun o s => some (respond isAddNeighbour o s)) ⟨emptyKernel, false⟩).map
        (fun r => (r.1.entries, decide (Present .vxlan (r.2.kernel.view 7) (peerB "10.244.2.0/24")))) =
      some ([⟨"b", peerB "10.244.2.0/24"⟩], false) := by
    decide +kernel
  obtain ⟨⟨next, s⟩, hrun, he⟩ := Option.map_eq_some_iff.mp h
  obtain ⟨hnext, hlost⟩ := Prod.mk.inj he
  obtain rfl : next = peersB "10.244.2.0/24" := AList.ext hnext
  have hexec : Exec Answers ⟨emptyKernel, false⟩
      (reconcilePeers .vxlan 7 ∅ (desiredFromNodes [nodeB] "a" .vxlan)) (peersB "10.244.2.0/24") s := by
    refine Program.exec_of_run (fun o s r s₁ hr => ?_) hrun
    obtain rfl := (congrArg Prod.fst (Option.some.inj hr)).symm
    obtain rfl := (congrArg Prod.snd (Option.some.inj hr)).symm
    exact respond_answers _ o s
  exact ⟨peersB "10.244.2.0/24", s, "b", peerB "10.244.2.0/24",
    .call .start ownedByB_owns (.refl _) (.refl _) hexec, lookup_peersB _, of_decide_eq_false hlost⟩

end FlannelRs.PeerFailures
