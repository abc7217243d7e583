import FlannelRs.OverlayCluster
import FlannelRs.PacketForwarding
import FlannelRs.PeerOrphans
import FlannelRs.VxlanConvergence

/-!
# What the requests of one node change in its kernel

The name and the hardware address of a link stay, and a round for the peers brings no entries
but theirs.
-/

namespace FlannelRs.OverlayRequests
open InteractionPrograms ProcessPools Ipv4Addresses JsonValues CniTypes Flanneld ExclusiveTables
open KernelTables PeerReconciliation PeerFailures PeerBookkeeping LeasePublication VxlanDevices
open FlanneldDaemon OverlayCluster PacketForwarding

/-- The link has the name, and its hardware address has the text. -/
def Holds (idx : ℕ) (name : String) (mac : Option String) (l : Links) : Prop :=
  ∃ d, l.devices.lookup idx = some d ∧ d.name = name ∧ d.address.map linkMac = mac

/-- A kernel that refuses other addresses each time. -/
def linkAnswers (l : Links) (o : LinkOp) (r : LinkRes o) (l' : Links) : Prop :=
  ∃ refused, l.MayFail refused o r l'

section

variable {l l' : Links} {idx : ℕ} {name : String} {mac : Option String}

/-- A change of a link that leaves its name and its hardware address. -/
theorem Holds.insert {i : ℕ} {d d' : Device} (h : Holds idx name mac l)
    (hd : l.devices.lookup i = some d) (hl : l'.devices = l.devices.insert i d')
    (hname : d'.name = d.name) (haddress : d'.address = d.address) : Holds idx name mac l' := by
  obtain ⟨e, he, hename, hemac⟩ := h
  by_cases hi : idx = i
  · subst hi
    obtain rfl := Option.some.inj (he.symm.trans hd)
    exact ⟨d', by rw [hl, AList.lookup_insert], hname.trans hename, by rw [haddress, hemac]⟩
  · exact ⟨e, by rw [hl, AList.lookup_insert_ne hi, he], hename, hemac⟩

theorem holds_answers {o : LinkOp} {r : LinkRes o} (h : linkAnswers l o r l')
    (hl : Holds idx name mac l) : Holds idx name mac l' := by
  obtain ⟨refused, h⟩ := h
  cases o with
  | getLinkByName n =>
    rcases h with ⟨rfl, -⟩ | ⟨-, rfl⟩ <;> exact hl
  | getLinkByIndex i =>
    rcases h with ⟨rfl, -⟩ | ⟨-, rfl⟩ <;> exact hl
  | addVxlan n params =>
    rcases h with ⟨-, -, i, mtu, address, hnone, hdevices⟩ | ⟨-, rfl⟩
    · obtain ⟨d, hd, hname, hmac⟩ := hl
      refine ⟨d, ?_, hname, hmac⟩
      rw [hdevices, AList.lookup_insert_ne, hd]
      rintro rfl
      rw [hd] at hnone
      cases hnone
    · exact hl
  | addAddress i addr len =>
    rcases h with ⟨-, -, rfl⟩ | ⟨-, d, hd, ⟨-, -, hdevices⟩ | ⟨-, -, rfl⟩⟩
    · exact hl
    · exact hl.insert hd hdevices rfl rfl
    · exact hl
  | setMtu i mtu =>
    rcases h with ⟨-, d, hd, hdevices⟩ | ⟨-, rfl⟩
    · exact hl.insert hd hdevices rfl rfl
    · exact hl
  | setUp i =>
    rcases h with ⟨-, d, hd, hdevices⟩ | ⟨-, rfl⟩
    · exact hl.insert hd hdevices rfl rfl
    · exact hl

theorem wlp_holds {α : Type} (prog : Program LinkOp LinkRes α) (h : Holds idx name mac l) :
    wlp linkAnswers (fun _ l' => Holds idx name mac l') prog l :=
  wlp_of_preserved (I := Holds idx name mac) (fun _ _ _ _ h hl => holds_answers h hl) prog h

theorem wlp_linkIndex_holds (name : String) : wlp linkAnswers (fun r l' => ∀ idx,
    r = .ok (some idx) → ∃ mac, Holds idx name mac l') (linkIndex name).run l := by
  rintro r l' ⟨refused, h⟩
  have hfound := VxlanConvergence.wlp_linkIndex name r l' h
  cases r with
  | ok found =>
    intro idx hidx
    obtain ⟨rfl, hfound⟩ := hfound
    obtain ⟨d, hd, hname⟩ := hfound idx hidx
    exact ⟨_, d, hd, hname, rfl⟩
  | error e =>
    intro idx hidx
    obtain ⟨rfl, hfound⟩ := hfound
    obtain ⟨d, hd, hname⟩ := hfound idx hidx
    exact ⟨_, d, hd, hname, rfl⟩

theorem wlp_linkMacOf_holds (h : Holds idx name mac l) : wlp linkAnswers (fun r l' =>
    Holds idx name mac l' ∧ ∀ text, r = .ok text → mac = some text) (linkMacOf idx).run l := by
  rintro r l' ⟨refused, hr⟩
  have hl' := holds_answers ⟨refused, hr⟩ h
  obtain ⟨d, hd, -, rfl⟩ := h
  have hmac := VxlanConvergence.wlp_linkMacOf hd r l' hr
  cases r with
  | error e => exact ⟨hl', nofun⟩
  | ok found =>
    cases found with
    | none => exact ⟨hl', nofun⟩
    | some m =>
      obtain ⟨index, address⟩ := m
      cases address with
      | none => exact ⟨hl', nofun⟩
      | some bytes => exact ⟨hl', hmac.2⟩

/-- The returned hardware address is that of the returned link. -/
theorem wlp_ensureVxlan (name : String) (vni dstport : ℕ) (endpoint gateway : Ipv4Addr)
    (mtu : ℕ) : wlp linkAnswers (fun r l' => ∀ text idx, r = .ok (text, idx) →
      Holds idx name (some text) l')
      (ensureVxlan name vni dstport endpoint gateway mtu).run l := by
  refine wlp.exceptBind (wlp_linkIndex_holds name) ?_ (fun e l₁ _ => nofun)
  intro found l₁ hfound
  cases found with
  | some idx =>
    obtain ⟨mac, hl₁⟩ := hfound idx rfl
    refine wlp.exceptBind (wlp_holds _ hl₁) (fun _ l₂ hl₂ => ?_) (fun e l₂ _ => nofun)
    refine wlp.exceptBind (wlp_linkMacOf_holds hl₂) ?_ (fun e l₃ _ => nofun)
    rintro text l₃ ⟨hl₃, htext⟩
    refine wlp.exceptBind (wlp_holds _ hl₃) (fun _ l₄ hl₄ => ?_) (fun e l₄ _ => nofun)
    rintro text' idx' hr
    obtain ⟨rfl, rfl⟩ := Prod.mk.inj (Except.ok.inj hr)
    rwa [htext text rfl] at hl₄
  | none =>
    refine wlp.exceptBind (m := fun _ _ => True) (wlp_true _ _) (fun _ l₂ _ => ?_)
      (fun e l₂ _ => nofun)
    refine wlp.exceptBind (wlp_linkIndex_holds name) ?_ (fun e l₃ _ => nofun)
    intro again l₃ hagain
    cases again with
    | none => exact nofun
    | some idx =>
      obtain ⟨mac, hl₃⟩ := hagain idx rfl
      refine wlp.liftBind (wlp_holds _ hl₃) fun _ l₄ hl₄ => ?_
      refine wlp.exceptBind (wlp_holds _ hl₄) (fun _ l₅ hl₅ => ?_) (fun e l₅ _ => nofun)
      refine wlp.exceptBind (wlp_holds _ hl₅) (fun _ l₆ hl₆ => ?_) (fun e l₆ _ => nofun)
      refine wlp.exceptBind (wlp_linkMacOf_holds hl₆) ?_ (fun e l₇ _ => nofun)
      rintro text l₇ ⟨hl₇, htext⟩ text' idx' hr
      obtain ⟨rfl, rfl⟩ := Prod.mk.inj (Except.ok.inj hr)
      rwa [htext text rfl] at hl₇

end

/-- The request is to add the entry. -/
def Adds (oif : ℕ) (x : Key) (v : Value) : PeerOp → Prop
  | .addRoute m => m.oif = oif ∧ x = .route m.dst m.len ∧ v = .gateway m.gateway
  | .addNeighbour m => m.dev = oif ∧ x = .neighbour m.ip ∧ v = .mac m.mac
  | .addFdb m => m.dev = oif ∧ x = .fdb m.mac ∧ v = .underlay m.underlay
  | _ => False

/-- An entry of a table after an insertion. -/
theorem lookup_inserted_cases {α β : Type} [DecidableEq α] {t t' : AList fun _ : α => β} {x y : α}
    {v w : β} {r : Except NlError Unit} (h : Inserted t x v r t') (hy : t'.lookup y = some w) :
    t.lookup y = some w ∨ y = x ∧ w = v := by
  rw [h.lookup] at hy
  by_cases hyx : y = x
  · subst hyx
    rw [if_pos rfl] at hy
    cases ht : t.lookup y with
    | none =>
      rw [ht, Option.getD_none] at hy
      exact .inr ⟨rfl, (Option.some.inj hy).symm⟩
    | some u =>
      rw [ht, Option.getD_some] at hy
      exact .inl hy
  · rw [if_neg hyx] at hy
    exact .inl hy

theorem lookup_of_lookup_erase {α β : Type} [DecidableEq α] {t : AList fun _ : α => β} {x y : α}
    {w : β} (h : (t.erase x).lookup y = some w) : t.lookup y = some w := by
  by_cases hyx : y = x
  · subst hyx
    simp at h
  · rwa [AList.lookup_erase_ne hyx] at h

/-- Every entry was there, or has been asked for. -/
theorem view_answered {s s' : State} {o : PeerOp} {r : PeerRes o} (h : Answers s o r s') {oif : ℕ}
    {x : Key} {v : Value} (hx : s'.kernel.view oif x = some v) :
    s.kernel.view oif x = some v ∨ Adds oif x v o := by
  have hsame : s'.kernel = s.kernel → s.kernel.view oif x = some v ∨ Adds oif x v o :=
    fun hk => .inl (hk ▸ hx)
  cases o with
  | getRoutes => exact h.1.elim (fun h => hsame h.2.2) fun h => hsame h.2.2
  | getNeighbours => exact h.1.elim (fun h => hsame h.2.2) fun h => hsame h.2.2
  | getFdb => exact h.1.elim (fun h => hsame h.2.2) fun h => hsame h.2.2
  | addRoute m =>
    rcases h.1 with ⟨t, ht, hk⟩ | ⟨-, hk⟩
    · rw [hk] at hx
      cases x with
      | route dst len =>
        obtain ⟨g, hg, rfl⟩ := view_route.mp hx
        rcases lookup_inserted_cases ht hg with hg | ⟨hkey, rfl⟩
        · exact .inl (view_route.mpr ⟨g, hg, rfl⟩)
        · simp only [Prod.mk.injEq] at hkey
          exact .inr ⟨hkey.2.2.symm, by rw [hkey.1, hkey.2.1], rfl⟩
      | neighbour ip => exact .inl hx
      | fdb m => exact .inl hx
    · exact hsame hk
  | addNeighbour m =>
    rcases h.1 with ⟨t, ht, hk⟩ | ⟨-, hk⟩
    · rw [hk] at hx
      cases x with
      | neighbour ip =>
        obtain ⟨mac, hmac, rfl⟩ := view_neighbour.mp hx
        rcases lookup_inserted_cases ht hmac with hmac | ⟨hkey, rfl⟩
        · exact .inl (view_neighbour.mpr ⟨mac, hmac, rfl⟩)
        · simp only [Prod.mk.injEq] at hkey
          exact .inr ⟨hkey.1.symm, by rw [hkey.2], rfl⟩
      | route dst len => exact .inl hx
      | fdb m => exact .inl hx
    · exact hsame hk
  | addFdb m =>
    rcases h.1 with ⟨t, ht, hk⟩ | ⟨-, hk⟩
    · rw [hk] at hx
      cases x with
      | fdb mac =>
        obtain ⟨u, hu, rfl⟩ := view_fdb.mp hx
        rcases lookup_inserted_cases ht hu with hu | ⟨hkey, rfl⟩
        · exact .inl (view_fdb.mpr ⟨u, hu, rfl⟩)
        · simp only [Prod.mk.injEq] at hkey
          exact .inr ⟨hkey.1.symm, by rw [hkey.2], rfl⟩
      | route dst len => exact .inl hx
      | neighbour ip => exact .inl hx
    · exact hsame hk
  | delRoute m =>
    rcases h.1 with hk | ⟨-, hk⟩
    · rw [hk] at hx
      cases x with
      | route dst len =>
        obtain ⟨g, hg, rfl⟩ := view_route.mp hx
        exact .inl (view_route.mpr ⟨g, lookup_of_lookup_erase hg, rfl⟩)
      | neighbour ip => exact .inl hx
      | fdb mac => exact .inl hx
    · exact hsame hk
  | delNeighbour m =>
    rcases h.1 with hk | ⟨-, hk⟩
    · rw [hk] at hx
      cases x with
      | neighbour ip =>
        obtain ⟨mac, hmac, rfl⟩ := view_neighbour.mp hx
        exact .inl (view_neighbour.mpr ⟨mac, lookup_of_lookup_erase hmac, rfl⟩)
      | route dst len => exact .inl hx
      | fdb mac => exact .inl hx
    · exact hsame hk
  | delFdb m =>
    rcases h.1 with hk | ⟨-, hk⟩
    · rw [hk] at hx
      cases x with
      | fdb mac =>
        obtain ⟨u, hu, rfl⟩ := view_fdb.mp hx
        exact .inl (view_fdb.mpr ⟨u, lookup_of_lookup_erase hu, rfl⟩)
      | route dst len => exact .inl hx
      | neighbour ip => exact .inl hx
    · exact hsame hk

section

variable [Crates] {backend : BackendType} {idx : ℕ} {installed desired : PeerMap}

theorem entry_of_adds {p : Peer} {o : PeerOp} (ho : PeerOrphans.AddsEntry backend idx p o)
    {oif : ℕ} {x : Key} {v : Value} (h : Adds oif x v o) : (x, v) ∈ entries backend p := by
  cases o with
  | addRoute m =>
    obtain ⟨-, rfl, rfl⟩ := h
    exact ho.2
  | addNeighbour m =>
    obtain ⟨-, rfl, rfl⟩ := h
    exact ho.2
  | addFdb m =>
    obtain ⟨-, rfl, rfl⟩ := h
    exact ho.2
  | _ => exact h.elim

/-- The requests of a round: additions only for desired peers. -/
def RoundOp (backend : BackendType) (idx : ℕ) (desired : PeerMap) (o : PeerOp) : Prop :=
  PeerOrphans.IsAddition o → ∃ n p, desired.lookup n = some p ∧
    PeerOrphans.AddsEntry backend idx p o

theorem uses_reconcilePeers (installed : PeerMap) :
    (reconcilePeers backend idx installed desired).Uses (RoundOp backend idx desired) := by
  have hrest : ∀ (as : List Action) (next : PeerMap),
      (∀ p, Action.add p ∈ as → ∃ n, desired.lookup n = some p) →
      (as.foldlM (applyAction backend idx) next).Uses (RoundOp backend idx desired) := by
    intro as
    induction as with
    | nil =>
      intro next _
      trivial
    | cons a as ih =>
      intro next has
      rw [List.foldlM_cons]
      refine Program.Uses.bind ?_ fun next' => ih next' fun p hp =>
        has p (List.mem_cons_of_mem a hp)
      cases a with
      | add p =>
        obtain ⟨n, hn⟩ := has p List.mem_cons_self
        refine Program.Uses.bind ?_ fun added => by cases added <;> trivial
        exact (PeerOrphans.uses_addPeer p).mono fun o ho _ => ⟨n, p, hn, ho⟩
      | remove p =>
        refine Program.Uses.bind ?_ fun _ => trivial
        exact (PeerOrphans.uses_removePeer p).mono fun o ho h => absurd h ho
  exact hrest _ _ fun p hp => add_mem_reconcile hp

end

end FlannelRs.OverlayRequests
