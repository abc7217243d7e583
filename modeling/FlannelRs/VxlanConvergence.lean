import FlannelRs.VxlanDevices
import Mathlib.Logic.Relation

/-!
# What `ensure_vxlan` makes of an earlier state

A device that is there gets its MTU and is set up. All else of it was decided when it was
created, by an attempt that may not have come to its end.
-/

namespace FlannelRs.VxlanConvergence
open InteractionPrograms Ipv4Addresses CniTypes Flanneld LeasePublication VxlanDevices

variable {refused : Ipv4Addr × ℕ → Prop} {k k' : Links} {i : ℕ} {d : Device} {q : Request}

/-- A name is found with a link that has it. -/
theorem wlp_linkIndex (name : String) :
    wlp (Links.MayFail refused) (fun r k' => k' = k ∧ ∀ i, r = .ok (some i) →
      ∃ d, k.devices.lookup i = some d ∧ d.name = name) (linkIndex name).run k := by
  intro r k' h
  rcases h with ⟨rfl, ⟨i, d, hd, hname, rfl⟩ | ⟨-, hr⟩⟩ | ⟨⟨e, rfl⟩, rfl⟩
  · refine ⟨rfl, fun j hj => ?_⟩
    obtain rfl : i = j := Option.some.inj (Except.ok.inj hj)
    exact ⟨d, hd, hname⟩
  · rcases hr with rfl | ⟨text, rfl⟩
    · exact ⟨rfl, fun j hj => nomatch Except.ok.inj hj⟩
    · exact ⟨rfl, fun j hj => nomatch Except.ok.inj hj⟩
  · refine ⟨rfl, fun j hj => ?_⟩
    by_cases he : e.code = some enodev
    · rw [if_pos he] at hj
      cases hj
    · rw [if_neg he] at hj
      cases hj

theorem wlp_linkMacOf (hd : k.devices.lookup i = some d) :
    wlp (Links.MayFail refused) (fun r k' => k' = k ∧ ∀ mac, r = .ok mac →
      d.address.map linkMac = some mac) (linkMacOf i).run k := by
  intro r k' h
  rcases h with ⟨rfl, ⟨e, he, rfl⟩ | ⟨hnone, -⟩⟩ | ⟨⟨e, rfl⟩, rfl⟩
  · obtain rfl := Option.some.inj (hd.symm.trans he)
    obtain ⟨name, vxlan, mtu, up, address, addrs⟩ := d
    cases address with
    | none => exact ⟨rfl, fun mac hmac => by cases hmac⟩
    | some bytes => exact ⟨rfl, fun mac hmac => by cases hmac; rfl⟩
  · rw [hd] at hnone
    cases hnone
  · exact ⟨rfl, fun mac hmac => by cases hmac⟩

theorem wlp_setMtu (hd : k.devices.lookup i = some d) (mtu : ℕ) :
    wlp (Links.MayFail refused) (fun r k' => r = .ok () →
      k'.devices.lookup i = some { d with mtu }) (setMtu i mtu).run k := by
  intro r k' h
  rcases h with ⟨rfl, e, he, hk⟩ | ⟨⟨e, rfl⟩, -⟩
  · obtain rfl := Option.some.inj (hd.symm.trans he)
    intro _
    rw [hk, AList.lookup_insert]
  · intro hr
    cases hr

theorem wlp_bringUp (hd : k.devices.lookup i = some d) :
    wlp (Links.MayFail refused) (fun r k' => r = .ok () →
      k'.devices.lookup i = some { d with up := true }) (bringUp i).run k := by
  intro r k' h
  rcases h with ⟨rfl, e, he, hk⟩ | ⟨⟨e, rfl⟩, -⟩
  · obtain rfl := Option.some.inj (hd.symm.trans he)
    intro _
    rw [hk, AList.lookup_insert]
  · intro hr
    cases hr

/-- A link is created where there was none of its name. -/
theorem wlp_createVxlan (name : String) (vni dstport : ℕ) (endpoint : Ipv4Addr) :
    wlp (Links.MayFail refused) (fun r k' => (r = .ok () → k.Free name ∧ ∃ i mtu address,
        k'.devices.lookup i = some ⟨name, some ⟨vni, dstport, endpoint, false⟩, mtu, true,
          address, []⟩) ∧ (r ≠ .ok () → k' = k))
      (createVxlan name vni dstport endpoint).run k := by
  intro r k' h
  rcases h with ⟨rfl, hfree, i, mtu, address, -, hk⟩ | ⟨⟨e, rfl⟩, rfl⟩
  · refine ⟨fun _ => ⟨hfree, i, mtu, address, ?_⟩, fun h => absurd rfl h⟩
    rw [hk, AList.lookup_insert]
  · exact ⟨nofun, fun _ => rfl⟩

/-- The address is on the link afterwards, unless it was refused. -/
theorem wlp_addAddress {gateway : Ipv4Addr} (hd : k.devices.lookup i = some d)
    (hnew : d.addrs = []) :
    wlp (Links.MayFail refused) (fun _ k' => ∃ addrs,
        k'.devices.lookup i = some { d with addrs } ∧
          ((gateway, 32) ∈ addrs ↔ ¬ refused (gateway, 32)))
      (addAddress i gateway).run k := by
  intro r k' h
  rcases h with ⟨hrefused, -, rfl⟩ | ⟨hallowed, e, he, hanswer⟩
  · exact ⟨[], by rw [hd, ← hnew], by simp [hrefused]⟩
  · obtain rfl := Option.some.inj (hd.symm.trans he)
    rcases hanswer with ⟨-, rfl, hk⟩ | ⟨hmem, -, -⟩
    · refine ⟨(gateway, 32) :: d.addrs, ?_, by simp [hallowed]⟩
      rw [hk, AList.lookup_insert]
    · rw [hnew] at hmem
      cases hmem

theorem converged_iff {mac : String} (hd : k.devices.lookup i = some d) (hname : d.name = q.name)
    (hup : d.up = true) (hmtu : d.mtu = q.mtu) (hmac : d.address.map linkMac = some mac) :
    Converged q mac i k ↔ d.Fits q := by
  constructor
  · rintro ⟨e, he, -, -, -, hfits, -⟩
    obtain rfl := Option.some.inj (hd.symm.trans he)
    exact hfits
  · exact fun hfits => ⟨d, hd, hname, hup, hmtu, hfits, hmac⟩

theorem ready_iff_fits (hd : k.devices.lookup i = some d) (hname : d.name = q.name) :
    Ready refused q k ↔ d.Fits q := by
  constructor
  · rintro (⟨hfree, -⟩ | ⟨j, e, he, hename, hfits⟩)
    · exact absurd hname (hfree i d hd)
    · obtain rfl := k.distinct i j d e hd he (hname.trans hename.symm)
      obtain rfl := Option.some.inj (hd.symm.trans he)
      exact hfits
  · exact fun hfits => .inr ⟨i, d, hd, hname, hfits⟩

theorem ready_iff_allowed (hfree : k.Free q.name) :
    Ready refused q k ↔ ¬ refused (q.gateway, 32) := by
  constructor
  · rintro (⟨-, hallowed⟩ | ⟨j, e, he, hename, -⟩)
    · exact hallowed
    · exact absurd hename (hfree j e he)
  · exact fun hallowed => .inl ⟨hfree, hallowed⟩

/-- What a call that returns has done. -/
def Outcome (refused : Ipv4Addr × ℕ → Prop) (q : Request) (k : Links)
    (r : Except LinkFailure (String × ℕ)) (k' : Links) : Prop :=
  ∀ mac idx, r = .ok (mac, idx) → (Converged q mac idx k' ↔ Ready refused q k)

theorem wlp_existing (hd : k.devices.lookup i = some d) (hname : d.name = q.name) :
    wlp (Links.MayFail refused) (Outcome refused q k) (do
      setMtu i q.mtu
      let mac ← linkMacOf i
      bringUp i
      return (mac, i) : LinkProgram (String × ℕ)).run k := by
  refine wlp.exceptBind (wlp_setMtu hd q.mtu) (fun _ k₁ hk₁ => ?_) (fun e k₁ _ => nofun)
  have hd₁ := hk₁ rfl
  refine wlp.exceptBind (wlp_linkMacOf hd₁) ?_ (fun e k₂ _ => nofun)
  rintro mac _ ⟨rfl, hmac⟩
  refine wlp.exceptBind (wlp_bringUp hd₁) (fun _ k₃ hk₃ => ?_) (fun e k₃ _ => nofun)
  rintro mac' idx hr
  obtain ⟨rfl, rfl⟩ := Prod.mk.inj (Except.ok.inj hr)
  rw [converged_iff (hk₃ rfl) hname rfl rfl (hmac mac rfl), ready_iff_fits hd hname]
  rfl

theorem wlp_creating : wlp (Links.MayFail refused) (Outcome refused q k) (do
      createVxlan q.name q.vni q.dstport q.endpoint
      let idx ← orMissing "vxlan link missing after create" (← linkIndex q.name)
      let _ ← ExceptT.lift (addAddress idx q.gateway).run
      setMtu idx q.mtu
      bringUp idx
      let mac ← linkMacOf idx
      return (mac, idx) : LinkProgram (String × ℕ)).run k := by
  refine wlp.exceptBind (wlp_createVxlan q.name q.vni q.dstport q.endpoint) ?_
    (fun e k₁ _ => nofun)
  rintro _ k₁ ⟨hcreated, -⟩
  obtain ⟨hfree, i, mtu, address, hd⟩ := hcreated rfl
  refine wlp.exceptBind (wlp_linkIndex q.name) ?_ (fun e k₂ _ => nofun)
  rintro found k₂ ⟨rfl, hfound⟩
  cases found with
  | none => exact nofun
  | some idx =>
    obtain ⟨e, he, hname⟩ := hfound idx rfl
    obtain rfl := k₂.distinct i idx _ e hd he hname.symm
    refine wlp.liftBind (wlp_addAddress hd rfl) ?_
    rintro _ k₃ ⟨addrs, hd₃, haddrs⟩
    refine wlp.exceptBind (wlp_setMtu hd₃ q.mtu) (fun _ k₄ hk₄ => ?_) (fun e k₄ _ => nofun)
    refine wlp.exceptBind (wlp_bringUp (hk₄ rfl)) (fun _ k₅ hk₅ => ?_) (fun e k₅ _ => nofun)
    have hd₅ := hk₅ rfl
    refine wlp.exceptBind (wlp_linkMacOf hd₅) ?_ (fun e k₆ _ => nofun)
    rintro mac _ ⟨rfl, hmac⟩ mac' idx hr
    obtain ⟨rfl, rfl⟩ := Prod.mk.inj (Except.ok.inj hr)
    rw [converged_iff hd₅ rfl rfl rfl (hmac mac rfl), ready_iff_allowed hfree, ← haddrs]
    exact and_iff_right rfl

theorem wlp_ensure : wlp (Links.MayFail refused) (Outcome refused q k) q.ensure.run k := by
  refine wlp.exceptBind (wlp_linkIndex q.name) ?_ (fun e k₁ _ => nofun)
  rintro found _ ⟨rfl, hfound⟩
  cases found with
  | none => exact wlp_creating
  | some idx =>
    obtain ⟨d, hd, hname⟩ := hfound idx rfl
    exact wlp_existing hd hname

/-- Whatever links there are and whatever fails, a call that returns a link has made it as
requested exactly if it was so, but for MTU and state, or there was none and the address of the
new one was not refused. -/
theorem ensure_converges_iff (refused : Ipv4Addr × ℕ → Prop) (q : Request) (k k' : Links)
    (mac : String) (idx : ℕ) (h : Exec (Links.MayFail refused) k q.ensure.run (.ok (mac, idx)) k') :
    Converged q mac idx k' ↔ Ready refused q k :=
  h.wlp wlp_ensure mac idx rfl

/-- The requests that leave the parameters and the addresses of all links alone. -/
def Plain : LinkOp → Prop
  | .addVxlan _ _ => False
  | .addAddress _ _ _ => False
  | _ => True

/-- All links are still there, and have the same name, parameters and addresses. -/
def Kept (k k' : Links) : Prop := ∀ i d, k.devices.lookup i = some d →
  ∃ d', k'.devices.lookup i = some d' ∧ d'.name = d.name ∧ d'.vxlan = d.vxlan ∧
    d'.addrs = d.addrs

theorem Kept.refl (k : Links) : Kept k k := fun _ d hd => ⟨d, hd, rfl, rfl, rfl⟩

theorem Kept.trans {k'' : Links} (h : Kept k k') (h' : Kept k' k'') : Kept k k'' := by
  intro i d hd
  obtain ⟨d', hd', hname, hvxlan, haddrs⟩ := h i d hd
  obtain ⟨d'', hd'', hname', hvxlan', haddrs'⟩ := h' i d' hd'
  exact ⟨d'', hd'', hname'.trans hname, hvxlan'.trans hvxlan, haddrs'.trans haddrs⟩

/-- A change of one link. -/
theorem Kept.of_insert {j : ℕ} {e e' : Device} (he : k.devices.lookup j = some e)
    (hk : k'.devices = k.devices.insert j e') (hname : e'.name = e.name)
    (hvxlan : e'.vxlan = e.vxlan) (haddrs : e'.addrs = e.addrs) : Kept k k' := by
  intro i d hd
  by_cases hij : i = j
  · subst hij
    obtain rfl := Option.some.inj (he.symm.trans hd)
    exact ⟨e', by rw [hk, AList.lookup_insert], hname, hvxlan, haddrs⟩
  · exact ⟨d, by rw [hk, AList.lookup_insert_ne hij, hd], rfl, rfl, rfl⟩

theorem kept_of_plain {o : LinkOp} {r : LinkRes o} (ho : Plain o)
    (h : k.MayFail refused o r k') : Kept k k' := by
  cases o with
  | addVxlan name params => exact ho.elim
  | addAddress i addr len => exact ho.elim
  | getLinkByName name =>
    rcases h with ⟨rfl, -⟩ | ⟨-, rfl⟩ <;> exact .refl k'
  | getLinkByIndex i =>
    rcases h with ⟨rfl, -⟩ | ⟨-, rfl⟩ <;> exact .refl k'
  | setMtu i mtu =>
    rcases h with ⟨-, d, hd, hk⟩ | ⟨-, rfl⟩
    · exact .of_insert hd hk rfl rfl rfl
    · exact .refl k'
  | setUp i =>
    rcases h with ⟨-, d, hd, hk⟩ | ⟨-, rfl⟩
    · exact .of_insert hd hk rfl rfl rfl
    · exact .refl k'

theorem uses_orContext {α : Type} {x : Program LinkOp LinkRes (Except NlError α)}
    {context : Option String} (h : x.Uses Plain) : (orContext context x).run.Uses Plain :=
  h.bind fun _ => trivial

theorem uses_existing (idx mtu : ℕ) : (do
    setMtu idx mtu
    let mac ← linkMacOf idx
    bringUp idx
    return (mac, idx) : LinkProgram (String × ℕ)).run.Uses Plain := by
  have hmac : (linkMacOf idx).run.Uses Plain := by
    refine .exceptBind (uses_orContext (.send trivial)) fun l => ?_
    cases l with
    | none => trivial
    | some l =>
      obtain ⟨index, address⟩ := l
      cases address <;> trivial
  refine .exceptBind (uses_orContext (.send trivial)) fun _ => ?_
  exact .exceptBind hmac fun mac => .exceptBind (uses_orContext (.send trivial)) fun _ => trivial

/-- What was decided of a link stays, however far the call comes. -/
theorem wlp_keeps (hd : k.devices.lookup i = some d) (hname : d.name = q.name) :
    wlp (Links.MayFail refused) (fun _ k' => Kept k k') q.ensure.run k := by
  refine wlp.exceptBind (wlp_linkIndex q.name) ?_ ?_
  · rintro found k₁ ⟨rfl, -⟩
    cases found with
    | none =>
      refine wlp.exceptBind (wlp_createVxlan q.name q.vni q.dstport q.endpoint) ?_ ?_
      · rintro _ k₂ ⟨hcreated, -⟩
        exact absurd hname ((hcreated rfl).1 i d hd)
      · rintro e k₂ ⟨-, hsame⟩
        rw [hsame nofun]
        exact .refl k₁
    | some idx =>
      exact (uses_existing idx q.mtu).wlp Kept.refl (fun _ _ _ => Kept.trans)
        (fun _ _ _ _ ho h => kept_of_plain ho h) k₁
  · rintro e k₁ ⟨rfl, -⟩
    exact .refl k₁

/-- An attempt of the bootstrap on the link, whatever it asks for and whatever fails. -/
def Attempt (name : String) (k k' : Links) : Prop :=
  ∃ refused, ∃ q : Request, ∃ r, q.name = name ∧
    Exec (Links.MayFail refused) k q.ensure.run r k'

theorem kept_of_attempts {name : String} (hd : k.devices.lookup i = some d) (hname : d.name = name)
    (h : Relation.ReflTransGen (Attempt name) k k') : Kept k k' := by
  induction h with
  | refl => exact .refl k
  | tail _ hlast ih =>
    obtain ⟨refused, q, r, hq, hexec⟩ := hlast
    obtain ⟨d', hd', hname', -, -⟩ := ih i d hd
    exact ih.trans (hexec.wlp (wlp_keeps hd' (by rw [hname', hname, hq])))

/-- A link that is not as requested never becomes so: every later attempt that returns it
reports a device that does not fit. -/
theorem never_repaired {mac : String} {idx : ℕ} {k'' : Links} (hd : k.devices.lookup i = some d)
    (hname : d.name = q.name) (hnot : ¬ d.Fits q)
    (h : Relation.ReflTransGen (Attempt q.name) k k')
    (hlast : Exec (Links.MayFail refused) k' q.ensure.run (.ok (mac, idx)) k'') :
    ¬ Converged q mac idx k'' := by
  obtain ⟨d', hd', hname', hvxlan, haddrs⟩ := kept_of_attempts hd hname h i d hd
  rw [hlast.wlp wlp_ensure mac idx rfl, ready_iff_fits hd' (hname'.trans hname)]
  rwa [Device.Fits, hvxlan, haddrs]

def noLinks : Links := ⟨∅, fun _ _ _ _ h => nomatch h⟩

def oneLink (i : ℕ) (d : Device) : Links where
  devices := (∅ : AList fun _ : ℕ => Device).insert i d
  distinct := by
    have honly : ∀ j e, ((∅ : AList fun _ : ℕ => Device).insert i d).lookup j = some e → i = j := by
      intro j e he
      by_contra hne
      rw [AList.lookup_insert_ne (Ne.symm hne)] at he
      cases he
    exact fun j j' e e' he he' _ => (honly j e he).symm.trans (honly j' e' he')

@[simp] theorem oneLink_lookup : (oneLink i d).devices.lookup i = some d := AList.lookup_insert _

theorem oneLink_insert (d' : Device) :
    (oneLink i d').devices = (oneLink i d).devices.insert i d' :=
  (AList.insert_insert _).symm

theorem oneLink_found {name : String} (h : d.name = name) : (oneLink i d).MayFail refused
    (.getLinkByName name) (.ok (some ⟨i, d.address⟩)) (oneLink i d) :=
  .inl ⟨rfl, .inl ⟨i, d, oneLink_lookup, h, rfl⟩⟩

theorem oneLink_read : (oneLink i d).MayFail refused (.getLinkByIndex i)
    (.ok (some ⟨i, d.address⟩)) (oneLink i d) :=
  .inl ⟨rfl, .inl ⟨d, oneLink_lookup, rfl⟩⟩

theorem oneLink_setMtu (mtu : ℕ) : (oneLink i d).MayFail refused (.setMtu i mtu) (.ok ())
    (oneLink i { d with mtu }) :=
  .inl ⟨rfl, d, oneLink_lookup, oneLink_insert _⟩

theorem oneLink_setUp : (oneLink i d).MayFail refused (.setUp i) (.ok ())
    (oneLink i { d with up := true }) :=
  .inl ⟨rfl, d, oneLink_lookup, oneLink_insert _⟩

/-- The request of a node whose address is 172.18.0.2 and whose pods are in 10.244.1.0/24. -/
def nodeRequest : Request where
  name := "flannel.1"
  vni := 1
  dstport := 8472
  endpoint := .ofOctets 172 18 0 2
  gateway := .ofOctets 10 244 1 0
  mtu := 1450

def vtepBytes : List (Fin 256) := LeasePublication.vtep.bytes

/-- The link as the kernel creates it. -/
def newDevice : Device :=
  ⟨"flannel.1", some nodeRequest.params, 1500, true, some vtepBytes, []⟩

theorem noLinks_free (name : String) : noLinks.Free name := by
  intro i d h
  cases h

theorem noLinks_absent (name : String) :
    noLinks.MayFail refused (.getLinkByName name) (.ok none) noLinks :=
  .inl ⟨rfl, .inr ⟨noLinks_free name, .inl rfl⟩⟩

theorem noLinks_addVxlan : noLinks.MayFail refused (.addVxlan "flannel.1" nodeRequest.params)
    (.ok ()) (oneLink 4 newDevice) :=
  .inl ⟨rfl, noLinks_free _, 4, 1500, some vtepBytes, rfl, rfl⟩

theorem oneLink_addAddress {addr : Ipv4Addr} {len : ℕ} (hallowed : ¬ refused (addr, len))
    (hnew : (addr, len) ∉ d.addrs) : (oneLink i d).MayFail refused (.addAddress i addr len) (.ok ())
    (oneLink i { d with addrs := (addr, len) :: d.addrs }) :=
  .inr ⟨hallowed, d, oneLink_lookup, .inl ⟨hnew, rfl, oneLink_insert _⟩⟩

/-- The link of the node with its gateway address. -/
def gatewayDevice : Device := { newDevice with addrs := [(nodeRequest.gateway, 32)] }

theorem exec_existing (hname : d.name = nodeRequest.name) (haddress : d.address = some vtepBytes) :
    Exec (Links.MayFail refused) (oneLink i d) nodeRequest.ensure.run (.ok (linkMac vtepBytes, i))
      (oneLink i { d with mtu := nodeRequest.mtu, up := true }) := by
  have hread : (oneLink i { d with mtu := nodeRequest.mtu }).MayFail refused (.getLinkByIndex i)
      (.ok (some ⟨i, some vtepBytes⟩)) (oneLink i { d with mtu := nodeRequest.mtu }) := by
    rw [← haddress]
    exact oneLink_read
  refine .request (oneLink_found hname) ?_
  refine .request (oneLink_setMtu nodeRequest.mtu) ?_
  refine .request hread ?_
  exact .request oneLink_setUp (.ret ..)

theorem exec_creating (hallowed : ¬ refused (nodeRequest.gateway, 32)) :
    Exec (Links.MayFail refused) noLinks nodeRequest.ensure.run (.ok (linkMac vtepBytes, 4))
      (oneLink 4 { gatewayDevice with mtu := nodeRequest.mtu }) := by
  refine .request (noLinks_absent _) ?_
  refine .request noLinks_addVxlan ?_
  refine .request (oneLink_found rfl) ?_
  refine .request (oneLink_addAddress hallowed List.not_mem_nil) ?_
  refine .request (oneLink_setMtu nodeRequest.mtu) ?_
  refine .request oneLink_setUp ?_
  exact .request oneLink_read (.ret ..)

/-- A node makes its link. Later it finds the link set down and with another MTU, and at last it
finds a link that has no address: this one is reported and stays as it is. -/
theorem ensure_converges_again : ∃ mac idx k k' k'',
    Exec (Links.MayFail fun _ => False) noLinks nodeRequest.ensure.run (.ok (mac, idx)) k ∧
    Converged nodeRequest mac idx k ∧
    Exec (Links.MayFail fun _ => False) (oneLink 4 { gatewayDevice with mtu := 9000, up := false })
      nodeRequest.ensure.run (.ok (mac, idx)) k' ∧
    Converged nodeRequest mac idx k' ∧
    Exec (Links.MayFail fun _ => False) (oneLink 4 newDevice)
      nodeRequest.ensure.run (.ok (mac, idx)) k'' ∧
    ¬ Converged nodeRequest mac idx k'' := by
  have hfirst : Exec (Links.MayFail fun _ => False) noLinks nodeRequest.ensure.run _ _ :=
    exec_creating id
  have hagain : Exec (Links.MayFail fun _ => False)
      (oneLink 4 { gatewayDevice with mtu := 9000, up := false }) nodeRequest.ensure.run _ _ :=
    exec_existing rfl rfl
  have hbare : Exec (Links.MayFail fun _ => False) (oneLink 4 newDevice)
      nodeRequest.ensure.run _ _ := exec_existing rfl rfl
  have hfits : Device.Fits { gatewayDevice with mtu := 9000, up := false } nodeRequest :=
    ⟨rfl, .head _⟩
  have hnot : ¬ newDevice.Fits nodeRequest := fun h => List.not_mem_nil h.2
  refine ⟨_, _, _, _, _, hfirst, ?_, hagain, ?_, hbare, ?_⟩
  · exact (ensure_converges_iff _ nodeRequest _ _ _ _ hfirst).mpr (.inl ⟨noLinks_free _, id⟩)
  · rw [ensure_converges_iff _ nodeRequest _ _ _ _ hagain, ready_iff_fits oneLink_lookup rfl]
    exact hfits
  · rw [ensure_converges_iff _ nodeRequest _ _ _ _ hbare, ready_iff_fits oneLink_lookup rfl]
    exact hnot

/-- The first attempt ends after the link was created. The second one returns the link, which has
no address. -/
theorem retried_without_gateway : ∃ e k₁ mac idx k₂,
    Exec (Links.MayFail fun _ => False) noLinks nodeRequest.ensure.run (.error e) k₁ ∧
    Exec (Links.MayFail fun _ => False) k₁ nodeRequest.ensure.run (.ok (mac, idx)) k₂ ∧
    ¬ Converged nodeRequest mac idx k₂ := by
  have hlost : (oneLink 4 newDevice).MayFail (fun _ => False) (.getLinkByName "flannel.1")
      (.error ⟨none, "request failed"⟩) (oneLink 4 newDevice) := .inr ⟨⟨_, rfl⟩, rfl⟩
  have hfirst : Exec (Links.MayFail fun _ => False) noLinks nodeRequest.ensure.run
      (.error (.netlink none ⟨none, "request failed"⟩)) (oneLink 4 newDevice) := by
    refine .request (noLinks_absent _) ?_
    refine .request noLinks_addVxlan ?_
    exact .request hlost (.ret ..)
  have hsecond : Exec (Links.MayFail fun _ => False) (oneLink 4 newDevice) nodeRequest.ensure.run
      (.ok (linkMac vtepBytes, 4)) _ := exec_existing rfl rfl
  refine ⟨_, _, _, _, _, hfirst, hsecond, ?_⟩
  have hname : newDevice.name = nodeRequest.name := rfl
  exact never_repaired oneLink_lookup hname (fun hfits => List.not_mem_nil hfits.2) .refl hsecond

end FlannelRs.VxlanConvergence
