import FlannelRs.FlannelPlugin

/-!
# What the delegate keeps of the user, and what `host-local` reads of it
-/

namespace FlannelRs.DelegateIpam
open RustText JsonValues JsonTexts CniTypes FlannelPlugin

section

variable {conf : FlannelConf} {env : SubnetEnv}

theorem insertAbsent_keeps {k key : String} {v : Json} (value : Json) {d : JsonMap}
    (h : d.lookup k = some v) : (insertAbsent key value d).lookup k = some v := by
  by_cases hk : k = key
  · rw [hk] at h ⊢
    rw [lookup_insertAbsent, h, Option.getD_some]
  · rw [lookup_insertAbsent_ne hk, h]

/-- The delegate without its `ipam`. -/
def gatewayDelegate (conf : FlannelConf) (env : SubnetEnv) : JsonMap :=
  if delegateType (typedDelegate conf env) = some "bridge" then
    insertAbsent "isGateway" (.bool true) (typedDelegate conf env)
  else typedDelegate conf env

theorem buildDelegate_eq (conf : FlannelConf) (env : SubnetEnv) :
    buildDelegate conf env = (gatewayDelegate conf env).insert "ipam" (hostLocalIpam env) := rfl

theorem lookup_ipam (conf : FlannelConf) (env : SubnetEnv) :
    (buildDelegate conf env).lookup "ipam" = some (hostLocalIpam env) := by
  rw [buildDelegate_eq, AList.lookup_insert]

theorem gatewayDelegate_keeps {k : String} {v : Json}
    (h : (typedDelegate conf env).lookup k = some v) :
    (gatewayDelegate conf env).lookup k = some v := by
  unfold gatewayDelegate
  split
  · exact insertAbsent_keeps _ h
  · exact h

theorem lookup_name (conf : FlannelConf) (env : SubnetEnv) :
    (buildDelegate conf env).lookup "name" = some (.str conf.name) := by
  rw [buildDelegate_eq, AList.lookup_insert_ne (by decide)]
  exact gatewayDelegate_keeps (lookup_typedDelegate_name conf env)

theorem lookup_cniVersion (conf : FlannelConf) (env : SubnetEnv) :
    (buildDelegate conf env).lookup "cniVersion" = some (.str conf.cniVersion) := by
  rw [buildDelegate_eq, AList.lookup_insert_ne (by decide)]
  exact gatewayDelegate_keeps (lookup_typedDelegate_cniVersion conf env)

/-- What the user set stays, but for the three keys that the plugin sets itself. -/
theorem lookup_user {k : String} {v : Json} (hk : k ∉ ["name", "cniVersion", "ipam"])
    (h : conf.delegate.lookup k = some v) : (buildDelegate conf env).lookup k = some v := by
  simp only [List.mem_cons, List.not_mem_nil, or_false, not_or] at hk
  obtain ⟨hname, hversion, hipam⟩ := hk
  have htyped : (typedDelegate conf env).lookup k = some v := by
    unfold typedDelegate
    apply insertAbsent_keeps
    apply insertAbsent_keeps
    apply insertAbsent_keeps
    rw [AList.lookup_insert_ne hversion, AList.lookup_insert_ne hname, h]
  rw [buildDelegate_eq, AList.lookup_insert_ne hipam]
  exact gatewayDelegate_keeps htyped

/-- The network configuration for the subnet of the node. -/
def nodeNetConf (conf : FlannelConf) (env : SubnetEnv) : NetConf where
  cniVersion := conf.cniVersion
  name := conf.name
  ipam := {
    kind := "host-local"
    ranges := [[⟨env.subnet, none⟩]]
    routes := [⟨env.network, none⟩]
    dataDir := none }

theorem decode_hostLocalIpam (env : SubnetEnv) : IpamConfig.decode (hostLocalIpam env) =
    some ⟨"host-local", [[⟨env.subnet, none⟩]], [⟨env.network, none⟩], none⟩ := rfl

theorem decode_buildDelegate (conf : FlannelConf) (env : SubnetEnv) :
    NetConf.decode (.ofMap (buildDelegate conf env)) = some (nodeNetConf conf env) := by
  simp [NetConf.decode, Json.ofMap, Json.fields, lookup_name, lookup_cniVersion, lookup_ipam,
    defaulted, required, Json.decodeString, decode_hostLocalIpam, nodeNetConf]

theorem parse_buildDelegate [Crates] (hread : ReadsBack (.ofMap (buildDelegate conf env))) :
    NetConf.parse (Crates.jsonToString (.ofMap (buildDelegate conf env))) =
      some (nodeNetConf conf env) := by
  rw [NetConf.parse, hread, Option.bind_some, decode_buildDelegate]

end

/-- Whatever delegate the user gives, `host-local` allocates in the subnet of the node, and
the delegate keeps what the user set. -/
theorem delegate_stays_in_subnet [Crates] {stdin : String} {conf : FlannelConf} (env : SubnetEnv)
    (hconf : FlannelConf.parse stdin = some conf)
    (hread : ReadsBack (.ofMap (buildDelegate conf env))) :
    ∃ kind json d, resolveDelegate stdin (some env) "ADD" = .ok (kind, json) ∧
      Crates.jsonFromStr json = some (.ofMap d) ∧
      (∃ nc, NetConf.parse json = some nc ∧ nc.name = conf.name ∧
        nc.cniVersion = conf.cniVersion ∧ nc.ipam.ranges = [[⟨env.subnet, none⟩]] ∧
        nc.ipam.routes = [⟨env.network, none⟩] ∧ nc.ipam.dataDir = none) ∧
      ∀ k v, k ∉ ["name", "cniVersion", "ipam"] → conf.delegate.lookup k = some v →
        d.lookup k = some v := by
  have hresolve : resolveDelegate stdin (some env) "ADD" =
      .ok ((delegateType (buildDelegate conf env)).getD "bridge",
        Crates.jsonToString (.ofMap (buildDelegate conf env))) := by
    simp only [resolveDelegate, hconf, envFor]
  exact ⟨_, _, buildDelegate conf env, hresolve, hread,
    ⟨_, parse_buildDelegate hread, rfl, rfl, rfl, rfl, rfl⟩, fun k v => lookup_user⟩

/-- A delegate with an `ipam`, a `name` and a type of its own. -/
def ownIpamConf : String :=
  "\x7b\"name\":\"cbr0\",\"delegate\":\x7b\"type\":7,\"name\":\"mine\",\"mtu\":\"9000\"," ++
    "\"ipam\":\x7b\"type\":\"dhcp\"\x7d\x7d\x7d"

theorem ownIpamConf_parse : (@FlannelConf.parse Crates.compact ownIpamConf).map (fun conf =>
      (conf.name, (conf.delegate.lookup "mtu").bind Json.decodeString,
        decide (Plain (.ofMap (buildDelegate conf nodeEnv))))) =
    some ("cbr0", some "9000", true) := by
  decide +kernel

theorem ownIpam_replaced : ∃ kind json d nc,
    @resolveDelegate Crates.compact ownIpamConf (some nodeEnv) "ADD" = .ok (kind, json) ∧
    ofText json = some (.ofMap d) ∧ @NetConf.parse Crates.compact json = some nc ∧
    nc.name = "cbr0" ∧ nc.ipam.ranges = [[⟨"10.244.1.0/24", none⟩]] ∧
    (d.lookup "mtu").bind Json.decodeString = some "9000" := by
  let := Crates.compact
  obtain ⟨conf, hconf, he⟩ := Option.map_eq_some_iff.mp ownIpamConf_parse
  simp only [Prod.mk.injEq, decide_eq_true_eq] at he
  obtain ⟨hname, hmtu, hplain⟩ := he
  obtain ⟨j, hj, hstr⟩ := Option.bind_eq_some_iff.mp hmtu
  obtain ⟨kind, json, d, hjson, hd, ⟨nc, hnc, hncname, -, hranges, -, -⟩, hkeep⟩ :=
    delegate_stays_in_subnet nodeEnv hconf (ofText_jsonText hplain)
  refine ⟨kind, json, d, nc, hjson, hd, hnc, hncname.trans hname, hranges, ?_⟩
  rw [hkeep "mtu" j (by decide) hj, Option.bind_some, hstr]

end FlannelRs.DelegateIpam
