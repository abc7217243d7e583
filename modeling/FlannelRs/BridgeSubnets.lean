import FlannelRs.BridgePlugin

/-!
# The subnets of the bridge and of the pod

The address of the IPAM result is read twice: `ip_plan` gives it to `ipnetwork`, and for the
bridge `wire_pod` cuts it at the slash.
-/

namespace FlannelRs.BridgeSubnets
open InteractionPrograms Ipv4Addresses RustText CniTypes Bridge

/-- The mask of a network, whose first `len` bits are set. -/
def netmask (len : ℕ) : Ipv4Addr := .ofNat (2 ^ 32 - 2 ^ (32 - len))

/-- The pieces between the slashes of a text for the network. -/
inductive Spelling (net : Ipv4Network) : List String → Prop
  | bare (addr : String) (haddr : parseIpv4 addr = some net.ip) (hlen : net.len = 32) :
      Spelling net [addr]
  | length (addr len : String) (haddr : parseIpv4 addr = some net.ip)
      (hlen : parseUnsigned 256 len = some net.len) : Spelling net [addr, len]
  | mask (addr mask : String) (haddr : parseIpv4 addr = some net.ip)
      (hmask : parseIpv4 mask = some (netmask net.len)) : Spelling net [addr, mask]

/-- The texts that `ipnetwork` accepts: an address, and after a slash a length or a mask. -/
def CidrTexts [Crates] : Prop :=
  ∀ s net, Crates.parseNetwork s = some net → Spelling net (splitOn '/' s)

/-- After the slash stands a number, or the mask of 24 bits. -/
def NamesLength (address : String) : Prop :=
  ∃ part, (splitOn '/' address)[1]? = some part ∧
    ((parseUnsigned 256 part).isSome ∨ parseIpv4 part = some (netmask 24))

/-- A request that gives the bridge its address gives it the gateway and the length of the
plan. -/
def Agrees (plan : IpPlan) : BridgeOp → Prop
  | .setBridgeGateway _ gw len => plan.gateway = some gw ∧ len = plan.len
  | _ => True

theorem cidrTexts_compact : @CidrTexts Crates.compact := by
  intro s net hs
  have hs : parseCidr s = some net := hs
  unfold parseCidr at hs
  split at hs
  · rename_i addr len hsplit
    simp only [Option.bind_eq_bind, Option.bind_eq_some_iff] at hs
    obtain ⟨ip, hip, n, hn, hs⟩ := hs
    split at hs
    · obtain rfl := Option.some.inj hs
      exact hsplit ▸ .length addr len hip hn
    · cases hs
  · rename_i addr hsplit
    obtain ⟨ip, hip, rfl⟩ := Option.map_eq_some_iff.mp hs
    exact hsplit ▸ .bare addr hip rfl
  · cases hs

theorem toNat_netmask {len : ℕ} : (netmask len).toNat = 2 ^ 32 - 2 ^ (32 - len) := by
  have hpos : 0 < 2 ^ (32 - len) := Nat.two_pow_pos _
  exact Ipv4Addr.toNat_ofNat (by omega)

theorem netmask_inj {a b : ℕ} (ha : a ≤ 32) (hb : b ≤ 32) (h : netmask a = netmask b) : a = b := by
  have hnat : (netmask a).toNat = (netmask b).toNat := congrArg _ h
  have hle : ∀ len : ℕ, 2 ^ (32 - len) ≤ 2 ^ 32 := fun len => Nat.pow_le_pow_right (by omega) (by omega)
  have hea := hle a
  have heb := hle b
  rw [toNat_netmask, toNat_netmask] at hnat
  have hpow : 2 ^ (32 - a) = 2 ^ (32 - b) := by omega
  have hexp := Nat.pow_right_injective (le_refl 2) hpow
  omega

/-- A mask is no number. -/
theorem parseUnsigned_of_parseIpv4 {s : String} {ip : Ipv4Addr} (h : parseIpv4 s = some ip) :
    parseUnsigned 256 s = none := by
  have hdot : '.' ∈ s.toList := by
    rw [eq_toString_of_parseIpv4 h]
    simp [Ipv4Addr.toString]
  cases hn : parseUnsigned 256 s with
  | none => rfl
  | some n => exact absurd (mem_of_parseUnsigned hn hdot) (by decide)

/-- The two readings of one address. -/
theorem gatewayLen_eq_iff {net : Ipv4Network} {address : String}
    (h : Spelling net (splitOn '/' address)) :
    gatewayLen address = net.len ↔ NamesLength address := by
  unfold gatewayLen NamesLength
  generalize splitOn '/' address = pieces at h
  cases h with
  | bare addr haddr hlen => simp [hlen]
  | length addr len haddr hlen => simp [hlen]
  | mask addr mask haddr hmask =>
    have hnone := parseUnsigned_of_parseIpv4 hmask
    simp only [List.getElem?_cons_succ, List.getElem?_cons_zero, Option.bind_some, hnone,
      Option.getD_none, Option.some.injEq, exists_eq_left', Option.isSome_none,
      Bool.false_eq_true, false_or, hmask]
    constructor
    · exact fun hlen => by rw [hlen]
    · exact fun hlen => netmask_inj (by omega) net.len_le hlen.symm

variable [Crates] {text : String} {result : CniResult} {plan : IpPlan}

/-- Both take the same gateway. -/
theorem bridgeGateway_eq (h : ipPlan result = .ok plan) {gw : Ipv4Addr}
    (hgw : plan.gateway = some gw) : ∃ ip, result.ips.head? = some ip ∧
      bridgeGateway result = some (gw, gatewayLen ip.address) := by
  obtain ⟨ip, net, hip, -, -, -, hgateway⟩ := ipPlan_ok h
  refine ⟨ip, hip, ?_⟩
  rw [hgw] at hgateway
  have hparse : ip.gateway.bind parseIpv4 = some gw := by
    cases hg : ip.gateway with
    | none => simp [planGateway, hg] at hgateway
    | some g =>
      cases hp : parseIpv4 g with
      | none => simp [planGateway, hg, hp] at hgateway
      | some x =>
        simp only [planGateway, hg, hp] at hgateway
        rw [← Option.some.inj (Except.ok.inj hgateway), Option.bind_some, hp]
  simp [bridgeGateway, hip, hparse]

/-- Of the requests of steps 3 to 6 only those of step 6 can differ from the plan. -/
theorem uses_wirePod_iff (hresult : CniResult.parse text = some result)
    (hplan : ipPlan result = .ok plan) {conf : BridgeConf} (hconf : conf.isGateway = true)
    (bridgeIdx : ℕ) (args : CniArgs) :
    (wirePod bridgeIdx conf args text).run.Uses (Agrees plan) ↔
      (setGateway bridgeIdx result).Uses (Agrees plan) := by
  unfold wirePod
  rw [hresult, Program.run_pure_bind]
  simp only [Program.run_pure_bind, hplan, Except.mapError, hconf, if_true]
  constructor
  · intro h
    have hlast := ((((h.2 (.ok (0, 0))).2 (.ok 0)).2 (.ok ())).2 (.ok ())).2 (.ok ())
    exact Program.Uses.of_bind hlast
  · intro h
    refine .exceptBind (uses_orFail (.send trivial)) fun ends => ?_
    refine .exceptBind (uses_orFail (.send trivial)) fun netnsFd => ?_
    refine .exceptBind (uses_orDelLink (.send trivial) trivial) fun _ => ?_
    refine .exceptBind (uses_orDelLink (.send trivial) trivial) fun _ => ?_
    exact .exceptBind (uses_orDelLink (.send trivial) trivial) fun _ => .lift h

/-- For every result with a gateway that both sides accept: whatever the answers, the bridge is
given the gateway and the length that the pod is given exactly if the address names its length
after a slash, by a number or by the mask of 24 bits. -/
theorem bridge_agrees_iff (hcidr : CidrTexts) (hresult : CniResult.parse text = some result)
    (hplan : ipPlan result = .ok plan) (hgateway : plan.gateway.isSome = true) (conf : BridgeConf)
    (hconf : conf.isGateway = true) (bridgeIdx : ℕ) (args : CniArgs) :
    (wirePod bridgeIdx conf args text).run.Uses (Agrees plan) ↔
      ∀ ip, result.ips.head? = some ip → NamesLength ip.address := by
  obtain ⟨gw, hgw⟩ := Option.isSome_iff_exists.mp hgateway
  obtain ⟨ip, hip, hbridge⟩ := bridgeGateway_eq hplan hgw
  obtain ⟨ip', net, hip', hnet, -, hlen, -⟩ := ipPlan_ok hplan
  obtain rfl := Option.some.inj (hip.symm.trans hip')
  have hagree := gatewayLen_eq_iff (hcidr ip.address net hnet)
  rw [uses_wirePod_iff hresult hplan hconf, setGateway, hbridge]
  constructor
  · rintro ⟨⟨-, hsame⟩, -⟩ x hx
    obtain rfl := Option.some.inj (hip.symm.trans hx)
    exact hagree.mp (hsame.trans hlen)
  · intro h
    exact ⟨⟨hgw, (hagree.mpr (h ip hip)).trans hlen.symm⟩, fun _ => .send trivial⟩

/-- A bridge with a gateway, for an IPAM plugin that names the same address in two ways. -/
def gatewayConf : BridgeConf := ⟨"0.3.1", "cni0", true, false, false, none, ⟨"static"⟩⟩

def podArgs : CniArgs := ⟨"ADD", "c1", "/run/netns/c1", "eth0", "", "/opt/cni/bin"⟩

def ipamResult (address : String) : CniResult where
  cniVersion := "0.3.1"
  ips := [⟨"4", address, some "10.244.1.1"⟩]
  routes := []

omit [Crates] in
theorem exists_text (address : String) :
    ∃ text, @CniResult.parse Crates.compact text = some (ipamResult address) :=
  ⟨_, @CniResult.parse_toJson Crates.compact Crates.compact_lawful _⟩

omit [Crates] in
theorem planned {address : String} {len : ℕ}
    (h : (@ipPlan Crates.compact (ipamResult address)).toOption.map
      (fun plan => (plan.len, plan.gateway)) = some (len, some (.ofOctets 10 244 1 1))) :
    ∃ plan, @ipPlan Crates.compact (ipamResult address) = .ok plan ∧ plan.len = len ∧
      plan.gateway = some (.ofOctets 10 244 1 1) := by
  obtain ⟨plan, hplan, he⟩ := Option.map_eq_some_iff.mp h
  obtain ⟨hlen, hgateway⟩ := Prod.mk.inj he
  refine ⟨plan, ?_, hlen, hgateway⟩
  cases hok : @ipPlan Crates.compact (ipamResult address) with
  | error e =>
    rw [hok] at hplan
    cases hplan
  | ok plan' =>
    rw [hok] at hplan
    rw [← Option.some.inj hplan]

omit [Crates] in
theorem bridge_agrees_number : ∃ text plan,
    @CniResult.parse Crates.compact text = some (ipamResult "10.244.1.5/24") ∧
    @ipPlan Crates.compact (ipamResult "10.244.1.5/24") = .ok plan ∧ plan.len = 24 ∧
    (@wirePod Crates.compact 3 gatewayConf podArgs text).run.Uses (Agrees plan) := by
  obtain ⟨text, hresult⟩ := exists_text "10.244.1.5/24"
  obtain ⟨plan, hplan, hlen, hgateway⟩ := @planned "10.244.1.5/24" 24 (by decide +kernel)
  have hsome : plan.gateway.isSome = true := Option.isSome_iff_exists.mpr ⟨_, hgateway⟩
  refine ⟨text, plan, hresult, hplan, hlen, ?_⟩
  refine (@bridge_agrees_iff Crates.compact _ _ _ cidrTexts_compact hresult hplan hsome
    gatewayConf rfl 3 podArgs).mpr fun ip hip => ?_
  obtain rfl := Option.some.inj hip
  exact ⟨"24", by decide +kernel, .inl (by decide +kernel)⟩

omit [Crates] in
/-- The pod has an address without neighbours, and the bridge one with 256 of them. -/
theorem bridge_disagrees_bare : ∃ text plan,
    @CniResult.parse Crates.compact text = some (ipamResult "10.244.1.5") ∧
    @ipPlan Crates.compact (ipamResult "10.244.1.5") = .ok plan ∧
    plan.gateway = some (.ofOctets 10 244 1 1) ∧ plan.len = 32 ∧
    ¬ (@wirePod Crates.compact 3 gatewayConf podArgs text).run.Uses (Agrees plan) := by
  obtain ⟨text, hresult⟩ := exists_text "10.244.1.5"
  obtain ⟨plan, hplan, hlen, hgateway⟩ := @planned "10.244.1.5" 32 (by decide +kernel)
  obtain ⟨ip, hip, hbridge⟩ := @bridgeGateway_eq Crates.compact _ _ hplan _ hgateway
  obtain rfl := Option.some.inj hip
  have hread : gatewayLen "10.244.1.5" = 24 := by decide +kernel
  refine ⟨text, plan, hresult, hplan, hgateway, hlen, ?_⟩
  rw [@uses_wirePod_iff Crates.compact _ _ _ hresult hplan _ rfl, setGateway, hbridge, hread]
  rintro ⟨⟨-, hsame⟩, -⟩
  omega

end FlannelRs.BridgeSubnets
