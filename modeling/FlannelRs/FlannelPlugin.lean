import FlannelRs.BridgePlugin

/-!
# The `flannel` plugin, and the configuration it hands to the `bridge` plugin

Its `subnetenv.rs`, `delegate.rs` and `main.rs`.
-/

namespace FlannelRs.FlannelPlugin
open RustText JsonValues JsonTexts CniTypes Bridge

/-- The file that `flanneld` writes. -/
structure SubnetEnv where
  network : String
  subnet : String
  mtu : ℕ
  ipmasq : Bool
  mtu_lt : mtu < 2 ^ 32

/-- The values of the keys that were seen so far. -/
structure SubnetKeys where
  network : Option String
  subnet : Option String
  mtu : Option { n : ℕ // n < 2 ^ 32 }
  ipmasq : Option Bool

/-- `str::split_once`. -/
def splitOnce (c : Char) (s : String) : Option (String × String) :=
  match s.toList.dropWhile (· ≠ c) with
  | [] => none
  | _ :: rest => some (String.ofList (s.toList.takeWhile (· ≠ c)), String.ofList rest)

def parseMtu (s : String) : Option { n : ℕ // n < 2 ^ 32 } :=
  (parseUnsigned (2 ^ 32) s).bind fun n => if h : n < 2 ^ 32 then some ⟨n, h⟩ else none

/-- One round of the loop of `SubnetEnv::parse`. -/
def SubnetKeys.line (keys : SubnetKeys) (line : String) : Option SubnetKeys :=
  let line := trim line
  if line = "" then some keys
  else do
    let (k, v) ← splitOnce '=' line
    match trim k with
    | "FLANNEL_NETWORK" => return { keys with network := some (trim v) }
    | "FLANNEL_SUBNET" => return { keys with subnet := some (trim v) }
    | "FLANNEL_MTU" => return { keys with mtu := some (← parseMtu (trim v)) }
    | "FLANNEL_IPMASQ" => return { keys with ipmasq := some (trim v = "true") }
    | _ => return keys

/-- `SubnetEnv::parse`. The text of its error is never read. -/
def SubnetEnv.parse (s : String) : Option SubnetEnv := do
  let keys ← (lines s).foldlM SubnetKeys.line ⟨none, none, none, none⟩
  let mtu ← keys.mtu
  return {
    network := ← keys.network
    subnet := ← keys.subnet
    mtu := mtu.1
    ipmasq := keys.ipmasq.getD false
    mtu_lt := mtu.2 }

/-- `FlannelConf`: the network configuration on the standard input. -/
structure FlannelConf where
  name : String
  cniVersion : String
  delegate : JsonMap

def FlannelConf.parse [Crates] (s : String) : Option FlannelConf := do
  let v := (← Crates.jsonFromStr s).toValue
  return {
    name := ((v.get? "name").bind Json.asStr).getD ""
    cniVersion := ((v.get? "cniVersion").bind Json.asStr).getD "0.3.1"
    delegate := ((v.get? "delegate").bind Json.asObject).getD ∅ }

/-- An entry the user did not set. -/
def insertAbsent (key : String) (value : Json) (d : JsonMap) : JsonMap :=
  if key ∈ d then d else d.insert key value

/-- The `ipam` object for the subnet of the node. -/
def hostLocalIpam (env : SubnetEnv) : Json :=
  .obj [("ranges", .arr [.arr [.obj [("subnet", .str env.subnet)]]]),
    ("routes", .arr [.obj [("dst", .str env.network)]]), ("type", .str "host-local")]

/-- The type of a delegate, if it is a string. -/
def delegateType (d : JsonMap) : Option String := (d.lookup "type").bind Json.asStr

/-- `build_delegate`. -/
def buildDelegate (conf : FlannelConf) (env : SubnetEnv) : JsonMap :=
  let d := conf.delegate.insert "name" (.str conf.name)
  let d := d.insert "cniVersion" (.str conf.cniVersion)
  let d := insertAbsent "type" (.str "bridge") d
  let d := insertAbsent "ipMasq" (.bool !env.ipmasq) d
  let d := insertAbsent "mtu" (.num (.int env.mtu)) d
  let d := if delegateType d = some "bridge" then insertAbsent "isGateway" (.bool true) d else d
  d.insert "ipam" (hostLocalIpam env)

def subnetEnvPath : String := "/run/flannel/subnet.env"

/-- The environment that a DEL goes on with when the file is missing. -/
def placeholderEnv : SubnetEnv := ⟨"", "", 0, false, by decide⟩

/-- The environment a command works with. -/
def envFor (env : Option SubnetEnv) (command : String) : Option SubnetEnv :=
  match env with
  | some e => some e
  | none => if command = "DEL" then some placeholderEnv else none

/-- `resolve_delegate`: the type and the configuration of the delegate. -/
def resolveDelegate [Crates] (stdin : String) (env : Option SubnetEnv) (command : String) :
    Except CniError (String × String) :=
  match FlannelConf.parse stdin with
  | none => .error ((CniError.new 6 "failed to decode network config").withDetails
      (Crates.jsonError "Value" stdin))
  | some conf =>
    match envFor env command with
    | none => .error
        (.new 11 "failed to read /run/flannel/subnet.env (flanneld not ready?)")
    | some env =>
      let d := buildDelegate conf env
      .ok ((delegateType d).getD "bridge", Crates.jsonToString (.ofMap d))

/-- `delegate_json`, on the files that can be read. -/
def delegateJson [Crates] (files : String → Option String) (stdin command : String) :
    Except CniError (String × String) :=
  resolveDelegate stdin ((files subnetEnvPath).bind SubnetEnv.parse) command

theorem lookup_insertAbsent (key : String) (value : Json) (d : JsonMap) :
    (insertAbsent key value d).lookup key = some ((d.lookup key).getD value) := by
  unfold insertAbsent
  by_cases h : key ∈ d
  · obtain ⟨j, hj⟩ := Option.isSome_iff_exists.mp (AList.lookup_isSome.mpr h)
    simp [h, hj]
  · simp [h, AList.lookup_eq_none.mpr h]

theorem lookup_insertAbsent_ne {k key : String} (h : k ≠ key) (value : Json) (d : JsonMap) :
    (insertAbsent key value d).lookup k = d.lookup k := by
  unfold insertAbsent
  split
  · rfl
  · rw [AList.lookup_insert_ne h]

/-- The configuration before its type is looked at. -/
def typedDelegate (conf : FlannelConf) (env : SubnetEnv) : JsonMap :=
  insertAbsent "mtu" (.num (.int env.mtu)) (insertAbsent "ipMasq" (.bool !env.ipmasq)
    (insertAbsent "type" (.str "bridge") ((conf.delegate.insert "name" (.str conf.name)).insert
      "cniVersion" (.str conf.cniVersion))))

/-- A key of the bridge plugin that is the user's alone. -/
theorem lookup_typedDelegate {conf : FlannelConf} {env : SubnetEnv} {k : String}
    (h : k ∉ ["name", "cniVersion", "type", "ipMasq", "mtu"]) :
    (typedDelegate conf env).lookup k = conf.delegate.lookup k := by
  simp only [List.mem_cons, List.not_mem_nil, or_false, not_or] at h
  obtain ⟨hname, hversion, htype, hmasq, hmtu⟩ := h
  rw [typedDelegate, lookup_insertAbsent_ne hmtu, lookup_insertAbsent_ne hmasq,
    lookup_insertAbsent_ne htype, AList.lookup_insert_ne hversion, AList.lookup_insert_ne hname]

theorem lookup_typedDelegate_name (conf : FlannelConf) (env : SubnetEnv) :
    (typedDelegate conf env).lookup "name" = some (.str conf.name) := by
  rw [typedDelegate, lookup_insertAbsent_ne (by decide), lookup_insertAbsent_ne (by decide),
    lookup_insertAbsent_ne (by decide), AList.lookup_insert_ne (by decide), AList.lookup_insert]

theorem lookup_typedDelegate_cniVersion (conf : FlannelConf) (env : SubnetEnv) :
    (typedDelegate conf env).lookup "cniVersion" = some (.str conf.cniVersion) := by
  rw [typedDelegate, lookup_insertAbsent_ne (by decide), lookup_insertAbsent_ne (by decide),
    lookup_insertAbsent_ne (by decide), AList.lookup_insert]

theorem lookup_typedDelegate_type (conf : FlannelConf) (env : SubnetEnv) :
    (typedDelegate conf env).lookup "type" =
      some ((conf.delegate.lookup "type").getD (.str "bridge")) := by
  rw [typedDelegate, lookup_insertAbsent_ne (by decide), lookup_insertAbsent_ne (by decide),
    lookup_insertAbsent, AList.lookup_insert_ne (by decide), AList.lookup_insert_ne (by decide)]

theorem lookup_typedDelegate_mtu (conf : FlannelConf) (env : SubnetEnv) :
    (typedDelegate conf env).lookup "mtu" =
      some ((conf.delegate.lookup "mtu").getD (.num (.int env.mtu))) := by
  rw [typedDelegate, lookup_insertAbsent, lookup_insertAbsent_ne (by decide),
    lookup_insertAbsent_ne (by decide), AList.lookup_insert_ne (by decide),
    AList.lookup_insert_ne (by decide)]

/-- The user's value of a field of the bridge plugin. -/
def given {α : Type} (d : JsonMap) (key : String) (decode : Json → Option α) : Option α :=
  (d.lookup key).bind decode

/-- A field that is absent or well typed. -/
def WellTyped {α : Type} (d : JsonMap) (key : String) (decode : Json → Option α) : Prop :=
  ∀ j, d.lookup key = some j → (decode j).isSome

/-- The delegates of the user that are for the bridge plugin. -/
structure ForBridge (d : JsonMap) : Prop where
  type : ∀ j, d.lookup "type" = some j → j.asStr = some "bridge"
  bridge : WellTyped d "bridge" Json.decodeString
  mtu : WellTyped d "mtu" (Json.decodeOption (Json.decodeUnsigned (2 ^ 32)))
  isGateway : WellTyped d "isGateway" Json.decodeBool
  isDefaultGateway : WellTyped d "isDefaultGateway" Json.decodeBool
  hairpinMode : WellTyped d "hairpinMode" Json.decodeBool

/-- What the bridge plugin is meant to read. -/
def intended (conf : FlannelConf) (env : SubnetEnv) : BridgeConf :=
  let d := conf.delegate
  { cniVersion := conf.cniVersion
    bridge := (given d "bridge" Json.decodeString).getD conf.name
    isGateway := (given d "isGateway" Json.decodeBool).getD true
    isDefaultGateway := (given d "isDefaultGateway" Json.decodeBool).getD false
    hairpinMode := (given d "hairpinMode" Json.decodeBool).getD false
    mtu := (given d "mtu" (Json.decodeOption (Json.decodeUnsigned (2 ^ 32)))).getD (some env.mtu)
    ipam := ⟨"host-local"⟩ }

theorem ForBridge.delegateType {conf : FlannelConf} {env : SubnetEnv}
    (h : ForBridge conf.delegate) : delegateType (typedDelegate conf env) = some "bridge" := by
  rw [FlannelPlugin.delegateType, lookup_typedDelegate_type]
  cases htype : conf.delegate.lookup "type" with
  | none => rfl
  | some j => exact h.type j htype

/-- The delegate of a bridge. -/
theorem ForBridge.buildDelegate {conf : FlannelConf} {env : SubnetEnv}
    (h : ForBridge conf.delegate) :
    buildDelegate conf env = (insertAbsent "isGateway" (.bool true)
      (typedDelegate conf env)).insert "ipam" (hostLocalIpam env) := by
  have htype : FlannelPlugin.delegateType (typedDelegate conf env) = some "bridge" :=
    h.delegateType
  simp only [typedDelegate] at htype ⊢
  simp [FlannelPlugin.buildDelegate, htype]

/-- Decoding a field of the user, or what is inserted when it is absent. -/
theorem WellTyped.decode_getD {α : Type} {d : JsonMap} {key : String} {decode : Json → Option α}
    (h : WellTyped d key decode) {value : Json} {a : α} (hvalue : decode value = some a) :
    decode ((d.lookup key).getD value) = some ((given d key decode).getD a) := by
  unfold given
  cases hj : d.lookup key with
  | none => simpa using hvalue
  | some j =>
    obtain ⟨b, hb⟩ := Option.isSome_iff_exists.mp (h j hj)
    simp [hb]

/-- Decoding a field of the user, or its default. -/
theorem WellTyped.defaulted {α : Type} {d : JsonMap} {key : String} {decode : Json → Option α}
    (h : WellTyped d key decode) (a : α) :
    defaulted a decode (d.lookup key) = some ((given d key decode).getD a) := by
  unfold given
  cases hj : d.lookup key with
  | none => rfl
  | some j =>
    obtain ⟨b, hb⟩ := Option.isSome_iff_exists.mp (h j hj)
    simp [JsonValues.defaulted, hb]

section

variable {conf : FlannelConf} {env : SubnetEnv}

theorem ForBridge.lookup_ne (h : ForBridge conf.delegate) {k : String} (hg : k ≠ "isGateway")
    (hi : k ≠ "ipam") :
    (FlannelPlugin.buildDelegate conf env).lookup k = (typedDelegate conf env).lookup k := by
  rw [h.buildDelegate, AList.lookup_insert_ne hi, lookup_insertAbsent_ne hg]

theorem ForBridge.lookup_user (h : ForBridge conf.delegate) {k : String}
    (hk : k ∉ ["name", "cniVersion", "type", "ipMasq", "mtu", "isGateway", "ipam"]) :
    (FlannelPlugin.buildDelegate conf env).lookup k = conf.delegate.lookup k := by
  simp only [List.mem_cons, List.not_mem_nil, or_false, not_or] at hk
  obtain ⟨hname, hversion, htype, hmasq, hmtu, hgateway, hipam⟩ := hk
  rw [h.lookup_ne hgateway hipam, lookup_typedDelegate]
  simp [hname, hversion, htype, hmasq, hmtu]

theorem ForBridge.lookup_isGateway (h : ForBridge conf.delegate) :
    (FlannelPlugin.buildDelegate conf env).lookup "isGateway" =
      some ((conf.delegate.lookup "isGateway").getD (.bool true)) := by
  rw [h.buildDelegate, AList.lookup_insert_ne (by decide), lookup_insertAbsent,
    lookup_typedDelegate (by decide)]

theorem ForBridge.lookup_ipam (h : ForBridge conf.delegate) :
    (FlannelPlugin.buildDelegate conf env).lookup "ipam" = some (hostLocalIpam env) := by
  rw [h.buildDelegate, AList.lookup_insert]

theorem decode_hostLocalIpam (env : SubnetEnv) :
    Ipam.decode (hostLocalIpam env) = some ⟨"host-local"⟩ := rfl

theorem decode_mtu (env : SubnetEnv) :
    Json.decodeOption (Json.decodeUnsigned (2 ^ 32)) (.num (.int env.mtu)) = some (some env.mtu) := by
  have hlt : (env.mtu : ℤ) < 4294967296 := by
    have := env.mtu_lt
    omega
  simp [Json.decodeOption, Json.decodeUnsigned, hlt]

/-- The network name is inserted under the alias of the field `bridge`. -/
theorem ForBridge.find_bridge (h : ForBridge conf.delegate) :
    Field.find ⟨["bridge", "name"], true⟩ (FlannelPlugin.buildDelegate conf env).members =
      if conf.delegate.lookup "bridge" = none then some (some (.str conf.name)) else none := by
  have hname : (FlannelPlugin.buildDelegate conf env).lookup "name" = some (.str conf.name) := by
    rw [h.lookup_ne (by decide) (by decide), lookup_typedDelegate_name]
  have hbridge : (FlannelPlugin.buildDelegate conf env).lookup "bridge" =
      conf.delegate.lookup "bridge" := h.lookup_user (by decide)
  cases hj : conf.delegate.lookup "bridge" with
  | none =>
    rw [if_pos rfl]
    refine Field.find_given (k := "name") (by simp) hname ?_
    simp [hbridge, hj]
  | some j =>
    rw [if_neg (by simp)]
    exact Field.find_twice (k := "bridge") (l := "name") (by simp) (by simp) (by decide)
      (hbridge.trans hj) hname

theorem ForBridge.decode (h : ForBridge conf.delegate) :
    BridgeConf.decode (.ofMap (FlannelPlugin.buildDelegate conf env)) =
      if conf.delegate.lookup "bridge" = none then some (intended conf env) else none := by
  have hversion : (FlannelPlugin.buildDelegate conf env).lookup "cniVersion" =
      some (.str conf.cniVersion) := by
    rw [h.lookup_ne (by decide) (by decide), lookup_typedDelegate_cniVersion]
  have hmtu : (FlannelPlugin.buildDelegate conf env).lookup "mtu" =
      some ((conf.delegate.lookup "mtu").getD (.num (.int env.mtu))) := by
    rw [h.lookup_ne (by decide) (by decide), lookup_typedDelegate_mtu]
  have hdefault : (FlannelPlugin.buildDelegate conf env).lookup "isDefaultGateway" =
      conf.delegate.lookup "isDefaultGateway" := h.lookup_user (by decide)
  have hhairpin : (FlannelPlugin.buildDelegate conf env).lookup "hairpinMode" =
      conf.delegate.lookup "hairpinMode" := h.lookup_user (by decide)
  by_cases hbridge : conf.delegate.lookup "bridge" = none
  · have hnone : given conf.delegate "bridge" Json.decodeString = none := by simp [given, hbridge]
    have hgateway : Json.decodeBool ((conf.delegate.lookup "isGateway").getD (.bool true)) =
        some ((given conf.delegate "isGateway" Json.decodeBool).getD true) :=
      h.isGateway.decode_getD rfl
    have hmtu' := h.mtu.decode_getD (decode_mtu env)
    simp [-Nat.reducePow, BridgeConf.decode, Json.ofMap, Json.fields, h.find_bridge, hbridge,
      hversion, hmtu, h.lookup_isGateway, h.lookup_ipam, hdefault, hhairpin, required,
      h.isDefaultGateway.defaulted, h.hairpinMode.defaulted]
    simp [-Nat.reducePow, defaulted, Json.decodeString, hgateway, hmtu', decode_hostLocalIpam,
      intended, hnone]
  · simp [BridgeConf.decode, Json.ofMap, Json.fields, h.find_bridge, hbridge, hversion]

end

/-- What the code relies on: `serde_json` reads the value as it wrote it. -/
def ReadsBack [Crates] (j : Json) : Prop := Crates.jsonFromStr (Crates.jsonToString j) = some j

/-- For every configuration with a delegate for the bridge plugin, and every environment the
command works with, the bridge plugin reads the intended configuration exactly if the user gave
no `bridge`. -/
theorem bridge_reads_intended_iff [Crates] {stdin command : String} {conf : FlannelConf}
    {env : SubnetEnv} {file : Option SubnetEnv} (hconf : FlannelConf.parse stdin = some conf)
    (hfor : ForBridge conf.delegate) (henv : envFor file command = some env)
    (hread : ReadsBack (.ofMap (buildDelegate conf env))) :
    (∃ json, resolveDelegate stdin file command = .ok ("bridge", json) ∧
      BridgeConf.parse json = some (intended conf env)) ↔
    conf.delegate.lookup "bridge" = none := by
  have hresolve : resolveDelegate stdin file command =
      .ok ("bridge", Crates.jsonToString (.ofMap (buildDelegate conf env))) := by
    have htype : delegateType (buildDelegate conf env) = some "bridge" := by
      rw [delegateType, hfor.lookup_ne (by decide) (by decide)]
      exact hfor.delegateType
    simp [resolveDelegate, hconf, henv, htype]
  have hparse : BridgeConf.parse (Crates.jsonToString (.ofMap (buildDelegate conf env))) =
      if conf.delegate.lookup "bridge" = none then some (intended conf env) else none := by
    rw [BridgeConf.parse, hread, Option.bind_some, hfor.decode]
  constructor
  · rintro ⟨json, hjson, hread⟩
    rw [hresolve] at hjson
    obtain ⟨-, rfl⟩ := Prod.mk.inj (Except.ok.inj hjson)
    rw [hparse] at hread
    by_contra hbridge
    rw [if_neg hbridge] at hread
    cases hread
  · intro hbridge
    exact ⟨_, hresolve, by rw [hparse, if_pos hbridge]⟩

def nodeEnv : SubnetEnv := ⟨"10.244.0.0/16", "10.244.1.0/24", 1450, true, by decide⟩

def hairpinConf : String :=
  "\x7b\"name\":\"cbr0\",\"delegate\":\x7b\"hairpinMode\":true\x7d\x7d"

theorem hairpinConf_parse : (@FlannelConf.parse Crates.compact hairpinConf).map (fun conf =>
      ((conf.name, conf.cniVersion), conf.delegate.keys,
        (conf.delegate.lookup "hairpinMode").bind Json.decodeBool,
        decide (Plain (.ofMap (buildDelegate conf nodeEnv))))) =
    some (("cbr0", "0.3.1"), ["hairpinMode"], some true, true) := by
  decide +kernel

theorem bridge_reads_intended_hairpin : ∃ json,
    @resolveDelegate Crates.compact hairpinConf (some nodeEnv) "ADD" = .ok ("bridge", json) ∧
    @BridgeConf.parse Crates.compact json =
      some ⟨"0.3.1", "cbr0", true, false, true, some 1450, ⟨"host-local"⟩⟩ := by
  let := Crates.compact
  obtain ⟨conf, hconf, he⟩ := Option.map_eq_some_iff.mp hairpinConf_parse
  simp only [Prod.mk.injEq, decide_eq_true_eq] at he
  obtain ⟨⟨hname, hversion⟩, hkeys, hhairpin, hplain⟩ := he
  have habsent : ∀ k, k ≠ "hairpinMode" → conf.delegate.lookup k = none := by
    intro k hk
    rw [AList.lookup_eq_none, AList.mem_keys, hkeys, List.mem_singleton]
    exact hk
  have hwell : ∀ {α : Type} (k : String) (decode : Json → Option α), k ≠ "hairpinMode" →
      WellTyped conf.delegate k decode := by
    intro α k decode hk j hj
    rw [habsent k hk] at hj
    cases hj
  have hfor : ForBridge conf.delegate := by
    refine ⟨?_, hwell _ _ (by decide), hwell _ _ (by decide), hwell _ _ (by decide),
      hwell _ _ (by decide), ?_⟩
    · intro j hj
      rw [habsent _ (by decide)] at hj
      cases hj
    · intro j hj
      rw [hj, Option.bind_some] at hhairpin
      rw [hhairpin]
      rfl
  have henv : envFor (some nodeEnv) "ADD" = some nodeEnv := rfl
  obtain ⟨json, hjson, hparse⟩ := (bridge_reads_intended_iff hconf hfor henv
    (ofText_jsonText hplain)).mpr (habsent _ (by decide))
  refine ⟨json, hjson, hparse.trans ?_⟩
  simp [intended, given, habsent, hhairpin, hname, hversion, nodeEnv]

def userBridgeConf : String :=
  "\x7b\"name\":\"cbr0\",\"delegate\":\x7b\"bridge\":\"br0\"\x7d\x7d"

/-- With a `bridge` of the user's own, the field is given twice. -/
theorem bridge_rejects_user_bridge : ∃ json,
    @resolveDelegate Crates.compact userBridgeConf (some nodeEnv) "ADD" = .ok ("bridge", json) ∧
    @BridgeConf.parse Crates.compact json = none := by
  have h : (@resolveDelegate Crates.compact userBridgeConf (some nodeEnv) "ADD").toOption.map
      (fun d => (d.1, @BridgeConf.parse Crates.compact d.2)) = some ("bridge", none) := by
    decide +kernel
  cases hd : @resolveDelegate Crates.compact userBridgeConf (some nodeEnv) "ADD" with
  | error e => simp [hd, Except.toOption] at h
  | ok d =>
    obtain ⟨hkind, hparse⟩ : d.1 = "bridge" ∧ @BridgeConf.parse Crates.compact d.2 = none := by
      simpa [hd, Except.toOption] using h
    exact ⟨d.2, by rw [← hkind], hparse⟩

end FlannelRs.FlannelPlugin
