import FlannelRs.Ipv4Addresses
import FlannelRs.JsonTexts

/-!
# The shared `cni` crate: invocation, errors, network configuration and result
-/

namespace FlannelRs.CniTypes
open Ipv4Addresses JsonValues JsonTexts RustText

/-- The third-party crates as the code calls them: `serde_json`'s syntax in both
directions and the text of its errors, and `ipnetwork`'s parser. -/
class Crates where
  jsonFromStr : String → Option Json
  jsonToString : Json → String
  /-- The error for reading the text as the named type. -/
  jsonError : String → String → String
  parseNetwork : String → Option Ipv4Network

/-- An error of `rtnetlink`. An answer of the kernel has a code. -/
structure NlError where
  code : Option ℤ
  text : String

/-- `CniArgs`: the invocation, from the environment variables. -/
structure CniArgs where
  command : String
  containerId : String
  netns : String
  ifname : String
  args : String
  path : String
  deriving DecidableEq

/-- `CniError`. -/
structure CniError where
  cniVersion : String
  code : ℕ
  msg : String
  details : Option String
  deriving DecidableEq

def CniError.new (code : ℕ) (msg : String) : CniError := ⟨"0.3.1", code, msg, none⟩

def CniError.withDetails (e : CniError) (details : String) : CniError :=
  { e with details := some details }

/-- `VersionResult::supported().to_json()`. -/
def versionResult [Crates] : String :=
  Crates.jsonToString (.obj [("cniVersion", .str "0.3.1"),
    ("supportedVersions", .arr [.str "0.3.0", .str "0.3.1"])])

/-- `CniError::to_json`. -/
def CniError.toJson [Crates] (e : CniError) : String :=
  Crates.jsonToString (.obj ([("cniVersion", .str e.cniVersion), ("code", .num (.int e.code)),
    ("msg", .str e.msg)] ++ (e.details.map fun d => ("details", Json.str d)).toList))

/-- `DelegateOutput`: what a delegate printed, and whether it exited with success. -/
structure DelegateOutput where
  stdout : String
  success : Bool

/-- What the `main` of a plugin prints and exits with for the result of its command. -/
def pluginOutput [Crates] : Except CniError String → DelegateOutput
  | .ok out => ⟨out, true⟩
  | .error e => ⟨e.toJson, false⟩

/-- `CniArgs::from_map`, on a lookup of the environment. -/
def CniArgs.fromMap (env : String → Option String) : Except CniError CniArgs :=
  let get := fun k => (env k).getD ""
  match (env "CNI_COMMAND").filter (· ≠ "") with
  | none => .error (.new 4 "CNI_COMMAND missing")
  | some command => .ok {
      command
      containerId := get "CNI_CONTAINERID"
      netns := get "CNI_NETNS"
      ifname := get "CNI_IFNAME"
      args := get "CNI_ARGS"
      path := get "CNI_PATH" }

structure Route where
  dst : String
  gw : Option String
  deriving DecidableEq

structure RangeConfig where
  subnet : String
  gateway : Option String
  deriving DecidableEq

structure IpamConfig where
  kind : String
  ranges : List (List RangeConfig)
  routes : List Route
  dataDir : Option String
  deriving DecidableEq

/-- `NetConf`: the network configuration on the standard input of the IPAM plugin. -/
structure NetConf where
  cniVersion : String
  name : String
  ipam : IpamConfig
  deriving DecidableEq

def Route.decode (j : Json) : Option Route :=
  match j.fields [⟨["dst"], false⟩, ⟨["gw"], true⟩] with
  | some [dst, gw] => do
    return {
      dst := ← required Json.decodeString dst
      gw := ← defaulted none (Json.decodeOption Json.decodeString) gw }
  | _ => none

def Route.encode (r : Route) : Json :=
  .obj (("dst", .str r.dst) :: (r.gw.map fun g => ("gw", Json.str g)).toList)

def RangeConfig.decode (j : Json) : Option RangeConfig :=
  match j.fields [⟨["subnet"], false⟩, ⟨["gateway"], true⟩] with
  | some [subnet, gateway] => do
    return {
      subnet := ← required Json.decodeString subnet
      gateway := ← defaulted none (Json.decodeOption Json.decodeString) gateway }
  | _ => none

def IpamConfig.decode (j : Json) : Option IpamConfig :=
  match j.fields [⟨["type"], true⟩, ⟨["ranges"], true⟩, ⟨["routes"], true⟩,
      ⟨["dataDir"], true⟩] with
  | some [kind, ranges, routes, dataDir] => do
    return {
      kind := ← defaulted "" Json.decodeString kind
      ranges := ← defaulted [] (Json.decodeVec (Json.decodeVec RangeConfig.decode)) ranges
      routes := ← defaulted [] (Json.decodeVec Route.decode) routes
      dataDir := ← defaulted none (Json.decodeOption Json.decodeString) dataDir }
  | _ => none

def NetConf.decode (j : Json) : Option NetConf :=
  match j.fields [⟨["cniVersion"], true⟩, ⟨["name"], true⟩, ⟨["ipam"], false⟩] with
  | some [cniVersion, name, ipam] => do
    return {
      cniVersion := ← defaulted "" Json.decodeString cniVersion
      name := ← defaulted "" Json.decodeString name
      ipam := ← required IpamConfig.decode ipam }
  | _ => none

/-- `NetConf::parse`. -/
def NetConf.parse [Crates] (s : String) : Option NetConf :=
  (Crates.jsonFromStr s).bind NetConf.decode

structure IpResult where
  version : String
  address : String
  gateway : Option String
  deriving DecidableEq

/-- `CniResult`: what a plugin prints when it succeeds. -/
structure CniResult where
  cniVersion : String
  ips : List IpResult
  routes : List Route
  deriving DecidableEq

/-- A missing `gateway` is `None` in an object, as for every `Option` field, but an array
has to give it: the field has no `#[serde(default)]`. -/
def IpResult.decode (j : Json) : Option IpResult :=
  match j.fields [⟨["version"], false⟩, ⟨["address"], false⟩, ⟨["gateway"], false⟩] with
  | some [version, address, gateway] => do
    return {
      version := ← required Json.decodeString version
      address := ← required Json.decodeString address
      gateway := ← defaulted none (Json.decodeOption Json.decodeString) gateway }
  | _ => none

def IpResult.encode (r : IpResult) : Json :=
  .obj ([("version", .str r.version), ("address", .str r.address)] ++
    (r.gateway.map fun g => ("gateway", Json.str g)).toList)

def CniResult.decode (j : Json) : Option CniResult :=
  match j.fields [⟨["cniVersion"], false⟩, ⟨["ips"], false⟩, ⟨["routes"], true⟩] with
  | some [cniVersion, ips, routes] => do
    return {
      cniVersion := ← required Json.decodeString cniVersion
      ips := ← required (Json.decodeVec IpResult.decode) ips
      routes := ← defaulted [] (Json.decodeVec Route.decode) routes }
  | _ => none

def CniResult.encode (r : CniResult) : Json :=
  .obj ([("cniVersion", .str r.cniVersion), ("ips", .arr (r.ips.map IpResult.encode))] ++
    if r.routes = [] then [] else [("routes", .arr (r.routes.map Route.encode))])

/-- `CniResult::to_json`. -/
def CniResult.toJson [Crates] (r : CniResult) : String :=
  Crates.jsonToString r.encode

/-- `CniResult::parse`. -/
def CniResult.parse [Crates] (s : String) : Option CniResult :=
  (Crates.jsonFromStr s).bind CniResult.decode

@[simp] theorem Route.decode_encode (r : Route) : Route.decode r.encode = some r := by
  cases r with
  | mk dst gw => cases gw <;> rfl

@[simp] theorem IpResult.decode_encode (r : IpResult) :
    IpResult.decode r.encode = some r := by
  cases r with
  | mk version address gateway => cases gateway <;> rfl

theorem decodeVec_encode {α : Type} {decode : Json → Option α} {encode : α → Json}
    (h : ∀ a, decode (encode a) = some a) (xs : List α) :
    Json.decodeVec decode (.arr (xs.map encode)) = some xs := by
  induction xs with
  | nil => rfl
  | cons x xs ih =>
    simp only [Json.decodeVec] at ih
    simp [Json.decodeVec, h, ih]

/-- A result is decoded as it was encoded. -/
@[simp] theorem CniResult.decode_encode (r : CniResult) :
    CniResult.decode r.encode = some r := by
  cases r with
  | mk version ips routes =>
    have hips := decodeVec_encode IpResult.decode_encode ips
    have hroutes := decodeVec_encode Route.decode_encode routes
    by_cases h : routes = []
    · subst h
      simp [CniResult.decode, CniResult.encode, Json.fields, Field.find, required, defaulted,
        Json.decodeString, hips]
    · simp [CniResult.decode, CniResult.encode, Json.fields, Field.find, required, defaulted,
        Json.decodeString, hips, hroutes, h]

/-- What the code relies on: `serde_json` reads a result as it wrote it, and `ipnetwork`
reads an address and a length. -/
structure Crates.Lawful [Crates] : Prop where
  json : ∀ r : CniResult, Crates.jsonFromStr (Crates.jsonToString r.encode) = some r.encode
  network : ∀ (ip : Ipv4Addr) (len : ℕ) (h : len ≤ 32),
    Crates.parseNetwork (ip.toString ++ "/" ++ len.repr) = some ⟨ip, len, h⟩

/-- An address with a length, or without one. -/
def parseCidr (s : String) : Option Ipv4Network :=
  match splitOn '/' s with
  | [addr, len] => do
    let ip ← parseIpv4 addr
    let n ← parseUnsigned 256 len
    if h : n ≤ 32 then return ⟨ip, n, h⟩ else none
  | [addr] => (parseIpv4 addr).map fun ip => ⟨ip, 32, Ipv4Network.whole_le⟩
  | _ => none

@[reducible] def Crates.compact : Crates where
  jsonFromStr := ofText
  jsonToString := jsonText
  jsonError _ _ := "expected value"
  parseNetwork := parseCidr

theorem parseCidr_toString (ip : Ipv4Addr) {len : ℕ} (h : len ≤ 32) :
    parseCidr (ip.toString ++ "/" ++ len.repr) = some ⟨ip, len, h⟩ := by
  have hsplit : splitOn '/' (ip.toString ++ "/" ++ len.repr) = [ip.toString, len.repr] :=
    splitOn_pair rfl (ip.not_mem_toString (by decide) (by decide)) (not_mem_repr (by decide))
  have hlen : parseUnsigned 256 len.repr = some len := parseUnsigned_repr (by omega)
  simp [parseCidr, hsplit, hlen, h]

theorem CniResult.plain_encode (r : CniResult) : Plain r.encode := by
  have hip : ∀ i : IpResult, Plain i.encode := by
    rintro ⟨version, address, gateway⟩
    cases gateway <;> simp [IpResult.encode]
  have hroute : ∀ i : Route, Plain i.encode := by
    rintro ⟨dst, gw⟩
    cases gw <;> simp [Route.encode]
  by_cases h : r.routes = [] <;> simp [CniResult.encode, h, hip, hroute]

theorem Crates.compact_lawful : @Crates.Lawful Crates.compact := by
  let := Crates.compact
  exact ⟨fun r => ofText_jsonText r.plain_encode, fun ip len h => parseCidr_toString ip h⟩

/-- A configuration of the network `cbr0`. -/
def cbr0Conf : String :=
  "\x7b\"name\":\"cbr0\",\"ipam\":\x7b\"type\":\"host-local\"," ++
    "\"ranges\":[[\x7b\"subnet\":\"10.244.1.0/24\"\x7d]]\x7d\x7d"

theorem CniResult.parse_toJson [Crates] (hc : Crates.Lawful) (r : CniResult) :
    CniResult.parse r.toJson = some r := by
  simp [CniResult.parse, CniResult.toJson, hc.json]

end FlannelRs.CniTypes
