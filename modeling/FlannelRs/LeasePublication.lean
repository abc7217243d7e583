import FlannelRs.FlanneldPeers

/-!
# The lease that a node publishes, and what its peers read

`flanneld` writes the lease of its node into the annotations of the node object. On the
other nodes it is read from there. Both directions are in `annotation.rs` and `kube_mgr.rs`, the
text of a hardware address is from `netlink.rs`.
-/

namespace FlannelRs.LeasePublication
open RustText JsonValues CniTypes Flanneld

/-- A value of `BackendData`, as it is encoded. -/
def backendData (vtepMac : String) : Json := .obj [("VtepMAC", .str vtepMac)]

/-- `BackendData::to_json`. -/
def vtepMacToJson [Crates] (vtepMac : String) : String :=
  Crates.jsonToString (backendData vtepMac)

/-- `{b:02x}`. -/
def hexByte (b : Fin 256) : List Char := [Nat.digitChar (b / 16), Nat.digitChar (b % 16)]

/-- The text that `Netlink::link_mac` makes of the address of a link. -/
def linkMac (bytes : List (Fin 256)) : String :=
  String.ofList ([':'].intercalate (bytes.map hexByte))

/-- The `annotations` of `build_publish_patch`. -/
def publishAnnotations [Crates] (backend : BackendType) (publicIp : String)
    (vtepMac : Option String) : JsonMap :=
  let backendType := match backend with
    | .vxlan => "vxlan"
    | .hostGw => "host-gw"
  let annotations : JsonMap := ∅
  let annotations := annotations.insert (annotationKey "backend-type") (Json.str backendType)
  let annotations := match vtepMac with
    | some mac =>
      annotations.insert (annotationKey "backend-data") (Json.str (vtepMacToJson mac))
    | none => annotations
  let annotations := annotations.insert (annotationKey "public-ip") (Json.str publicIp)
  annotations.insert (annotationKey "kube-subnet-manager-managed") (Json.str "true")

def buildPublishPatch [Crates] (backend : BackendType) (publicIp : String)
    (vtepMac : Option String) : Json :=
  .obj [("apiVersion", .str "v1"), ("kind", .str "Node"),
    ("metadata", .obj [("annotations", .ofMap (publishAnnotations backend publicIp vtepMac))])]

/-- The address that `try_bootstrap` publishes: only the VXLAN device has one. -/
def publishedMac (backend : BackendType) (b : Mac) : Option String :=
  match backend with
  | .vxlan => some (linkMac b.bytes)
  | .hostGw => none

/-- Server-side apply: what the patch gives is there afterwards, beside any others. -/
def Stored (patch : Json) (ann : AList fun _ : String => String) : Prop :=
  ∀ k v, ((patch.get? "metadata").bind (Json.get? "annotations")).bind (Json.get? k) =
    some (.str v) → ann.lookup k = some v

/-- `serde_json` reads the address as it wrote it, whatever has to be escaped in it. -/
def BackendDataRead [Crates] : Prop :=
  ∀ s, Crates.jsonFromStr (Crates.jsonToString (backendData s)) = some (backendData s)

theorem annotationKey_ne {a b : String} (h : a ≠ b) : annotationKey a ≠ annotationKey b := by
  intro heq
  unfold annotationKey at heq
  exact h ((String.append_right_inj ("flannel.alpha.coreos.com" ++ "/")).mp heq)

section

variable [Crates] {backend : BackendType} {publicIp : String} {vtepMac : Option String}
  {ann : AList fun _ : String => String}

theorem patch_annotations : ((buildPublishPatch backend publicIp vtepMac).get? "metadata").bind
    (Json.get? "annotations") = some (.ofMap (publishAnnotations backend publicIp vtepMac)) := rfl

theorem stored_iff : Stored (buildPublishPatch backend publicIp vtepMac) ann ↔
    ∀ k v, (publishAnnotations backend publicIp vtepMac).lookup k = some (.str v) →
      ann.lookup k = some v := by
  simp only [Stored, patch_annotations, Option.bind_some, Json.get?_ofMap]

theorem Stored.lookup_publicIp (h : Stored (buildPublishPatch backend publicIp vtepMac) ann) :
    ann.lookup (annotationKey "public-ip") = some publicIp := by
  apply stored_iff.mp h
  simp only [publishAnnotations]
  rw [AList.lookup_insert_ne (annotationKey_ne (by decide)), AList.lookup_insert]

theorem Stored.lookup_backendData {mac : String}
    (h : Stored (buildPublishPatch backend publicIp (some mac)) ann) :
    ann.lookup (annotationKey "backend-data") = some (vtepMacToJson mac) := by
  apply stored_iff.mp h
  simp only [publishAnnotations]
  rw [AList.lookup_insert_ne (annotationKey_ne (by decide)),
    AList.lookup_insert_ne (annotationKey_ne (by decide)), AList.lookup_insert]

theorem vtepMacFromJson_toJson (hjson : BackendDataRead) (mac : String) :
    vtepMacFromJson (vtepMacToJson mac) = some mac := by
  rw [vtepMacFromJson, vtepMacToJson, hjson mac]
  simp [backendData, Json.fields, Field.find, required, Json.decodeString]

end

theorem parseHexByte_hexByte (b : Fin 256) : parseHexByte (String.ofList (hexByte b)) = some b := by
  revert b
  decide +kernel

theorem colon_not_mem_hexByte (b : Fin 256) : ':' ∉ hexByte b := by
  revert b
  decide +kernel

/-- The text of an address is read as that address. -/
theorem parseMac_linkMac (b : Mac) : parseMac (linkMac b.bytes) = .ok b := by
  have hne : b.bytes.map hexByte ≠ [] := by
    intro h
    have hlen := b.length_eq
    rw [List.map_eq_nil_iff.mp h] at hlen
    cases hlen
  have hcolon : ∀ l ∈ b.bytes.map hexByte, ':' ∉ l := by
    intro l hl
    obtain ⟨c, -, rfl⟩ := List.mem_map.mp hl
    exact colon_not_mem_hexByte c
  have hsplit : splitOn ':' (linkMac b.bytes) =
      b.bytes.map fun c => String.ofList (hexByte c) := by
    rw [splitOn, linkMac, String.toList_ofList, List.splitOn_intercalate ':' hcolon hne,
      List.map_map]
    rfl
  have hparse : (splitOn ':' (linkMac b.bytes)).mapM parseHexByte = some b.bytes := by
    rw [hsplit]
    generalize b.bytes = bytes
    induction bytes with
    | nil => rfl
    | cons c bytes ih => simp [parseHexByte_hexByte, ih]
  rw [parseMac, hparse]
  simp [b.length_eq]

theorem carried_insert {m : JsonMap} {ann : AList fun _ : String => String} (key value : String)
    (h : ∀ k v, m.lookup k = some (.str v) → ann.lookup k = some v) :
    ∀ k v, (m.insert key (.str value)).lookup k = some (.str v) →
      (ann.insert key value).lookup k = some v := by
  intro k v hk
  by_cases hkey : k = key
  · subst hkey
    rw [AList.lookup_insert] at hk ⊢
    simpa using hk
  · rw [AList.lookup_insert_ne hkey] at hk ⊢
    exact h k v hk

/-- Every lease can be stored. -/
theorem exists_stored [Crates] (backend : BackendType) (publicIp : String)
    (vtepMac : Option String) :
    ∃ ann, Stored (buildPublishPatch backend publicIp vtepMac) ann := by
  have hempty : ∀ k v, (∅ : JsonMap).lookup k = some (.str v) →
      (∅ : AList fun _ : String => String).lookup k = some v := by simp
  cases vtepMac with
  | none =>
    exact ⟨_, stored_iff.mpr (carried_insert _ _ (carried_insert _ _ (carried_insert _ _ hempty)))⟩
  | some mac =>
    exact ⟨_, stored_iff.mpr (carried_insert _ _ (carried_insert _ _ (carried_insert _ _
      (carried_insert _ _ hempty))))⟩

theorem backendDataRead_compact : @BackendDataRead Crates.compact := by
  intro s
  have hplain : JsonTexts.Plain (backendData s) := by simp [backendData]
  exact JsonTexts.ofText_jsonText hplain

def vtep : Mac := ⟨[0xae, 0x11, 0x22, 0x33, 0x44, 0x05], rfl⟩

/-- What a node with a lease has among its annotations. -/
def annotated : AList fun _ : String => String :=
  ((((AList.singleton "node.alpha.kubernetes.io/ttl" "0").insert (annotationKey "backend-type")
    "vxlan").insert (annotationKey "backend-data") (@vtepMacToJson Crates.compact
      (linkMac vtep.bytes))).insert (annotationKey "public-ip") "172.18.0.3").insert
    (annotationKey "kube-subnet-manager-managed") "true"

theorem annotated_stored :
    @Stored (@buildPublishPatch Crates.compact .vxlan "172.18.0.3" (some (linkMac vtep.bytes)))
      annotated := by
  apply (@stored_iff Crates.compact _ _ _ _).mpr
  apply carried_insert
  apply carried_insert
  apply carried_insert
  apply carried_insert
  intro k v hk
  simp at hk

/-- Every peer reads the lease as it was published. -/
theorem nodeToPeer_of_published [Crates] (hjson : BackendDataRead) (backend : BackendType)
    (b : Mac) (name publicIp podCidr : String) (ann : AList fun _ : String => String)
    (hann : Stored (buildPublishPatch backend publicIp (publishedMac backend b)) ann) :
    ∃ peer, nodeToPeer ⟨some name, some ann, some podCidr⟩ backend = some peer ∧
      peer.node = name ∧ peer.podCidr = podCidr ∧ peer.publicIp = publicIp ∧
      (peer.vtepMac.isSome ↔ backend = .vxlan) ∧
      ∀ mac ∈ peer.vtepMac, parseMac mac = .ok b := by
  refine ⟨⟨name, podCidr, publicIp, publishedMac backend b⟩, ?_, rfl, rfl, rfl, ?_, ?_⟩
  · cases backend with
    | vxlan =>
      have hdata := hann.lookup_backendData
      simp [nodeToPeer, hann.lookup_publicIp, hdata, vtepMacFromJson_toJson hjson, publishedMac]
    | hostGw => simp [nodeToPeer, hann.lookup_publicIp, publishedMac]
  · cases backend with
    | vxlan => simp [publishedMac]
    | hostGw => simp [publishedMac]
  · intro mac hmac
    cases backend with
    | vxlan =>
      obtain rfl := Option.some.inj hmac
      exact parseMac_linkMac b
    | hostGw => cases hmac

theorem annotated_read : ∃ peer, @nodeToPeer Crates.compact
    ⟨some "node-2", some annotated, some "10.244.2.0/24"⟩ .vxlan = some peer ∧
      peer.publicIp = "172.18.0.3" ∧ peer.vtepMac.isSome := by
  obtain ⟨peer, hpeer, -, -, hip, hmac, -⟩ := @nodeToPeer_of_published Crates.compact
    backendDataRead_compact .vxlan vtep "node-2" "172.18.0.3" "10.244.2.0/24" annotated
    annotated_stored
  exact ⟨peer, hpeer, hip, hmac.mpr rfl⟩

end FlannelRs.LeasePublication
