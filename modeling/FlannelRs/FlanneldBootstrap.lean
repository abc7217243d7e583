import FlannelRs.FlanneldPeers
import FlannelRs.SubnetEnvFiles

/-!
# The bootstrap of `flanneld`

What an attempt makes of the configuration, of its own node object and of the MTU of the
underlay: the address of `flannel.1` and the file `subnet.env`. The configuration is that of
`config.rs`, the rest is from `subnet.rs` and `main.rs`.
-/

namespace FlannelRs.FlanneldBootstrap
open Ipv4Addresses RustText JsonValues CniTypes Flanneld
open SubnetEnvFiles (SubnetEnv PlainNetworks parse_render)

structure Backend where
  kind : String

structure NetConf where
  network : String
  backend : Backend

def Backend.decode (j : Json) : Option Backend :=
  match j.fields [⟨["Type"], false⟩] with
  | some [kind] => do return { kind := ← required Json.decodeString kind }
  | _ => none

def NetConf.decode (j : Json) : Option NetConf :=
  match j.fields [⟨["Network"], false⟩, ⟨["Backend"], false⟩] with
  | some [network, backend] => do
    return {
      network := ← required Json.decodeString network
      backend := ← required Backend.decode backend }
  | _ => none

/-- Why `net-conf.json` is malformed. -/
inductive NetConfError where
  | json (text : String)
  | invalidNetwork (network : String)

/-- Misconfiguration that ends `flanneld`. -/
inductive Fatal where
  | netConf (e : NetConfError)
  | backend (kind : String)

section

variable [Crates]

def NetConf.parse (s : String) : Except NetConfError NetConf :=
  match (Crates.jsonFromStr s).bind NetConf.decode with
  | none => .error (.json (Crates.jsonError "NetConf" s))
  | some nc =>
    match Crates.parseNetwork nc.network with
    | none => .error (.invalidNetwork nc.network)
    | some _ => .ok nc

def classifyNetConf (raw : String) : Except Fatal (NetConf × BackendType) :=
  match NetConf.parse raw with
  | .error e => .error (.netConf e)
  | .ok nc =>
    match BackendType.parse nc.backend.kind with
    | none => .error (.backend nc.backend.kind)
    | some backend => .ok (nc, backend)

end

/-- What is read of the node object. -/
structure OwnNode where
  podCidr : String
  publicIp : String

/-- `saturating_sub` of the overhead. -/
def vxlanMtu (linkMtu : ℕ) : ℕ := linkMtu - 50

def hostGwMtu (linkMtu : ℕ) : ℕ := linkMtu

def mtuFor : BackendType → ℕ → ℕ
  | .vxlan => vxlanMtu
  | .hostGw => hostGwMtu

theorem mtuFor_le (backend : BackendType) (linkMtu : ℕ) : mtuFor backend linkMtu ≤ linkMtu := by
  cases backend with
  | vxlan => exact Nat.sub_le _ _
  | hostGw => exact le_rfl

/-- The MTU of the underlay, if it can be read. -/
def underlayMtu (linkMtu : Option { n : ℕ // n < 2 ^ 32 }) : { n : ℕ // n < 2 ^ 32 } :=
  linkMtu.getD ⟨1500, by decide⟩

/-- An attempt ends for good, or is made again. -/
inductive BootstrapError where
  | fatal (e : Fatal)
  | parseNodeIp
  | parseOwnPodCidr

/-- What an attempt sets up. The `gateway` is the address of `flannel.1`. -/
structure Bootstrap where
  backend : BackendType
  gateway : Ipv4Addr
  env : SubnetEnv

/-- The backend `host-gw` has no device. -/
def Bootstrap.vtepIp (b : Bootstrap) : Option Ipv4Addr :=
  match b.backend with
  | .vxlan => some b.gateway
  | .hostGw => none

variable [Crates]

/-- `try_bootstrap`, on what it has read. -/
def tryBootstrap (raw : String) (own : OwnNode) (linkMtu : Option { n : ℕ // n < 2 ^ 32 }) :
    Except BootstrapError Bootstrap :=
  match classifyNetConf raw with
  | .error e => .error (.fatal e)
  | .ok (nc, backend) =>
    match parseIpv4 own.publicIp with
    | none => .error .parseNodeIp
    | some _ =>
      match Crates.parseNetwork own.podCidr with
      | none => .error .parseOwnPodCidr
      | some cidr => .ok {
          backend
          gateway := cidr.network
          env := {
            network := nc.network
            subnet := own.podCidr
            mtu := mtuFor backend (underlayMtu linkMtu).1
            ipmasq := true
            mtu_lt := (mtuFor_le _ _).trans_lt (underlayMtu linkMtu).2 } }

/-- Only networks that can be read come into the file. -/
theorem NetConf.parse_ok {s : String} {nc : NetConf} (h : NetConf.parse s = .ok nc) :
    (Crates.parseNetwork nc.network).isSome := by
  unfold NetConf.parse at h
  split at h
  · cases h
  · rename_i nc' _
    cases hnet : Crates.parseNetwork nc'.network with
    | none => simp [hnet] at h
    | some net =>
      rw [hnet] at h
      rw [← Except.ok.inj h, hnet]
      rfl

theorem tryBootstrap_ok {raw : String} {own : OwnNode}
    {linkMtu : Option { n : ℕ // n < 2 ^ 32 }} {b : Bootstrap}
    (h : tryBootstrap raw own linkMtu = .ok b) :
    ∃ cidr, Crates.parseNetwork own.podCidr = some cidr ∧ b.gateway = cidr.network ∧
      b.env.subnet = own.podCidr ∧ b.env.Admitted := by
  unfold tryBootstrap classifyNetConf at h
  cases hnc : NetConf.parse raw with
  | error e => simp [hnc] at h
  | ok nc =>
    cases hbackend : BackendType.parse nc.backend.kind with
    | none => simp [hnc, hbackend] at h
    | some backend =>
      cases hip : parseIpv4 own.publicIp with
      | none => simp [hnc, hbackend, hip] at h
      | some ip =>
        cases hcidr : Crates.parseNetwork own.podCidr with
        | none => simp [hnc, hbackend, hip, hcidr] at h
        | some cidr =>
          simp only [hnc, hbackend, hip, hcidr] at h
          obtain rfl := Except.ok.inj h
          refine ⟨cidr, rfl, rfl, rfl, NetConf.parse_ok hnc, ?_⟩
          rw [hcidr]
          rfl

/-- The plugin reads what the attempt has written. -/
theorem parse_env (hplain : PlainNetworks) {raw : String} {own : OwnNode}
    {linkMtu : Option { n : ℕ // n < 2 ^ 32 }} {b : Bootstrap}
    (h : tryBootstrap raw own linkMtu = .ok b) :
    FlannelPlugin.SubnetEnv.parse b.env.render = some b.env.read := by
  obtain ⟨-, -, -, -, hadmitted⟩ := tryBootstrap_ok h
  exact parse_render hplain hadmitted

end FlannelRs.FlanneldBootstrap
