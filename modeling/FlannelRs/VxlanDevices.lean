import FlannelRs.LeasePublication

/-!
# The VXLAN device of `flanneld`

`Netlink::ensure_vxlan`, one netlink request at a time, on a kernel that holds links from
before. Every attempt of the bootstrap calls it, and every request may fail.
-/

namespace FlannelRs.VxlanDevices
open InteractionPrograms Ipv4Addresses CniTypes Flanneld LeasePublication

/-- What makes a VXLAN link. The `endpoint` is the address of the node. -/
structure VxlanParams where
  vni : ℕ
  dstport : ℕ
  endpoint : Ipv4Addr
  learning : Bool
  deriving DecidableEq

/-- A message about a link: its index, and its first attribute that is an address. -/
structure LinkMessage where
  index : ℕ
  address : Option (List (Fin 256))

inductive LinkOp where
  | getLinkByName (name : String)
  | getLinkByIndex (index : ℕ)
  | addVxlan (name : String) (params : VxlanParams)
  | addAddress (index : ℕ) (addr : Ipv4Addr) (len : ℕ)
  | setMtu (index mtu : ℕ)
  | setUp (index : ℕ)

@[reducible] def LinkRes : LinkOp → Type
  | .getLinkByName _ => Except NlError (Option LinkMessage)
  | .getLinkByIndex _ => Except NlError (Option LinkMessage)
  | _ => Except NlError Unit

/-- Why an attempt failed, which is only logged. -/
inductive LinkFailure where
  | netlink (context : Option String) (e : NlError)
  | message (text : String)

abbrev LinkProgram := ExceptT LinkFailure (Program LinkOp LinkRes)

def request (o : LinkOp) : Program LinkOp LinkRes (LinkRes o) := Program.send o

/-- `.context(..)?`, and `?` alone. -/
def orContext {α : Type} (context : Option String)
    (x : Program LinkOp LinkRes (Except NlError α)) : LinkProgram α :=
  ExceptT.mk do
    return (← x).mapError (.netlink context)

/-- `ENODEV`. -/
def enodev : ℤ := -19

def linkIndex (name : String) : LinkProgram (Option ℕ) :=
  ExceptT.mk do
    match ← request (.getLinkByName name) with
    | .ok l => return .ok (l.map LinkMessage.index)
    | .error e => return if e.code = some enodev then .ok none else .error (.netlink none e)

def linkMacOf (index : ℕ) : LinkProgram String := do
  match ← orContext none (request (.getLinkByIndex index)) with
  | none => throw (.message "link disappeared")
  | some l =>
    match l.address with
    | some bytes => return linkMac bytes
    | none => throw (.message ("no MAC on link " ++ index.repr))

def setMtu (index mtu : ℕ) : LinkProgram Unit :=
  orContext (some "set link mtu") (request (.setMtu index mtu))

def createVxlan (name : String) (vni dstport : ℕ) (endpoint : Ipv4Addr) : LinkProgram Unit :=
  orContext (some "create vxlan link") (request (.addVxlan name ⟨vni, dstport, endpoint, false⟩))

def addAddress (index : ℕ) (gateway : Ipv4Addr) : LinkProgram Unit :=
  orContext none (request (.addAddress index gateway 32))

def bringUp (index : ℕ) : LinkProgram Unit :=
  orContext none (request (.setUp index))

def orMissing {α : Type} (text : String) : Option α → LinkProgram α
  | some a => return a
  | none => throw (.message text)

def ensureVxlan (name : String) (vni dstport : ℕ) (endpoint gateway : Ipv4Addr) (mtu : ℕ) :
    LinkProgram (String × ℕ) := do
  match ← linkIndex name with
  | some idx =>
    setMtu idx mtu
    let mac ← linkMacOf idx
    bringUp idx
    return (mac, idx)
  | none =>
    createVxlan name vni dstport endpoint
    let idx ← orMissing "vxlan link missing after create" (← linkIndex name)
    -- `.ok()` drops the error
    let _ ← ExceptT.lift (addAddress idx gateway).run
    setMtu idx mtu
    bringUp idx
    let mac ← linkMacOf idx
    return (mac, idx)

/-- A link of the kernel. Only a VXLAN link has parameters of one. -/
structure Device where
  name : String
  vxlan : Option VxlanParams
  mtu : ℕ
  up : Bool
  address : Option (List (Fin 256))
  addrs : List (Ipv4Addr × ℕ)
  deriving DecidableEq

/-- The links by index. No two have one name. -/
structure Links where
  devices : AList fun _ : ℕ => Device
  distinct : ∀ i j d e, devices.lookup i = some d → devices.lookup j = some e →
    d.name = e.name → i = j

/-- There is no link of the name. -/
def Links.Free (k : Links) (name : String) : Prop :=
  ∀ i d, k.devices.lookup i = some d → d.name ≠ name

/-- The answer where there is no such link. -/
def Absent (r : Except NlError (Option LinkMessage)) : Prop :=
  r = .ok none ∨ ∃ text, r = .error ⟨some enodev, text⟩

/-- The answers of a kernel that fails no request. A new link is up. The kernel chooses its
index, its MTU and its hardware address. -/
def Links.Answers (k : Links) : (o : LinkOp) → LinkRes o → Links → Prop
  | .getLinkByName name, r, k' => k' = k ∧
    ((∃ i d, k.devices.lookup i = some d ∧ d.name = name ∧ r = .ok (some ⟨i, d.address⟩)) ∨
      (k.Free name ∧ Absent r))
  | .getLinkByIndex i, r, k' => k' = k ∧
    ((∃ d, k.devices.lookup i = some d ∧ r = .ok (some ⟨i, d.address⟩)) ∨
      (k.devices.lookup i = none ∧ Absent r))
  | .addVxlan name params, r, k' => r = .ok () ∧ k.Free name ∧
    ∃ i mtu address, k.devices.lookup i = none ∧
      k'.devices = k.devices.insert i ⟨name, some params, mtu, true, address, []⟩
  | .addAddress i addr len, r, k' => ∃ d, k.devices.lookup i = some d ∧
    (((addr, len) ∉ d.addrs ∧ r = .ok () ∧
        k'.devices = k.devices.insert i { d with addrs := (addr, len) :: d.addrs }) ∨
      ((addr, len) ∈ d.addrs ∧ (∃ text, r = .error ⟨some eexist, text⟩) ∧ k' = k))
  | .setMtu i mtu, r, k' => r = .ok () ∧ ∃ d, k.devices.lookup i = some d ∧
      k'.devices = k.devices.insert i { d with mtu }
  | .setUp i, r, k' => r = .ok () ∧ ∃ d, k.devices.lookup i = some d ∧
      k'.devices = k.devices.insert i { d with up := true }

/-- A request that fails changes nothing. -/
def Links.Fails (k : Links) : (o : LinkOp) → LinkRes o → Links → Prop
  | .getLinkByName _, r, k' => (∃ e, r = .error e) ∧ k' = k
  | .getLinkByIndex _, r, k' => (∃ e, r = .error e) ∧ k' = k
  | .addVxlan _ _, r, k' => (∃ e, r = .error e) ∧ k' = k
  | .addAddress _ _ _, r, k' => (∃ e, r = .error e) ∧ k' = k
  | .setMtu _ _, r, k' => (∃ e, r = .error e) ∧ k' = k
  | .setUp _, r, k' => (∃ e, r = .error e) ∧ k' = k

/-- Any request may fail. Those to add one of the `refused` addresses do, and no other request
to add an address does. -/
def Links.MayFail (refused : Ipv4Addr × ℕ → Prop) (k : Links) (o : LinkOp) (r : LinkRes o)
    (k' : Links) : Prop :=
  match o, r with
  | .addAddress i addr len, r =>
    (refused (addr, len) ∧ k.Fails (.addAddress i addr len) r k') ∨
      (¬ refused (addr, len) ∧ k.Answers (.addAddress i addr len) r k')
  | o, r => k.Answers o r k' ∨ k.Fails o r k'

/-- What a call asks for. -/
structure Request where
  name : String
  vni : ℕ
  dstport : ℕ
  endpoint : Ipv4Addr
  gateway : Ipv4Addr
  mtu : ℕ

def Request.params (q : Request) : VxlanParams := ⟨q.vni, q.dstport, q.endpoint, false⟩

def Request.ensure (q : Request) : LinkProgram (String × ℕ) :=
  ensureVxlan q.name q.vni q.dstport q.endpoint q.gateway q.mtu

/-- What no call changes of a link that is there: it is as requested. -/
def Device.Fits (d : Device) (q : Request) : Prop :=
  d.vxlan = some q.params ∧ (q.gateway, 32) ∈ d.addrs

/-- The returned link is as a call on an empty table makes it, and its hardware address is the
returned one. -/
def Converged (q : Request) (mac : String) (idx : ℕ) (k : Links) : Prop :=
  ∃ d, k.devices.lookup idx = some d ∧ d.name = q.name ∧ d.up = true ∧ d.mtu = q.mtu ∧
    d.Fits q ∧ d.address.map linkMac = some mac

/-- The device is there as requested, or can be made so. -/
def Ready (refused : Ipv4Addr × ℕ → Prop) (q : Request) (k : Links) : Prop :=
  (k.Free q.name ∧ ¬ refused (q.gateway, 32)) ∨
    ∃ i d, k.devices.lookup i = some d ∧ d.name = q.name ∧ d.Fits q

end FlannelRs.VxlanDevices
