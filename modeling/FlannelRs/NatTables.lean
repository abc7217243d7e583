import FlannelRs.Ipv4Addresses
import FlannelRs.RuleChains
import Mathlib.Data.List.AList
import Mathlib.Data.Nat.Bitwise

/-!
# The nat table, and what `iptables` does with it

The commands and the options of rules that the repository uses, as the manual of `iptables`
describes them.
-/

namespace FlannelRs.NatTables
open Ipv4Addresses RustText RuleChains

/-- The protocols with ports. -/
inductive Protocol where
  | tcp
  | udp
  | sctp
  deriving DecidableEq

/-- Upper case is as good as lower case. -/
def parseProtocol (s : String) : Option Protocol :=
  match String.ofList (s.toList.map Char.toLower) with
  | "tcp" => some .tcp
  | "udp" => some .udp
  | "sctp" => some .sctp
  | _ => none

/-- A mark, and the bits that count. -/
structure Mark where
  value : ℕ
  mask : ℕ
  deriving DecidableEq

inductive Target where
  | jump (chain : String)
  | ret
  | masquerade (randomFully : Bool)
  | dnat (addr : Ipv4Addr) (port : ℕ)
  | setXmark (m : Mark)
  deriving DecidableEq

/-- A network, or with `!` everything outside it. -/
structure AddressMatch where
  negated : Bool
  net : Ipv4Network
  deriving DecidableEq

structure Rule where
  proto : Option Protocol
  src : Option AddressMatch
  dst : Option AddressMatch
  dport : Option ℕ
  dstLocal : Bool
  mark : Option Mark
  target : Target
  deriving DecidableEq

/-- A packet with what the kernel knows about it. -/
structure Packet where
  proto : Protocol
  src : Ipv4Addr
  dst : Ipv4Addr
  dport : ℕ
  dstLocal : Bool
  mark : ℕ
  deriving DecidableEq

def AddressMatch.test (m : AddressMatch) (a : Ipv4Addr) : Bool := m.net.contains a != m.negated

def Rule.test (r : Rule) (p : Packet) : Bool :=
  r.proto.all (· = p.proto) && r.src.all (·.test p.src) && r.dst.all (·.test p.dst) &&
    r.dport.all (· = p.dport) && (!r.dstLocal || p.dstLocal) &&
    r.mark.all fun m => p.mark &&& m.mask = m.value

/-- `--set-xmark`: the bits of the mask are cleared, then the value is added by XOR. -/
def Mark.apply (m : Mark) (old : ℕ) : ℕ := (old ^^^ (old &&& m.mask)) ^^^ m.value

/-- The last word on a packet. -/
inductive Verdict where
  | masquerade
  | dnat (addr : Ipv4Addr) (port : ℕ)
  deriving DecidableEq

def Target.action : Target → Action String Packet Verdict
  | .jump chain => .jump chain
  | .ret => .ret
  | .masquerade _ => .stop .masquerade
  | .dnat addr port => .stop (.dnat addr port)
  | .setXmark m => .alter fun p => { p with mark := m.apply p.mark }

abbrev rules : Semantics Rule String Packet Verdict := ⟨Rule.test, fun r => r.target.action⟩

/-- A network without the host bits that it was given with. -/
def masked (n : Ipv4Network) : Ipv4Network := { n with ip := n.network }

def parseAddress (s : String) : Option Ipv4Network :=
  match splitOn '/' s with
  | [addr] => (parseIpv4 addr).map fun ip => ⟨ip, 32, Ipv4Network.whole_le⟩
  | [addr, len] => do
    let ip ← parseIpv4 addr
    let n ← parseUnsigned 256 len
    if h : n ≤ 32 then return masked ⟨ip, n, h⟩ else none
  | _ => none

def parseHex (s : String) : Option ℕ :=
  match s.toList with
  | '0' :: 'x' :: d :: ds => do
    return (← (d :: ds).mapM hexDigit).foldl (fun n d => 16 * n + d) 0
  | _ => none

def parseMark (s : String) : Option Mark :=
  match splitOn '/' s with
  | [value, mask] => do return ⟨← parseHex value, ← parseHex mask⟩
  | _ => none

def parseDestination (s : String) : Option Target :=
  match splitOn ':' s with
  | [addr, port] => do
    let ip ← parseIpv4 addr
    let p ← parseUnsigned (2 ^ 16) port
    if p = 0 then none else return .dnat ip p
  | _ => none

/-- What follows `-j`. -/
def parseTarget : List String → Option Target
  | [name] =>
    if name = "RETURN" then some .ret
    else if name = "MASQUERADE" then some (.masquerade false)
    else some (.jump name)
  | [name, option] =>
    if name = "MASQUERADE" ∧ option = "--random-fully" then some (.masquerade true) else none
  | [name, option, value] =>
    if name = "DNAT" ∧ option = "--to-destination" then parseDestination value
    else if name = "MARK" ∧ option = "--set-xmark" then (parseMark value).map .setXmark
    else none
  | _ => none

/-- Reads the options in front of the target, with `negated` after `!`. -/
def parseOptions (r : Rule) (negated : Bool) : List String → Option Rule
  | flag :: value :: rest =>
    if flag = "-j" then (parseTarget (value :: rest)).map fun t => { r with target := t }
    else if flag = "!" then parseOptions r true (value :: rest)
    else if flag = "-p" then do
      let p ← parseProtocol value
      parseOptions { r with proto := some p } false rest
    else if flag = "-s" then do
      let n ← parseAddress value
      parseOptions { r with src := some ⟨negated, n⟩ } false rest
    else if flag = "-d" then do
      let n ← parseAddress value
      parseOptions { r with dst := some ⟨negated, n⟩ } false rest
    else if flag = "--dport" then do
      let p ← parseUnsigned (2 ^ 16) value
      parseOptions { r with dport := some p } false rest
    else if flag = "-m" then parseOptions r false rest
    else if flag = "--dst-type" ∧ value = "LOCAL" then
      parseOptions { r with dstLocal := true } false rest
    else if flag = "--mark" then do
      let m ← parseMark value
      parseOptions { r with mark := some m } false rest
    else none
  | _ => none

def parseRule (args : List String) : Option Rule :=
  parseOptions ⟨none, none, none, none, false, none, .ret⟩ false args

section

variable (r : Rule) (negated : Bool) (value : String) (rest : List String)

theorem parseOptions_target : parseOptions r negated ("-j" :: value :: rest) =
    (parseTarget (value :: rest)).map fun t => { r with target := t } := by
  rw [parseOptions, if_pos rfl]

theorem parseOptions_protocol : parseOptions r negated ("-p" :: value :: rest) =
    (parseProtocol value).bind fun p => parseOptions { r with proto := some p } false rest := by
  rw [parseOptions, if_neg (by decide), if_neg (by decide), if_pos rfl]
  rfl

theorem parseOptions_src : parseOptions r negated ("-s" :: value :: rest) =
    (parseAddress value).bind fun n => parseOptions { r with src := some ⟨negated, n⟩ } false rest := by
  rw [parseOptions, if_neg (by decide), if_neg (by decide), if_neg (by decide), if_pos rfl]
  rfl

theorem parseOptions_dst : parseOptions r negated ("-d" :: value :: rest) =
    (parseAddress value).bind fun n => parseOptions { r with dst := some ⟨negated, n⟩ } false rest := by
  rw [parseOptions, if_neg (by decide), if_neg (by decide), if_neg (by decide),
    if_neg (by decide), if_pos rfl]
  rfl

theorem parseOptions_dport : parseOptions r negated ("--dport" :: value :: rest) =
    (parseUnsigned (2 ^ 16) value).bind fun p =>
      parseOptions { r with dport := some p } false rest := by
  rw [parseOptions, if_neg (by decide), if_neg (by decide), if_neg (by decide),
    if_neg (by decide), if_neg (by decide), if_pos rfl]
  rfl

end

theorem parseTarget_dnat (value : String) :
    parseTarget ["DNAT", "--to-destination", value] = parseDestination value := by
  rw [parseTarget, if_pos ⟨rfl, rfl⟩]

/-- The network of one address. -/
def host (ip : Ipv4Addr) : Ipv4Network := ⟨ip, 32, Ipv4Network.whole_le⟩

theorem masked_host (ip : Ipv4Addr) : masked (host ip) = host ip := by
  have h : (host ip).network = ip := by
    apply Ipv4Addr.ext_toNat
    simp [Ipv4Network.network, Ipv4Network.size, host]
  rw [masked, h]
  rfl

theorem contains_host (ip a : Ipv4Addr) : (host ip).contains a = decide (a = ip) := by
  have h : a.toNat = ip.toNat ↔ a = ip := ⟨Ipv4Addr.ext_toNat, fun h => by rw [h]⟩
  simp [Ipv4Network.contains, Ipv4Network.size, host, h]

/-- An address with the length that stands for the address alone. -/
theorem parseAddress_host (ip : Ipv4Addr) : parseAddress (ip.toString ++ "/32") = some (host ip) := by
  have hsplit : splitOn '/' (ip.toString ++ "/" ++ "32") = [ip.toString, "32"] :=
    splitOn_pair rfl (ip.not_mem_toString (by decide) (by decide)) (by decide)
  have htext : ip.toString ++ "/32" = ip.toString ++ "/" ++ "32" := by
    rw [String.append_assoc]
    rfl
  have hlen : parseUnsigned 256 "32" = some 32 := by decide +kernel
  have hmasked : masked ⟨ip, 32, le_rfl⟩ = host ip := masked_host ip
  simp [parseAddress, htext, hsplit, hlen, hmasked]

/-- What is read with a length behind it is an address. -/
theorem parseIpv4_of_parseAddress {text : String} {n : Ipv4Network}
    (h : parseAddress (text ++ "/32") = some n) : (parseIpv4 text).isSome := by
  have hlist : (text ++ "/32").toList = text.toList ++ '/' :: "32".toList := by
    rw [String.toList_append]
    rfl
  have hpieces : ['/'].intercalate ((text ++ "/32").toList.splitOn '/') = (text ++ "/32").toList :=
    List.intercalate_splitOn '/'
  have hslash : ∀ {s : String} {ip : Ipv4Addr}, parseIpv4 s = some ip → '/' ∉ s.toList := by
    intro s ip hs
    rw [eq_toString_of_parseIpv4 hs]
    exact ip.not_mem_toString (by decide) (by decide)
  rw [parseAddress, splitOn] at h
  generalize (text ++ "/32").toList.splitOn '/' = pieces at h hpieces
  rw [hlist] at hpieces
  rcases pieces with _ | ⟨addr, _ | ⟨len, _ | ⟨more, pieces⟩⟩⟩
  · cases h
  · simp only [List.map_cons, List.map_nil, Option.map_eq_some_iff] at h
    obtain ⟨ip, hip, -⟩ := h
    have hnot := hslash hip
    rw [String.toList_ofList] at hnot
    have hsame : addr = text.toList ++ '/' :: "32".toList := by
      simpa [List.intercalate] using hpieces
    simp [hsame] at hnot
  · simp only [List.map_cons, List.map_nil, Option.bind_eq_bind, Option.bind_eq_some_iff] at h
    obtain ⟨ip, hip, k, hk, -⟩ := h
    have hnot := hslash hip
    rw [String.toList_ofList] at hnot
    have hlen : '/' ∉ len := by
      intro hmem
      rcases mem_of_parseUnsigned hk (by rwa [String.toList_ofList]) with hc | hc <;> cases hc
    have hsame : addr ++ '/' :: len = text.toList ++ '/' :: "32".toList := by
      simpa [List.intercalate] using hpieces
    obtain ⟨htext, -, -⟩ := (List.append_cons_inj_of_notMem hnot hlen).mp hsame
    rw [htext, String.ofList_toList] at hip
    rw [hip]
    rfl
  · cases h

theorem parseDestination_toString (ip : Ipv4Addr) {port : ℕ} (hpos : 0 < port)
    (hlt : port < 2 ^ 16) :
    parseDestination (ip.toString ++ ":" ++ port.repr) = some (.dnat ip port) := by
  have hsplit : splitOn ':' (ip.toString ++ ":" ++ port.repr) = [ip.toString, port.repr] :=
    splitOn_pair rfl (ip.not_mem_toString (by decide) (by decide)) (not_mem_repr (by decide))
  have hport : parseUnsigned (2 ^ 16) port.repr = some port := parseUnsigned_repr hlt
  have hne : port ≠ 0 := by omega
  simp [-Nat.reducePow, parseDestination, hsplit, hport, hne]

/-- A call of `iptables --wait -t nat`: `-N`, `-C`, `-A`, `-I` at the top, `-D`, `-F`, `-X`. -/
inductive Command where
  | newChain (chain : String)
  | check (chain : String) (rule : List String)
  | append (chain : String) (rule : List String)
  | insert (chain : String) (rule : List String)
  | delete (chain : String) (rule : List String)
  | flush (chain : String)
  | deleteChain (chain : String)

/-- `std::process::Output`, as far as it is looked at. -/
structure Output where
  success : Bool
  stderr : String

abbrev Table := AList fun _ : String => List Rule

def Table.chain (t : Table) (name : String) : List Rule := (t.lookup name).getD []

/-- A rule may only jump to a chain that exists. -/
def Table.targetExists (t : Table) : Target → Bool
  | .jump chain => chain ∈ t
  | _ => true

def builtin : List String := ["PREROUTING", "INPUT", "OUTPUT", "POSTROUTING"]

/-- The rule of a command, read for a chain that exists. -/
def Table.readRule (t : Table) (chain : String) (args : List String) : Option (Rule × List Rule) := do
  let rs ← t.lookup chain
  let r ← parseRule args
  if t.targetExists r.target then return (r, rs) else none

/-- Whether a rule of any chain jumps to the chain. -/
def Table.referenced (t : Table) (chain : String) : Bool :=
  t.entries.any fun e => e.2.any fun r => r.target = .jump chain

/-- The table after a command that succeeds. -/
def Table.perform (t : Table) : Command → Option Table
  | .newChain chain =>
    if chain ∈ t ∨ 28 < chain.length then none else some (t.insert chain [])
  | .check chain args => do
    let (r, rs) ← t.readRule chain args
    if r ∈ rs then return t else none
  | .append chain args => do
    let (r, rs) ← t.readRule chain args
    return t.insert chain (rs ++ [r])
  | .insert chain args => do
    let (r, rs) ← t.readRule chain args
    return t.insert chain (r :: rs)
  | .delete chain args => do
    let (r, rs) ← t.readRule chain args
    if r ∈ rs then return t.insert chain (rs.erase r) else none
  | .flush chain => if chain ∈ t then some (t.insert chain []) else none
  | .deleteChain chain =>
    if t.lookup chain = some [] ∧ chain ∉ builtin ∧ t.referenced chain = false then
      some (t.erase chain)
    else none

namespace Table

variable {t t' : Table} {chain : String} {args : List String}

theorem readRule_eq_some {r : Rule} {rs : List Rule} (h : t.readRule chain args = some (r, rs)) :
    t.lookup chain = some rs ∧ parseRule args = some r ∧ t.targetExists r.target = true := by
  simp only [readRule, Option.bind_eq_bind, Option.bind_eq_some_iff] at h
  obtain ⟨rs', hrs, r', hr, h⟩ := h
  by_cases ht : t.targetExists r'.target = true
  · rw [if_pos ht] at h
    obtain ⟨rfl, rfl⟩ := Prod.mk.inj (Option.some.inj h)
    exact ⟨hrs, hr, ht⟩
  · rw [if_neg ht] at h
    cases h

theorem chain_of_lookup {rs : List Rule} (h : t.lookup chain = some rs) : t.chain chain = rs := by
  rw [Table.chain, h, Option.getD_some]

theorem chain_insert (t : Table) (chain : String) (rs : List Rule) (name : String) :
    Table.chain (t.insert chain rs) name = if name = chain then rs else t.chain name := by
  unfold Table.chain
  by_cases hn : name = chain
  · subst hn
    simp
  · rw [if_neg hn, AList.lookup_insert_ne hn]

theorem perform_check (h : t.perform (.check chain args) = some t') :
    t' = t ∧ ∃ r, parseRule args = some r ∧ r ∈ t.chain chain := by
  simp only [perform, Option.bind_eq_bind, Option.bind_eq_some_iff] at h
  obtain ⟨⟨r, rs⟩, hread, h⟩ := h
  obtain ⟨hlookup, hr, -⟩ := readRule_eq_some hread
  by_cases hmem : r ∈ rs
  · simp only [if_pos hmem] at h
    exact ⟨(Option.some.inj h).symm, r, hr, by rwa [chain_of_lookup hlookup]⟩
  · simp only [if_neg hmem] at h
    cases h

theorem perform_append (h : t.perform (.append chain args) = some t') :
    ∃ r, parseRule args = some r ∧ t' = t.insert chain (t.chain chain ++ [r]) := by
  simp only [perform, Option.bind_eq_bind, Option.bind_eq_some_iff] at h
  obtain ⟨⟨r, rs⟩, hread, h⟩ := h
  obtain ⟨hlookup, hr, -⟩ := readRule_eq_some hread
  refine ⟨r, hr, ?_⟩
  rw [chain_of_lookup hlookup]
  exact (Option.some.inj h).symm

theorem perform_insert (h : t.perform (.insert chain args) = some t') :
    ∃ r, parseRule args = some r ∧ t' = t.insert chain (r :: t.chain chain) := by
  simp only [perform, Option.bind_eq_bind, Option.bind_eq_some_iff] at h
  obtain ⟨⟨r, rs⟩, hread, h⟩ := h
  obtain ⟨hlookup, hr, -⟩ := readRule_eq_some hread
  refine ⟨r, hr, ?_⟩
  rw [chain_of_lookup hlookup]
  exact (Option.some.inj h).symm

theorem perform_newChain (h : t.perform (.newChain chain) = some t') :
    chain ∉ t ∧ t' = t.insert chain [] := by
  simp only [perform, Option.ite_none_left_eq_some, not_or] at h
  exact ⟨h.1.1, (Option.some.inj h.2).symm⟩

end Table

/-- Why a command fails. -/
def Table.complaint (t : Table) : Command → String
  | .newChain chain => if chain ∈ t then "iptables: Chain already exists." else
      "chain name too long (must be under 29 chars)"
  | .check _ _ => "iptables: Bad rule (does a matching rule exist in that chain?)."
  | .delete _ _ => "iptables: Bad rule (does a matching rule exist in that chain?)."
  | _ => "iptables: No chain/target/match by that name."

def Table.answer (t : Table) (c : Command) : Output × Table :=
  match t.perform c with
  | some t' => (⟨true, ""⟩, t')
  | none => (⟨false, t.complaint c⟩, t)

namespace Table

variable {t : Table} {chain : String} {args : List String} {r : Rule} {rs : List Rule}

theorem answer_newChain_of_mem (h : chain ∈ t) :
    t.answer (.newChain chain) = (⟨false, "iptables: Chain already exists."⟩, t) := by
  simp [answer, perform, complaint, h]

theorem answer_newChain (h : chain ∉ t) (hlen : chain.length ≤ 28) :
    t.answer (.newChain chain) = (⟨true, ""⟩, t.insert chain []) := by
  simp [answer, perform, h, Nat.not_lt.mpr hlen]

/-- A rule that may stand in the chain. -/
theorem readRule_of (h : t.lookup chain = some rs) (hr : parseRule args = some r)
    (ht : t.targetExists r.target = true) : t.readRule chain args = some (r, rs) := by
  simp [readRule, h, hr, ht]

theorem answer_check (h : t.readRule chain args = some (r, rs)) :
    (t.answer (.check chain args)).1.success = decide (r ∈ rs) ∧
      (t.answer (.check chain args)).2 = t := by
  by_cases hr : r ∈ rs <;> simp [answer, perform, h, hr]

/-- Nothing changes, whatever is answered. -/
theorem answer_check_table (t : Table) (chain : String) (args : List String) :
    (t.answer (.check chain args)).2 = t := by
  cases hread : t.readRule chain args with
  | none => simp [answer, perform, hread]
  | some e => exact (answer_check hread).2

theorem answer_append (h : t.readRule chain args = some (r, rs)) :
    t.answer (.append chain args) = (⟨true, ""⟩, t.insert chain (rs ++ [r])) := by
  simp [answer, perform, h]

theorem answer_insert (h : t.readRule chain args = some (r, rs)) :
    t.answer (.insert chain args) = (⟨true, ""⟩, t.insert chain (r :: rs)) := by
  simp [answer, perform, h]

theorem answer_delete (h : t.readRule chain args = some (r, rs)) (hr : r ∈ rs) :
    t.answer (.delete chain args) = (⟨true, ""⟩, t.insert chain (rs.erase r)) := by
  simp [answer, perform, h, hr]

theorem answer_delete_of_absent (h : ∀ r rs, t.readRule chain args = some (r, rs) → r ∉ rs) :
    (t.answer (.delete chain args)).1.success = false ∧ (t.answer (.delete chain args)).2 = t := by
  cases hread : t.readRule chain args with
  | none => simp [answer, perform, hread]
  | some e => simp [answer, perform, hread, h e.1 e.2 hread]

theorem answer_flush (h : chain ∈ t) :
    t.answer (.flush chain) = (⟨true, ""⟩, t.insert chain []) := by
  simp [answer, perform, h]

theorem answer_flush_of_not_mem (h : chain ∉ t) : (t.answer (.flush chain)).2 = t := by
  simp [answer, perform, h]

theorem answer_deleteChain (h : t.lookup chain = some []) (hbuiltin : chain ∉ builtin)
    (href : t.referenced chain = false) :
    t.answer (.deleteChain chain) = (⟨true, ""⟩, t.erase chain) := by
  simp [answer, perform, h, hbuiltin, href]

theorem answer_deleteChain_of_not_mem (h : chain ∉ t) :
    (t.answer (.deleteChain chain)).2 = t := by
  have hnone : t.lookup chain = none := AList.lookup_eq_none.mpr h
  simp [answer, perform, hnone]

theorem referenced_eq_false (h : ∀ name rs, t.lookup name = some rs → ∀ r ∈ rs,
    r.target ≠ .jump chain) : t.referenced chain = false := by
  simp only [referenced, List.any_eq_false]
  intro e he hr
  obtain ⟨r, hmem, htarget⟩ := List.any_eq_true.mp hr
  exact h e.1 e.2 (AList.mem_lookup_iff.mpr he) r hmem (by simpa using htarget)

end Table

end FlannelRs.NatTables
