import FlannelRs.PortmapPlugin

/-!
# The port map that the chains of `portmap` stand for

What the rules of a container do to a packet, and what the chain does that jumps to the
chains of all containers.
-/

namespace FlannelRs.PortmapChains
open Ipv4Addresses RustText RuleChains NatTables Portmap

def mark : Mark := ⟨0x2000, 0x2000⟩

def jumpTo (name : String) : Rule := ⟨none, none, none, none, false, none, .jump name⟩

/-- The jump of a built-in chain. -/
def hookRule : Rule := ⟨none, none, none, none, true, none, .jump topChain⟩

def setmarkRule : Rule := ⟨none, none, none, none, false, none, .setXmark mark⟩

def masqRule : Rule := ⟨none, none, none, none, false, some mark, .masquerade false⟩

/-- A mapping that `iptables` understands. -/
structure Valid (m : PortMapping) : Prop where
  protocol : (parseProtocol m.protocol).isSome
  hostIp : ∀ ip ∈ m.hostIpSome, (parseIpv4 ip).isSome
  hostPort : m.hostPort < 2 ^ 16
  containerPort : 0 < m.containerPort ∧ m.containerPort < 2 ^ 16

def hostMatch (m : PortMapping) : Option AddressMatch :=
  (m.hostIpSome.bind parseIpv4).map fun ip => ⟨false, host ip⟩

def hairpinRule (podIp : Ipv4Addr) (m : PortMapping) : Rule :=
  ⟨parseProtocol m.protocol, some ⟨false, host podIp⟩, hostMatch m, some m.hostPort, false, none,
    .jump setmarkChain⟩

def localhostRule (m : PortMapping) : Rule :=
  ⟨parseProtocol m.protocol, some ⟨false, host (.ofOctets 127 0 0 1)⟩, none, some m.hostPort,
    false, none, .jump setmarkChain⟩

def dnatRule (podIp : Ipv4Addr) (m : PortMapping) : Rule :=
  ⟨parseProtocol m.protocol, none, hostMatch m, some m.hostPort, false, none,
    .dnat podIp m.containerPort⟩

/-- The rules of one mapping. -/
def mappingRules (podIp : Ipv4Addr) (m : PortMapping) : List Rule :=
  [hairpinRule podIp m, localhostRule m, dnatRule podIp m]

theorem parse_hookRule : parseRule jumpArgs = some hookRule := by decide +kernel

theorem parse_setmarkRule :
    parseRule ["-j", "MARK", "--set-xmark", markText] = some setmarkRule := by
  decide +kernel

theorem parse_masqRule :
    parseRule ["-m", "mark", "--mark", markText, "-j", "MASQUERADE"] = some masqRule := by
  decide +kernel

/-- A jump to a chain that is not named like a target. -/
theorem parse_jumpTo {name : String} (hret : name ≠ "RETURN") (hmasq : name ≠ "MASQUERADE") :
    parseRule ["-j", name] = some (jumpTo name) := by
  simp [parseRule, parseOptions, parseTarget, hret, hmasq, jumpTo]

section

variable {m : PortMapping} (h : Valid m) (podIp : Ipv4Addr)

include h

/-- The options in front of the port are the protocol, maybe a source, and the host address. -/
theorem parseOptions_hostIp (r : Rule) (rest : List String) (hr : r.dst = none) :
    parseOptions r false (hostIpArgs m ++ rest) =
      parseOptions { r with dst := hostMatch m } false rest := by
  unfold hostIpArgs hostMatch
  cases hip : m.hostIpSome with
  | none =>
    cases r
    simp only at hr
    subst hr
    rfl
  | some text =>
    obtain ⟨ip, hparse⟩ := Option.isSome_iff_exists.mp (h.hostIp text hip)
    have haddr : parseAddress (text ++ "/32") = some (host ip) := by
      rw [eq_toString_of_parseIpv4 hparse]
      exact parseAddress_host ip
    simp [parseOptions, haddr, hparse]

theorem parse_dnatArgs : parseRule (dnatArgs m podIp) = some (dnatRule podIp m) := by
  obtain ⟨p, hp⟩ := Option.isSome_iff_exists.mp h.protocol
  have hport := parseUnsigned_repr h.hostPort
  have hdest := parseDestination_toString podIp h.containerPort.1 h.containerPort.2
  have hargs : dnatArgs m podIp = "-p" :: m.protocol :: (hostIpArgs m ++
      ["--dport", m.hostPort.repr, "-j", "DNAT", "--to-destination",
        podIp.toString ++ ":" ++ m.containerPort.repr]) := rfl
  rw [hargs, parseRule, parseOptions]
  simp only [String.reduceEq, if_false, if_true, hp, Option.bind_eq_bind, Option.bind_some]
  rw [parseOptions_hostIp h _ _ rfl]
  simp [-Nat.reducePow, parseOptions, parseTarget, hport, hdest, dnatRule, hp]

theorem parse_hairpinMarkArgs :
    parseRule (hairpinMarkArgs m podIp) = some (hairpinRule podIp m) := by
  obtain ⟨p, hp⟩ := Option.isSome_iff_exists.mp h.protocol
  have hport := parseUnsigned_repr h.hostPort
  have hargs : hairpinMarkArgs m podIp = "-p" :: m.protocol :: "-s" :: (podIp.toString ++ "/32") ::
      (hostIpArgs m ++ ["--dport", m.hostPort.repr, "-j", setmarkChain]) := rfl
  rw [hargs, parseRule, parseOptions]
  simp only [String.reduceEq, if_false, if_true, hp, Option.bind_eq_bind, Option.bind_some]
  rw [parseOptions]
  simp only [String.reduceEq, if_false, if_true, parseAddress_host, Option.bind_eq_bind,
    Option.bind_some]
  rw [parseOptions_hostIp h _ _ rfl]
  simp [-Nat.reducePow, parseOptions, parseTarget, hport, hairpinRule, hp, setmarkChain]

theorem parse_localhostMarkArgs : parseRule (localhostMarkArgs m) = some (localhostRule m) := by
  obtain ⟨p, hp⟩ := Option.isSome_iff_exists.mp h.protocol
  have hport := parseUnsigned_repr h.hostPort
  have haddr : parseAddress "127.0.0.1/32" = some (host (.ofOctets 127 0 0 1)) := by decide +kernel
  simp [-Nat.reducePow, localhostMarkArgs, parseRule, parseOptions, parseTarget, hport, hp, haddr,
    localhostRule, setmarkChain]

end

theorem take_dnChain (id : String) : (dnChain id).toList.take 7 = "CNI-DN-".toList := by
  simp [dnChain]

theorem dnChain_ne {id name : String} (h : name.toList.take 7 ≠ "CNI-DN-".toList) :
    dnChain id ≠ name := by
  rintro rfl
  exact h (take_dnChain id)

theorem length_dnChain (id : String) : (dnChain id).length ≤ 28 := by
  have hprefix : "CNI-DN-".length = 7 := rfl
  simp only [dnChain, String.length_append, hprefix, String.length_ofList, List.length_take]
  omega

/-- What a container has published. -/
structure Published where
  podIp : Ipv4Addr
  mappings : List PortMapping

def matchesMapping (p : Packet) (m : PortMapping) : Bool :=
  parseProtocol m.protocol = some p.proto && m.hostPort = p.dport &&
    m.hostIpSome.all fun ip => parseIpv4 ip = some p.dst

/-- The first mapping that matches decides. -/
def Published.verdict (p : Packet) (pub : Published) : Option Verdict :=
  pub.mappings.findSome? fun m =>
    if matchesMapping p m then some (.dnat pub.podIp m.containerPort) else none

def Published.rules (pub : Published) : List Rule := pub.mappings.flatMap (mappingRules pub.podIp)

/-- A rule of the chain of a container. -/
structure OwnRule (r : Rule) : Prop where
  mark : r.mark = none
  target : r.target = .jump setmarkChain ∨ ∃ addr port, r.target = .dnat addr port

theorem ownRule_of_mem {podIp : Ipv4Addr} {m : PortMapping} {r : Rule}
    (h : r ∈ mappingRules podIp m) : OwnRule r := by
  simp only [mappingRules, List.mem_cons, List.not_mem_nil, or_false] at h
  rcases h with rfl | rfl | rfl
  · exact ⟨rfl, .inl rfl⟩
  · exact ⟨rfl, .inl rfl⟩
  · exact ⟨rfl, .inr ⟨_, _, rfl⟩⟩

/-- What a rule of the chain of a container decides. -/
def ruleVerdict (p : Packet) (r : Rule) : Option Verdict :=
  match r.target with
  | .dnat addr port => if r.test p then some (.dnat addr port) else none
  | _ => none

theorem test_dnatRule {m : PortMapping} (h : Valid m) (podIp : Ipv4Addr) (p : Packet) :
    (dnatRule podIp m).test p = matchesMapping p m := by
  obtain ⟨proto, hproto⟩ := Option.isSome_iff_exists.mp h.protocol
  cases hip : m.hostIpSome with
  | none => simp [dnatRule, Rule.test, matchesMapping, hostMatch, hip, hproto]
  | some text =>
    obtain ⟨ip, hparse⟩ := Option.isSome_iff_exists.mp (h.hostIp text hip)
    simp [dnatRule, Rule.test, matchesMapping, hostMatch, hip, hproto, hparse,
      AddressMatch.test, contains_host, Bool.and_right_comm, eq_comm]

/-- The rules of a container realise its mappings. -/
theorem Published.findSome?_rules {pub : Published} (h : ∀ m ∈ pub.mappings, Valid m)
    (p : Packet) : pub.rules.findSome? (ruleVerdict p) = pub.verdict p := by
  rw [Published.rules, Published.verdict]
  generalize pub.mappings = ms at h
  induction ms with
  | nil => rfl
  | cons m ms ih =>
    obtain ⟨hm, hms⟩ := List.forall_mem_cons.mp h
    rw [List.flatMap_cons, List.findSome?_append, ih hms, List.findSome?_cons]
    have hfirst : (mappingRules pub.podIp m).findSome? (ruleVerdict p) =
        if matchesMapping p m then some (.dnat pub.podIp m.containerPort) else none := by
      have hhairpin : ruleVerdict p (hairpinRule pub.podIp m) = none := rfl
      have hlocalhost : ruleVerdict p (localhostRule m) = none := rfl
      have hdnat : ruleVerdict p (dnatRule pub.podIp m) = if (dnatRule pub.podIp m).test p then
          some (.dnat pub.podIp m.containerPort) else none := rfl
      rw [test_dnatRule hm] at hdnat
      simp only [mappingRules, List.findSome?_cons, List.findSome?_nil, hhairpin, hlocalhost, hdnat]
      by_cases hmatch : matchesMapping p m = true <;> simp [hmatch]
    rw [hfirst]
    by_cases hmatch : matchesMapping p m = true <;> simp [hmatch]

/-- What a container has published by several ADDs, one after the other. -/
def verdictOf (p : Packet) (pubs : List Published) : Option Verdict :=
  pubs.findSome? (Published.verdict p)

/-- The chain of the container then, in which no rule stands twice. -/
def chainOf (pubs : List Published) : List Rule := (pubs.flatMap Published.rules).foldl addNew []

def AllValid (pubs : List Published) : Prop := ∀ pub ∈ pubs, ∀ m ∈ pub.mappings, Valid m

theorem mem_chainOf {pubs : List Published} {r : Rule} :
    r ∈ chainOf pubs ↔ ∃ pub ∈ pubs, ∃ m ∈ pub.mappings, r ∈ mappingRules pub.podIp m := by
  simp [chainOf, mem_foldl_addNew, List.mem_flatMap, Published.rules]

theorem ownRule_of_mem_chainOf {pubs : List Published} {r : Rule} (h : r ∈ chainOf pubs) :
    OwnRule r := by
  obtain ⟨pub, -, m, -, hr⟩ := mem_chainOf.mp h
  exact ownRule_of_mem hr

theorem findSome?_chainOf {pubs : List Published} (h : AllValid pubs) (p : Packet) :
    (chainOf pubs).findSome? (ruleVerdict p) = verdictOf p pubs := by
  rw [chainOf, findSome?_foldl_addNew, List.nil_append, verdictOf]
  induction pubs with
  | nil => rfl
  | cons pub pubs ih =>
    obtain ⟨hpub, hpubs⟩ := List.forall_mem_cons.mp h
    rw [List.flatMap_cons, List.findSome?_append, ih hpubs, Published.findSome?_rules hpub,
      List.findSome?_cons]
    cases pub.verdict p <;> rfl

/-- The same packet, but for its mark. -/
def SameBut (p q : Packet) : Prop := ∃ k, q = { p with mark := k }

theorem SameBut.refl (p : Packet) : SameBut p p := ⟨p.mark, rfl⟩

theorem SameBut.trans {p q q' : Packet} (h : SameBut p q) (h' : SameBut q q') : SameBut p q' := by
  obtain ⟨k, rfl⟩ := h
  obtain ⟨k', rfl⟩ := h'
  exact ⟨k', rfl⟩

theorem SameBut.test {p q : Packet} (h : SameBut p q) {r : Rule} (hr : r.mark = none) :
    r.test q = r.test p := by
  obtain ⟨k, rfl⟩ := h
  simp [Rule.test, hr]

variable {t : Table} {p q : Packet} {rs : List Rule}

theorem walk_eq_traverse (t : Table) (d : ℕ) :
    ∃ enter, walk rules t.chain d = traverse rules enter := by
  cases d with
  | zero => exact ⟨_, rfl⟩
  | succ d => exact ⟨_, rfl⟩

/-- The chain that sets the mark does nothing else. -/
theorem walk_setmark (hrs : ∀ r ∈ rs, r = setmarkRule) (d : ℕ) (q : Packet) :
    (walk rules t.chain d rs q).2 = none ∧ SameBut q (walk rules t.chain d rs q).1 := by
  obtain ⟨enter, henter⟩ := walk_eq_traverse t d
  have hnone : rs.findSome? (fun _ => (none : Option Verdict)) = none :=
    List.findSome?_eq_none_iff.mpr fun _ _ => rfl
  rw [henter, ← hnone]
  apply traverse_of_stable _ _ (.refl q)
  · intro r hr
    rw [hrs r hr]
    simp [setmarkRule, Target.action]
  · intro r hr q' hq'
    rw [hrs r hr]
    obtain ⟨k, rfl⟩ := hq'
    exact ⟨rfl, _, rfl⟩

theorem OwnRule.not_ret {r : Rule} (h : OwnRule r) : rules.action r ≠ .ret := by
  rcases h.target with ht | ⟨addr, port, ht⟩
  · simp [ht, Target.action]
  · simp [ht, Target.action]

/-- A rule of a container does the same whatever the mark. -/
theorem OwnRule.effect_eq {r : Rule} (h : OwnRule r)
    (hmark : ∀ r ∈ t.chain setmarkChain, r = setmarkRule) (d : ℕ) (hq : SameBut p q) :
    (effect rules (fun n q => walk rules t.chain d (t.chain n) q) r q).2 = ruleVerdict p r ∧
      SameBut p (effect rules (fun n q => walk rules t.chain d (t.chain n) q) r q).1 := by
  have htest := hq.test h.mark
  simp only [effect, htest]
  by_cases hc : r.test p = true
  · rw [if_pos hc]
    rcases h.target with ht | ⟨addr, port, ht⟩
    · obtain ⟨hnone, hsame⟩ := walk_setmark (t := t) hmark d q
      simp only [ht, Target.action, ruleVerdict]
      exact ⟨hnone, hq.trans hsame⟩
    · simp only [ht, Target.action, ruleVerdict, if_pos hc]
      exact ⟨trivial, hq⟩
  · rw [if_neg hc]
    rcases h.target with ht | ⟨addr, port, ht⟩
    · simp only [ruleVerdict, ht]
      exact ⟨trivial, hq⟩
    · simp only [ruleVerdict, ht, if_neg hc]
      exact ⟨trivial, hq⟩

/-- The chain of a container decides by its first DNAT rule that matches. -/
theorem walk_own (hmark : ∀ r ∈ t.chain setmarkChain, r = setmarkRule)
    (hrs : ∀ r ∈ rs, OwnRule r) (d : ℕ) (hq : SameBut p q) :
    (walk rules t.chain (d + 1) rs q).2 = rs.findSome? (ruleVerdict p) ∧
      SameBut p (walk rules t.chain (d + 1) rs q).1 :=
  traverse_of_stable (fun r hr => (hrs r hr).not_ret)
    (fun r hr _ hq' => (hrs r hr).effect_eq hmark d hq') hq

/-- What the chains of some containers decide, one after the other. -/
def chainsVerdict (t : Table) (names : List String) (p : Packet) : Option Verdict :=
  names.findSome? fun name => (t.chain name).findSome? (ruleVerdict p)

/-- What the chain that a jump leads to decides. -/
def jumpVerdict (t : Table) (p : Packet) (r : Rule) : Option Verdict :=
  match r.target with
  | .jump name => (t.chain name).findSome? (ruleVerdict p)
  | _ => none

theorem walk_top {names : List String} (hmark : ∀ r ∈ t.chain setmarkChain, r = setmarkRule)
    (hown : ∀ name ∈ names, ∀ r ∈ t.chain name, OwnRule r) (d : ℕ) (hq : SameBut p q) :
    (walk rules t.chain (d + 2) (names.map jumpTo) q).2 = chainsVerdict t names p ∧
      SameBut p (walk rules t.chain (d + 2) (names.map jumpTo) q).1 := by
  have hverdict : chainsVerdict t names p = (names.map jumpTo).findSome? (jumpVerdict t p) := by
    rw [List.findSome?_map]
    rfl
  rw [hverdict]
  apply traverse_of_stable _ _ hq
  · intro r hr
    obtain ⟨name, -, rfl⟩ := List.mem_map.mp hr
    simp [jumpTo, Target.action]
  · intro r hr q' hq'
    obtain ⟨name, hname, rfl⟩ := List.mem_map.mp hr
    exact walk_own hmark (hown name hname) d hq'

/-- The packet with the bit of the mark. -/
def marked (p : Packet) : Packet := { p with mark := mark.apply p.mark }

/-- With a value that is its own mask, the bits of the value are set. -/
theorem apply_eq_or (v old : ℕ) : Mark.apply ⟨v, v⟩ old = old ||| v := by
  apply Nat.eq_of_testBit_eq
  intro i
  simp only [Mark.apply, Nat.testBit_xor, Nat.testBit_and, Nat.testBit_or]
  cases old.testBit i <;> cases v.testBit i <;> rfl

theorem marked_marked (p : Packet) : marked (marked p) = marked p := by
  simp [marked, mark, apply_eq_or]

theorem sameBut_marked (p : Packet) : SameBut p (marked p) := ⟨_, rfl⟩

/-- A rule that sends the packet to be marked. -/
def marksRule (p : Packet) (r : Rule) : Bool := r.target = .jump setmarkChain && r.test p

/-- The chain that sets the mark, with a rule in it. -/
theorem walk_setmark_eq (hrs : ∀ r ∈ rs, r = setmarkRule) (hne : setmarkRule ∈ rs) (d : ℕ)
    (q : Packet) : walk rules t.chain d rs q = (marked q, none) := by
  obtain ⟨enter, henter⟩ := walk_eq_traverse t d
  have hany : rs.any (fun _ => true) = true := List.any_eq_true.mpr ⟨_, hne, rfl⟩
  rw [henter, traverse_of_idempotent (fun _ => True) (fun _ => true) marked ?_ marked_marked
    (fun _ _ => trivial) ?_ trivial, if_pos hany]
  · intro r hr
    rw [hrs r hr]
    simp [setmarkRule, Target.action]
  · intro r hr q' _
    rw [hrs r hr]
    rfl

theorem ruleVerdict_of_none (hnone : rs.findSome? (ruleVerdict p) = none) {r : Rule}
    (hr : r ∈ rs) {addr : Ipv4Addr} {port : ℕ} (ht : r.target = .dnat addr port) :
    r.test p = false := by
  have h := List.findSome?_eq_none_iff.mp hnone r hr
  simpa [ruleVerdict, ht] using h

/-- A chain of a container that decides nothing marks the packet, or leaves it as it is. -/
theorem walk_own_eq (hmark : ∀ r ∈ t.chain setmarkChain, r = setmarkRule)
    (hset : setmarkRule ∈ t.chain setmarkChain) (hrs : ∀ r ∈ rs, OwnRule r)
    (hnone : rs.findSome? (ruleVerdict p) = none) (d : ℕ) (hq : SameBut p q) :
    walk rules t.chain (d + 1) rs q = (if rs.any (marksRule p) then marked q else q, none) := by
  refine traverse_of_idempotent (SameBut p) (marksRule p) marked ?_ marked_marked
    (fun q' hq' => hq'.trans (sameBut_marked q')) ?_ hq
  · intro r hr
    rcases (hrs r hr).target with ht | ⟨addr, port, ht⟩
    · simp [ht, Target.action]
    · simp [ht, Target.action]
  · intro r hr q' hq'
    have htest := hq'.test (hrs r hr).mark
    simp only [effect, htest]
    rcases (hrs r hr).target with ht | ⟨addr, port, ht⟩
    · by_cases hc : r.test p = true
      · simp [ht, hc, Target.action, marksRule, walk_setmark_eq hmark hset d q']
      · simp [hc, marksRule]
    · simp [ruleVerdict_of_none hnone hr ht, marksRule]

/-- The chain that a jump leads to marks the packet. -/
def jumpMarks (t : Table) (p : Packet) (r : Rule) : Bool :=
  match r.target with
  | .jump name => (t.chain name).any (marksRule p)
  | _ => false

/-- So does the chain that jumps to the chains of all containers. -/
theorem walk_top_eq {names : List String} (hmark : ∀ r ∈ t.chain setmarkChain, r = setmarkRule)
    (hset : names ≠ [] → setmarkRule ∈ t.chain setmarkChain)
    (hown : ∀ name ∈ names, ∀ r ∈ t.chain name, OwnRule r)
    (hnone : chainsVerdict t names p = none) (d : ℕ) (hq : SameBut p q) :
    walk rules t.chain (d + 2) (names.map jumpTo) q =
      (if names.any fun name => (t.chain name).any (marksRule p) then marked q else q, none) := by
  have hany : (names.map jumpTo).any (jumpMarks t p) =
      names.any fun name => (t.chain name).any (marksRule p) := by
    rw [List.any_map]
    rfl
  rw [← hany]
  refine traverse_of_idempotent (SameBut p) (jumpMarks t p) marked ?_ marked_marked
    (fun q' hq' => hq'.trans (sameBut_marked q')) ?_ hq
  · intro r hr
    obtain ⟨name, -, rfl⟩ := List.mem_map.mp hr
    simp [jumpTo, Target.action]
  · intro r hr q' hq'
    obtain ⟨name, hname, rfl⟩ := List.mem_map.mp hr
    have hone := List.findSome?_eq_none_iff.mp hnone name hname
    exact walk_own_eq hmark (hset (List.ne_nil_of_mem hname)) (hown name hname) hone d hq'

/-- One hook, met by a packet for the host. -/
theorem walk_hookRule (hlocal : q.dstLocal = true) (d : ℕ) (rs : List Rule) :
    walk rules t.chain (d + 3) (hookRule :: rs) q =
      match walk rules t.chain (d + 2) (t.chain topChain) q with
      | (q', some v) => (q', some v)
      | (q', none) => walk rules t.chain (d + 3) rs q' := by
  have hcond : rules.cond hookRule q = true := by simp [hookRule, Rule.test, hlocal]
  have hjump : rules.action hookRule = .jump topChain := rfl
  have heffect : effect rules (fun n p => walk rules t.chain (d + 2) (t.chain n) p) hookRule q =
      walk rules t.chain (d + 2) (t.chain topChain) q := by
    rw [effect, if_pos hcond, hjump]
  rw [walk, traverse_cons (by rw [hjump]; simp), heffect]
  generalize walk rules t.chain (d + 2) (t.chain topChain) q = e
  obtain ⟨q', v⟩ := e
  cases v with
  | none => rfl
  | some v => rfl

/-- Once the chain of the jumps has decided nothing, it leaves the packet as it is. -/
theorem walk_top_again {names : List String} {q' : Packet}
    (hmark : ∀ r ∈ t.chain setmarkChain, r = setmarkRule)
    (hset : names ≠ [] → setmarkRule ∈ t.chain setmarkChain)
    (hown : ∀ name ∈ names, ∀ r ∈ t.chain name, OwnRule r) (d : ℕ)
    (h : walk rules t.chain (d + 2) (names.map jumpTo) q = (q', none)) :
    walk rules t.chain (d + 2) (names.map jumpTo) q' = (q', none) := by
  obtain ⟨hverdict, hsame⟩ := walk_top hmark hown d (.refl q)
  rw [h] at hverdict hsame
  have hfirst := walk_top_eq hmark hset hown hverdict.symm d (.refl q)
  rw [h] at hfirst
  rw [walk_top_eq hmark hset hown hverdict.symm d hsame]
  obtain rfl := (Prod.mk.inj hfirst).1
  cases names.any fun name => (t.chain name).any (marksRule q) with
  | false => rfl
  | true => simp [marked_marked]

/-- A packet for the host meets the chain of the jumps before all that was there, and what
was there only if it is not translated. It does not matter how often the hook is there. -/
theorem walk_hooks {names : List String} (hmark : ∀ r ∈ t.chain setmarkChain, r = setmarkRule)
    (hset : names ≠ [] → setmarkRule ∈ t.chain setmarkChain)
    (hown : ∀ name ∈ names, ∀ r ∈ t.chain name, OwnRule r)
    (htop : t.chain topChain = names.map jumpTo) (base : List Rule) (d : ℕ) {n : ℕ}
    (hn : names ≠ [] → n ≠ 0) (hlocal : q.dstLocal = true) :
    walk rules t.chain (d + 3) (List.replicate n hookRule ++ base) q =
      match walk rules t.chain (d + 2) (t.chain topChain) q with
      | (q', some v) => (q', some v)
      | (q', none) => walk rules t.chain (d + 3) base q' := by
  have hagain : ∀ p q, walk rules t.chain (d + 2) (t.chain topChain) p = (q, none) →
      walk rules t.chain (d + 2) (t.chain topChain) q = (q, none) := by
    rw [htop]
    exact fun p q h => walk_top_again hmark hset hown d h
  have hsame : ∀ p, SameBut p (walk rules t.chain (d + 2) (t.chain topChain) p).1 := by
    rw [htop]
    exact fun p => (walk_top hmark hown d (.refl p)).2
  cases n with
  | zero =>
    obtain rfl : names = [] := by
      by_contra hne
      exact hn hne rfl
    rw [htop]
    rfl
  | succ n =>
    clear hn
    induction n generalizing q with
    | zero => exact walk_hookRule hlocal d base
    | succ n ih =>
      rw [List.replicate_succ, List.cons_append, walk_hookRule hlocal d]
      cases he : walk rules t.chain (d + 2) (t.chain topChain) q with
      | mk q' v =>
        cases v with
        | some v => rfl
        | none =>
          have hsame' := hsame q
          rw [he] at hsame'
          have hlocal' : q'.dstLocal = true := by
            obtain ⟨k, rfl⟩ := hsame'
            exact hlocal
          simp only [ih hlocal', hagain q q' he]

/-- From the loopback address to the port of the mapping, at whatever address of the host. -/
def fromLocalhost (p : Packet) (m : PortMapping) : Bool :=
  parseProtocol m.protocol = some p.proto && p.src = .ofOctets 127 0 0 1 && m.hostPort = p.dport

theorem test_localhostRule {m : PortMapping} (h : Valid m) :
    (localhostRule m).test p = fromLocalhost p m := by
  obtain ⟨proto, hproto⟩ := Option.isSome_iff_exists.mp h.protocol
  simp [localhostRule, Rule.test, fromLocalhost, hproto, AddressMatch.test, contains_host]

/-- Whatever is marked as coming from the pod itself is translated as well. -/
theorem test_dnatRule_of_hairpinRule {m : PortMapping} {podIp : Ipv4Addr}
    (h : (hairpinRule podIp m).test p = true) : (dnatRule podIp m).test p = true := by
  simp only [hairpinRule, dnatRule, Rule.test] at h ⊢
  grind

/-- A chain that translates nothing marks the packet if it is from the loopback address. -/
theorem any_chainOf {pubs : List Published} (h : AllValid pubs) (hnone : verdictOf p pubs = none) :
    (chainOf pubs).any (marksRule p) = true ↔
      ∃ pub ∈ pubs, ∃ m ∈ pub.mappings, fromLocalhost p m = true := by
  rw [← findSome?_chainOf h] at hnone
  have hdnat := @ruleVerdict_of_none p _ hnone
  rw [List.any_eq_true]
  constructor
  · rintro ⟨r, hr, hmarks⟩
    obtain ⟨pub, hpub, m, hm, hmem⟩ := mem_chainOf.mp hr
    refine ⟨pub, hpub, m, hm, ?_⟩
    have hthere : dnatRule pub.podIp m ∈ chainOf pubs :=
      mem_chainOf.mpr ⟨pub, hpub, m, hm, by simp [mappingRules]⟩
    simp only [mappingRules, List.mem_cons, List.not_mem_nil, or_false] at hmem
    rcases hmem with rfl | rfl | rfl
    · have hfalse := hdnat hthere rfl
      rw [test_dnatRule_of_hairpinRule (by simpa [marksRule, hairpinRule] using hmarks)] at hfalse
      cases hfalse
    · rw [← test_localhostRule (h pub hpub m hm)]
      simpa [marksRule, localhostRule] using hmarks
    · simp [marksRule, dnatRule] at hmarks
  · rintro ⟨pub, hpub, m, hm, hlocal⟩
    refine ⟨localhostRule m, mem_chainOf.mpr ⟨pub, hpub, m, hm, by simp [mappingRules]⟩, ?_⟩
    rw [← test_localhostRule (h pub hpub m hm)] at hlocal
    simpa [marksRule, localhostRule] using hlocal

end FlannelRs.PortmapChains
