import FlannelRs.PortmapOperations

/-!
# The ports that are published when no container is at work

After every run, what is published is what the containers have, and a packet for the host
meets it.
-/

namespace FlannelRs.PublishedPorts
open InteractionPrograms ProcessPools Ipv4Addresses RustText CniTypes RuleChains NatTables
open Portmap PortmapChains PortmapTables PortmapInterleavings PortmapOperations

variable {C : Type} {ids : C → String} {t₀ : Table} {c : C} {s s' : Node C}

/-- The chain of a container that has published something. -/
def ownChain : List Published → Option (List Rule)
  | [] => none
  | pub :: pubs => some (chainOf (pub :: pubs))

/-- The table has what the container has published, and nothing else of it. -/
structure Serves (ids : C → String) (c : C) (pubs live : List Published) (s : Node C) : Prop where
  valid : AllValid pubs
  knows : Knows ids c (ownChain pubs) (pubs ≠ []) live (fun s => pubs ≠ [] → Ready s) s

theorem chainOf_concat (pubs : List Published) (pub : Published) :
    chainOf (pubs ++ [pub]) = pub.rules.foldl addNew ((ownChain pubs).getD []) := by
  have hown : (ownChain pubs).getD [] = chainOf pubs := by
    cases pubs with
    | nil => rfl
    | cons pub pubs => rfl
  rw [hown, chainOf, List.flatMap_append, List.foldl_append, List.flatMap_singleton]
  rfl

theorem ownChain_concat (pubs : List Published) (pub : Published) :
    ownChain (pubs ++ [pub]) = some (chainOf (pubs ++ [pub])) := by
  cases pubs with
  | nil => rfl
  | cons pub' pubs => rfl

theorem Serves.stable {pubs live : List Published} : Stable ids c (Serves ids c pubs live) :=
  fun s s' hr h => ⟨h.valid, Knows.stable
    (fun _ _ hl hready hne => lasting_ready _ _ hl (hready hne)) s s' hr h.knows⟩

/-- What a job leaves behind. -/
def Outcome [Crates] (ids : C → String) (c : C) (j : Job) (r : Except CniError String) (s : Node C) :
    Prop := Serves ids c (publishedAfter r (s.live c) j) (s.live c) s

section

variable [DecidableEq C] [Crates] {ipt : Iptables} {j : Job} {live : List Published}
  {args : CniArgs} {stdin : String}

theorem safe_ret {r : Except CniError String} (h : Serves ids c (publishedAfter r live j) live s) :
    SafeIn ids t₀ c j (Outcome ids c j) (.ret r) s := by
  intro s₁ hr _
  have h₁ := Serves.stable s s₁ hr h
  rwa [Outcome, h₁.knows.live]

/-- An ADD that fails has published nothing. -/
theorem safe_error {e : CniError} (h : Serves ids c live live s) :
    SafeIn ids t₀ c (Job.add args stdin) (Outcome ids c (.add args stdin)) (.ret (.error e)) s :=
  safe_ret h

variable (hinj : Function.Injective fun c => dnChain (ids c))

include hinj

theorem safe_cmdAdd (hfresh : Fresh ids t₀) (hi : Inv ids t₀ s)
    (hadm : Admissible ids c s (.add args stdin)) (hs : Serves ids c live live s) :
    SafeIn ids t₀ c (Job.add args stdin) (Outcome ids c (.add args stdin))
      (cmdAdd ipt args stdin).run s := by
  obtain ⟨hid, hvalid⟩ := hadm
  unfold cmdAdd
  cases hconf : PortmapConf.parse stdin with
  | none => exact safe_error hs
  | some conf =>
    cases hprev : conf.prevResult with
    | none =>
      simp only [hprev]
      exact safe_error hs
    | some prev =>
      simp only [hprev]
      by_cases hempty : conf.portMappings = []
      · have hpub : published stdin = none := by simp [published, hconf, hprev, hempty]
        rw [if_neg (not_not.mpr hempty)]
        apply safe_ret
        simpa [publishedAfter, hpub] using hs
      · rw [if_pos hempty]
        cases hip : podIpv4 prev with
        | none => exact safe_error hs
        | some podIp =>
          have hpub : published stdin = some ⟨podIp, conf.portMappings⟩ := by
            simp [published, hconf, hprev, hempty, hip]
          have hmappings : ∀ m ∈ (Published.mk podIp conf.portMappings).mappings, Valid m :=
            hvalid conf hconf
          rw [hid]
          refine safe_unit_bind (safe_apply hinj hfresh hmappings hi
            ⟨hs.knows.own, hs.knows.jumped, hs.knows.live, trivial⟩) hi fun s₁ _ hk => ?_
          apply safe_ret
          have hafter : publishedAfter (.ok prev.toJson) live (.add args stdin) =
              live ++ [⟨podIp, conf.portMappings⟩] := by
            simp [publishedAfter, hpub, Except.isOk, Except.toBool]
          rw [hafter]
          refine ⟨?_, ?_, ?_, hk.live, fun _ => hk.facts⟩
          · intro pub hmem
            rcases List.mem_append.mp hmem with hmem | hmem
            · exact hs.valid pub hmem
            · rw [List.mem_singleton.mp hmem]
              exact hvalid conf hconf
          · rw [hk.own, ownChain_concat, chainOf_concat]
          · simpa using hk.jumped

theorem safe_cmdDel (hfresh : Fresh ids t₀) (hi : Inv ids t₀ s)
    (hadm : Admissible ids c s (.del args stdin)) (hs : Serves ids c live live s) :
    SafeIn ids t₀ c (Job.del args stdin) (Outcome ids c (.del args stdin))
      (cmdDel ipt args stdin).run s := by
  obtain ⟨hid, hempty⟩ := hadm
  have hremove : SafeIn ids t₀ c (Job.del args stdin) (Outcome ids c (.del args stdin))
      (do liftM (remove ipt args.containerId); return "" : IptablesProgram String).run s := by
    have hown : live ≠ [] → (ownChain live).isSome := by
      intro hne
      cases live with
      | nil => exact absurd rfl hne
      | cons pub pubs => rfl
    have htrue : Lasting fun _ : Node C => True := fun _ _ _ h => h
    rw [hid]
    refine Contract.Safe.liftBind (safe_remove hinj hfresh htrue hown hi
      ⟨hs.knows.own, hs.knows.jumped, hs.knows.live, trivial⟩) hi fun _ s₁ _ hk => ?_
    apply safe_ret
    have hafter : publishedAfter (.ok "") live (.del args stdin) = [] := rfl
    rw [hafter]
    exact ⟨fun _ h => absurd h List.not_mem_nil, hk.own, by simpa using hk.jumped, hk.live,
      fun h => absurd rfl h⟩
  unfold cmdDel
  cases hconf : PortmapConf.parse stdin with
  | none => exact hremove
  | some conf =>
    by_cases hnone : conf.portMappings = []
    · simp only [hnone, if_true]
      obtain rfl : live = [] := hs.knows.live.symm.trans (hempty conf hconf hnone)
      exact safe_ret hs
    · simpa only [hnone, if_false] using hremove

/-- The contract is kept by every ADD and every DEL. -/
theorem verified (ipt : Iptables) (hfresh : Fresh ids t₀) :
    Verified (system ipt ids) (contract ids t₀ Job) (fun c s => Serves ids c (s.live c) (s.live c) s)
      (Outcome ids) where
  idle_rely c s s' _ hr h := by
    rw [hr.untouched.live]
    exact Serves.stable s s' hr h
  start c j s s' hi hs h := by
    obtain ⟨hadm, rfl⟩ := h
    refine ⟨hi, .refl s', ?_⟩
    cases j with
    | add args stdin => exact safe_cmdAdd hinj hfresh hi hadm hs
    | del args stdin => exact safe_cmdDel hinj hfresh hi hadm hs
  finish c j r s s' hi h hs' := by
    obtain rfl : s' = _ := hs'
    refine ⟨⟨hi.fits, hi.kept, hi.nodup, hi.top⟩, ⟨⟨fun _ _ h => h, fun _ _ _ _ h => h⟩, ?_⟩, ?_⟩
    · exact fun q hq => ⟨rfl, Iff.rfl, Function.update_of_ne hq _ _⟩
    · have hlive : Function.update s.live c (publishedAfter r (s.live c) j) c =
          publishedAfter r (s.live c) j := Function.update_self ..
      simp only [hlive]
      exact ⟨h.valid, h.knows.own, h.knows.jumped, hlive, fun hne =>
        (lasting_ready (C := C)) s _ ⟨fun _ _ h => h, fun _ _ _ _ h => h⟩ (h.knows.facts hne)⟩

end

/-- All that is published, in the order in which the jumps were appended. -/
def allPublished (s : Node C) : List Published := s.jumps.flatMap s.live

/-- No container is at work. -/
structure Settled (ids : C → String) (t₀ : Table) (s : Node C) : Prop where
  inv : Inv ids t₀ s
  serves : ∀ c, Serves ids c (s.live c) (s.live c) s

/-- The mapping that a packet meets first decides, and without one nothing changes. -/
def Realised (s : Node C) (d : ℕ) (p : Packet) : Prop :=
  match verdictOf p (allPublished s) with
  | some v => ∃ q, SameBut p q ∧
      walk rules s.table.chain (d + 2) (s.table.chain topChain) p = (q, some v)
  | none => walk rules s.table.chain (d + 2) (s.table.chain topChain) p = (p, none)

/-- The packet matches a mapping, or has the mark anyway, or comes to no published port from
the loopback address. -/
def Spared (s : Node C) (p : Packet) : Prop :=
  (∃ pub ∈ allPublished s, ∃ m ∈ pub.mappings, matchesMapping p m = true) ∨ marked p = p ∨
    ∀ pub ∈ allPublished s, ∀ m ∈ pub.mappings, fromLocalhost p m = false

theorem verdictOf_eq_none {p : Packet} {pubs : List Published} : verdictOf p pubs = none ↔
    ∀ pub ∈ pubs, ∀ m ∈ pub.mappings, matchesMapping p m = false := by
  simp [verdictOf, Published.verdict]

theorem verdictOf_append (p : Packet) (pubs pubs' : List Published) :
    verdictOf p (pubs ++ pubs') = (verdictOf p pubs).or (verdictOf p pubs') :=
  List.findSome?_append

theorem findSome?_jumps {p : Packet} {jumps : List C} {live : C → List Published}
    {f : C → Option Verdict} (hf : ∀ c ∈ jumps, f c = verdictOf p (live c)) :
    jumps.findSome? f = verdictOf p (jumps.flatMap live) := by
  induction jumps with
  | nil => rfl
  | cons c jumps ih =>
    obtain ⟨hfirst, hrest⟩ := List.forall_mem_cons.mp hf
    rw [List.findSome?_cons, List.flatMap_cons, verdictOf_append, ih hrest, hfirst]
    cases verdictOf p (live c) <;> rfl

namespace Settled

variable {p : Packet} (h : Settled ids t₀ s)

include h

theorem mem_jumps (c : C) : c ∈ s.jumps ↔ s.live c ≠ [] := (h.serves c).knows.jumped

theorem ready (hc : c ∈ s.jumps) : Ready s := (h.serves c).knows.facts ((h.mem_jumps c).mp hc)

theorem chain_own (hc : c ∈ s.jumps) : s.table.chain (dnChain (ids c)) = chainOf (s.live c) := by
  have hne := (h.mem_jumps c).mp hc
  have hown := (h.serves c).knows.own
  cases hlive : s.live c with
  | nil => exact absurd hlive hne
  | cons pub pubs =>
    rw [hlive] at hown
    exact Table.chain_of_lookup hown

theorem chain_top : s.table.chain topChain =
    (s.jumps.map fun c => dnChain (ids c)).map jumpTo := by
  rw [List.map_map]
  by_cases htop : topChain ∈ s.table
  · exact PortmapInterleavings.chain_top h.inv htop
  · rw [h.inv.top htop, Table.chain, AList.lookup_eq_none.mpr htop]
    rfl

theorem setmark_there (hne : (s.jumps.map fun c => dnChain (ids c)) ≠ []) :
    setmarkRule ∈ s.table.chain setmarkChain := by
  obtain ⟨c, hc⟩ := List.exists_mem_of_ne_nil _ (List.map_eq_nil_iff.not.mp hne)
  exact (h.ready hc).setmarkRule

theorem own_rules : ∀ name ∈ s.jumps.map (fun c => dnChain (ids c)), ∀ r ∈ s.table.chain name,
    OwnRule r := by
  intro name hname r hr
  obtain ⟨c, hc, rfl⟩ := List.mem_map.mp hname
  rw [h.chain_own hc] at hr
  exact ownRule_of_mem_chainOf hr

theorem chainsVerdict_eq : chainsVerdict s.table (s.jumps.map fun c => dnChain (ids c)) p =
    verdictOf p (allPublished s) := by
  rw [chainsVerdict, List.findSome?_map]
  apply findSome?_jumps
  intro c hc
  rw [Function.comp_apply, h.chain_own hc, findSome?_chainOf (h.serves c).valid]

theorem valid : AllValid (allPublished s) := by
  intro pub hpub
  obtain ⟨c, -, hmem⟩ := List.mem_flatMap.mp hpub
  exact (h.serves c).valid pub hmem

/-- What is not translated is marked if it comes to a published port from the loopback
address. -/
theorem marks_iff (hnone : verdictOf p (allPublished s) = none) :
    ((s.jumps.map fun c => dnChain (ids c)).any fun name =>
      (s.table.chain name).any (marksRule p)) = true ↔
    ∃ pub ∈ allPublished s, ∃ m ∈ pub.mappings, fromLocalhost p m = true := by
  rw [verdictOf_eq_none] at hnone
  have hone : ∀ c ∈ s.jumps, (s.table.chain (dnChain (ids c))).any (marksRule p) = true ↔
      ∃ pub ∈ s.live c, ∃ m ∈ pub.mappings, fromLocalhost p m = true := by
    intro c hc
    rw [h.chain_own hc]
    exact any_chainOf (h.serves c).valid (verdictOf_eq_none.mpr fun pub hpub =>
      hnone pub (List.mem_flatMap.mpr ⟨c, hc, hpub⟩))
  rw [List.any_map, List.any_eq_true]
  constructor
  · rintro ⟨c, hc, hany⟩
    obtain ⟨pub, hpub, hm⟩ := (hone c hc).mp hany
    exact ⟨pub, List.mem_flatMap.mpr ⟨c, hc, hpub⟩, hm⟩
  · rintro ⟨pub, hpub, hm⟩
    obtain ⟨c, hc, hmem⟩ := List.mem_flatMap.mp hpub
    exact ⟨c, hc, (hone c hc).mpr ⟨pub, hmem, hm⟩⟩

/-- The first mapping that matches decides. -/
theorem walk_some {v : Verdict} (hv : verdictOf p (allPublished s) = some v) (d : ℕ) :
    ∃ q, SameBut p q ∧
      walk rules s.table.chain (d + 2) (s.table.chain topChain) p = (q, some v) := by
  obtain ⟨hverdict, hsame⟩ := walk_top h.inv.setmark_only h.own_rules d (.refl p)
  rw [← h.chain_top] at hverdict hsame
  rw [h.chainsVerdict_eq, hv] at hverdict
  exact ⟨_, hsame, Prod.ext rfl hverdict⟩

theorem walk_none (hv : verdictOf p (allPublished s) = none) (d : ℕ) :
    walk rules s.table.chain (d + 2) (s.table.chain topChain) p = (p, none) ↔
      marked p = p ∨ ∀ pub ∈ allPublished s, ∀ m ∈ pub.mappings, fromLocalhost p m = false := by
  rw [h.chain_top, walk_top_eq h.inv.setmark_only h.setmark_there h.own_rules
    (h.chainsVerdict_eq.trans hv) d (.refl p)]
  have hmarks := h.marks_iff hv
  by_cases hany : ∃ pub ∈ allPublished s, ∃ m ∈ pub.mappings, fromLocalhost p m = true
  · rw [if_pos (hmarks.mpr hany)]
    have hnot : ¬ ∀ pub ∈ allPublished s, ∀ m ∈ pub.mappings, fromLocalhost p m = false := by
      obtain ⟨pub, hpub, m, hm, hlocal⟩ := hany
      intro hall
      rw [hall pub hpub m hm] at hlocal
      cases hlocal
    simp [hnot]
  · rw [if_neg (hmarks.not.mpr hany)]
    simp only [true_iff]
    refine .inr fun pub hpub m hm => ?_
    by_contra hne
    exact hany ⟨pub, hpub, m, hm, by simpa using hne⟩

theorem realised_iff (d : ℕ) (p : Packet) : Realised s d p ↔ Spared s p := by
  unfold Realised Spared
  cases hv : verdictOf p (allPublished s) with
  | some v =>
    have hmatch : ∃ pub ∈ allPublished s, ∃ m ∈ pub.mappings, matchesMapping p m = true := by
      have hne : verdictOf p (allPublished s) ≠ none := by simp [hv]
      simpa [verdictOf_eq_none] using hne
    exact iff_of_true (h.walk_some hv d) (.inl hmatch)
  | none =>
    have hmatch : ¬ ∃ pub ∈ allPublished s, ∃ m ∈ pub.mappings, matchesMapping p m = true := by
      simpa using verdictOf_eq_none.mp hv
    rw [or_iff_right hmatch]
    exact h.walk_none hv d

/-- A packet for the host is sent through the chain of the jumps first. -/
theorem walk_builtin (hfresh : Fresh ids t₀) {hook : String}
    (hhook : hook = "PREROUTING" ∨ hook = "OUTPUT") (d : ℕ) (hlocal : p.dstLocal = true) :
    walk rules s.table.chain (d + 3) (s.table.chain hook) p =
      match walk rules s.table.chain (d + 2) (s.table.chain topChain) p with
      | (q, some v) => (q, some v)
      | (q, none) => walk rules s.table.chain (d + 3) (t₀.chain hook) q := by
  have hmem : hook ∈ s.table := by
    apply h.inv.kept
    apply hfresh.builtin
    rcases hhook with rfl | rfl <;> simp
  obtain ⟨n, hn⟩ := (h.inv.fits _ _ (lookup_of_mem hmem)).hook hhook
  have hpos : (s.jumps.map fun c => dnChain (ids c)) ≠ [] → n ≠ 0 := by
    rintro hne rfl
    obtain ⟨c, hc⟩ := List.exists_mem_of_ne_nil _ (List.map_eq_nil_iff.not.mp hne)
    have hthere : hookRule ∈ s.table.chain hook := by
      rcases hhook with rfl | rfl
      · exact (h.ready hc).prerouting
      · exact (h.ready hc).output
    rw [hn, List.replicate_zero, List.nil_append] at hthere
    cases hlookup : t₀.lookup hook with
    | none => simp [Table.chain, hlookup] at hthere
    | some rs =>
      rw [Table.chain_of_lookup hlookup] at hthere
      exact hfresh.shared topChain (by simp) (hfresh.jumps _ _ hlookup _ hthere _ rfl)
  rw [hn]
  exact walk_hooks h.inv.setmark_only h.setmark_there h.own_rules h.chain_top _ d hpos hlocal

end Settled

/-- Nothing is published, and no container is at work. -/
def initial (C : Type) (t₀ : Table) :
    Config (Node C) C Job Command CommandRes (Except CniError String) :=
  ⟨⟨t₀, fun _ => [], []⟩, fun _ => none⟩

theorem settled_of_reachable [DecidableEq C] [Crates] {ipt : Iptables} (hfresh : Fresh ids t₀)
    (hinj : Function.Injective fun c => dnChain (ids c))
    {d : Config (Node C) C Job Command CommandRes (Except CniError String)}
    (hrun : (system ipt ids).Reachable (initial C t₀) d) (hidle : ∀ c, d.busy c = none) :
    Settled ids t₀ d.state := by
  have hinitial : ∀ c, Stands (system ipt ids) (contract ids t₀ Job)
      (fun c s => Serves ids c (s.live c) (s.live c) s) (Outcome ids) (initial C t₀) c := by
    intro c
    have hnone : t₀.lookup (dnChain (ids c)) = none := AList.lookup_eq_none.mpr (hfresh.own c)
    exact ⟨fun _ h => absurd h List.not_mem_nil, hnone,
      iff_of_false List.not_mem_nil fun h => h rfl, rfl, fun h => absurd rfl h⟩
  have hinv₀ : Inv ids t₀ (initial C t₀).state := inv_initial hfresh
  obtain ⟨hinv, hstands⟩ := (verified hinj ipt hfresh).reachable hinv₀ hinitial hrun
  refine ⟨hinv, fun c => ?_⟩
  have hc := hstands c
  rwa [Stands, hidle c] at hc

/-- After every run, the chain of the jumps is that of the containers with published ports,
and of no other container anything remains. A packet for the host meets that chain first,
which does with it what the mappings say exactly if it is spared the mark for traffic from
the loopback address. -/
theorem port_map_realised_iff [Crates] (C : Type) [DecidableEq C] (ipt : Iptables)
    (ids : C → String) (t₀ : Table) (hfresh : Fresh ids t₀)
    (hinj : Function.Injective fun c => dnChain (ids c))
    (d : Config (Node C) C Job Command CommandRes (Except CniError String))
    (hrun : (system ipt ids).Reachable (initial C t₀) d) (hidle : ∀ c, d.busy c = none) :
    (d.state.jumps.Nodup ∧ (∀ c, c ∈ d.state.jumps ↔ d.state.live c ≠ []) ∧
      d.state.table.chain topChain = d.state.jumps.map fun c => jumpTo (dnChain (ids c))) ∧
    (∀ c, d.state.live c = [] → dnChain (ids c) ∉ d.state.table ∧
      d.state.table.referenced (dnChain (ids c)) = false) ∧
    ∀ p, p.dstLocal = true → ∀ n, (∀ hook ∈ ["PREROUTING", "OUTPUT"],
        walk rules d.state.table.chain (n + 3) (d.state.table.chain hook) p =
          match walk rules d.state.table.chain (n + 2) (d.state.table.chain topChain) p with
          | (q, some v) => (q, some v)
          | (q, none) => walk rules d.state.table.chain (n + 3) (t₀.chain hook) q) ∧
      (Realised d.state n p ↔ Spared d.state p) := by
  have h := settled_of_reachable hfresh hinj hrun hidle
  refine ⟨⟨h.inv.nodup, h.mem_jumps, ?_⟩, fun c hlive => ⟨?_, ?_⟩, fun p hlocal n => ⟨?_, ?_⟩⟩
  · rw [h.chain_top, List.map_map]
    rfl
  · have hown := (h.serves c).knows.own
    rw [hlive] at hown
    exact AList.lookup_eq_none.mp hown
  · have hjump : c ∉ d.state.jumps := (h.mem_jumps c).not.mpr (not_not.mpr hlive)
    exact Table.referenced_eq_false fun name rs hname r hr =>
      not_jump_of_not_mem hinj hfresh h.inv hjump hname hr
  · intro hook hhook
    exact h.walk_builtin hfresh (by simpa using hhook) n hlocal
  · exact h.realised_iff n p

/-- The configuration of a pod whose port is published at one address of the host. -/
def podConf : String :=
  "\x7b\"runtimeConfig\":\x7b\"portMappings\":[\x7b\"hostPort\":8080,\"containerPort\":80," ++
    "\"hostIP\":\"192.0.2.7\"\x7d]\x7d,\"prevResult\":\x7b\"cniVersion\":\"0.3.1\"," ++
    "\"ips\":[\x7b\"version\":\"4\",\"address\":\"10.244.1.5/24\"\x7d]\x7d\x7d"

def podJob : Job := .add ⟨"ADD", "c1", "/proc/1/ns/net", "eth0", "", "/opt/cni/bin"⟩ podConf

def podSystem : System (Node Unit) Unit Job Command CommandRes (Except CniError String) :=
  @system Unit Crates.compact _ ⟨"iptables"⟩ fun _ => "c1"

/-- The node after the ADD. -/
def podNode : Option (Node Unit) :=
  ((podSystem.code () podJob).run (fun o s => some (.ok (s.table.answer o).1, advance () o s))
    (initial Unit builtinTable).state).map fun r => ⟨r.2.table, Function.update r.2.live ()
      (@publishedAfter Crates.compact r.1 (r.2.live ()) podJob), r.2.jumps⟩

theorem podJob_admissible (s : Node Unit) :
    @Admissible Unit Crates.compact (fun _ => "c1") () s podJob := by
  let := Crates.compact
  have hconf : (PortmapConf.parse podConf).map PortmapConf.portMappings =
      some [⟨8080, 80, "tcp", some "192.0.2.7"⟩] := by decide +kernel
  refine ⟨rfl, fun conf h m hm => ?_⟩
  rw [h, Option.map_some, Option.some.injEq] at hconf
  rw [hconf, List.mem_singleton] at hm
  subst hm
  exact ⟨by decide +kernel, by decide +kernel, by decide, by decide⟩

theorem podNode_reachable {s : Node Unit} (h : podNode = some s) :
    ∃ d, podSystem.Reachable (initial Unit builtinTable) d ∧ (∀ c, d.busy c = none) ∧
      d.state = s := by
  obtain ⟨⟨r, s₁⟩, hrun, rfl⟩ := Option.map_eq_some_iff.mp h
  have hexec : Exec (podSystem.answers () podJob) (initial Unit builtinTable).state
      (podSystem.code () podJob) r s₁ := by
    refine Program.exec_of_run (fun o s r s' he => ?_) hrun
    obtain ⟨rfl, rfl⟩ := Prod.mk.inj (Option.some.inj he)
    exact ⟨rfl, rfl⟩
  have hstart : podSystem.start () podJob (initial Unit builtinTable).state
      (initial Unit builtinTable).state := ⟨podJob_admissible _, rfl⟩
  have hdone := System.Reachable.job .here rfl hstart hexec
  exact ⟨_, .step hdone (.finish (Config.goOn_busy_self ..) rfl),
    fun _ => Config.goOn_busy_self .., rfl⟩

def toPort (src dst : Ipv4Addr) : Packet := ⟨.tcp, src, dst, 8080, true, 0⟩

theorem port_map_realised_pod : ∃ d,
    podSystem.Reachable (initial Unit builtinTable) d ∧ (∀ c, d.busy c = none) ∧
      Realised d.state 0 (toPort (.ofOctets 198 51 100 9) (.ofOctets 192 0 2 7)) := by
  have hmatch : podNode.map (fun s => decide (∃ pub ∈ allPublished s, ∃ m ∈ pub.mappings,
      matchesMapping (toPort (.ofOctets 198 51 100 9) (.ofOctets 192 0 2 7)) m = true)) =
      some true := by
    decide +kernel
  obtain ⟨s, hs, hmatch⟩ := Option.map_eq_some_iff.mp hmatch
  obtain ⟨d, hd, hidle, rfl⟩ := podNode_reachable hs
  have hiff := @port_map_realised_iff Crates.compact Unit _ ⟨"iptables"⟩ (fun _ => "c1")
    builtinTable (fresh_builtinTable _) (fun _ _ _ => rfl) d hd hidle
  exact ⟨d, hd, hidle, (hiff.2.2 _ rfl 0).2.mpr (.inl (of_decide_eq_true hmatch))⟩

/-- A packet from the loopback address to the port at another address of the host matches no
mapping, and is marked. -/
theorem unmatched_packet_marked : ∃ d,
    podSystem.Reachable (initial Unit builtinTable) d ∧ (∀ c, d.busy c = none) ∧
      ¬ Realised d.state 0 (toPort (.ofOctets 127 0 0 1) (.ofOctets 127 0 0 1)) := by
  have hwalk : podNode.map (fun s =>
      (verdictOf (toPort (.ofOctets 127 0 0 1) (.ofOctets 127 0 0 1)) (allPublished s),
        (walk rules s.table.chain 2 (s.table.chain topChain)
          (toPort (.ofOctets 127 0 0 1) (.ofOctets 127 0 0 1))).1.mark)) = some (none, 0x2000) := by
    decide +kernel
  obtain ⟨s, hs, hpair⟩ := Option.map_eq_some_iff.mp hwalk
  obtain ⟨hverdict, hmark⟩ := Prod.mk.inj hpair
  obtain ⟨d, hd, hidle, rfl⟩ := podNode_reachable hs
  refine ⟨d, hd, hidle, fun hreal => ?_⟩
  rw [Realised, hverdict] at hreal
  rw [hreal] at hmark
  exact absurd hmark (by decide)

end FlannelRs.PublishedPorts
