import FlannelRs.PortmapOperations

/-!
# Two containers that publish ports

Whether the commands of one container leave alone what belongs to the other.
-/

namespace FlannelRs.PortmapIsolation
open InteractionPrograms ProcessPools Ipv4Addresses RustText CniTypes RuleChains NatTables
open Portmap PortmapChains PortmapTables PortmapInterleavings PortmapOperations

inductive Operation where
  | add (podIp : Ipv4Addr) (mappings : List PortMapping)
  | del

def Operation.code (ipt : Iptables) (id : String) : Operation → TableProgram (Except CniError Unit)
  | .add podIp mappings => (apply ipt id podIp mappings).run
  | .del => (liftM (remove ipt id) : IptablesProgram Unit).run

def tableAnswers : Environment Table Command CommandRes :=
  fun t o r t' => r = .ok (t.answer o).1 ∧ t' = (t.answer o).2

/-- What operations of two containers, in any order, may make of a table. -/
inductive Reached (ipt : Iptables) (a b : String) (t₀ : Table) : Table → Prop where
  | here : Reached ipt a b t₀ t₀
  | step {t t' : Table} {id : String} {op : Operation} {r : Except CniError Unit}
      (run : Reached ipt a b t₀ t) (hid : id = a ∨ id = b)
      (exec : Exec tableAnswers t (op.code ipt id) r t') : Reached ipt a b t₀ t'

/-- What belongs to a container: its chain, and the jumps to it. -/
def holdings (t : Table) (id : String) : Option (List Rule) × List Rule :=
  (t.lookup (dnChain id), (t.chain topChain).filter (· = jumpTo (dnChain id)))

/-- In every run of two containers, the first leaves alone what belongs to the second, and
once it is deleted a packet that the chain of the second translates is so translated. -/
structure Isolated (ipt : Iptables) (a b : String) (t₀ : Table) : Prop where
  kept : ∀ t, Reached ipt a b t₀ t → ∀ (op : Operation) r t', Exec tableAnswers t (op.code ipt a) r t' →
    holdings t' b = holdings t b
  translated : ∀ t, Reached ipt a b t₀ t → ∀ r t',
    Exec tableAnswers t (Operation.del.code ipt a) r t' →
    jumpTo (dnChain b) ∈ t.chain topChain → ∀ p v,
    (t.chain (dnChain b)).findSome? (ruleVerdict p) = some v → ∀ d,
    ∃ q, SameBut p q ∧ walk rules t'.chain (d + 2) (t'.chain topChain) p = (q, some v)

/-- A command that a container may run. -/
def Mine (id : String) : Command → Prop
  | .newChain name => name ∈ sharedChains ∨ name = dnChain id
  | .check _ _ => True
  | .append name args => (name ∈ sharedChains ∧ name ≠ topChain) ∨
      (name = topChain ∧ args = ["-j", dnChain id]) ∨ name = dnChain id
  | .insert name _ => name ∈ sharedChains ∧ name ≠ topChain
  | .delete name args => name = topChain ∧ args = ["-j", dnChain id]
  | .flush name => name = dnChain id
  | .deleteChain name => name = dnChain id

section

variable {ipt : Iptables} {P : Command → Prop}

theorem uses_run {o : Command} (h : P o) : (ipt.run o).run.Uses P := by
  refine Program.Uses.exceptBind (Program.Uses.lift (Program.Uses.send h)) fun r => ?_
  cases r with
  | ok out => trivial
  | error e => trivial

theorem uses_checked {check add : Command} {e : Output → CniError} (hcheck : P check)
    (hadd : P add) : (checked ipt check add e).run.Uses P := by
  refine Program.Uses.exceptBind (uses_run hcheck) fun out => ?_
  cases out.success with
  | true => trivial
  | false =>
    refine Program.Uses.exceptBind (uses_run hadd) fun out => ?_
    cases out.success with
    | true => trivial
    | false => trivial

theorem uses_ensureChain {name : String} (h : P (.newChain name)) :
    (ipt.ensureChain name).run.Uses P := by
  refine Program.Uses.exceptBind (uses_run h) fun out => ?_
  cases out.success with
  | true => trivial
  | false =>
    cases hexists : contains out.stderr "exists" with
    | true => simp [Program.Uses]
    | false => simp [Program.Uses]

theorem uses_forM {A : Type} {xs : List A} {f : A → IptablesProgram Unit}
    (h : ∀ x ∈ xs, (f x).run.Uses P) : (xs.forM f).run.Uses P := by
  induction xs with
  | nil => trivial
  | cons x xs ih =>
    obtain ⟨hx, hxs⟩ := List.forall_mem_cons.mp h
    exact Program.Uses.exceptBind hx fun _ => ih hxs

theorem uses_mappings {name : String} {podIp : Ipv4Addr} {ms : List PortMapping}
    (h : ∀ m ∈ ms, ∀ args ∈ mappingArgs podIp m, P (.check name args) ∧ P (.append name args)) :
    (ms.forM fun m => (mappingArgs podIp m).forM (ipt.ensureRule name)).run.Uses P :=
  uses_forM fun m hm => uses_forM fun args hargs =>
    uses_checked (h m hm args hargs).1 (h m hm args hargs).2

end

theorem uses_apply (ipt : Iptables) (id : String) (podIp : Ipv4Addr) (ms : List PortMapping) :
    (apply ipt id podIp ms).run.Uses (Mine id) := by
  have hcheck : ∀ name args, Mine id (.check name args) := fun _ _ => trivial
  refine Program.Uses.exceptBind ?_ fun _ => ?_
  · refine Program.Uses.exceptBind (uses_ensureChain (.inl (by simp [sharedChains]))) fun _ => ?_
    refine Program.Uses.exceptBind (uses_checked (hcheck _ _) (by simp [Mine, sharedChains, topChain]))
      fun _ => ?_
    refine Program.Uses.exceptBind (uses_checked (hcheck _ _) (by simp [Mine, sharedChains, topChain]))
      fun _ => ?_
    refine Program.Uses.exceptBind (uses_ensureChain (.inl (by simp [sharedChains]))) fun _ => ?_
    refine Program.Uses.exceptBind (uses_checked (hcheck _ _)
      (.inl ⟨by simp [sharedChains], by decide⟩)) fun _ => ?_
    refine Program.Uses.exceptBind (uses_ensureChain (.inl (by simp [sharedChains]))) fun _ => ?_
    refine Program.Uses.exceptBind (uses_checked (hcheck _ _)
      (.inl ⟨by simp [sharedChains], by decide⟩)) fun _ => ?_
    exact uses_checked (hcheck _ _) ⟨by simp [sharedChains], by decide⟩
  · refine Program.Uses.exceptBind (uses_ensureChain (.inr rfl)) fun _ => ?_
    refine Program.Uses.exceptBind (uses_checked (hcheck _ _) (.inr (.inl ⟨rfl, rfl⟩))) fun _ => ?_
    exact uses_mappings fun m _ args _ => ⟨hcheck _ _, .inr (.inr rfl)⟩

theorem uses_remove (ipt : Iptables) (id : String) : (remove ipt id).Uses (Mine id) :=
  ⟨⟨rfl, rfl⟩, fun _ => ⟨rfl, fun _ => ⟨rfl, fun _ => trivial⟩⟩⟩

theorem uses_code (ipt : Iptables) (id : String) (op : Operation) :
    (op.code ipt id).Uses (Mine id) := by
  cases op with
  | add podIp ms => exact uses_apply ipt id podIp ms
  | del => exact Program.Uses.lift (uses_remove ipt id)

section

variable {a b : String} {t : Table} {name : String} {rs : List Rule}

theorem holdings_insert (hname : dnChain b ≠ name)
    (htop : name = topChain → rs.filter (· = jumpTo (dnChain b)) =
      (t.chain topChain).filter (· = jumpTo (dnChain b))) :
    holdings (t.insert name rs) b = holdings t b := by
  rw [holdings, holdings, AList.lookup_insert_ne hname, Table.chain_insert]
  by_cases he : topChain = name
  · rw [if_pos he, htop he.symm]
  · rw [if_neg he]

variable (hne : dnChain a ≠ dnChain b)

include hne

theorem jumpTo_ne : jumpTo (dnChain a) ≠ jumpTo (dnChain b) := by
  intro he
  simp only [jumpTo, Rule.mk.injEq, Target.jump.injEq, true_and] at he
  exact hne he

/-- No command of a container concerns what belongs to a container with another chain. -/
theorem holdings_answer {o : Command} (h : Mine a o) : holdings (t.answer o).2 b = holdings t b := by
  have hown : dnChain a ≠ topChain := dnChain_ne (by decide)
  have hshared : ∀ name ∈ sharedChains, dnChain b ≠ name := fun name hn => dnChain_ne_shared hn
  cases o with
  | newChain name =>
    by_cases hfree : name ∉ t ∧ name.length ≤ 28
    · rw [Table.answer_newChain hfree.1 hfree.2]
      refine holdings_insert (h.elim (hshared name) fun he => he ▸ hne.symm) fun he => ?_
      have hnone : t.lookup topChain = none := AList.lookup_eq_none.mpr (he ▸ hfree.1)
      simp [Table.chain, hnone]
    · have hfail : t.perform (.newChain name) = none := by
        simp only [not_and_or, not_not, not_le] at hfree
        rw [Table.perform, if_pos hfree]
      simp [Table.answer, hfail]
  | check name args => rw [Table.answer_check_table]
  | append name args =>
    cases hread : t.readRule name args with
    | none => simp [Table.answer, Table.perform, hread]
    | some e =>
      obtain ⟨r, rs⟩ := e
      rw [Table.answer_append hread]
      obtain ⟨hlookup, hparse, -⟩ := Table.readRule_eq_some hread
      rcases h with ⟨hname, htop⟩ | ⟨rfl, rfl⟩ | rfl
      · exact holdings_insert (hshared name hname) fun he => absurd he htop
      · rw [parse_jumpTo_dnChain] at hparse
        obtain rfl := Option.some.inj hparse
        refine holdings_insert (hshared _ (by simp [sharedChains])) fun _ => ?_
        simp [Table.chain_of_lookup hlookup, jumpTo_ne hne]
      · exact holdings_insert hne.symm fun he => absurd he hown
  | insert name args =>
    cases hread : t.readRule name args with
    | none => simp [Table.answer, Table.perform, hread]
    | some e =>
      rw [Table.answer_insert hread]
      exact holdings_insert (hshared name h.1) fun he => absurd he h.2
  | delete name args =>
    obtain ⟨rfl, rfl⟩ := h
    by_cases hread : ∃ r rs, t.readRule topChain ["-j", dnChain a] = some (r, rs) ∧ r ∈ rs
    · obtain ⟨r, rs, hread, hmem⟩ := hread
      obtain ⟨hlookup, hparse, -⟩ := Table.readRule_eq_some hread
      rw [Table.answer_delete hread hmem]
      rw [parse_jumpTo_dnChain] at hparse
      obtain rfl := Option.some.inj hparse
      refine holdings_insert (hshared _ (by simp [sharedChains])) fun _ => ?_
      rw [Table.chain_of_lookup hlookup]
      rw [← List.erase_filter, List.erase_of_not_mem (by simp [jumpTo_ne hne])]
    · rw [(Table.answer_delete_of_absent fun r rs h hmem => hread ⟨r, rs, h, hmem⟩).2]
  | flush name =>
    obtain rfl : name = dnChain a := h
    by_cases hmem : dnChain a ∈ t
    · rw [Table.answer_flush hmem]
      exact holdings_insert hne.symm fun he => absurd he hown
    · rw [Table.answer_flush_of_not_mem hmem]
  | deleteChain name =>
    obtain rfl : name = dnChain a := h
    by_cases hdelete : t.lookup (dnChain a) = some [] ∧ dnChain a ∉ builtin ∧
        t.referenced (dnChain a) = false
    · rw [Table.answer_deleteChain hdelete.1 hdelete.2.1 hdelete.2.2, holdings, holdings,
        AList.lookup_erase_ne hne.symm, Table.chain, AList.lookup_erase_ne hown.symm, Table.chain]
    · simp [Table.answer, Table.perform, if_neg hdelete]

/-- Whatever else is in the table, an operation keeps what belongs to a container with another
chain. -/
theorem holdings_kept {ipt : Iptables} {op : Operation} {r : Except CniError Unit} {t' : Table}
    (h : Exec tableAnswers t (op.code ipt a) r t') : holdings t' b = holdings t b := by
  have hwlp : wlp tableAnswers (fun _ t' => holdings t' b = holdings t b) (op.code ipt a) t := by
    refine (uses_code ipt a op).wlp (R := fun t t' => holdings t' b = holdings t b)
      (fun _ => rfl) (fun s t u h h' => h'.trans h) ?_ t
    intro t o r t' hmine hr
    rw [hr.2]
    exact holdings_answer hne hmine
  exact h.wlp hwlp

end

theorem dnat_of_parseDestination {text : String} {target : Target}
    (h : parseDestination text = some target) : ∃ addr port, target = .dnat addr port := by
  unfold parseDestination at h
  split at h
  · simp only [Option.bind_eq_bind, Option.bind_eq_some_iff] at h
    obtain ⟨ip, -, port, -, h⟩ := h
    by_cases hzero : port = 0
    · rw [if_pos hzero] at h
      cases h
    · rw [if_neg hzero] at h
      exact ⟨ip, port, (Option.some.inj h).symm⟩
  · cases h

/-- The host address and the port are read, and what follows the port is the target, whatever the
mapping. -/
theorem parseOptions_port {r r' : Rule} {m : PortMapping} {port name : String}
    {rest : List String}
    (h : parseOptions r false (hostIpArgs m ++ "--dport" :: port :: "-j" :: name :: rest) = some r') :
    (r'.mark = r.mark ∧ parseTarget (name :: rest) = some r'.target) ∧
      (∀ ip ∈ m.hostIpSome, (parseIpv4 ip).isSome) ∧ (parseUnsigned (2 ^ 16) port).isSome := by
  have hport : ∀ r, parseOptions r false ("--dport" :: port :: "-j" :: name :: rest) = some r' →
      (r'.mark = r.mark ∧ parseTarget (name :: rest) = some r'.target) ∧
        (parseUnsigned (2 ^ 16) port).isSome := by
    intro r h
    rw [parseOptions_dport] at h
    obtain ⟨p, hp, h⟩ := Option.bind_eq_some_iff.mp h
    rw [parseOptions_target] at h
    obtain ⟨target, htarget, rfl⟩ := Option.map_eq_some_iff.mp h
    exact ⟨⟨rfl, htarget⟩, by rw [hp]; rfl⟩
  unfold hostIpArgs at h
  cases hip : m.hostIpSome with
  | none =>
    rw [hip] at h
    exact ⟨(hport r h).1, nofun, (hport r h).2⟩
  | some text =>
    rw [hip] at h
    simp only [List.cons_append, List.nil_append] at h
    rw [parseOptions_dst] at h
    obtain ⟨net, hnet, h⟩ := Option.bind_eq_some_iff.mp h
    refine ⟨(hport _ h).1, fun ip hmem => ?_, (hport _ h).2⟩
    rw [← Option.some.inj hmem]
    exact parseIpv4_of_parseAddress hnet

/-- If `iptables` understands a rule for marking at all, it sends to be marked. -/
theorem mark_of_parse {podIp : Ipv4Addr} {m : PortMapping} {args : List String} {r : Rule}
    (hargs : args = hairpinMarkArgs m podIp ∨ args = localhostMarkArgs m)
    (h : parseRule args = some r) : r.mark = none ∧ r.target = .jump setmarkChain := by
  have hset : parseTarget [setmarkChain] = some (.jump setmarkChain) := by decide +kernel
  rcases hargs with rfl | rfl
  · have hhead : hairpinMarkArgs m podIp = "-p" :: m.protocol :: "-s" :: (podIp.toString ++ "/32") ::
        (hostIpArgs m ++ ["--dport", m.hostPort.repr, "-j", setmarkChain]) := rfl
    rw [hhead, parseRule, parseOptions_protocol] at h
    obtain ⟨proto, -, h⟩ := Option.bind_eq_some_iff.mp h
    rw [parseOptions_src] at h
    obtain ⟨net, -, h⟩ := Option.bind_eq_some_iff.mp h
    obtain ⟨⟨hmark, htarget⟩, -⟩ := parseOptions_port h
    exact ⟨hmark, Option.some.inj (htarget.symm.trans hset)⟩
  · rw [localhostMarkArgs, parseRule, parseOptions_protocol] at h
    obtain ⟨proto, -, h⟩ := Option.bind_eq_some_iff.mp h
    rw [parseOptions_src] at h
    obtain ⟨net, -, h⟩ := Option.bind_eq_some_iff.mp h
    rw [parseOptions_dport] at h
    obtain ⟨port, -, h⟩ := Option.bind_eq_some_iff.mp h
    rw [parseOptions_target] at h
    obtain ⟨target, htarget, rfl⟩ := Option.map_eq_some_iff.mp h
    exact ⟨rfl, Option.some.inj (htarget.symm.trans hset)⟩

/-- If `iptables` understands the rule at all, it is one that may stand in the chain. -/
theorem ownRule_of_parse {podIp : Ipv4Addr} {m : PortMapping} {args : List String} {r : Rule}
    (hargs : args ∈ mappingArgs podIp m) (h : parseRule args = some r) : OwnRule r := by
  simp only [mappingArgs, List.mem_cons, List.not_mem_nil, or_false] at hargs
  rw [← or_assoc] at hargs
  rcases hargs with hargs | rfl
  · obtain ⟨hmark, htarget⟩ := mark_of_parse hargs h
    exact ⟨hmark, .inl htarget⟩
  · have hhead : dnatArgs m podIp = "-p" :: m.protocol :: (hostIpArgs m ++
        ["--dport", m.hostPort.repr, "-j", "DNAT", "--to-destination",
          podIp.toString ++ ":" ++ m.containerPort.repr]) := rfl
    rw [hhead, parseRule, parseOptions_protocol] at h
    obtain ⟨proto, -, h⟩ := Option.bind_eq_some_iff.mp h
    obtain ⟨⟨hmark, htarget⟩, -⟩ := parseOptions_port h
    rw [parseTarget_dnat] at htarget
    exact ⟨hmark, .inr (dnat_of_parseDestination htarget)⟩

section

variable {C : Type} [DecidableEq C] {ids : C → String} {t₀ : Table} {c : C} {s : Node C}
variable {own : Option (List Rule)} {jumped : Prop} {pubs : List Published}

/-- What every command keeps, the program keeps. -/
theorem safe_uses {J α : Type} {j : J} {P : Node C → Prop} {prog : TableProgram α}
    (hP : Stable ids c P) (h : prog.Uses fun o => Moves ids t₀ c o P fun _ => P) (hs : P s) :
    SafeIn ids t₀ c j (fun _ => P) prog s := by
  induction prog generalizing s with
  | ret a => exact fun s₁ hr _ => hP s s₁ hr hs
  | request o next ih =>
    rintro s₁ hr hi r s₂ ⟨rfl, rfl⟩
    obtain ⟨hinv, hguar, hpost⟩ := h.1 s₁ hi (hP s s₁ hr hs)
    exact ⟨hinv, hguar, ih _ (h.2 _) hpost⟩

variable {ipt : Iptables} {J : Type} {j : J} (hinj : Function.Injective fun c => dnChain (ids c))

include hinj

/-- The chain of the container may have got more rules. -/
theorem moves_anyRule {args : List String} (hown : ∀ r, parseRule args = some r → OwnRule r) :
    Moves ids t₀ c (.append (dnChain (ids c)) args)
      (fun s => ∃ rs, Knows ids c (some rs) jumped pubs (fun _ => True) s)
      fun _ s => ∃ rs, Knows ids c (some rs) jumped pubs (fun _ => True) s := by
  rintro s hi ⟨rs, hk⟩
  have hne : ∀ name args', Command.append (dnChain (ids c)) args = .append name args' ∨
      Command.append (dnChain (ids c)) args = .delete name args' → name ≠ topChain := by
    rintro _ _ (h | h) <;> cases h
    exact dnChain_ne (by decide)
  cases hread : s.table.readRule (dnChain (ids c)) args with
  | none =>
    have hself : (s.table.answer (.append (dnChain (ids c)) args)).2 = s.table := by
      simp [Table.answer, Table.perform, hread]
    rw [advance_self hself fun name args' h => .inl (hne name args' h)]
    exact ⟨hi, .refl s, rs, hk⟩
  | some e =>
    obtain ⟨r, rs'⟩ := e
    obtain ⟨hlookup, hparse, -⟩ := Table.readRule_eq_some hread
    have hguar : Guar ids c s (s.put (dnChain (ids c)) (rs' ++ [r])) := .put_own hinj c _
    rw [advance_put (Table.answer_append hread) hne]
    refine ⟨hi.put (.of_own c fun x hx => ?_), hguar, _, AList.lookup_insert _, hk.jumped, hk.live,
      trivial⟩
    rcases List.mem_append.mp hx with hx | hx
    · exact (hi.fits _ _ hlookup).own c rfl x hx
    · rw [List.mem_singleton.mp hx]
      exact hown r hparse

omit hinj in
theorem moves_anyCheck {P : Node C → Prop} (name : String) (args : List String) :
    Moves ids t₀ c (.check name args) P fun _ => P := by
  intro s hi hs
  rw [advance_self (Table.answer_check_table ..) (by rintro _ _ (h | h) <;> cases h)]
  exact ⟨hi, .refl s, hs⟩

/-- There is no jump to a chain that is not there. -/
def Tidy (ids : C → String) (c : C) (s : Node C) : Prop :=
  c ∈ s.jumps → (s.table.lookup (dnChain (ids c))).isSome

/-- Whatever is asked for, and whether it succeeds or not. -/
theorem safe_code (hfresh : Fresh ids t₀) (hi : Inv ids t₀ s) (htidy : Tidy ids c s)
    (op : Operation) :
    SafeIn ids t₀ c j (fun _ => Tidy ids c) (op.code ipt (ids c)) s := by
  have htrue : Lasting fun _ : Node C => True := fun _ _ _ h => h
  have hk : Knows ids c (s.table.lookup (dnChain (ids c))) (c ∈ s.jumps) (s.live c)
      (fun _ => True) s := ⟨rfl, Iff.rfl, rfl, trivial⟩
  cases op with
  | add podIp ms =>
    refine safe_unit_bind (safe_ensureTopChains hfresh hi hk) hi fun s₁ hi₁ hk₁ => ?_
    refine safe_unit_bind (safe_ensureChain (Knows.stable lasting_ready)
      (Knows.stable lasting_ready) (moves_newOwn hinj lasting_ready) hi₁ hk₁) hi₁
      fun s₂ hi₂ hk₂ => ?_
    refine safe_unit_bind (safe_ensureJump hinj lasting_ready (fun s h => h.top) hi₂ hk₂) hi₂
      fun s₃ hi₃ hk₃ => ?_
    have hstable : Stable ids c fun s => ∃ rs, Knows ids c (some rs) True (s₃.live c)
        (fun _ => True) s := fun s s' hr ⟨rs, h⟩ => ⟨rs, Knows.stable htrue s s' hr h⟩
    refine Contract.Safe.mono (safe_uses hstable (uses_mappings fun m _ args hargs =>
      ⟨moves_anyCheck _ _, moves_anyRule hinj fun r hr => ownRule_of_parse hargs hr⟩)
      ⟨_, hk₃.own, hk₃.jumped, rfl, trivial⟩) ?_
    rintro r s' - ⟨rs, hk'⟩ -
    rw [hk'.own]
    rfl
  | del =>
    refine Contract.Safe.lift (Contract.Safe.mono (safe_remove hinj hfresh htrue htidy hi hk) ?_)
    exact fun _ s' _ hk' hjump => absurd (hk'.jumped.mp hjump) id

end

theorem tableAnswers_total (t : Table) (o : Command) : ∃ r t', tableAnswers t o r t' :=
  ⟨_, _, rfl, rfl⟩

/-- The books about the jumps can be kept along every run. -/
theorem exec_lift {C α : Type} [DecidableEq C] (c : C) {prog : TableProgram α} {t t' : Table}
    {r : α} (h : Exec tableAnswers t prog r t') (s : Node C) (hs : s.table = t) :
    ∃ s', Exec (answered c) s prog r s' ∧ s'.table = t' := by
  induction h generalizing s with
  | ret t r => exact ⟨s, .ret s r, hs⟩
  | @request t t₁ t₂ o r next a step rest ih =>
    obtain ⟨rfl, rfl⟩ := step
    subst hs
    obtain ⟨s', hexec, hs'⟩ := ih (advance c o s) rfl
    exact ⟨s', .request ⟨rfl, rfl⟩ hexec, hs'⟩

def pair (a b : String) : Bool → String
  | true => a
  | false => b

section

variable {ipt : Iptables} {a b : String} {t₀ t : Table}

theorem pair_injective (hne : dnChain a ≠ dnChain b) :
    Function.Injective fun i => dnChain (pair a b i) := by
  intro i i' h
  cases i with
  | true =>
    cases i' with
    | true => rfl
    | false => exact absurd h hne
  | false =>
    cases i' with
    | true => exact absurd h.symm hne
    | false => rfl

/-- A node on which no container is at work. -/
structure Quiet (a b : String) (t₀ : Table) (s : Node Bool) : Prop where
  inv : Inv (pair a b) t₀ s
  tidy : ∀ i, Tidy (pair a b) i s

theorem Quiet.exec {s s' : Node Bool} {i : Bool} {op : Operation} {r : Except CniError Unit}
    (h : Quiet a b t₀ s) (hne : dnChain a ≠ dnChain b) (hfresh : Fresh (pair a b) t₀)
    (hexec : Exec (answered i) s (op.code ipt (pair a b i)) r s') : Quiet a b t₀ s' := by
  have hsafe : SafeIn (pair a b) t₀ i () (fun _ => Tidy (pair a b) i)
      (op.code ipt (pair a b i)) s :=
    safe_code (pair_injective hne) hfresh h.inv (h.tidy i) op
  obtain ⟨hinv, htidy, hrely⟩ := hsafe.exec h.inv hexec
  refine ⟨hinv, fun q => ?_⟩
  by_cases hq : q = i
  · exact hq ▸ htidy
  · intro hjump
    obtain ⟨-, huntouched⟩ := hrely q hq
    rw [huntouched.own]
    exact h.tidy q (huntouched.jump.mp hjump)

theorem quiet_of_reached (hne : dnChain a ≠ dnChain b) (hfresh : Fresh (pair a b) t₀)
    (h : Reached ipt a b t₀ t) : ∃ s, Quiet a b t₀ s ∧ s.table = t := by
  induction h with
  | here => exact ⟨⟨t₀, fun _ => [], []⟩, ⟨inv_initial hfresh, by simp [Tidy]⟩, rfl⟩
  | @step t t' id op r _ hid hexec ih =>
    obtain ⟨s, hs, htable⟩ := ih
    obtain ⟨i, rfl⟩ : ∃ i, pair a b i = id :=
      hid.elim (fun h => ⟨true, h.symm⟩) fun h => ⟨false, h.symm⟩
    obtain ⟨s', hlift, htable'⟩ := exec_lift i hexec s htable
    exact ⟨s', hs.exec hne hfresh hlift, htable'⟩

/-- After the DEL of the first container, only the second has a jump. -/
theorem jumps_of_del {jumps : List Bool} (hnodup : jumps.Nodup) (hfirst : true ∉ jumps)
    (hsecond : false ∈ jumps) : jumps = [false] := by
  have hall : ∀ i ∈ jumps, i = false := by
    intro i hi
    cases i with
    | true => exact absurd hi hfirst
    | false => rfl
  have hreplicate := List.eq_replicate_of_mem hall
  rw [hreplicate, List.nodup_replicate] at hnodup
  have hpos := List.length_pos_of_mem hsecond
  have hone : jumps.length = 1 := by omega
  rw [hreplicate, hone]
  rfl

theorem translated_after_del (hne : dnChain a ≠ dnChain b) (hfresh : Fresh (pair a b) t₀)
    (h : Reached ipt a b t₀ t) {r : Except CniError Unit} {t' : Table}
    (hexec : Exec tableAnswers t (Operation.del.code ipt a) r t')
    (hjump : jumpTo (dnChain b) ∈ t.chain topChain) {p : Packet} {v : Verdict}
    (hv : (t.chain (dnChain b)).findSome? (ruleVerdict p) = some v) (d : ℕ) :
    ∃ q, SameBut p q ∧ walk rules t'.chain (d + 2) (t'.chain topChain) p = (q, some v) := by
  have hinj := pair_injective hne
  obtain ⟨s, hs, rfl⟩ := quiet_of_reached hne hfresh h
  obtain ⟨s', hlift, rfl⟩ := exec_lift true hexec s rfl
  have hsafe : SafeIn (pair a b) t₀ true () (fun _ => Knows (pair a b) true none False (s.live true)
      (fun _ => True)) (Operation.del.code ipt a) s :=
    Contract.Safe.lift (safe_remove hinj hfresh (fun _ _ _ h => h) (hs.tidy true) hs.inv
      ⟨rfl, Iff.rfl, rfl, trivial⟩)
  obtain ⟨hinv, hk, hrely⟩ := hsafe.exec hs.inv hlift
  obtain ⟨-, huntouched⟩ := hrely false (by decide)
  have hmem : topChain ∈ s.table := by
    by_contra hnot
    simp [Table.chain, AList.lookup_eq_none.mpr hnot] at hjump
  rw [chain_top hs.inv hmem] at hjump
  have hsecond : false ∈ s.jumps := (jumpTo_mem_iff (c := false) hinj).mp hjump
  have hjumps := jumps_of_del hinv.nodup hk.jumped.mp (huntouched.jump.mpr hsecond)
  have hmem' : topChain ∈ s'.table := by
    by_contra hnot
    simp [hinv.top hnot] at hjumps
  have htop : s'.table.chain topChain = [dnChain b].map jumpTo := by
    rw [chain_top hinv hmem', hjumps]
    rfl
  have hlookup : s'.table.chain (dnChain b) = s.table.chain (dnChain b) :=
    congrArg (Option.getD · []) huntouched.own
  have hown : ∀ name ∈ [dnChain b], ∀ r ∈ s'.table.chain name, OwnRule r := by
    intro name hname r hr
    rw [List.mem_singleton.mp hname] at hr
    cases hb : s'.table.lookup (dnChain b) with
    | none => simp [Table.chain, hb] at hr
    | some rs =>
      rw [Table.chain_of_lookup hb] at hr
      exact (hinv.fits _ _ hb).own false rfl r hr
  obtain ⟨hverdict, hsame⟩ := walk_top hinv.setmark_only hown d (.refl p)
  rw [← htop] at hverdict hsame
  refine ⟨_, hsame, Prod.ext rfl (hverdict.trans ?_)⟩
  simp [chainsVerdict, hlookup, hv]

/-- With one chain for both, the DEL of the first takes away what the second has. -/
theorem not_isolated (heq : dnChain a = dnChain b) (hfresh : Fresh (pair a b) t₀) :
    ¬ Isolated ipt a b t₀ := by
  intro hisolated
  let pub : Published := ⟨.ofOctets 10 244 1 5, [⟨8080, 80, "tcp", none⟩]⟩
  have hvalid : ∀ m ∈ pub.mappings, Valid m := by
    intro m hm
    obtain rfl := List.mem_singleton.mp hm
    exact ⟨by decide +kernel, fun ip h => (by simp [PortMapping.hostIpSome] at h), by decide,
      by decide⟩
  have hfresh' : Fresh (fun _ : Unit => b) t₀ :=
    ⟨hfresh.builtin, hfresh.shared, fun _ => hfresh.own false, hfresh.jumps⟩
  have hinj : Function.Injective fun _ : Unit => dnChain b := fun _ _ _ => rfl
  obtain ⟨r, t₁, hadd⟩ := Exec.exists_of_total tableAnswers_total
    ((Operation.add pub.podIp pub.mappings).code ipt b) t₀
  obtain ⟨r', t₂, hdel⟩ := Exec.exists_of_total tableAnswers_total (Operation.del.code ipt a) t₁
  have hreached : Reached ipt a b t₀ t₁ := .step .here (.inr rfl) hadd
  have hkept := congrArg Prod.fst (hisolated.kept t₁ hreached .del r' t₂ hdel)
  have hsame : Operation.del.code ipt a = Operation.del.code ipt b := by
    simp only [Operation.code, remove, heq]
  rw [hsame] at hdel
  obtain ⟨s₁, hlift₁, rfl⟩ := exec_lift () hadd (⟨t₀, fun _ => [], []⟩ : Node Unit) rfl
  obtain ⟨s₂, hlift₂, rfl⟩ := exec_lift () hdel s₁ rfl
  have hempty : t₀.lookup (dnChain b) = none := AList.lookup_eq_none.mpr (hfresh.own false)
  have happly : SafeIn (fun _ : Unit => b) t₀ () () (fun r s => r = .ok () ∧
      Knows (fun _ : Unit => b) () (some (pub.rules.foldl addNew [])) True [] Ready s)
      (apply ipt b pub.podIp pub.mappings).run ⟨t₀, fun _ => [], []⟩ :=
    safe_apply hinj hfresh' hvalid (inv_initial hfresh')
      ⟨hempty, (iff_false_intro List.not_mem_nil : _ ↔ False), rfl, trivial⟩
  obtain ⟨hinv₁, ⟨-, hk₁⟩, -⟩ := happly.exec (inv_initial hfresh') hlift₁
  have hremove : SafeIn (fun _ : Unit => b) t₀ () () (fun _ =>
      Knows (fun _ : Unit => b) () none False [] Ready) (Operation.del.code ipt b) s₁ :=
    Contract.Safe.lift (safe_remove hinj hfresh' lasting_ready (fun _ => rfl) hinv₁ hk₁)
  obtain ⟨-, hk₂, -⟩ := hremove.exec hinv₁ hlift₂
  have hnone : s₂.table.lookup (dnChain b) = none := hk₂.own
  simp only [holdings, hnone, hk₁.own] at hkept
  cases hkept

end

/-- The containers are isolated, in every run from a table without anything of the plugin,
exactly if their chains have different names. Then this holds of every operation, whatever
else is in the table. -/
theorem isolated_iff (ipt : Iptables) (a b : String) (t₀ : Table) (hfresh : Fresh (pair a b) t₀) :
    (Isolated ipt a b t₀ ↔ dnChain a ≠ dnChain b) ∧
    (dnChain a ≠ dnChain b → ∀ (t : Table) (op : Operation) r t',
      Exec tableAnswers t (op.code ipt a) r t' → holdings t' b = holdings t b) := by
  refine ⟨⟨fun h heq => not_isolated heq hfresh h, fun hne => ?_⟩, ?_⟩
  · constructor
    · exact fun t _ op r t' hexec => holdings_kept hne hexec
    · exact fun t h r t' hexec hjump p v hv d =>
        translated_after_del hne hfresh h hexec hjump hv d
  · exact fun hne t op r t' hexec => holdings_kept hne hexec

theorem isolated_two_pods : Isolated ⟨"iptables"⟩ "pod1" "pod2" builtinTable :=
  (isolated_iff ⟨"iptables"⟩ "pod1" "pod2" builtinTable (fresh_builtinTable _)).1.mpr
    (by decide +kernel)

/-- An operation of a container alone. -/
def runOn (t : Table) (id : String) (op : Operation) : Option (Except CniError Unit × Table) :=
  (op.code ⟨"iptables"⟩ id).run (fun o t => some (.ok (t.answer o).1, (t.answer o).2)) t

theorem exec_runOn {t t' : Table} {id : String} {op : Operation} {r : Except CniError Unit}
    (h : runOn t id op = some (r, t')) : Exec tableAnswers t (op.code ⟨"iptables"⟩ id) r t' := by
  refine Program.exec_of_run (fun o t r t' he => ?_) h
  obtain ⟨rfl, rfl⟩ := Prod.mk.inj (Option.some.inj he)
  exact ⟨rfl, rfl⟩

/-- The DEL of `pod-1` takes away the chain of `pod1`, and the port of `pod1` is no longer
translated. -/
theorem del_removes_other_container : ∃ t₁ t₂ r,
    Exec tableAnswers builtinTable ((Operation.add (.ofOctets 10 244 1 5)
      [⟨8080, 80, "tcp", none⟩]).code ⟨"iptables"⟩ "pod1") (.ok ()) t₁ ∧
    Exec tableAnswers t₁ (Operation.del.code ⟨"iptables"⟩ "pod-1") r t₂ ∧
    holdings t₂ "pod1" ≠ holdings t₁ "pod1" ∧
    (walk rules t₁.chain 2 (t₁.chain topChain)
      ⟨.tcp, .ofOctets 198 51 100 9, .ofOctets 192 0 2 7, 8080, true, 0⟩).2 =
        some (.dnat (.ofOctets 10 244 1 5) 80) ∧
    (walk rules t₂.chain 2 (t₂.chain topChain)
      ⟨.tcp, .ofOctets 198 51 100 9, .ofOctets 192 0 2 7, 8080, true, 0⟩).2 = none := by
  have hrun : ((runOn builtinTable "pod1" (.add (.ofOctets 10 244 1 5)
      [⟨8080, 80, "tcp", none⟩])).bind fun e₁ => (runOn e₁.2 "pod-1" .del).map fun e₂ =>
        (e₁.1.isOk, decide (holdings e₂.2 "pod1" ≠ holdings e₁.2 "pod1"),
          (walk rules e₁.2.chain 2 (e₁.2.chain topChain)
            ⟨.tcp, .ofOctets 198 51 100 9, .ofOctets 192 0 2 7, 8080, true, 0⟩).2,
          (walk rules e₂.2.chain 2 (e₂.2.chain topChain)
            ⟨.tcp, .ofOctets 198 51 100 9, .ofOctets 192 0 2 7, 8080, true, 0⟩).2)) =
      some (true, true, some (.dnat (.ofOctets 10 244 1 5) 80), none) := by
    decide +kernel
  obtain ⟨⟨r₁, t₁⟩, h₁, hrun⟩ := Option.bind_eq_some_iff.mp hrun
  obtain ⟨⟨r₂, t₂⟩, h₂, hrun⟩ := Option.map_eq_some_iff.mp hrun
  simp only [Prod.mk.injEq] at hrun
  obtain ⟨hok, hne, hbefore, hafter⟩ := hrun
  cases r₁ with
  | error e => cases hok
  | ok u => exact ⟨t₁, t₂, r₂, exec_runOn h₁, exec_runOn h₂, of_decide_eq_true hne, hbefore, hafter⟩

end FlannelRs.PortmapIsolation
