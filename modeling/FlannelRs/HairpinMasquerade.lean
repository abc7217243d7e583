import FlannelRs.Masquerade
import FlannelRs.PortmapMarks

/-!
# Published ports that are reached from the pod itself

`portmap` inserts its jump at the top of `POSTROUTING`, `flanneld` and others append their
rules behind it. What the chain of a container has marked and translated is masqueraded.
-/

namespace FlannelRs.HairpinMasquerade
open InteractionPrograms ProcessPools Ipv4Addresses RustText CniTypes RuleChains NatTables
open Portmap PortmapChains PortmapSteps PortmapMarks
open PortmapInterleavings (published checked)
open PortmapIsolation (mark_of_parse)
open Masquerade (Responds)

/-- A container, and what it publishes. -/
structure Container where
  id : String
  ports : Published

/-- The nat table, with the ADDs that were started and those that were completed. -/
structure State where
  table : Table
  begun : List Container
  completed : List Container

/-- An ADD of `portmap`, a call of `IpMasq::ensure`, or a rule that a third party appends. -/
inductive Job where
  | add (args : CniArgs) (stdin : String)
  | ensure (network subnet : String)
  | append (name : String) (args : List String)

inductive Outcome where
  | added (r : Except CniError String)
  | ensured (r : Except Masquerade.Failure Unit)
  | appended (r : Except String Output)

/-- The chains that only `portmap` has rules in. -/
def PortmapChain (name : String) : Prop :=
  name = setmarkChain ∨ name = masqChain ∨ ∃ id, name = dnChain id

/-- A third party has rules of its own, in chains that are not those of `portmap`. -/
def ThirdParty : Job → Prop
  | .append name args => ¬ PortmapChain name ∧
      (name = "POSTROUTING" → parseRule args ≠ some (jumpTo masqChain))
  | _ => True

section

variable [Crates]

/-- What an ADD publishes. -/
def publication : Job → Option Container
  | .add args stdin => (published stdin).map fun ports => ⟨args.containerId, ports⟩
  | _ => none

/-- An ADD is completed when it succeeds. -/
def completion (j : Job) : Outcome → Option Container
  | .added (.ok _) => publication j
  | _ => none

/-- Any number of processes. A command may also fail, and then it has no effect. -/
def system (ipt : Iptables) : System State ℕ Job Command CommandRes Outcome where
  code _ j := match j with
    | .add args stdin => do return .added (← (cmdAdd ipt args stdin).run)
    | .ensure network subnet => do return .ensured (← (Masquerade.ensure network subnet).run)
    | .append name args => do return .appended (← Program.send (.append name args))
  start _ j s s' := ThirdParty j ∧ s' = { s with begun := (publication j).toList ++ s.begun }
  answers _ _ s o r s' := Responds s.table o r s'.table ∧ s'.begun = s.begun ∧
    s'.completed = s.completed
  finish _ j a s s' := s' = { s with completed := (completion j a).toList ++ s.completed }

end

abbrev NodeConfig := Config State ℕ Job Command CommandRes Outcome

/-- No rule of `portmap`. -/
structure Clean (t : Table) : Prop where
  own : ∀ name, PortmapChain name → t.chain name = []
  post : jumpTo masqChain ∉ t.chain "POSTROUTING"

def initial (t : Table) : NodeConfig := ⟨⟨t, [], []⟩, fun _ => none⟩

/-- A packet with the destination that a chain has given it. -/
def translated (p : Packet) (addr : Ipv4Addr) (port : ℕ) (dstLocal : Bool) : Packet :=
  { p with dst := addr, dport := port, dstLocal := dstLocal }

/-- What comes to a published port of the container from its own address or the loopback
address, and is translated by its chain, is masqueraded. -/
def Masqueraded (t : Table) (c : Container) : Prop :=
  ∀ p, (∃ m ∈ c.ports.mappings, matchesMapping p m = true) →
    p.src = c.ports.podIp ∨ p.src = .ofOctets 127 0 0 1 →
    ∀ d q addr port,
      walk rules t.chain (d + 1) (t.chain (dnChain c.id)) p = (q, some (.dnat addr port)) →
    ∀ dstLocal e, (walk rules t.chain (e + 1) (t.chain "POSTROUTING")
      (translated q addr port dstLocal)).2 = some .masquerade

/-- Containers with different addresses that share a chain have no port in common. -/
def Apart (begun : List Container) : Prop :=
  ∀ a ∈ begun, ∀ b ∈ begun, dnChain a.id = dnChain b.id → a.ports.podIp = b.ports.podIp ∨
    ∀ p, ∀ m ∈ a.ports.mappings, ∀ m' ∈ b.ports.mappings,
      ¬ (matchesMapping p m = true ∧ matchesMapping p m' = true)

/-- The chain of a container: what translates stands behind what marks. -/
structure Serving (begun : List Container) (name : String) (rs : List Rule) : Prop where
  hairpin : Covered hairpinFor rs
  localhost : Covered localhostFor rs
  rules : ∀ r ∈ rs, OwnRule r
  source : ∀ r ∈ rs, ∀ addr port, r.target = .dnat addr port → ∃ c ∈ begun, dnChain c.id = name ∧
    ∃ m ∈ c.ports.mappings, Valid m ∧ r = dnatRule c.ports.podIp m

structure Orderly (begun : List Container) (name : String) (rs : List Rule) : Prop where
  post : name = "POSTROUTING" → ∃ n rest, rs = List.replicate n (jumpTo masqChain) ++ rest ∧
    jumpTo masqChain ∉ rest
  setmark : name = setmarkChain → ∀ r ∈ rs, r = setmarkRule
  masq : name = masqChain → ∀ r ∈ rs, r = masqRule
  own : ∀ id, name = dnChain id → Serving begun name rs

section

variable {begun begun' : List Container} {name : String} {rs : List Rule} {r : Rule}

theorem Orderly.mono (h : Orderly begun name rs) (hsub : ∀ c ∈ begun, c ∈ begun') :
    Orderly begun' name rs where
  post := h.post
  setmark := h.setmark
  masq := h.masq
  own id hid := by
    obtain ⟨hhairpin, hlocalhost, hrules, hsource⟩ := h.own id hid
    refine ⟨hhairpin, hlocalhost, hrules, fun r hr addr port ht => ?_⟩
    obtain ⟨c, hc, hfrom⟩ := hsource r hr addr port ht
    exact ⟨c, hsub c hc, hfrom⟩

/-- Of most chains nothing is asked. -/
theorem Orderly.of_other (hpost : name ≠ "POSTROUTING") (hname : ¬ PortmapChain name) :
    Orderly begun name rs where
  post he := absurd he hpost
  setmark he := absurd (.inl he) hname
  masq he := absurd (.inr (.inl he)) hname
  own id he := absurd (.inr (.inr ⟨id, he⟩)) hname

theorem Orderly.of_post (h : ∃ n rest, rs = List.replicate n (jumpTo masqChain) ++ rest ∧
    jumpTo masqChain ∉ rest) : Orderly begun "POSTROUTING" rs where
  post _ := h
  setmark he := absurd he (by decide)
  masq he := absurd he (by decide)
  own _ he := absurd he.symm (dnChain_ne (by decide))

theorem Orderly.of_setmark (h : ∀ r ∈ rs, r = setmarkRule) : Orderly begun setmarkChain rs where
  post he := absurd he (by decide)
  setmark _ := h
  masq he := absurd he (by decide)
  own _ he := absurd he.symm (dnChain_ne (by decide))

theorem Orderly.of_masq (h : ∀ r ∈ rs, r = masqRule) : Orderly begun masqChain rs where
  post he := absurd he (by decide)
  setmark he := absurd he (by decide)
  masq _ := h
  own _ he := absurd he.symm (dnChain_ne (by decide))

theorem Orderly.of_own (id : String) (h : Serving begun (dnChain id) rs) :
    Orderly begun (dnChain id) rs where
  post he := absurd he (dnChain_ne (by decide))
  setmark he := absurd he (dnChain_ne (by decide))
  masq he := absurd he (dnChain_ne (by decide))
  own _ _ := h

/-- A rule that others append to `POSTROUTING`. -/
theorem Orderly.append_post (h : Orderly begun "POSTROUTING" rs) (hr : r ≠ jumpTo masqChain) :
    Orderly begun "POSTROUTING" (rs ++ [r]) := by
  obtain ⟨n, rest, rfl, hrest⟩ := h.post rfl
  refine .of_post ⟨n, rest ++ [r], List.append_assoc .., ?_⟩
  simp [hrest, hr.symm]

theorem Orderly.insert_post (h : Orderly begun "POSTROUTING" rs) :
    Orderly begun "POSTROUTING" (jumpTo masqChain :: rs) := by
  obtain ⟨n, rest, rfl, hrest⟩ := h.post rfl
  exact .of_post ⟨n + 1, rest, rfl, hrest⟩

/-- A rule that only sends to be marked. -/
theorem Serving.append_mark (h : Serving begun name rs) (hr : OwnRule r)
    (ht : r.target = .jump setmarkChain) : Serving begun name (rs ++ [r]) where
  hairpin := h.hairpin.concat (by simp [hairpinFor, ht])
  localhost := h.localhost.concat (by simp [localhostFor, ht])
  rules := by
    intro x hx
    rcases List.mem_append.mp hx with hx | hx
    · exact h.rules x hx
    · rwa [List.mem_singleton.mp hx]
  source := by
    intro x hx addr port hdnat
    rcases List.mem_append.mp hx with hx | hx
    · exact h.source x hx addr port hdnat
    · rw [List.mem_singleton.mp hx, ht] at hdnat
      cases hdnat

/-- A rule that translates, behind those that mark. -/
theorem Serving.append_dnat {c : Container} {m : PortMapping} (h : Serving begun name rs)
    (hc : c ∈ begun) (hname : dnChain c.id = name) (hm : m ∈ c.ports.mappings) (hvalid : Valid m)
    (hhairpin : hairpinRule c.ports.podIp m ∈ rs) (hlocalhost : localhostRule m ∈ rs) :
    Serving begun name (rs ++ [dnatRule c.ports.podIp m]) where
  hairpin := h.hairpin.concat fun q hq => by rwa [← Option.some.inj hq]
  localhost := h.localhost.concat fun q hq => by rwa [← Option.some.inj hq]
  rules := by
    intro x hx
    rcases List.mem_append.mp hx with hx | hx
    · exact h.rules x hx
    · rw [List.mem_singleton.mp hx]
      exact ⟨rfl, .inr ⟨_, _, rfl⟩⟩
  source := by
    intro x hx addr port hdnat
    rcases List.mem_append.mp hx with hx | hx
    · exact h.source x hx addr port hdnat
    · exact ⟨c, hc, hname, m, hm, hvalid, List.mem_singleton.mp hx⟩

end

/-- What a command looks for or adds is in the table. -/
def Effect (t : Table) : Command → Prop
  | .check name args | .append name args | .insert name args =>
    ∃ r, parseRule args = some r ∧ r ∈ t.chain name
  | _ => True

def Keeps (begun : List Container) (t : Table) : Command → Prop
  | .newChain _ | .check _ _ => True
  | .append name args => ∀ r, parseRule args = some r → Orderly begun name (t.chain name ++ [r])
  | .insert name args => ∀ r, parseRule args = some r → Orderly begun name (r :: t.chain name)
  | _ => False

/-- The commands that keep the order whatever is in the table. -/
def AlwaysKeeps (o : Command) : Prop :=
  ∀ begun t, (∀ name, Orderly begun name (t.chain name)) → Keeps begun t o

section

variable {begun : List Container} {t t' : Table} {o : Command}

theorem Effect.grow (h : Effect t o) (hg : Grows t t') : Effect t' o := by
  cases o with
  | check name args =>
    obtain ⟨r, hparse, hr⟩ := h
    exact ⟨r, hparse, hg.rules name r hr⟩
  | append name args =>
    obtain ⟨r, hparse, hr⟩ := h
    exact ⟨r, hparse, hg.rules name r hr⟩
  | insert name args =>
    obtain ⟨r, hparse, hr⟩ := h
    exact ⟨r, hparse, hg.rules name r hr⟩
  | _ => trivial

/-- A chain that is in order is put in the place of one with fewer rules. -/
theorem orderly_insert {name : String} {rs : List Rule}
    (h : ∀ name, Orderly begun name (t.chain name)) (hrs : Orderly begun name rs) :
    ∀ n, Orderly begun n (Table.chain (t.insert name rs) n) := by
  intro n
  rw [Table.chain_insert]
  by_cases hn : n = name
  · subst hn
    rwa [if_pos rfl]
  · rw [if_neg hn]
    exact h n

theorem orderly_perform (h : ∀ name, Orderly begun name (t.chain name)) (ho : Keeps begun t o)
    (hperform : t.perform o = some t') :
    (∀ name, Orderly begun name (t'.chain name)) ∧ Grows t t' ∧ Effect t' o := by
  cases o with
  | newChain name =>
    obtain ⟨hnew, rfl⟩ := Table.perform_newChain hperform
    have hempty := chain_of_not_mem hnew
    refine ⟨orderly_insert h ?_, .insert fun r hr => ?_, trivial⟩
    · rw [← hempty]
      exact h name
    · rwa [← hempty]
  | check name args =>
    obtain ⟨rfl, hr⟩ := Table.perform_check hperform
    exact ⟨h, .refl t', hr⟩
  | append name args =>
    obtain ⟨r, hparse, rfl⟩ := Table.perform_append hperform
    refine ⟨orderly_insert h (ho r hparse), .insert fun x hx => List.mem_append_left _ hx,
      r, hparse, ?_⟩
    rw [Table.chain_insert, if_pos rfl]
    exact List.mem_append_right _ (List.mem_singleton_self r)
  | insert name args =>
    obtain ⟨r, hparse, rfl⟩ := Table.perform_insert hperform
    refine ⟨orderly_insert h (ho r hparse), .insert fun x hx => List.mem_cons_of_mem _ hx,
      r, hparse, ?_⟩
    rw [Table.chain_insert, if_pos rfl]
    exact List.mem_cons_self
  | delete name args => exact ho.elim
  | flush name => exact ho.elim
  | deleteChain name => exact ho.elim

/-- A command that succeeds or fails. -/
theorem orderly_responds {r : CommandRes o} (h : ∀ name, Orderly begun name (t.chain name))
    (ho : Keeps begun t o) (hr : Responds t o r t') :
    (∀ name, Orderly begun name (t'.chain name)) ∧ Grows t t' ∧
      ∀ stderr, r = .ok ⟨true, stderr⟩ → Effect t' o := by
  rcases hr with ⟨hperform, -⟩ | ⟨rfl, hfailed⟩
  · obtain ⟨horderly, hgrows, heffect⟩ := orderly_perform h ho hperform
    exact ⟨horderly, hgrows, fun _ _ => heffect⟩
  · exact ⟨h, .refl t', fun stderr he => absurd he (hfailed stderr)⟩

end

/-- What an ADD that was completed has left. -/
structure Ready (t : Table) : Prop where
  setmark : setmarkRule ∈ t.chain setmarkChain
  masq : masqRule ∈ t.chain masqChain
  post : jumpTo masqChain ∈ t.chain "POSTROUTING"

theorem Ready.grow {t t' : Table} (h : Ready t) (hg : Grows t t') : Ready t' :=
  ⟨hg.rules _ _ h.setmark, hg.rules _ _ h.masq, hg.rules _ _ h.post⟩

structure Inv (s : State) : Prop where
  orderly : ∀ name, Orderly s.begun name (s.table.chain name)
  begun : ∀ c ∈ s.completed, c ∈ s.begun
  ready : s.completed ≠ [] → Ready s.table

structure Rely (s s' : State) : Prop where
  table : Grows s.table s'.table
  begun : ∀ c ∈ s.begun, c ∈ s'.begun

theorem Rely.refl (s : State) : Rely s s := ⟨.refl _, fun _ h => h⟩

theorem Rely.trans {s s' s'' : State} (h : Rely s s') (h' : Rely s' s'') : Rely s s'' :=
  ⟨h.table.trans h'.table, fun c hc => h'.begun c (h.begun c hc)⟩

def contract : Contract State ℕ Job where
  inv := Inv
  rely _ := Rely
  guar _ _ := Rely
  rely_refl _ := Rely.refl
  rely_trans _ _ _ _ := Rely.trans
  guar_rely _ _ _ _ _ _ _ h := h

section

variable [Crates] {ipt : Iptables} {p : ℕ} {j : Job} {s : State} {o : Command}

/-- What a command of any process does. -/
theorem moves {r : CommandRes o} {s' : State} (hi : Inv s) (ho : Keeps s.begun s.table o)
    (h : (system ipt).answers p j s o r s') :
    Inv s' ∧ Rely s s' ∧ ∀ stderr, r = .ok ⟨true, stderr⟩ → Effect s'.table o := by
  obtain ⟨hresponds, hbegun, hcompleted⟩ := h
  obtain ⟨horderly, hgrows, heffect⟩ := orderly_responds hi.orderly ho hresponds
  refine ⟨⟨hbegun ▸ horderly, ?_, ?_⟩, ⟨hgrows, hbegun ▸ fun _ hc => hc⟩, heffect⟩
  · rw [hcompleted, hbegun]
    exact hi.begun
  · rw [hcompleted]
    exact fun hne => (hi.ready hne).grow hgrows

variable (ipt p j) in
abbrev SafeIn {α : Type} (post : α → State → Prop) (prog : Program Command CommandRes α)
    (s : State) : Prop :=
  contract.Safe ((system ipt).answers p j) p j post prog s

variable {α : Type}

/-- A process whose commands keep the order anyway. -/
theorem safe_always {prog : Program Command CommandRes α} (h : prog.Uses AlwaysKeeps) :
    SafeIn ipt p j (fun _ _ => True) prog s := by
  refine Contract.Safe.of_uses (K := fun _ => True) (fun _ _ _ h => h) ?_ h trivial
  intro s o r s' ho hi _ hr
  obtain ⟨hi', hrely, -⟩ := moves hi (ho _ _ hi.orderly) hr
  exact ⟨hi', hrely, trivial⟩

/-- What is known and cannot become false. -/
def Lasting (K : State → Prop) : Prop := ∀ s s', Rely s s' → K s → K s'

variable {K : State → Prop}

theorem safe_run (hK : Lasting K) (ho : ∀ s, Inv s → K s → Keeps s.begun s.table o) (hi : Inv s)
    (hs : K s) : SafeIn ipt p j (fun r s' => K s' ∧ ∀ out, r = .ok out → out.success = true →
      Effect s'.table o) (ipt.run o).run s := by
  refine Contract.Safe.liftBind (m := fun (r : Except String Output) s' => K s' ∧
    ∀ stderr, r = .ok ⟨true, stderr⟩ → Effect s'.table o) ?_ hi ?_
  · intro s₁ hr hi₁ r s₂ ha
    have hs₁ := hK s s₁ hr hs
    obtain ⟨hi₂, hrely, heffect⟩ := moves hi₁ (ho s₁ hi₁ hs₁) ha
    exact ⟨hi₂, hrely, fun s₃ hr' _ => ⟨hK s₂ s₃ hr' (hK s₁ s₂ hrely hs₁),
      fun stderr he => (heffect stderr he).grow hr'.table⟩⟩
  · rintro r s₁ - ⟨hs₁, heffect⟩
    cases r with
    | ok out' =>
      intro s₂ hr _
      refine ⟨hK s₁ s₂ hr hs₁, fun out he hsuccess => ?_⟩
      obtain rfl := Except.ok.inj he
      obtain ⟨success, stderr⟩ := out'
      obtain rfl : success = true := hsuccess
      exact (heffect stderr rfl).grow hr.table
    | error e =>
      intro s₂ hr _
      refine ⟨hK s₁ s₂ hr hs₁, fun out he => ?_⟩
      cases he

/-- A check, and an addition if it fails. -/
theorem safe_checked {check add : Command} {e : Output → CniError} (hK : Lasting K)
    (hcheck : AlwaysKeeps check) (hadd : ∀ s, Inv s → K s → Keeps s.begun s.table add)
    (hsame : ∀ t, Effect t check → Effect t add) (hi : Inv s) (hs : K s) :
    SafeIn ipt p j (fun r s' => r = .ok () → K s' ∧ Effect s'.table add)
      (checked ipt check add e).run s := by
  have hkeeps : ∀ s, Inv s → K s → Keeps s.begun s.table check :=
    fun s hi _ => hcheck _ _ hi.orderly
  refine Contract.Safe.exceptBind (safe_run hK hkeeps hi hs) hi ?_ ?_
  · rintro out s₁ hi₁ ⟨hs₁, heffect⟩
    cases hout : out.success with
    | true =>
      intro s₂ hr _ _
      exact ⟨hK s₁ s₂ hr hs₁, (hsame _ (heffect out rfl hout)).grow hr.table⟩
    | false =>
      refine Contract.Safe.exceptBind (safe_run hK hadd hi₁ hs₁) hi₁ ?_ ?_
      · rintro out₂ s₂ - ⟨hs₂, heffect₂⟩
        cases hout₂ : out₂.success with
        | true =>
          simp only [if_true]
          intro s₃ hr _ _
          exact ⟨hK s₂ s₃ hr hs₂, (heffect₂ out₂ rfl hout₂).grow hr.table⟩
        | false =>
          intro s₃ _ _ he
          cases he
      · intro e s₂ _ _ s₃ _ _ he
        cases he
  · intro e s₁ _ _ s₂ _ _ he
    cases he

theorem safe_ensureChain {name : String} (hK : Lasting K) (hi : Inv s) (hs : K s) :
    SafeIn ipt p j (fun r s' => r = .ok () → K s') (ipt.ensureChain name).run s := by
  have hkeeps : ∀ s, Inv s → K s → Keeps s.begun s.table (.newChain name) :=
    fun _ _ _ => trivial
  refine Contract.Safe.exceptBind (safe_run hK hkeeps hi hs) hi ?_ ?_
  · rintro out s₁ - ⟨hs₁, -⟩
    have hret : ∀ r : Except CniError Unit,
        SafeIn ipt p j (fun r s' => r = .ok () → K s') (.ret r) s₁ :=
      fun r s₂ hr _ _ => hK s₁ s₂ hr hs₁
    cases out.success with
    | true => exact hret _
    | false =>
      simp only [Bool.false_eq_true, if_false]
      cases hexists : contains out.stderr "exists" with
      | true => exact hret _
      | false => exact hret _
  · intro e s₁ _ _ s₂ _ _ he
    cases he

end

theorem parseDestination_ne_jump {value name : String} :
    parseDestination value ≠ some (.jump name) := by
  intro h
  unfold parseDestination at h
  split at h
  · obtain ⟨ip, -, h⟩ := Option.bind_eq_some_iff.mp h
    obtain ⟨port, -, h⟩ := Option.bind_eq_some_iff.mp h
    split at h <;> cases h
  · cases h

theorem getLast?_of_parseTarget {args : List String} {name : String}
    (h : parseTarget args = some (.jump name)) : args.getLast? = some name := by
  unfold parseTarget at h
  split at h
  · split at h
    · cases h
    · split at h
      · cases h
      · rw [Target.jump.inj (Option.some.inj h)]
        rfl
  · split at h <;> cases h
  · split at h
    · exact absurd h parseDestination_ne_jump
    · split at h
      · obtain ⟨m, -, hm⟩ := Option.map_eq_some_iff.mp h
        cases hm
      · cases h
  · cases h

/-- The chain that a rule jumps to is named last. -/
theorem getLast?_of_jump {args : List String} {r r' : Rule} {negated : Bool} {name : String}
    (h : parseOptions r negated args = some r') (ht : r'.target = .jump name) :
    args.getLast? = some name := by
  have hcons : ∀ {x : String} {xs : List String}, xs.getLast? = some name →
      (x :: xs).getLast? = some name := by
    intro x xs hxs
    rw [List.getLast?_cons, hxs, Option.getD_some]
  fun_induction parseOptions r negated args with
  | case1 r negated value rest =>
    obtain ⟨target, htarget, rfl⟩ := Option.map_eq_some_iff.mp h
    obtain rfl : target = .jump name := ht
    exact hcons (getLast?_of_parseTarget htarget)
  | case2 r negated value rest _ ih => exact hcons (ih h)
  | case3 r negated value rest _ _ ih =>
    obtain ⟨proto, -, h⟩ := Option.bind_eq_some_iff.mp h
    exact hcons (hcons (ih proto h))
  | case4 r negated value rest _ _ _ ih =>
    obtain ⟨net, -, h⟩ := Option.bind_eq_some_iff.mp h
    exact hcons (hcons (ih net h))
  | case5 r negated value rest _ _ _ _ ih =>
    obtain ⟨net, -, h⟩ := Option.bind_eq_some_iff.mp h
    exact hcons (hcons (ih net h))
  | case6 r negated value rest _ _ _ _ _ ih =>
    obtain ⟨port, -, h⟩ := Option.bind_eq_some_iff.mp h
    exact hcons (hcons (ih port h))
  | case7 r negated value rest _ _ _ _ _ _ ih => exact hcons (hcons (ih h))
  | case8 r negated flag value rest _ _ _ _ _ _ _ _ ih => exact hcons (hcons (ih h))
  | case9 r negated value rest _ _ _ _ _ _ _ _ ih =>
    obtain ⟨m, -, h⟩ := Option.bind_eq_some_iff.mp h
    exact hcons (hcons (ih m h))
  | case10 => cases h
  | case11 => cases h

/-- A rule for `POSTROUTING` that is not the jump of `portmap`. -/
theorem alwaysKeeps_post {args : List String} (h : args.getLast? ≠ some masqChain) :
    AlwaysKeeps (.append "POSTROUTING" args) := by
  intro begun t ht r hr
  refine (ht "POSTROUTING").append_post ?_
  rintro rfl
  exact h (getLast?_of_jump hr rfl)

/-- Whatever the network and the subnet are. -/
theorem uses_ensure (network subnet : String) :
    (Masquerade.ensure network subnet).run.Uses AlwaysKeeps := by
  have hret : ∀ front : List String, (front ++ ["RETURN"]).getLast? ≠ some masqChain ∧
      ((front ++ ["RETURN"]).filter (· ≠ "--random-fully")).getLast? ≠ some masqChain := by
    intro front
    simp [List.filter_append, masqChain]
  have hmasq : ∀ front : List String,
      (front ++ ["MASQUERADE", "--random-fully"]).getLast? ≠ some masqChain ∧
      ((front ++ ["MASQUERADE", "--random-fully"]).filter
        (· ≠ "--random-fully")).getLast? ≠ some masqChain := by
    intro front
    simp [List.filter_append, masqChain]
  have hlast : ∀ args ∈ Masquerade.masqRules network subnet, args.getLast? ≠ some masqChain ∧
      (args.filter (· ≠ "--random-fully")).getLast? ≠ some masqChain := by
    intro args hargs
    simp only [Masquerade.masqRules, List.mem_cons, List.not_mem_nil, or_false] at hargs
    rcases hargs with rfl | rfl | rfl | rfl
    · exact hret ["-s", network, "-d", network, "-j"]
    · exact hmasq ["-s", network, "!", "-d", "224.0.0.0/4", "-j"]
    · exact hret ["!", "-s", network, "-d", subnet, "-j"]
    · exact hmasq ["!", "-s", network, "-d", network, "-j"]
  refine Masquerade.uses_ensure (fun _ _ _ _ => trivial) fun args hargs => ?_
  exact ⟨alwaysKeeps_post (hlast args hargs).1, alwaysKeeps_post (hlast args hargs).2⟩

/-- The command with which a step is done. -/
def command : Step → Command
  | .chain name => .newChain name
  | .append name args => .append name args
  | .insert name args => .insert name args

/-- In front of a rule that translates stand the steps for those that mark. -/
theorem split_ruleSteps {name : String} {podIp : Ipv4Addr} {ms : List PortMapping}
    {front back : List Step} {x : Step} (h : ruleSteps name podIp ms = front ++ x :: back) :
    ∃ m ∈ ms, x = .append name (hairpinMarkArgs m podIp) ∨
      x = .append name (localhostMarkArgs m) ∨
      (x = .append name (dnatArgs m podIp) ∧ .append name (hairpinMarkArgs m podIp) ∈ front ∧
        .append name (localhostMarkArgs m) ∈ front) := by
  induction ms generalizing front with
  | nil => simp [ruleSteps] at h
  | cons m ms ih =>
    have hsteps : ruleSteps name podIp (m :: ms) = .append name (hairpinMarkArgs m podIp) ::
        .append name (localhostMarkArgs m) :: .append name (dnatArgs m podIp) ::
        ruleSteps name podIp ms := rfl
    rw [hsteps] at h
    rcases front with _ | ⟨x₁, _ | ⟨x₂, _ | ⟨x₃, front⟩⟩⟩
    · exact ⟨m, List.mem_cons_self, .inl (List.cons.inj h).1.symm⟩
    · obtain ⟨-, h₁⟩ := List.cons.inj h
      exact ⟨m, List.mem_cons_self, .inr (.inl (List.cons.inj h₁).1.symm)⟩
    · obtain ⟨rfl, h₁⟩ := List.cons.inj h
      obtain ⟨rfl, h₂⟩ := List.cons.inj h₁
      exact ⟨m, List.mem_cons_self, .inr (.inr ⟨(List.cons.inj h₂).1.symm, by simp, by simp⟩)⟩
    · obtain ⟨-, h₁⟩ := List.cons.inj h
      obtain ⟨-, h₂⟩ := List.cons.inj h₁
      obtain ⟨-, h₃⟩ := List.cons.inj h₂
      obtain ⟨m', hm', hx⟩ := ih h₃
      refine ⟨m', List.mem_cons_of_mem _ hm', ?_⟩
      rcases hx with hx | hx | ⟨hx, hhairpin, hlocalhost⟩
      · exact .inl hx
      · exact .inr (.inl hx)
      · exact .inr (.inr ⟨hx, by simp [hhairpin], by simp [hlocalhost]⟩)

section

variable {begun : List Container} {t : Table} {c : Container}

theorem top_not_portmapChain : ¬ PortmapChain topChain := by
  rintro (h | h | ⟨id, h⟩)
  · exact absurd h (by decide)
  · exact absurd h (by decide)
  · exact dnChain_ne (by decide) h.symm

theorem hook_not_portmapChain {name : String} (h : name = "PREROUTING" ∨ name = "OUTPUT") :
    ¬ PortmapChain name := by
  rintro (he | he | ⟨id, he⟩)
  · rcases h with rfl | rfl <;> exact absurd he (by decide)
  · rcases h with rfl | rfl <;> exact absurd he (by decide)
  · rcases h with rfl | rfl <;> exact dnChain_ne (by decide) he.symm

/-- The steps for the chains that all containers use. -/
theorem keeps_front {id : String} {x : Step}
    (hx : x ∈ topSteps ++ [.chain (dnChain id), .append topChain ["-j", dnChain id]]) :
    AlwaysKeeps (command x) := by
  intro begun t ht
  have htop : ∀ {name} {rs : List Rule}, name = "PREROUTING" ∨ name = "OUTPUT" →
      Orderly begun name rs := by
    intro name rs h
    refine .of_other ?_ (hook_not_portmapChain h)
    rcases h with rfl | rfl <;> decide
  simp only [topSteps, List.cons_append, List.nil_append, List.mem_cons, List.not_mem_nil,
    or_false] at hx
  rcases hx with rfl | rfl | rfl | rfl | rfl | rfl | rfl | rfl | rfl | rfl
  · trivial
  · exact fun _ _ => htop (.inl rfl)
  · exact fun _ _ => htop (.inr rfl)
  · trivial
  · intro r hr
    obtain rfl := Option.some.inj (parse_setmarkRule.symm.trans hr)
    refine .of_setmark fun x hx => ?_
    rcases List.mem_append.mp hx with hx | hx
    · exact (ht setmarkChain).setmark rfl x hx
    · exact List.mem_singleton.mp hx
  · trivial
  · intro r hr
    obtain rfl := Option.some.inj (parse_masqRule.symm.trans hr)
    refine .of_masq fun x hx => ?_
    rcases List.mem_append.mp hx with hx | hx
    · exact (ht masqChain).masq rfl x hx
    · exact List.mem_singleton.mp hx
  · intro r hr
    obtain rfl := Option.some.inj (PortmapTables.parse_jumpTo_masqChain.symm.trans hr)
    exact (ht "POSTROUTING").insert_post
  · trivial
  · exact fun _ _ => .of_other (by decide) top_not_portmapChain

theorem keeps_ruleSteps {front back : List Step} {x : Step}
    (hsteps : ruleSteps (dnChain c.id) c.ports.podIp c.ports.mappings = front ++ x :: back)
    (ht : ∀ name, Orderly begun name (t.chain name)) (hc : c ∈ begun)
    (hdone : ∀ y ∈ front, Effect t (command y)) : Keeps begun t (command x) := by
  obtain ⟨m, hm, hx⟩ := split_ruleSteps hsteps
  have hserving := (ht (dnChain c.id)).own c.id rfl
  have hmarks : ∀ args, args = hairpinMarkArgs m c.ports.podIp ∨ args = localhostMarkArgs m →
      Keeps begun t (.append (dnChain c.id) args) := by
    intro args hargs r hr
    obtain ⟨hmark, htarget⟩ := mark_of_parse hargs hr
    exact .of_own c.id (hserving.append_mark ⟨hmark, .inl htarget⟩ htarget)
  rcases hx with rfl | rfl | ⟨rfl, hhairpin, hlocalhost⟩
  · exact hmarks _ (.inl rfl)
  · exact hmarks _ (.inr rfl)
  · intro r hr
    have hvalid := valid_of_parse hr
    obtain rfl := Option.some.inj ((parse_dnatArgs hvalid _).symm.trans hr)
    obtain ⟨q, hq, hmem⟩ := hdone _ hhairpin
    obtain rfl := Option.some.inj ((parse_hairpinMarkArgs hvalid _).symm.trans hq)
    obtain ⟨q', hq', hmem'⟩ := hdone _ hlocalhost
    obtain rfl := Option.some.inj ((parse_localhostMarkArgs hvalid).symm.trans hq')
    exact .of_own c.id (hserving.append_dnat hc rfl hm hvalid hmem hmem')

/-- Each step keeps the order once those in front of it are done. -/
theorem keeps_applySteps {front back : List Step} {x : Step}
    (hsteps : applySteps c.id c.ports.podIp c.ports.mappings = front ++ x :: back)
    (ht : ∀ name, Orderly begun name (t.chain name)) (hc : c ∈ begun)
    (hdone : ∀ y ∈ front, Effect t (command y)) : Keeps begun t (command x) := by
  have hsplit : (topSteps ++ [.chain (dnChain c.id), .append topChain ["-j", dnChain c.id]]) ++
      ruleSteps (dnChain c.id) c.ports.podIp c.ports.mappings = front ++ x :: back := by
    rw [← hsteps]
    simp [applySteps]
  rcases List.append_eq_append_iff.mp hsplit with ⟨front', rfl, hrules⟩ | ⟨back', hfront, hrules⟩
  · exact keeps_ruleSteps hrules ht hc fun y hy => hdone y (List.mem_append_right _ hy)
  · cases back' with
    | nil =>
      have hrules' : ruleSteps (dnChain c.id) c.ports.podIp c.ports.mappings = [] ++ x :: back :=
        hrules.symm
      exact keeps_ruleSteps hrules' ht hc fun y hy => absurd hy List.not_mem_nil
    | cons y back' =>
      obtain ⟨rfl, -⟩ := List.cons.inj hrules
      exact keeps_front (by rw [hfront]; simp) begun t ht

end

section

variable [Crates] {ipt : Iptables} {p : ℕ} {j : Job} {s : State} {c : Container}

/-- One step, once something is known. -/
theorem safe_step {K : State → Prop} (hK : Lasting K) {x : Step}
    (hx : ∀ s, Inv s → K s → Keeps s.begun s.table (command x)) (hi : Inv s) (hs : K s) :
    SafeIn ipt p j (fun r s' => r = .ok () → K s' ∧ Effect s'.table (command x))
      (x.code ipt).run s := by
  cases x with
  | chain name =>
    refine Contract.Safe.mono (safe_ensureChain hK hi hs) ?_
    exact fun r s' _ h hr => ⟨h hr, trivial⟩
  | append name args =>
    have hcheck : AlwaysKeeps (.check name args) := fun _ _ _ => trivial
    exact safe_checked hK hcheck hx (fun _ h => h) hi hs
  | insert name args =>
    have hcheck : AlwaysKeeps (.check name args) := fun _ _ _ => trivial
    exact safe_checked hK hcheck hx (fun _ h => h) hi hs

omit [Crates] in
theorem ready_of_done {id : String} {podIp : Ipv4Addr} {ms : List PortMapping} {t : Table}
    (h : ∀ x ∈ applySteps id podIp ms, Effect t (command x)) : Ready t := by
  have htop : ∀ x ∈ topSteps, Effect t (command x) :=
    fun x hx => h x (List.mem_append_left _ hx)
  obtain ⟨r, hr, hset⟩ := htop (.append setmarkChain ["-j", "MARK", "--set-xmark", markText])
    (by simp [topSteps])
  obtain rfl := Option.some.inj (parse_setmarkRule.symm.trans hr)
  obtain ⟨r, hr, hmasq⟩ := htop
    (.append masqChain ["-m", "mark", "--mark", markText, "-j", "MASQUERADE"]) (by simp [topSteps])
  obtain rfl := Option.some.inj (parse_masqRule.symm.trans hr)
  obtain ⟨r, hr, hpost⟩ := htop (.insert "POSTROUTING" ["-j", masqChain]) (by simp [topSteps])
  obtain rfl := Option.some.inj (PortmapTables.parse_jumpTo_masqChain.symm.trans hr)
  exact ⟨hset, hmasq, hpost⟩

/-- The ADD of a container has come so far. -/
def Done (c : Container) (front : List Step) (s : State) : Prop :=
  c ∈ s.begun ∧ ∀ x ∈ front, Effect s.table (command x)

omit [Crates] in
theorem lasting_done (front : List Step) : Lasting (Done c front) :=
  fun _ _ hr h => ⟨hr.begun c h.1, fun x hx => (h.2 x hx).grow hr.table⟩

theorem safe_apply (hi : Inv s) (hc : c ∈ s.begun) :
    SafeIn ipt p j (fun r s' => r = .ok () → c ∈ s'.begun ∧ Ready s'.table)
      (apply ipt c.id c.ports.podIp c.ports.mappings).run s := by
  rw [apply_eq]
  have hnone : Done c [] s := ⟨hc, fun _ h => absurd h List.not_mem_nil⟩
  refine Contract.Safe.mono (Contract.Safe.forM lasting_done ?_ hi hnone) ?_
  · intro front x back hsteps s hi hs
    refine Contract.Safe.mono (safe_step (lasting_done front) (fun s hi hs =>
      keeps_applySteps hsteps hi.orderly hs.1 hs.2) hi hs) ?_
    intro r s' _ h hr
    obtain ⟨⟨hc', hfront⟩, hx⟩ := h hr
    refine ⟨hc', fun y hy => ?_⟩
    rcases List.mem_append.mp hy with hy | hy
    · exact hfront y hy
    · rwa [List.mem_singleton.mp hy]
  · exact fun r s' _ h hr => ⟨(h hr).1, ready_of_done (h hr).2⟩

/-- What a job leaves behind. -/
def Leaves (j : Job) (a : Outcome) (s : State) : Prop :=
  ∀ c, completion j a = some c → c ∈ s.begun ∧ Ready s.table

theorem completion_eq_none (h : publication j = none) (a : Outcome) : completion j a = none := by
  match a with
  | .added (.ok _) => exact h
  | .added (.error _) => rfl
  | .ensured _ => rfl
  | .appended _ => rfl

theorem safe_cmdAdd {args : CniArgs} {stdin : String} (hi : Inv s)
    (hbegun : ∀ c ∈ publication (.add args stdin), c ∈ s.begun) :
    SafeIn ipt p j (fun r s' => Leaves (.add args stdin) (.added r) s')
      (cmdAdd ipt args stdin).run s := by
  have herror : ∀ (e : CniError) (s : State), SafeIn ipt p j
      (fun r s' => Leaves (.add args stdin) (.added r) s') (.ret (.error e)) s := by
    intro e s s₁ _ _ c hc
    cases hc
  unfold cmdAdd
  cases hconf : PortmapConf.parse stdin with
  | none => exact herror _ s
  | some conf =>
    cases hprev : conf.prevResult with
    | none =>
      simp only [hprev]
      exact herror _ s
    | some prev =>
      simp only [hprev]
      by_cases hempty : conf.portMappings = []
      · have hpub : publication (.add args stdin) = none := by
          simp [publication, published, hconf, hprev, hempty]
        rw [if_neg (not_not.mpr hempty)]
        intro s₁ _ _ c hc
        rw [completion, hpub] at hc
        cases hc
      · rw [if_pos hempty]
        cases hip : podIpv4 prev with
        | none => exact herror _ s
        | some podIp =>
          have hpub : publication (.add args stdin) =
              some ⟨args.containerId, podIp, conf.portMappings⟩ := by
            simp [publication, published, hconf, hprev, hempty, hip]
          have happly : SafeIn ipt p j (fun r s' => r = .ok () →
              ⟨args.containerId, podIp, conf.portMappings⟩ ∈ s'.begun ∧ Ready s'.table)
              (apply ipt args.containerId podIp conf.portMappings).run s :=
            safe_apply hi (hbegun _ hpub)
          refine Contract.Safe.exceptBind happly hi ?_ fun e s₁ _ _ => herror e s₁
          intro _ s₁ _ hready s₂ hr _ c hcompleted
          obtain ⟨hc₁, hready⟩ := hready rfl
          rw [completion, hpub] at hcompleted
          obtain rfl := Option.some.inj hcompleted
          exact ⟨hr.begun _ hc₁, hready.grow hr.table⟩

theorem safe_code (j : Job) (hj : ThirdParty j) (hi : Inv s)
    (hbegun : ∀ c ∈ publication j, c ∈ s.begun) :
    SafeIn ipt p j (Leaves j) ((system ipt).code p j) s := by
  cases j with
  | add args stdin =>
    refine Contract.Safe.bind (safe_cmdAdd hi hbegun) hi ?_
    intro r s₁ _ hleaves s₂ hr _ c hc
    obtain ⟨hc₁, hready⟩ := hleaves c hc
    exact ⟨hr.begun c hc₁, hready.grow hr.table⟩
  | ensure network subnet =>
    have huses : ((system ipt).code p (.ensure network subnet)).Uses AlwaysKeeps :=
      (uses_ensure network subnet).bind fun _ => trivial
    refine Contract.Safe.mono (safe_always huses) ?_
    intro a s' _ _ c hc
    rw [completion_eq_none rfl] at hc
    cases hc
  | append name args =>
    obtain ⟨hname, hpost⟩ := hj
    have hkeeps : AlwaysKeeps (.append name args) := by
      intro begun t ht r hr
      by_cases he : name = "POSTROUTING"
      · subst he
        refine (ht "POSTROUTING").append_post ?_
        rintro rfl
        exact hpost rfl hr
      · exact .of_other he hname
    have huses : ((system ipt).code p (.append name args)).Uses AlwaysKeeps :=
      ⟨hkeeps, fun _ => trivial⟩
    refine Contract.Safe.mono (safe_always huses) ?_
    intro a s' _ _ c hc
    rw [completion_eq_none rfl] at hc
    cases hc

end

/-- The contract is kept by every process. -/
theorem verified [Crates] (ipt : Iptables) :
    Verified (system ipt) contract (fun _ _ => True) (fun _ => Leaves) where
  idle_rely _ _ _ _ _ _ := trivial
  start p j s s' hi _ h := by
    obtain ⟨hj, rfl⟩ := h
    have hrely : Rely s { s with begun := (publication j).toList ++ s.begun } :=
      ⟨.refl _, fun c hc => List.mem_append_right _ hc⟩
    have hi' : Inv { s with begun := (publication j).toList ++ s.begun } :=
      ⟨fun name => (hi.orderly name).mono hrely.begun,
        fun c hc => hrely.begun c (hi.begun c hc), hi.ready⟩
    exact ⟨hi', hrely, safe_code j hj hi' fun c hc =>
      List.mem_append_left _ (Option.mem_toList.mpr hc)⟩
  finish p j a s s' hi hleaves h := by
    obtain rfl : s' = _ := h
    refine ⟨⟨hi.orderly, fun c hc => ?_, fun hne => ?_⟩, ⟨.refl _, fun _ hc => hc⟩, trivial⟩
    · rcases List.mem_append.mp hc with hc | hc
      · exact (hleaves c (Option.mem_toList.mp hc)).1
      · exact hi.begun c hc
    · cases hcompleted : completion j a with
      | none =>
        rw [hcompleted] at hne
        exact hi.ready hne
      | some c => exact (hleaves c hcompleted).2

theorem inv_initial {t : Table} (hclean : Clean t) : Inv (initial t).state where
  orderly name := by
    have hempty : ∀ name, PortmapChain name → ∀ r ∈ t.chain name, False := by
      intro name hname r hr
      rw [hclean.own name hname] at hr
      cases hr
    constructor
    · rintro rfl
      exact ⟨0, t.chain "POSTROUTING", rfl, hclean.post⟩
    · exact fun he r hr => (hempty name (.inl he) r hr).elim
    · exact fun he r hr => (hempty name (.inr (.inl he)) r hr).elim
    · intro id he
      have hnil : (initial t).state.table.chain name = [] := hclean.own name (.inr (.inr ⟨id, he⟩))
      rw [hnil]
      exact ⟨.nil, .nil, fun r hr => absurd hr List.not_mem_nil,
        fun r hr => absurd hr List.not_mem_nil⟩
  begun _ hc := absurd hc List.not_mem_nil
  ready h := absurd rfl h

theorem inv_of_reachable [Crates] {ipt : Iptables} {t : Table} (hclean : Clean t)
    {d : NodeConfig} (hrun : (system ipt).Reachable (initial t) d) : Inv d.state :=
  ((verified ipt).reachable (inv_initial hclean) (fun _ => trivial) hrun).1

section

variable {t : Table} {begun : List Container} {c : Container} {p : Packet}

/-- In front of the rule that translates the packet stands one that marks it. -/
theorem marks_of_serving (hapart : Apart begun) (hc : c ∈ begun) {front back : List Rule} {r : Rule}
    (hserving : Serving begun (dnChain c.id) (front ++ r :: back))
    (hmatch : ∃ m ∈ c.ports.mappings, matchesMapping p m = true)
    (hsrc : p.src = c.ports.podIp ∨ p.src = .ofOctets 127 0 0 1)
    {addr : Ipv4Addr} {port : ℕ} (hr : r.target = .dnat addr port) (htest : r.test p = true) :
    front.any (marksRule p) = true := by
  obtain ⟨b, hb, hname, m', hm', hvalid, rfl⟩ := hserving.source r (by simp) addr port hr
  rw [List.any_eq_true]
  rcases hsrc with hsrc | hsrc
  · obtain ⟨m, hm, hmatch⟩ := hmatch
    have hmatch' : matchesMapping p m' = true := by rwa [← test_dnatRule hvalid b.ports.podIp]
    have haddr : c.ports.podIp = b.ports.podIp := by
      rcases hapart c hc b hb hname.symm with haddr | hapart
      · exact haddr
      · exact absurd ⟨hmatch, hmatch'⟩ (hapart p m hm m' hm')
    have hhairpin : (hairpinRule b.ports.podIp m').test p = true := by
      rw [test_hairpinRule, htest, hsrc, haddr]
      simp
    exact ⟨_, hserving.hairpin front _ back rfl (hairpinRule b.ports.podIp m') rfl,
      by simpa [marksRule, hairpinRule] using hhairpin⟩
  · have hlocalhost := test_localhostRule_of_dnatRule htest hsrc
    exact ⟨_, hserving.localhost front _ back rfl (localhostRule m') rfl,
      by simpa [marksRule, localhostRule] using hlocalhost⟩

/-- A chain that marks a packet before it translates it. -/
theorem walk_marked {front back : List Rule} {r : Rule}
    (hsetmark : ∀ r ∈ t.chain setmarkChain, r = setmarkRule)
    (hset : setmarkRule ∈ t.chain setmarkChain) (hown : ∀ x ∈ front ++ r :: back, OwnRule x)
    (hfront : front.findSome? (ruleVerdict p) = none) (hmarks : front.any (marksRule p) = true)
    {addr : Ipv4Addr} {port : ℕ} (hr : r.target = .dnat addr port) (htest : r.test p = true)
    (d : ℕ) : walk rules t.chain (d + 1) (front ++ r :: back) p =
      (marked p, some (.dnat addr port)) := by
  have hfirst := walk_own_eq hsetmark hset (fun x hx => hown x (List.mem_append_left _ hx))
    hfront d (.refl p)
  rw [if_pos hmarks] at hfirst
  rw [walk] at hfirst ⊢
  rw [traverse_append (fun x hx => (hown x (List.mem_append_left _ hx)).not_ret) hfirst]
  have hcond : rules.cond r (marked p) = true := by
    rw [← htest]
    exact (sameBut_marked p).test (hown r (by simp)).mark
  have haction : rules.action r = .stop (.dnat addr port) := by simp [hr, Target.action]
  rw [RuleChains.traverse, if_pos hcond, haction]

theorem test_masqRule {k : ℕ} (h : p.mark = k ||| 0x2000) : masqRule.test p = true := by
  have hmask : (k ||| 0x2000) &&& 0x2000 = 0x2000 := by
    apply Nat.eq_of_testBit_eq
    intro i
    rw [Nat.testBit_and, Nat.testBit_or]
    cases Nat.testBit 0x2000 i <;> simp
  simp [masqRule, Rule.test, mark, h, hmask]

/-- What is marked is masqueraded before any other rule of `POSTROUTING` is met. -/
theorem walk_post (hpost : Orderly begun "POSTROUTING" (t.chain "POSTROUTING"))
    (hmasq : ∀ r ∈ t.chain masqChain, r = masqRule) (hready : Ready t) {k : ℕ}
    (hp : p.mark = k ||| 0x2000) (e : ℕ) :
    (walk rules t.chain (e + 1) (t.chain "POSTROUTING") p).2 = some .masquerade := by
  obtain ⟨n, rest, hchain, hrest⟩ := hpost.post rfl
  have hjump := hready.post
  rw [hchain] at hjump ⊢
  cases n with
  | zero => exact absurd hjump hrest
  | succ n =>
    have hmasqWalk : walk rules t.chain e (t.chain masqChain) p = (p, some .masquerade) := by
      have hthere := hready.masq
      obtain ⟨enter, henter⟩ := walk_eq_traverse t e
      rw [henter]
      cases hrules : t.chain masqChain with
      | nil =>
        rw [hrules] at hthere
        cases hthere
      | cons r rs =>
        obtain rfl := hmasq r (by rw [hrules]; simp)
        have hcond : rules.cond masqRule p = true := test_masqRule hp
        have haction : rules.action masqRule = .stop .masquerade := rfl
        rw [RuleChains.traverse, if_pos hcond, haction]
    have hcond : rules.cond (jumpTo masqChain) p = true := rfl
    have haction : rules.action (jumpTo masqChain) = .jump masqChain := rfl
    rw [List.replicate_succ, List.cons_append, walk, RuleChains.traverse, if_pos hcond,
      haction]
    simp only [hmasqWalk]

end

theorem Inv.masqueraded {s : State} (h : Inv s) (hapart : Apart s.begun) {c : Container}
    (hc : c ∈ s.completed) : Masqueraded s.table c := by
  intro p hmatch hsrc d q addr port hwalk dstLocal e
  have hready := h.ready (List.ne_nil_of_mem hc)
  have hserving := (h.orderly (dnChain c.id)).own c.id rfl
  have hsetmark := (h.orderly setmarkChain).setmark rfl
  have hverdict := (walk_own hsetmark hserving.rules d (.refl p)).1
  rw [hwalk] at hverdict
  obtain ⟨front, r, back, hchain, hr, hfront⟩ := List.findSome?_eq_some_iff.mp hverdict.symm
  have hnone : front.findSome? (ruleVerdict p) = none :=
    List.findSome?_eq_none_iff.mpr hfront
  obtain ⟨htarget, htest⟩ : r.target = .dnat addr port ∧ r.test p = true := by
    unfold ruleVerdict at hr
    split at hr
    · rename_i addr' port' ht
      obtain ⟨htest, hv⟩ := Option.ite_none_right_eq_some.mp hr
      obtain ⟨rfl, rfl⟩ := Verdict.dnat.inj (Option.some.inj hv)
      exact ⟨ht, htest⟩
    · cases hr
  rw [hchain] at hserving hwalk
  have hmarks := marks_of_serving hapart (h.begun c hc) hserving hmatch hsrc htarget htest
  rw [walk_marked hsetmark hready.setmark hserving.rules hnone hmarks htarget htest d] at hwalk
  obtain ⟨rfl, -⟩ := Prod.mk.inj hwalk
  have hmark : (translated (marked p) addr port dstLocal).mark = p.mark ||| 0x2000 := by
    rw [translated, marked, mark, apply_eq_or]
  exact walk_post (h.orderly "POSTROUTING") ((h.orderly masqChain).masq rfl) hready hmark e

/-- In every run of ADDs, of `flanneld` and of third parties, in which containers with different
addresses that share a chain have no port in common, what comes to a published port of a
container from its own address or the loopback address is masqueraded from the moment at which
the ADD has succeeded. -/
theorem hairpin_masqueraded [Crates] (ipt : Iptables) (t : Table) (hclean : Clean t)
    (d : NodeConfig) (hrun : (system ipt).Reachable (initial t) d) (hapart : Apart d.state.begun) :
    ∀ c ∈ d.state.completed, Masqueraded d.state.table c :=
  fun _ hc => (inv_of_reachable hclean hrun).masqueraded hapart hc

/-- The answers on a node on which the jobs are done one after the other. -/
def perform (o : Command) (s : State) : Option (CommandRes o × State) :=
  some (.ok (s.table.answer o).1, { s with table := (s.table.answer o).2 })

theorem responds_answer (t : Table) (o : Command) :
    Responds t o (.ok (t.answer o).1) (t.answer o).2 := by
  unfold Table.answer
  cases hperform : t.perform o with
  | some t' => exact .inl ⟨hperform, "", rfl⟩
  | none =>
    refine .inr ⟨rfl, fun stderr he => ?_⟩
    injection he with he
    injection he with he
    cases he

theorem reachable_exec [Crates] {c d : NodeConfig} {j : Job} {a : Outcome} {s : State}
    (hd : (system ⟨"iptables"⟩).Reachable c d) (hidle : ∀ p, d.busy p = none) (hj : ThirdParty j)
    (hexec : Exec ((system ⟨"iptables"⟩).answers 0 j)
      { d.state with begun := (publication j).toList ++ d.state.begun }
      ((system ⟨"iptables"⟩).code 0 j) a s) :
    ∃ e, (system ⟨"iptables"⟩).Reachable c e ∧ (∀ p, e.busy p = none) ∧
      e.state = { s with completed := (completion j a).toList ++ s.completed } := by
  have hdone := hd.job (hidle 0) ⟨hj, rfl⟩ hexec
  refine ⟨_, hdone.step (.finish (Config.goOn_busy_self ..) rfl), fun p => ?_, rfl⟩
  by_cases hp : p = 0
  · subst hp
    exact Config.goOn_busy_self ..
  · rw [Config.goOn_busy_other _ hp, Config.goOn_busy_other _ hp]
    exact hidle p

theorem exec_perform [Crates] {α : Type} {prog : Program Command CommandRes α} {j : Job}
    {s s' : State} {a : α} (h : prog.run perform s = some (a, s')) :
    Exec ((system ⟨"iptables"⟩).answers 0 j) s prog a s' := by
  refine Program.exec_of_run (fun o s r s' he => ?_) h
  obtain ⟨rfl, rfl⟩ := Prod.mk.inj (Option.some.inj he)
  exact ⟨responds_answer s.table o, rfl, rfl⟩

/-- `flanneld` and a third party are there first. -/
def before : List Job :=
  [.ensure "10.244.0.0/16" "10.244.1.0/24",
    .append "POSTROUTING" ["-s", "172.17.0.0/16", "-j", "MASQUERADE"]]

def after [Crates] (j : Job) (s : State) : Option State :=
  (((system ⟨"iptables"⟩).code 0 j).run perform
    { s with begun := (publication j).toList ++ s.begun }).map fun r =>
      { r.2 with completed := (completion j r.1).toList ++ r.2.completed }

theorem before_thirdParty (j : Job) (hj : j ∈ before) : ThirdParty j := by
  simp only [before, List.mem_cons, List.not_mem_nil, or_false] at hj
  rcases hj with rfl | rfl
  · trivial
  · refine ⟨?_, fun _ => ?_⟩
    · rintro (h | h | ⟨id, h⟩)
      · exact absurd h (by decide)
      · exact absurd h (by decide)
      · exact dnChain_ne (by decide) h.symm
    · intro h
      exact absurd (getLast?_of_jump h rfl) (by decide)

theorem reachable_after [Crates] {c d : NodeConfig} {js : List Job} {s : State}
    (hd : (system ⟨"iptables"⟩).Reachable c d) (hidle : ∀ p, d.busy p = none)
    (hjs : ∀ j ∈ js, ThirdParty j) (h : js.foldlM (fun s j => after j s) d.state = some s) :
    ∃ e, (system ⟨"iptables"⟩).Reachable c e ∧ (∀ p, e.busy p = none) ∧ e.state = s := by
  induction js generalizing d with
  | nil => exact ⟨d, hd, hidle, Option.some.inj h⟩
  | cons j js ih =>
    obtain ⟨hj, hjs⟩ := List.forall_mem_cons.mp hjs
    rw [List.foldlM_cons] at h
    obtain ⟨s₁, hs₁, h⟩ := Option.bind_eq_some_iff.mp h
    obtain ⟨⟨a, s'⟩, hrun, rfl⟩ := Option.map_eq_some_iff.mp hs₁
    obtain ⟨d₁, hd₁, hidle₁, hstate⟩ := reachable_exec hd hidle hj (exec_perform hrun)
    exact ih hd₁ hidle₁ hjs (by rwa [hstate])

/-- An ADD on a configuration that was read. -/
theorem cmdAdd_eq [Crates] {args : CniArgs} {stdin : String} {ports : Published}
    (h : published stdin = some ports) (ipt : Iptables) : ∃ out, cmdAdd ipt args stdin = do
      apply ipt args.containerId ports.podIp ports.mappings
      return out := by
  obtain ⟨conf, hconf, h⟩ := Option.bind_eq_some_iff.mp h
  obtain ⟨prev, hprev, h⟩ := Option.bind_eq_some_iff.mp h
  obtain ⟨hne, h⟩ := Option.ite_none_left_eq_some.mp h
  obtain ⟨podIp, hip, h⟩ := Option.bind_eq_some_iff.mp h
  obtain rfl := Option.some.inj h
  refine ⟨prev.toJson, ?_⟩
  simp only [cmdAdd, hconf, hprev, if_pos hne, hip]

def podAdd (id : String) (ip : Ipv4Addr) : Job :=
  .add ⟨"ADD", id, "/proc/1/ns/net", "eth0", "", "/opt/cni/bin"⟩
    ("\x7b\"runtimeConfig\":\x7b\"portMappings\":[\x7b\"hostPort\":8080,\"containerPort\":80\x7d]\x7d," ++
      "\"prevResult\":\x7b\"cniVersion\":\"0.3.1\",\"ips\":[\x7b\"version\":\"4\",\"address\":\"" ++
      ip.toString ++ "/24\"\x7d]\x7d\x7d")

def port8080 : List PortMapping := [⟨8080, 80, "tcp", none⟩]

/-- The node after an ADD that succeeds. -/
def withPod (id : String) (ip : Ipv4Addr) (s : State) : Option State :=
  ((apply ⟨"iptables"⟩ id ip port8080).run.run perform
    { s with begun := ⟨id, ip, port8080⟩ :: s.begun }).bind fun r =>
      match r with
      | (.ok (), s') => some { s' with completed := ⟨id, ip, port8080⟩ :: s'.completed }
      | (.error _, _) => none

theorem reachable_withPod [Crates] {c d : NodeConfig} {id : String} {ip : Ipv4Addr} {s : State}
    (hd : (system ⟨"iptables"⟩).Reachable c d) (hidle : ∀ p, d.busy p = none)
    (hpub : publication (podAdd id ip) = some ⟨id, ip, port8080⟩)
    (h : withPod id ip d.state = some s) :
    ∃ e, (system ⟨"iptables"⟩).Reachable c e ∧ (∀ p, e.busy p = none) ∧ e.state = s := by
  obtain ⟨⟨r, s'⟩, hrun, h⟩ := Option.bind_eq_some_iff.mp h
  cases r with
  | error e => cases h
  | ok u =>
    obtain rfl := Option.some.inj h
    obtain ⟨ports, hports, he⟩ := Option.map_eq_some_iff.mp hpub
    obtain ⟨-, rfl⟩ := Container.mk.inj he
    obtain ⟨out, hadd⟩ := cmdAdd_eq hports ⟨"iptables"⟩
    have hexec : Exec ((system ⟨"iptables"⟩).answers 0 (podAdd id ip))
        { d.state with begun := (publication (podAdd id ip)).toList ++ d.state.begun }
        ((system ⟨"iptables"⟩).code 0 (podAdd id ip)) (.added (.ok out)) s' := by
      rw [hpub]
      refine Exec.bind (a := .ok out) ?_ (.ret ..)
      rw [hadd]
      exact (exec_perform hrun).exceptBind (.ret ..)
    have hthird : ThirdParty (podAdd id ip) := trivial
    obtain ⟨e, he, hidle', hstate⟩ := reachable_exec hd hidle hthird hexec
    refine ⟨e, he, hidle', hstate.trans ?_⟩
    have hcompleted : completion (podAdd id ip) (.added (.ok out)) = some ⟨id, ip, port8080⟩ := hpub
    rw [hcompleted]
    rfl

theorem clean_builtinTable : Clean PortmapTables.builtinTable := by
  have hempty : ∀ name, Table.chain PortmapTables.builtinTable name = [] := by
    intro name
    simp only [PortmapTables.builtinTable, Table.chain_insert]
    split
    · rfl
    · split
      · rfl
      · split
        · rfl
        · rfl
  exact ⟨fun name _ => hempty name, by simp [hempty]⟩

def hairpin (src : Ipv4Addr) : Packet := ⟨.tcp, src, .ofOctets 192 0 2 7, 8080, true, 0⟩

/-- What was asked for. -/
def told (c : Container) : String × Ipv4Addr × List PortMapping :=
  (c.id, c.ports.podIp, c.ports.mappings)

theorem eq_of_told {c : Container} {id : String} {ip : Ipv4Addr} {ms : List PortMapping}
    (h : told c = (id, ip, ms)) : c = ⟨id, ip, ms⟩ := by
  cases h
  rfl

theorem reachable_pod {d : NodeConfig} {id : String} {ip : Ipv4Addr} {s : State}
    (hd : (@system Crates.compact ⟨"iptables"⟩).Reachable (initial PortmapTables.builtinTable) d)
    (hidle : ∀ p, d.busy p = none)
    (hpub : (@publication Crates.compact (podAdd id ip)).map told = some (id, ip, port8080))
    (h : withPod id ip d.state = some s) : ∃ e,
    (@system Crates.compact ⟨"iptables"⟩).Reachable (initial PortmapTables.builtinTable) e ∧
      (∀ p, e.busy p = none) ∧ e.state = s := by
  obtain ⟨c, hc, htold⟩ := Option.map_eq_some_iff.mp hpub
  rw [eq_of_told htold] at hc
  exact @reachable_withPod Crates.compact _ _ _ _ _ hd hidle hc h

theorem matches_port8080 (src : Ipv4Addr) :
    ∃ m ∈ port8080, matchesMapping (hairpin src) m = true := by
  refine ⟨_, List.mem_singleton_self _, ?_⟩
  have hproto : parseProtocol "tcp" = some .tcp := by decide +kernel
  simp [matchesMapping, hairpin, hproto, PortMapping.hostIpSome]

def onePod : Option State :=
  (before.foldlM (fun s j => @after Crates.compact j s)
    (initial PortmapTables.builtinTable).state).bind (withPod "pod1" (.ofOctets 10 244 1 6))

theorem reachable_onePod {s : State} (h : onePod = some s) : ∃ d,
    (@system Crates.compact ⟨"iptables"⟩).Reachable (initial PortmapTables.builtinTable) d ∧
      (∀ p, d.busy p = none) ∧ d.state = s := by
  obtain ⟨s₁, hbefore, h⟩ := Option.bind_eq_some_iff.mp h
  obtain ⟨d, hd, hidle, rfl⟩ := @reachable_after Crates.compact _ _ _ _ .here (fun _ => rfl)
    before_thirdParty hbefore
  exact reachable_pod hd hidle (by decide +kernel) h

/-- A pod that reaches itself through its published port, behind the rules of `flanneld`. -/
theorem hairpin_masqueraded_one_pod : ∃ d,
    (@system Crates.compact ⟨"iptables"⟩).Reachable (initial PortmapTables.builtinTable) d ∧
    (walk rules d.state.table.chain 1 (d.state.table.chain (dnChain "pod1"))
      (hairpin (.ofOctets 10 244 1 6))).2 = some (.dnat (.ofOctets 10 244 1 6) 80) ∧
    (walk rules d.state.table.chain 1 (d.state.table.chain "POSTROUTING")
      (translated (marked (hairpin (.ofOctets 10 244 1 6))) (.ofOctets 10 244 1 6) 80 false)).2 =
        some .masquerade := by
  have hpod : onePod.map (fun s => decide (s.begun.length = 1 ∧
      s.completed.map told = [("pod1", .ofOctets 10 244 1 6, port8080)] ∧
      walk rules s.table.chain 1 (s.table.chain (dnChain "pod1"))
        (hairpin (.ofOctets 10 244 1 6)) =
          (marked (hairpin (.ofOctets 10 244 1 6)), some (.dnat (.ofOctets 10 244 1 6) 80)))) =
      some true := by
    decide +kernel
  obtain ⟨s, hs, hall⟩ := Option.map_eq_some_iff.mp hpod
  obtain ⟨hbegun, hcompleted, hwalk⟩ := of_decide_eq_true hall
  obtain ⟨d, hrun, -, rfl⟩ := reachable_onePod hs
  obtain ⟨b, hb⟩ := List.length_eq_one_iff.mp hbegun
  have hapart : Apart d.state.begun := by
    intro x hx y hy _
    rw [hb, List.mem_singleton] at hx hy
    exact .inl (by rw [hx, hy])
  obtain ⟨c, hc, htold⟩ : ∃ c ∈ d.state.completed,
      told c = ("pod1", .ofOctets 10 244 1 6, port8080) := by
    rw [← List.mem_map, hcompleted]
    exact List.mem_singleton_self _
  obtain rfl := eq_of_told htold
  exact ⟨d, hrun, by rw [hwalk], @hairpin_masqueraded Crates.compact ⟨"iptables"⟩
    PortmapTables.builtinTable clean_builtinTable d hrun hapart _ hc _ (matches_port8080 _)
    (.inl rfl) 0 _ _ _ hwalk false 0⟩

/-- Two containers that share a chain, and publish the same port. -/
def twoPods : Option State := onePod.bind (withPod "pod-1" (.ofOctets 10 244 1 5))

/-- What the second pod sends to its published port is translated to the first, and is not
masqueraded. -/
theorem hairpin_not_masqueraded : ∃ d,
    (@system Crates.compact ⟨"iptables"⟩).Reachable (initial PortmapTables.builtinTable) d ∧
    ∃ c ∈ d.state.completed, ¬ Masqueraded d.state.table c := by
  have hpods : twoPods.map (fun s => decide (
      s.completed.map told = [("pod-1", .ofOctets 10 244 1 5, port8080),
        ("pod1", .ofOctets 10 244 1 6, port8080)] ∧
      walk rules s.table.chain 1 (s.table.chain (dnChain "pod-1"))
        (hairpin (.ofOctets 10 244 1 5)) =
          (hairpin (.ofOctets 10 244 1 5), some (.dnat (.ofOctets 10 244 1 6) 80)) ∧
      (walk rules s.table.chain 1 (s.table.chain "POSTROUTING")
        (translated (hairpin (.ofOctets 10 244 1 5)) (.ofOctets 10 244 1 6) 80 false)).2 =
          none)) = some true := by
    decide +kernel
  obtain ⟨s, hs, hall⟩ := Option.map_eq_some_iff.mp hpods
  obtain ⟨hcompleted, hwalk, hpost⟩ := of_decide_eq_true hall
  obtain ⟨s₁, hone, htwo⟩ := Option.bind_eq_some_iff.mp hs
  obtain ⟨d₁, hrun₁, hidle, rfl⟩ := reachable_onePod hone
  obtain ⟨d, hrun, -, rfl⟩ := reachable_pod hrun₁ hidle (by decide +kernel) htwo
  obtain ⟨c, hc, htold⟩ : ∃ c ∈ d.state.completed,
      told c = ("pod-1", .ofOctets 10 244 1 5, port8080) := by
    rw [← List.mem_map, hcompleted]
    exact List.mem_cons_self
  obtain rfl := eq_of_told htold
  refine ⟨d, hrun, _, hc, fun h => ?_⟩
  have hmasq := h _ (matches_port8080 _) (.inl rfl) 0 _ _ _ hwalk false 0
  rw [hpost] at hmasq
  cases hmasq

end FlannelRs.HairpinMasquerade
