import FlannelRs.PortmapTables
import FlannelRs.ProcessPools

/-!
# Port mappings of several containers, with their commands interleaved

Every container runs its own ADDs and DELs one after the other, and between two commands of
one container any number of commands of others may be run.
-/

namespace FlannelRs.PortmapInterleavings
open InteractionPrograms ProcessPools Ipv4Addresses RustText CniTypes RuleChains NatTables
open Portmap PortmapChains PortmapTables

inductive Job where
  | add (args : CniArgs) (stdin : String)
  | del (args : CniArgs) (stdin : String)

/-- What an ADD with this configuration publishes, if it succeeds. -/
def published [Crates] (stdin : String) : Option Published := do
  let conf ← PortmapConf.parse stdin
  let prev ← conf.prevResult
  if conf.portMappings = [] then none else return ⟨← podIpv4 prev, conf.portMappings⟩

section

variable {C : Type}

/-- A command is run, and it is noted which containers have a jump. -/
def advance [DecidableEq C] (c : C) (o : Command) (s : Node C) : Node C where
  table := (s.table.answer o).2
  live := s.live
  jumps := match o with
    | .append name _ =>
      if name = topChain ∧ (s.table.answer o).1.success then s.jumps ++ [c] else s.jumps
    | .delete name _ =>
      if name = topChain ∧ (s.table.answer o).1.success then s.jumps.erase c else s.jumps
    | _ => s.jumps

/-- Every command is run, and answered as the table answers it. -/
def answered [DecidableEq C] (c : C) : Environment (Node C) Command CommandRes :=
  fun s o r s' => r = .ok (s.table.answer o).1 ∧ s' = advance c o s

variable [Crates]

/-- Valid mappings, and for a DEL the configuration of the ADD: if it has no mappings then
nothing has been published. -/
def Admissible (ids : C → String) (c : C) (s : Node C) : Job → Prop
  | .add args stdin => args.containerId = ids c ∧
      ∀ conf, PortmapConf.parse stdin = some conf → ∀ m ∈ conf.portMappings, Valid m
  | .del args stdin => args.containerId = ids c ∧
      ∀ conf, PortmapConf.parse stdin = some conf → conf.portMappings = [] → s.live c = []

/-- What a container has published after a job. -/
def publishedAfter (r : Except CniError String) (pubs : List Published) : Job → List Published
  | .add _ stdin => if r.isOk then pubs ++ (published stdin).toList else pubs
  | .del _ _ => []

def system [DecidableEq C] (ipt : Iptables) (ids : C → String) :
    System (Node C) C Job Command CommandRes (Except CniError String) where
  code _ j := match j with
    | .add args stdin => (cmdAdd ipt args stdin).run
    | .del args stdin => (cmdDel ipt args stdin).run
  start c j s s' := Admissible ids c s j ∧ s' = s
  answers c _ := answered c
  finish c j r s s' :=
    s' = { s with live := Function.update s.live c (publishedAfter r (s.live c) j) }

end

variable {C : Type} [DecidableEq C] {ids : C → String} {t₀ : Table} {c : C} {s s' : Node C}

/-- The other containers touch nothing of this one, and nothing shared is lost. -/
structure Rely (ids : C → String) (c : C) (s s' : Node C) : Prop where
  lasts : Lasts s s'
  untouched : Untouched ids c s s'

def contract (ids : C → String) (t₀ : Table) (J : Type) : Contract (Node C) C J where
  inv := Inv ids t₀
  rely := Rely ids
  guar c _ := Guar ids c
  rely_refl _ s := ⟨.refl s, .refl s⟩
  rely_trans _ _ _ _ h h' := ⟨h.lasts.trans h'.lasts, h.untouched.trans h'.untouched⟩
  guar_rely _ _ q _ _ hq _ h := ⟨h.lasts, h.others q hq⟩

/-- What the others cannot make false. -/
def Stable (ids : C → String) (c : C) (P : Node C → Prop) : Prop :=
  ∀ s s', Rely ids c s s' → P s → P s'

/-- What is known of a container: its chain, whether there is a jump to it, what it has
published, and something of the shared chains. -/
structure Knows (ids : C → String) (c : C) (own : Option (List Rule)) (jumped : Prop)
    (pubs : List Published) (F : Node C → Prop) (s : Node C) : Prop where
  own : s.table.lookup (dnChain (ids c)) = own
  jumped : c ∈ s.jumps ↔ jumped
  live : s.live c = pubs
  facts : F s

/-- Something about the shared chains that only becomes more. -/
def Lasting (F : Node C → Prop) : Prop := ∀ s s', Lasts s s' → F s → F s'

variable {own : Option (List Rule)} {jumped : Prop} {pubs : List Published} {F : Node C → Prop}

omit [DecidableEq C] in
theorem Knows.stable (hF : Lasting F) : Stable ids c (Knows ids c own jumped pubs F) :=
  fun _ _ hr h => ⟨hr.untouched.own.trans h.own, hr.untouched.jump.trans h.jumped,
    hr.untouched.live.trans h.live, hF _ _ hr.lasts h.facts⟩

section

variable {ipt : Iptables} {J : Type} {j : J} {α : Type}

abbrev SafeIn (ids : C → String) (t₀ : Table) (c : C) (j : J) (post : α → Node C → Prop)
    (prog : TableProgram α) (s : Node C) : Prop :=
  (contract ids t₀ J).Safe (answered c) c j post prog s

/-- A command, between what was known before and what is known then. -/
def Moves (ids : C → String) (t₀ : Table) (c : C) (o : Command) (P : Node C → Prop)
    (Q : Output → Node C → Prop) : Prop :=
  ∀ s, Inv ids t₀ s → P s → Inv ids t₀ (advance c o s) ∧ Guar ids c s (advance c o s) ∧
    Q (s.table.answer o).1 (advance c o s)

variable {P P' Q : Node C → Prop}

theorem safe_send {o : Command} {Q : Output → Node C → Prop} (hP : Stable ids c P)
    (hQ : ∀ out, Stable ids c (Q out)) (hmoves : Moves ids t₀ c o P Q) (hs : P s) :
    SafeIn ids t₀ c j (fun r s' => ∃ out, r = .ok out ∧ Q out s') (Program.send o) s := by
  rintro s₁ hr hi r s₂ ⟨rfl, rfl⟩
  obtain ⟨hinv, hguar, hpost⟩ := hmoves s₁ hi (hP s s₁ hr hs)
  exact ⟨hinv, hguar, fun s₃ hr' _ => ⟨_, rfl, hQ _ _ _ hr' hpost⟩⟩

theorem safe_run {o : Command} {Q : Output → Node C → Prop} (hP : Stable ids c P)
    (hQ : ∀ out, Stable ids c (Q out)) (hmoves : Moves ids t₀ c o P Q) (hi : Inv ids t₀ s)
    (hs : P s) :
    SafeIn ids t₀ c j (fun r s' => ∃ out, r = .ok out ∧ Q out s') (ipt.run o).run s := by
  refine Contract.Safe.liftBind (safe_send hP hQ hmoves hs) hi ?_
  rintro r s' - ⟨out, rfl, hpost⟩
  exact fun s₃ hr' _ => ⟨out, rfl, hQ _ _ _ hr' hpost⟩

/-- A check, and an addition if it fails. -/
def checked (ipt : Iptables) (check add : Command) (e : Output → CniError) :
    IptablesProgram Unit := do
  if (← ipt.run check).success then return ()
  else
    let out ← ipt.run add
    if out.success then return () else throw (e out)

theorem safe_checked {check add : Command} {e : Output → CniError} (hP : Stable ids c P)
    (hP' : Stable ids c P') (hQ : Stable ids c Q)
    (hcheck : Moves ids t₀ c check P fun out s => if out.success then Q s else P' s)
    (hadd : Moves ids t₀ c add P' fun out s => out.success = true ∧ Q s) (hi : Inv ids t₀ s)
    (hs : P s) : SafeIn ids t₀ c j (fun r s' => r = .ok () ∧ Q s')
      (checked ipt check add e).run s := by
  have hstable : ∀ out : Output, Stable ids c fun s => if out.success then Q s else P' s := by
    intro out
    cases out.success with
    | true => simpa using hQ
    | false => simpa using hP'
  refine Contract.Safe.exceptBind (safe_run hP hstable hcheck hi hs) hi ?_ ?_
  · rintro out s₁ hi₁ ⟨out', he, hpost⟩
    obtain rfl := Except.ok.inj he
    cases hout : out.success with
    | true =>
      rw [hout] at hpost
      exact fun s₂ hr _ => ⟨rfl, hQ _ _ hr hpost⟩
    | false =>
      rw [hout] at hpost
      refine Contract.Safe.exceptBind (safe_run hP'
        (fun out s s' hr h => ⟨h.1, hQ s s' hr h.2⟩) hadd hi₁ hpost) hi₁ ?_ ?_
      · rintro out₂ s₂ - ⟨out', he, hsuccess, hq⟩
        obtain rfl := Except.ok.inj he
        simp only [hsuccess, if_true]
        exact fun s₃ hr _ => ⟨rfl, hQ _ _ hr hq⟩
      · rintro e s₂ - ⟨out, he, -⟩
        cases he
  · rintro e s₁ - ⟨out, he, -⟩
    cases he

theorem safe_ensureChain {name : String} (hP : Stable ids c P) (hQ : Stable ids c Q)
    (hmoves : Moves ids t₀ c (.newChain name) P fun out s =>
      (out.success = true ∨ contains out.stderr "exists" = true) ∧ Q s) (hi : Inv ids t₀ s)
    (hs : P s) : SafeIn ids t₀ c j (fun r s' => r = .ok () ∧ Q s')
      (ipt.ensureChain name).run s := by
  refine Contract.Safe.exceptBind (safe_run hP
    (fun out s s' hr h => ⟨h.1, hQ s s' hr h.2⟩) hmoves hi hs) hi ?_ ?_
  · rintro out s₁ - ⟨out', he, hout, hpost⟩
    obtain rfl := Except.ok.inj he
    cases hsuccess : out.success with
    | true => exact fun s₂ hr _ => ⟨rfl, hQ _ _ hr hpost⟩
    | false =>
      have hexists := hout.resolve_left (by simp [hsuccess])
      simp only [hexists, if_true, Bool.false_eq_true, if_false]
      exact fun s₂ hr _ => ⟨rfl, hQ _ _ hr hpost⟩
  · rintro e s₁ - ⟨out, he, -⟩
    cases he

end

/-- A command that changes nothing. -/
theorem advance_self {o : Command} (h : (s.table.answer o).2 = s.table)
    (ho : ∀ name args, o = .append name args ∨ o = .delete name args →
      name ≠ topChain ∨ (s.table.answer o).1.success = false) : advance c o s = s := by
  obtain ⟨table, live, jumps⟩ := s
  simp only [advance, Node.mk.injEq]
  refine ⟨h, trivial, ?_⟩
  cases o with
  | append name args =>
    rcases ho name args (.inl rfl) with hne | hfalse
    · simp [hne]
    · simp [hfalse]
  | delete name args =>
    rcases ho name args (.inr rfl) with hne | hfalse
    · simp [hne]
    · simp [hfalse]
  | _ => rfl

/-- A command that changes one chain, but not the one of jumps. -/
theorem advance_put {o : Command} {out : Output} {name : String} {rs : List Rule}
    (h : s.table.answer o = (out, s.table.insert name rs))
    (ho : ∀ name args, o = .append name args ∨ o = .delete name args → name ≠ topChain) :
    advance c o s = s.put name rs := by
  simp only [advance, Node.put, h, Node.mk.injEq, true_and]
  cases o with
  | append name args => simp [ho name args (.inl rfl)]
  | delete name args => simp [ho name args (.inr rfl)]
  | _ => rfl

omit [DecidableEq C] in
theorem Lasting.and {G : Node C → Prop} (hF : Lasting F) (hG : Lasting G) :
    Lasting fun s => F s ∧ G s := fun s s' h hs => ⟨hF s s' h hs.1, hG s s' h hs.2⟩

omit [DecidableEq C] in
theorem lasting_mem (name : String) (h : name ∈ sharedChains) :
    Lasting fun s : Node C => name ∈ s.table := fun _ _ hl hs => hl.names name h hs

omit [DecidableEq C] in
theorem lasting_rule (name : String) (r : Rule) (h : name ∈ sharedChains) (hne : name ≠ topChain) :
    Lasting fun s : Node C => r ∈ s.table.chain name := fun _ _ hl hs => hl.rules name h hne r hs

theorem contains_exists : contains "iptables: Chain already exists." "exists" = true := by
  decide +kernel

/-- One of the chains that portmap itself makes for all. -/
theorem moves_newChain {name : String} (hname : name ∈ [topChain, setmarkChain, masqChain])
    (hF : Lasting F) : Moves ids t₀ c (.newChain name) (Knows ids c own jumped pubs F) fun out s =>
      (out.success = true ∨ contains out.stderr "exists" = true) ∧
        Knows ids c own jumped pubs (fun s => F s ∧ name ∈ s.table) s := by
  intro s hi hk
  have hshared : name ∈ sharedChains := by
    simp only [List.mem_cons, List.not_mem_nil, or_false] at hname
    rcases hname with rfl | rfl | rfl <;> simp [sharedChains]
  by_cases hmem : name ∈ s.table
  · have hanswer := Table.answer_newChain_of_mem hmem
    rw [advance_self (by rw [hanswer]) (by rintro _ _ (h | h) <;> cases h), hanswer]
    exact ⟨hi, .refl s, .inr contains_exists, hk.own, hk.jumped, hk.live, hk.facts, hmem⟩
  · have hlen : name.length ≤ 28 := by
      simp only [List.mem_cons, List.not_mem_nil, or_false] at hname
      rcases hname with rfl | rfl | rfl <;> decide
    have hanswer := Table.answer_newChain hmem hlen
    have hfits : Fits ids t₀ s.jumps name [] := by
      simp only [List.mem_cons, List.not_mem_nil, or_false] at hname
      rcases hname with rfl | rfl | rfl
      · exact .of_top (by rw [hi.top hmem]; rfl)
      · exact .of_setmark (by simp)
      · exact .of_masq (by simp)
    have hempty : ∀ r ∈ s.table.chain name, name ≠ topChain → r ∈ ([] : List Rule) := by
      intro r hr
      simp [Table.chain, AList.lookup_eq_none.mpr hmem] at hr
    have hguar : Guar ids c s (s.put name []) := .put_shared hshared hempty
    rw [advance_put hanswer (by rintro _ _ (h | h) <;> cases h), hanswer]
    refine ⟨hi.put hfits, hguar, .inl rfl, ?_, hk.jumped, hk.live, hF _ _ hguar.lasts hk.facts, ?_⟩
    · rw [Node.put, AList.lookup_insert_ne (dnChain_ne_shared hshared), hk.own]
    · exact (AList.mem_insert _).mpr (.inl rfl)

/-- Reading a rule for a chain, when the chain and the target are there. -/
theorem readRule_of_mem {t : Table} {name : String} {args : List String} {r : Rule}
    (hname : name ∈ t) (hr : parseRule args = some r) (ht : t.targetExists r.target = true) :
    t.readRule name args = some (r, t.chain name) := by
  obtain ⟨rs, hrs⟩ := Option.isSome_iff_exists.mp (AList.lookup_isSome.mpr hname)
  rw [Table.chain_of_lookup hrs]
  exact Table.readRule_of hrs hr ht

theorem lookup_of_mem {t : Table} {name : String} (h : name ∈ t) :
    t.lookup name = some (t.chain name) := by
  obtain ⟨rs, hrs⟩ := Option.isSome_iff_exists.mp (AList.lookup_isSome.mpr h)
  rw [Table.chain_of_lookup hrs, hrs]

/-- A rule that all need, and that may be there more than once. -/
structure Common (ids : C → String) (t₀ : Table) (F : Node C → Prop) (name : String)
    (args : List String) (r : Rule) (add : Command) (grow : List Rule → List Rule) : Prop where
  shared : name ∈ sharedChains
  ne_top : name ≠ topChain
  parse : parseRule args = some r
  there : ∀ s, Inv ids t₀ s → F s → name ∈ s.table ∧ s.table.targetExists r.target = true
  answer : ∀ (t : Table) rs, t.readRule name args = some (r, rs) →
    t.answer add = (⟨true, ""⟩, t.insert name (grow rs))
  jumps : ∀ name args, add = .append name args ∨ add = .delete name args → name ≠ topChain
  mem : ∀ rs x, x ∈ grow rs ↔ x = r ∨ x ∈ rs
  fits : ∀ jumps rs, Fits ids t₀ jumps name rs → Fits ids t₀ jumps name (grow rs)

variable {name : String} {args : List String} {r : Rule} {add : Command}
  {grow : List Rule → List Rule}

theorem Common.moves_check (h : Common ids t₀ F name args r add grow) :
    Moves ids t₀ c (.check name args) (Knows ids c own jumped pubs F) fun out s =>
      if out.success then Knows ids c own jumped pubs (fun s => F s ∧ r ∈ s.table.chain name) s
      else Knows ids c own jumped pubs F s := by
  intro s hi hk
  obtain ⟨hname, htarget⟩ := h.there s hi hk.facts
  obtain ⟨hsuccess, htable⟩ := Table.answer_check (readRule_of_mem hname h.parse htarget)
  rw [advance_self htable (by rintro _ _ (h | h) <;> cases h)]
  refine ⟨hi, .refl s, ?_⟩
  simp only [hsuccess]
  by_cases hr : r ∈ s.table.chain name
  · simpa [hr] using ⟨hk.own, hk.jumped, hk.live, hk.facts, hr⟩
  · simpa [hr] using hk

theorem Common.moves_add (h : Common ids t₀ F name args r add grow) (hF : Lasting F) :
    Moves ids t₀ c add (Knows ids c own jumped pubs F) fun out s => out.success = true ∧
      Knows ids c own jumped pubs (fun s => F s ∧ r ∈ s.table.chain name) s := by
  intro s hi hk
  obtain ⟨hname, htarget⟩ := h.there s hi hk.facts
  have hanswer := h.answer _ _ (readRule_of_mem hname h.parse htarget)
  have hguar : Guar ids c s (s.put name (grow (s.table.chain name))) :=
    .put_shared h.shared fun x hx _ => (h.mem _ x).mpr (.inr hx)
  rw [advance_put hanswer h.jumps, hanswer]
  refine ⟨hi.put (h.fits _ _ (hi.fits _ _ (lookup_of_mem hname))), hguar, rfl, ?_, hk.jumped,
    hk.live, hF _ _ hguar.lasts hk.facts, ?_⟩
  · rw [Node.put, AList.lookup_insert_ne (dnChain_ne_shared h.shared), hk.own]
  · rw [Node.put, Table.chain_insert, if_pos rfl]
    exact (h.mem _ r).mpr (.inl rfl)

variable {ipt : Iptables} {J : Type} {j : J}

/-- The rule is ensured. -/
theorem Common.safe (h : Common ids t₀ F name args r add grow) (hF : Lasting F)
    {e : Output → CniError} (hi : Inv ids t₀ s) (hk : Knows ids c own jumped pubs F s) :
    SafeIn ids t₀ c j (fun r' s' => r' = .ok () ∧
        Knows ids c own jumped pubs (fun s => F s ∧ r ∈ s.table.chain name) s')
      (checked ipt (.check name args) add e).run s :=
  safe_checked (Knows.stable hF) (Knows.stable hF)
    (Knows.stable (hF.and (lasting_rule _ _ h.shared h.ne_top))) h.moves_check (h.moves_add hF) hi hk

/-- What `ensure_top_chains` has made sure of. -/
structure Ready (s : Node C) : Prop where
  top : topChain ∈ s.table
  prerouting : hookRule ∈ s.table.chain "PREROUTING"
  output : hookRule ∈ s.table.chain "OUTPUT"
  setmark : setmarkChain ∈ s.table
  setmarkRule : setmarkRule ∈ s.table.chain setmarkChain

omit [DecidableEq C] in
theorem lasting_ready : Lasting (Ready (C := C)) := fun s s' h hr => {
  top := h.names _ (by simp [sharedChains]) hr.top
  prerouting := h.rules _ (by simp [sharedChains]) (by decide) _ hr.prerouting
  output := h.rules _ (by simp [sharedChains]) (by decide) _ hr.output
  setmark := h.names _ (by simp [sharedChains]) hr.setmark
  setmarkRule := h.rules _ (by simp [sharedChains]) (by decide) _ hr.setmarkRule }

omit [DecidableEq C] in
theorem targetExists_jump {t : Table} {chain : String} :
    t.targetExists (.jump chain) = true ↔ chain ∈ t := by
  simp [Table.targetExists]

section

variable {F : Node C → Prop}

omit [DecidableEq C] in
theorem common_hook (hfresh : Fresh ids t₀) {name : String}
    (hname : name = "PREROUTING" ∨ name = "OUTPUT") (htop : ∀ s, F s → topChain ∈ s.table) :
    Common ids t₀ F name jumpArgs hookRule (.insert name jumpArgs) (hookRule :: ·) where
  shared := by rcases hname with rfl | rfl <;> simp [sharedChains]
  ne_top := by rcases hname with rfl | rfl <;> decide
  parse := parse_hookRule
  there s hi hF := by
    refine ⟨hi.kept name (hfresh.builtin name ?_), targetExists_jump.mpr (htop s hF)⟩
    rcases hname with rfl | rfl <;> simp
  answer t rs h := Table.answer_insert h
  jumps := by rintro _ _ (h | h) <;> cases h
  mem rs x := List.mem_cons
  fits jumps rs h := by
    obtain ⟨n, rfl⟩ := h.hook hname
    exact .of_hook hname ⟨n + 1, rfl⟩

omit [DecidableEq C] in
theorem common_post (hfresh : Fresh ids t₀) (hmasq : ∀ s, F s → masqChain ∈ s.table) :
    Common ids t₀ F "POSTROUTING" ["-j", masqChain] (jumpTo masqChain)
      (.insert "POSTROUTING" ["-j", masqChain]) (jumpTo masqChain :: ·) where
  shared := by simp [sharedChains]
  ne_top := by decide
  parse := parse_jumpTo_masqChain
  there s hi hF := ⟨hi.kept _ (hfresh.builtin _ (by simp)), targetExists_jump.mpr (hmasq s hF)⟩
  answer t rs h := Table.answer_insert h
  jumps := by rintro _ _ (h | h) <;> cases h
  mem rs x := List.mem_cons
  fits jumps rs h := by
    obtain ⟨n, rfl⟩ := h.post rfl
    exact .of_post ⟨n + 1, rfl⟩

omit [DecidableEq C] in
theorem common_setmark (hmem : ∀ s, F s → setmarkChain ∈ s.table) :
    Common ids t₀ F setmarkChain ["-j", "MARK", "--set-xmark", markText] setmarkRule
      (.append setmarkChain ["-j", "MARK", "--set-xmark", markText]) (· ++ [setmarkRule]) where
  shared := by simp [sharedChains]
  ne_top := by decide
  parse := parse_setmarkRule
  there s _ hF := ⟨hmem s hF, rfl⟩
  answer t rs h := Table.answer_append h
  jumps := by
    rintro _ _ (h | h) <;> cases h
    decide
  mem rs x := by rw [List.mem_append, List.mem_singleton, or_comm]
  fits jumps rs h := .of_setmark fun r hr =>
    (List.mem_append.mp hr).elim (h.setmark rfl r) List.mem_singleton.mp

omit [DecidableEq C] in
theorem common_masq (hmem : ∀ s, F s → masqChain ∈ s.table) :
    Common ids t₀ F masqChain ["-m", "mark", "--mark", markText, "-j", "MASQUERADE"] masqRule
      (.append masqChain ["-m", "mark", "--mark", markText, "-j", "MASQUERADE"])
      (· ++ [masqRule]) where
  shared := by simp [sharedChains]
  ne_top := by decide
  parse := parse_masqRule
  there s _ hF := ⟨hmem s hF, rfl⟩
  answer t rs h := Table.answer_append h
  jumps := by
    rintro _ _ (h | h) <;> cases h
    decide
  mem rs x := by rw [List.mem_append, List.mem_singleton, or_comm]
  fits jumps rs h := .of_masq fun r hr =>
    (List.mem_append.mp hr).elim (h.masq rfl r) List.mem_singleton.mp

end

/-- A part that succeeds, and what follows it. -/
theorem safe_bind {β γ : Type} {m : β → Node C → Prop} {post : Except CniError γ → Node C → Prop}
    {prog : IptablesProgram β} {f : β → IptablesProgram γ}
    (h : SafeIn ids t₀ c j (fun r s' => ∃ a, r = .ok a ∧ m a s') prog.run s)
    (hi : Inv ids t₀ s)
    (hf : ∀ a s', Inv ids t₀ s' → m a s' → SafeIn ids t₀ c j post (f a).run s') :
    SafeIn ids t₀ c j post (prog >>= f).run s := by
  refine Contract.Safe.exceptBind h hi ?_ ?_
  · rintro a s' hi' ⟨a', he, hm⟩
    obtain rfl := Except.ok.inj he
    exact hf a s' hi' hm
  · rintro e s' - ⟨a, he, -⟩
    cases he

theorem safe_unit_bind {γ : Type} {P : Node C → Prop} {post : Except CniError γ → Node C → Prop}
    {prog : IptablesProgram Unit} {f : Unit → IptablesProgram γ}
    (h : SafeIn ids t₀ c j (fun r s' => r = .ok () ∧ P s') prog.run s)
    (hi : Inv ids t₀ s)
    (hf : ∀ s', Inv ids t₀ s' → P s' → SafeIn ids t₀ c j post (f ()).run s') :
    SafeIn ids t₀ c j post (prog >>= f).run s :=
  safe_bind (m := fun _ => P) (h.mono fun _ _ _ hr => ⟨(), hr⟩) hi fun _ => hf

/-- Afterwards all that is shared is there. -/
theorem safe_ensureTopChains (hfresh : Fresh ids t₀) (hi : Inv ids t₀ s)
    (hk : Knows ids c own jumped pubs (fun _ => True) s) :
    SafeIn ids t₀ c j (fun r s' => r = .ok () ∧ Knows ids c own jumped pubs Ready s')
      (ensureTopChains ipt).run s := by
  have htrue : Lasting fun _ : Node C => True := fun _ _ _ h => h
  have h₁ := htrue.and (lasting_mem topChain (by simp [sharedChains]))
  have h₂ := h₁.and (lasting_rule "PREROUTING" hookRule (by simp [sharedChains]) (by decide))
  have h₃ := h₂.and (lasting_rule "OUTPUT" hookRule (by simp [sharedChains]) (by decide))
  have h₄ := h₃.and (lasting_mem setmarkChain (by simp [sharedChains]))
  have h₅ := h₄.and (lasting_rule setmarkChain setmarkRule (by simp [sharedChains]) (by decide))
  have h₆ := h₅.and (lasting_mem masqChain (by simp [sharedChains]))
  have h₇ := h₆.and (lasting_rule masqChain masqRule (by simp [sharedChains]) (by decide))
  refine safe_unit_bind (safe_ensureChain (Knows.stable htrue) (Knows.stable h₁)
    (moves_newChain (by simp) htrue) hi hk) hi fun s₁ hi₁ hk₁ => ?_
  refine safe_unit_bind ((common_hook hfresh (.inl rfl) fun s h => h.2).safe h₁ hi₁ hk₁) hi₁
    fun s₂ hi₂ hk₂ => ?_
  refine safe_unit_bind ((common_hook hfresh (.inr rfl) fun s h => h.1.2).safe h₂ hi₂ hk₂) hi₂
    fun s₃ hi₃ hk₃ => ?_
  refine safe_unit_bind (safe_ensureChain (Knows.stable h₃) (Knows.stable h₄)
    (moves_newChain (by simp) h₃) hi₃ hk₃) hi₃ fun s₄ hi₄ hk₄ => ?_
  refine safe_unit_bind ((common_setmark fun s h => h.2).safe h₄ hi₄ hk₄) hi₄
    fun s₅ hi₅ hk₅ => ?_
  refine safe_unit_bind (safe_ensureChain (Knows.stable h₅) (Knows.stable h₆)
    (moves_newChain (by simp) h₅) hi₅ hk₅) hi₅ fun s₆ hi₆ hk₆ => ?_
  refine safe_unit_bind ((common_masq fun s h => h.2).safe h₆ hi₆ hk₆) hi₆ fun s₇ hi₇ hk₇ => ?_
  refine ((common_post hfresh fun s h => h.1.2).safe h₇ hi₇ hk₇).mono ?_
  rintro r s' - ⟨rfl, hk⟩
  obtain ⟨⟨⟨⟨⟨⟨⟨⟨-, htop⟩, hpre⟩, hout⟩, hset⟩, hrule⟩, -⟩, -⟩, -⟩ := hk.facts
  exact ⟨rfl, hk.own, hk.jumped, hk.live, htop, hpre, hout, hset, hrule⟩

section

variable (hinj : Function.Injective fun c => dnChain (ids c))

include hinj

theorem moves_newOwn (hF : Lasting F) :
    Moves ids t₀ c (.newChain (dnChain (ids c))) (Knows ids c own jumped pubs F) fun out s =>
      (out.success = true ∨ contains out.stderr "exists" = true) ∧
        Knows ids c (some (own.getD [])) jumped pubs F s := by
  intro s hi hk
  cases hown : own with
  | some rs =>
    have hlookup := hk.own.trans hown
    have hmem : dnChain (ids c) ∈ s.table := AList.lookup_isSome.mp (by rw [hlookup]; rfl)
    have hanswer := Table.answer_newChain_of_mem hmem
    rw [advance_self (by rw [hanswer]) (by rintro _ _ (h | h) <;> cases h), hanswer]
    exact ⟨hi, .refl s, .inr contains_exists, hlookup, hk.jumped, hk.live, hk.facts⟩
  | none =>
    have hmem : dnChain (ids c) ∉ s.table := AList.lookup_eq_none.mp (hk.own.trans hown)
    have hanswer := Table.answer_newChain hmem (length_dnChain _)
    have hguar : Guar ids c s (s.put (dnChain (ids c)) []) := .put_own hinj c []
    rw [advance_put hanswer (by rintro _ _ (h | h) <;> cases h), hanswer]
    exact ⟨hi.put (.of_own c (by simp)), hguar, .inl rfl, AList.lookup_insert _, hk.jumped, hk.live,
      hF _ _ hguar.lasts hk.facts⟩

omit [DecidableEq C] in
theorem jumpTo_mem_iff {jumps : List C} : jumpTo (dnChain (ids c)) ∈
    jumps.map (fun q => jumpTo (dnChain (ids q))) ↔ c ∈ jumps := by
  simp only [List.mem_map, jumpTo, Rule.mk.injEq, Target.jump.injEq, true_and]
  constructor
  · rintro ⟨q, hq, he⟩
    rwa [← hinj he]
  · exact fun hc => ⟨c, hc, rfl⟩

omit [DecidableEq C] hinj in
theorem chain_top (hi : Inv ids t₀ s) (htop : topChain ∈ s.table) :
    s.table.chain topChain = s.jumps.map fun q => jumpTo (dnChain (ids q)) :=
  (hi.fits _ _ (lookup_of_mem htop)).top rfl

omit [DecidableEq C] hinj in
theorem readRule_jump {rs : List Rule} (hk : Knows ids c (some rs) jumped pubs F s)
    (htop : topChain ∈ s.table) : s.table.readRule topChain ["-j", dnChain (ids c)] =
      some (jumpTo (dnChain (ids c)), s.table.chain topChain) :=
  readRule_of_mem htop (parse_jumpTo_dnChain _)
    (targetExists_jump.mpr (AList.lookup_isSome.mp (by rw [hk.own]; rfl)))

theorem moves_checkJump {rs : List Rule} (htop : ∀ s, F s → topChain ∈ s.table) :
    Moves ids t₀ c (.check topChain ["-j", dnChain (ids c)])
      (Knows ids c (some rs) jumped pubs F) fun out s =>
        if out.success then Knows ids c (some rs) True pubs F s
        else Knows ids c (some rs) False pubs F s := by
  intro s hi hk
  obtain ⟨hsuccess, htable⟩ := Table.answer_check (readRule_jump hk (htop s hk.facts))
  rw [chain_top hi (htop s hk.facts), Bool.decide_congr (jumpTo_mem_iff hinj)] at hsuccess
  rw [advance_self htable (by rintro _ _ (h | h) <;> cases h)]
  refine ⟨hi, .refl s, ?_⟩
  simp only [hsuccess]
  by_cases hc : c ∈ s.jumps
  · simpa [hc] using ⟨hk.own, iff_true_intro hc, hk.live, hk.facts⟩
  · simpa [hc] using ⟨hk.own, iff_false_intro hc, hk.live, hk.facts⟩

omit hinj in
theorem moves_appendJump {rs : List Rule} (hF : Lasting F) (htop : ∀ s, F s → topChain ∈ s.table) :
    Moves ids t₀ c (.append topChain ["-j", dnChain (ids c)])
      (Knows ids c (some rs) False pubs F) fun out s =>
        out.success = true ∧ Knows ids c (some rs) True pubs F s := by
  intro s hi hk
  have hc : c ∉ s.jumps := hk.jumped.not.mpr id
  have hanswer := Table.answer_append (readRule_jump hk (htop s hk.facts))
  have hadvance : advance c (.append topChain ["-j", dnChain (ids c)]) s =
      s.putTop ids (s.jumps ++ [c]) := by
    simp [advance, hanswer, Node.putTop, chain_top hi (htop s hk.facts)]
  have hguar : Guar ids c s (s.putTop ids (s.jumps ++ [c])) :=
    .putTop fun q hq => by simp [hq]
  rw [hadvance, hanswer]
  refine ⟨hi.putTop ?_, hguar, rfl, ?_, ?_, hk.live, hF _ _ hguar.lasts hk.facts⟩
  · exact List.nodup_append.mpr ⟨hi.nodup, List.nodup_singleton c, by
      rintro a ha b hb rfl
      exact hc (List.mem_singleton.mp hb ▸ ha)⟩
  · rw [Node.putTop, AList.lookup_insert_ne (dnChain_ne (by decide)), hk.own]
  · simp [Node.putTop]

/-- The jump is there afterwards. -/
theorem safe_ensureJump {rs : List Rule} (hF : Lasting F) (htop : ∀ s, F s → topChain ∈ s.table)
    (hi : Inv ids t₀ s) (hk : Knows ids c (some rs) jumped pubs F s) :
    SafeIn ids t₀ c j (fun r s' => r = .ok () ∧ Knows ids c (some rs) True pubs F s')
      (ipt.ensureRule topChain ["-j", dnChain (ids c)]).run s :=
  safe_checked (Knows.stable hF) (Knows.stable hF) (Knows.stable hF) (moves_checkJump hinj htop)
    (moves_appendJump hF htop) hi hk

theorem moves_ownRule {rs : List Rule} (hF : Lasting F) (hr : parseRule args = some r)
    (hown : OwnRule r) (hset : ∀ s, F s → setmarkChain ∈ s.table) :
    Moves ids t₀ c (.check (dnChain (ids c)) args) (Knows ids c (some rs) jumped pubs F)
      (fun out s => if out.success then Knows ids c (some (addNew rs r)) jumped pubs F s
        else Knows ids c (some rs) jumped pubs F s ∧ r ∉ rs) ∧
    Moves ids t₀ c (.append (dnChain (ids c)) args)
      (fun s => Knows ids c (some rs) jumped pubs F s ∧ r ∉ rs)
      fun out s => out.success = true ∧ Knows ids c (some (addNew rs r)) jumped pubs F s := by
  have hread : ∀ s : Node C, Knows ids c (some rs) jumped pubs F s →
      s.table.readRule (dnChain (ids c)) args = some (r, rs) := by
    intro s hk
    refine Table.readRule_of hk.own hr ?_
    rcases hown.target with ht | ⟨addr, port, ht⟩
    · rw [ht]
      exact targetExists_jump.mpr (hset s hk.facts)
    · rw [ht]
      rfl
  constructor
  · intro s hi hk
    obtain ⟨hsuccess, htable⟩ := Table.answer_check (hread s hk)
    rw [advance_self htable (by rintro _ _ (h | h) <;> cases h)]
    refine ⟨hi, .refl s, ?_⟩
    simp only [hsuccess, addNew]
    by_cases hmem : r ∈ rs
    · simpa [hmem] using hk
    · simpa [hmem] using hk
  · rintro s hi ⟨hk, hnot⟩
    have hanswer := Table.answer_append (hread s hk)
    have hguar : Guar ids c s (s.put (dnChain (ids c)) (rs ++ [r])) := .put_own hinj c _
    have hne : ∀ name args', Command.append (dnChain (ids c)) args = .append name args' ∨
        Command.append (dnChain (ids c)) args = .delete name args' → name ≠ topChain := by
      rintro _ _ (h | h) <;> cases h
      exact dnChain_ne (by decide)
    rw [advance_put hanswer hne, hanswer]
    refine ⟨hi.put (.of_own c fun x hx => ?_), hguar, rfl, ?_, hk.jumped, hk.live,
      hF _ _ hguar.lasts hk.facts⟩
    · rcases List.mem_append.mp hx with hx | hx
      · exact (hi.fits _ _ hk.own).own c rfl x hx
      · rwa [List.mem_singleton.mp hx]
    · rw [Node.put, AList.lookup_insert, addNew, if_neg hnot]

/-- The rules of the container are added one after the other. -/
theorem safe_ownRules {argss : List (List String)} {new rs : List Rule} (hF : Lasting F)
    (hnew : List.Forall₂ (fun args r => parseRule args = some r ∧ OwnRule r) argss new)
    (hset : ∀ s, F s → setmarkChain ∈ s.table) (hi : Inv ids t₀ s)
    (hk : Knows ids c (some rs) jumped pubs F s) :
    SafeIn ids t₀ c j (fun r' s' => r' = .ok () ∧
        Knows ids c (some (new.foldl addNew rs)) jumped pubs F s')
      (argss.forM (ipt.ensureRule (dnChain (ids c)))).run s := by
  induction hnew generalizing s rs with
  | nil => exact fun s₁ hr _ => ⟨rfl, Knows.stable hF _ _ hr hk⟩
  | @cons args r argss new hfirst _ ih =>
    obtain ⟨hcheck, hadd⟩ := @moves_ownRule _ _ _ t₀ c jumped pubs F _ _ hinj rs hF hfirst.1
      hfirst.2 hset
    refine safe_unit_bind (safe_checked (Knows.stable hF)
      (fun s s' hr h => ⟨Knows.stable hF s s' hr h.1, h.2⟩) (Knows.stable hF) hcheck hadd hi hk) hi
      fun s₁ hi₁ hk₁ => ?_
    exact ih hi₁ hk₁

end

end FlannelRs.PortmapInterleavings
