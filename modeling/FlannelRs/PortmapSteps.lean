import FlannelRs.CheckedSteps
import FlannelRs.PortmapIsolation

/-!
# The ADD of `portmap` as a sequence of steps

A step ensures a chain or a rule. It is run alone on a table.
-/

namespace FlannelRs.PortmapSteps
open InteractionPrograms CheckedSteps Ipv4Addresses RustText CniTypes RuleChains NatTables
open Portmap PortmapChains PortmapTables PortmapInterleavings

/-- Every command is run, and answered by the table. -/
def answer (o : Command) (t : Table) : CommandRes o × Table := (.ok (t.answer o).1, (t.answer o).2)

inductive Step where
  | chain (name : String)
  | append (name : String) (args : List String)
  | insert (name : String) (args : List String)

def Step.code (ipt : Iptables) : Step → IptablesProgram Unit
  | .chain name => ipt.ensureChain name
  | .append name args => ipt.ensureRule name args
  | .insert name args => ipt.insertRule name args

/-- The steps for the chains that all containers use. -/
def topSteps : List Step :=
  [.chain topChain, .insert "PREROUTING" jumpArgs, .insert "OUTPUT" jumpArgs,
    .chain setmarkChain, .append setmarkChain ["-j", "MARK", "--set-xmark", markText],
    .chain masqChain, .append masqChain ["-m", "mark", "--mark", markText, "-j", "MASQUERADE"],
    .insert "POSTROUTING" ["-j", masqChain]]

def ruleSteps (name : String) (podIp : Ipv4Addr) (ms : List PortMapping) : List Step :=
  (ms.flatMap (mappingArgs podIp)).map (.append name)

def applySteps (id : String) (podIp : Ipv4Addr) (ms : List PortMapping) : List Step :=
  topSteps ++ (.chain (dnChain id) :: .append topChain ["-j", dnChain id] ::
    ruleSteps (dnChain id) podIp ms)

theorem forM_ruleSteps (ipt : Iptables) (name : String) (podIp : Ipv4Addr) (ms : List PortMapping) :
    (ms.forM fun m => (mappingArgs podIp m).forM (ipt.ensureRule name)) =
      (ruleSteps name podIp ms).forM (Step.code ipt) := by
  induction ms with
  | nil => rfl
  | cons m ms ih =>
    have hsteps : ruleSteps name podIp (m :: ms) =
        (mappingArgs podIp m).map (.append name) ++ ruleSteps name podIp ms := by
      rw [ruleSteps, List.flatMap_cons, List.map_append]
      rfl
    have hrules : ((mappingArgs podIp m).map (Step.append name)).forM (Step.code ipt) =
        (mappingArgs podIp m).forM (ipt.ensureRule name) := rfl
    rw [hsteps, forM_append_bind, hrules, ← ih]
    rfl

theorem apply_eq (ipt : Iptables) (id : String) (podIp : Ipv4Addr) (ms : List PortMapping) :
    apply ipt id podIp ms = (applySteps id podIp ms).forM (Step.code ipt) := by
  unfold apply ensureTopChains
  simp only [bind_assoc, forM_ruleSteps]
  rfl

/-- The table after a step that succeeds. -/
def Step.perform : Step → Table → Option Table
  | .chain name, t =>
    if name ∈ t then some t else if name.length ≤ 28 then some (t.insert name []) else none
  | .append name args, t =>
    (t.readRule name args).map fun e => if e.1 ∈ e.2 then t else t.insert name (e.2 ++ [e.1])
  | .insert name args, t =>
    (t.readRule name args).map fun e => if e.1 ∈ e.2 then t else t.insert name (e.1 :: e.2)

variable {ipt : Iptables} {t t' : Table}

/-- A command that is followed by others. -/
theorem eval_run_bind {c : Command} {f : Output → IptablesProgram Unit} (t : Table) :
    eval answer (ipt.run c >>= f).run t = eval answer (f (t.answer c).1).run (t.answer c).2 :=
  eval_ok_bind (p := ipt.run c) rfl

theorem eval_ensureChain (name : String) (t : Table) :
    ∃ r, eval answer (ipt.ensureChain name).run t = (r, ((Step.chain name).perform t).getD t) ∧
      (r = .ok () ↔ ((Step.chain name).perform t).isSome) := by
  unfold Iptables.ensureChain
  rw [eval_run_bind]
  by_cases hmem : name ∈ t
  · have hexists : contains "iptables: Chain already exists." "exists" = true := by decide +kernel
    rw [Table.answer_newChain_of_mem hmem]
    simp only [Bool.false_eq_true, if_false, hexists, if_true, Step.perform, if_pos hmem]
    exact ⟨_, rfl, by simp⟩
  · by_cases hlen : name.length ≤ 28
    · rw [Table.answer_newChain hmem hlen]
      simp only [if_true, Step.perform, if_neg hmem, if_pos hlen]
      exact ⟨_, rfl, by simp⟩
    · have hanswer : t.answer (.newChain name) =
          (⟨false, "chain name too long (must be under 29 chars)"⟩, t) := by
        simp [Table.answer, Table.perform, Table.complaint, hmem, Nat.not_le.mp hlen]
      have hexists : contains "chain name too long (must be under 29 chars)" "exists" = false := by
        decide +kernel
      rw [hanswer]
      simp only [Bool.false_eq_true, if_false, hexists, Step.perform, if_neg hmem, if_neg hlen]
      exact ⟨_, rfl, by simp⟩

/-- What is checked for is added, unless it is there. -/
theorem eval_checked {name : String} {args : List String} {add : Command}
    {put : Rule → List Rule → List Rule} {e : Output → CniError}
    (hadd : ∀ r rs, t.readRule name args = some (r, rs) →
      t.answer add = (⟨true, ""⟩, t.insert name (put r rs)))
    (hnone : t.readRule name args = none → (t.answer add).1.success = false ∧
      (t.answer add).2 = t) :
    ∃ r, eval answer (checked ipt (.check name args) add e).run t =
        (r, ((t.readRule name args).map fun e =>
          if e.1 ∈ e.2 then t else t.insert name (put e.1 e.2)).getD t) ∧
      (r = .ok () ↔ (t.readRule name args).isSome) := by
  rw [checked, eval_run_bind]
  cases hread : t.readRule name args with
  | none =>
    have hcheck : t.answer (.check name args) = (⟨false, t.complaint (.check name args)⟩, t) := by
      simp [Table.answer, Table.perform, hread]
    obtain ⟨hfail, hsame⟩ := hnone hread
    simp only [hcheck, Bool.false_eq_true, if_false]
    rw [eval_run_bind, hfail, hsame]
    exact ⟨_, rfl, by simp⟩
  | some entry =>
    obtain ⟨r, rs⟩ := entry
    obtain ⟨hsuccess, hsame⟩ := Table.answer_check hread
    rw [hsuccess, hsame]
    by_cases hr : r ∈ rs
    · simp only [hr, decide_true, if_true, Option.map_some, Option.getD_some]
      exact ⟨.ok (), rfl, by simp⟩
    · simp only [hr, decide_false, Bool.false_eq_true, if_false, Option.map_some,
        Option.getD_some]
      rw [eval_run_bind, hadd r rs hread]
      exact ⟨.ok (), rfl, by simp⟩

theorem answer_unread {name : String} {args : List String} (h : t.readRule name args = none) :
    ((t.answer (.append name args)).1.success = false ∧ (t.answer (.append name args)).2 = t) ∧
    ((t.answer (.insert name args)).1.success = false ∧ (t.answer (.insert name args)).2 = t) := by
  simp [Table.answer, Table.perform, h]

/-- A step gives the table after it, or fails and changes nothing. -/
theorem eval_step (ipt : Iptables) (s : Step) (t : Table) :
    ∃ r, eval answer (s.code ipt).run t = (r, (s.perform t).getD t) ∧
      (r = .ok () ↔ (s.perform t).isSome) := by
  cases s with
  | chain name => exact eval_ensureChain name t
  | append name args =>
    have hadd : ∀ r rs, t.readRule name args = some (r, rs) →
        t.answer (.append name args) = (⟨true, ""⟩, t.insert name (rs ++ [r])) :=
      fun _ _ => Table.answer_append
    rw [Step.perform, Option.isSome_map]
    exact eval_checked hadd fun h => (answer_unread h).1
  | insert name args =>
    have hadd : ∀ r rs, t.readRule name args = some (r, rs) →
        t.answer (.insert name args) = (⟨true, ""⟩, t.insert name (r :: rs)) :=
      fun _ _ => Table.answer_insert
    rw [Step.perform, Option.isSome_map]
    exact eval_checked hadd fun h => (answer_unread h).2

def Step.Done : Step → Table → Prop
  | .chain name, t => name ∈ t
  | .append name args, t => ∃ r rs, t.readRule name args = some (r, rs) ∧ r ∈ rs
  | .insert name args, t => ∃ r rs, t.readRule name args = some (r, rs) ∧ r ∈ rs

/-- What a step that succeeds has changed. -/
inductive Step.Changed (t : Table) : Step → Table → Prop
  | nothing {s : Step} (hdone : s.Done t) : Changed t s t
  | chain {name : String} (hnew : name ∉ t) (hlen : name.length ≤ 28) :
      Changed t (.chain name) (t.insert name [])
  | append {name : String} {args : List String} {r : Rule}
      (hread : t.readRule name args = some (r, t.chain name)) (hnew : r ∉ t.chain name) :
      Changed t (.append name args) (t.insert name (t.chain name ++ [r]))
  | insert {name : String} {args : List String} {r : Rule}
      (hread : t.readRule name args = some (r, t.chain name)) (hnew : r ∉ t.chain name) :
      Changed t (.insert name args) (t.insert name (r :: t.chain name))

theorem Step.perform_changed {s : Step} (h : s.perform t = some t') : s.Changed t t' := by
  cases s with
  | chain name =>
    simp only [Step.perform] at h
    by_cases hmem : name ∈ t
    · rw [if_pos hmem] at h
      obtain rfl := Option.some.inj h
      exact .nothing hmem
    · rw [if_neg hmem] at h
      by_cases hlen : name.length ≤ 28
      · rw [if_pos hlen] at h
        obtain rfl := Option.some.inj h
        exact .chain hmem hlen
      · rw [if_neg hlen] at h
        cases h
  | append name args =>
    obtain ⟨⟨r, rs⟩, hread, rfl⟩ := Option.map_eq_some_iff.mp h
    obtain rfl := Table.chain_of_lookup (Table.readRule_eq_some hread).1
    by_cases hr : r ∈ t.chain name
    · simp only [if_pos hr]
      exact .nothing ⟨r, _, hread, hr⟩
    · simp only [if_neg hr]
      exact .append hread hr
  | insert name args =>
    obtain ⟨⟨r, rs⟩, hread, rfl⟩ := Option.map_eq_some_iff.mp h
    obtain rfl := Table.chain_of_lookup (Table.readRule_eq_some hread).1
    by_cases hr : r ∈ t.chain name
    · simp only [if_pos hr]
      exact .nothing ⟨r, _, hread, hr⟩
    · simp only [if_neg hr]
      exact .insert hread hr

/-- Chains and rules are only added. -/
structure Grows (t t' : Table) : Prop where
  names : ∀ name ∈ t, name ∈ t'
  rules : ∀ name, ∀ r ∈ t.chain name, r ∈ t'.chain name

theorem Grows.refl (t : Table) : Grows t t := ⟨fun _ h => h, fun _ _ h => h⟩

theorem Grows.trans {t'' : Table} (h : Grows t t') (h' : Grows t' t'') : Grows t t'' :=
  ⟨fun n hn => h'.names n (h.names n hn), fun n r hr => h'.rules n r (h.rules n r hr)⟩

theorem Grows.insert {name : String} {rs : List Rule} (h : ∀ r ∈ t.chain name, r ∈ rs) :
    Grows t (t.insert name rs) where
  names n hn := (AList.mem_insert _).mpr (.inr hn)
  rules n r hr := by
    rw [Table.chain_insert]
    by_cases he : n = name
    · subst he
      rw [if_pos rfl]
      exact h r hr
    · rwa [if_neg he]

theorem chain_of_not_mem {name : String} (h : name ∉ t) : t.chain name = [] := by
  rw [Table.chain, AList.lookup_eq_none.mpr h, Option.getD_none]

theorem Grows.readRule {name : String} {args : List String} {r : Rule} {rs : List Rule}
    (h : Grows t t') (hread : t.readRule name args = some (r, rs)) :
    ∃ rs', t'.readRule name args = some (r, rs') ∧ ∀ x ∈ rs, x ∈ rs' := by
  obtain ⟨hlookup, hparse, htarget⟩ := Table.readRule_eq_some hread
  have hmem : name ∈ t := AList.lookup_isSome.mp (by rw [hlookup]; rfl)
  have htarget' : t'.targetExists r.target = true := by
    cases ht : r.target with
    | jump chain =>
      rw [ht, targetExists_jump] at htarget
      exact targetExists_jump.mpr (h.names chain htarget)
    | _ => rfl
  refine ⟨t'.chain name, readRule_of_mem (h.names name hmem) hparse htarget', fun x hx => ?_⟩
  rw [← Table.chain_of_lookup hlookup] at hx
  exact h.rules name x hx

theorem Step.Done.grow {s : Step} (h : Grows t t') (hdone : s.Done t) : s.Done t' := by
  cases s with
  | chain name => exact h.names name hdone
  | append name args =>
    obtain ⟨r, rs, hread, hr⟩ := hdone
    obtain ⟨rs', hread', hsub⟩ := h.readRule hread
    exact ⟨r, rs', hread', hsub r hr⟩
  | insert name args =>
    obtain ⟨r, rs, hread, hr⟩ := hdone
    obtain ⟨rs', hread', hsub⟩ := h.readRule hread
    exact ⟨r, rs', hread', hsub r hr⟩

/-- A step that is done changes nothing. -/
theorem Step.Done.perform {s : Step} (hdone : s.Done t) : s.perform t = some t := by
  cases s with
  | chain name => exact if_pos hdone
  | append name args =>
    obtain ⟨r, rs, hread, hr⟩ := hdone
    simp [Step.perform, hread, hr]
  | insert name args =>
    obtain ⟨r, rs, hread, hr⟩ := hdone
    simp [Step.perform, hread, hr]

/-- A rule that was read can be read again when it is in the chain. -/
theorem readRule_insert {name : String} {args : List String} {r : Rule} {rs rs' : List Rule}
    (hread : t.readRule name args = some (r, rs)) (hsub : ∀ x ∈ rs, x ∈ rs') :
    Table.readRule (t.insert name rs') name args = some (r, rs') := by
  obtain ⟨hlookup, -, -⟩ := Table.readRule_eq_some hread
  have hgrows : Grows t (t.insert name rs') := by
    refine .insert fun x hx => hsub x ?_
    rwa [Table.chain_of_lookup hlookup] at hx
  obtain ⟨rs'', hread', -⟩ := hgrows.readRule hread
  have hsame := (Table.readRule_eq_some hread').1
  rw [AList.lookup_insert] at hsame
  obtain rfl := Option.some.inj hsame
  exact hread'

/-- What a step does is what it looks for. -/
theorem Step.perform_spec {s : Step} (h : s.perform t = some t') : Grows t t' ∧ s.Done t' := by
  cases Step.perform_changed h with
  | nothing hdone => exact ⟨.refl t, hdone⟩
  | chain hnew hlen =>
    refine ⟨.insert ?_, (AList.mem_insert _).mpr (.inl rfl)⟩
    rw [chain_of_not_mem hnew]
    exact fun r hr => hr
  | @append name args r hread hnew =>
    have hsub : ∀ x ∈ t.chain name, x ∈ t.chain name ++ [r] :=
      fun x hx => List.mem_append_left _ hx
    exact ⟨.insert hsub, r, _, readRule_insert hread hsub, by simp⟩
  | @insert name args r hread hnew =>
    have hsub : ∀ x ∈ t.chain name, x ∈ r :: t.chain name := fun x hx => List.mem_cons_of_mem _ hx
    exact ⟨.insert hsub, r, _, readRule_insert hread hsub, by simp⟩

/-- Of a command that is followed by others. -/
theorem cut_run_bind {c : Command} {f : Output → IptablesProgram Unit} (k : ℕ) (t : Table) :
    cut answer k (ipt.run c >>= f).run t = t ∨ ∃ j, cut answer k (ipt.run c >>= f).run t =
      cut answer j (f (t.answer c).1).run (t.answer c).2 := by
  cases k with
  | zero => exact .inl rfl
  | succ k => exact .inr ⟨k, rfl⟩

theorem cut_ret {α : Type} (k : ℕ) (a : α) (t : Table) :
    cut answer k (.ret a : TableProgram α) t = t := by
  cases k <;> rfl

theorem cut_checked {name : String} {args : List String} {add : Command}
    {e : Output → CniError} (k : ℕ) (t : Table) :
    cut answer k (checked ipt (.check name args) add e).run t = t ∨
      cut answer k (checked ipt (.check name args) add e).run t =
        (eval answer (checked ipt (.check name args) add e).run t).2 := by
  rw [checked, eval_run_bind]
  rcases cut_run_bind k t with hnone | ⟨j, hcut⟩
  · exact .inl hnone
  · rw [hcut, Table.answer_check_table]
    cases hcheck : (t.answer (.check name args)).1.success with
    | true => exact .inl (cut_ret j _ t)
    | false =>
      simp only [Bool.false_eq_true, if_false]
      rw [eval_run_bind]
      rcases cut_run_bind j t with hnone | ⟨i, hcut⟩
      · exact .inl hnone
      · rw [hcut]
        cases hadd : (t.answer add).1.success with
        | true => exact .inr (cut_ret i _ _)
        | false => exact .inr (cut_ret i _ _)

theorem cut_step (s : Step) (k : ℕ) (t : Table) : cut answer k (s.code ipt).run t = t ∨
    cut answer k (s.code ipt).run t = (eval answer (s.code ipt).run t).2 := by
  cases s with
  | chain name =>
    have hcode : Step.code ipt (.chain name) = ipt.ensureChain name := rfl
    rw [hcode, Iptables.ensureChain, eval_run_bind]
    rcases cut_run_bind k t with hnone | ⟨j, hcut⟩
    · exact .inl hnone
    · rw [hcut]
      refine .inr ?_
      cases hnew : (t.answer (.newChain name)).1.success with
      | true => exact cut_ret j _ _
      | false =>
        simp only [Bool.false_eq_true, if_false]
        cases hexists : contains (t.answer (.newChain name)).1.stderr "exists" with
        | true => exact cut_ret j _ _
        | false => exact cut_ret j _ _
  | append name args => exact cut_checked k t
  | insert name args => exact cut_checked k t

/-- Every step looks first whether it is done. -/
theorem checked_step (ipt : Iptables) (s : Step) :
    Checked answer (Step.code ipt) Step.Done Grows s where
  skip t hdone := by
    obtain ⟨r, heval, hok⟩ := eval_step ipt s t
    rw [hdone.perform, Option.getD_some] at heval
    rw [heval, hok.mpr (by rw [hdone.perform]; rfl)]
  does t t' h := by
    obtain ⟨r, heval, hok⟩ := eval_step ipt s t
    obtain ⟨rfl, rfl⟩ := Prod.mk.inj (h.symm.trans heval)
    obtain ⟨t', ht'⟩ := Option.isSome_iff_exists.mp (hok.mp rfl)
    rw [ht', Option.getD_some]
    exact (Step.perform_spec ht').2
  fails t e t' h := by
    obtain ⟨r, heval, hok⟩ := eval_step ipt s t
    obtain ⟨rfl, rfl⟩ := Prod.mk.inj (h.symm.trans heval)
    have hnone : s.perform t = none := by
      rw [← Option.not_isSome_iff_eq_none, ← hok]
      exact nofun
    rw [hnone, Option.getD_none]
  whole t k := cut_step s k t
  grow t := by
    obtain ⟨r, heval, -⟩ := eval_step ipt s t
    rw [heval]
    cases hperform : s.perform t with
    | none => exact .refl t
    | some t' => exact (Step.perform_spec hperform).1
  keeps t t' hgrows hdone := hdone.grow hgrows

end FlannelRs.PortmapSteps
