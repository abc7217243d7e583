import FlannelRs.InteractionPrograms
import FlannelRs.NatTables

/-!
# The masquerade rules of `flanneld`

Four rules at the end of `POSTROUTING`, of which the second and the fourth each need the one
before them in front of them. They are checked and appended one by one, while another
process may flush the chain at any time. The source is `ipmasq.rs`.
-/

namespace FlannelRs.Masquerade
open InteractionPrograms Ipv4Addresses RuleChains NatTables

def masqRules (n sn : String) : List (List String) :=
  [ -- pod -> pod: no masq
    ["-s", n, "-d", n, "-j", "RETURN"],
    -- pod -> external (non-multicast): masq
    ["-s", n, "!", "-d", "224.0.0.0/4", "-j", "MASQUERADE", "--random-fully"],
    -- !pod -> local pods: no masq
    ["!", "-s", n, "-d", sn, "-j", "RETURN"],
    -- !pod -> remote pods: masq
    ["!", "-s", n, "-d", n, "-j", "MASQUERADE", "--random-fully"]]

/-- Why the rules could not be ensured, which is only logged. -/
inductive Failure where
  | spawn (text : String)
  | append (rule : List String) (stderr : String)

/-- A command is run, or there is an error before. -/
abbrev CommandRes : Command → Type := fun _ => Except String Output

abbrev MasqProgram := ExceptT Failure (Program Command CommandRes)

def call (c : Command) : MasqProgram Output := do
  match ← liftM (Program.send c : Program Command CommandRes (Except String Output)) with
  | .ok out => return out
  | .error e => throw (.spawn e)

def ruleExists (rule : List String) : MasqProgram Bool := do
  return (← call (.check "POSTROUTING" rule)).success

def append (rule : List String) : MasqProgram Unit := do
  let out ← call (.append "POSTROUTING" rule)
  if out.success then return ()
  else throw (.append rule out.stderr)

def ensureRule (rule : List String) : MasqProgram Unit := do
  if ← ruleExists rule then return ()
  else
    match ← liftM (append rule).run with
    | .ok _ => return ()
    | .error e =>
      if "--random-fully" ∈ rule then
        let stripped := rule.filter (· ≠ "--random-fully")
        if ← ruleExists stripped then return ()
        else append stripped
      else throw e

def ensure (network subnet : String) : MasqProgram Unit :=
  (masqRules network subnet).forM ensureRule

def multicast : Ipv4Network := ⟨.ofOctets 224 0 0 0, 4, by omega⟩

def podToPod (net : Ipv4Network) : Rule :=
  ⟨none, some ⟨false, net⟩, some ⟨false, net⟩, none, false, none, .ret⟩

def podToExternal (net : Ipv4Network) (randomFully : Bool) : Rule :=
  ⟨none, some ⟨false, net⟩, some ⟨true, multicast⟩, none, false, none, .masquerade randomFully⟩

def toLocalPods (net subnet : Ipv4Network) : Rule :=
  ⟨none, some ⟨true, net⟩, some ⟨false, subnet⟩, none, false, none, .ret⟩

def toRemotePods (net : Ipv4Network) (randomFully : Bool) : Rule :=
  ⟨none, some ⟨true, net⟩, some ⟨false, net⟩, none, false, none, .masquerade randomFully⟩

/-- The rules that are appended, and what is left of them without `--random-fully`. -/
def flannelRules (net subnet : Ipv4Network) : List Rule :=
  [podToPod net, podToExternal net true, podToExternal net false, toLocalPods net subnet,
    toRemotePods net true, toRemotePods net false]

/-- The rule that has to come first. -/
def needs (net subnet : Ipv4Network) (r : Rule) : Option Rule :=
  match r.target with
  | .masquerade _ => if r.src = some ⟨false, net⟩ then podToPod net else toLocalPods net subnet
  | _ => none

def ours (net subnet : Ipv4Network) (t : Table) : List Rule :=
  (t.chain "POSTROUTING").filter (· ∈ flannelRules net subnet)

/-- First-match evaluation of these rules. -/
def verdict (net subnet : Ipv4Network) (t : Table) (p : Packet) : Option Verdict :=
  (walk rules t.chain 0 (ours net subnet t) p).2

/-- Whether a packet should be masqueraded. -/
def intended (net subnet : Ipv4Network) (p : Packet) : Bool :=
  (net.contains p.src && !net.contains p.dst && !multicast.contains p.dst) ||
    (!net.contains p.src && net.contains p.dst && !subnet.contains p.dst)

variable {net subnet : Ipv4Network} {t : Table} {p : Packet} {b : Bool}

theorem test_podToPod : (podToPod net).test p = (net.contains p.src && net.contains p.dst) := by
  simp [podToPod, Rule.test, AddressMatch.test]

theorem test_podToExternal :
    (podToExternal net b).test p = (net.contains p.src && !multicast.contains p.dst) := by
  simp [podToExternal, Rule.test, AddressMatch.test]

theorem test_toLocalPods :
    (toLocalPods net subnet).test p = (!net.contains p.src && subnet.contains p.dst) := by
  simp [toLocalPods, Rule.test, AddressMatch.test]

theorem test_toRemotePods :
    (toRemotePods net b).test p = (!net.contains p.src && net.contains p.dst) := by
  simp [toRemotePods, Rule.test, AddressMatch.test]

/-- Each of the rules ends the walk through the chain. -/
theorem ends_of_mem {r : Rule} (h : r ∈ flannelRules net subnet) :
    rules.action r = .ret ∨ ∃ v, rules.action r = .stop v := by
  simp only [flannelRules, List.mem_cons, List.not_mem_nil, or_false] at h
  rcases h with rfl | rfl | rfl | rfl | rfl | rfl
  · exact .inl rfl
  · exact .inr ⟨_, rfl⟩
  · exact .inr ⟨_, rfl⟩
  · exact .inl rfl
  · exact .inr ⟨_, rfl⟩
  · exact .inr ⟨_, rfl⟩

/-- With all rules there, each behind the one it needs, the verdicts are the intended ones. -/
theorem verdict_of_covered (hc : Covered (needs net subnet) (ours net subnet t))
    (hexternal : ∃ b, podToExternal net b ∈ ours net subnet t)
    (hremote : ∃ b, toRemotePods net b ∈ ours net subnet t) :
    verdict net subnet t p = if intended net subnet p then some .masquerade else none := by
  have hmem : ∀ r ∈ ours net subnet t, r ∈ flannelRules net subnet := by
    intro r hr
    simpa using (List.mem_filter.mp hr).2
  rw [verdict, walk, traverse_of_terminal fun r hr => ends_of_mem (hmem r hr)]
  cases hfind : (ours net subnet t).find? (rules.cond · p) with
  | none =>
    have hno := List.find?_eq_none.mp hfind
    obtain ⟨b, hb⟩ := hexternal
    obtain ⟨b', hb'⟩ := hremote
    have hb := hno _ hb
    have hb' := hno _ hb'
    simp only [test_podToExternal, test_toRemotePods] at hb hb'
    simp only [intended]
    grind
  | some r =>
    have hr := List.find?_some hfind
    have hneed : ∀ q ∈ needs net subnet r, q.test p = false :=
      fun q hq => hc.not_of_find? hfind hq
    have h := hmem r (List.mem_of_find?_eq_some hfind)
    simp only [flannelRules, List.mem_cons, List.not_mem_nil, or_false] at h
    simp only at hr
    have hexternal : ∀ b, r = podToExternal net b → intended net subnet p = true := by
      rintro b rfl
      have hq := hneed (podToPod net) (by simp [needs, podToExternal])
      rw [test_podToPod] at hq
      rw [test_podToExternal] at hr
      simp only [intended]
      grind
    have hremote : ∀ b, r = toRemotePods net b → intended net subnet p = true := by
      rintro b rfl
      have hq := hneed (toLocalPods net subnet) (by simp [needs, toRemotePods])
      rw [test_toLocalPods] at hq
      rw [test_toRemotePods] at hr
      simp only [intended]
      grind
    rcases h with rfl | rfl | rfl | rfl | rfl | rfl
    · rw [test_podToPod] at hr
      have hi : intended net subnet p = false := by simp only [intended]; grind
      rw [hi]
      rfl
    · rw [hexternal _ rfl]
      rfl
    · rw [hexternal _ rfl]
      rfl
    · rw [test_toLocalPods] at hr
      have hi : intended net subnet p = false := by simp only [intended]; grind
      rw [hi]
      rfl
    · rw [hremote _ rfl]
      rfl
    · rw [hremote _ rfl]
      rfl

/-- The nat table, and whether the chain was flushed since `ensure` was called. -/
structure State where
  table : Table
  flushed : Bool

/-- What other processes do: they change rules of their own, and flush the chain. -/
def Others (net subnet : Ipv4Network) (s s' : State) : Prop :=
  (ours net subnet s'.table = ours net subnet s.table ∧ s'.flushed = s.flushed) ∨
    (ours net subnet s'.table = [] ∧ s'.flushed = true)

/-- Any command may fail, and then it has no effect. -/
def Responds (t : Table) (c : Command) (r : Except String Output) (t' : Table) : Prop :=
  (t.perform c = some t' ∧ ∃ stderr, r = .ok ⟨true, stderr⟩) ∨
    (t' = t ∧ ∀ stderr, r ≠ .ok ⟨true, stderr⟩)

/-- One command, and whatever the others do before the next one. -/
def Answers (net subnet : Ipv4Network) (s : State) (c : Command) (r : CommandRes c)
    (s' : State) : Prop :=
  ∃ t, Responds s.table c r t ∧ Others net subnet ⟨t, s.flushed⟩ s'

/-- No rule is appended while the one that it needs is missing. -/
def Tolerated (net subnet : Ipv4Network) (s : State) : Command → Prop
  | .append _ args => ∀ r, parseRule args = some r → ∀ q ∈ needs net subnet r,
      q ∈ ours net subnet s.table
  | _ => True

def ToleratedAnswers (net subnet : Ipv4Network) (s : State) (c : Command) (r : CommandRes c)
    (s' : State) : Prop :=
  Answers net subnet s c r s' ∧ Tolerated net subnet s c

/-- The states after any number of calls of `ensure`. -/
inductive Reached (answers : Environment State Command CommandRes) (net subnet : Ipv4Network)
    (network subnetText : String) (t : Table) : State → Prop
  | start : Reached answers net subnet network subnetText t ⟨t, false⟩
  | others {s s' : State} (before : Reached answers net subnet network subnetText t s)
      (act : Others net subnet s s') : Reached answers net subnet network subnetText t s'
  | ensure {s s' : State} {r : Except Failure Unit}
      (before : Reached answers net subnet network subnetText t s)
      (exec : Exec answers ⟨s.table, false⟩ (ensure network subnetText).run r s') :
      Reached answers net subnet network subnetText t s'

/-- As long as there is no flush, no rule is lost. -/
def Grows (net subnet : Ipv4Network) (s s' : State) : Prop :=
  s'.flushed = false → s.flushed = false ∧
    ∀ r ∈ ours net subnet s.table, r ∈ ours net subnet s'.table

theorem Grows.refl (s : State) : Grows net subnet s s := fun h => ⟨h, fun _ hr => hr⟩

theorem Grows.trans {s s' s'' : State} (h : Grows net subnet s s') (h' : Grows net subnet s' s'') :
    Grows net subnet s s'' := by
  intro hf
  obtain ⟨hf', hsub'⟩ := h' hf
  obtain ⟨hf'', hsub⟩ := h hf'
  exact ⟨hf'', fun r hr => hsub' r (hsub r hr)⟩

variable {s s' : State}

theorem Others.grows (h : Others net subnet s s') : Grows net subnet s s' := by
  intro hf
  rcases h with ⟨hours, hflushed⟩ | ⟨-, hflushed⟩
  · exact ⟨by rw [← hflushed, hf], fun r hr => by rwa [hours]⟩
  · rw [hflushed] at hf
    cases hf

theorem Others.covered (h : Others net subnet s s')
    (hc : Covered (needs net subnet) (ours net subnet s.table)) :
    Covered (needs net subnet) (ours net subnet s'.table) := by
  rcases h with ⟨hours, -⟩ | ⟨hours, -⟩
  · rwa [hours]
  · rw [hours]
    exact .nil

/-- The rule of some arguments is in the chain. -/
def Present (net subnet : Ipv4Network) (args : List String) (s : State) : Prop :=
  ∃ r, parseRule args = some r ∧ r ∈ ours net subnet s.table

theorem Present.grows {args : List String} (h : Present net subnet args s)
    (hg : Grows net subnet s s') (hf : s'.flushed = false) : Present net subnet args s' := by
  obtain ⟨r, hr, hmem⟩ := h
  exact ⟨r, hr, (hg hf).2 r hmem⟩

/-- The arguments of one of the rules. -/
def OurArgs (net subnet : Ipv4Network) (args : List String) : Prop :=
  ∃ r ∈ flannelRules net subnet, parseRule args = some r

abbrev MasqWlp {α : Type} (net subnet : Ipv4Network) (post : Except Failure α → State → Prop)
    (prog : MasqProgram α) (s : State) : Prop :=
  wlp (ToleratedAnswers net subnet) post prog.run s

/-- The rules stay in order. -/
abbrev Keeps (net subnet : Ipv4Network) (s s' : State) : Prop :=
  Covered (needs net subnet) (ours net subnet s'.table) ∧ Grows net subnet s s'

theorem wlp_call {σ : Type} {answers : Environment σ Command CommandRes} {c : Command} {s : σ} :
    wlp answers (fun r s' => ∃ r', answers s c r' s' ∧ ∀ out, r = .ok out ↔ r' = .ok out)
      (call c).run s := by
  refine wlp.liftBind (m := fun (r : Except String Output) s' => answers s c r s')
    (fun r s' h => h) fun r s' h => ?_
  cases r with
  | ok out => exact ⟨_, h, fun out' => by simp⟩
  | error e => exact ⟨_, h, fun out => by simp⟩

/-- One command that has the rule of `args` there when it succeeds. -/
theorem wlp_call_present (args : List String) {c : Command}
    (hc : Covered (needs net subnet) (ours net subnet s.table))
    (hdone : ∀ t, s.table.perform c = some t → Tolerated net subnet s c →
      Keeps net subnet s ⟨t, s.flushed⟩ ∧ Present net subnet args ⟨t, s.flushed⟩) :
    MasqWlp net subnet (fun r s' => Keeps net subnet s s' ∧ ∀ out, r = .ok out →
      out.success = true → s'.flushed = false → Present net subnet args s') (call c) s := by
  refine wlp_call.mono ?_
  rintro r s' ⟨r', ⟨⟨t, hresponds, hothers⟩, htol⟩, hsame⟩
  rcases hresponds with ⟨hperform, -⟩ | ⟨rfl, hfailed⟩
  · obtain ⟨⟨hcovered, hgrows⟩, hpresent⟩ := hdone t hperform htol
    exact ⟨⟨hothers.covered hcovered, hgrows.trans hothers.grows⟩,
      fun out _ _ hf => hpresent.grows hothers.grows hf⟩
  · refine ⟨⟨hothers.covered hc, hothers.grows⟩, fun out hr hsuccess _ => ?_⟩
    obtain ⟨success, stderr⟩ := out
    exact absurd ((hsame _).mp hr) (by subst hsuccess; exact hfailed stderr)

theorem wlp_ruleExists {args : List String} (ha : OurArgs net subnet args)
    (hc : Covered (needs net subnet) (ours net subnet s.table)) :
    MasqWlp net subnet (fun r s' => Keeps net subnet s s' ∧
      (r = .ok true → s'.flushed = false → Present net subnet args s')) (ruleExists args) s := by
  refine wlp.exceptBind (wlp_call_present args hc fun t hperform _ => ?_) ?_ ?_
  · obtain ⟨rfl, q, hq, hmem⟩ := Table.perform_check hperform
    obtain ⟨q', hq', hparse⟩ := ha
    obtain rfl := Option.some.inj (hparse.symm.trans hq)
    exact ⟨⟨hc, .refl s⟩, q', hq, List.mem_filter.mpr ⟨hmem, by simpa using hq'⟩⟩
  · rintro out s' ⟨hkeeps, hpresent⟩
    exact ⟨hkeeps, fun hr hf => hpresent out rfl (Except.ok.inj hr) hf⟩
  · rintro e s' ⟨hkeeps, -⟩
    exact ⟨hkeeps, fun hr => by cases hr⟩

theorem wlp_append {args : List String} (ha : OurArgs net subnet args)
    (hc : Covered (needs net subnet) (ours net subnet s.table)) :
    MasqWlp net subnet (fun r s' => Keeps net subnet s s' ∧
      (r = .ok () → s'.flushed = false → Present net subnet args s')) (append args) s := by
  refine wlp.exceptBind (wlp_call_present args hc fun t hperform htol => ?_) ?_ ?_
  · obtain ⟨q, hq, rfl⟩ := Table.perform_append hperform
    obtain ⟨q', hq', hparse⟩ := ha
    obtain rfl := Option.some.inj (hparse.symm.trans hq)
    have hours : ours net subnet (s.table.insert "POSTROUTING"
        (s.table.chain "POSTROUTING" ++ [q'])) = ours net subnet s.table ++ [q'] := by
      rw [ours, Table.chain_insert, if_pos rfl, List.filter_append]
      simp [ours, hq']
    refine ⟨⟨?_, fun hf => ⟨hf, fun r hr => ?_⟩⟩, q', hq, ?_⟩
    · rw [hours]
      exact hc.concat (htol q' hq)
    · rw [hours]
      exact List.mem_append_left _ hr
    · rw [hours]
      exact List.mem_append_right _ (List.mem_singleton_self q')
  · rintro out s' ⟨hkeeps, hpresent⟩
    cases hout : out.success with
    | true =>
      simp only [if_true]
      exact ⟨hkeeps, fun _ hf => hpresent out rfl hout hf⟩
    | false => exact ⟨hkeeps, fun hr => by cases hr⟩
  · rintro e s' ⟨hkeeps, -⟩
    exact ⟨hkeeps, fun hr => by cases hr⟩

def stripped (args : List String) : List String := args.filter (· ≠ "--random-fully")

theorem wlp_ensureRule {args : List String} (ha : OurArgs net subnet args)
    (hs : OurArgs net subnet (stripped args))
    (hc : Covered (needs net subnet) (ours net subnet s.table)) :
    MasqWlp net subnet (fun r s' => Keeps net subnet s s' ∧ (r = .ok () → s'.flushed = false →
      Present net subnet args s' ∨ Present net subnet (stripped args) s')) (ensureRule args) s := by
  refine wlp.exceptBind (wlp_ruleExists ha hc) ?_ ?_
  · rintro found s₁ ⟨⟨hc₁, hg₁⟩, hfound⟩
    cases found with
    | true => exact ⟨⟨hc₁, hg₁⟩, fun _ hf => .inl (hfound rfl hf)⟩
    | false =>
      refine (wlp_append ha hc₁).liftBind ?_
      rintro r s₂ ⟨⟨hc₂, hg₂⟩, happended⟩
      cases r with
      | ok a => exact ⟨⟨hc₂, hg₁.trans hg₂⟩, fun _ hf => .inl (happended rfl hf)⟩
      | error e =>
        by_cases hrandom : "--random-fully" ∈ args
        · simp only [if_pos hrandom]
          refine wlp.exceptBind (wlp_ruleExists hs hc₂) ?_ ?_
          · rintro found s₃ ⟨⟨hc₃, hg₃⟩, hfound'⟩
            cases found with
            | true =>
              exact ⟨⟨hc₃, (hg₁.trans hg₂).trans hg₃⟩, fun _ hf => .inr (hfound' rfl hf)⟩
            | false =>
              refine (wlp_append hs hc₃).mono ?_
              rintro r s₄ ⟨⟨hc₄, hg₄⟩, happended'⟩
              exact ⟨⟨hc₄, ((hg₁.trans hg₂).trans hg₃).trans hg₄⟩,
                fun hr hf => .inr (happended' hr hf)⟩
          · rintro e s₃ ⟨⟨hc₃, hg₃⟩, -⟩
            exact ⟨⟨hc₃, (hg₁.trans hg₂).trans hg₃⟩, fun hr => by cases hr⟩
        · simp only [if_neg hrandom]
          exact ⟨⟨hc₂, hg₁.trans hg₂⟩, fun hr => by cases hr⟩
  · rintro e s₁ ⟨hkeeps, -⟩
    exact ⟨hkeeps, fun hr => by cases hr⟩

theorem wlp_forM_ensureRule {argss : List (List String)}
    (ha : ∀ args ∈ argss, OurArgs net subnet args ∧ OurArgs net subnet (stripped args))
    (hc : Covered (needs net subnet) (ours net subnet s.table)) :
    MasqWlp net subnet (fun r s' => Keeps net subnet s s' ∧ (r = .ok () → s'.flushed = false →
      ∀ args ∈ argss, Present net subnet args s' ∨ Present net subnet (stripped args) s'))
      (argss.forM ensureRule) s := by
  induction argss generalizing s with
  | nil => exact ⟨⟨hc, .refl s⟩, fun _ _ args h => by cases h⟩
  | cons args argss ih =>
    obtain ⟨hfirst, hrest⟩ := List.forall_mem_cons.mp ha
    refine wlp.exceptBind (wlp_ensureRule hfirst.1 hfirst.2 hc) ?_ ?_
    · rintro u s₁ ⟨⟨hc₁, hg₁⟩, hpresent⟩
      refine (ih hrest hc₁).mono ?_
      rintro r s₂ ⟨⟨hc₂, hg₂⟩, hall⟩
      refine ⟨⟨hc₂, hg₁.trans hg₂⟩, fun hr hf => List.forall_mem_cons.mpr ⟨?_, hall hr hf⟩⟩
      rcases hpresent rfl (hg₂ hf).1 with h | h
      · exact .inl (h.grows hg₂ hf)
      · exact .inr (h.grows hg₂ hf)
    · rintro e s₁ ⟨hkeeps, -⟩
      exact ⟨hkeeps, fun hr => by cases hr⟩

section

variable {P : Command → Prop} {args : List String}

theorem uses_call {c : Command} (h : P c) : (call c).run.Uses P := by
  refine Program.Uses.exceptBind (Program.Uses.lift (.send h)) fun r => ?_
  cases r with
  | ok out => trivial
  | error e => trivial

theorem uses_ruleExists (h : P (.check "POSTROUTING" args)) : (ruleExists args).run.Uses P :=
  Program.Uses.exceptBind (uses_call h) fun _ => trivial

theorem uses_append (h : P (.append "POSTROUTING" args)) : (append args).run.Uses P := by
  refine Program.Uses.exceptBind (uses_call h) fun out => ?_
  cases out.success with
  | true => trivial
  | false => trivial

/-- A rule is looked for and appended, as it is or stripped. -/
theorem uses_ensureRule (hcheck : ∀ args, P (.check "POSTROUTING" args))
    (h : P (.append "POSTROUTING" args)) (hs : P (.append "POSTROUTING" (stripped args))) :
    (ensureRule args).run.Uses P := by
  refine Program.Uses.exceptBind (uses_ruleExists (hcheck args)) fun found => ?_
  cases found with
  | true => trivial
  | false =>
    refine Program.Uses.exceptBind (Program.Uses.lift (uses_append h)) fun r => ?_
    cases r with
    | ok u => trivial
    | error e =>
      by_cases hrandom : "--random-fully" ∈ args
      · simp only [if_pos hrandom]
        refine Program.Uses.exceptBind (uses_ruleExists (hcheck _)) fun found => ?_
        cases found with
        | true => trivial
        | false => exact uses_append hs
      · simp only [if_neg hrandom]
        trivial

theorem uses_ensure {network subnetText : String}
    (hcheck : ∀ args, P (.check "POSTROUTING" args))
    (h : ∀ args ∈ masqRules network subnetText,
      P (.append "POSTROUTING" args) ∧ P (.append "POSTROUTING" (stripped args))) :
    (ensure network subnetText).run.Uses P := by
  unfold ensure
  generalize masqRules network subnetText = argss at h ⊢
  induction argss with
  | nil => trivial
  | cons args argss ih =>
    obtain ⟨hfirst, hrest⟩ := List.forall_mem_cons.mp h
    exact Program.Uses.exceptBind (uses_ensureRule hcheck hfirst.1 hfirst.2) fun _ => ih hrest

end

variable {network subnetText : String}

theorem parseAddress_multicast : parseAddress "224.0.0.0/4" = some multicast := by
  decide +kernel

theorem ne_random_of_parseAddress {text : String} {n : Ipv4Network} (h : parseAddress text = some n) :
    text ≠ "--random-fully" := by
  rintro rfl
  have hnone : parseAddress "--random-fully" = none := by decide +kernel
  rw [hnone] at h
  cases h

theorem parse_podToPod (hn : parseAddress network = some net) :
    parseRule ["-s", network, "-d", network, "-j", "RETURN"] = some (podToPod net) := by
  simp [parseRule, parseOptions, parseTarget, hn, podToPod]

theorem parse_podToExternal (hn : parseAddress network = some net) :
    parseRule ["-s", network, "!", "-d", "224.0.0.0/4", "-j", "MASQUERADE", "--random-fully"] =
      some (podToExternal net true) ∧
    parseRule ["-s", network, "!", "-d", "224.0.0.0/4", "-j", "MASQUERADE"] =
      some (podToExternal net false) := by
  constructor <;>
    simp [parseRule, parseOptions, parseTarget, hn, parseAddress_multicast, podToExternal]

theorem parse_toLocalPods (hn : parseAddress network = some net)
    (hsn : parseAddress subnetText = some subnet) :
    parseRule ["!", "-s", network, "-d", subnetText, "-j", "RETURN"] =
      some (toLocalPods net subnet) := by
  simp [parseRule, parseOptions, parseTarget, hn, hsn, toLocalPods]

theorem parse_toRemotePods (hn : parseAddress network = some net) :
    parseRule ["!", "-s", network, "-d", network, "-j", "MASQUERADE", "--random-fully"] =
      some (toRemotePods net true) ∧
    parseRule ["!", "-s", network, "-d", network, "-j", "MASQUERADE"] =
      some (toRemotePods net false) := by
  constructor <;> simp [parseRule, parseOptions, parseTarget, hn, toRemotePods]

theorem ourArgs_masqRules (hn : parseAddress network = some net)
    (hsn : parseAddress subnetText = some subnet) :
    ∀ args ∈ masqRules network subnetText,
      OurArgs net subnet args ∧ OurArgs net subnet (stripped args) := by
  have hnr := ne_random_of_parseAddress hn
  have hsnr := ne_random_of_parseAddress hsn
  simp only [masqRules, List.forall_mem_cons, stripped]
  refine ⟨?_, ?_, ?_, ?_, by simp⟩
  · refine ⟨⟨_, ?_, parse_podToPod hn⟩, ⟨podToPod net, ?_, ?_⟩⟩
    · simp [flannelRules]
    · simp [flannelRules]
    · simpa [hnr] using parse_podToPod hn
  · refine ⟨⟨_, ?_, (parse_podToExternal hn).1⟩, ⟨podToExternal net false, ?_, ?_⟩⟩
    · simp [flannelRules]
    · simp [flannelRules]
    · simpa [hnr] using (parse_podToExternal hn).2
  · refine ⟨⟨_, ?_, parse_toLocalPods hn hsn⟩, ⟨toLocalPods net subnet, ?_, ?_⟩⟩
    · simp [flannelRules]
    · simp [flannelRules]
    · simpa [hnr, hsnr] using parse_toLocalPods hn hsn
  · refine ⟨⟨_, ?_, (parse_toRemotePods hn).1⟩, ⟨toRemotePods net false, ?_, ?_⟩⟩
    · simp [flannelRules]
    · simp [flannelRules]
    · simpa [hnr] using (parse_toRemotePods hn).2

theorem wlp_ensure (hn : parseAddress network = some net)
    (hsn : parseAddress subnetText = some subnet)
    (hc : Covered (needs net subnet) (ours net subnet s.table)) :
    MasqWlp net subnet (fun r s' => Covered (needs net subnet) (ours net subnet s'.table) ∧
      (r = .ok () → s'.flushed = false → (∃ b, podToExternal net b ∈ ours net subnet s'.table) ∧
        ∃ b, toRemotePods net b ∈ ours net subnet s'.table))
      (ensure network subnetText) s := by
  have hnr := ne_random_of_parseAddress hn
  refine (wlp_forM_ensureRule (ourArgs_masqRules hn hsn) hc).mono ?_
  rintro r s' ⟨⟨hc', -⟩, hall⟩
  refine ⟨hc', fun hr hf => ⟨?_, ?_⟩⟩
  · have hmem : ["-s", network, "!", "-d", "224.0.0.0/4", "-j", "MASQUERADE", "--random-fully"] ∈
        masqRules network subnetText := by
      simp [masqRules]
    rcases hall hr hf _ hmem with ⟨q, hq, hours⟩ | ⟨q, hq, hours⟩
    · rw [(parse_podToExternal hn).1] at hq
      exact ⟨true, Option.some.inj hq ▸ hours⟩
    · simp only [stripped] at hq
      have hq' : parseRule ["-s", network, "!", "-d", "224.0.0.0/4", "-j", "MASQUERADE"] = some q := by
        simpa [hnr] using hq
      rw [(parse_podToExternal hn).2] at hq'
      exact ⟨false, Option.some.inj hq' ▸ hours⟩
  · have hmem : ["!", "-s", network, "-d", network, "-j", "MASQUERADE", "--random-fully"] ∈
        masqRules network subnetText := by
      simp [masqRules]
    rcases hall hr hf _ hmem with ⟨q, hq, hours⟩ | ⟨q, hq, hours⟩
    · rw [(parse_toRemotePods hn).1] at hq
      exact ⟨true, Option.some.inj hq ▸ hours⟩
    · simp only [stripped] at hq
      have hq' : parseRule ["!", "-s", network, "-d", network, "-j", "MASQUERADE"] = some q := by
        simpa [hnr] using hq
      rw [(parse_toRemotePods hn).2] at hq'
      exact ⟨false, Option.some.inj hq' ▸ hours⟩

theorem Reached.covered (hn : parseAddress network = some net)
    (hsn : parseAddress subnetText = some subnet) (ht : ours net subnet t = [])
    (h : Reached (ToleratedAnswers net subnet) net subnet network subnetText t s) :
    Covered (needs net subnet) (ours net subnet s.table) := by
  induction h with
  | start =>
    rw [ht]
    exact .nil
  | others before act ih => exact act.covered ih
  | ensure before exec ih => exact (exec.wlp (wlp_ensure hn hsn ih)).1

/-- In every run in which no rule is appended while the one that it needs is missing, a call
of `ensure` that succeeds and is not disturbed by a flush leaves the intended verdicts. -/
theorem verdict_after_ensure (hn : parseAddress network = some net)
    (hsn : parseAddress subnetText = some subnet) (ht : ours net subnet t = [])
    (h : Reached (ToleratedAnswers net subnet) net subnet network subnetText t s)
    (hexec : Exec (ToleratedAnswers net subnet) ⟨s.table, false⟩ (ensure network subnetText).run
      (.ok ()) s') (hflush : s'.flushed = false) (p : Packet) :
    verdict net subnet s'.table p = if intended net subnet p then some .masquerade else none := by
  have hcovered := h.covered hn hsn ht
  obtain ⟨hc, hall⟩ := hexec.wlp (wlp_ensure hn hsn hcovered)
  obtain ⟨hexternal, hremote⟩ := hall rfl hflush
  exact verdict_of_covered hc hexternal hremote

/-- A table that performs the commands, and a process that flushes the chain after some. -/
def respond (flushes : Command → Bool) (c : Command) (s : State) : CommandRes c × State :=
  let out := s.table.answer c
  (.ok out.1, if flushes c then ⟨out.2.insert "POSTROUTING" [], true⟩ else ⟨out.2, s.flushed⟩)

theorem respond_answers (net subnet : Ipv4Network) (flushes : Command → Bool) (c : Command)
    (s : State) : Answers net subnet s c (respond flushes c s).1 (respond flushes c s).2 := by
  refine ⟨(s.table.answer c).2, ?_, ?_⟩
  · unfold respond Table.answer
    cases h : s.table.perform c with
    | some t => exact .inl ⟨h, _, rfl⟩
    | none => exact .inr ⟨rfl, fun stderr hr => by cases hr⟩
  · unfold respond
    cases flushes c with
    | true =>
      refine .inr ⟨?_, rfl⟩
      have hempty : Table.chain ((s.table.answer c).2.insert "POSTROUTING" []) "POSTROUTING" = [] := by
        rw [Table.chain_insert, if_pos rfl]
      exact congrArg (List.filter _) hempty
    | false => exact .inl ⟨rfl, rfl⟩

instance (net subnet : Ipv4Network) (s : State) (c : Command) :
    Decidable (Tolerated net subnet s c) :=
  match c with
  | .append _ args => decidable_of_iff (∀ r ∈ parseRule args, ∀ q ∈ needs net subnet r,
      q ∈ ours net subnet s.table) Iff.rfl
  | .newChain _ => .isTrue trivial
  | .check _ _ => .isTrue trivial
  | .insert _ _ => .isTrue trivial
  | .delete _ _ => .isTrue trivial
  | .flush _ => .isTrue trivial
  | .deleteChain _ => .isTrue trivial

def clusterNet : Ipv4Network := ⟨.ofOctets 10 244 0 0, 16, by omega⟩

def nodeSubnet : Ipv4Network := ⟨.ofOctets 10 244 1 0, 24, by omega⟩

theorem parse_clusterNet : parseAddress "10.244.0.0/16" = some clusterNet := by decide +kernel

theorem parse_nodeSubnet : parseAddress "10.244.1.0/24" = some nodeSubnet := by decide +kernel

/-- The built-in chains, without rules. -/
def emptyTable : Table :=
  ⟨[⟨"PREROUTING", []⟩, ⟨"INPUT", []⟩, ⟨"OUTPUT", []⟩, ⟨"POSTROUTING", []⟩],
    by simp [List.NodupKeys, List.keys]⟩

/-- Flushes the chain when the second of the rules has been appended. -/
def flushesSecond : Command → Bool
  | .append _ args =>
    args = ["-s", "10.244.0.0/16", "!", "-d", "224.0.0.0/4", "-j", "MASQUERADE", "--random-fully"]
  | _ => false

/-- A call in which every append is tolerated. -/
def toleratedRun (flushes : Command → Bool) (s : State) : Option (Except Failure Unit × State) :=
  (ensure "10.244.0.0/16" "10.244.1.0/24").run.run (fun c s =>
    if Tolerated clusterNet nodeSubnet s c then some (respond flushes c s) else none) s

theorem exec_of_toleratedRun {flushes : Command → Bool} {s s' : State} {r : Except Failure Unit}
    (h : toleratedRun flushes s = some (r, s')) : Exec (ToleratedAnswers clusterNet nodeSubnet) s
      (ensure "10.244.0.0/16" "10.244.1.0/24").run r s' := by
  refine Program.exec_of_run (fun c s r s₁ hr => ?_) h
  obtain ⟨htol, hr⟩ := Option.ite_none_right_eq_some.mp hr
  obtain rfl := (congrArg Prod.fst (Option.some.inj hr)).symm
  obtain rfl := (congrArg Prod.snd (Option.some.inj hr)).symm
  exact ⟨respond_answers _ _ _ c s, htol⟩

/-- After a flush in the first call the rules stand in another order, and the next call, which
nothing disturbs, leaves the intended verdicts. -/
theorem verdict_after_ensure_flushed : ∃ s s',
    Reached (ToleratedAnswers clusterNet nodeSubnet) clusterNet nodeSubnet "10.244.0.0/16"
      "10.244.1.0/24" emptyTable s ∧ s.flushed = true ∧
    Exec (ToleratedAnswers clusterNet nodeSubnet) ⟨s.table, false⟩
      (ensure "10.244.0.0/16" "10.244.1.0/24").run (.ok ()) s' ∧
    ours clusterNet nodeSubnet s'.table = [toLocalPods clusterNet nodeSubnet,
      toRemotePods clusterNet true, podToPod clusterNet, podToExternal clusterNet true] ∧
    ∀ p, verdict clusterNet nodeSubnet s'.table p =
      if intended clusterNet nodeSubnet p then some .masquerade else none := by
  have h : (toleratedRun flushesSecond ⟨emptyTable, false⟩).bind (fun r =>
      (toleratedRun (fun _ => false) ⟨r.2.table, false⟩).map fun r' =>
        decide (r.2.flushed = true ∧ r'.1.isOk = true ∧ r'.2.flushed = false ∧
          ours clusterNet nodeSubnet r'.2.table = [toLocalPods clusterNet nodeSubnet,
            toRemotePods clusterNet true, podToPod clusterNet, podToExternal clusterNet true])) =
      some true := by
    decide +kernel
  obtain ⟨⟨r, s⟩, hrun, h⟩ := Option.bind_eq_some_iff.mp h
  obtain ⟨⟨r', s'⟩, hrun', he⟩ := Option.map_eq_some_iff.mp h
  obtain ⟨hflushed, hok, hundisturbed, hours⟩ := of_decide_eq_true he
  have hreached : Reached (ToleratedAnswers clusterNet nodeSubnet) clusterNet nodeSubnet
      "10.244.0.0/16" "10.244.1.0/24" emptyTable s := .ensure .start (exec_of_toleratedRun hrun)
  have hexec := exec_of_toleratedRun hrun'
  cases r' with
  | error e => cases hok
  | ok u =>
    exact ⟨s, s', hreached, hflushed, hexec, hours, verdict_after_ensure parse_clusterNet
      parse_nodeSubnet rfl hreached hexec hundisturbed⟩

/-- Flushes the chain when the first of the rules has been appended. -/
def flushesFirst : Command → Bool
  | .append _ args => args = ["-s", "10.244.0.0/16", "-d", "10.244.0.0/16", "-j", "RETURN"]
  | _ => false

def podPacket : Packet :=
  ⟨.tcp, .ofOctets 10 244 1 5, .ofOctets 10 244 2 5, 80, false, 0⟩

/-- After a flush between the first two rules, they stand the wrong way round, and the next
call, which nothing disturbs, leaves them so. -/
theorem flush_inverts_rules : ∃ t s s' p, ours clusterNet nodeSubnet t = [] ∧
    Reached (Answers clusterNet nodeSubnet) clusterNet nodeSubnet "10.244.0.0/16" "10.244.1.0/24"
      t s ∧
    Exec (Answers clusterNet nodeSubnet) ⟨s.table, false⟩
      (ensure "10.244.0.0/16" "10.244.1.0/24").run (.ok ()) s' ∧
    s'.flushed = false ∧
    verdict clusterNet nodeSubnet s'.table p ≠
      if intended clusterNet nodeSubnet p then some .masquerade else none := by
  have h : ((ensure "10.244.0.0/16" "10.244.1.0/24").run.run
      (fun c s => some (respond flushesFirst c s)) ⟨emptyTable, false⟩).bind (fun r =>
        ((ensure "10.244.0.0/16" "10.244.1.0/24").run.run
          (fun c s => some (respond (fun _ => false) c s)) ⟨r.2.table, false⟩).map fun r' =>
          ((r'.1.isOk, r'.2.flushed), verdict clusterNet nodeSubnet r'.2.table podPacket)) =
      some ((true, false), some .masquerade) := by
    decide +kernel
  have hexec : ∀ flushes {s s' r}, (ensure "10.244.0.0/16" "10.244.1.0/24").run.run
      (fun c s => some (respond flushes c s)) s = some (r, s') →
      Exec (Answers clusterNet nodeSubnet) s (ensure "10.244.0.0/16" "10.244.1.0/24").run r s' := by
    intro flushes s s' r hrun
    refine Program.exec_of_run (fun c s r s₁ hr => ?_) hrun
    obtain rfl := (congrArg Prod.fst (Option.some.inj hr)).symm
    obtain rfl := (congrArg Prod.snd (Option.some.inj hr)).symm
    exact respond_answers _ _ _ c s
  obtain ⟨⟨r, s⟩, hrun, h⟩ := Option.bind_eq_some_iff.mp h
  obtain ⟨⟨r', s'⟩, hrun', he⟩ := Option.map_eq_some_iff.mp h
  obtain ⟨hends, hverdict⟩ := Prod.mk.inj he
  obtain ⟨hok, hflushed⟩ := Prod.mk.inj hends
  have hi : intended clusterNet nodeSubnet podPacket = false := by decide +kernel
  cases r' with
  | error e => cases hok
  | ok u =>
    refine ⟨emptyTable, s, s', podPacket, rfl, .ensure .start (hexec _ hrun), hexec _ hrun', hflushed, ?_⟩
    rw [hi]
    intro hnone
    cases hverdict.symm.trans hnone

end FlannelRs.Masquerade
