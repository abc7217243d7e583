import FlannelRs.Masquerade

/-!
# The masquerade rules after a restart with another subnet

The rules of the first lease stay in the chain, and what the second lease needs besides
them is appended behind.
-/

namespace FlannelRs.MasqueradeRestart
open InteractionPrograms Ipv4Addresses RuleChains NatTables Masquerade

/-- The addresses of one network all belong to the other. -/
def Within (sub net : Ipv4Network) : Prop := ∀ a, sub.contains a = true → net.contains a = true

theorem masked_masked (n : Ipv4Network) : masked (masked n) = masked n := by
  have hip : (masked n).network = n.network := by
    apply Ipv4Addr.ext_toNat
    calc (masked n).network.toNat = n.ip.toNat / n.size * n.size / n.size * n.size := rfl
      _ = n.ip.toNat / n.size * n.size := by rw [Nat.mul_div_cancel _ n.size_pos]
      _ = n.network.toNat := rfl
  rw [masked, hip]
  rfl

/-- Host bits are dropped when a network is read. -/
theorem masked_of_parseAddress {text : String} {n : Ipv4Network}
    (h : parseAddress text = some n) : masked n = n := by
  unfold parseAddress at h
  split at h
  · obtain ⟨ip, -, rfl⟩ := Option.map_eq_some_iff.mp h
    exact masked_host ip
  · simp only [Option.bind_eq_bind, Option.bind_eq_some_iff] at h
    obtain ⟨ip, -, len, -, h⟩ := h
    by_cases hlen : len ≤ 32
    · rw [dif_pos hlen] at h
      obtain rfl := Option.some.inj h
      exact masked_masked _
    · rw [dif_neg hlen] at h
      cases h
  · cases h

/-- Different networks differ in some address. -/
theorem exists_contains_ne {n m : Ipv4Network} (hn : masked n = n) (hm : masked m = m)
    (hne : n ≠ m) : ∃ a, n.contains a ≠ m.contains a := by
  by_contra hall
  have hsame : ∀ a, n.contains a = m.contains a := by
    intro a
    by_contra ha
    exact hall ⟨a, ha⟩
  have h₁ := Ipv4Network.network_le_of_contains ((hsame n.network).symm.trans n.contains_network)
  have h₂ := Ipv4Network.network_le_of_contains ((hsame m.network).trans m.contains_network)
  have h₃ := Ipv4Network.network_le_of_contains ((hsame n.broadcast).symm.trans n.contains_broadcast)
  have h₄ := Ipv4Network.network_le_of_contains ((hsame m.broadcast).trans m.contains_broadcast)
  have hnet : n.network = m.network := Ipv4Addr.ext_toNat (by omega)
  have hsize : n.size = m.size := by
    have hbn : n.broadcast.toNat = n.network.toNat + (n.size - 1) := rfl
    have hbm : m.broadcast.toNat = m.network.toNat + (m.size - 1) := rfl
    have hn := n.size_pos
    have hm := m.size_pos
    omega
  have hlen : n.len = m.len := by
    have hpow := Nat.pow_right_injective le_rfl hsize
    have hln := n.len_le
    have hlm := m.len_le
    omega
  apply hne
  rw [← hn, ← hm, masked, masked, hnet]
  obtain ⟨ip, len, hle⟩ := n
  obtain ⟨ip', len', hle'⟩ := m
  obtain rfl : len = len' := hlen
  rfl

def leaseRules (net sn₁ sn₂ : Ipv4Network) : List Rule :=
  flannelRules net sn₁ ++ flannelRules net sn₂

/-- What the chain holds of the rules of either lease. -/
def leased (net sn₁ sn₂ : Ipv4Network) (t : Table) : List Rule :=
  (t.chain "POSTROUTING").filter (· ∈ leaseRules net sn₁ sn₂)

/-- First-match evaluation of these rules. -/
def leasedVerdict (net sn₁ sn₂ : Ipv4Network) (t : Table) (p : Packet) : Option Verdict :=
  (walk rules t.chain 0 (leased net sn₁ sn₂ t) p).2

/-- Nobody else touches the rules of the two leases, but any command may fail. -/
def Undisturbed (net sn₁ sn₂ : Ipv4Network) (s : State) (c : Command) (r : CommandRes c)
    (s' : State) : Prop :=
  ∃ t, Responds s.table c r t ∧ leased net sn₁ sn₂ s'.table = leased net sn₁ sn₂ t ∧
    s'.flushed = s.flushed

/-- Only such rules are appended, and otherwise it is only checked whether a rule is there. -/
def Appends (A : List String → Prop) : Command → Prop
  | .check _ _ => True
  | .append chain args => chain = "POSTROUTING" ∧ A args
  | _ => False

variable {net sn sn₁ sn₂ : Ipv4Network} {s s' : State}

/-- Some rules of one lease more. -/
def Extends (net sn₁ sn₂ sn : Ipv4Network) (s s' : State) : Prop :=
  ∃ ext, leased net sn₁ sn₂ s'.table = leased net sn₁ sn₂ s.table ++ ext ∧
    ∀ r ∈ ext, r ∈ flannelRules net sn

theorem Extends.refl (s : State) : Extends net sn₁ sn₂ sn s s :=
  ⟨[], (List.append_nil _).symm, fun r hr => by cases hr⟩

theorem Extends.trans {s'' : State} (h : Extends net sn₁ sn₂ sn s s')
    (h' : Extends net sn₁ sn₂ sn s' s'') : Extends net sn₁ sn₂ sn s s'' := by
  obtain ⟨ext, heq, hext⟩ := h
  obtain ⟨ext', heq', hext'⟩ := h'
  refine ⟨ext ++ ext', by rw [heq', heq, List.append_assoc], fun r hr => ?_⟩
  exact (List.mem_append.mp hr).elim (hext r) (hext' r)

theorem Undisturbed.extends {c : Command} {r : CommandRes c}
    (hsub : ∀ r ∈ flannelRules net sn, r ∈ leaseRules net sn₁ sn₂)
    (hc : Appends (OurArgs net sn) c) (h : Undisturbed net sn₁ sn₂ s c r s') :
    Extends net sn₁ sn₂ sn s s' := by
  obtain ⟨t, hresponds, hsame, -⟩ := h
  rcases hresponds with ⟨hperform, -⟩ | ⟨rfl, -⟩
  · cases c with
    | check chain args =>
      obtain ⟨rfl, -⟩ := Table.perform_check hperform
      exact ⟨[], by rw [hsame, List.append_nil], fun r hr => by cases hr⟩
    | append chain args =>
      obtain ⟨rfl, q, hq, hparse⟩ := hc
      obtain ⟨q', hparse', rfl⟩ := Table.perform_append hperform
      obtain rfl := Option.some.inj (hparse.symm.trans hparse')
      refine ⟨[q], ?_, fun r hr => by rwa [List.mem_singleton.mp hr]⟩
      rw [hsame, leased, leased, Table.chain_insert, if_pos rfl, List.filter_append]
      simp [hsub q hq]
    | newChain chain => exact hc.elim
    | insert chain args => exact hc.elim
    | delete chain args => exact hc.elim
    | flush chain => exact hc.elim
    | deleteChain chain => exact hc.elim
  · exact ⟨[], by rw [hsame, List.append_nil], fun r hr => by cases hr⟩

/-- Whatever is answered, the rules are only appended to. -/
theorem wlp_ensure_extends {network subnetText : String}
    (hsub : ∀ r ∈ flannelRules net sn, r ∈ leaseRules net sn₁ sn₂)
    (hn : parseAddress network = some net) (hsn : parseAddress subnetText = some sn) :
    wlp (Undisturbed net sn₁ sn₂) (fun _ s' => Extends net sn₁ sn₂ sn s s')
      (ensure network subnetText).run s :=
  Program.Uses.wlp (R := Extends net sn₁ sn₂ sn) Extends.refl (fun _ _ _ => Extends.trans)
    (fun _ _ _ _ hc h => h.extends hsub hc)
    (uses_ensure (fun _ => trivial) fun args hargs => ⟨⟨rfl, (ourArgs_masqRules hn hsn args hargs).1⟩,
      rfl, (ourArgs_masqRules hn hsn args hargs).2⟩) s

theorem ours_eq_filter (net sn₁ sn₂ : Ipv4Network) (t : Table) :
    ours net sn₁ t = (leased net sn₁ sn₂ t).filter (· ∈ flannelRules net sn₁) := by
  rw [leased, List.filter_filter, ours]
  refine List.filter_congr fun r _ => ?_
  simp only [leaseRules, List.mem_append, Bool.decide_or]
  cases decide (r ∈ flannelRules net sn₁) <;> rfl

theorem Undisturbed.answers {c : Command} {r : CommandRes c}
    (h : Undisturbed net sn₁ sn₂ s c r s') : Answers net sn₁ s c r s' := by
  obtain ⟨t, hresponds, hsame, hflushed⟩ := h
  refine ⟨t, hresponds, .inl ⟨?_, hflushed⟩⟩
  rw [ours_eq_filter net sn₁ sn₂, ours_eq_filter net sn₁ sn₂, hsame]

theorem Extends.ours_subset (h : Extends net sn₁ sn₂ sn s s') :
    ∀ r ∈ ours net sn₁ s.table, r ∈ ours net sn₁ s'.table := by
  obtain ⟨ext, heq, -⟩ := h
  intro r hr
  rw [ours_eq_filter net sn₁ sn₂] at hr ⊢
  rw [heq, List.filter_append]
  exact List.mem_append_left _ hr

theorem subset_leaseRules_left : ∀ r ∈ flannelRules net sn₁, r ∈ leaseRules net sn₁ sn₂ :=
  fun _ hr => List.mem_append_left _ hr

theorem subset_leaseRules_right : ∀ r ∈ flannelRules net sn₂, r ∈ leaseRules net sn₁ sn₂ :=
  fun _ hr => List.mem_append_right _ hr

/-- All rules that were there still are, each behind the one it needs. -/
structure Keeping (net subnet : Ipv4Network) (s s' : State) : Prop where
  covered : Covered (needs net subnet) (ours net subnet s'.table)
  flushed : s'.flushed = false
  subset : ∀ q ∈ ours net subnet s.table, q ∈ ours net subnet s'.table

/-- A rule that may be appended where it comes is there afterwards. -/
theorem wlp_ensureRule_alone {args : List String} (q q' : Rule)
    (hq : parseRule args = some q ∧ q ∈ flannelRules net sn₁)
    (hq' : parseRule (stripped args) = some q' ∧ q' ∈ flannelRules net sn₁)
    (hneeds : ∀ x, x ∈ needs net sn₁ q ∨ x ∈ needs net sn₁ q' → x ∈ ours net sn₁ s.table)
    (hk : Keeping net sn₁ s s) :
    wlp (Undisturbed net sn₁ sn₂) (fun r s' => Keeping net sn₁ s s' ∧
      (r = .ok () → q ∈ ours net sn₁ s'.table ∨ q' ∈ ours net sn₁ s'.table))
      (ensureRule args).run s := by
  have ha : OurArgs net sn₁ args := ⟨q, hq.2, hq.1⟩
  have hs : OurArgs net sn₁ (stripped args) := ⟨q', hq'.2, hq'.1⟩
  have hstep : ∀ s₁ c r s₂,
      (s₁.flushed = false ∧ ∀ x ∈ ours net sn₁ s.table, x ∈ ours net sn₁ s₁.table) →
      Appends (fun a => a = args ∨ a = stripped args) c → Undisturbed net sn₁ sn₂ s₁ c r s₂ →
      ToleratedAnswers net sn₁ s₁ c r s₂ ∧
        (s₂.flushed = false ∧ ∀ x ∈ ours net sn₁ s.table, x ∈ ours net sn₁ s₂.table) := by
    rintro s₁ c r s₂ ⟨hf₁, hg₁⟩ happends hstep
    have hours : Appends (OurArgs net sn₁) c ∧ Tolerated net sn₁ s₁ c := by
      cases c with
      | append chain a =>
        obtain ⟨hchain, rfl | rfl⟩ := happends
        · refine ⟨⟨hchain, ha⟩, fun y hy x hx => hg₁ x (hneeds x (.inl ?_))⟩
          rwa [Option.some.inj (hq.1.symm.trans hy)]
        · refine ⟨⟨hchain, hs⟩, fun y hy x hx => hg₁ x (hneeds x (.inr ?_))⟩
          rwa [Option.some.inj (hq'.1.symm.trans hy)]
      | check chain a => exact ⟨trivial, trivial⟩
      | newChain chain => exact happends.elim
      | insert chain a => exact happends.elim
      | delete chain a => exact happends.elim
      | flush chain => exact happends.elim
      | deleteChain chain => exact happends.elim
    have hgrows := (hstep.extends subset_leaseRules_left hours.1).ours_subset
    have hflushed : s₂.flushed = s₁.flushed := by
      obtain ⟨t, -, -, h⟩ := hstep
      exact h
    exact ⟨⟨hstep.answers, hours.2⟩, hflushed.trans hf₁, fun x hx => hgrows x (hg₁ x hx)⟩
  refine ((wlp_ensureRule ha hs hk.covered).within hstep
    (uses_ensureRule (fun _ => trivial) ⟨rfl, .inl rfl⟩ ⟨rfl, .inr rfl⟩)
    ⟨hk.flushed, hk.subset⟩).mono ?_
  rintro r s' ⟨⟨⟨hc', -⟩, hpresent⟩, hf', hg'⟩
  refine ⟨⟨hc', hf', hg'⟩, fun hr => ?_⟩
  rcases hpresent hr hf' with ⟨y, hy, hmem⟩ | ⟨y, hy, hmem⟩
  · exact .inl (Option.some.inj (hq.1.symm.trans hy) ▸ hmem)
  · exact .inr (Option.some.inj (hq'.1.symm.trans hy) ▸ hmem)

theorem Keeping.again {s s' : State} (h : Keeping net sn s s') : Keeping net sn s' s' :=
  ⟨h.covered, h.flushed, fun _ hq => hq⟩

/-- An undisturbed call leaves all four rules, each behind the one it needs. -/
theorem wlp_ensure_alone {network subnetText : String} (hn : parseAddress network = some net)
    (hsn : parseAddress subnetText = some sn₁) (hk : Keeping net sn₁ s s) :
    wlp (Undisturbed net sn₁ sn₂) (fun r s' => r = .ok () →
      Covered (needs net sn₁) (ours net sn₁ s'.table) ∧
      (∃ b, podToExternal net b ∈ ours net sn₁ s'.table) ∧
      ∃ b, toRemotePods net b ∈ ours net sn₁ s'.table)
      (ensure network subnetText).run s := by
  have hnr := ne_random_of_parseAddress hn
  have hsnr := ne_random_of_parseAddress hsn
  have hpodToPod := parse_podToPod hn
  have hexternal := parse_podToExternal hn
  have hlocal := parse_toLocalPods hn hsn
  have hremote := parse_toRemotePods hn
  rw [ensure, masqRules]
  refine wlp.exceptBind (wlp_ensureRule_alone (podToPod net) (podToPod net)
    ⟨hpodToPod, by simp [flannelRules]⟩ ⟨?_, by simp [flannelRules]⟩ ?_ hk) ?_ ?_
  · simpa [stripped, hnr] using hpodToPod
  · intro x hx
    simp [needs, podToPod] at hx
  · rintro u s₁ ⟨hk₁, h₁⟩
    have h₁ : podToPod net ∈ ours net sn₁ s₁.table := by simpa using h₁ rfl
    refine wlp.exceptBind (wlp_ensureRule_alone (podToExternal net true)
      (podToExternal net false) ⟨hexternal.1, by simp [flannelRules]⟩
      ⟨?_, by simp [flannelRules]⟩ ?_ hk₁.again) ?_ ?_
    · simpa [stripped, hnr] using hexternal.2
    · intro x hx
      obtain rfl : podToPod net = x := by simpa [needs, podToExternal] using hx
      exact h₁
    · rintro u s₂ ⟨hk₂, h₂⟩
      have h₂ := h₂ rfl
      refine wlp.exceptBind (wlp_ensureRule_alone (toLocalPods net sn₁)
        (toLocalPods net sn₁) ⟨hlocal, by simp [flannelRules]⟩
        ⟨?_, by simp [flannelRules]⟩ ?_ hk₂.again) ?_ ?_
      · simpa [stripped, hnr, hsnr] using hlocal
      · intro x hx
        simp [needs, toLocalPods] at hx
      · rintro u s₃ ⟨hk₃, h₃⟩
        have h₃ : toLocalPods net sn₁ ∈ ours net sn₁ s₃.table := by simpa using h₃ rfl
        refine wlp.exceptBind (wlp_ensureRule_alone (toRemotePods net true)
          (toRemotePods net false) ⟨hremote.1, by simp [flannelRules]⟩
          ⟨?_, by simp [flannelRules]⟩ ?_ hk₃.again) ?_ ?_
        · simpa [stripped, hnr] using hremote.2
        · intro x hx
          obtain rfl : toLocalPods net sn₁ = x := by simpa [needs, toRemotePods] using hx
          exact h₃
        · rintro u s₄ ⟨hk₄, h₄⟩ -
          refine ⟨hk₄.covered, ?_, ?_⟩
          · rcases h₂ with h | h
            · exact ⟨true, hk₄.subset _ (hk₃.subset _ h)⟩
            · exact ⟨false, hk₄.subset _ (hk₃.subset _ h)⟩
          · rcases h₄ rfl with h | h
            · exact ⟨true, h⟩
            · exact ⟨false, h⟩
        · exact fun e s' _ hr => by cases hr
      · exact fun e s' _ hr => by cases hr
    · exact fun e s' _ hr => by cases hr
  · exact fun e s' _ hr => by cases hr

variable {p : Packet}

/-- A packet that no rule of the first lease matches is matched by none of the second. -/
theorem not_test_of_first (hwithin : Within sn₂ net) {b b' : Bool}
    (hexternal : (podToExternal net b).test p = false)
    (hremote : (toRemotePods net b').test p = false) {r : Rule} (hpod : (podToPod net).test p = false)
    (hr : r ∈ flannelRules net sn₂) : r.test p = false := by
  have hin := hwithin p.dst
  rw [test_podToExternal] at hexternal
  rw [test_toRemotePods] at hremote
  simp only [flannelRules, List.mem_cons, List.not_mem_nil, or_false] at hr
  rcases hr with rfl | rfl | rfl | rfl | rfl | rfl
  · exact hpod
  · rwa [test_podToExternal]
  · rwa [test_podToExternal]
  · rw [test_toLocalPods]
    grind
  · rwa [test_toRemotePods]
  · rwa [test_toRemotePods]

/-- Behind the rules of the first lease, those of the second decide nothing. -/
theorem leasedVerdict_of_extends (hwithin : Within sn₂ net)
    (hfirst : leased net sn₁ sn₂ s.table = ours net sn₁ s.table)
    (hc : Covered (needs net sn₁) (ours net sn₁ s.table))
    (hexternal : ∃ b, podToExternal net b ∈ ours net sn₁ s.table)
    (hremote : ∃ b, toRemotePods net b ∈ ours net sn₁ s.table)
    (h : Extends net sn₁ sn₂ sn₂ s s') :
    leasedVerdict net sn₁ sn₂ s'.table p =
      if intended net sn₁ p then some .masquerade else none := by
  obtain ⟨ext, heq, hext⟩ := h
  have hends : ∀ r ∈ leased net sn₁ sn₂ s'.table,
      rules.action r = .ret ∨ ∃ v, rules.action r = .stop v := by
    intro r hr
    have hmem : r ∈ flannelRules net sn₁ ++ flannelRules net sn₂ := by
      simpa [leased, leaseRules] using (List.mem_filter.mp hr).2
    exact (List.mem_append.mp hmem).elim ends_of_mem ends_of_mem
  rw [← verdict_of_covered hc hexternal hremote, leasedVerdict, verdict, walk, walk,
    traverse_of_terminal hends, traverse_of_terminal, heq, hfirst, List.find?_append]
  · cases hfind : (ours net sn₁ s.table).find? (rules.cond · p) with
    | some r => rfl
    | none =>
      have hno := List.find?_eq_none.mp hfind
      obtain ⟨b, hb⟩ := hexternal
      obtain ⟨b', hb'⟩ := hremote
      have hpod : podToPod net ∈ ours net sn₁ s.table :=
        hc.mem hb (by simp [needs, podToExternal])
      have hnone : ext.find? (rules.cond · p) = none := by
        refine List.find?_eq_none.mpr fun r hr => ?_
        simp [not_test_of_first hwithin (by simpa using hno _ hb) (by simpa using hno _ hb')
          (by simpa using hno _ hpod) (hext r hr)]
      rw [hnone, Option.none_or]
  · exact fun r hr => ends_of_mem (by simpa using (List.mem_filter.mp hr).2)

/-- When a node gets another subnet, the verdicts are as intended only if no packet comes
from outside the network. -/
theorem verdict_after_restart_iff {network text₁ text₂ : String} {t : Table} {s₁ s₂ : State}
    (hn : parseAddress network = some net) (h₁ : parseAddress text₁ = some sn₁)
    (h₂ : parseAddress text₂ = some sn₂) (hwithin₁ : Within sn₁ net) (hwithin₂ : Within sn₂ net)
    (hne : sn₁ ≠ sn₂) (ht : leased net sn₁ sn₂ t = [])
    (hfirst : Exec (Undisturbed net sn₁ sn₂) ⟨t, false⟩ (ensure network text₁).run (.ok ()) s₁)
    (hsecond : Exec (Undisturbed net sn₁ sn₂) s₁ (ensure network text₂).run (.ok ()) s₂) :
    (∀ p, leasedVerdict net sn₁ sn₂ s₂.table p =
      if intended net sn₂ p then some .masquerade else none) ↔ ∀ a, net.contains a = true := by
  have hours : ours net sn₁ t = [] := by
    rw [ours_eq_filter net sn₁ sn₂, ht]
    rfl
  have hkeeping : Keeping net sn₁ ⟨t, false⟩ ⟨t, false⟩ :=
    ⟨by rw [hours]; exact .nil, rfl, fun q hq => hq⟩
  obtain ⟨hc, hexternal, hremote⟩ := hfirst.wlp (wlp_ensure_alone hn h₁ hkeeping) rfl
  obtain ⟨ext, heq, hext⟩ := hfirst.wlp (wlp_ensure_extends subset_leaseRules_left hn h₁)
  have hleased : leased net sn₁ sn₂ s₁.table = ours net sn₁ s₁.table := by
    rw [ours_eq_filter net sn₁ sn₂, heq, ht, List.nil_append, List.filter_eq_self.mpr]
    exact fun r hr => by simpa using hext r hr
  have hextends := hsecond.wlp (wlp_ensure_extends subset_leaseRules_right hn h₂)
  have hverdict : ∀ p, leasedVerdict net sn₁ sn₂ s₂.table p =
      if intended net sn₁ p then some .masquerade else none :=
    fun p => leasedVerdict_of_extends hwithin₂ hleased hc hexternal hremote hextends
  constructor
  · intro hall src
    by_contra hsrc
    obtain ⟨dst, hdst⟩ := exists_contains_ne (masked_of_parseAddress h₁)
      (masked_of_parseAddress h₂) hne
    have hp := (hverdict ⟨.tcp, src, dst, 0, false, 0⟩).symm.trans (hall _)
    have hin₁ := hwithin₁ dst
    have hin₂ := hwithin₂ dst
    simp only [intended] at hp
    grind
  · intro hall p
    rw [hverdict p]
    simp [intended, hall]

theorem respond_undisturbed (net sn₁ sn₂ : Ipv4Network) (c : Command) (s : State) :
    Undisturbed net sn₁ sn₂ s c (respond (fun _ => false) c s).1
      (respond (fun _ => false) c s).2 := by
  refine ⟨(s.table.answer c).2, ?_, rfl, rfl⟩
  unfold respond Table.answer
  cases h : s.table.perform c with
  | some t => exact .inl ⟨h, _, rfl⟩
  | none => exact .inr ⟨rfl, fun stderr hr => by cases hr⟩

theorem exec_of_respond (net sn₁ sn₂ : Ipv4Network) {α : Type} {prog : Program Command CommandRes α}
    {r : α} (h : prog.run (fun c s => some (respond (fun _ => false) c s)) s = some (r, s')) :
    Exec (Undisturbed net sn₁ sn₂) s prog r s' := by
  refine Program.exec_of_run (fun c s r s₁ hr => ?_) h
  obtain rfl := (congrArg Prod.fst (Option.some.inj hr)).symm
  obtain rfl := (congrArg Prod.snd (Option.some.inj hr)).symm
  exact respond_undisturbed net sn₁ sn₂ c s

/-- The states after two calls, and whether both succeeded. -/
def runTwice (network text₁ text₂ : String) : Option (State × State × Bool) :=
  ((ensure network text₁).run.run (fun c s => some (respond (fun _ => false) c s))
    ⟨emptyTable, false⟩).bind fun r =>
      ((ensure network text₂).run.run (fun c s => some (respond (fun _ => false) c s)) r.2).map
        fun r' => (r.2, r'.2, r.1.isOk && r'.1.isOk)

theorem exec_of_runTwice (net sn₁ sn₂ : Ipv4Network) {network text₁ text₂ : String}
    (h : runTwice network text₁ text₂ = some (s, s', true)) :
    Exec (Undisturbed net sn₁ sn₂) ⟨emptyTable, false⟩ (ensure network text₁).run (.ok ()) s ∧
      Exec (Undisturbed net sn₁ sn₂) s (ensure network text₂).run (.ok ()) s' := by
  obtain ⟨⟨r, s₁⟩, hrun, h⟩ := Option.bind_eq_some_iff.mp h
  obtain ⟨⟨r', s₂⟩, hrun', he⟩ := Option.map_eq_some_iff.mp h
  obtain ⟨hs, he⟩ := Prod.mk.inj he
  obtain ⟨rfl, hok⟩ := Prod.mk.inj he
  change s₁ = s at hs
  subst hs
  cases r with
  | error e => cases hok
  | ok u =>
    cases r' with
    | error e => cases hok
    | ok u' => exact ⟨exec_of_respond _ _ _ hrun, exec_of_respond _ _ _ hrun'⟩

def newSubnet : Ipv4Network := ⟨.ofOctets 10 244 2 0, 24, nodeSubnet.len_le⟩

theorem parse_newSubnet : parseAddress "10.244.2.0/24" = some newSubnet := by decide +kernel

def everything : Ipv4Network := ⟨.ofOctets 0 0 0 0, 0, by omega⟩

theorem contains_everything (a : Ipv4Addr) : everything.contains a = true := by
  have hlt := a.isLt
  have hdiv : a.toNat / everything.size = 0 := Nat.div_eq_of_lt hlt
  rw [Ipv4Network.contains, hdiv]
  rfl

theorem leased_emptyTable (net sn₁ sn₂ : Ipv4Network) : leased net sn₁ sn₂ emptyTable = [] := rfl

/-- With a network of all addresses the second lease is served. -/
theorem verdict_after_restart_everything : ∃ s₁ s₂,
    Exec (Undisturbed everything nodeSubnet newSubnet) ⟨emptyTable, false⟩
      (ensure "0.0.0.0/0" "10.244.1.0/24").run (.ok ()) s₁ ∧
    Exec (Undisturbed everything nodeSubnet newSubnet) s₁
      (ensure "0.0.0.0/0" "10.244.2.0/24").run (.ok ()) s₂ ∧
    ∀ p, leasedVerdict everything nodeSubnet newSubnet s₂.table p =
      if intended everything newSubnet p then some .masquerade else none := by
  have h : (runTwice "0.0.0.0/0" "10.244.1.0/24" "10.244.2.0/24").map (·.2.2) = some true := by
    decide +kernel
  obtain ⟨⟨s₁, s₂, ok⟩, hrun, rfl⟩ := Option.map_eq_some_iff.mp h
  obtain ⟨hfirst, hsecond⟩ := exec_of_runTwice everything nodeSubnet newSubnet hrun
  refine ⟨s₁, s₂, hfirst, hsecond, ?_⟩
  exact (verdict_after_restart_iff (by decide +kernel) parse_nodeSubnet parse_newSubnet
    (fun a _ => contains_everything a) (fun a _ => contains_everything a) (by decide)
    (leased_emptyTable _ _ _) hfirst hsecond).mpr contains_everything

def outsidePacket : Packet := ⟨.tcp, .ofOctets 192 168 0 9, .ofOctets 10 244 2 5, 80, false, 0⟩

/-- A packet from outside to a pod of the new subnet is masqueraded after the restart. -/
theorem restart_masquerades_local : ∃ s₁ s₂ p,
    Exec (Undisturbed clusterNet nodeSubnet newSubnet) ⟨emptyTable, false⟩
      (ensure "10.244.0.0/16" "10.244.1.0/24").run (.ok ()) s₁ ∧
    Exec (Undisturbed clusterNet nodeSubnet newSubnet) s₁
      (ensure "10.244.0.0/16" "10.244.2.0/24").run (.ok ()) s₂ ∧
    clusterNet.contains p.src = false ∧ newSubnet.contains p.dst = true ∧
    leasedVerdict clusterNet nodeSubnet newSubnet s₂.table p = some .masquerade ∧
    intended clusterNet newSubnet p = false := by
  have h : (runTwice "10.244.0.0/16" "10.244.1.0/24" "10.244.2.0/24").map (fun r =>
      (r.2.2, leasedVerdict clusterNet nodeSubnet newSubnet r.2.1.table outsidePacket)) =
      some (true, some .masquerade) := by
    decide +kernel
  obtain ⟨⟨s₁, s₂, ok⟩, hrun, he⟩ := Option.map_eq_some_iff.mp h
  obtain ⟨rfl, hverdict⟩ := Prod.mk.inj he
  obtain ⟨hfirst, hsecond⟩ := exec_of_runTwice clusterNet nodeSubnet newSubnet hrun
  exact ⟨s₁, s₂, outsidePacket, hfirst, hsecond, by decide +kernel, by decide +kernel, hverdict,
    by decide +kernel⟩

end FlannelRs.MasqueradeRestart
