import FlannelRs.PortmapSteps

/-!
# An ADD of `portmap` that stops anywhere

It may be undone by a DEL, or completed by another ADD.
-/

namespace FlannelRs.PortmapRestarts
open InteractionPrograms CheckedSteps Ipv4Addresses RuleChains NatTables
open Portmap PortmapChains PortmapTables PortmapInterleavings PortmapIsolation PortmapSteps

/-- What an ADD puts in front of the rules of a chain. -/
def hooks (name : String) : List Rule :=
  if name = "PREROUTING" ∨ name = "OUTPUT" then [hookRule]
  else if name = "POSTROUTING" then [jumpTo masqChain] else []

/-- What an ADD puts behind them, with the jumps to the container. -/
def tails (jumps : List Rule) (name : String) : List Rule :=
  if name = topChain then jumps
  else if name = setmarkChain then [setmarkRule]
  else if name = masqChain then [masqRule] else []

/-- Some rules are put in front, and some behind. -/
def Around (front back old new : List Rule) : Prop :=
  ∃ f b, f.Sublist front ∧ b.Sublist back ∧ new = f ++ old ++ b

theorem Around.refl (front back rs : List Rule) : Around front back rs rs :=
  ⟨[], [], List.nil_sublist _, List.nil_sublist _, by simp⟩

theorem sublist_of_not_mem {r : Rule} {rs : List Rule} (h : rs.Sublist [r]) (hr : r ∉ rs) :
    rs = [] := by
  refine List.eq_nil_iff_forall_not_mem.mpr fun x hx => hr ?_
  rwa [← List.mem_singleton.mp (h.subset hx)]

theorem Around.append {front old new : List Rule} {r : Rule} (h : Around front [r] old new)
    (hr : r ∉ new) : Around front [r] old (new ++ [r]) := by
  obtain ⟨f, b, hf, hb, rfl⟩ := h
  have hnone : b = [] := sublist_of_not_mem hb fun hmem => hr (by simp [hmem])
  exact ⟨f, [r], hf, .refl _, by simp [hnone]⟩

theorem Around.insert {back old new : List Rule} {r : Rule} (h : Around [r] back old new)
    (hr : r ∉ new) : Around [r] back old (r :: new) := by
  obtain ⟨f, b, hf, hb, rfl⟩ := h
  have hnone : f = [] := sublist_of_not_mem hf fun hmem => hr (by simp [hmem])
  exact ⟨[r], b, .refl _, hb, by simp [hnone]⟩

theorem Around.mem {front back old new : List Rule} {r : Rule} (h : Around front back old new)
    (hr : r ∈ new) : r ∈ front ∨ r ∈ old ∨ r ∈ back := by
  obtain ⟨f, b, hf, hb, rfl⟩ := h
  simp only [List.mem_append] at hr
  rcases hr with (hr | hr) | hr
  · exact .inl (hf.subset hr)
  · exact .inr (.inl hr)
  · exact .inr (.inr (hb.subset hr))

variable {id : String} {t u u' : Table}

/-- What an ADD may have made of a table. -/
structure Begun (id : String) (t u : Table) : Prop where
  kept : ∀ name ∈ t, name ∈ u
  made : ∀ name ∈ u, name ∈ t ∨ name ∈ [topChain, setmarkChain, masqChain] ∨ name = dnChain id
  chain : ∀ name, name ≠ dnChain id →
    Around (hooks name) (tails [jumpTo (dnChain id)] name) (t.chain name) (u.chain name)
  own : ∀ r ∈ u.chain (dnChain id), OwnRule r
  target : ∀ name, ∀ r ∈ u.chain name, r.target = .jump (dnChain id) → dnChain id ∈ u

/-- A step that an ADD may take. -/
def MayTake (id : String) : Step → Prop
  | .chain name => name ∈ [topChain, setmarkChain, masqChain] ∨ name = dnChain id
  | .append name args => ∀ r, parseRule args = some r →
      if name = dnChain id then OwnRule r else tails [jumpTo (dnChain id)] name = [r]
  | .insert name args => ∀ r, parseRule args = some r → name ≠ dnChain id ∧ hooks name = [r]

theorem mayTake_applySteps (id : String) (podIp : Ipv4Addr) (ms : List PortMapping) :
    ∀ s ∈ applySteps id podIp ms, MayTake id s := by
  have hne : ∀ name ∈ sharedChains, name ≠ dnChain id :=
    fun name hname => (dnChain_ne_shared hname).symm
  have hhook : ∀ name, name = "PREROUTING" ∨ name = "OUTPUT" →
      MayTake id (.insert name jumpArgs) := by
    intro name hname r hr
    rw [parse_hookRule] at hr
    obtain rfl := Option.some.inj hr
    refine ⟨hne name ?_, if_pos hname⟩
    rcases hname with rfl | rfl <;> simp [sharedChains]
  have htop : ∀ s ∈ topSteps, MayTake id s := by
    intro s hs
    simp only [topSteps, List.mem_cons, List.not_mem_nil, or_false] at hs
    rcases hs with rfl | rfl | rfl | rfl | rfl | rfl | rfl | rfl
    · exact .inl (by simp)
    · exact hhook _ (.inl rfl)
    · exact hhook _ (.inr rfl)
    · exact .inl (by simp)
    · intro r hr
      rw [parse_setmarkRule] at hr
      obtain rfl := Option.some.inj hr
      rw [if_neg (hne _ (by simp [sharedChains]))]
      rfl
    · exact .inl (by simp)
    · intro r hr
      rw [parse_masqRule] at hr
      obtain rfl := Option.some.inj hr
      rw [if_neg (hne _ (by simp [sharedChains]))]
      rfl
    · intro r hr
      rw [parse_jumpTo_masqChain] at hr
      obtain rfl := Option.some.inj hr
      exact ⟨hne _ (by simp [sharedChains]), rfl⟩
  intro s hs
  rcases List.mem_append.mp hs with hs | hs
  · exact htop s hs
  · simp only [List.mem_cons] at hs
    rcases hs with rfl | rfl | hs
    · exact .inr rfl
    · intro r hr
      rw [parse_jumpTo_dnChain] at hr
      obtain rfl := Option.some.inj hr
      rw [if_neg (hne _ (by simp [sharedChains]))]
      rfl
    · obtain ⟨args, hargs, rfl⟩ := List.mem_map.mp hs
      obtain ⟨m, -, hm⟩ := List.mem_flatMap.mp hargs
      intro r hr
      rw [if_pos rfl]
      exact ownRule_of_parse hm hr

theorem not_jump_of_unreferenced {name : String} {r : Rule} (h : t.referenced (dnChain id) = false)
    (hr : r ∈ t.chain name) : r.target ≠ .jump (dnChain id) := by
  intro ht
  cases hlookup : t.lookup name with
  | none => simp [Table.chain, hlookup] at hr
  | some rs =>
    rw [Table.chain_of_lookup hlookup] at hr
    have hentry : (⟨name, rs⟩ : Σ _ : String, List Rule) ∈ t.entries := AList.mem_lookup_iff.mp hlookup
    simp only [Table.referenced, List.any_eq_false] at h
    exact h _ hentry (List.any_eq_true.mpr ⟨r, hr, by simpa using ht⟩)

theorem begun_self (hown : dnChain id ∉ t) (href : t.referenced (dnChain id) = false) :
    Begun id t t where
  kept _ h := h
  made _ h := .inl h
  chain name _ := .refl _ _ _
  own r hr := by
    rw [chain_of_not_mem hown] at hr
    cases hr
  target name r hr ht := absurd ht (not_jump_of_unreferenced href hr)

/-- A chain is made, or one is changed. -/
theorem Begun.insert {name : String} {rs : List Rule} (h : Begun id t u)
    (hname : name ∈ u ∨ name ∈ [topChain, setmarkChain, masqChain] ∨ name = dnChain id)
    (hother : name ≠ dnChain id → Around (hooks name) (tails [jumpTo (dnChain id)] name)
      (t.chain name) rs)
    (hown : name = dnChain id → ∀ r ∈ rs, OwnRule r)
    (htarget : ∀ r ∈ rs, r.target = .jump (dnChain id) → dnChain id ∈ u) :
    Begun id t (u.insert name rs) where
  kept n hn := (AList.mem_insert _).mpr (.inr (h.kept n hn))
  made n hn := by
    rcases (AList.mem_insert _).mp hn with rfl | hn
    · exact hname.elim (h.made n) .inr
    · exact h.made n hn
  chain n hn := by
    rw [Table.chain_insert]
    by_cases he : n = name
    · subst he
      rw [if_pos rfl]
      exact hother hn
    · rw [if_neg he]
      exact h.chain n hn
  own r hr := by
    rw [Table.chain_insert] at hr
    by_cases he : dnChain id = name
    · rw [if_pos he] at hr
      exact hown he.symm r hr
    · rw [if_neg he] at hr
      exact h.own r hr
  target n r hr ht := by
    refine (AList.mem_insert _).mpr (.inr ?_)
    rw [Table.chain_insert] at hr
    by_cases he : n = name
    · rw [if_pos he] at hr
      exact htarget r hr ht
    · rw [if_neg he] at hr
      exact h.target n r hr ht

theorem Begun.step {s : Step} (h : Begun id t u) (hs : MayTake id s) (hu : s.perform u = some u') :
    Begun id t u' := by
  cases Step.perform_changed hu with
  | nothing => exact h
  | @chain name hnew hlen =>
    have hempty := chain_of_not_mem hnew
    have hname : name ∈ [topChain, setmarkChain, masqChain] ∨ name = dnChain id := hs
    have hchain : name ≠ dnChain id → Around (hooks name) (tails [jumpTo (dnChain id)] name)
        (t.chain name) [] := by
      intro hne
      have hbefore := h.chain name hne
      rwa [hempty] at hbefore
    exact h.insert (.inr hname) hchain (fun _ r hr => absurd hr List.not_mem_nil)
      fun r hr => absurd hr List.not_mem_nil
  | @append name args r hread hnew =>
    obtain ⟨hlookup, hparse, htarget⟩ := Table.readRule_eq_some hread
    have hfits := hs r hparse
    refine h.insert (.inl (AList.lookup_isSome.mp (by rw [hlookup]; rfl))) (fun hne => ?_)
      (fun he x hx => ?_) fun x hx ht => ?_
    · rw [if_neg hne] at hfits
      have hbefore := h.chain name hne
      rw [hfits] at hbefore
      rw [hfits]
      exact hbefore.append hnew
    · rw [if_pos he] at hfits
      rcases List.mem_append.mp hx with hx | hx
      · exact h.own x (by rwa [← he])
      · rwa [List.mem_singleton.mp hx]
    · rcases List.mem_append.mp hx with hx | hx
      · exact h.target name x hx ht
      · rw [List.mem_singleton.mp hx] at ht
        rwa [ht, targetExists_jump] at htarget
  | @insert name args r hread hnew =>
    obtain ⟨hlookup, hparse, htarget⟩ := Table.readRule_eq_some hread
    obtain ⟨hne, hfits⟩ := hs r hparse
    refine h.insert (.inl (AList.lookup_isSome.mp (by rw [hlookup]; rfl))) (fun _ => ?_)
      (fun he => absurd he hne) fun x hx ht => ?_
    · have hbefore := h.chain name hne
      rw [hfits] at hbefore
      rw [hfits]
      exact hbefore.insert hnew
    · rcases List.mem_cons.mp hx with rfl | hx
      · rwa [ht, targetExists_jump] at htarget
      · exact h.target name x hx ht

/-- Wherever an ADD is cut off, it has begun. -/
theorem begun_cut (ipt : Iptables) (podIp : Ipv4Addr) (ms : List PortMapping) (k : ℕ)
    (hown : dnChain id ∉ t) (href : t.referenced (dnChain id) = false) :
    Begun id t (cut answer k (apply ipt id podIp ms).run t) := by
  rw [apply_eq]
  refine Checked.cut_preserves (fun s _ => checked_step ipt s) (fun s hs u hu => ?_) k
    (begun_self hown href)
  obtain ⟨r, heval, -⟩ := eval_step ipt s u
  rw [heval]
  cases hperform : s.perform u with
  | none => exact hu
  | some u' => exact hu.step (mayTake_applySteps id podIp ms s hs) hperform

/-- Nothing of the container is left, and of the rest nothing but the chains and rules that all
containers use are added. -/
structure Undone (id : String) (t u : Table) : Prop where
  gone : dnChain id ∉ u
  unreferenced : u.referenced (dnChain id) = false
  others : ∀ name, name ∉ sharedChains → u.lookup name = t.lookup name
  kept : ∀ name ∈ t, name ∈ u
  made : ∀ name ∈ u, name ∈ t ∨ name ∈ [topChain, setmarkChain, masqChain]
  shared : ∀ name ∈ sharedChains, Around (hooks name) (tails [] name) (t.chain name) (u.chain name)

/-- The tables after the three commands of a DEL. -/
theorem eval_remove (ipt : Iptables) (id : String) (u : Table) :
    (eval answer (remove ipt id) u).2 =
      ((((u.answer (.delete topChain ["-j", dnChain id])).2.answer (.flush (dnChain id))).2).answer
        (.deleteChain (dnChain id))).2 := rfl

/-- What the jump to the container stood behind is left. -/
theorem around_erase {rs new : List Rule} {j : Rule} (h : Around [] [j] rs new) (hj : j ∉ rs) :
    new.erase j = rs := by
  obtain ⟨f, b, hf, hb, rfl⟩ := h
  rw [List.sublist_nil.mp hf, List.nil_append, List.erase_append_right _ hj]
  rcases List.sublist_singleton.mp hb with rfl | rfl
  · simp
  · simp

theorem tails_of_ne_top {jumps jumps' : List Rule} {name : String} (h : name ≠ topChain) :
    tails jumps name = tails jumps' name := by
  rw [tails, tails, if_neg h, if_neg h]

/-- Without the jump to the container. -/
theorem Begun.delete (h : Begun id t u) (href : t.referenced (dnChain id) = false) :
    (∀ name, name ∈ (u.answer (.delete topChain ["-j", dnChain id])).2 ↔ name ∈ u) ∧
    ∀ name, name ≠ dnChain id → Around (hooks name) (tails [] name) (t.chain name)
      ((u.answer (.delete topChain ["-j", dnChain id])).2.chain name) := by
  have hne : topChain ≠ dnChain id := (dnChain_ne (by decide)).symm
  have htop := h.chain topChain hne
  have hold : jumpTo (dnChain id) ∉ t.chain topChain :=
    fun hmem => not_jump_of_unreferenced href hmem rfl
  by_cases hj : jumpTo (dnChain id) ∈ u.chain topChain
  · have hmem : topChain ∈ u := by
      by_contra hnot
      simp [chain_of_not_mem hnot] at hj
    have hread := readRule_of_mem hmem (parse_jumpTo_dnChain id)
      (targetExists_jump.mpr (h.target _ _ hj rfl))
    rw [Table.answer_delete hread hj]
    constructor
    · intro name
      rw [AList.mem_insert]
      exact ⟨fun hn => hn.elim (fun he => he ▸ hmem) fun hn => hn, .inr⟩
    · intro name hname
      rw [Table.chain_insert]
      by_cases he : name = topChain
      · subst he
        rw [if_pos rfl, around_erase htop hold]
        exact .refl _ _ _
      · rw [if_neg he, tails_of_ne_top he]
        exact h.chain name hname
  · have habsent : ∀ r rs, u.readRule topChain ["-j", dnChain id] = some (r, rs) → r ∉ rs := by
      intro r rs hread hr
      obtain ⟨hlookup, hparse, -⟩ := Table.readRule_eq_some hread
      rw [parse_jumpTo_dnChain] at hparse
      obtain rfl := Option.some.inj hparse
      exact hj (by rwa [Table.chain_of_lookup hlookup])
    rw [(Table.answer_delete_of_absent habsent).2]
    refine ⟨fun _ => Iff.rfl, fun name hname => ?_⟩
    by_cases he : name = topChain
    · subst he
      rw [← List.erase_of_not_mem hj, around_erase htop hold]
      exact .refl _ _ _
    · rw [tails_of_ne_top he]
      exact h.chain name hname

theorem flush_spec (name : String) (u : Table) :
    (∀ n, n ∈ (u.answer (.flush name)).2 ↔ n ∈ u) ∧ (u.answer (.flush name)).2.chain name = [] ∧
    ∀ n, n ≠ name → (u.answer (.flush name)).2.chain n = u.chain n := by
  by_cases hmem : name ∈ u
  · rw [Table.answer_flush hmem]
    refine ⟨fun n => ?_, ?_, fun n hn => ?_⟩
    · rw [AList.mem_insert]
      exact ⟨fun hn => hn.elim (fun he => he ▸ hmem) fun hn => hn, .inr⟩
    · rw [Table.chain_insert, if_pos rfl]
    · rw [Table.chain_insert, if_neg hn]
  · rw [Table.answer_flush_of_not_mem hmem]
    exact ⟨fun _ => Iff.rfl, chain_of_not_mem hmem, fun _ _ => rfl⟩

/-- An empty chain to which nothing jumps. -/
theorem deleteChain_spec {name : String} (hempty : u.chain name = []) (hbuiltin : name ∉ builtin)
    (href : u.referenced name = false) :
    (∀ n, n ∈ (u.answer (.deleteChain name)).2 ↔ n ≠ name ∧ n ∈ u) ∧
    ∀ n, n ≠ name → (u.answer (.deleteChain name)).2.chain n = u.chain n := by
  by_cases hmem : name ∈ u
  · have hlookup := lookup_of_mem hmem
    rw [hempty] at hlookup
    rw [Table.answer_deleteChain hlookup hbuiltin href]
    refine ⟨fun n => AList.mem_erase, fun n hn => ?_⟩
    rw [Table.chain, AList.lookup_erase_ne hn, Table.chain]
  · rw [Table.answer_deleteChain_of_not_mem hmem]
    refine ⟨fun n => ⟨fun hn => ⟨?_, hn⟩, And.right⟩, fun _ _ => rfl⟩
    rintro rfl
    exact hmem hn

/-- No rule that all containers use jumps to a container. -/
theorem target_ne_of_shared {name : String} {r : Rule} (h : r ∈ hooks name ∨ r ∈ tails [] name) :
    r.target ≠ .jump (dnChain id) := by
  have hne : ∀ name ∈ sharedChains, Target.jump name ≠ .jump (dnChain id) :=
    fun name hname he => dnChain_ne_shared hname (Target.jump.inj he).symm
  unfold hooks tails at h
  split_ifs at h <;> simp only [List.mem_singleton, List.not_mem_nil, or_false, false_or] at h
  all_goals
    rcases h with rfl | rfl <;> first
      | exact hne _ (by simp [sharedChains])
      | simp [setmarkRule, masqRule]

theorem unreferenced_of_around (href : t.referenced (dnChain id) = false)
    (hempty : u.chain (dnChain id) = []) (h : ∀ name, name ≠ dnChain id →
      Around (hooks name) (tails [] name) (t.chain name) (u.chain name)) :
    u.referenced (dnChain id) = false := by
  refine Table.referenced_eq_false fun name rs hname r hr => ?_
  rw [← Table.chain_of_lookup hname] at hr
  by_cases he : name = dnChain id
  · rw [he, hempty] at hr
    cases hr
  · rcases (h name he).mem hr with hr | hr | hr
    · exact target_ne_of_shared (.inl hr)
    · exact not_jump_of_unreferenced href hr
    · exact target_ne_of_shared (.inr hr)

theorem Begun.undone (ipt : Iptables) (h : Begun id t u) (hown : dnChain id ∉ t)
    (href : t.referenced (dnChain id) = false) :
    Undone id t (eval answer (remove ipt id) u).2 := by
  obtain ⟨hmem₁, hchain₁⟩ := h.delete href
  rw [eval_remove]
  generalize (u.answer (.delete topChain ["-j", dnChain id])).2 = u₁ at hmem₁ hchain₁ ⊢
  obtain ⟨hmem₂, hempty₂, hsame₂⟩ := flush_spec (dnChain id) u₁
  generalize (u₁.answer (.flush (dnChain id))).2 = u₂ at hmem₂ hempty₂ hsame₂ ⊢
  have hchain₂ : ∀ name, name ≠ dnChain id →
      Around (hooks name) (tails [] name) (t.chain name) (u₂.chain name) := by
    intro name hname
    rw [hsame₂ name hname]
    exact hchain₁ name hname
  obtain ⟨hmem₃, hsame₃⟩ := deleteChain_spec hempty₂ (dnChain_not_builtin id)
    (unreferenced_of_around href hempty₂ hchain₂)
  generalize (u₂.answer (.deleteChain (dnChain id))).2 = u₃ at hmem₃ hsame₃ ⊢
  have hgone : dnChain id ∉ u₃ := fun hn => ((hmem₃ _).mp hn).1 rfl
  have hchain₃ : ∀ name, name ≠ dnChain id →
      Around (hooks name) (tails [] name) (t.chain name) (u₃.chain name) := by
    intro name hname
    rw [hsame₃ name hname]
    exact hchain₂ name hname
  have hkept : ∀ name ∈ t, name ∈ u₃ := by
    intro name hname
    refine (hmem₃ name).mpr ⟨?_, (hmem₂ name).mpr ((hmem₁ name).mpr (h.kept name hname))⟩
    rintro rfl
    exact hown hname
  have hmade : ∀ name ∈ u₃, name ∈ t ∨ name ∈ [topChain, setmarkChain, masqChain] := by
    intro name hname
    obtain ⟨hne, hname⟩ := (hmem₃ name).mp hname
    rcases h.made name ((hmem₁ name).mp ((hmem₂ name).mp hname)) with hold | hnew | he
    · exact .inl hold
    · exact .inr hnew
    · exact absurd he hne
  refine ⟨hgone, unreferenced_of_around href (chain_of_not_mem hgone) hchain₃, fun name hname => ?_,
    hkept, hmade, fun name hname => hchain₃ name (dnChain_ne_shared hname).symm⟩
  simp only [sharedChains, List.mem_cons, List.not_mem_nil, or_false, not_or] at hname
  obtain ⟨hpre, hout, hpost, htop, hset, hmasq⟩ := hname
  by_cases he : name = dnChain id
  · rw [he, AList.lookup_eq_none.mpr hgone, AList.lookup_eq_none.mpr hown]
  · have hchain := hchain₃ name he
    have hhooks : hooks name = [] := by simp [hooks, hpre, hout, hpost]
    have htails : tails [] name = [] := by simp [tails, htop, hset, hmasq]
    rw [hhooks, htails] at hchain
    obtain ⟨f, b, hf, hb, hrs⟩ := hchain
    rw [List.sublist_nil.mp hf, List.sublist_nil.mp hb, List.nil_append, List.append_nil] at hrs
    by_cases hold : name ∈ t
    · rw [lookup_of_mem (hkept name hold), lookup_of_mem hold, hrs]
    · have hnot : name ∉ u₃ := by
        intro hn
        rcases hmade name hn with hn | hn
        · exact hold hn
        · simp [htop, hset, hmasq] at hn
      rw [AList.lookup_eq_none.mpr hnot, AList.lookup_eq_none.mpr hold]

/-- An ADD that was cut off after any number of commands is undone by a DEL, and completed by the
same ADD, which gives the table that it would have given at once and does not change again. -/
theorem add_undone_or_completed (ipt : Iptables) (id : String) (podIp : Ipv4Addr)
    (ms : List PortMapping) (t : Table) (hown : dnChain id ∉ t)
    (href : t.referenced (dnChain id) = false) (k : ℕ) :
    Undone id t (eval answer (remove ipt id) (cut answer k (apply ipt id podIp ms).run t)).2 ∧
    eval answer (apply ipt id podIp ms).run (cut answer k (apply ipt id podIp ms).run t) =
      eval answer (apply ipt id podIp ms).run t ∧
    eval answer (apply ipt id podIp ms).run (eval answer (apply ipt id podIp ms).run t).2 =
      eval answer (apply ipt id podIp ms).run t := by
  refine ⟨(begun_cut ipt podIp ms k hown href).undone ipt hown href, ?_⟩
  rw [apply_eq]
  have hall : ∀ s ∈ applySteps id podIp ms, Checked answer (Step.code ipt) Step.Done Grows s :=
    fun s _ => checked_step ipt s
  have htrans : ∀ s t u : Table, Grows s t → Grows t u → Grows s u := fun _ _ _ h h' => h.trans h'
  exact ⟨Checked.resume .refl htrans hall k t, Checked.again .refl htrans hall t⟩

theorem add_undone_or_completed_builtin :
    let add := (apply ⟨"iptables"⟩ "c1" (.ofOctets 10 244 1 5) [⟨8080, 80, "tcp", none⟩]).run
    Undone "c1" builtinTable (eval answer (remove ⟨"iptables"⟩ "c1")
      (cut answer 17 add builtinTable)).2 ∧
    eval answer add (cut answer 17 add builtinTable) = eval answer add builtinTable ∧
    eval answer add (eval answer add builtinTable).2 = eval answer add builtinTable := by
  have hown : dnChain "c1" ∉ builtinTable := (fresh_builtinTable fun _ : Unit => "c1").own ()
  have href : builtinTable.referenced (dnChain "c1") = false := by decide +kernel
  exact add_undone_or_completed _ _ _ _ _ hown href 17

end FlannelRs.PortmapRestarts
