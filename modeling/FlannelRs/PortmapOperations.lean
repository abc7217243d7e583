import FlannelRs.PortmapInterleavings

/-!
# An ADD and a DEL of `portmap` among those of other containers

What `apply` and `remove` leave behind, whatever the other containers do meanwhile.
-/

namespace FlannelRs.PortmapOperations
open InteractionPrograms ProcessPools Ipv4Addresses RustText CniTypes RuleChains NatTables
open Portmap PortmapChains PortmapTables PortmapInterleavings

variable {C : Type} {ids : C → String} {t₀ : Table} {c : C} {s s' : Node C}
variable {own : Option (List Rule)} {jumped : Prop} {pubs : List Published} {F : Node C → Prop}

theorem forall₂_mappingArgs {m : PortMapping} (h : Valid m) (podIp : Ipv4Addr) :
    List.Forall₂ (fun args r => parseRule args = some r ∧ OwnRule r) (mappingArgs podIp m)
      (mappingRules podIp m) := by
  have hown : ∀ r ∈ mappingRules podIp m, OwnRule r := fun r hr => ownRule_of_mem hr
  refine .cons ⟨parse_hairpinMarkArgs h podIp, hown _ (by simp [mappingRules])⟩ ?_
  refine .cons ⟨parse_localhostMarkArgs h, hown _ (by simp [mappingRules])⟩ ?_
  exact .cons ⟨parse_dnatArgs h podIp, hown _ (by simp [mappingRules])⟩ .nil

section

variable [DecidableEq C] {ipt : Iptables} {J : Type} {j : J}
  (hinj : Function.Injective fun c => dnChain (ids c))

include hinj

theorem safe_mappings {podIp : Ipv4Addr} {ms : List PortMapping} {rs : List Rule} (hF : Lasting F)
    (hvalid : ∀ m ∈ ms, Valid m) (hset : ∀ s, F s → setmarkChain ∈ s.table) (hi : Inv ids t₀ s)
    (hk : Knows ids c (some rs) jumped pubs F s) :
    SafeIn ids t₀ c j (fun r s' => r = .ok () ∧
        Knows ids c (some ((ms.flatMap (mappingRules podIp)).foldl addNew rs)) jumped pubs F s')
      (ms.forM fun m => (mappingArgs podIp m).forM (ipt.ensureRule (dnChain (ids c)))).run s := by
  induction ms generalizing s rs with
  | nil => exact fun s₁ hr _ => ⟨rfl, Knows.stable hF _ _ hr hk⟩
  | cons m ms ih =>
    obtain ⟨hm, hms⟩ := List.forall_mem_cons.mp hvalid
    rw [List.flatMap_cons, List.foldl_append]
    exact safe_unit_bind (safe_ownRules hinj hF (forall₂_mappingArgs hm podIp) hset hi hk) hi
      fun s₁ hi₁ hk₁ => ih hms hi₁ hk₁

/-- The rules of the mappings are there, behind those that were. -/
theorem safe_apply (hfresh : Fresh ids t₀) {pub : Published} (hvalid : ∀ m ∈ pub.mappings, Valid m)
    (hi : Inv ids t₀ s) (hk : Knows ids c own jumped pubs (fun _ => True) s) :
    SafeIn ids t₀ c j (fun r s' => r = .ok () ∧
        Knows ids c (some (pub.rules.foldl addNew (own.getD []))) True pubs Ready s')
      (apply ipt (ids c) pub.podIp pub.mappings).run s := by
  refine safe_unit_bind (safe_ensureTopChains hfresh hi hk) hi fun s₁ hi₁ hk₁ => ?_
  refine safe_unit_bind (safe_ensureChain (Knows.stable lasting_ready) (Knows.stable lasting_ready)
    (moves_newOwn hinj lasting_ready) hi₁ hk₁) hi₁ fun s₂ hi₂ hk₂ => ?_
  refine safe_unit_bind (safe_ensureJump hinj lasting_ready (fun s h => h.top) hi₂ hk₂) hi₂
    fun s₃ hi₃ hk₃ => ?_
  exact safe_mappings hinj lasting_ready hvalid (fun s h => h.setmark) hi₃ hk₃

end

section

variable (hinj : Function.Injective fun c => dnChain (ids c))

include hinj

/-- Nothing jumps to the chain of a container without a jump. -/
theorem not_jump_of_not_mem (hfresh : Fresh ids t₀) (hi : Inv ids t₀ s) (hc : c ∉ s.jumps)
    {name : String} {rs : List Rule} (hname : s.table.lookup name = some rs) {r : Rule}
    (hr : r ∈ rs) : r.target ≠ .jump (dnChain (ids c)) := by
  intro ht
  have hfits := hi.fits name rs hname
  have hold : r ∉ t₀.chain name := by
    intro hmem
    cases hlookup : t₀.lookup name with
    | none => simp [Table.chain, hlookup] at hmem
    | some rs' =>
      rw [Table.chain_of_lookup hlookup] at hmem
      exact hfresh.own c (hfresh.jumps name rs' hlookup r hmem _ ht)
  by_cases hhook : name = "PREROUTING" ∨ name = "OUTPUT"
  · obtain ⟨n, rfl⟩ := hfits.hook hhook
    rcases List.mem_append.mp hr with hr | hr
    · rw [List.eq_of_mem_replicate hr] at ht
      exact dnChain_ne (by decide) (Target.jump.inj ht).symm
    · exact hold hr
  by_cases hpost : name = "POSTROUTING"
  · obtain ⟨n, rfl⟩ := hfits.post hpost
    subst hpost
    rcases List.mem_append.mp hr with hr | hr
    · rw [List.eq_of_mem_replicate hr] at ht
      exact dnChain_ne (by decide) (Target.jump.inj ht).symm
    · exact hold hr
  by_cases htop : name = topChain
  · rw [hfits.top htop] at hr
    obtain ⟨q, hq, rfl⟩ := List.mem_map.mp hr
    exact hc (hinj (Target.jump.inj ht) ▸ hq)
  by_cases hset : name = setmarkChain
  · rw [hfits.setmark hset r hr] at ht
    cases ht
  by_cases hmasq : name = masqChain
  · rw [hfits.masq hmasq r hr] at ht
    cases ht
  by_cases hown : ∃ q, name = dnChain (ids q)
  · obtain ⟨q, rfl⟩ := hown
    rcases ((hfits.own q rfl) r hr).target with h | ⟨addr, port, h⟩
    · exact dnChain_ne (by decide) (Target.jump.inj (ht.symm.trans h))
    · cases ht.symm.trans h
  · have hforeign : Foreign ids name := by
      refine ⟨?_, fun q hq => hown ⟨q, hq⟩⟩
      simp only [sharedChains, List.mem_cons, List.not_mem_nil, or_false]
      tauto
    rw [Table.chain_of_lookup (hfits.foreign hforeign)] at hold
    exact hold hr

variable [DecidableEq C]

/-- The jump is gone, whether there was one or not. -/
theorem moves_deleteJump (hF : Lasting F) (hown : jumped → own.isSome) :
    Moves ids t₀ c (.delete topChain ["-j", dnChain (ids c)]) (Knows ids c own jumped pubs F)
      fun _ s => Knows ids c own False pubs F s := by
  intro s hi hk
  by_cases hc : c ∈ s.jumps
  · have htop : topChain ∈ s.table := by
      by_contra hnot
      simp [hi.top hnot] at hc
    obtain ⟨rs, hrs⟩ := Option.isSome_iff_exists.mp (hown (hk.jumped.mp hc))
    have hmem : jumpTo (dnChain (ids c)) ∈ s.table.chain topChain := by
      rw [chain_top hi htop]
      exact (jumpTo_mem_iff hinj).mpr hc
    have hanswer := Table.answer_delete (readRule_jump (hrs ▸ hk) htop) hmem
    have herase : (s.table.chain topChain).erase (jumpTo (dnChain (ids c))) =
        (s.jumps.erase c).map fun q => jumpTo (dnChain (ids q)) := by
      have hjumps : Function.Injective fun q => jumpTo (dnChain (ids q)) := by
        intro q q' he
        simp only [jumpTo, Rule.mk.injEq, Target.jump.injEq, true_and] at he
        exact hinj he
      rw [chain_top hi htop, List.map_erase hjumps]
    have hadvance : advance c (.delete topChain ["-j", dnChain (ids c)]) s =
        s.putTop ids (s.jumps.erase c) := by
      simp [advance, hanswer, Node.putTop, herase]
    have hguar : Guar ids c s (s.putTop ids (s.jumps.erase c)) :=
      .putTop fun q hq => List.mem_erase_of_ne hq
    rw [hadvance]
    refine ⟨hi.putTop (hi.nodup.erase c), hguar, ?_, ?_, hk.live, hF _ _ hguar.lasts hk.facts⟩
    · rw [Node.putTop, AList.lookup_insert_ne (dnChain_ne (by decide)), hk.own]
    · exact iff_false_intro hi.nodup.not_mem_erase
  · have habsent : ∀ r rs, s.table.readRule topChain ["-j", dnChain (ids c)] = some (r, rs) →
        r ∉ rs := by
      intro r rs hread hr
      obtain ⟨hlookup, hparse, -⟩ := Table.readRule_eq_some hread
      rw [parse_jumpTo_dnChain] at hparse
      obtain rfl := Option.some.inj hparse
      rw [(hi.fits _ _ hlookup).top rfl, jumpTo_mem_iff hinj] at hr
      exact hc hr
    obtain ⟨hfalse, htable⟩ := Table.answer_delete_of_absent habsent
    have hself : advance c (.delete topChain ["-j", dnChain (ids c)]) s = s :=
      advance_self htable (by
        rintro _ _ (h | h)
        · cases h
        · exact .inr hfalse)
    rw [hself]
    exact ⟨hi, .refl s, hk.own, iff_false_intro hc, hk.live, hk.facts⟩

theorem moves_flush (hF : Lasting F) :
    Moves ids t₀ c (.flush (dnChain (ids c))) (Knows ids c own jumped pubs F)
      fun _ s => Knows ids c (own.map fun _ => []) jumped pubs F s := by
  intro s hi hk
  cases hown : own with
  | none =>
    have hmem : dnChain (ids c) ∉ s.table := AList.lookup_eq_none.mp (hk.own.trans hown)
    rw [advance_self (Table.answer_flush_of_not_mem hmem) (by rintro _ _ (h | h) <;> cases h)]
    exact ⟨hi, .refl s, hk.own.trans hown, hk.jumped, hk.live, hk.facts⟩
  | some rs =>
    have hmem : dnChain (ids c) ∈ s.table :=
      AList.lookup_isSome.mp (by rw [hk.own, hown]; rfl)
    have hguar : Guar ids c s (s.put (dnChain (ids c)) []) := .put_own hinj c []
    rw [advance_put (Table.answer_flush hmem) (by rintro _ _ (h | h) <;> cases h)]
    exact ⟨hi.put (.of_own c (by simp)), hguar, AList.lookup_insert _, hk.jumped, hk.live,
      hF _ _ hguar.lasts hk.facts⟩

/-- The chain goes, for it is empty and nothing jumps to it. -/
theorem moves_deleteChain (hfresh : Fresh ids t₀) (hF : Lasting F)
    (hown : own = none ∨ own = some []) :
    Moves ids t₀ c (.deleteChain (dnChain (ids c))) (Knows ids c own False pubs F)
      fun _ s => Knows ids c none False pubs F s := by
  intro s hi hk
  rcases hown with rfl | rfl
  · have hmem : dnChain (ids c) ∉ s.table := AList.lookup_eq_none.mp hk.own
    rw [advance_self (Table.answer_deleteChain_of_not_mem hmem) (by rintro _ _ (h | h) <;> cases h)]
    exact ⟨hi, .refl s, hk⟩
  · have href := Table.referenced_eq_false fun name rs hname r hr =>
      not_jump_of_not_mem hinj hfresh hi (hk.jumped.not.mpr id) hname hr
    have hanswer := Table.answer_deleteChain hk.own (dnChain_not_builtin _) href
    have hadvance : advance c (.deleteChain (dnChain (ids c))) s = s.drop (dnChain (ids c)) := by
      simp [advance, hanswer, Node.drop]
    have hguar : Guar ids c s (s.drop (dnChain (ids c))) := .drop hinj c
    rw [hadvance]
    refine ⟨hi.drop hfresh c, hguar, ?_, hk.jumped, hk.live, hF _ _ hguar.lasts hk.facts⟩
    rw [Node.drop, AList.lookup_erase]

variable {ipt : Iptables} {J : Type} {j : J}

omit hinj in
/-- A command whose response is not looked at. -/
theorem safe_ignored {o : Command} {P Q : Node C → Prop} (hP : Stable ids c P) (hQ : Stable ids c Q)
    (hmoves : Moves ids t₀ c o P fun _ => Q) (hi : Inv ids t₀ s) (hs : P s) :
    SafeIn ids t₀ c j (fun _ => Q)
      (do let _ ← (Program.send o : TableProgram (Except String Output))) s := by
  refine Contract.Safe.bind (safe_send hP (fun _ => hQ) hmoves hs) hi ?_
  rintro - s₁ - ⟨-, -, hq⟩
  exact fun s₂ hr _ => hQ _ _ hr hq

/-- Nothing of the container remains. -/
theorem safe_remove (hfresh : Fresh ids t₀) (hF : Lasting F) (hown : jumped → own.isSome)
    (hi : Inv ids t₀ s) (hk : Knows ids c own jumped pubs F s) :
    SafeIn ids t₀ c j (fun _ s' => Knows ids c none False pubs F s') (remove ipt (ids c)) s := by
  have hstable : ∀ own jumped, Stable ids c (Knows ids c own jumped pubs F) :=
    fun _ _ => Knows.stable hF
  have hempty : (own.map fun _ => ([] : List Rule)) = none ∨
      (own.map fun _ => ([] : List Rule)) = some [] := by
    cases own with
    | none => exact .inl rfl
    | some rs => exact .inr rfl
  refine Contract.Safe.bind (safe_ignored (hstable _ _) (hstable _ _)
    (moves_deleteJump hinj hF hown) hi hk) hi fun _ s₁ hi₁ hk₁ => ?_
  refine Contract.Safe.bind (safe_send (hstable _ _) (fun _ => hstable _ _) (moves_flush hinj hF)
    hk₁) hi₁ ?_
  rintro - s₂ hi₂ ⟨-, -, hk₂⟩
  exact safe_ignored (hstable _ _) (hstable _ _) (moves_deleteChain hinj hfresh hF hempty) hi₂ hk₂

end

end FlannelRs.PortmapOperations
