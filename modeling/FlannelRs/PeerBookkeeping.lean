import FlannelRs.PeerFailures

/-!
# The installed peers in the memory of `flanneld`, whatever fails
-/

namespace FlannelRs.PeerBookkeeping
open InteractionPrograms CniTypes Flanneld PeerFailures
open PeerReconciliation (peerB peersB emptyKernel)

/-- Every peer stands under the name of its node. -/
def Keyed (m : PeerMap) : Prop := ∀ n p, m.lookup n = some p → p.node = n

/-- At most one removal, of the installed peer, and then at most one addition, of the
desired one. -/
def actionsAt (old new : Option Peer) : List Action :=
  match old, new with
  | some old, some new => if new ≠ old then [.remove old, .add new] else []
  | some old, none => [.remove old]
  | none, some new => [.add new]
  | none, none => []

theorem filter_flatMap_entries {m : PeerMap} {f : (Sigma fun _ : String => Peer) → List Action}
    (hf : ∀ e ∈ m.entries, ∀ a ∈ f e, actionNode a = e.1) (n : String) :
    (m.entries.flatMap f).filter (fun a => actionNode a = n) =
      (m.lookup n).elim [] fun p => f ⟨n, p⟩ := by
  obtain ⟨l, hl⟩ := m
  change (l.flatMap f).filter _ = (l.dlookup n).elim [] fun p => f ⟨n, p⟩
  change ∀ e ∈ l, _ at hf
  induction l with
  | nil => rfl
  | cons e l ih =>
    obtain ⟨n', p⟩ := e
    obtain ⟨hnot, hl⟩ := List.nodupKeys_cons.mp hl
    obtain ⟨he, hf⟩ := List.forall_mem_cons.mp hf
    rw [List.flatMap_cons, List.filter_append, ih hl hf]
    by_cases hn : n = n'
    · subst hn
      have hfree : l.dlookup n = none := List.dlookup_eq_none.mpr hnot
      have hall : (f ⟨n, p⟩).filter (fun a => actionNode a = n) = f ⟨n, p⟩ :=
        List.filter_eq_self.mpr fun a ha => by simp [he a ha]
      rw [hall, hfree, List.dlookup_cons_eq]
      simp
    · have hnone : (f ⟨n', p⟩).filter (fun a => actionNode a = n) = [] := by
        apply List.filter_eq_nil_iff.mpr
        intro a ha
        rw [he a ha]
        simpa using Ne.symm hn
      rw [hnone, List.nil_append, List.dlookup_cons_ne l (⟨n', p⟩ : Sigma fun _ : String => Peer) hn]

variable {installed desired next : PeerMap}

theorem filter_reconcile (hi : Keyed installed) (hd : Keyed desired) (n : String) :
    (reconcile installed desired).filter (fun a => actionNode a = n) =
      actionsAt (installed.lookup n) (desired.lookup n) := by
  rw [reconcile, List.filter_append, filter_flatMap_entries, filter_flatMap_entries]
  · cases hold : installed.lookup n with
    | none =>
      have hnot : n ∉ installed := AList.lookup_eq_none.mp hold
      cases desired.lookup n <;> simp [actionsAt, hnot]
    | some old =>
      have hin : n ∈ installed := AList.lookup_isSome.mp (by simp [hold])
      cases hnew : desired.lookup n with
      | none => simp [actionsAt, hnew]
      | some new => simp [actionsAt, hnew, hin]
  · intro e he a ha
    by_cases hin : e.1 ∈ installed
    · simp [hin] at ha
    · obtain rfl : a = .add e.2 := by simpa [hin] using ha
      exact hd e.1 e.2 (AList.mem_lookup_iff.mpr he)
  · intro e he a ha
    exact actionNode_of_mem_replacements hi hd he ha

/-- An action of the diff is one at its own node. -/
theorem mem_reconcile (hi : Keyed installed) (hd : Keyed desired) (a : Action) :
    a ∈ reconcile installed desired ↔
      a ∈ actionsAt (installed.lookup (actionNode a)) (desired.lookup (actionNode a)) := by
  rw [← filter_reconcile hi hd, List.mem_filter]
  simp

theorem nodup_actionsAt (old new : Option Peer) : (actionsAt old new).Nodup := by
  unfold actionsAt
  split
  · split <;> simp
  · simp
  · simp
  · simp

/-- No action stands twice in the diff. -/
theorem nodup_reconcile (hi : Keyed installed) (hd : Keyed desired) :
    (reconcile installed desired).Nodup := by
  classical
  apply List.nodup_iff_count_le_one.mpr
  intro a
  have hcount : (reconcile installed desired).count a =
      ((reconcile installed desired).filter fun b => actionNode b = actionNode a).count a :=
    (List.count_filter (by simp)).symm
  rw [hcount, filter_reconcile hi hd]
  exact List.nodup_iff_count_le_one.mp (nodup_actionsAt _ _) a

/-- What an action leaves in the memory, given which additions succeed. -/
def record (added : Peer → Bool) (next : PeerMap) : Action → PeerMap
  | .add p => if added p then next.insert p.node p else next.erase p.node
  | .remove p => next.erase p.node

/-- What it leaves there for its own node. -/
def recordAt (added : Peer → Bool) : Action → Option Peer
  | .add p => if added p then some p else none
  | .remove _ => none

theorem lookup_record (added : Peer → Bool) (next : PeerMap) (a : Action) (n : String) :
    (record added next a).lookup n =
      if actionNode a = n then recordAt added a else next.lookup n := by
  cases a with
  | add p =>
    by_cases hn : p.node = n
    · subst hn
      cases hadded : added p <;> simp [record, recordAt, hadded, actionNode]
    · cases hadded : added p <;>
        simp [record, hadded, actionNode, hn, AList.lookup_insert_ne (Ne.symm hn),
          AList.lookup_erase_ne (Ne.symm hn)]
  | remove p =>
    by_cases hn : p.node = n
    · subst hn
      simp [record, recordAt, actionNode]
    · simp [record, actionNode, hn, AList.lookup_erase_ne (Ne.symm hn)]

/-- Only the actions at a node decide what is held for it. -/
theorem lookup_foldl_record (added : Peer → Bool) (as : List Action) (next : PeerMap)
    (n : String) : (as.foldl (record added) next).lookup n =
      (as.filter fun a => actionNode a = n).foldl (fun _ a => recordAt added a)
        (next.lookup n) := by
  induction as generalizing next with
  | nil => rfl
  | cons a as ih =>
    rw [List.foldl_cons, ih, lookup_record]
    by_cases hn : actionNode a = n
    · simp [hn]
    · simp [hn]

/-- The desired peers that were held already or could be added. -/
theorem lookup_recorded (hi : Keyed installed) (hd : Keyed desired) (added : Peer → Bool)
    (n : String) (p : Peer) :
    ((reconcile installed desired).foldl (record added) installed).lookup n = some p ↔
      desired.lookup n = some p ∧ (installed.lookup n = some p ∨ added p = true) := by
  rw [lookup_foldl_record, filter_reconcile hi hd]
  cases installed.lookup n with
  | none =>
    cases desired.lookup n with
    | none => simp [actionsAt]
    | some new =>
      simp [actionsAt, recordAt]
      grind
  | some old =>
    cases desired.lookup n with
    | none => simp [actionsAt, recordAt]
    | some new =>
      by_cases hne : new = old
      · simp [actionsAt, hne]
        grind
      · simp [actionsAt, hne, recordAt]
        grind

theorem add_mem_actionsAt {old new : Option Peer} {p : Peer} :
    Action.add p ∈ actionsAt old new ↔ new = some p ∧ old ≠ some p := by
  unfold actionsAt
  split
  · rename_i old new
    by_cases hne : new = old
    · simp [hne]
    · simp only [ne_eq, hne, not_false_eq_true, if_true, List.mem_cons, reduceCtorEq,
        Action.add.injEq, List.not_mem_nil, or_false, false_or, Option.some.injEq]
      constructor
      · rintro rfl
        exact ⟨rfl, Ne.symm hne⟩
      · exact fun h => h.1.symm
  · simp
  · simp [eq_comm]
  · simp

theorem remove_mem_actionsAt {old new : Option Peer} {p : Peer} :
    Action.remove p ∈ actionsAt old new ↔ old = some p ∧ new ≠ some p := by
  unfold actionsAt
  split
  · rename_i old new
    by_cases hne : new = old
    · simp [hne]
    · simp [hne]
      grind
  · simp [eq_comm]
  · simp
  · simp

/-- What the next call does at a node: only what failed is tried again. -/
theorem actionsAt_again {old new held : Option Peer} {added : Peer → Bool}
    (h : ∀ p, held = some p ↔ new = some p ∧ (old = some p ∨ added p = true)) (a : Action) :
    a ∈ actionsAt held new ↔
      ∃ p, a = .add p ∧ Action.add p ∈ actionsAt old new ∧ added p = false := by
  cases new with
  | none =>
    have hheld : held = none := Option.eq_none_iff_forall_ne_some.mpr fun p hp => by
      simpa using (h p).mp hp
    rw [hheld]
    simp only [add_mem_actionsAt]
    simp [actionsAt]
  | some new =>
    simp only [add_mem_actionsAt, Option.some.injEq]
    by_cases hok : old = some new ∨ added new = true
    · have hheld : held = some new := (h new).mpr ⟨rfl, hok⟩
      rw [hheld]
      simp only [actionsAt, ne_eq, not_true_eq_false, if_false, List.not_mem_nil, false_iff]
      rintro ⟨p, -, ⟨rfl, hold⟩, hfalse⟩
      rcases hok with hok | hok
      · exact hold hok
      · rw [hfalse] at hok
        cases hok
    · have hheld : held = none := Option.eq_none_iff_forall_ne_some.mpr fun p hp => by
        obtain ⟨hp, hor⟩ := (h p).mp hp
        exact hok (Option.some.inj hp ▸ hor)
      rw [hheld]
      simp only [not_or, Bool.not_eq_true] at hok
      simp only [actionsAt, List.mem_singleton]
      constructor
      · rintro rfl
        exact ⟨new, rfl, ⟨rfl, hok.1⟩, hok.2⟩
      · rintro ⟨p, rfl, ⟨rfl, -⟩, -⟩
        rfl

/-- What a call has done when it returns, given which additions succeeded. The next call
may walk through its maps in another order. -/
structure Bookkept (installed desired next : PeerMap) (added : Peer → Bool) : Prop where
  held : ∀ n p, next.lookup n = some p ↔
    desired.lookup n = some p ∧ (installed.lookup n = some p ∨ added p = true)
  keyed : Keyed next
  again : ∀ next' desired' : PeerMap, next'.entries.Perm next.entries →
    desired'.entries.Perm desired.entries → (reconcile next' desired').Nodup ∧
      ∀ a, a ∈ reconcile next' desired' ↔
        ∃ p, a = .add p ∧ Action.add p ∈ reconcile installed desired ∧ added p = false
  converged : (∀ p, Action.add p ∈ reconcile installed desired → added p = true) →
    (∀ n, next.lookup n = desired.lookup n) ∧
      ∀ next' desired' : PeerMap, next'.entries.Perm next.entries →
        desired'.entries.Perm desired.entries → reconcile next' desired' = []

theorem bookkept (hi : Keyed installed) (hd : Keyed desired) (added : Peer → Bool) :
    Bookkept installed desired ((reconcile installed desired).foldl (record added) installed)
      added := by
  have hheld := lookup_recorded hi hd added
  generalize (reconcile installed desired).foldl (record added) installed = next at hheld
  have hn : Keyed next := fun n p hp => hd n p ((hheld n p).mp hp).1
  have hagain : ∀ next' desired' : PeerMap, next'.entries.Perm next.entries →
      desired'.entries.Perm desired.entries → (reconcile next' desired').Nodup ∧
        ∀ a, a ∈ reconcile next' desired' ↔
          ∃ p, a = .add p ∧ Action.add p ∈ reconcile installed desired ∧ added p = false := by
    intro next' desired' hnext' hdesired'
    have hl : ∀ n, next'.lookup n = next.lookup n := fun n => AList.perm_lookup hnext'
    have hl' : ∀ n, desired'.lookup n = desired.lookup n := fun n => AList.perm_lookup hdesired'
    have hn' : Keyed next' := fun n p hp => hn n p (hl n ▸ hp)
    have hd' : Keyed desired' := fun n p hp => hd n p (hl' n ▸ hp)
    refine ⟨nodup_reconcile hn' hd', fun a => ?_⟩
    rw [mem_reconcile hn' hd', hl, hl', actionsAt_again (hheld (actionNode a))]
    constructor
    · rintro ⟨p, rfl, hp, hfalse⟩
      exact ⟨p, rfl, (mem_reconcile hi hd _).mpr hp, hfalse⟩
    · rintro ⟨p, rfl, hp, hfalse⟩
      exact ⟨p, rfl, (mem_reconcile hi hd _).mp hp, hfalse⟩
  refine ⟨hheld, hn, hagain, fun hall => ⟨fun n => ?_, fun next' desired' hnext' hdesired' => ?_⟩⟩
  · apply Option.ext
    intro p
    rw [hheld]
    refine ⟨fun h => h.1, fun hp => ⟨hp, ?_⟩⟩
    by_cases hold : installed.lookup n = some p
    · exact .inl hold
    · have hnode := hd n p hp
      have hadd : Action.add p ∈ reconcile installed desired := by
        rw [mem_reconcile hi hd, add_mem_actionsAt, actionNode, hnode]
        exact ⟨hp, hold⟩
      exact .inr (hall p hadd)
  · apply List.eq_nil_iff_forall_not_mem.mpr
    intro a ha
    obtain ⟨p, -, hadd, hfalse⟩ := ((hagain next' desired' hnext' hdesired').2 a).mp ha
    rw [hall p hadd] at hfalse
    cases hfalse

theorem lookup_foldl_insert {l : List (String × Peer)} (h : (l.map Prod.fst).Nodup) (m : PeerMap)
    (n : String) (p : Peer) :
    (l.foldl (fun (out : PeerMap) e => out.insert e.1 e.2) m).lookup n = some p ↔
      (n, p) ∈ l ∨ n ∉ l.map Prod.fst ∧ m.lookup n = some p := by
  induction l generalizing m with
  | nil => simp
  | cons e l ih =>
    obtain ⟨hnot, hl⟩ := List.nodup_cons.mp (List.map_cons ▸ h)
    rw [List.foldl_cons, ih hl]
    by_cases hn : n = e.1
    · subst hn
      have hfree : ∀ q, (e.1, q) ∉ l := fun q hq => hnot (List.mem_map.mpr ⟨(e.1, q), hq, rfl⟩)
      rw [AList.lookup_insert]
      constructor
      · rintro (hq | ⟨-, hq⟩)
        · exact absurd hq (hfree p)
        · exact .inl (by simp [← Option.some.inj hq])
      · rintro (hq | ⟨hq, -⟩)
        · rcases List.mem_cons.mp hq with hq | hq
          · exact .inr ⟨hnot, by rw [← hq]⟩
          · exact absurd hq (hfree p)
        · simp at hq
    · rw [AList.lookup_insert_ne hn]
      have hne : (n, p) ≠ e := fun h => hn (by rw [← h])
      simp [hn, hne]

section

variable [Crates] {nodes : List Node} {selfName : String} {backend : BackendType} {dev : ℕ}

/-- What a node contributes to the desired peers. -/
def desiredEntry (selfName : String) (backend : BackendType) (n : Node) :
    Option (String × Peer) :=
  if n.name.getD "" = selfName then none
  else (nodeToPeer n backend).map fun p => (n.name.getD "", p)

theorem desiredFromNodes_eq : desiredFromNodes nodes selfName backend =
    (nodes.filterMap (desiredEntry selfName backend)).foldl
      (fun (out : PeerMap) e => out.insert e.1 e.2) ∅ := by
  rw [List.foldl_filterMap, desiredFromNodes]
  congr
  funext out n
  unfold desiredEntry
  by_cases hself : n.name.getD "" = selfName
  · simp [hself]
  · cases nodeToPeer n backend <;> simp [hself]

theorem desiredEntry_eq_some {node : Node} {n : String} {p : Peer} :
    desiredEntry selfName backend node = some (n, p) ↔
      n ≠ selfName ∧ node.name = some n ∧ nodeToPeer node backend = some p := by
  unfold desiredEntry
  cases hpeer : nodeToPeer node backend with
  | none => simp
  | some q =>
    have hname := nodeToPeer_node hpeer
    simp only [hname, Option.getD_some, Option.map_some, Option.ite_none_left_eq_some,
      Option.some.injEq, Prod.mk.injEq]
    constructor
    · rintro ⟨hself, rfl, rfl⟩
      exact ⟨hself, rfl, rfl⟩
    · rintro ⟨hself, rfl, rfl⟩
      exact ⟨hself, rfl, rfl⟩

/-- Exactly the complete nodes, without the own one. -/
theorem lookup_desiredFromNodes (hnames : (nodes.map Node.name).Nodup) (n : String) (p : Peer) :
    (desiredFromNodes nodes selfName backend).lookup n = some p ↔
      n ≠ selfName ∧ ∃ node ∈ nodes, node.name = some n ∧ nodeToPeer node backend = some p := by
  have hkeys : ((nodes.filterMap (desiredEntry selfName backend)).map Prod.fst).Nodup := by
    refine List.pairwise_map.mpr (List.pairwise_filterMap.mpr ?_)
    refine (List.pairwise_map.mp hnames).imp fun {a b} hne e he e' he' h => hne ?_
    obtain ⟨-, ha, -⟩ := desiredEntry_eq_some.mp he
    obtain ⟨-, hb, -⟩ := desiredEntry_eq_some.mp he'
    rw [ha, hb, h]
  rw [desiredFromNodes_eq, lookup_foldl_insert hkeys]
  simp [List.mem_filterMap, desiredEntry_eq_some]
  tauto

/-- The actions run one after the other, and the additions succeed as assigned. -/
inductive Ran {σ : Type} (answers : Environment σ PeerOp PeerRes) (backend : BackendType)
    (dev : ℕ) (added : Peer → Bool) : σ → List Action → σ → Prop where
  | nil (s : σ) : Ran answers backend dev added s [] s
  | add {s s₁ s₂ : σ} {p : Peer} {as : List Action}
      (first : Exec answers s (addPeer backend dev p) (added p) s₁)
      (rest : Ran answers backend dev added s₁ as s₂) :
      Ran answers backend dev added s (.add p :: as) s₂
  | remove {s s₁ s₂ : σ} {p : Peer} {as : List Action}
      (first : Exec answers s (removePeer backend dev p) () s₁)
      (rest : Ran answers backend dev added s₁ as s₂) :
      Ran answers backend dev added s (.remove p :: as) s₂

variable {σ : Type} {answers : Environment σ PeerOp PeerRes} {s s' : σ} {as : List Action}
  {added : Peer → Bool}

/-- What is assigned to other peers is not looked at. -/
theorem Ran.congr (h : Ran answers backend dev added s as s') {added' : Peer → Bool}
    (hsame : ∀ p, Action.add p ∈ as → added' p = added p) :
    Ran answers backend dev added' s as s' := by
  induction h with
  | nil s => exact .nil s
  | add first rest ih =>
    refine .add ?_ (ih fun p hp => hsame p (List.mem_cons_of_mem _ hp))
    rwa [hsame _ List.mem_cons_self]
  | remove first rest ih => exact .remove first (ih fun p hp => hsame p (List.mem_cons_of_mem _ hp))

/-- Every execution of the loop has such an assignment. -/
theorem exists_ran (hnodup : as.Nodup) {next next' : PeerMap}
    (h : Exec answers s (as.foldlM (applyAction backend dev) next) next' s') :
    ∃ added, Ran answers backend dev added s as s' ∧ next' = as.foldl (record added) next := by
  induction as generalizing s next with
  | nil =>
    cases h with
    | ret => exact ⟨fun _ => true, .nil _, rfl⟩
  | cons a as ih =>
    obtain ⟨hnot, hnodup⟩ := List.nodup_cons.mp hnodup
    rw [List.foldlM_cons] at h
    obtain ⟨next₁, s₁, hfirst, hrest⟩ := h.of_bind
    obtain ⟨added, hran, rfl⟩ := ih hnodup hrest
    cases a with
    | remove p =>
      obtain ⟨_, s₂, hremove, hret⟩ := Exec.of_bind hfirst
      cases hret
      exact ⟨added, .remove hremove hran, rfl⟩
    | add p =>
      obtain ⟨ok, s₂, hadd, hret⟩ := Exec.of_bind hfirst
      -- the peer is added only here, so that the assignment may be changed for it
      let assigned (q : Peer) : Bool := if q = p then ok else added q
      have hok : assigned p = ok := if_pos rfl
      have hothers : ∀ q, Action.add q ∈ as → assigned q = added q := by
        intro q hq
        have hne : q ≠ p := by
          rintro rfl
          exact hnot hq
        exact if_neg hne
      have hnext : next₁ = record assigned next (.add p) ∧ s₁ = s₂ := by
        cases ok with
        | true =>
          cases hret
          exact ⟨by rw [record, hok, if_pos rfl], rfl⟩
        | false =>
          cases hret
          exact ⟨by rw [record, hok]; rfl, rfl⟩
      obtain ⟨rfl, rfl⟩ := hnext
      refine ⟨assigned, .add (hok ▸ hadd) (hran.congr hothers), ?_⟩
      rw [List.foldl_cons]
      apply List.foldl_ext
      intro next a ha
      cases a with
      | add q => rw [record, record, hothers q ha]
      | remove q => rfl

theorem keyed_desiredFromNodes : Keyed (desiredFromNodes nodes selfName backend) :=
  fun _ _ hp => desiredFromNodes_node hp

end

/-- One call, for every order in which the two maps are walked through, and for every kernel. -/
theorem reconcile_bookkeeping [Crates] (nodes : List Node) (selfName : String)
    (backend : BackendType) (dev : ℕ) (installed desired : PeerMap)
    (hnames : (nodes.map Node.name).Nodup) (hi : Keyed installed)
    (horder : desired.entries.Perm (desiredFromNodes nodes selfName backend).entries) :
    (∀ n p, desired.lookup n = some p ↔
      n ≠ selfName ∧ ∃ node ∈ nodes, node.name = some n ∧ nodeToPeer node backend = some p) ∧
    (∀ nodes' : List Node, nodes'.Perm nodes → ∀ n,
      (desiredFromNodes nodes' selfName backend).lookup n = desired.lookup n) ∧
    (∀ n, (reconcile installed desired).filter (fun a => actionNode a = n) =
      actionsAt (installed.lookup n) (desired.lookup n)) ∧
    ∀ (σ : Type) (answers : Environment σ PeerOp PeerRes) (s : σ),
      ((∀ s o, ∃ r s', answers s o r s') →
        ∃ next s', Exec answers s (reconcilePeers backend dev installed desired) next s') ∧
      ∀ next s', Exec answers s (reconcilePeers backend dev installed desired) next s' →
        ∃ added, Ran answers backend dev added s (reconcile installed desired) s' ∧
          Bookkept installed desired next added := by
  have hsame : ∀ n, desired.lookup n = (desiredFromNodes nodes selfName backend).lookup n :=
    fun n => AList.perm_lookup horder
  have hd : Keyed desired := fun n p hp => keyed_desiredFromNodes n p (hsame n ▸ hp)
  have hlookup : ∀ n p, desired.lookup n = some p ↔
      n ≠ selfName ∧ ∃ node ∈ nodes, node.name = some n ∧ nodeToPeer node backend = some p := by
    intro n p
    rw [hsame, lookup_desiredFromNodes hnames]
  refine ⟨hlookup, fun nodes' hperm n => ?_, filter_reconcile hi hd, fun σ answers s => ⟨?_, ?_⟩⟩
  · have hnames' : (nodes'.map Node.name).Nodup := (hperm.map Node.name).nodup_iff.mpr hnames
    apply Option.ext
    intro p
    rw [lookup_desiredFromNodes hnames', hlookup]
    simp only [hperm.mem_iff]
  · exact fun htotal => Exec.exists_of_total htotal _ s
  · intro next s' hexec
    obtain ⟨added, hran, rfl⟩ := exists_ran (nodup_reconcile hi hd) hexec
    exact ⟨added, hran, bookkept hi hd added⟩

def nodeC : Node where
  name := some "c"
  annotations := some ((AList.singleton (annotationKey "public-ip") "172.18.0.4").insert
    (annotationKey "backend-data") "\x7b\"VtepMAC\":\"0a:00:00:00:00:0c\"\x7d")
  podCidr := some "10.244.3.0/24"

def peerC : Peer := ⟨"c", "10.244.3.0/24", "172.18.0.4", some "0a:00:00:00:00:0c"⟩

/-- The route to node `c`. -/
def isRouteToC : PeerOp → Bool
  | .addRoute m => m.dst = .ofOctets 10 244 3 0
  | _ => false

def desiredBC : PeerMap := @desiredFromNodes Crates.compact [nodeB, nodeC] "a" .vxlan

theorem reconcile_desiredBC : reconcile (peersB "10.244.9.0/24") desiredBC =
    [.remove (peerB "10.244.9.0/24"), .add (peerB "10.244.2.0/24"), .add peerC] := by
  decide +kernel

/-- Node `b` has got another PodCIDR, node `c` is new, and its route is refused. -/
def calledBC : Option (PeerMap × State) :=
  (@reconcileFromStore Crates.compact [nodeB, nodeC] "a" 7 .vxlan (peersB "10.244.9.0/24")).run
    (fun o s => some (respond isRouteToC o s)) ⟨emptyKernel, false⟩

theorem calledBC_next : calledBC.map (fun r => r.1.entries) =
    some [⟨"b", peerB "10.244.2.0/24"⟩] := by
  decide +kernel

/-- The call replaces node `b` in the memory and leaves node `c` out, and the next one with the
same nodes adds node `c` only. -/
theorem reconcile_bookkeeping_refused : ∃ next : PeerMap,
    next.lookup "b" = some (peerB "10.244.2.0/24") ∧ next.lookup "c" = none ∧
    ∀ a, a ∈ reconcile next desiredBC ↔ a = .add peerC := by
  obtain ⟨⟨next, s'⟩, hrun, he⟩ := Option.map_eq_some_iff.mp calledBC_next
  have hexec : Exec Answers ⟨emptyKernel, false⟩
      (@reconcileFromStore Crates.compact [nodeB, nodeC] "a" 7 .vxlan (peersB "10.244.9.0/24"))
      next s' := by
    unfold calledBC at hrun
    refine Program.exec_of_run (fun o s r s₁ hr => ?_) hrun
    obtain rfl := (congrArg Prod.fst (Option.some.inj hr)).symm
    obtain rfl := (congrArg Prod.snd (Option.some.inj hr)).symm
    exact respond_answers _ o s
  obtain rfl : next = peersB "10.244.2.0/24" := AList.ext he
  have hinstalled : Keyed (peersB "10.244.9.0/24") := by
    intro n p hp
    have hmem := AList.mem_lookup_iff.mp hp
    obtain ⟨rfl, rfl⟩ := by simpa [peersB] using hmem
    rfl
  have hnames : ([nodeB, nodeC].map Node.name).Nodup := by decide +kernel
  obtain ⟨-, -, -, hcalls⟩ := @reconcile_bookkeeping Crates.compact [nodeB, nodeC] "a" .vxlan 7
    (peersB "10.244.9.0/24") desiredBC hnames hinstalled (.refl _)
  obtain ⟨added, -, hkept⟩ := (hcalls State Answers ⟨emptyKernel, false⟩).2 _ s' hexec
  have hb : (peersB "10.244.2.0/24").lookup "b" = some (peerB "10.244.2.0/24") := lookup_peersB _
  have hc : (peersB "10.244.2.0/24").lookup "c" = none := by decide +kernel
  have haddedB : added (peerB "10.244.2.0/24") = true := by
    obtain ⟨-, hsame | hadded⟩ := (hkept.held _ _).mp hb
    · rw [lookup_peersB] at hsame
      have hne : peerB "10.244.9.0/24" ≠ peerB "10.244.2.0/24" := by decide +kernel
      exact absurd (Option.some.inj hsame) hne
    · exact hadded
  have haddedC : added peerC = false := by
    rw [Bool.eq_false_iff]
    intro hadded
    have hdesired : desiredBC.lookup "c" = some peerC := by decide +kernel
    rw [(hkept.held _ _).mpr ⟨hdesired, .inr hadded⟩] at hc
    cases hc
  refine ⟨_, hb, hc, fun a => ?_⟩
  rw [(hkept.again _ _ (.refl _) (.refl _)).2 a, reconcile_desiredBC]
  constructor
  · rintro ⟨p, rfl, hmem, hnot⟩
    simp only [List.mem_cons, reduceCtorEq, Action.add.injEq, List.not_mem_nil, or_false,
      false_or] at hmem
    rcases hmem with rfl | rfl
    · rw [haddedB] at hnot
      cases hnot
    · rfl
  · rintro rfl
    exact ⟨peerC, rfl, by simp, haddedC⟩

end FlannelRs.PeerBookkeeping
