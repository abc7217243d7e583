import FlannelRs.HostNetworking
import FlannelRs.TracedPrograms

/-!
# What a failed bridge ADD leaves of its veth pair

The interfaces of all namespaces, as the requests of one ADD change them. Every request may
fail, and then it changes nothing.
-/

namespace FlannelRs.BridgeTeardown
open InteractionPrograms Ipv4Addresses CniTypes Bridge HostNetworking

/-- A network interface. The ends of a veth pair name their pair. -/
structure Link where
  ns : ℕ
  idx : ℕ
  name : String
  pair : Option ℕ
  deriving DecidableEq

/-- The interfaces of all namespaces, no two in one with the same index or name. -/
structure Links where
  all : List Link
  distinct : all.Pairwise fun a b => a.ns = b.ns → a.idx ≠ b.idx ∧ a.name ≠ b.name

/-- The namespaces that paths and open files lead to, and that of the host. -/
structure Namespaces where
  host : ℕ
  path : String → ℕ
  file : ℕ → ℕ

def Namespaces.ofRequest (n : Namespaces) : Option String → ℕ
  | none => n.host
  | some path => n.path path

namespace Links

def replace (s : Links) (l l' : Link) : List Link := s.all.map fun x => if x = l then l' else x

/-- The other end goes with the one that is deleted. -/
def delete (s : Links) (l : Link) : List Link :=
  s.all.filter fun x => x ≠ l ∧ (l.pair = none ∨ x.pair ≠ l.pair)

/-- How the kernel answers one system call. A delegate does not touch interfaces. -/
def Answers (n : Namespaces) (s : Links) : (o : SysOp) → SysRes o → Links → Prop
  | .netlink ns (.getLink name), r, t => t = s ∧ match r with
    | .ok (some idx) => ∃ l ∈ s.all, l.ns = n.ofRequest ns ∧ l.name = name ∧ l.idx = idx
    | .ok none => ∀ l ∈ s.all, l.ns = n.ofRequest ns → l.name ≠ name
    | .error e => e.code = some (-19) → ∀ l ∈ s.all, l.ns = n.ofRequest ns → l.name ≠ name
  | .netlink ns (.addBridge name), .ok _, t =>
    ∃ idx, t.all = ⟨n.ofRequest ns, idx, name, none⟩ :: s.all
  | .netlink ns (.addVeth host peer), .ok _, t =>
    ∃ i j q, (∀ l ∈ s.all, l.pair ≠ some q) ∧
      t.all = ⟨n.ofRequest ns, i, host, some q⟩ :: ⟨n.ofRequest ns, j, peer, some q⟩ :: s.all
  | .netlink ns (.setName idx name), .ok _, t =>
    ∃ l ∈ s.all, l.ns = n.ofRequest ns ∧ l.idx = idx ∧ t.all = s.replace l { l with name }
  | .netlink ns (.setNs idx fd), .ok _, t =>
    ∃ l ∈ s.all, l.ns = n.ofRequest ns ∧ l.idx = idx ∧
      ∃ idx', t.all = s.replace l { l with ns := n.file fd, idx := idx' }
  | .netlink ns (.delLink idx), .ok _, t =>
    ∃ l ∈ s.all, l.ns = n.ofRequest ns ∧ l.idx = idx ∧ t.all = s.delete l
  | .openFile path, .ok fd, t => t = s ∧ n.file fd = n.path path
  | _, _, t => t = s

/-- The veth pairs of which there is an end. -/
def pairs (s : Links) : Set ℕ := {q | ∃ l ∈ s.all, l.pair = some q}

end Links

/-- The answers of system calls, in their order. -/
abbrev Log := List (Answered SysOp SysRes)

def created (host peer : String) : Answered SysOp SysRes :=
  ⟨.netlink none (.addVeth host peer), .ok ()⟩

def Found (name : String) (log : Log) : Prop :=
  ∃ idx, (⟨.netlink none (.getLink name), .ok (some idx)⟩ : Answered SysOp SysRes) ∈ log

/-- Both ends are found and the namespace of the container can be opened. -/
structure Usable (host peer netns : String) (log : Log) : Prop where
  host : Found host log
  peer : Found peer log
  netns : ∃ fd, (⟨.openFile netns, .ok fd⟩ : Answered SysOp SysRes) ∈ log

variable {n : Namespaces} {s t : Links} {host peer netns : String} {q i j : ℕ}

/-- The interface at an index of the host is an end of the pair. -/
def Standing (n : Namespaces) (q i : ℕ) (s : Links) : Prop :=
  ∃ l ∈ s.all, l.ns = n.host ∧ l.idx = i ∧ l.pair = some q

/-- The pairs and the ends on the host are the same. -/
structure Kept (n : Namespaces) (s t : Links) : Prop where
  pairs : t.pairs = s.pairs
  standing : ∀ q i, Standing n q i s → Standing n q i t

theorem Kept.refl (s : Links) : Kept n s s := ⟨rfl, fun _ _ h => h⟩

theorem Kept.trans {u : Links} (h : Kept n s t) (h' : Kept n t u) : Kept n s u :=
  ⟨h'.pairs.trans h.pairs, fun q i hs => h'.standing q i (h.standing q i hs)⟩

/-- Calls that neither make, move nor delete a pair. -/
def Plain : SysOp → Prop
  | .netlink _ req => Benign req
  | _ => True

theorem pairs_replace {l l' : Link} (hpair : l'.pair = l.pair) (ht : t.all = s.replace l l') :
    t.pairs = s.pairs := by
  ext q
  simp only [Links.pairs, Set.mem_ofPred_eq, ht, Links.replace, List.mem_map]
  constructor
  · rintro ⟨_, ⟨x, hx, rfl⟩, hq⟩
    refine ⟨x, hx, ?_⟩
    split at hq
    · rename_i heq
      rw [heq, ← hpair, hq]
    · exact hq
  · rintro ⟨x, hx, hq⟩
    refine ⟨_, ⟨x, hx, rfl⟩, ?_⟩
    split
    · rename_i heq
      rw [hpair, ← heq, hq]
    · exact hq

theorem standing_replace {l l' : Link} (hpair : l'.pair = l.pair)
    (hkey : l.ns = n.host → l.idx = i → l'.ns = n.host ∧ l'.idx = i)
    (ht : t.all = s.replace l l') (h : Standing n q i s) : Standing n q i t := by
  obtain ⟨x, hx, hns, hidx, hq⟩ := h
  rw [Standing, ht]
  by_cases heq : x = l
  · subst heq
    obtain ⟨hns', hidx'⟩ := hkey hns hidx
    exact ⟨l', List.mem_map.mpr ⟨x, hx, if_pos rfl⟩, hns', hidx', hpair.trans hq⟩
  · exact ⟨x, List.mem_map.mpr ⟨x, hx, if_neg heq⟩, hns, hidx, hq⟩

theorem kept_of_addBridge {ns idx : ℕ} {name : String} (ht : t.all = ⟨ns, idx, name, none⟩ :: s.all) :
    Kept n s t := by
  constructor
  · ext q
    simp [Links.pairs, ht]
  · rintro q i ⟨l, hl, hkey⟩
    refine ⟨l, ?_, hkey⟩
    rw [ht]
    exact List.mem_cons_of_mem _ hl

theorem kept_of_plain {o : SysOp} {r : SysRes o} (ho : Plain o) (h : s.Answers n o r t) :
    Kept n s t := by
  have hsame : t = s → Kept n s t := by
    rintro rfl
    exact .refl t
  cases o with
  | netlink ns req =>
    cases req with
    | addVeth host peer => exact ho.elim
    | setNs idx fd => exact ho.elim
    | delLink idx => exact ho.elim
    | getLink name => exact hsame h.1
    | addBridge name =>
      cases r with
      | error e => exact hsame h
      | ok a =>
        obtain ⟨idx, ht⟩ := h
        exact kept_of_addBridge ht
    | setName idx name =>
      cases r with
      | error e => exact hsame h
      | ok a =>
        obtain ⟨l, -, hns, hidx, ht⟩ := h
        have hkey : ∀ i, l.ns = n.host → l.idx = i → l.ns = n.host ∧ l.idx = i :=
          fun i hns' hidx' => ⟨hns', hidx'⟩
        have hpair : { l with name : Link }.pair = l.pair := rfl
        exact ⟨pairs_replace hpair ht, fun q i => standing_replace hpair (hkey i) ht⟩
    | setMtu idx mtu => exact hsame h
    | setUp idx => exact hsame h
    | setController idx bridgeIdx => exact hsame h
    | addAddress idx addr len => exact hsame h
    | addRoute dst len gw idx => exact hsame h
  | openFile path =>
    cases r with
    | error e => exact hsame h
    | ok fd => exact hsame h.1
  | newConnection ns => exact hsame h
  | setns fd => exact hsame h
  | buildRuntime => exact hsame h
  | isFile path => exact hsame h
  | exec bin args stdin => exact hsame h
  | writeFile path text => exact hsame h

theorem Links.eq_of_key {l l' : Link} (hl : l ∈ s.all) (hl' : l' ∈ s.all) (hns : l.ns = l'.ns)
    (h : l.idx = l'.idx ∨ l.name = l'.name) : l = l' := by
  have hsymm : Std.Symm fun a b : Link => a.ns = b.ns → a.idx ≠ b.idx ∧ a.name ≠ b.name :=
    ⟨fun a b h hns => ⟨(h hns.symm).1.symm, (h hns.symm).2.symm⟩⟩
  by_contra hne
  obtain ⟨hidx, hname⟩ := s.distinct.forall hl hl' hne hns
  rcases h with h | h
  · exact hidx h
  · exact hname h

/-- The pair of a link that is deleted is gone, and no other comes. -/
theorem pairs_delete {l : Link} (hl : l ∈ s.all) (hq : l.pair = some q) (ht : t.all = s.delete l) :
    t.pairs = s.pairs \ {q} := by
  ext p
  simp only [Links.pairs, Set.mem_ofPred_eq, Set.mem_sdiff, Set.mem_singleton_iff, ht, Links.delete,
    List.mem_filter, decide_eq_true_eq, hq]
  constructor
  · rintro ⟨x, ⟨hx, -, hpair⟩, hp⟩
    refine ⟨⟨x, hx, hp⟩, ?_⟩
    rintro rfl
    rcases hpair with h | h
    · cases h
    · exact h hp
  · rintro ⟨⟨x, hx, hp⟩, hne⟩
    have hpair : x.pair ≠ some q := by
      rw [hp]
      exact fun h => hne (Option.some.inj h)
    refine ⟨x, ⟨hx, ?_, .inr hpair⟩, hp⟩
    rintro rfl
    exact hpair hq

/-- No pair is made. -/
def NoVeth (log : Log) : Prop := ∀ host peer, created host peer ∉ log

theorem NoVeth.of_plain {log : Log} (h : ∀ a ∈ log, Plain a.1) : NoVeth log :=
  fun _ _ hmem => h _ hmem

theorem NoVeth.append {log log' : Log} (h : NoVeth log) (h' : NoVeth log') :
    NoVeth (log ++ log') := by
  intro host peer hmem
  rcases List.mem_append.mp hmem with hmem | hmem
  · exact h host peer hmem
  · exact h' host peer hmem

/-- The calls that `run_delegate` makes. -/
def Delegating : SysOp → Prop
  | .isFile _ => True
  | .exec _ _ _ => True
  | _ => False

theorem Links.eq_of_delegating {o : SysOp} {r : SysRes o} (ho : Delegating o)
    (h : s.Answers n o r t) : t = s := by
  cases o with
  | isFile path => exact h
  | exec bin args stdin => exact h
  | newConnection ns => exact ho.elim
  | netlink ns req => exact ho.elim
  | openFile path => exact ho.elim
  | setns fd => exact ho.elim
  | buildRuntime => exact ho.elim
  | writeFile path text => exact ho.elim

/-- The calls that find both ends. -/
def Linking (o : SysOp) : Prop := ∃ req, Benign req ∧ o = .netlink none req

theorem Linking.plain {o : SysOp} (h : Linking o) : Plain o := by
  obtain ⟨req, hreq, rfl⟩ := h
  exact hreq

/-- What making the pair does: it is not made, or it is, and then both ends may be found. -/
def Created (n : Namespaces) (host peer : String) (s : Links) (r : Except String (ℕ × ℕ)) (t : Links)
    (log : Log) : Prop :=
  (t = s ∧ NoVeth log ∧ ∃ e, r = .error e) ∨
  ∃ q later, log = created host peer :: later ∧ q ∉ s.pairs ∧ t.pairs = insert q s.pairs ∧
    (∀ a ∈ later, Linking a.1) ∧
    match r with
    | .ok (i, j) => Standing n q i t ∧ i ≠ j ∧ Found host later ∧ Found peer later
    | .error _ => ¬ (Found host later ∧ Found peer later)

/-- What the commands of the plugin may expect of their requests, and what these log. -/
def Allows (n : Namespaces) : Labelled Links BridgeOp BridgeRes (Answered SysOp SysRes) :=
  fun s o r t log => match o, r with
    | .runDelegate _ _ _, _ => t = s ∧ ∀ a ∈ log, Delegating a.1
    | .createVeth host peer _, r => Created n host peer s r t log
    | .openNetns path, r => t = s ∧ log = [⟨.openFile path, r⟩]
    | .moveToNetns idx _, _ => NoVeth log ∧ t.pairs = s.pairs ∧
        ∀ q i, i ≠ idx → Standing n q i s → Standing n q i t
    | .delLink idx, _ => ∃ r, log = [⟨.netlink none (.delLink idx), r⟩] ∧
        (r = .ok () → ∀ q, Standing n q idx s → t.pairs = s.pairs \ {q})
    | .deleteContainerIface _ _, _ => True
    | _, _ => Kept n s t ∧ ∀ a ∈ log, Plain a.1

/-- An execution of system calls, with the calls and their answers. -/
abbrev Twlp (n : Namespaces) {α : Type} (post : α → Links → Log → Prop) (prog : SysProgram α)
    (s : Links) : Prop :=
  twlp (answered fun s o r t => Links.Answers n s o r t) post prog s

theorem twlp_of_uses {α : Type} {P : SysOp → Prop} (hP : ∀ o, P o → Plain o) {prog : SysProgram α}
    (h : prog.Uses P) (s : Links) :
    Twlp n (fun _ t log => Kept n s t ∧ ∀ a ∈ log, P a.1) prog s :=
  h.twlp Kept.refl (fun _ _ _ => Kept.trans) (fun _ _ _ _ ho hr => kept_of_plain (hP _ ho) hr) s

theorem twlp_linkIndex (name : String) (s : Links) :
    Twlp n (fun r t log => t = s ∧ ∃ answer, log = [⟨.netlink none (.getLink name), answer⟩] ∧
      ∀ idx, (r = .ok (some idx) ↔ answer = .ok (some idx)) ∧
        (r = .ok (some idx) → ∃ l ∈ s.all, l.ns = n.host ∧ l.name = name ∧ l.idx = idx))
      (linkIndex none name).run s := by
  rintro r t labels ⟨⟨rfl, hr⟩, rfl⟩
  cases r with
  | ok found =>
    cases found with
    | none =>
      exact ⟨rfl, _, rfl, fun idx => ⟨⟨fun h => (by cases h), fun h => (by cases h)⟩,
        fun h => (by cases h)⟩⟩
    | some i =>
      refine ⟨rfl, _, rfl, fun idx => ⟨⟨fun h => ?_, fun h => ?_⟩, fun h => ?_⟩⟩
      · rw [Option.some.inj (Except.ok.inj h)]
      · rw [Option.some.inj (Except.ok.inj h)]
      · rw [← Option.some.inj (Except.ok.inj h)]
        exact hr
  | error e =>
    have hne : ∀ idx, (if e.code = some (-19) then (.ok none : Except String (Option ℕ))
        else .error e.text) ≠ .ok (some idx) := by
      intro idx h
      split at h <;> cases h
    exact ⟨rfl, _, rfl, fun idx => ⟨⟨fun h => absurd h (hne idx), fun h => (by cases h)⟩,
      fun h => absurd h (hne idx)⟩⟩

/-- What the kernel has after it made a pair. -/
theorem pairs_addVeth {i j : ℕ} (hfresh : ∀ l ∈ s.all, l.pair ≠ some q)
    (hall : t.all = ⟨n.host, i, host, some q⟩ :: ⟨n.host, j, peer, some q⟩ :: s.all) :
    q ∉ s.pairs ∧ t.pairs = insert q s.pairs ∧ i ≠ j ∧ host ≠ peer := by
  refine ⟨?_, ?_, ?_⟩
  · rintro ⟨l, hl, hq⟩
    exact hfresh l hl hq
  · ext p
    simp [Links.pairs, hall, eq_comm]
  · have hdistinct := t.distinct
    rw [hall, List.pairwise_cons] at hdistinct
    exact hdistinct.1 _ (List.mem_cons_self ..) rfl

theorem Found.of_singleton {name name' : String} {answer : Except NlError (Option ℕ)}
    (h : Found name [⟨.netlink none (.getLink name'), answer⟩]) :
    name = name' ∧ ∃ idx, answer = .ok (some idx) := by
  obtain ⟨idx, hmem⟩ := h
  have heq := List.mem_singleton.mp hmem
  obtain ⟨hop, hanswer⟩ := Sigma.mk.inj heq
  obtain rfl : name = name' := by simpa using hop
  exact ⟨rfl, idx, (eq_of_heq hanswer).symm⟩

theorem Found.append {name : String} {log log' : Log} :
    Found name (log ++ log') ↔ Found name log ∨ Found name log' := by
  simp [Found, exists_or]

/-- What is known after both ends were asked for. -/
def Ends (n : Namespaces) (host peer : String) (q : ℕ) (s : Links) (r : Except String (ℕ × ℕ))
    (t : Links) (later : Log) : Prop :=
  t.pairs = s.pairs ∧ (∀ a ∈ later, Linking a.1) ∧
    match r with
    | .ok (i, j) => Standing n q i t ∧ i ≠ j ∧ Found host later ∧ Found peer later
    | .error _ => ¬ (Found host later ∧ Found peer later)

theorem linking_getLink {name : String} {answer : Except NlError (Option ℕ)} :
    ∀ a ∈ [(⟨.netlink none (.getLink name), answer⟩ : Answered SysOp SysRes)], Linking a.1 := by
  intro a ha
  rw [List.mem_singleton.mp ha]
  exact ⟨.getLink name, trivial, rfl⟩

theorem forall_mem_append {P : Answered SysOp SysRes → Prop} {log log' : Log}
    (h : ∀ a ∈ log, P a) (h' : ∀ a ∈ log', P a) : ∀ a ∈ log ++ log', P a :=
  List.forall_mem_append.mpr ⟨h, h'⟩

/-- After the pair is made. -/
theorem twlp_ends {rest : List Link} (mtu : Option ℕ)
    (hall : s.all = ⟨n.host, i, host, some q⟩ :: ⟨n.host, j, peer, some q⟩ :: rest) (hij : i ≠ j)
    (hname : host ≠ peer) : Twlp n (Ends n host peer q s) (do
      let hostIdx ← orMissing "host veth missing" (← linkIndex none host)
      let peerIdx ← orMissing "peer veth missing" (← linkIndex none peer)
      setMtuIfGiven hostIdx mtu
      setMtuIfGiven peerIdx mtu
      return (hostIdx, peerIdx) : AnyProgram (ℕ × ℕ)).run s := by
  have hmtu : ∀ idx s, Twlp n (fun _ t log => Kept n s t ∧ ∀ a ∈ log, Linking a.1)
      (setMtuIfGiven idx mtu) s :=
    fun idx s => twlp_of_uses (fun _ => Linking.plain)
      (uses_setMtuIfGiven (fun req hreq => ⟨req, hreq, rfl⟩) idx mtu) s
  refine twlp.exceptBind (twlp_linkIndex host s) ?_ ?_
  · rintro found u _ ⟨rfl, answer, rfl, hfound⟩
    cases found with
    | none => exact ⟨rfl, linking_getLink, fun h => hname h.2.of_singleton.1.symm⟩
    | some hostIdx =>
      obtain ⟨l, hl, hns, hlname, rfl⟩ := (hfound hostIdx).2 rfl
      have hfirst : l = ⟨n.host, i, host, some q⟩ :=
        Links.eq_of_key hl (by rw [hall]; exact List.mem_cons_self) hns (.inr hlname)
      change twlp _ _ (linkIndex none peer >>= _).run _
      refine twlp.exceptBind (twlp_linkIndex peer _) ?_ ?_
      · rintro found v _ ⟨rfl, answer', rfl, hfound'⟩
        cases found with
        | none =>
          refine ⟨rfl, forall_mem_append linking_getLink linking_getLink, fun h => ?_⟩
          rcases Found.append.mp h.2 with h | h
          · exact hname h.of_singleton.1.symm
          · obtain ⟨idx, hidx⟩ := h.of_singleton.2
            cases (hfound' idx).1.mpr hidx
        | some peerIdx =>
          obtain ⟨l', hl', hns', hlname', rfl⟩ := (hfound' peerIdx).2 rfl
          have hsecond : l' = ⟨n.host, j, peer, some q⟩ :=
            Links.eq_of_key hl' (by rw [hall]; exact .tail _ List.mem_cons_self) hns' (.inr hlname')
          have hstanding : Standing n q l.idx v := ⟨l, hl, hns, rfl, by rw [hfirst]⟩
          have hne : l.idx ≠ l'.idx := by rwa [hfirst, hsecond]
          change twlp _ _ ((liftM (setMtuIfGiven l.idx mtu) : AnyProgram Unit) >>= _).run _
          refine (hmtu l.idx v).liftBind fun _ w log ⟨hw, hlog⟩ => ?_
          refine (hmtu l'.idx w).liftBind fun _ x log' ⟨hx, hlog'⟩ => ?_
          have hkept := hw.trans hx
          have hhost : Found host [⟨.netlink none (.getLink host), answer⟩] :=
            ⟨l.idx, by rw [(hfound l.idx).1.mp rfl]; exact List.mem_cons_self⟩
          have hpeer : Found peer [⟨.netlink none (.getLink peer), answer'⟩] :=
            ⟨l'.idx, by rw [(hfound' l'.idx).1.mp rfl]; exact List.mem_cons_self⟩
          refine ⟨hkept.pairs, ?_, hkept.standing q _ hstanding, hne, ?_, ?_⟩
          · rw [List.append_nil]
            exact forall_mem_append linking_getLink (forall_mem_append linking_getLink
              (forall_mem_append hlog hlog'))
          · exact Found.append.mpr (.inl hhost)
          · exact Found.append.mpr (.inr (Found.append.mpr (.inl hpeer)))
      · rintro e v _ ⟨rfl, answer', rfl, hfound'⟩
        refine ⟨rfl, forall_mem_append linking_getLink linking_getLink, fun h => ?_⟩
        rcases Found.append.mp h.2 with h | h
        · exact hname h.of_singleton.1.symm
        · obtain ⟨idx, hidx⟩ := h.of_singleton.2
          cases (hfound' idx).1.mpr hidx
  · rintro e u _ ⟨rfl, answer, rfl, hfound⟩
    exact ⟨rfl, linking_getLink, fun h => hname h.2.of_singleton.1.symm⟩

theorem twlp_createVeth (host peer : String) (mtu : Option ℕ) (s : Links) :
    Twlp n (fun r t log => Created n host peer s r t log) (createVeth host peer mtu).run s := by
  rintro r s₁ labels ⟨h, rfl⟩
  cases r with
  | error e =>
    obtain rfl : s₁ = s := h
    refine .inl ⟨rfl, ?_, _, rfl⟩
    intro host' peer' hmem
    obtain ⟨hop, hanswer⟩ := Sigma.mk.inj (List.mem_singleton.mp hmem)
    obtain ⟨rfl, rfl⟩ : host' = host ∧ peer' = peer := by simpa using hop
    cases eq_of_heq hanswer
  | ok a =>
    obtain ⟨i, j, q, hfresh, hall⟩ := h
    obtain ⟨hq, hpairs, hij, hname⟩ := pairs_addVeth hfresh hall
    refine (twlp_ends mtu hall hij hname).mono fun r t later h => ?_
    obtain ⟨hsame, hlinking, hr⟩ := h
    refine .inr ⟨q, later, rfl, hq, hsame.trans hpairs, hlinking, ?_⟩
    cases r <;> exact hr

theorem twlp_moveToNetns (idx fd : ℕ) (s : Links) :
    Twlp n (fun r t log => Allows n s (.moveToNetns idx fd) r t log) (moveToNetns idx fd).run s := by
  rintro r t labels ⟨h, rfl⟩
  have hlog : ∀ answer, NoVeth ([⟨.netlink none (.setNs idx fd), answer⟩] : Log) := by
    intro answer host peer hmem
    have hop := (Sigma.mk.inj (List.mem_singleton.mp hmem)).1
    simp at hop
  cases r with
  | error e =>
    obtain rfl : t = s := h
    exact ⟨hlog _, rfl, fun _ _ _ h => h⟩
  | ok a =>
    obtain ⟨l, hl, hns, hidx, idx', ht⟩ := h
    have hpair : { l with ns := n.file fd, idx := idx' : Link }.pair = l.pair := rfl
    refine ⟨hlog _, pairs_replace hpair ht, fun q i hi => standing_replace hpair ?_ ht⟩
    intro _ hli
    exact absurd (hli.symm.trans hidx) hi

theorem twlp_delLink (idx : ℕ) (s : Links) :
    Twlp n (fun r t log => Allows n s (.delLink idx) r t log) (delLink idx) s := by
  rintro r t labels ⟨h, rfl⟩
  refine ⟨r, rfl, fun hr q hstanding => ?_⟩
  subst hr
  obtain ⟨l, hl, hns, hidx, ht⟩ := h
  obtain ⟨l', hl', hns', hidx', hq⟩ := hstanding
  obtain rfl : l = l' := Links.eq_of_key hl hl' (hns.trans hns'.symm) (.inl (hidx.trans hidx'.symm))
  exact pairs_delete hl hq ht

/-- The modules of the plugin do what its commands may expect. -/
theorem impl_allows (o : BridgeOp) (s : Links) :
    Twlp n (fun r t log => Allows n s o r t log) (impl o) s := by
  have hplain : ∀ {α : Type} {prog : SysProgram α}, prog.Uses Plain →
      Twlp n (fun _ t log => Kept n s t ∧ ∀ a ∈ log, Plain a.1) prog s :=
    fun h => twlp_of_uses (fun _ h => h) h s
  cases o with
  | newConnection => exact hplain (uses_call (o := .newConnection none) trivial)
  | ensureBridge name mtu => exact hplain (uses_ensureBridge (fun req h => h) name mtu)
  | runDelegate name args stdin =>
    have huses : (runDelegate name args stdin).Uses Delegating :=
      uses_runDelegate (fun _ => trivial) fun _ => trivial
    exact huses.twlp (R := fun s t => t = s) (fun _ => rfl) (fun _ _ _ h h' => h'.trans h)
      (fun _ _ _ _ => Links.eq_of_delegating) s
  | createVeth host peer mtu => exact twlp_createVeth host peer mtu s
  | openNetns path =>
    rintro r t labels ⟨h, rfl⟩
    cases r with
    | error e => exact ⟨h, rfl⟩
    | ok fd => exact ⟨h.1, rfl⟩
  | moveToNetns idx fd => exact twlp_moveToNetns idx fd s
  | configureContainerIface netns temp ifname plan defaultRoute =>
    exact hplain (uses_configureContainerIface trivial (fun req h => h) (fun _ => trivial)
      (fun _ => trivial) trivial temp ifname plan defaultRoute)
  | attachHostVeth hostIdx bridgeIdx hairpin =>
    exact hplain (uses_attachHostVeth (fun req h => h) hostIdx bridgeIdx hairpin)
  | setBridgeGateway bridgeIdx gw len => exact hplain (uses_setBridgeGateway trivial)
  | enableIpForward =>
    exact hplain ((uses_call (o := .writeFile "/proc/sys/net/ipv4/ip_forward" "1") trivial).bind
      fun _ => trivial)
  | delLink idx => exact twlp_delLink idx s
  | deleteContainerIface netns ifname => exact twlp_true _ s

/-- How an ADD that fails leaves the pair: it was not made, it was left there, or it was to be
deleted. -/
inductive Outcome (host peer netns : String) (s t : Links) (log : Log) : Prop where
  | untouched (hpairs : t.pairs = s.pairs) (hlog : NoVeth log)
  | left {earlier later : Log} {q : ℕ} (hlog : log = earlier ++ created host peer :: later)
      (hearlier : NoVeth earlier) (hlater : NoVeth later) (hbad : ¬ Usable host peer netns later)
      (hq : q ∈ t.pairs) (hnew : q ∉ s.pairs)
  | deleted {earlier later : Log} {idx : ℕ} {r : Except NlError Unit}
      (hlog : log = earlier ++ created host peer :: later) (hearlier : NoVeth earlier)
      (hlater : NoVeth later) (hgood : Usable host peer netns later)
      (hmem : (⟨.netlink none (.delLink idx), r⟩ : Answered SysOp SysRes) ∈ log)
      (hdel : r = .ok () → t.pairs = s.pairs)

theorem Outcome.iff {log : Log} (h : Outcome host peer netns s t log)
    (hdel : ∀ ns idx r, (⟨.netlink ns (.delLink idx), r⟩ : Answered SysOp SysRes) ∈ log →
      r = .ok ()) :
    t.pairs ⊆ s.pairs ↔ ∀ earlier later, log = earlier ++ created host peer :: later →
      Usable host peer netns later := by
  have hsplit : ∀ {earlier later earlier' later' : Log}, NoVeth earlier → NoVeth later →
      earlier ++ created host peer :: later = earlier' ++ created host peer :: later' →
      later = later' := by
    intro earlier later earlier' later' hearlier hlater heq
    exact ((List.append_cons_inj_of_notMem (hearlier host peer) (hlater host peer)).mp heq).2.2
  cases h with
  | untouched hpairs hlog =>
    refine iff_of_true hpairs.subset ?_
    rintro earlier later rfl
    exact absurd (List.mem_append_right _ List.mem_cons_self) (hlog host peer)
  | left hlog hearlier hlater hbad hq hnew =>
    refine iff_of_false (fun hsub => hnew (hsub hq)) fun hall => ?_
    exact hbad (hall _ _ hlog)
  | deleted hlog hearlier hlater hgood hmem hgone =>
    refine iff_of_true (hgone (hdel _ _ _ hmem)).subset ?_
    intro earlier later heq
    rwa [← hsplit hearlier hlater (hlog.symm.trans heq)]

theorem NoVeth.of_delegating {log : Log} (h : ∀ a ∈ log, Delegating a.1) : NoVeth log :=
  fun _ _ hmem => h _ hmem

theorem Usable.of_delegated {log log' : Log} (h : ∀ a ∈ log', Delegating a.1)
    (husable : Usable host peer netns (log ++ log')) : Usable host peer netns log := by
  have hno : ∀ name, ¬ Found name log' := fun name ⟨idx, hmem⟩ => h _ hmem
  refine ⟨?_, ?_, ?_⟩
  · exact (Found.append.mp husable.host).resolve_right (hno host)
  · exact (Found.append.mp husable.peer).resolve_right (hno peer)
  · obtain ⟨fd, hmem⟩ := husable.netns
    exact ⟨fd, (List.mem_append.mp hmem).resolve_right fun hmem => h _ hmem⟩

theorem Usable.append {log : Log} (h : Usable host peer netns log) (log' : Log) :
    Usable host peer netns (log ++ log') := by
  obtain ⟨fd, hfd⟩ := h.netns
  exact ⟨Found.append.mpr (.inl h.host), Found.append.mpr (.inl h.peer), fd,
    List.mem_append_left _ hfd⟩

/-- Calls before that make no pair. -/
theorem Outcome.before {u : Links} {log log' : Log} (h : Outcome host peer netns u t log')
    (hpairs : u.pairs = s.pairs) (hlog : NoVeth log) : Outcome host peer netns s t (log ++ log') := by
  cases h with
  | untouched hsame hlog' => exact .untouched (hsame.trans hpairs) (hlog.append hlog')
  | left hlog' hearlier hlater hbad hq hnew =>
    rw [hpairs] at hnew
    refine .left ?_ (hlog.append hearlier) hlater hbad hq hnew
    rw [hlog', List.append_assoc]
  | deleted hlog' hearlier hlater hgood hmem hgone =>
    refine .deleted ?_ (hlog.append hearlier) hlater hgood (List.mem_append_right _ hmem) ?_
    · rw [hlog', List.append_assoc]
    · exact fun hr => (hgone hr).trans hpairs

/-- A delegate that runs after. -/
theorem Outcome.after {log log' : Log} (h : Outcome host peer netns s t log)
    (hlog' : ∀ a ∈ log', Delegating a.1) : Outcome host peer netns s t (log ++ log') := by
  have hno := NoVeth.of_delegating hlog'
  cases h with
  | untouched hsame hlog => exact .untouched hsame (hlog.append hno)
  | left hlog hearlier hlater hbad hq hnew =>
    refine .left ?_ hearlier (hlater.append hno) (fun h => hbad (h.of_delegated hlog')) hq hnew
    rw [hlog, List.append_assoc, List.cons_append]
  | deleted hlog hearlier hlater hgood hmem hgone =>
    refine .deleted ?_ hearlier (hlater.append hno) (hgood.append log')
      (List.mem_append_left _ hmem) hgone
    rw [hlog, List.append_assoc, List.cons_append]

/-- The pair is there and can be used. -/
structure Wired (n : Namespaces) (host peer netns : String) (q i : ℕ) (s t : Links) (log : Log) :
    Prop where
  logged : ∃ later, log = created host peer :: later ∧ NoVeth later ∧
    Usable host peer netns later
  pairs : t.pairs = insert q s.pairs
  fresh : q ∉ s.pairs
  standing : Standing n q i t

theorem Wired.step {u : Links} {log log' : Log} (h : Wired n host peer netns q i s t log)
    (hlog : NoVeth log') (hpairs : u.pairs = t.pairs)
    (hstanding : Standing n q i t → Standing n q i u) :
    Wired n host peer netns q i s u (log ++ log') := by
  obtain ⟨later, rfl, hlater, husable⟩ := h.logged
  exact ⟨⟨later ++ log', rfl, hlater.append hlog, husable.append log'⟩, hpairs.trans h.pairs,
    h.fresh, hstanding h.standing⟩

/-- The link is deleted from a pair that can be used. -/
theorem Wired.deleted {u : Links} {log : Log} {r : Except NlError Unit}
    (h : Wired n host peer netns q i s t log)
    (hdel : r = .ok () → u.pairs = t.pairs \ {q}) :
    Outcome host peer netns s u (log ++ [⟨.netlink none (.delLink i), r⟩]) := by
  obtain ⟨later, rfl, hlater, husable⟩ := h.logged
  have hno : NoVeth [⟨.netlink none (.delLink i), r⟩] := by
    intro host' peer' hmem
    have hop := (Sigma.mk.inj (List.mem_singleton.mp hmem)).1
    simp at hop
  have hlog : created host peer :: later ++ [⟨.netlink none (.delLink i), r⟩] =
    [] ++ created host peer :: (later ++ [⟨.netlink none (.delLink i), r⟩]) := rfl
  refine .deleted hlog (fun _ _ h => by cases h) (hlater.append hno) (husable.append _)
    (List.mem_append_right _ List.mem_cons_self) ?_
  · intro hr
    rw [hdel hr, h.pairs]
    exact Set.insert_sdiff_self_of_notMem h.fresh

/-- A step of which the failure deletes the link. -/
theorem twlp_orDelLink_bind {α β : Type} {x : Program BridgeOp BridgeRes (Except String α)}
    {e : CniError} {f : α → BridgeProgram β} {log : Log}
    (h : Wired n host peer netns q i s t log)
    (hx : twlp (Allows n) (fun _ u log' => NoVeth log' ∧ u.pairs = t.pairs ∧
      (Standing n q i t → Standing n q i u)) x t)
    (hf : ∀ a u log', Wired n host peer netns q i s u log' →
      twlp (Allows n) (fun r v rest => ∀ e, r = .error e →
        Outcome host peer netns s v (log' ++ rest)) (f a).run u) :
    twlp (Allows n) (fun r v rest => ∀ e, r = .error e →
      Outcome host peer netns s v (log ++ rest)) (orDelLink i x e >>= f).run t := by
  rw [run_orDelLink_bind]
  refine hx.bind fun r u log' ⟨hlog, hpairs, hstanding⟩ => ?_
  have hu := h.step hlog hpairs hstanding
  cases r with
  | ok a =>
    refine (hf a u _ hu).mono fun r v rest hr e he => ?_
    rw [← List.append_assoc]
    exact hr e he
  | error text =>
    rintro _ v _ ⟨answer, rfl, hdel⟩ e he
    rw [List.append_nil, ← List.append_assoc]
    exact hu.deleted fun hr => hdel hr q hu.standing

theorem twlp_orFail_bind {α β : Type} {m : Except String α → Links → Log → Prop}
    {post : Except CniError β → Links → Log → Prop}
    {x : Program BridgeOp BridgeRes (Except String α)} {e : CniError} {f : α → BridgeProgram β}
    (hx : twlp (Allows n) m x s)
    (hok : ∀ a t log, m (.ok a) t log →
      twlp (Allows n) (fun r u rest => post r u (log ++ rest)) (f a).run t)
    (herr : ∀ text t log, m (.error text) t log → post (.error (e.withDetails text)) t log) :
    twlp (Allows n) post (orFail x e >>= f).run s := by
  rw [run_orFail_bind]
  refine hx.bind fun r t log hm => ?_
  cases r with
  | ok a => exact hok a t log hm
  | error text =>
    rw [← List.append_nil log] at hm
    exact herr text t _ hm

/-- The pair is there, and it is not yet known whether it can be used. -/
theorem left_of_created {later log : Log} (hnew : q ∉ s.pairs) (hpairs : t.pairs = insert q s.pairs)
    (hlog : log = created host peer :: later) (hlater : NoVeth later)
    (hbad : ¬ Usable host peer netns later) : Outcome host peer netns s t log := by
  have hnone : NoVeth [] := fun _ _ h => by cases h
  refine .left (List.nil_append _ ▸ hlog) hnone hlater hbad ?_ hnew
  rw [hpairs]
  exact Set.mem_insert q s.pairs

/-- The namespace of the container is opened after both ends were found. -/
theorem usable_openNetns {later : Log} {r : Except String ℕ} (hlinking : ∀ a ∈ later, Linking a.1)
    (hhost : Found host later) (hpeer : Found peer later) :
    Usable host peer netns (later ++ [⟨.openFile netns, r⟩]) ↔ ∃ fd, r = .ok fd := by
  constructor
  · intro h
    obtain ⟨fd, hmem⟩ := h.netns
    rcases List.mem_append.mp hmem with hmem | hmem
    · obtain ⟨req, -, hop⟩ := hlinking _ hmem
      cases hop
    · exact ⟨fd, (eq_of_heq (Sigma.mk.inj (List.mem_singleton.mp hmem)).2).symm⟩
  · rintro ⟨fd, rfl⟩
    exact ⟨Found.append.mpr (.inl hhost), Found.append.mpr (.inl hpeer), fd,
      List.mem_append_right _ List.mem_cons_self⟩

theorem noVeth_openNetns {r : Except String ℕ} : NoVeth [⟨.openFile netns, r⟩] := by
  intro host peer hmem
  have hop := (Sigma.mk.inj (List.mem_singleton.mp hmem)).1
  cases hop

/-- A step that keeps the pair. -/
theorem twlp_kept {x : Program BridgeOp BridgeRes (Except String Unit)}
    (h : twlp (Allows n) (fun _ u log => Kept n t u ∧ ∀ a ∈ log, Plain a.1) x t) :
    twlp (Allows n) (fun _ u log => NoVeth log ∧ u.pairs = t.pairs ∧
      (Standing n q i t → Standing n q i u)) x t :=
  h.mono fun _ _ _ hu => ⟨.of_plain hu.2, hu.1.pairs, hu.1.standing q i⟩

/-- Steps 4 and 5, from the moment the namespace is open, and step 6. -/
theorem twlp_connect {log : Log} {ifname : String} {plan : IpPlan} {defaultRoute hairpin gw : Bool}
    {fd bridgeIdx : ℕ} {ipam : CniResult} (h : Wired n host peer netns q i s t log) (hne : i ≠ j) :
    twlp (Allows n) (fun r v rest => ∀ e, r = .error e →
        Outcome host peer netns s v (log ++ rest)) (do
      orDelLink i (ask (.moveToNetns j fd)) (.new 5 "move veth to netns")
      orDelLink i (ask (.configureContainerIface netns peer ifname plan defaultRoute))
        (.new 7 "configure container iface")
      orDelLink i (ask (.attachHostVeth i bridgeIdx hairpin)) (.new 5 "attach host veth")
      if gw then setGateway bridgeIdx ipam : BridgeProgram Unit).run t := by
  have hmove : twlp (Allows n) (fun r u log => Allows n t (.moveToNetns j fd) r u log)
      (ask (.moveToNetns j fd)) t := twlp_send _ t
  refine twlp_orDelLink_bind h ?_ fun _ u log hu => ?_
  · refine hmove.mono fun _ u log hu => ?_
    obtain ⟨hlog, hpairs, hstanding⟩ := hu
    exact ⟨hlog, hpairs, hstanding q i hne⟩
  refine twlp_orDelLink_bind hu (twlp_kept (twlp_send _ u)) fun _ v log' hv => ?_
  refine twlp_orDelLink_bind hv (twlp_kept (twlp_send _ v)) fun _ w log'' hw => ?_
  split
  · refine twlp.bind (f := fun a => .ret (Except.ok a)) (twlp_true (setGateway bridgeIdx ipam) w) ?_
    intro _ _ _ _ e he
    cases he
  · intro e he
    cases he

section

variable [Crates]

theorem twlp_wirePod {conf : BridgeConf} {args : CniArgs} (bridgeIdx : ℕ) (stdout : String) :
    twlp (Allows n) (fun r t log => ∀ e, r = .error e →
      Outcome (hostVethName args.containerId) (tempContName args.containerId) args.netns s t log)
      (wirePod bridgeIdx conf args stdout).run s := by
  have hnone : ∀ e' : CniError, ∀ e, (.error e' : Except CniError Unit) = .error e →
      Outcome (hostVethName args.containerId) (tempContName args.containerId) args.netns s s [] :=
    fun _ _ _ => .untouched rfl fun _ _ h => by cases h
  unfold wirePod
  rw [Program.run_pure_bind]
  split
  · rename_i ipam _
    rw [Program.run_pure_bind]
    split
    · rename_i plan _
      refine twlp_orFail_bind (twlp_send _ s) ?_ ?_
      · rintro ⟨i, j⟩ t _ (⟨-, -, e, he⟩ | ⟨q, later, rfl, hnew, hpairs, hlinking, hr⟩)
        · cases he
        have hlater : NoVeth later := .of_plain fun a ha => (hlinking a ha).plain
        obtain ⟨hstanding, hne, hhost, hpeer⟩ := hr
        refine twlp_orFail_bind (twlp_send _ t) ?_ ?_
        · rintro fd u _ ⟨rfl, rfl⟩
          have hwired : Wired n (hostVethName args.containerId) (tempContName args.containerId)
              args.netns q i s u (created (hostVethName args.containerId)
                (tempContName args.containerId) :: later ++ [⟨.openFile args.netns, .ok fd⟩]) :=
            ⟨⟨_, rfl, hlater.append noVeth_openNetns,
              (usable_openNetns hlinking hhost hpeer).mpr ⟨fd, rfl⟩⟩, hpairs, hnew, hstanding⟩
          refine (twlp_connect hwired hne).mono fun r v rest hr e he => ?_
          simpa only [List.append_assoc] using hr e he
        · rintro text _ _ ⟨rfl, rfl⟩ _ _
          refine left_of_created hnew hpairs rfl (hlater.append noVeth_openNetns) fun h => ?_
          obtain ⟨fd, hfd⟩ := (usable_openNetns hlinking hhost hpeer).mp h
          cases hfd
      · rintro text t log h e -
        rcases h with ⟨rfl, hlog, -⟩ | ⟨q, later, rfl, hnew, hpairs, hlinking, hr⟩
        · exact .untouched rfl hlog
        · have hlater : NoVeth later := .of_plain fun a ha => (hlinking a ha).plain
          exact left_of_created hnew hpairs rfl hlater fun h => hr ⟨h.host, h.peer⟩
    · exact hnone _
  · exact hnone _

theorem twlp_cmdAdd {conf : BridgeConf} {args : CniArgs} (stdin : String) :
    twlp (Allows n) (fun r t log => ∀ e, r = .error e →
      Outcome (hostVethName args.containerId) (tempContName args.containerId) args.netns s t log)
      (cmdAdd args conf stdin).run s := by
  have hfail : ∀ {u : Links} {log : Log}, Kept n s u → NoVeth log →
      Outcome (hostVethName args.containerId) (tempContName args.containerId) args.netns s u log :=
    fun hkept hlog => .untouched hkept.pairs hlog
  refine twlp_orFail_bind (twlp_send _ s) ?_ fun _ _ _ h _ _ => hfail h.1 (.of_plain h.2)
  rintro _ t₁ log₁ ⟨h₁, hlog₁⟩
  refine twlp_orFail_bind (twlp_send _ t₁) ?_ ?_
  · rintro bridgeIdx t₂ log₂ ⟨h₂, hlog₂⟩
    have hkept := h₁.trans h₂
    have hlog : NoVeth (log₁ ++ log₂) := (NoVeth.of_plain hlog₁).append (.of_plain hlog₂)
    refine twlp.exceptBind (twlp_send (BridgeOp.runDelegate conf.ipam.kind args stdin) t₂) ?_ ?_
    · rintro out t₃ log₃ ⟨rfl, hlog₃⟩
      have hlogs := hlog.append (.of_delegating hlog₃)
      split
      · intro _ _
        simpa only [List.append_assoc, List.append_nil] using hfail hkept hlogs
      · refine twlp.bind (twlp_wirePod bridgeIdx out.stdout) fun r t₄ log₄ h₄ => ?_
        cases r with
        | ok a =>
          intro e he
          cases he
        | error e =>
          rintro _ _ log₅ ⟨rfl, hlog₅⟩ _ _
          have hend := ((h₄ e rfl).before hkept.pairs hlogs).after hlog₅
          simpa only [List.append_assoc, List.append_nil] using hend
    · rintro _ t₃ log₃ ⟨rfl, hlog₃⟩ _ _
      simpa only [List.append_assoc] using hfail hkept (hlog.append (.of_delegating hlog₃))
  · rintro _ t₂ log₂ ⟨h₂, hlog₂⟩ _ _
    exact hfail (h₁.trans h₂) ((NoVeth.of_plain hlog₁).append (.of_plain hlog₂))

/-- For every ADD that fails although every deletion of a link succeeds: no veth pair is there
that was not there before, exactly if in case a pair was made both its ends were found and the
namespace of the container could be opened. -/
theorem failed_add_leaves_no_veth_iff (n : Namespaces) (s t : Links) (args : CniArgs)
    (conf : BridgeConf) (stdin : String) (e : CniError) (log : Log)
    (h : Trace (answered (Links.Answers n)) s ((cmdAdd args conf stdin).run.interpret impl)
      (.error e) t log)
    (hdel : ∀ ns idx r, (⟨.netlink ns (.delLink idx), r⟩ : Answered SysOp SysRes) ∈ log →
      r = .ok ()) :
    t.pairs ⊆ s.pairs ↔ ∀ earlier later,
      log = earlier ++
        created (hostVethName args.containerId) (tempContName args.containerId) :: later →
      Usable (hostVethName args.containerId) (tempContName args.containerId) args.netns later :=
  (h.twlp ((twlp_cmdAdd stdin).interpret impl_allows) e rfl).iff hdel

end

/-- A host with these interfaces, if their indices and their names differ. -/
def Links.ofList (all : List Link) : Option Links :=
  if h : all.Pairwise fun a b => a.ns = b.ns → a.idx ≠ b.idx ∧ a.name ≠ b.name then
    some ⟨all, h⟩
  else none

theorem Links.ofList_eq_some {all : List Link} (h : ofList all = some s) : s.all = all := by
  unfold ofList at h
  split at h
  · rw [← Option.some.inj h]
  · cases h

def noLinks : Links := ⟨[], .nil⟩

def hostAndPod : Namespaces := ⟨0, fun _ => 1, fun _ => 1⟩

def podStdout : String :=
  @CniResult.toJson Crates.compact ⟨"0.3.1", [⟨"4", "10.244.1.2/24", some "10.244.1.1"⟩], []⟩

/-- The first index is free, the peer cannot be moved, and the namespace may be missing. -/
def perform (there : Bool) : (o : SysOp) → Links → Option (SysRes o × Links)
  | .netlink none (.getLink name), s =>
    some (.ok ((s.all.find? fun l => l.ns = 0 ∧ l.name = name).map Link.idx), s)
  | .netlink none (.addBridge name), s =>
    (Links.ofList (⟨0, s.all.length, name, none⟩ :: s.all)).map fun t => (.ok (), t)
  | .netlink none (.addVeth host peer), s =>
    if ∀ l ∈ s.all, l.pair ≠ some 0 then
      (Links.ofList (⟨0, s.all.length, host, some 0⟩ :: ⟨0, s.all.length + 1, peer, some 0⟩ ::
        s.all)).map fun t => (.ok (), t)
    else none
  | .netlink none (.setUp _), s => some (.ok (), s)
  | .netlink none (.setNs _ _), s => some (.error ⟨some (-16), "busy"⟩, s)
  | .netlink none (.delLink idx), s =>
    (s.all.find? fun l => l.ns = 0 ∧ l.idx = idx).bind fun l =>
      (Links.ofList (s.delete l)).map fun t => (.ok (), t)
  | .newConnection _, s => some (.ok (), s)
  | .openFile _, s => some (if there then .ok 7 else .error "No such file or directory", s)
  | .isFile _, s => some (true, s)
  | .exec _ _ _, s => some (.ok ⟨podStdout, true⟩, s)
  | _, _ => none

def podArgs : CniArgs := ⟨"ADD", "c1", "/run/netns/c1", "eth0", "", "/opt/cni/bin"⟩

def podConf : BridgeConf := ⟨"", "cbr0", true, true, false, none, ⟨"host-local"⟩⟩

def podAdd (there : Bool) : Option (Except CniError String × Links × Log) :=
  ((@cmdAdd Crates.compact podArgs podConf "").run.interpret impl).runTraced (perform there) noLinks

/-- All deletions of links succeed. -/
def deletes (log : Log) : Bool := log.all fun a => match a with
  | ⟨.netlink _ (.delLink _), .error _⟩ => false
  | _ => true

theorem deletes_ok {log : Log} (h : deletes log = true) (ns : Option String) (idx : ℕ)
    (r : Except NlError Unit)
    (hmem : (⟨.netlink ns (.delLink idx), r⟩ : Answered SysOp SysRes) ∈ log) : r = .ok () := by
  have hr := List.all_eq_true.mp h _ hmem
  cases r with
  | ok a => rfl
  | error e => cases hr

theorem perform_answers {there : Bool} {o : SysOp} {r : SysRes o}
    (h : perform there o s = some (r, t)) : s.Answers hostAndPod o r t := by
  have hlist : ∀ {all : List Link} {r : Except NlError Unit},
      (Links.ofList all).map (fun t => ((.ok () : Except NlError Unit), t)) = some (r, t) →
      r = .ok () ∧ t.all = all := by
    intro all r h
    obtain ⟨u, hu, he⟩ := Option.map_eq_some_iff.mp h
    obtain ⟨rfl, rfl⟩ := Prod.mk.inj he
    exact ⟨rfl, Links.ofList_eq_some hu⟩
  cases o with
  | netlink ns req =>
    cases ns with
    | some ns => cases req <;> cases h
    | none =>
      cases req with
      | getLink name =>
        obtain ⟨rfl, rfl⟩ := Prod.mk.inj (Option.some.inj h)
        refine ⟨rfl, ?_⟩
        cases hfind : s.all.find? fun l => l.ns = 0 ∧ l.name = name with
        | none =>
          intro l hl hns hname
          exact List.find?_eq_none.mp hfind l hl (by simpa using ⟨hns, hname⟩)
        | some l =>
          have hkey := List.find?_some hfind
          simp only [decide_eq_true_eq] at hkey
          exact ⟨l, List.mem_of_find?_eq_some hfind, hkey.1, hkey.2, rfl⟩
      | addBridge name =>
        obtain ⟨rfl, ht⟩ := hlist h
        exact ⟨_, ht⟩
      | addVeth host peer =>
        obtain ⟨hfresh, h⟩ := Option.ite_none_right_eq_some.mp h
        obtain ⟨rfl, ht⟩ := hlist h
        exact ⟨_, _, _, hfresh, ht⟩
      | setUp idx =>
        obtain ⟨rfl, rfl⟩ := Prod.mk.inj (Option.some.inj h)
        rfl
      | setNs idx fd =>
        obtain ⟨rfl, rfl⟩ := Prod.mk.inj (Option.some.inj h)
        rfl
      | delLink idx =>
        obtain ⟨l, hl, h⟩ := Option.bind_eq_some_iff.mp h
        obtain ⟨rfl, ht⟩ := hlist h
        have hkey := List.find?_some hl
        simp only [decide_eq_true_eq] at hkey
        exact ⟨l, List.mem_of_find?_eq_some hl, hkey.1, hkey.2, ht⟩
      | setMtu idx mtu => cases h
      | setName idx name => cases h
      | setController idx bridgeIdx => cases h
      | addAddress idx addr len => cases h
      | addRoute dst len gw idx => cases h
  | newConnection ns =>
    obtain ⟨rfl, rfl⟩ := Prod.mk.inj (Option.some.inj h)
    rfl
  | openFile path =>
    obtain ⟨rfl, rfl⟩ := Prod.mk.inj (Option.some.inj h)
    cases there with
    | true => exact ⟨rfl, rfl⟩
    | false => rfl
  | isFile path =>
    obtain ⟨rfl, rfl⟩ := Prod.mk.inj (Option.some.inj h)
    rfl
  | exec bin args stdin =>
    obtain ⟨rfl, rfl⟩ := Prod.mk.inj (Option.some.inj h)
    rfl
  | setns fd => cases h
  | buildRuntime => cases h
  | writeFile path text => cases h

theorem podAdd_trace {there : Bool} {names : List String}
    (h : (podAdd there).map (fun r => (r.1.toBool, r.2.1.all.map Link.name, deletes r.2.2)) =
      some (false, names, true)) : ∃ e t log,
    Trace (answered (Links.Answers hostAndPod)) noLinks
      ((@cmdAdd Crates.compact podArgs podConf "").run.interpret impl) (.error e) t log ∧
    deletes log = true ∧ t.all.map Link.name = names := by
  obtain ⟨⟨r, t, log⟩, hrun, he⟩ := Option.map_eq_some_iff.mp h
  simp only [Prod.mk.injEq] at he
  obtain ⟨hr, hnames, hdel⟩ := he
  cases r with
  | ok a => cases hr
  | error e =>
    unfold podAdd at hrun
    have hanswers : ∀ o s r t, perform there o s = some (r, t) → Links.Answers hostAndPod s o r t :=
      fun _ _ _ _ => perform_answers
    exact ⟨e, t, log, Program.trace_of_runTraced hanswers hrun, hdel, hnames⟩

/-- The peer cannot be moved, and the pair is deleted. -/
theorem podAdd_there : (podAdd true).map (fun r => (r.1.toBool, r.2.1.all.map Link.name,
    deletes r.2.2)) = some (false, ["cbr0"], true) := by
  decide +kernel

theorem failed_add_leaves_no_veth_busy : ∃ e t log,
    Trace (answered (Links.Answers hostAndPod)) noLinks
      ((@cmdAdd Crates.compact podArgs podConf "").run.interpret impl) (.error e) t log ∧
    t.all.map Link.name = ["cbr0"] ∧
    (t.pairs ⊆ noLinks.pairs ↔ ∀ earlier later,
      log = earlier ++ created "vethc1" "vethcc1" :: later →
      Usable "vethc1" "vethcc1" "/run/netns/c1" later) := by
  obtain ⟨e, t, log, htrace, hdel, hnames⟩ := podAdd_trace podAdd_there
  exact ⟨e, t, log, htrace, hnames, @failed_add_leaves_no_veth_iff Crates.compact hostAndPod noLinks t
    podArgs podConf "" e log htrace (deletes_ok hdel)⟩

/-- The namespace of the container is not there, and both ends stay. -/
theorem podAdd_missing : (podAdd false).map (fun r => (r.1.toBool, r.2.1.all.map Link.name,
    deletes r.2.2)) = some (false, ["vethc1", "vethcc1", "cbr0"], true) := by
  decide +kernel

theorem failed_add_leaves_veth : ∃ e t log,
    Trace (answered (Links.Answers hostAndPod)) noLinks
      ((@cmdAdd Crates.compact podArgs podConf "").run.interpret impl) (.error e) t log ∧
    (∀ ns idx r, (⟨.netlink ns (.delLink idx), r⟩ : Answered SysOp SysRes) ∈ log → r = .ok ()) ∧
    "vethc1" ∈ t.all.map Link.name ∧ "vethcc1" ∈ t.all.map Link.name := by
  obtain ⟨e, t, log, htrace, hdel, hnames⟩ := podAdd_trace podAdd_missing
  exact ⟨e, t, log, htrace, deletes_ok hdel, by simp [hnames], by simp [hnames]⟩

end FlannelRs.BridgeTeardown
