import FlannelRs.PeerBookkeeping

/-!
# Kernel entries that no peer accounts for

Additions may fail, deletions and dumps do not. Of a peer whose addition was not completed
there may be entries in the kernel without the peer in the memory.
-/

namespace FlannelRs.PeerOrphans
open InteractionPrograms Ipv4Addresses CniTypes Flanneld ExclusiveTables KernelTables
open PeerReconciliation PeerFailures PeerBookkeeping

def IsAddition : PeerOp → Prop
  | .addRoute _ => True
  | .addNeighbour _ => True
  | .addFdb _ => True
  | _ => False

def Answers (k : Kernel) (o : PeerOp) (r : PeerRes o) (k' : Kernel) : Prop :=
  k.Answers o r k' ∨ IsAddition o ∧ Fails k o r k'

abbrev AddingWlp {α : Type} (post : α → Kernel → Prop) (prog : PeerProgram α) (k : Kernel) : Prop :=
  wlp Answers post prog k

variable [Crates] {backend : BackendType} {dev : ℕ} {k k' : Kernel}

/-- The additions that a peer calls for. -/
def AddsEntry (backend : BackendType) (dev : ℕ) (p : Peer) : PeerOp → Prop
  | .addRoute m => m.oif = dev ∧ (.route m.dst m.len, .gateway m.gateway) ∈ entries backend p
  | .addNeighbour m => m.dev = dev ∧ (.neighbour m.ip, .mac m.mac) ∈ entries backend p
  | .addFdb m => m.dev = dev ∧ (.fdb m.mac, .underlay m.underlay) ∈ entries backend p
  | _ => False

omit [Crates] in
theorem uses_requestRoute {P : PeerOp → Prop} {m : RouteMessage} (h : P (.addRoute m)) :
    (requestRoute m).run.Uses P := by
  refine Program.Uses.exceptBind (Program.Uses.lift (.send h)) fun r => ?_
  cases r with
  | ok a => trivial
  | error e =>
    obtain ⟨code, text⟩ := e
    cases code with
    | none => trivial
    | some code =>
      simp only
      split <;> trivial

theorem uses_addPeer (p : Peer) : (addPeer backend dev p).Uses (AddsEntry backend dev p) := by
  cases backend with
  | vxlan =>
    refine Program.Uses.bind ?_ fun r1 => Program.Uses.bind ?_ fun r2 => trivial
    · unfold addRoute
      cases hnet : Crates.parseNetwork p.podCidr with
      | none => trivial
      | some net => exact uses_requestRoute ⟨rfl, by simp [entries, hnet]⟩
    · rcases addPeerL2_cases dev p with ⟨e, hrun, -, -⟩ | ⟨ip, m, underlay, hrun, -, htwo⟩
      · rw [hrun]
        trivial
      · rw [hrun]
        exact ⟨⟨rfl, by simp [entries, htwo]⟩,
          fun _ => ⟨⟨rfl, by simp [entries, htwo]⟩, fun _ => trivial⟩⟩
  | hostGw =>
    refine Program.Uses.bind ?_ fun r => trivial
    rcases addHostGwRoute_cases dev p with ⟨e, hrun, -, -⟩ | ⟨dst, len, gw, hrun, -, hone⟩
    · rw [hrun]
      trivial
    · rw [hrun]
      exact uses_requestRoute ⟨rfl, by simp [hone]⟩

omit [Crates] in
theorem uses_delRouteTo (net : Ipv4Network) :
    (delRouteTo dev net).run.Uses fun o => ¬ IsAddition o := by
  refine Program.Uses.exceptBind (Program.Uses.lift (.send id)) fun routes => ?_
  simp only
  cases routes.received.find? fun r => r.len = net.len ∧ r.dst = net.network ∧ r.oif = dev with
  | some m => exact ⟨id, fun _ => trivial⟩
  | none => cases routes.broken <;> trivial

omit [Crates] in
theorem uses_delNeighbourOf (ip : Ipv4Addr) :
    (delNeighbourOf dev ip).Uses fun o => ¬ IsAddition o := by
  refine Program.Uses.bind (.send id) fun neighbours => ?_
  cases neighbours.received.find? fun n => n.dev = dev ∧ n.ip = ip with
  | some m => exact ⟨id, fun _ => trivial⟩
  | none => trivial

omit [Crates] in
theorem uses_delFdbOf (mac : Mac) : (delFdbOf dev mac).Uses fun o => ¬ IsAddition o := by
  refine Program.Uses.bind (.send id) fun fdb => ?_
  cases fdb.received.find? fun n => n.dev = dev ∧ n.mac = mac with
  | some m => exact ⟨id, fun _ => trivial⟩
  | none => trivial

theorem uses_removePeer (p : Peer) :
    (removePeer backend dev p).Uses fun o => ¬ IsAddition o := by
  cases backend with
  | vxlan =>
    refine Program.Uses.bind (p := (delPeer dev p).run) ?_ fun _ => trivial
    unfold delPeer
    cases Crates.parseNetwork p.podCidr with
    | none => trivial
    | some net =>
      cases p.vtepMac with
      | none => trivial
      | some s =>
        simp only [orFailure, pure_bind]
        cases parseMac s with
        | error e => trivial
        | ok m =>
          refine Program.Uses.exceptBind (p := ExceptT.mk (pure (Except.ok m))) trivial fun m => ?_
          refine Program.Uses.exceptBind (uses_delRouteTo net) fun _ => ?_
          refine Program.Uses.exceptBind (Program.Uses.lift (uses_delNeighbourOf _)) fun _ => ?_
          exact Program.Uses.lift (uses_delFdbOf m)
  | hostGw =>
    refine Program.Uses.bind (p := (delHostGwRoute dev p).run) ?_ fun _ => trivial
    unfold delHostGwRoute
    cases Crates.parseNetwork p.podCidr with
    | none => trivial
    | some net => exact uses_delRouteTo net

/-- An addition inserts its entry, or has no effect. -/
theorem answers_addsEntry {p : Peer} {o : PeerOp} {r : PeerRes o}
    (ho : AddsEntry backend dev p o) (h : Answers k o r k') :
    ∃ cs : List (Change Key Value), (∀ c ∈ cs, c ∈ adds (entries backend p)) ∧
      k'.view dev = run cs (k.view dev) := by
  have hnone : k' = k → ∃ cs : List (Change Key Value), (∀ c ∈ cs, c ∈ adds (entries backend p)) ∧
      k'.view dev = run cs (k.view dev) := fun hk => ⟨[], by simp, by rw [hk]; rfl⟩
  cases o with
  | addRoute m =>
    obtain ⟨dst, len, oif, g⟩ := m
    obtain ⟨rfl, hmem⟩ := ho
    rcases h with h | ⟨-, h⟩
    · exact ⟨[.add (.route dst len) (.gateway g)], by simpa using hmem, view_addRoute h⟩
    · exact hnone h.2
  | addNeighbour m =>
    obtain ⟨dev', ip, mac⟩ := m
    obtain ⟨rfl, hmem⟩ := ho
    rcases h with h | ⟨-, h⟩
    · exact ⟨[.add (.neighbour ip) (.mac mac)], by simpa using hmem, view_addNeighbour h⟩
    · exact hnone h.2
  | addFdb m =>
    obtain ⟨dev', mac, ip⟩ := m
    obtain ⟨rfl, hmem⟩ := ho
    rcases h with h | ⟨-, h⟩
    · exact ⟨[.add (.fdb mac) (.underlay ip)], by simpa using hmem, view_addFdb h⟩
    · exact hnone h.2
  | _ => exact ho.elim

theorem wlp_addPeer_view (p : Peer) :
    AddingWlp (fun _ k' => ∃ cs, (∀ c ∈ cs, c ∈ adds (entries backend p)) ∧
        k'.view dev = run cs (k.view dev))
      (addPeer backend dev p) k := by
  refine Program.Uses.wlp (R := fun k k' => ∃ cs : List (Change Key Value),
    (∀ c ∈ cs, c ∈ adds (entries backend p)) ∧ k'.view dev = run cs (k.view dev))
    (fun k => ⟨[], by simp, rfl⟩) ?_ (fun _ _ _ _ ho h => answers_addsEntry ho h)
    (uses_addPeer p) k
  rintro k₁ k₂ k₃ ⟨cs, hcs, h₁⟩ ⟨cs', hcs', h₂⟩
  refine ⟨cs ++ cs', fun c hc => (List.mem_append.mp hc).elim (hcs c) (hcs' c), ?_⟩
  rw [h₂, h₁, run_append]

/-- Whatever the kernel answers, only a peer that can be read counts as added. -/
theorem wlp_addPeer_parses {σ : Type} {answers : Environment σ PeerOp PeerRes} {s : σ} (p : Peer) :
    wlp answers (fun added _ => added = true → Parses backend p) (addPeer backend dev p) s := by
  cases backend with
  | vxlan =>
    refine (wlp_true _ s).bind fun r1 s₁ _ => ?_
    refine wlp.bind (m := fun r2 _ => r2 = .ok () → Parses .vxlan p) ?_ fun r2 s₂ h => ?_
    · rcases addPeerL2_cases dev p with ⟨e, hrun, -, -⟩ | ⟨ip, m, underlay, hrun, hp, -⟩
      · rw [hrun]
        exact fun h => by cases h
      · exact (wlp_true _ s₁).mono fun _ _ _ _ => hp
    · intro hadded
      exact h ((isOk_iff r2).mp (Bool.and_eq_true_iff.mp hadded).2)
  | hostGw =>
    refine wlp.bind (m := fun r _ => r = .ok () → Parses .hostGw p) ?_ fun r s₁ h => ?_
    · rcases addHostGwRoute_cases dev p with ⟨e, hrun, -, -⟩ | ⟨dst, len, gw, hrun, hp, -⟩
      · rw [hrun]
        exact fun h => by cases h
      · exact (wlp_true _ s).mono fun _ _ _ _ => hp
    · exact fun hadded => h ((isOk_iff r).mp hadded)

/-- Removals are not among what fails. -/
theorem wlp_removePeer_view {p : Peer} (hp : Parses backend p) :
    AddingWlp (fun _ k' => k'.view dev = run (removes (entries backend p)) (k.view dev))
      (removePeer backend dev p) k := by
  have hstep : ∀ (k : Kernel) o r k', True → ¬ IsAddition o → Answers k o r k' →
      k.Answers o r k' ∧ True := by
    rintro k o r k' - ho (h | ⟨hadd, -⟩)
    · exact ⟨h, trivial⟩
    · exact absurd hadd ho
  refine ((KernelTables.wlp_removePeer hp).within hstep (uses_removePeer p) trivial).mono ?_
  exact fun _ _ h => h.1

/-- The actions make their changes, of which some insertions may be missing. -/
theorem wlp_foldlM_thinned {as : List Action}
    (has : ∀ p, Action.remove p ∈ as → Parses backend p) (next : PeerMap) :
    AddingWlp (fun _ k' => ∃ cs, Thinned cs (as.flatMap (changes backend)) ∧
        k'.view dev = run cs (k.view dev))
      (as.foldlM (applyAction backend dev) next) k := by
  induction as generalizing next k with
  | nil => exact ⟨[], ⟨fun c hc => hc, fun x hx => hx⟩, rfl⟩
  | cons a as ih =>
    rw [List.foldlM_cons]
    have hfirst : AddingWlp (fun _ k' => ∃ cs, Thinned cs (changes backend a) ∧
        k'.view dev = run cs (k.view dev)) (applyAction backend dev next a) k := by
      cases a with
      | add p =>
        refine (wlp_addPeer_view p).bind fun added k₁ ⟨cs, hcs, hview⟩ => ?_
        have hthin : Thinned cs (changes backend (.add p)) :=
          ⟨hcs, fun x hx => absurd hx remove_not_mem_adds⟩
        cases added <;> exact ⟨cs, hthin, hview⟩
      | remove p =>
        refine (wlp_removePeer_view (has p List.mem_cons_self)).bind fun _ k₁ hview => ?_
        exact ⟨_, ⟨fun c hc => hc, fun x hx => hx⟩, hview⟩
    refine hfirst.bind fun next' k₁ ⟨cs, hcs, hview⟩ => ?_
    refine (ih (fun p hp => has p (List.mem_cons_of_mem a hp)) next').mono ?_
    rintro _ k₂ ⟨cs', hcs', hrest⟩
    rw [List.flatMap_cons]
    exact ⟨cs ++ cs', hcs.append hcs', by rw [hrest, hview, run_append]⟩

/-- All peers in a map can be read. -/
def AllParse (backend : BackendType) (m : PeerMap) : Prop :=
  ∀ n p, m.lookup n = some p → Parses backend p

theorem AllParse.erase {m : PeerMap} (h : AllParse backend m) (n : String) :
    AllParse backend (m.erase n) := by
  intro n' p hp
  by_cases hn : n' = n
  · subst hn
    simp at hp
  · exact h n' p (by rwa [AList.lookup_erase_ne hn] at hp)

theorem AllParse.insert {m : PeerMap} (h : AllParse backend m) (n : String) {p : Peer}
    (hp : Parses backend p) : AllParse backend (m.insert n p) := by
  intro n' q hq
  by_cases hn : n' = n
  · subst hn
    rw [AList.lookup_insert] at hq
    rwa [← Option.some.inj hq]
  · exact h n' q (by rwa [AList.lookup_insert_ne hn] at hq)

/-- Only peers that can be read come into the memory. -/
theorem wlp_foldlM_allParse {σ : Type} {answers : Environment σ PeerOp PeerRes} {s : σ}
    {as : List Action} {next : PeerMap} (h : AllParse backend next) :
    wlp answers (fun next' _ => AllParse backend next')
      (as.foldlM (applyAction backend dev) next) s := by
  induction as generalizing next s with
  | nil => exact h
  | cons a as ih =>
    rw [List.foldlM_cons]
    have hfirst : wlp answers (fun next' _ => AllParse backend next')
        (applyAction backend dev next a) s := by
      cases a with
      | add p =>
        refine (wlp_addPeer_parses p).bind fun added s₁ hadded => ?_
        cases added with
        | true => exact h.insert p.node (hadded rfl)
        | false => exact h.erase p.node
      | remove p => exact (wlp_true _ s).bind fun _ s₁ _ => h.erase p.node
    exact hfirst.bind fun next' s₁ h' => ih h'

/-- A peer of the map calls for the entry. -/
def Owned (backend : BackendType) (m : PeerMap) (x : Key) (v : Value) : Prop :=
  ∃ n p, m.lookup n = some p ∧ (x, v) ∈ entries backend p

/-- Every entry of the device will still be removed or retried. -/
def NoOrphans (backend : BackendType) (dev : ℕ) (k : Kernel) (installed desired : PeerMap) : Prop :=
  ∀ x v, k.view dev x = some v → Owned backend installed x v ∨ Owned backend desired x v

/-- An installed peer that is not desired any more takes the key with it. -/
def Freed (backend : BackendType) (installed desired : PeerMap) (x : Key) : Prop :=
  ∃ n p v, installed.lookup n = some p ∧ desired.lookup n ≠ some p ∧ (x, v) ∈ entries backend p

/-- When a peer that could not be added is not desired any more, none of its entries is in the
kernel, or else another peer calls for it or takes it along. -/
def Accounted (backend : BackendType) (dev : ℕ) (k : Kernel) (installed old desired : PeerMap) :
    Prop :=
  ∀ n p, old.lookup n = some p → installed.lookup n ≠ some p → desired.lookup n ≠ some p →
    ∀ x v, (x, v) ∈ entries backend p → k.view dev x = some v →
      Owned backend desired x v ∨ Freed backend installed desired x

/-- The memory, the desired peers of the last call and the kernel, after any number of calls. -/
inductive Reached (allowed : Kernel → PeerMap → PeerMap → PeerMap → Prop) (backend : BackendType)
    (dev : ℕ) (selfName : String) (k₀ : Kernel) : PeerMap → PeerMap → Kernel → Prop
  | start : Reached allowed backend dev selfName k₀ ∅ ∅ k₀
  | call {installed installed' old desired next : PeerMap} {nodes : List Node} {k k' : Kernel}
      (before : Reached allowed backend dev selfName k₀ installed old k)
      (order : installed'.entries.Perm installed.entries)
      (order' : desired.entries.Perm (desiredFromNodes nodes selfName backend).entries)
      (step : allowed k installed old desired)
      (exec : Exec Answers k (reconcilePeers backend dev installed' desired) next k') :
      Reached allowed backend dev selfName k₀ next desired k'

/-- What holds of the memory after every call. -/
structure Remembered (backend : BackendType) (installed old : PeerMap) : Prop where
  keyed : Keyed installed
  parses : AllParse backend installed
  desired : ∀ n p, installed.lookup n = some p → old.lookup n = some p

variable {installed old desired next : PeerMap}

theorem Remembered.reconcilePeers (h : Remembered backend installed old) (hd : Keyed desired)
    (hexec : Exec Answers k (reconcilePeers backend dev installed desired) next k') :
    Remembered backend next desired := by
  obtain ⟨added, -, rfl⟩ := exists_ran (nodup_reconcile h.keyed hd) hexec
  have hkept := bookkept h.keyed hd added
  exact ⟨hkept.keyed, hexec.wlp (wlp_foldlM_allParse h.parses), fun n p hp => ((hkept.held n p).mp hp).1⟩

omit [Crates] in
theorem remove_mem_reconcile_iff (hi : Keyed installed) (hd : Keyed desired) {p : Peer} :
    Action.remove p ∈ reconcile installed desired ↔
      ∃ n, installed.lookup n = some p ∧ desired.lookup n ≠ some p := by
  rw [mem_reconcile hi hd, remove_mem_actionsAt, actionNode]
  constructor
  · exact fun h => ⟨p.node, h⟩
  · rintro ⟨n, hn, hnew⟩
    obtain rfl := hi n p hn
    exact ⟨hn, hnew⟩

/-- A call leaves only entries of desired peers exactly if every entry from before is one, or
is taken along. -/
theorem owned_after_iff (h : Remembered backend installed old) (hd : Keyed desired)
    (hexec : Exec Answers k (reconcilePeers backend dev installed desired) next k') :
    (∀ x v, k'.view dev x = some v → Owned backend desired x v) ↔
      ∀ x v, k.view dev x = some v → Owned backend desired x v ∨ Freed backend installed desired x := by
  have hremove := fun p => remove_mem_reconcile_iff (p := p) h.keyed hd
  obtain ⟨cs, hthin, hview⟩ := hexec.wlp (wlp_foldlM_thinned (fun p hp => by
    obtain ⟨n, hn, -⟩ := (hremove p).mp hp
    exact h.parses n p hn) installed)
  have hadd : ∀ x v, Change.add x v ∈ cs → Owned backend desired x v := by
    intro x v hx
    obtain ⟨a, ha, hx⟩ := List.mem_flatMap.mp (hthin.subset _ hx)
    cases a with
    | add p =>
      obtain ⟨n, hn⟩ := add_mem_reconcile ha
      exact ⟨n, p, hn, add_mem_adds.mp hx⟩
    | remove p => exact absurd hx add_not_mem_removes
  have hfreed : ∀ x, Change.remove x ∈ cs ↔ Freed backend installed desired x := by
    intro x
    constructor
    · intro hx
      obtain ⟨a, ha, hx⟩ := List.mem_flatMap.mp (hthin.subset _ hx)
      cases a with
      | add p => exact absurd hx remove_not_mem_adds
      | remove p =>
        obtain ⟨n, hn, hnew⟩ := (hremove p).mp ha
        obtain ⟨v, hv⟩ := remove_mem_removes.mp hx
        exact ⟨n, p, v, hn, hnew, hv⟩
    · rintro ⟨n, p, v, hn, hnew, hv⟩
      apply hthin.removes
      exact List.mem_flatMap.mpr ⟨.remove p, (hremove p).mpr ⟨n, hn, hnew⟩,
        remove_mem_removes.mpr ⟨v, hv⟩⟩
  rw [hview]
  constructor
  · intro hafter x v hx
    by_cases hr : Change.remove x ∈ cs
    · exact .inr ((hfreed x).mp hr)
    · exact .inl (hafter x v (run_of_taken hx hr))
  · intro hbefore x v hx
    rcases run_eq_some hx with hx | ⟨hx, hr⟩
    · exact hadd x v hx
    · exact (hbefore x v hx).resolve_right fun hf => hr ((hfreed x).mpr hf)

/-- What is known between two calls. -/
structure Tidy (backend : BackendType) (dev : ℕ) (installed old : PeerMap) (k : Kernel) : Prop where
  remembered : Remembered backend installed old
  owned : ∀ x v, k.view dev x = some v → Owned backend old x v

theorem noOrphans_iff (h : Remembered backend installed old) :
    NoOrphans backend dev k installed old ↔ ∀ x v, k.view dev x = some v → Owned backend old x v := by
  constructor
  · intro hno x v hx
    rcases hno x v hx with ⟨n, p, hp, hv⟩ | ho
    · exact ⟨n, p, h.desired n p hp, hv⟩
    · exact ho
  · exact fun ho x v hx => .inr (ho x v hx)

/-- One call, whatever is answered. -/
theorem Tidy.reconcilePeers {installed' : PeerMap} {nodes : List Node} {selfName : String}
    (h : Tidy backend dev installed old k) (order : installed'.entries.Perm installed.entries)
    (order' : desired.entries.Perm (desiredFromNodes nodes selfName backend).entries)
    (hexec : Exec Answers k (Flanneld.reconcilePeers backend dev installed' desired) next k') :
    Remembered backend next desired ∧
      (NoOrphans backend dev k' next desired ↔ Accounted backend dev k installed old desired) := by
  have hsame : ∀ n, installed'.lookup n = installed.lookup n := fun n => AList.perm_lookup order
  have hd : Keyed desired := fun n p hp =>
    keyed_desiredFromNodes n p (AList.perm_lookup order' (a := n) ▸ hp)
  have hr : Remembered backend installed' old := ⟨fun n p hp => h.remembered.keyed n p (hsame n ▸ hp),
    fun n p hp => h.remembered.parses n p (hsame n ▸ hp),
    fun n p hp => h.remembered.desired n p (hsame n ▸ hp)⟩
  have hnext := hr.reconcilePeers hd hexec
  refine ⟨hnext, ?_⟩
  rw [noOrphans_iff hnext, owned_after_iff hr hd hexec]
  simp only [Freed, hsame]
  constructor
  · exact fun hall n p _ _ _ x v _ hx => hall x v hx
  · intro hacc x v hx
    obtain ⟨n, p, hp, hv⟩ := h.owned x v hx
    by_cases hnew : desired.lookup n = some p
    · exact .inl ⟨n, p, hnew, hv⟩
    · by_cases hi : installed.lookup n = some p
      · exact .inr ⟨n, p, v, hi, hnew, hv⟩
      · exact hacc n p hp hi hnew x v hv hx

/-- In a run in which no peer that could not be added is given up with entries in the kernel,
every entry belongs to an installed or a desired peer after every call, and the first call
that gives up such a peer leaves an entry that belongs to none. -/
theorem no_orphans_iff {k₀ : Kernel} {selfName : String} (hk₀ : ∀ x, k₀.view dev x = none)
    (h : Reached (Accounted backend dev) backend dev selfName k₀ installed old k) :
    NoOrphans backend dev k installed old ∧
    ∀ (installed' desired next : PeerMap) (nodes : List Node) (k' : Kernel),
      installed'.entries.Perm installed.entries →
      desired.entries.Perm (desiredFromNodes nodes selfName backend).entries →
      Exec Answers k (reconcilePeers backend dev installed' desired) next k' →
      (NoOrphans backend dev k' next desired ↔ Accounted backend dev k installed old desired) := by
  have htidy : Tidy backend dev installed old k := by
    induction h with
    | start => exact ⟨⟨by simp [Keyed], by simp [AllParse], by simp⟩, fun x v hx => by simp [hk₀] at hx⟩
    | call before order order' step exec ih =>
      obtain ⟨hnext, hiff⟩ := ih.reconcilePeers order order' exec
      exact ⟨hnext, (noOrphans_iff hnext).mp (hiff.mpr step)⟩
  exact ⟨(noOrphans_iff htidy.remembered).mpr htidy.owned,
    fun _ _ _ _ _ order order' hexec => (htidy.reconcilePeers order order' hexec).2⟩

/-- A kernel that fails the additions it is told to. -/
def answer (fails : PeerOp → Bool) (o : PeerOp) (k : Kernel) : PeerRes o × Kernel :=
  if fails o then (failure noBufs o, k) else k.perform o

def calledWith (fails : PeerOp → Bool) (nodes : List Node) (installed : PeerMap) (k : Kernel) :
    Option (PeerMap × Kernel) :=
  (reconcilePeers .vxlan 7 installed (desiredFromNodes nodes "a" .vxlan)).run
    (fun o k => some (answer fails o k)) k

theorem exec_of_calledWith {fails : PeerOp → Bool} (hfails : ∀ o, fails o = true → IsAddition o)
    {nodes : List Node} (h : calledWith fails nodes installed k = some (next, k')) :
    Exec Answers k (reconcilePeers .vxlan 7 installed (desiredFromNodes nodes "a" .vxlan))
      next k' := by
  refine Program.exec_of_run (fun o k r k₁ hr => ?_) h
  obtain rfl := (congrArg Prod.fst (Option.some.inj hr)).symm
  obtain rfl := (congrArg Prod.snd (Option.some.inj hr)).symm
  unfold answer
  cases hf : fails o with
  | false => exact .inl (k.perform_answers o)
  | true =>
    have hadd := hfails o hf
    have he : noBufs.code ≠ some eexist := by decide
    refine .inr ⟨hadd, ?_⟩
    cases o with
    | addRoute m => exact ⟨⟨_, rfl, he⟩, rfl⟩
    | addNeighbour m => exact ⟨⟨_, rfl, he⟩, rfl⟩
    | addFdb m => exact ⟨⟨_, rfl, he⟩, rfl⟩
    | _ => exact hadd.elim

omit [Crates] in
theorem isAddition_of_isAddRoute (o : PeerOp) (h : isAddRoute o = true) : IsAddition o := by
  cases o <;> trivial

/-- No peer is given up unless it was installed. -/
theorem accounted_of_kept (h : ∀ n p, old.lookup n = some p →
    installed.lookup n = some p ∨ desired.lookup n = some p) :
    Accounted backend dev k installed old desired := by
  intro n p hp hi hd
  exact absurd hd ((h n p hp).resolve_left hi |> not_not_intro)

omit [Crates] in
/-- A peer whose route is refused at first, and whose node goes when it has been added. -/
theorem no_orphans_retried : ∃ k,
    @Reached Crates.compact (@Accounted Crates.compact .vxlan 7) .vxlan 7 "a" emptyKernel ∅ ∅ k ∧
    @NoOrphans Crates.compact .vxlan 7 k ∅ ∅ := by
  let := Crates.compact
  have h : ((calledWith isAddRoute [nodeB] ∅ emptyKernel).bind fun r =>
      (calledWith (fun _ => false) [nodeB] r.1 r.2).bind fun r' =>
        (calledWith (fun _ => false) [] r'.1 r'.2).map fun r'' =>
          (r.1.entries, r'.1.entries, r''.1.entries)) =
      some ([], [⟨"b", peerB "10.244.2.0/24"⟩], []) := by
    decide +kernel
  obtain ⟨⟨next₁, k₁⟩, h₁, h⟩ := Option.bind_eq_some_iff.mp h
  obtain ⟨⟨next₂, k₂⟩, h₂, h⟩ := Option.bind_eq_some_iff.mp h
  obtain ⟨⟨next₃, k₃⟩, h₃, he⟩ := Option.map_eq_some_iff.mp h
  obtain ⟨he₁, he⟩ := Prod.mk.inj he
  obtain ⟨he₂, he₃⟩ := Prod.mk.inj he
  obtain rfl : next₁ = ∅ := AList.ext he₁
  obtain rfl : next₂ = peersB "10.244.2.0/24" := AList.ext he₂
  obtain rfl : next₃ = ∅ := AList.ext he₃
  have hstart : Reached (Accounted .vxlan 7) .vxlan 7 "a" emptyKernel ∅ ∅ emptyKernel := .start
  have hcall₁ := Reached.call hstart (.refl _) (.refl _)
    (accounted_of_kept fun n p hp => by simp at hp)
    (exec_of_calledWith isAddition_of_isAddRoute h₁)
  have hcall₂ := Reached.call hcall₁ (.refl _) (.refl _)
    (accounted_of_kept fun n p hp => .inr hp)
    (exec_of_calledWith (fun o ho => by cases ho) h₂)
  have hcall₃ := Reached.call hcall₂ (.refl _) (.refl _)
    (accounted_of_kept fun n p hp => .inl (by rwa [desired_nodeB] at hp))
    (exec_of_calledWith (fun o ho => by cases ho) h₃)
  exact ⟨k₃, hcall₃, (no_orphans_iff (fun x => by cases x <;> rfl) hcall₃).1⟩

omit [Crates] in
/-- A peer whose route is refused, and whose node goes before the next call. -/
theorem orphans_of_refused_route : ∃ installed desired k x v,
    @Reached Crates.compact (fun _ _ _ _ => True) .vxlan 7 "a" emptyKernel installed desired k ∧
    k.view 7 x = some v ∧ ¬ @Owned Crates.compact .vxlan installed x v ∧
    ¬ @Owned Crates.compact .vxlan desired x v := by
  let := Crates.compact
  have h : ((calledWith isAddRoute [nodeB] ∅ emptyKernel).bind fun r =>
      (calledWith (fun _ => false) [] r.1 r.2).map fun r' =>
        (r'.1.entries, r'.2.view 7 (.neighbour (.ofOctets 10 244 2 0)))) =
      some ([], some (.mac ⟨[10, 0, 0, 0, 0, 11], rfl⟩)) := by
    decide +kernel
  obtain ⟨⟨next₁, k₁⟩, h₁, h⟩ := Option.bind_eq_some_iff.mp h
  obtain ⟨⟨next₂, k₂⟩, h₂, he⟩ := Option.map_eq_some_iff.mp h
  obtain ⟨he₂, hview⟩ := Prod.mk.inj he
  obtain rfl : next₂ = ∅ := AList.ext he₂
  have hstart : Reached (fun _ _ _ _ => True) .vxlan 7 "a" emptyKernel ∅ ∅ emptyKernel := .start
  have hcall₁ := Reached.call hstart (.refl _) (.refl _) trivial
    (exec_of_calledWith isAddition_of_isAddRoute h₁)
  have hcall₂ := Reached.call hcall₁ (.refl _) (.refl _) trivial
    (exec_of_calledWith (fun o ho => by cases ho) h₂)
  refine ⟨∅, _, k₂, _, _, hcall₂, hview, ?_, ?_⟩
  · rintro ⟨n, p, hp, -⟩
    simp at hp
  · rintro ⟨n, p, hp, -⟩
    simp [desiredFromNodes] at hp

end FlannelRs.PeerOrphans
