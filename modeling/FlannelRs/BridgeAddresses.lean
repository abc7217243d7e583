import FlannelRs.BridgePlugin
import FlannelRs.LeaseOwnership
import FlannelRs.ProcessPools

/-!
# Addresses on the bridge under concurrent ADD and DEL

Every container is a process that runs one command of the plugin at a time. A command of
the IPAM plugin is one step, since it works under its lock. Steps may fail, except that
interfaces are deleted when they are asked to be.
-/

namespace FlannelRs.BridgeAddresses
open InteractionPrograms ProcessPools FileSystem Ipv4Addresses RustText CniTypes Bridge
open LeaseStores JsonTexts

/-- A veth pair, by the index of its host end. The container end is in a network
namespace once it was moved there. `owner` is the container it was created for. -/
structure Veth where
  peer : ℕ
  name : String
  ns : Option String
  addrs : List Ipv4Addr
  owner : Attachment
  deriving DecidableEq

/-- The node. `releasing` are the containers whose DEL has released their leases and not
yet deleted their interface. -/
structure Node where
  fs : Fs
  fds : ℕ → Option String
  veths : ℕ → Option Veth
  releasing : List Attachment

/-- A command, its configuration and the remaining arguments of its process. -/
structure Job where
  command : String
  stdin : String
  args : String
  path : String

/-- The addresses of container interfaces that exist are pairwise distinct. -/
def Node.DistinctAddresses (s : Node) : Prop :=
  (∀ i v, s.veths i = some v → v.addrs.Nodup) ∧
  ∀ i k v w x, s.veths i = some v → s.veths k = some w → x ∈ v.addrs → x ∈ w.addrs → i = k

/-- No container end is in the namespace under the name. -/
def Node.Free (s : Node) (ns name : String) : Prop :=
  ∀ i v, s.veths i = some v → ¬ (v.ns = some ns ∧ v.name = name)

def Node.setVeth (s : Node) (i : ℕ) (v : Option Veth) : Node :=
  { s with veths := Function.update s.veths i v }

/-- The command arguments of a container, given the path of its namespace. -/
def argsOf (netns : Attachment → String) (o : Attachment) (j : Job) : CniArgs :=
  ⟨j.command, o.1, netns o, o.2, j.args, j.path⟩

section

variable [Crates]

/-- A step of the kernel or the IPAM plugin for the container `o` in its job `j`. -/
def Node.Answers (o : Attachment) (j : Job) (s : Node) : (op : BridgeOp) → BridgeRes op → Node → Prop
  | .runDelegate _ args stdin, r, s' =>
      (∃ result fs', Exec (Fs.Answers 0) s.fs (HostLocal.run args stdin).run result fs' ∧
        r = .ok (pluginOutput result) ∧
        s' = { s with
          fs := fs'
          releasing := if j.command = "DEL" then o :: s.releasing else s.releasing }) ∨
      ((∃ e, r = .error e) ∧ s' = s)
  | .createVeth _ temp _, r, s' =>
      (∃ i peer, r = .ok (i, peer) ∧ s.veths i = none ∧ (∀ k v, s.veths k = some v → v.peer ≠ peer) ∧
        s' = s.setVeth i (some ⟨peer, temp, none, [], o⟩)) ∨
      ((∃ e, r = .error e) ∧ (s' = s ∨ ∃ i peer, s.veths i = none ∧
        (∀ k v, s.veths k = some v → v.peer ≠ peer) ∧
        s' = s.setVeth i (some ⟨peer, temp, none, [], o⟩)))
  | .openNetns path, r, s' =>
      (∃ fd, r = .ok fd ∧ s.fds fd = none ∧
        s' = { s with fds := Function.update s.fds fd (some path) }) ∨
      ((∃ e, r = .error e) ∧ s' = s)
  | .moveToNetns peer fd, r, s' =>
      (∃ i v ns, s.veths i = some v ∧ v.peer = peer ∧ v.ns = none ∧ s.fds fd = some ns ∧
        s.Free ns v.name ∧ r = .ok () ∧ s' = s.setVeth i (some { v with ns := some ns })) ∨
      ((∃ e, r = .error e) ∧ s' = s)
  | .configureContainerIface netns temp ifname plan _, r, s' =>
      (∃ e, r = .error e) ∧ s' = s ∨
      ∃ i v, s.veths i = some v ∧ v.ns = some netns ∧ v.name = temp ∧
        (temp = ifname ∨ s.Free netns ifname) ∧
        ((r = .ok () ∧ s' = s.setVeth i (some { v with
            name := ifname
            addrs := plan.addr :: v.addrs })) ∨
          ((∃ e, r = .error e) ∧ s' = s.setVeth i (some { v with name := ifname })))
  | .delLink i, _, s' => s' = s.setVeth i none
  | .deleteContainerIface netns ifname, r, s' =>
      r = .ok () ∧ s' = { s with
        veths := fun i => (s.veths i).filter fun v => ¬ (v.ns = some netns ∧ v.name = ifname)
        releasing := s.releasing.filter (· ≠ o) }
  | _, _, s' => s' = s

/-- A container is added while none of its interfaces has an address. -/
def Node.Clean (s : Node) (o : Attachment) : Prop :=
  ∀ i v, s.veths i = some v → v.owner = o → v.addrs = []

/-- The jobs of a container on the lease directory `dir`. -/
def Admissible (dir : String) (o : Attachment) (j : Job) (s : Node) : Prop :=
  o.Valid ∧ (j.command = "ADD" ∨ j.command = "DEL") ∧
  LeadsTo j.stdin dir ∧ (j.command = "ADD" → s.Clean o)

/-- The pool of the containers of a node. `guard` restricts the steps that are taken. -/
def system (netns : Attachment → String) (dir : String)
    (guard : Attachment → Node → BridgeOp → Prop) :
    System Node Attachment Job BridgeOp BridgeRes (Except CniError String) where
  code o j := (Bridge.run (argsOf netns o j) j.stdin).run
  start o j s s' := Admissible dir o j s ∧ s' = s
  answers o j s op r s' := s.Answers o j op r s' ∧ guard o s op
  finish _ _ _ s s' := s' = s

/-- No address is configured while the interface of another container carries it and the
DEL of that container is about to delete it. -/
def NoPendingDelete (o : Attachment) (s : Node) : BridgeOp → Prop
  | .configureContainerIface _ _ _ plan _ =>
    ∀ q, q ≠ o → q ∈ s.releasing → ∀ i v, s.veths i = some v → v.owner = q → plan.addr ∉ v.addrs
  | _ => True

end

structure Inv (netns : Attachment → String) (dir : String) (s : Node) : Prop where
  placed : ∀ i v n, s.veths i = some v → v.ns = some n → n = netns v.owner
  unique : ∀ i k v w n, s.veths i = some v → s.veths k = some w → v.ns = some n →
    w.ns = some n → v.name = w.name → i = k
  peers : ∀ i k v w, s.veths i = some v → s.veths k = some w → v.peer = w.peer → i = k
  carried : ∀ i v x, s.veths i = some v → x ∈ v.addrs →
    v.owner.Valid ∧ v.ns = some (netns v.owner) ∧ v.name = v.owner.2 ∧ v.addrs = [x] ∧
      (lease dir s.fs x = some v.owner.file ∨ v.owner ∈ s.releasing)
  distinct : ∀ i k v w x, s.veths i = some v → s.veths k = some w → x ∈ v.addrs →
    x ∈ w.addrs → i = k

/-- The other containers leave the interfaces and the leases of `o` alone. -/
structure Rely (dir : String) (o : Attachment) (s s' : Node) : Prop where
  veths : ∀ i v, v.owner = o → (s.veths i = some v ↔ s'.veths i = some v)
  leases : o.Valid → ∀ x, lease dir s.fs x = some o.file → lease dir s'.fs x = some o.file
  releasing : o ∈ s.releasing ↔ o ∈ s'.releasing
  fds : ∀ fd path, s.fds fd = some path → s'.fds fd = some path

theorem Rely.refl (dir : String) (o : Attachment) (s : Node) : Rely dir o s s :=
  ⟨fun _ _ _ => Iff.rfl, fun _ _ h => h, Iff.rfl, fun _ _ h => h⟩

theorem Rely.trans {dir : String} {o : Attachment} {s t u : Node} (h : Rely dir o s t)
    (h' : Rely dir o t u) : Rely dir o s u where
  veths i v hv := (h.veths i v hv).trans (h'.veths i v hv)
  leases ho x hx := h'.leases ho x (h.leases ho x hx)
  releasing := h.releasing.trans h'.releasing
  fds fd path hp := h'.fds fd path (h.fds fd path hp)

def contract (netns : Attachment → String) (dir : String) : Contract Node Attachment Job where
  inv := Inv netns dir
  rely := Rely dir
  guar o _ s s' := ∀ q, q ≠ o → Rely dir q s s'
  rely_refl o s := .refl dir o s
  rely_trans _ _ _ _ h h' := h.trans h'
  guar_rely _ _ q _ _ hq _ h := h q hq

theorem Inv.distinctAddresses {netns : Attachment → String} {dir : String} {s : Node}
    (h : Inv netns dir s) : s.DistinctAddresses := by
  refine ⟨fun i v hv => ?_, h.distinct⟩
  cases haddrs : v.addrs with
  | nil => exact List.nodup_nil
  | cons x xs =>
    have hx : x ∈ v.addrs := by simp [haddrs]
    obtain ⟨-, -, -, hone, -⟩ := h.carried i v x hv hx
    rw [← haddrs, hone]
    exact List.nodup_singleton x

variable {netns : Attachment → String} {dir : String} {o : Attachment} {s s' : Node}

/-- A veth pair of `o` is created or changed. -/
theorem Inv.setVeth (hi : Inv netns dir s) {i : ℕ} {v : Veth}
    (hplaced : ∀ n, v.ns = some n → n = netns v.owner)
    (hunique : ∀ k w n, k ≠ i → s.veths k = some w → v.ns = some n → w.ns = some n →
      v.name ≠ w.name)
    (hpeer : ∀ k w, k ≠ i → s.veths k = some w → v.peer ≠ w.peer)
    (hcarried : ∀ x ∈ v.addrs, v.owner.Valid ∧ v.ns = some (netns v.owner) ∧
      v.name = v.owner.2 ∧ v.addrs = [x] ∧ lease dir s.fs x = some v.owner.file)
    (hdistinct : ∀ k w x, k ≠ i → s.veths k = some w → x ∈ v.addrs → x ∉ w.addrs) :
    Inv netns dir (s.setVeth i (some v)) := by
  have hset : ∀ k w, (s.setVeth i (some v)).veths k = some w →
      (k = i ∧ w = v) ∨ (k ≠ i ∧ s.veths k = some w) := by
    intro k w h
    by_cases hk : k = i
    · subst hk
      left
      simpa [Node.setVeth, eq_comm] using h
    · right
      exact ⟨hk, by simpa [Node.setVeth, Function.update_of_ne hk] using h⟩
  refine ⟨?_, ?_, ?_, ?_, ?_⟩
  · intro k w n h hn
    rcases hset k w h with ⟨-, rfl⟩ | ⟨-, h⟩
    · exact hplaced n hn
    · exact hi.placed k w n h hn
  · intro k l w u n hw hu hwn hun hname
    rcases hset k w hw with ⟨rfl, rfl⟩ | ⟨hk, hw'⟩ <;>
      rcases hset l u hu with ⟨rfl, rfl⟩ | ⟨hl, hu'⟩
    · rfl
    · exact absurd hname (hunique l u n hl hu' hwn hun)
    · exact absurd hname.symm (hunique k w n hk hw' hun hwn)
    · exact hi.unique k l w u n hw' hu' hwn hun hname
  · intro k l w u hw hu hp
    rcases hset k w hw with ⟨rfl, rfl⟩ | ⟨hk, hw'⟩ <;>
      rcases hset l u hu with ⟨rfl, rfl⟩ | ⟨hl, hu'⟩
    · rfl
    · exact absurd hp (hpeer l u hl hu')
    · exact absurd hp.symm (hpeer k w hk hw')
    · exact hi.peers k l w u hw' hu' hp
  · intro k w x h hx
    rcases hset k w h with ⟨-, rfl⟩ | ⟨-, h⟩
    · obtain ⟨h1, h2, h3, h4, h5⟩ := hcarried x hx
      exact ⟨h1, h2, h3, h4, .inl h5⟩
    · exact hi.carried k w x h hx
  · intro k l w u x hw hu hxw hxu
    rcases hset k w hw with ⟨rfl, rfl⟩ | ⟨hk, hw'⟩ <;>
      rcases hset l u hu with ⟨rfl, rfl⟩ | ⟨hl, hu'⟩
    · rfl
    · exact absurd hxu (hdistinct l u x hl hu' hxw)
    · exact absurd hxw (hdistinct k w x hk hw' hxu)
    · exact hi.distinct k l w u x hw' hu' hxw hxu

/-- Some veth pairs are deleted. -/
theorem Inv.delete (hi : Inv netns dir s) (hfs : s'.fs = s.fs)
    (hveths : ∀ i v, s'.veths i = some v → s.veths i = some v)
    (hcarried : ∀ i v x, s'.veths i = some v → x ∈ v.addrs → v.owner ∈ s.releasing →
      v.owner ∈ s'.releasing) : Inv netns dir s' where
  placed i v n hv := hi.placed i v n (hveths i v hv)
  unique i k v w n hv hw := hi.unique i k v w n (hveths i v hv) (hveths k w hw)
  peers i k v w hv hw := hi.peers i k v w (hveths i v hv) (hveths k w hw)
  carried i v x hv hx := by
    obtain ⟨h1, h2, h3, h4, h5⟩ := hi.carried i v x (hveths i v hv) hx
    refine ⟨h1, h2, h3, h4, ?_⟩
    rw [hfs]
    exact h5.imp_right (hcarried i v x hv hx)
  distinct i k v w x hv hw := hi.distinct i k v w x (hveths i v hv) (hveths k w hw)

/-- Only veth pairs of `o` are created, changed or deleted. -/
theorem guar_setVeth {i : ℕ} {nv : Option Veth} (hold : ∀ v, s.veths i = some v → v.owner = o)
    (hnew : ∀ v, nv = some v → v.owner = o) (q : Attachment) (hq : q ≠ o) :
    Rely dir q s (s.setVeth i nv) where
  veths k v hv := by
    by_cases hk : k = i
    · subst hk
      have h1 : s.veths k ≠ some v := fun h => hq (hv.symm.trans (hold v h))
      have h2 : nv ≠ some v := fun h => hq (hv.symm.trans (hnew v h))
      simp [Node.setVeth, h1, h2]
    · simp [Node.setVeth, Function.update_of_ne hk]
  leases _ _ h := h
  releasing := Iff.rfl
  fds _ _ h := h

/-- None of its interfaces has an address, and it is not being deleted. -/
def Ready (o : Attachment) (s : Node) : Prop := s.Clean o ∧ o ∉ s.releasing

/-- Of its veth pairs only pair `i` may have an address, and it is not being deleted. -/
def Only (o : Attachment) (i : ℕ) (s : Node) : Prop :=
  (∃ v, s.veths i = some v ∧ v.owner = o) ∧
  (∀ k v, k ≠ i → s.veths k = some v → v.owner = o → v.addrs = []) ∧ o ∉ s.releasing

/-- The address is leased to it. -/
def Leased (dir : String) (o : Attachment) (ip : Ipv4Addr) (s : Node) : Prop :=
  lease dir s.fs ip = some o.file

theorem Ready.rely (hr : Rely dir o s s') (h : Ready o s) : Ready o s' :=
  ⟨fun i v hv ho => h.1 i v ((hr.veths i v ho).mpr hv) ho, fun hd => h.2 (hr.releasing.mpr hd)⟩

theorem Only.rely {i : ℕ} (hr : Rely dir o s s') (h : Only o i s) : Only o i s' := by
  obtain ⟨⟨v, hv, ho⟩, honly, hrel⟩ := h
  refine ⟨⟨v, (hr.veths i v ho).mp hv, ho⟩, fun k w hk hw how => ?_, fun hd => hrel ?_⟩
  · exact honly k w hk ((hr.veths k w how).mpr hw) how
  · exact hr.releasing.mpr hd

theorem Ready.only {i : ℕ} {v : Veth} (h : Ready o s) (hv : s.veths i = some v)
    (ho : v.owner = o) : Only o i s :=
  ⟨⟨v, hv, ho⟩, fun k w _ hw how => h.1 k w hw how, h.2⟩

/-- The IPAM plugin changes leases of `o` only. -/
theorem Inv.ipam (hi : Inv netns dir s) {fs' : Fs} {rel : List Attachment}
    (hothers : ∀ q, q ≠ o → q.Valid → ∀ x, lease dir s.fs x = some q.file →
      lease dir fs' x = some q.file)
    (hrel : rel = s.releasing ∨ rel = o :: s.releasing) (hown : s.Clean o ∨ o ∈ rel) :
    Inv netns dir { s with fs := fs', releasing := rel } ∧
      ∀ q, q ≠ o → Rely dir q s { s with fs := fs', releasing := rel } := by
  have hmem : ∀ q, q ≠ o → (q ∈ s.releasing ↔ q ∈ rel) := by
    intro q hq
    rcases hrel with rfl | rfl
    · rfl
    · simp [hq]
  refine ⟨⟨hi.placed, hi.unique, hi.peers, ?_, hi.distinct⟩,
    fun q hq => ⟨fun _ _ _ => Iff.rfl, hothers q hq, hmem q hq, fun _ _ h => h⟩⟩
  intro i v x hv hx
  obtain ⟨h1, h2, h3, h4, h5⟩ := hi.carried i v x hv hx
  refine ⟨h1, h2, h3, h4, ?_⟩
  by_cases hq : v.owner = o
  · rcases hown with hclean | hmem
    · rw [hclean i v hv hq] at hx
      cases hx
    · exact .inr (hq ▸ hmem)
  · exact h5.imp (hothers _ hq h1 x) (hmem _ hq).mp

section

variable [Crates] {j : Job} {α β : Type}

abbrev SafeIn (netns : Attachment → String) (dir : String) (o : Attachment) (j : Job)
    (post : α → Node → Prop) (prog : Program BridgeOp BridgeRes α) (s : Node) : Prop :=
  (contract netns dir).Safe ((system netns dir NoPendingDelete).answers o j) o j post prog s

/-- A request from what the container knows before to what it knows after. -/
theorem safe_ask {b : BridgeOp} {A : Node → Prop} {B : BridgeRes b → Node → Prop}
    (hA : ∀ s s', Rely dir o s s' → A s → A s')
    (hB : ∀ r s s', Rely dir o s s' → B r s → B r s')
    (h : ∀ s r s', Inv netns dir s → A s → s.Answers o j b r s' → NoPendingDelete o s b →
      Inv netns dir s' ∧ (∀ q, q ≠ o → Rely dir q s s') ∧ B r s') (hs : A s) :
    SafeIn netns dir o j B (ask b) s := by
  intro s₁ hr hi r s₂ ha
  obtain ⟨hi₂, hg, hpost⟩ := h s₁ r s₂ hi (hA _ _ hr hs) ha.1 ha.2
  exact ⟨hi₂, hg, fun s₃ hr₃ _ => hB r _ _ hr₃ hpost⟩

/-- A request that changes nothing. -/
theorem safe_silent {b : BridgeOp} {A : Node → Prop}
    (hsilent : ∀ (s : Node) r s', s.Answers o j b r s' → s' = s)
    (hA : ∀ s s', Rely dir o s s' → A s → A s') (hs : A s) :
    SafeIn netns dir o j (fun _ => A) (ask b) s := by
  refine safe_ask hA (fun _ => hA) (fun s r s' hi ha h _ => ?_) hs
  obtain rfl := hsilent s r s' h
  exact ⟨hi, fun q _ => .refl dir q _, ha⟩

/-- What ADD learns from the IPAM plugin. -/
def AddLearns (dir : String) (o : Attachment) (r : Except CniError DelegateOutput) (s : Node) :
    Prop :=
  Ready o s ∧ ∀ out, r = .ok out → out.success = true →
    ∃ nc alloc ip, out.stdout = (HostLocal.addResult nc alloc ip).toJson ∧ Leased dir o ip s

theorem AddLearns.rely (ho : o.Valid) {r : Except CniError DelegateOutput}
    (hr : Rely dir o s s') (h : AddLearns dir o r s) : AddLearns dir o r s' := by
  refine ⟨h.1.rely hr, fun out hout hs => ?_⟩
  obtain ⟨nc, alloc, ip, hstdout, hlease⟩ := h.2 out hout hs
  exact ⟨nc, alloc, ip, hstdout, hr.leases ho ip hlease⟩

/-- The IPAM plugin's ADD, alone under its lock. -/
theorem hostLocal_add {args : CniArgs} {stdin : String} {fs fs' : Fs}
    {result : Except CniError String} (hcmd : args.command = "ADD") (hdir : LeadsTo stdin dir)
    (h : Exec (Fs.Answers 0) fs (HostLocal.run args stdin).run result fs') :
    (∀ x content, lease dir fs x = some content → lease dir fs' x = some content) ∧
    ∀ out, result = .ok out → ∃ nc alloc ip, out = (HostLocal.addResult nc alloc ip).toJson ∧
      lease dir fs' ip = some (Attachment.file (args.containerId, args.ifname)) := by
  rw [HostLocal.run_add hcmd] at h
  have hadd := h.wlp (wlp_cmdAdd (fun _ _ _ _ h => Fs.losing_of_mayFail (.inl h)) hdir)
  cases result with
  | error e =>
    have hwrites : WritesSucceed (Fs.Answers 0) := by
      rintro s d name text r s' ⟨-, -, hr, -⟩
      exact hr
    have hsame : SameLeases dir fs fs' := hadd hwrites
    exact ⟨fun x content hx => (hsame x).trans hx, fun out h => by cases h⟩
  | ok out =>
    obtain ⟨nc, alloc, ip, -, -, -, hout, hadded⟩ := hadd
    refine ⟨fun x content hx => ?_, fun out' h => ?_⟩
    · have hne : x ≠ ip := by
        rintro rfl
        rw [hadded.fresh] at hx
        cases hx
      exact (hadded.others x hne).trans hx
    · obtain rfl := Except.ok.inj h
      exact ⟨nc, alloc, ip, hout, hadded.file⟩

/-- The IPAM plugin's DEL, alone under its lock. -/
theorem hostLocal_del {args : CniArgs} {stdin : String} {fs fs' : Fs}
    {result : Except CniError String} (hcmd : args.command = "DEL") (hdir : LeadsTo stdin dir)
    (h : Exec (Fs.Answers 0) fs (HostLocal.run args stdin).run result fs') :
    ∀ q : Attachment, q ≠ (args.containerId, args.ifname) → q.Valid → ∀ x,
      lease dir fs x = some q.file → lease dir fs' x = some q.file := by
  rw [HostLocal.run_del hcmd] at h
  obtain ⟨hrel, -⟩ := h.wlp (wlp_cmdDel (fun _ _ _ _ h => .inl h) hdir)
  intro q hq hqv x hx
  rcases hrel x with hsame | ⟨⟨content, hcontent, howner⟩, -⟩
  · exact hsame.trans hx
  · obtain rfl := Option.some.inj (hx.symm.trans hcontent)
    rw [owner_file hqv] at howner
    exact absurd howner hq

/-- The IPAM plugin's ADD. -/
theorem safe_ipamAdd {name : String} (ho : o.Valid) (hadd : j.command = "ADD")
    (hdir : LeadsTo j.stdin dir) (hs : Ready o s) :
    SafeIn netns dir o j (AddLearns dir o)
      (ask (.runDelegate name (argsOf netns o j) j.stdin)) s := by
  have hdel : j.command ≠ "DEL" := by simp [hadd]
  refine safe_ask (fun _ _ hr h => h.rely hr) (fun _ _ _ hr h => h.rely ho hr) ?_ hs
  rintro s r s' hi hready (⟨result, fs', hexec, rfl, rfl⟩ | ⟨⟨e, rfl⟩, rfl⟩) -
  · rw [if_neg hdel]
    obtain ⟨hkeep, hok⟩ := hostLocal_add hadd hdir hexec
    obtain ⟨hi', hg⟩ := hi.ipam (o := o) (fun q _ _ x hx => hkeep x _ hx) (.inl rfl)
      (.inl hready.1)
    refine ⟨hi', hg, hready, fun out hout hs => ?_⟩
    cases result with
    | error e =>
      obtain rfl := Except.ok.inj hout
      cases hs
    | ok stdout =>
      obtain rfl := Except.ok.inj hout
      exact hok stdout rfl
  · exact ⟨hi, fun q _ => .refl dir q _, hready, fun out h => by cases h⟩

/-- The IPAM plugin's DEL on the failure paths of ADD. -/
theorem safe_ipamDel {conf : BridgeConf} (hadd : j.command = "ADD")
    (hdir : LeadsTo j.stdin dir) (hs : Ready o s) :
    SafeIn netns dir o j (fun _ => Ready o) (ipamDel conf (argsOf netns o j) j.stdin) s := by
  have hdel : j.command ≠ "DEL" := by simp [hadd]
  refine safe_ask (b := .runDelegate _ _ _) (A := Ready o) (B := fun _ => Ready o)
    (fun _ _ hr h => h.rely hr) (fun _ _ _ hr h => h.rely hr) ?_ hs
  rintro s r s' hi hready (⟨result, fs', hexec, rfl, rfl⟩ | ⟨⟨e, rfl⟩, rfl⟩) -
  · rw [if_neg hdel]
    obtain ⟨hi', hg⟩ := hi.ipam (o := o) (hostLocal_del rfl hdir hexec) (.inl rfl)
      (.inl hready.1)
    exact ⟨hi', hg, hready⟩
  · exact ⟨hi, fun q _ => .refl dir q _, hready⟩

/-- The IPAM plugin's DEL at the beginning of DEL. -/
theorem safe_release {name : String} (hdel : j.command = "DEL")
    (hdir : LeadsTo j.stdin dir) :
    SafeIn netns dir o j (fun _ _ => True)
      (ask (.runDelegate name (argsOf netns o j) j.stdin)) s := by
  refine safe_ask (A := fun _ => True) (fun _ _ _ h => h) (fun _ _ _ _ h => h) ?_ trivial
  rintro s r s' hi - (⟨result, fs', hexec, rfl, rfl⟩ | ⟨⟨e, rfl⟩, rfl⟩) -
  · rw [if_pos hdel]
    obtain ⟨hi', hg⟩ := hi.ipam (o := o) (hostLocal_del hdel hdir hexec) (.inr rfl)
      (.inr List.mem_cons_self)
    exact ⟨hi', hg, trivial⟩
  · exact ⟨hi, fun q _ => .refl dir q _, trivial⟩

/-- Between the lease and the address: the veth pair `i` of `o` is as given, and nothing has
an address. -/
def Wiring (dir : String) (o : Attachment) (ip : Ipv4Addr) (i : ℕ) (v : Veth) (s : Node) :
    Prop :=
  Ready o s ∧ Leased dir o ip s ∧ s.veths i = some v

omit [Crates] in
theorem Wiring.rely {ip : Ipv4Addr} {i : ℕ} {v : Veth} (ho : o.Valid) (hv : v.owner = o)
    (hr : Rely dir o s s') (h : Wiring dir o ip i v s) : Wiring dir o ip i v s' :=
  ⟨h.1.rely hr, hr.leases ho ip h.2.1, (hr.veths i v hv).mp h.2.2⟩

omit [Crates] in
private theorem Ready.setVeth {i : ℕ} {v : Veth} (h : Ready o s) (hv : v.addrs = []) :
    Ready o (s.setVeth i (some v)) := by
  refine ⟨fun k w hw how => ?_, h.2⟩
  by_cases hk : k = i
  · subst hk
    obtain rfl : v = w := by simpa [Node.setVeth] using hw
    exact hv
  · exact h.1 k w (by simpa [Node.setVeth, Function.update_of_ne hk] using hw) how

omit [Crates] in
/-- A new pair. -/
theorem Inv.newVeth (hi : Inv netns dir s) {i peer : ℕ} (o : Attachment) (temp : String)
    (hnone : s.veths i = none) (hpeer : ∀ k v, s.veths k = some v → v.peer ≠ peer) :
    Inv netns dir (s.setVeth i (some ⟨peer, temp, none, [], o⟩)) ∧
      ∀ q, q ≠ o → Rely dir q s (s.setVeth i (some ⟨peer, temp, none, [], o⟩)) := by
  refine ⟨hi.setVeth ?_ ?_ ?_ ?_ ?_, guar_setVeth ?_ ?_⟩
  · intro n h
    cases h
  · intro k w n _ _ h
    cases h
  · intro k w _ hw
    exact (hpeer k w hw).symm
  · intro x hx
    cases hx
  · intro k w x _ _ hx
    cases hx
  · intro v hv
    rw [hnone] at hv
    cases hv
  · rintro v ⟨rfl⟩
    rfl

theorem safe_createVeth {ip : Ipv4Addr} {host temp : String} {mtu : Option ℕ} (ho : o.Valid)
    (hs : Ready o s ∧ Leased dir o ip s) :
    SafeIn netns dir o j (fun r s' => match r with
        | .ok (i, peer) => Wiring dir o ip i ⟨peer, temp, none, [], o⟩ s'
        | .error _ => Ready o s') (ask (.createVeth host temp mtu)) s := by
  refine safe_ask (A := fun s => Ready o s ∧ Leased dir o ip s)
    (fun _ _ hr h => ⟨h.1.rely hr, hr.leases ho ip h.2⟩) ?_ ?_ hs
  · rintro (e | ⟨i, peer⟩) s s' hr h
    · exact Ready.rely hr h
    · exact Wiring.rely ho rfl hr h
  · rintro s r s' hi ⟨hready, hlease⟩
      (⟨i, peer, rfl, hnone, hpeer, rfl⟩ | ⟨⟨e, rfl⟩, rfl | ⟨i, peer, hnone, hpeer, rfl⟩⟩) -
    · obtain ⟨hi', hg⟩ := hi.newVeth o temp hnone hpeer
      exact ⟨hi', hg, hready.setVeth rfl, hlease, by simp [Node.setVeth]⟩
    · exact ⟨hi, fun q _ => .refl dir q _, hready⟩
    · obtain ⟨hi', hg⟩ := hi.newVeth o temp hnone hpeer
      exact ⟨hi', hg, hready.setVeth rfl⟩

theorem safe_openNetns {ip : Ipv4Addr} {i : ℕ} {v : Veth} {path : String} (ho : o.Valid)
    (hv : v.owner = o) (hs : Wiring dir o ip i v s) :
    SafeIn netns dir o j (fun r s' => match r with
        | .ok fd => Wiring dir o ip i v s' ∧ s'.fds fd = some path
        | .error _ => Ready o s') (ask (.openNetns path)) s := by
  refine safe_ask (A := Wiring dir o ip i v) (fun _ _ hr h => h.rely ho hv hr) ?_ ?_ hs
  · rintro (e | fd) s s' hr h
    · exact Ready.rely hr h
    · exact ⟨Wiring.rely ho hv hr h.1, hr.fds fd path h.2⟩
  · rintro s r s' hi hw (⟨fd, rfl, hnone, rfl⟩ | ⟨⟨e, rfl⟩, rfl⟩) -
    · refine ⟨⟨hi.placed, hi.unique, hi.peers, hi.carried, hi.distinct⟩, fun q _ => ?_, hw,
        by simp⟩
      refine ⟨fun _ _ _ => Iff.rfl, fun _ _ h => h, Iff.rfl, fun fd' p hp => ?_⟩
      have hne : fd' ≠ fd := by
        rintro rfl
        rw [hnone] at hp
        cases hp
      simpa [Function.update_of_ne hne] using hp
    · exact ⟨hi, fun q _ => .refl dir q _, hw.1⟩

theorem safe_moveToNetns {ip : Ipv4Addr} {i peer fd : ℕ} {temp : String} (ho : o.Valid)
    (hs : Wiring dir o ip i ⟨peer, temp, none, [], o⟩ s ∧ s.fds fd = some (netns o)) :
    SafeIn netns dir o j (fun r s' => match r with
        | .ok _ => Wiring dir o ip i ⟨peer, temp, some (netns o), [], o⟩ s'
        | .error _ => Only o i s') (ask (.moveToNetns peer fd)) s := by
  refine safe_ask (A := fun s => Wiring dir o ip i ⟨peer, temp, none, [], o⟩ s ∧
    s.fds fd = some (netns o)) (fun _ _ hr h => ⟨h.1.rely ho rfl hr, hr.fds _ _ h.2⟩) ?_ ?_ hs
  · rintro (e | a) s s' hr h
    · exact Only.rely hr h
    · exact Wiring.rely ho rfl hr h
  · rintro s r s' hi ⟨⟨hready, hlease, hv⟩, hfd⟩
      (⟨k, v, ns, hk, hpeer, hns, hfd', hfree, rfl, rfl⟩ | ⟨⟨e, rfl⟩, rfl⟩) -
    · obtain rfl : i = k := hi.peers i k _ v hv hk hpeer.symm
      obtain rfl := Option.some.inj (hv.symm.trans hk)
      obtain rfl := Option.some.inj (hfd.symm.trans hfd')
      refine ⟨hi.setVeth ?_ ?_ ?_ ?_ ?_, guar_setVeth ?_ ?_, hready.setVeth rfl, hlease,
        by simp [Node.setVeth]⟩
      · rintro n ⟨rfl⟩
        rfl
      · rintro l w n _ hw ⟨rfl⟩ hwn hname
        exact hfree l w hw ⟨hwn, hname.symm⟩
      · intro l w hl hw hp
        exact hl (hi.peers l i w _ hw hv hp.symm)
      · intro x hx
        cases hx
      · intro l w x _ _ hx
        cases hx
      · intro w hw
        obtain rfl := Option.some.inj (hv.symm.trans hw)
        rfl
      · rintro w ⟨rfl⟩
        rfl
    · exact ⟨hi, fun q _ => .refl dir q _, hready.only hv rfl⟩

/-- Giving the container its address. No other interface carries it: the lease of every
address is with the container that carries it, unless that one is being deleted. -/
theorem safe_configure {ip : Ipv4Addr} {i peer : ℕ} {temp : String} {plan : IpPlan}
    {defaultRoute : Bool} (ho : o.Valid) (hip : plan.addr = ip)
    (hs : Wiring dir o ip i ⟨peer, temp, some (netns o), [], o⟩ s) :
    SafeIn netns dir o j (fun _ => Only o i)
      (ask (.configureContainerIface (netns o) temp o.2 plan defaultRoute)) s := by
  refine safe_ask (fun _ _ hr h => Wiring.rely ho rfl hr h) (fun _ _ _ hr h => h.rely hr) ?_ hs
  rintro s r s' hi ⟨hready, hlease, hv⟩ (⟨⟨e, rfl⟩, rfl⟩ | ⟨k, v, hk, hns, hname, hfree, h⟩) hguard
  · exact ⟨hi, fun q _ => .refl dir q _, hready.only hv rfl⟩
  obtain rfl : i = k := hi.unique i k _ v (netns o) hv hk rfl hns hname.symm
  obtain rfl := Option.some.inj (hv.symm.trans hk)
  have hold : ∀ w, s.veths i = some w → w.owner = o := by
    intro w hw
    obtain rfl := Option.some.inj (hv.symm.trans hw)
    rfl
  have hunique : ∀ l w n, l ≠ i → s.veths l = some w → some (netns o) = some n →
      w.ns = some n → o.2 ≠ w.name := by
    rintro l w n hl hw ⟨rfl⟩ hwn hwname
    rcases hfree with htemp | hfree
    · exact hl (hi.unique l i w _ _ hw hv hwn rfl (hwname.symm.trans htemp.symm))
    · exact hfree l w hw ⟨hwn, hwname.symm⟩
  have hpeer : ∀ l w, l ≠ i → s.veths l = some w → peer ≠ w.peer := by
    intro l w hl hw hp
    exact hl (hi.peers l i w _ hw hv hp.symm)
  have honly : ∀ nv : Veth, nv.owner = o → Only o i (s.setVeth i (some nv)) := by
    intro nv how
    refine ⟨⟨nv, by simp [Node.setVeth], how⟩, fun l w hl hw how => ?_, hready.2⟩
    exact hready.1 l w (by simpa [Node.setVeth, Function.update_of_ne hl] using hw) how
  rcases h with ⟨rfl, rfl⟩ | ⟨⟨e, rfl⟩, rfl⟩
  · refine ⟨hi.setVeth ?_ hunique hpeer ?_ ?_, guar_setVeth hold ?_, honly _ rfl⟩
    · rintro n ⟨rfl⟩
      rfl
    · intro x hx
      obtain rfl : x = plan.addr := by simpa using hx
      exact ⟨ho, rfl, rfl, rfl, hip ▸ hlease⟩
    · intro l w x hl hw hx hxw
      obtain rfl : x = plan.addr := by simpa using hx
      obtain ⟨hwv, -, -, -, hwlease⟩ := hi.carried l w _ hw hxw
      by_cases hq : w.owner = o
      · rw [hready.1 l w hw hq] at hxw
        cases hxw
      · rcases hwlease with hwlease | hpending
        · have hfile := Option.some.inj (hwlease.symm.trans (hip ▸ hlease))
          exact hq (Attachment.file_injective hwv ho hfile)
        · exact hguard w.owner hq hpending l w hw rfl hxw
    · rintro w ⟨rfl⟩
      rfl
  · refine ⟨hi.setVeth ?_ hunique hpeer ?_ ?_, guar_setVeth hold ?_, honly _ rfl⟩
    · rintro n ⟨rfl⟩
      rfl
    · intro x hx
      cases hx
    · intro l w x _ _ hx
      cases hx
    · rintro w ⟨rfl⟩
      rfl

theorem safe_delLink {i : ℕ} (hs : Only o i s) :
    SafeIn netns dir o j (fun _ => Ready o) (ask (.delLink i)) s := by
  refine safe_ask (fun _ _ hr h => Only.rely hr h) (fun _ _ _ hr h => h.rely hr) ?_ hs
  rintro s r s' hi ⟨⟨v, hv, ho⟩, honly, hrel⟩ rfl -
  have hkeep : ∀ k w, (s.setVeth i none).veths k = some w → k ≠ i ∧ s.veths k = some w := by
    intro k w hw
    by_cases hk : k = i
    · subst hk
      simp [Node.setVeth] at hw
    · exact ⟨hk, by simpa [Node.setVeth, Function.update_of_ne hk] using hw⟩
  refine ⟨hi.delete rfl (fun k w hw => (hkeep k w hw).2) (fun _ _ _ _ _ h => h),
    guar_setVeth ?_ ?_, fun k w hw how => ?_, hrel⟩
  · intro w hw
    obtain rfl := Option.some.inj (hv.symm.trans hw)
    exact ho
  · intro w hw
    cases hw
  · obtain ⟨hk, hw⟩ := hkeep k w hw
    exact honly k w hk hw how

/-- Deleting the interface of a container that is being deleted. -/
theorem safe_deleteContainerIface (hn : Function.Injective netns) :
    SafeIn netns dir o j (fun _ s' => o ∉ s'.releasing)
      (ask (.deleteContainerIface (netns o) o.2)) s := by
  refine safe_ask (A := fun _ => True) (fun _ _ _ h => h)
    (fun _ _ _ hr h hd => h (hr.releasing.mpr hd)) ?_ trivial
  rintro s r s' hi - ⟨rfl, rfl⟩ -
  have hkeep : ∀ k w, (s.veths k).filter (fun v => ¬ (v.ns = some (netns o) ∧ v.name = o.2)) =
      some w → s.veths k = some w ∧ ¬ (w.ns = some (netns o) ∧ w.name = o.2) := by
    intro k w hw
    obtain ⟨hw, hp⟩ := Option.filter_eq_some_iff.mp hw
    exact ⟨hw, of_decide_eq_true hp⟩
  refine ⟨hi.delete rfl (fun k w hw => (hkeep k w hw).1) ?_, fun q hq => ⟨?_, fun _ _ h => h,
    ?_, fun _ _ h => h⟩, by simp⟩
  · intro k w x hw hx hrel
    obtain ⟨hw, hnot⟩ := hkeep k w hw
    obtain ⟨-, hns, hname, -⟩ := hi.carried k w x hw hx
    have hne : w.owner ≠ o := fun he => hnot (he ▸ ⟨hns, hname⟩)
    simpa [hne] using hrel
  · intro k w how
    constructor
    · intro hw
      have hp : ¬ (w.ns = some (netns o) ∧ w.name = o.2) := by
        rintro ⟨hns, -⟩
        exact hq (how.symm.trans (hn (hi.placed k w _ hw hns).symm))
      exact Option.filter_eq_some_iff.mpr ⟨hw, decide_eq_true hp⟩
    · exact fun hw => (hkeep k w hw).1
  · simp [hq]

/-- What a command leaves behind. -/
def Done (o : Attachment) (r : Except CniError α) (s : Node) : Prop :=
  match r with
  | .ok _ => o ∉ s.releasing
  | .error _ => Ready o s

omit [Crates] in
theorem Done.rely {r : Except CniError α} (hr : Rely dir o s s') (h : Done o r s) :
    Done o r s' := by
  cases r with
  | ok a => exact fun hd => h (hr.releasing.mpr hd)
  | error e => exact Ready.rely hr h

theorem safe_done {r : Except CniError α} (h : Done o r s) :
    SafeIn netns dir o j (Done o) (.ret r) s :=
  Contract.Safe.ret_of_stable h fun _ hr _ h => h.rely hr

theorem safe_orFail_bind {x : Program BridgeOp BridgeRes (Except String α)} {e : CniError}
    {f : α → BridgeProgram β} {m : Except String α → Node → Prop} (hi : Inv netns dir s)
    (hx : SafeIn netns dir o j m x s)
    (hok : ∀ a s', Inv netns dir s' → m (.ok a) s' → SafeIn netns dir o j (Done o) (f a).run s')
    (herr : ∀ text s', m (.error text) s' → Ready o s') :
    SafeIn netns dir o j (Done o) (orFail x e >>= f).run s := by
  rw [run_orFail_bind]
  refine hx.bind hi fun r s' hi' hm => ?_
  cases r with
  | ok a => exact hok a s' hi' hm
  | error text => exact safe_done (herr text s' hm)

/-- The veth pair, with any address on it, is deleted when the step fails. -/
theorem safe_orDelLink_bind {x : Program BridgeOp BridgeRes (Except String α)} {e : CniError}
    {i : ℕ} {f : α → BridgeProgram β} {m : Except String α → Node → Prop}
    (hi : Inv netns dir s) (hx : SafeIn netns dir o j m x s)
    (hok : ∀ a s', Inv netns dir s' → m (.ok a) s' → SafeIn netns dir o j (Done o) (f a).run s')
    (herr : ∀ text s', m (.error text) s' → Only o i s') :
    SafeIn netns dir o j (Done o) (orDelLink i x e >>= f).run s := by
  rw [run_orDelLink_bind]
  refine hx.bind hi fun r s' hi' hm => ?_
  cases r with
  | ok a => exact hok a s' hi' hm
  | error text =>
    exact (safe_delLink (herr text s' hm)).bind hi' fun _ _ _ h => safe_done h

theorem safe_setGateway {bridgeIdx : ℕ} {ipam : CniResult} (hi : Inv netns dir s)
    (hs : o ∉ s.releasing) :
    SafeIn netns dir o j (fun _ s' => o ∉ s'.releasing) (setGateway bridgeIdx ipam) s := by
  have hkeep : ∀ s s' : Node, Rely dir o s s' → o ∉ s.releasing → o ∉ s'.releasing :=
    fun _ _ hr h hd => h (hr.releasing.mpr hd)
  have hforward : ∀ t, o ∉ t.releasing →
      SafeIn netns dir o j (fun _ s' => o ∉ s'.releasing) (ask .enableIpForward) t :=
    fun t ht => safe_silent (fun _ _ _ h => h) hkeep ht
  unfold setGateway
  cases bridgeGateway ipam with
  | none => exact hforward s hs
  | some gateway =>
    refine (safe_silent (b := .setBridgeGateway _ _ _) (fun _ _ _ h => h) hkeep hs).bind hi ?_
    exact fun _ t _ ht => hforward t ht

/-- The steps of `wirePod` from the veth pair on. -/
theorem safe_wire {bridgeIdx : ℕ} {conf : BridgeConf} {ipam : CniResult} {plan : IpPlan}
    {ip : Ipv4Addr} {host temp : String} (ho : o.Valid) (haddr : plan.addr = ip)
    (hi : Inv netns dir s) (hready : Ready o s) (hlease : Leased dir o ip s) :
    SafeIn netns dir o j (Done o) (do
      let (hostIdx, peerIdx) ← orFail (ask (.createVeth host temp conf.mtu)) (.new 5 "create veth")
      let netnsFd ← orFail (ask (.openNetns (netns o))) (.new 5 "open netns")
      orDelLink hostIdx (ask (.moveToNetns peerIdx netnsFd)) (.new 5 "move veth to netns")
      orDelLink hostIdx (ask (.configureContainerIface (netns o) temp o.2 plan
        conf.isDefaultGateway)) (.new 7 "configure container iface")
      orDelLink hostIdx (ask (.attachHostVeth hostIdx bridgeIdx conf.hairpinMode))
        (.new 5 "attach host veth")
      if conf.isGateway then
        setGateway bridgeIdx ipam : BridgeProgram Unit).run s := by
  refine safe_orFail_bind hi (safe_createVeth ho ⟨hready, hlease⟩) ?_ fun _ _ h => h
  rintro ⟨i, peer⟩ s₁ hi₁ hw₁
  refine safe_orFail_bind hi₁ (safe_openNetns ho rfl hw₁) ?_ fun _ _ h => h
  intro fd s₂ hi₂ hw₂
  refine safe_orDelLink_bind hi₂ (safe_moveToNetns ho hw₂) ?_ fun _ _ h => h
  intro _ s₃ hi₃ hw₃
  refine safe_orDelLink_bind hi₃ (safe_configure ho haddr hw₃) ?_ fun _ _ h => h
  intro _ s₄ hi₄ honly
  refine safe_orDelLink_bind hi₄ (safe_silent (b := .attachHostVeth _ _ _) (fun _ _ _ h => h)
    (fun _ _ hr h => h.rely hr) honly) ?_ fun _ _ h => h
  intro _ s₅ hi₅ ⟨_, _, hrel⟩
  by_cases hgw : conf.isGateway
  · rw [if_pos hgw]
    exact Contract.Safe.lift (safe_setGateway hi₅ hrel)
  · rw [if_neg hgw]
    exact safe_done (r := .ok ()) hrel

/-- From the lease on. -/
theorem safe_wirePod (hc : Crates.Lawful) {bridgeIdx : ℕ} {conf : BridgeConf} {nc : NetConf}
    {alloc : HostLocal.Allocator} {ip : Ipv4Addr} (ho : o.Valid) (hi : Inv netns dir s)
    {stdout : String} (hstdout : stdout = (HostLocal.addResult nc alloc ip).toJson)
    (hready : Ready o s) (hlease : Leased dir o ip s) :
    SafeIn netns dir o j (Done o) (wirePod bridgeIdx conf (argsOf netns o j) stdout).run s := by
  rw [wirePod, Program.run_pure_bind, hstdout, CniResult.parse_toJson hc]
  simp only [Program.run_pure_bind]
  cases hplan : ipPlan (HostLocal.addResult nc alloc ip) with
  | error text => exact safe_done hready
  | ok plan =>
    obtain ⟨haddr, -⟩ := ipPlan_addResult hc hplan
    exact safe_wire ho haddr hi hready hlease

/-- The failure path of ADD: the veth pair is gone before the lease is released. -/
theorem safe_orRelease {wire : Program BridgeOp BridgeRes (Except CniError Unit)}
    {conf : BridgeConf} {stdout : String} (hadd : j.command = "ADD")
    (hdir : LeadsTo j.stdin dir) (hi : Inv netns dir s)
    (hwire : SafeIn netns dir o j (Done o) wire s) :
    SafeIn netns dir o j (Done o) (wire >>= fun r => match r with
      | .ok _ => pure (.ok stdout)
      | .error e => do
        ipamDel conf (argsOf netns o j) j.stdin
        pure (.error e)) s := by
  refine hwire.bind hi fun r s₁ hi₁ hdone => ?_
  cases r with
  | ok a => exact safe_done hdone
  | error e => exact (safe_ipamDel hadd hdir hdone).bind hi₁ fun _ _ _ h => safe_done h

theorem safe_cmdAdd (hc : Crates.Lawful) {conf : BridgeConf} (ho : o.Valid)
    (hadd : j.command = "ADD") (hdir : LeadsTo j.stdin dir) (hi : Inv netns dir s)
    (hready : Ready o s) :
    SafeIn netns dir o j (Done o) (cmdAdd (argsOf netns o j) conf j.stdin).run s := by
  have hkeep : ∀ s s' : Node, Rely dir o s s' → Ready o s → Ready o s' := fun _ _ hr h => h.rely hr
  refine safe_orFail_bind hi (safe_silent (b := .newConnection) (fun _ _ _ h => h) hkeep hready)
    ?_ fun _ _ h => h
  intro _ s₁ hi₁ hready₁
  refine safe_orFail_bind hi₁ (safe_silent (b := .ensureBridge _ _) (fun _ _ _ h => h) hkeep
    hready₁) ?_ fun _ _ h => h
  intro bridgeIdx s₂ hi₂ hready₂
  refine (safe_ipamAdd ho hadd hdir hready₂).exceptBind hi₂ ?_ fun e s₃ _ h => safe_done h.1
  rintro ⟨stdout, success⟩ s₃ hi₃ ⟨hready₃, hlearn⟩
  cases success with
  | false => exact safe_done hready₃
  | true =>
    obtain ⟨nc, alloc, ip, hstdout, hlease⟩ := hlearn _ rfl rfl
    exact safe_orRelease hadd hdir hi₃ (safe_wirePod hc ho hi₃ hstdout hready₃ hlease)

theorem safe_cmdDel (hn : Function.Injective netns) (hne : netns o ≠ "") {conf : BridgeConf}
    (hdel : j.command = "DEL") (hdir : LeadsTo j.stdin dir) (hi : Inv netns dir s) :
    SafeIn netns dir o j (fun _ s' => o ∉ s'.releasing)
      (cmdDel (argsOf netns o j) conf j.stdin).run s := by
  refine (safe_release hdel hdir).liftBind hi fun _ s₁ hi₁ _ => ?_
  rw [if_pos (by exact hne)]
  refine (safe_deleteContainerIface hn).liftBind hi₁ fun _ s₂ hi₂ h => ?_
  exact Contract.Safe.ret_of_stable h fun _ hr _ h hd => h (hr.releasing.mpr hd)

omit [Crates] in
theorem Done.not_releasing {r : Except CniError α} (h : Done o r s) : o ∉ s.releasing := by
  cases r with
  | ok a => exact h
  | error e => exact h.2

theorem safe_job (hc : Crates.Lawful) (hn : Function.Injective netns) (hne : netns o ≠ "")
    (hi : Inv netns dir s) (hidle : o ∉ s.releasing) (hj : Admissible dir o j s) :
    SafeIn netns dir o j (fun _ s' => o ∉ s'.releasing)
      (Bridge.run (argsOf netns o j) j.stdin).run s := by
  have hstay : ∀ e : CniError, SafeIn netns dir o j (fun _ s' => o ∉ s'.releasing)
      (.ret (.error e : Except CniError String)) s :=
    fun _ => Contract.Safe.ret_of_stable hidle fun _ hr _ h hd => h (hr.releasing.mpr hd)
  obtain ⟨ho, hcmd, hdir, hclean⟩ := hj
  rcases hcmd with hadd | hdel
  · rw [run_add hadd]
    cases BridgeConf.parse j.stdin with
    | none => exact hstay _
    | some conf =>
      refine (safe_cmdAdd hc ho hadd hdir hi ⟨hclean hadd, hidle⟩).mono ?_
      exact fun _ _ _ h => h.not_releasing
  · rw [run_del hdel]
    cases BridgeConf.parse j.stdin with
    | none => exact hstay _
    | some conf => exact safe_cmdDel hn hne hdel hdir hi

theorem verified (hc : Crates.Lawful) (hn : Function.Injective netns) (hne : ∀ o, netns o ≠ "") :
    Verified (system netns dir NoPendingDelete) (contract netns dir)
      (fun o s => o ∉ s.releasing) (fun o _ _ s => o ∉ s.releasing) where
  idle_rely _ _ _ _ hr h hd := h (hr.releasing.mpr hd)
  start o j s _ hi hidle h := by
    obtain ⟨hj, rfl⟩ := h
    exact ⟨hi, fun q _ => .refl dir q _, safe_job hc hn (hne o) hi hidle hj⟩
  finish _ _ _ s _ hi hpost h := by
    obtain rfl := h
    exact ⟨hi, fun q _ => .refl dir q _, hpost⟩

/-- No container is on the bridge yet. There may be leases. -/
structure Initial (c : Config Node Attachment Job BridgeOp BridgeRes (Except CniError String)) :
    Prop where
  idle : ∀ o, c.busy o = none
  veths : ∀ i, c.state.veths i = none
  releasing : c.state.releasing = []

/-- In every interleaving of the commands of different containers, the addresses on the
container interfaces are pairwise distinct as long as no address is configured while the
DEL of another container has released it and not yet deleted the interface that carries it. -/
theorem distinct_addresses (hc : Crates.Lawful) (hn : Function.Injective netns)
    (hne : ∀ o, netns o ≠ "")
    {c d : Config Node Attachment Job BridgeOp BridgeRes (Except CniError String)}
    (hi : Initial c) (h : (system netns dir NoPendingDelete).Reachable c d) :
    d.state.DistinctAddresses := by
  have hinv : Inv netns dir c.state := by
    refine ⟨?_, ?_, ?_, ?_, ?_⟩ <;> (intros; simp_all [hi.veths])
  have hstands : ∀ o, Stands (system netns dir NoPendingDelete) (contract netns dir)
      (fun o s => o ∉ s.releasing) (fun o _ _ s => o ∉ s.releasing) c o := by
    intro o
    simp [Stands, hi.idle, hi.releasing]
  exact ((verified hc hn hne).reachable hinv hstands h).1.distinctAddresses

end

def pod (n : ℕ) : Attachment := if n = 1 then ("a", "eth0") else ("b", "eth0")

def podNetns (o : Attachment) : String := jsonText (.arr [.str o.1, .str o.2])

theorem podNetns_injective : Function.Injective podNetns := by
  intro o q h
  have hplain : ∀ o : Attachment, Plain (.arr [.str o.1, .str o.2]) := by simp
  have htext := congrArg ofText h
  rw [podNetns, podNetns, ofText_jsonText (hplain o), ofText_jsonText (hplain q)] at htext
  ext <;> simp_all

theorem podNetns_ne_empty (o : Attachment) : podNetns o ≠ "" := by
  intro h
  have hchars := congrArg String.toList h
  simp [podNetns, jsonText, print] at hchars

/-- The subnet has one address for pods. -/
def tightConf : String :=
  "\x7b\"name\":\"cbr0\",\"ipam\":\x7b\"type\":\"host-local\"," ++
    "\"ranges\":[[\x7b\"subnet\":\"10.244.1.0/30\"\x7d]]\x7d\x7d"

def addJob : Job := ⟨"ADD", tightConf, "", "/opt/cni/bin"⟩

def delJob : Job := ⟨"DEL", tightConf, "", "/opt/cni/bin"⟩

def emptyNode : Node := ⟨⟨fun _ => none, fun _ => none⟩, fun _ => none, fun _ => none, []⟩

/-- Pair `n` is that of pod `n`. -/
def Node.Paired (s : Node) : Prop :=
  ∀ k v, s.veths k = some v → (k = 1 ∨ k = 2) ∧ v.peer = k + 10 ∧ v.owner = pod k ∧
    ∀ ns, v.ns = some ns → ns = podNetns (pod k)

/-- Every step for pod `n` succeeds. -/
def perform [Crates] (n : ℕ) (j : Job) :
    (op : BridgeOp) → Node → Option (BridgeRes op × Node)
  | .runDelegate _ args stdin, s =>
    ((HostLocal.run args stdin).run.run (Fs.perform 0) s.fs).map fun r =>
      (.ok (pluginOutput r.1), { s with
        fs := r.2
        releasing := if j.command = "DEL" then pod n :: s.releasing else s.releasing })
  | .createVeth _ temp _, s =>
    if s.veths n = none then
      some (.ok (n, n + 10), s.setVeth n (some ⟨n + 10, temp, none, [], pod n⟩))
    else none
  | .openNetns path, s =>
    if s.fds n = none then some (.ok n, { s with fds := Function.update s.fds n (some path) })
    else none
  | .moveToNetns idx fd, s => do
    let v ← s.veths n
    if v.peer = idx ∧ v.ns = none ∧ s.fds fd = some (podNetns (pod n)) then
      some (.ok (), s.setVeth n (some { v with ns := some (podNetns (pod n)) }))
    else none
  | .configureContainerIface netns temp ifname plan _, s => do
    let v ← s.veths n
    if v.ns = some netns ∧ netns = podNetns (pod n) ∧ v.name = temp then
      some (.ok (), s.setVeth n (some { v with name := ifname, addrs := plan.addr :: v.addrs }))
    else none
  | .deleteContainerIface netns ifname, s =>
    some (.ok (), { s with
      veths := fun i => (s.veths i).filter fun v => ¬ (v.ns = some netns ∧ v.name = ifname)
      releasing := s.releasing.filter (· ≠ pod n) })
  | .delLink i, s => some ((), s.setVeth i none)
  | .newConnection, s => some (.ok (), s)
  | .ensureBridge _ _, s => some (.ok 3, s)
  | .attachHostVeth _ _ _, s => some (.ok (), s)
  | .setBridgeGateway _ _ _, s => some (.ok (), s)
  | .enableIpForward, s => some ((), s)

theorem Node.Paired.setVeth {s : Node} {n : ℕ} {nv : Option Veth} (h : s.Paired)
    (hnv : ∀ v, nv = some v → (n = 1 ∨ n = 2) ∧ v.peer = n + 10 ∧ v.owner = pod n ∧
      ∀ ns, v.ns = some ns → ns = podNetns (pod n)) : (s.setVeth n nv).Paired := by
  intro k v hv
  by_cases hk : k = n
  · subst hk
    exact hnv v (by simpa [Node.setVeth] using hv)
  · exact h k v (by simpa [Node.setVeth, Function.update_of_ne hk] using hv)

theorem pod_injective {k n : ℕ} (hk : k = 1 ∨ k = 2) (hn : n = 1 ∨ n = 2) (h : pod k = pod n) :
    k = n := by
  rcases hk with rfl | rfl <;> rcases hn with rfl | rfl <;> first | rfl | exact absurd h (by decide)

theorem Node.Paired.free {s : Node} {n : ℕ} {name : String} (h : s.Paired) (hn : n = 1 ∨ n = 2)
    (hv : ∀ v, s.veths n = some v → ¬ (v.ns = some (podNetns (pod n)) ∧ v.name = name)) :
    s.Free (podNetns (pod n)) name := by
  intro k v hk hns
  obtain ⟨hk', -, -, hpod⟩ := h k v hk
  obtain rfl := pod_injective hn hk' (podNetns_injective (hpod _ hns.1))
  exact hv v hk hns

theorem perform_answers [Crates] {n : ℕ} (hn : n = 1 ∨ n = 2) {j : Job} {op : BridgeOp}
    {r : BridgeRes op} {s s' : Node} (hp : s.Paired) (h : perform n j op s = some (r, s')) :
    s.Answers (pod n) j op r s' ∧ s'.Paired := by
  cases op with
  | runDelegate name args stdin =>
    obtain ⟨⟨result, fs'⟩, hrun, he⟩ := Option.map_eq_some_iff.mp h
    obtain ⟨rfl, rfl⟩ := Prod.mk.inj he
    refine ⟨.inl ⟨result, fs', ?_, rfl, rfl⟩, hp⟩
    refine Program.exec_of_run (fun _ _ _ _ hfs => ?_) hrun
    exact Fs.perform_answers hfs
  | createVeth host temp mtu =>
    obtain ⟨hnone, he⟩ := Option.ite_none_right_eq_some.mp h
    obtain ⟨rfl, rfl⟩ := Prod.mk.inj (Option.some.inj he)
    refine ⟨.inl ⟨n, n + 10, rfl, hnone, fun k v hv => ?_, rfl⟩, hp.setVeth ?_⟩
    · have hk : k ≠ n := by
        rintro rfl
        rw [hnone] at hv
        cases hv
      obtain ⟨-, hpeer, -⟩ := hp k v hv
      omega
    · rintro v ⟨rfl⟩
      exact ⟨hn, rfl, rfl, fun ns h => by cases h⟩
  | openNetns path =>
    obtain ⟨hnone, he⟩ := Option.ite_none_right_eq_some.mp h
    obtain ⟨rfl, rfl⟩ := Prod.mk.inj (Option.some.inj he)
    exact ⟨.inl ⟨n, rfl, hnone, rfl⟩, hp⟩
  | moveToNetns idx fd =>
    obtain ⟨v, hv, he⟩ := Option.bind_eq_some_iff.mp h
    obtain ⟨⟨hpeer, hns, hfd⟩, he⟩ := Option.ite_none_right_eq_some.mp he
    obtain ⟨rfl, rfl⟩ := Prod.mk.inj (Option.some.inj he)
    obtain ⟨-, hpeer', howner, -⟩ := hp n v hv
    refine ⟨.inl ⟨n, v, _, hv, hpeer, hns, hfd, hp.free hn ?_, rfl, rfl⟩, hp.setVeth ?_⟩
    · rintro w hw ⟨hwns, -⟩
      obtain rfl := Option.some.inj (hv.symm.trans hw)
      rw [hns] at hwns
      cases hwns
    · rintro w ⟨rfl⟩
      exact ⟨hn, hpeer', howner, fun ns h => (Option.some.inj h).symm⟩
  | configureContainerIface netns temp ifname plan defaultRoute =>
    obtain ⟨v, hv, he⟩ := Option.bind_eq_some_iff.mp h
    obtain ⟨⟨hns, rfl, hname⟩, he⟩ := Option.ite_none_right_eq_some.mp he
    obtain ⟨rfl, rfl⟩ := Prod.mk.inj (Option.some.inj he)
    obtain ⟨-, hpeer, howner, -⟩ := hp n v hv
    refine ⟨.inr ⟨n, v, hv, hns, hname, ?_, .inl ⟨rfl, rfl⟩⟩, hp.setVeth ?_⟩
    · by_cases htemp : temp = ifname
      · exact .inl htemp
      · refine .inr (hp.free hn ?_)
        rintro w hw ⟨-, hwname⟩
        obtain rfl := Option.some.inj (hv.symm.trans hw)
        exact htemp (hname.symm.trans hwname)
    · rintro w ⟨rfl⟩
      exact ⟨hn, hpeer, howner, fun ns h => (Option.some.inj (hns.symm.trans h)).symm⟩
  | deleteContainerIface netns ifname =>
    obtain ⟨rfl, rfl⟩ := Prod.mk.inj (Option.some.inj h)
    refine ⟨⟨rfl, rfl⟩, fun k v hv => hp k v ?_⟩
    exact (Option.filter_eq_some_iff.mp hv).1
  | delLink i =>
    obtain ⟨-, rfl⟩ := Prod.mk.inj (Option.some.inj h)
    exact ⟨rfl, hp.setVeth fun v hv => by cases hv⟩
  | _ =>
    obtain ⟨-, rfl⟩ := Prod.mk.inj (Option.some.inj h)
    exact ⟨rfl, hp⟩

abbrev cbr0Dir : String := "/var/lib/cni/networks/cbr0"

def podRun [Crates] (n : ℕ) (j : Job) : Program BridgeOp BridgeRes (Except CniError String) :=
  (Bridge.run (argsOf podNetns (pod n) j) j.stdin).run

theorem tightConf_leadsTo : @LeadsTo Crates.compact tightConf cbr0Dir := by
  intro nc hnc
  have hconf : @NetConf.parse Crates.compact tightConf =
      some ⟨"", "cbr0", ⟨"host-local", [[⟨"10.244.1.0/30", none⟩]], [], none⟩⟩ := by
    decide +kernel
  obtain rfl := Option.some.inj (hconf.symm.trans hnc)
  decide

theorem tightConf_bridge : @BridgeConf.parse Crates.compact tightConf =
    some ⟨"", "cbr0", false, false, false, none, ⟨"host-local"⟩⟩ := by
  decide +kernel

theorem pod_valid {n : ℕ} (hn : n = 1 ∨ n = 2) : (pod n).Valid := by
  rcases hn with rfl | rfl <;>
    exact ⟨⟨by decide, by decide, by decide⟩, by decide, by decide, by decide⟩

theorem emptyNode_paired : emptyNode.Paired := by
  rintro k v ⟨⟩

theorem add_admissible [Crates] {n : ℕ} {j : Job} {s : Node} (hn : n = 1 ∨ n = 2)
    (hadd : j.command = "ADD") (hdir : LeadsTo j.stdin cbr0Dir) (hp : s.Paired)
    (hv : s.veths n = none) : Admissible cbr0Dir (pod n) j s := by
  refine ⟨pod_valid hn, .inl hadd, hdir, fun _ k v hk how => ?_⟩
  obtain ⟨hk', -, howner, -⟩ := hp k v hk
  obtain rfl := pod_injective hk' hn (howner.symm.trans how)
  rw [hv] at hk
  cases hk

theorem del_admissible [Crates] {n : ℕ} {j : Job} {s : Node} (hn : n = 1 ∨ n = 2)
    (hdel : j.command = "DEL") (hdir : LeadsTo j.stdin cbr0Dir) : Admissible cbr0Dir (pod n) j s := by
  refine ⟨pod_valid hn, .inr hdel, hdir, fun hadd => ?_⟩
  simp [hdel] at hadd

abbrev idlePool (s : Node) :
    Config Node Attachment Job BridgeOp BridgeRes (Except CniError String) := ⟨s, fun _ => none⟩

theorem code_pod [Crates] (guard : Attachment → Node → BridgeOp → Prop) (n : ℕ) (j : Job) :
    (system podNetns cbr0Dir guard).code (pod n) j = podRun n j := rfl

/-- A subnet with room for both pods. -/
def roomyConf : String :=
  "\x7b\"name\":\"cbr0\",\"ipam\":\x7b\"type\":\"host-local\"," ++
    "\"ranges\":[[\x7b\"subnet\":\"10.244.1.0/29\"\x7d]]\x7d\x7d"

def roomyJob (command : String) : Job := ⟨command, roomyConf, "", "/opt/cni/bin"⟩

theorem roomyConf_parse : @NetConf.parse Crates.compact roomyConf =
    some ⟨"", "cbr0", ⟨"host-local", [[⟨"10.244.1.0/29", none⟩]], [], none⟩⟩ := by
  decide +kernel

theorem roomyConf_bridge : @BridgeConf.parse Crates.compact roomyConf =
    some ⟨"", "cbr0", false, false, false, none, ⟨"host-local"⟩⟩ := by
  decide +kernel

theorem roomyConf_leadsTo : @LeadsTo Crates.compact roomyConf cbr0Dir := by
  intro nc hnc
  obtain rfl := Option.some.inj (roomyConf_parse.symm.trans hnc)
  decide

theorem podRun_del [Crates] {conf : BridgeConf} {j : Job} (hdel : j.command = "DEL")
    (hconf : BridgeConf.parse j.stdin = some conf) (n : ℕ) : podRun n j =
      .request (.runDelegate conf.ipam.kind (argsOf podNetns (pod n) j) j.stdin)
        fun _ => (do
          if podNetns (pod n) ≠ "" then
            let _ ← ExceptT.lift (ask (.deleteContainerIface (podNetns (pod n)) (pod n).2))
          return "" : BridgeProgram String).run := by
  rw [podRun, run_del hdel, hconf]
  rfl

/-- No address is configured while a DEL is between its two steps. -/
def calm (s : Node) : BridgeOp → Bool
  | .configureContainerIface _ _ _ _ _ => s.releasing.isEmpty
  | _ => true

def performCalmly [Crates] (n : ℕ) (j : Job) (op : BridgeOp) (s : Node) :
    Option (BridgeRes op × Node) :=
  if calm s op then perform n j op s else none

theorem noPendingDelete_of_calm {o : Attachment} {s : Node} {op : BridgeOp} (h : calm s op) :
    NoPendingDelete o s op := by
  cases op with
  | configureContainerIface netns temp ifname plan defaultRoute =>
    intro q _ hq
    rw [List.isEmpty_iff.mp h] at hq
    cases hq
  | _ => trivial

theorem performCalmly_answers [Crates] {n : ℕ} (hn : n = 1 ∨ n = 2) {j : Job} {op : BridgeOp}
    {r : BridgeRes op} {s s' : Node} (hp : s.Paired) (h : performCalmly n j op s = some (r, s')) :
    (s.Answers (pod n) j op r s' ∧ NoPendingDelete (pod n) s op) ∧ s'.Paired := by
  obtain ⟨hcalm, h⟩ := Option.ite_none_right_eq_some.mp h
  obtain ⟨hanswer, hp'⟩ := perform_answers hn hp h
  exact ⟨⟨hanswer, noPendingDelete_of_calm hcalm⟩, hp'⟩

theorem reachable_calm [Crates] {n : ℕ} {j : Job} {r : Except CniError String} {s s' : Node}
    (hn : n = 1 ∨ n = 2) (hd : (system podNetns cbr0Dir NoPendingDelete).Reachable
      (idlePool emptyNode) (idlePool s)) (hp : s.Paired) (hj : Admissible cbr0Dir (pod n) j s)
    (h : (podRun n j).run (performCalmly n j) s = some (r, s')) :
    (system podNetns cbr0Dir NoPendingDelete).Reachable (idlePool emptyNode) (idlePool s') ∧
      s'.Paired := by
  have hexec : Exec ((system podNetns cbr0Dir NoPendingDelete).answers (pod n) j) s
      ((system podNetns cbr0Dir NoPendingDelete).code (pod n) j) r s' ∧ s'.Paired := by
    rw [code_pod]
    refine Program.exec_of_run_inv (fun op s r s₁ hp h => ?_) hp h
    exact performCalmly_answers hn hp h
  exact ⟨hd.done ⟨hj, rfl⟩ hexec.1 rfl, hexec.2⟩

/-- The node after a DEL of pod `n`. -/
def Node.without (s : Node) (n : ℕ) (fs : Fs) : Node where
  fs := fs
  fds := s.fds
  veths i := (s.veths i).filter fun v => ¬ (v.ns = some (podNetns (pod n)) ∧ v.name = (pod n).2)
  releasing := (pod n :: s.releasing).filter (· ≠ pod n)

theorem reachable_del [Crates] {n : ℕ} {s : Node} {conf : BridgeConf} {nc : NetConf}
    (hn : n = 1 ∨ n = 2) (hd : (system podNetns cbr0Dir NoPendingDelete).Reachable
      (idlePool emptyNode) (idlePool s)) (hconf : BridgeConf.parse roomyConf = some conf)
    (hnc : NetConf.parse roomyConf = some nc) (hdir : LeadsTo roomyConf cbr0Dir)
    (hfree : s.fs.locks (cbr0Dir, "lock") = none) :
    ∃ fs, (system podNetns cbr0Dir NoPendingDelete).Reachable (idlePool emptyNode)
      (idlePool (s.without n fs)) := by
  let j := roomyJob "DEL"
  obtain ⟨fs, hrelease⟩ := LeaseOwnership.exists_cmdDel (p := 0)
    (argsOf podNetns (pod n) j) hnc (hdir nc hnc) hfree
  rw [← HostLocal.run_del rfl] at hrelease
  let s₁ : Node := { s with fs := fs, releasing := pod n :: s.releasing }
  have hreleased : (system podNetns cbr0Dir NoPendingDelete).answers (pod n) j s
      (.runDelegate conf.ipam.kind (argsOf podNetns (pod n) j) roomyConf) _ s₁ :=
    ⟨.inl ⟨.ok "", fs, hrelease, rfl, rfl⟩, trivial⟩
  have hdeleted : (system podNetns cbr0Dir NoPendingDelete).answers (pod n) j s₁
      (.deleteContainerIface (podNetns (pod n)) (pod n).2) (.ok ()) (s.without n fs) :=
    ⟨⟨rfl, rfl⟩, trivial⟩
  have hexec : Exec ((system podNetns cbr0Dir NoPendingDelete).answers (pod n) j) s
      ((system podNetns cbr0Dir NoPendingDelete).code (pod n) j) (.ok "") (s.without n fs) := by
    rw [code_pod, podRun_del rfl hconf, if_pos (podNetns_ne_empty _)]
    exact .request hreleased (.request hdeleted (.ret ..))
  exact ⟨fs, hd.done ⟨del_admissible hn rfl hdir, rfl⟩ hexec rfl⟩

/-- Both pods are added. -/
def bothPods [Crates] : Option (Node × Node) := do
  let (_, s₁) ← (podRun 1 (roomyJob "ADD")).run (performCalmly 1 (roomyJob "ADD")) emptyNode
  let (_, s₂) ← (podRun 2 (roomyJob "ADD")).run (performCalmly 2 (roomyJob "ADD")) s₁
  return (s₁, s₂)

/-- The interface of pod `n`: whether it is in the container, its name and its addresses. -/
def Node.interface (s : Node) (n : ℕ) : Option (Bool × String × List Ipv4Addr) :=
  (s.veths n).map fun v => (v.ns.isSome, v.name, v.addrs)

theorem bothPods_wired : ((@bothPods Crates.compact).map fun s =>
      decide (s.1.interface 2 = none ∧ s.2.fs.locks (cbr0Dir, "lock") = none ∧
        s.2.interface 1 = some (true, "eth0", [.ofOctets 10 244 1 2]) ∧
        s.2.interface 2 = some (true, "eth0", [.ofOctets 10 244 1 3]))) = some true := by
  decide +kernel

theorem Node.Paired.without {s : Node} {n : ℕ} {fs : Fs} {name : String} {addrs : List Ipv4Addr}
    (hp : s.Paired) (hpod : (pod n).2 = name) (h : s.interface n = some (true, name, addrs)) :
    (s.without n fs).interface n = none := by
  obtain ⟨v, hv, he⟩ := Option.map_eq_some_iff.mp h
  simp only [Prod.mk.injEq] at he
  obtain ⟨hsome, hname, -⟩ := he
  obtain ⟨ns, hns⟩ := Option.isSome_iff_exists.mp hsome
  obtain ⟨-, -, -, hnetns⟩ := hp n v hv
  simp [Node.interface, Node.without, hv, hns, hnetns ns hns, hname, hpod]

theorem Node.Paired.without_other {s : Node} {k n : ℕ} {fs : Fs} (hp : s.Paired)
    (hn : n = 1 ∨ n = 2) (hk : k ≠ n) : (s.without n fs).interface k = s.interface k := by
  refine congrArg (Option.map _) ?_
  cases hv : s.veths k with
  | none => simp [Node.without, hv]
  | some v =>
    have hstays : ¬ (v.ns = some (podNetns (pod n)) ∧ v.name = (pod n).2) := by
      rintro ⟨hns, -⟩
      obtain ⟨hk', -, -, hpod⟩ := hp k v hv
      exact hk (pod_injective hk' hn (podNetns_injective (hpod _ hns).symm))
    simp only [Node.without, hv, Option.filter_some, hstays, not_false_eq_true, decide_true, if_true]

/-- Two pods are added, and the first one goes. Both times every address is on one interface. -/
theorem distinct_addresses_two_pods : ∃ d e : Node,
    (@system Crates.compact podNetns cbr0Dir NoPendingDelete).Reachable (idlePool emptyNode)
      (idlePool d) ∧
    d.interface 1 = some (true, "eth0", [.ofOctets 10 244 1 2]) ∧
    d.interface 2 = some (true, "eth0", [.ofOctets 10 244 1 3]) ∧ d.DistinctAddresses ∧
    (@system Crates.compact podNetns cbr0Dir NoPendingDelete).Reachable (idlePool emptyNode)
      (idlePool e) ∧
    e.interface 1 = none ∧ e.interface 2 = some (true, "eth0", [.ofOctets 10 244 1 3]) ∧
    e.DistinctAddresses := by
  let := Crates.compact
  obtain ⟨⟨s₁, s₂⟩, hjobs, hwired⟩ := Option.map_eq_some_iff.mp bothPods_wired
  obtain ⟨hnone, hfree, hfirst, hsecond⟩ := of_decide_eq_true hwired
  unfold bothPods at hjobs
  obtain ⟨⟨r₁, t₁⟩, hrun₁, hjobs⟩ := Option.bind_eq_some_iff.mp hjobs
  obtain ⟨⟨r₂, t₂⟩, hrun₂, hjobs⟩ := Option.bind_eq_some_iff.mp hjobs
  obtain ⟨rfl, rfl⟩ := Prod.mk.inj (Option.some.inj hjobs)
  have hadd₁ : Admissible cbr0Dir (pod 1) (roomyJob "ADD") emptyNode :=
    add_admissible (.inl rfl) rfl roomyConf_leadsTo emptyNode_paired rfl
  obtain ⟨hd₁, hp₁⟩ := reachable_calm (.inl rfl) .here emptyNode_paired hadd₁ hrun₁
  have hadd₂ : Admissible cbr0Dir (pod 2) (roomyJob "ADD") t₁ :=
    add_admissible (.inr rfl) rfl roomyConf_leadsTo hp₁ (Option.map_eq_none_iff.mp hnone)
  obtain ⟨hd₂, hp₂⟩ := reachable_calm (.inr rfl) hd₁ hp₁ hadd₂ hrun₂
  obtain ⟨fs, hd₃⟩ := reachable_del (.inl rfl) hd₂ roomyConf_bridge roomyConf_parse
    roomyConf_leadsTo hfree
  have hinitial : Initial (idlePool emptyNode) := ⟨fun _ => rfl, fun _ => rfl, rfl⟩
  have hgone : (t₂.without 1 fs).interface 1 = none := hp₂.without (by simp [pod]) hfirst
  have hstays : (t₂.without 1 fs).interface 2 = t₂.interface 2 :=
    hp₂.without_other (.inl rfl) (by decide)
  have hboth := distinct_addresses Crates.compact_lawful podNetns_injective podNetns_ne_empty
    hinitial hd₂
  have hone := distinct_addresses Crates.compact_lawful podNetns_injective podNetns_ne_empty
    hinitial hd₃
  exact ⟨t₂, t₂.without 1 fs, hd₂, hfirst, hsecond, hboth, hd₃, hgone, hstays.trans hsecond, hone⟩

/-- Pod 1 is added, its DEL releases its lease, and pod 2 is added. -/
def reuse [Crates] : Option (Node × Node) := do
  let (_, s₁) ← (podRun 1 addJob).run (perform 1 addJob) emptyNode
  let (_, s₂) ← perform 1 delJob
    (.runDelegate "host-local" (argsOf podNetns (pod 1) delJob) tightConf) s₁
  let (_, s₃) ← (podRun 2 addJob).run (perform 2 addJob) s₂
  return (s₂, s₃)

theorem reuse_shared : ((@reuse Crates.compact).map fun s =>
      (s.1.veths 2, (s.2.veths 1).map Veth.addrs, (s.2.veths 2).map Veth.addrs)) =
    some (none, some [.ofOctets 10 244 1 2], some [.ofOctets 10 244 1 2]) := by
  decide +kernel

theorem podRun_exec [Crates] {n : ℕ} {j : Job} {r : Except CniError String} {s s' : Node}
    (hn : n = 1 ∨ n = 2) (hp : s.Paired) (h : (podRun n j).run (perform n j) s = some (r, s')) :
    Exec ((system podNetns cbr0Dir fun _ _ _ => True).answers (pod n) j) s
      ((system podNetns cbr0Dir fun _ _ _ => True).code (pod n) j) r s' ∧ s'.Paired := by
  rw [code_pod]
  refine Program.exec_of_run_inv (fun op s r s₁ hp h => ?_) hp h
  obtain ⟨hanswer, hp₁⟩ := perform_answers hn hp h
  exact ⟨⟨hanswer, trivial⟩, hp₁⟩

/-- Without the condition: when pod 2 is added between the two steps of the DEL of pod 1, both
interfaces carry the one address. -/
theorem address_reused : ∃ d,
    (@system Crates.compact podNetns cbr0Dir fun _ _ _ => True).Reachable (idlePool emptyNode) d ∧
    ¬ d.state.DistinctAddresses := by
  let := Crates.compact
  obtain ⟨⟨s₂, s₃⟩, hreuse, hshared⟩ := Option.map_eq_some_iff.mp reuse_shared
  unfold reuse at hreuse
  obtain ⟨⟨r₁, s₁⟩, hrun₁, hreuse⟩ := Option.bind_eq_some_iff.mp hreuse
  obtain ⟨⟨r₂, t₂⟩, hrun₂, hreuse⟩ := Option.bind_eq_some_iff.mp hreuse
  obtain ⟨⟨r₃, t₃⟩, hrun₃, hreuse⟩ := Option.bind_eq_some_iff.mp hreuse
  have he : (t₂, t₃) = (s₂, s₃) := Option.some.inj hreuse
  obtain ⟨rfl, rfl⟩ := Prod.mk.inj he
  obtain ⟨hnone, h⟩ := Prod.mk.inj hshared
  obtain ⟨h₁, h₂⟩ := Prod.mk.inj h
  obtain ⟨hexec₁, hp₁⟩ := podRun_exec (.inl rfl) emptyNode_paired hrun₁
  obtain ⟨hanswer, hp₂⟩ := perform_answers (.inl rfl) hp₁ hrun₂
  obtain ⟨hexec₃, -⟩ := podRun_exec (.inr rfl) hp₂ hrun₃
  let S := system podNetns cbr0Dir fun _ _ _ => True
  have hadd₁ : S.start (pod 1) addJob emptyNode emptyNode :=
    ⟨add_admissible (.inl rfl) rfl tightConf_leadsTo emptyNode_paired rfl, rfl⟩
  have hdel : S.start (pod 1) delJob s₁ s₁ :=
    ⟨del_admissible (.inl rfl) rfl tightConf_leadsTo, rfl⟩
  have hadd₂ : S.start (pod 2) addJob t₂ t₂ :=
    ⟨add_admissible (.inr rfl) rfl tightConf_leadsTo hp₂ hnone, rfl⟩
  have hadded : S.Reachable _ _ := .job (c := idlePool emptyNode) .here rfl hadd₁ hexec₁
  have hidle := hadded.step (.finish (s := s₁) (Config.goOn_busy_self ..) rfl)
  have hstarted := hidle.step (.start (Config.goOn_busy_self ..) hdel)
  rw [code_pod, podRun_del (j := delJob) rfl tightConf_bridge] at hstarted
  have hreleased := hstarted.step (.request (Config.goOn_busy_self ..) ⟨hanswer, trivial⟩)
  have hreused := hreleased.job (p := pod 2) rfl hadd₂ hexec₃
  refine ⟨_, hreused, fun h => ?_⟩
  obtain ⟨v, hv, hv'⟩ := Option.map_eq_some_iff.mp h₁
  obtain ⟨w, hw, hw'⟩ := Option.map_eq_some_iff.mp h₂
  have heq := h.2 1 2 v w (.ofOctets 10 244 1 2) hv hw (by simp [hv']) (by simp [hw'])
  cases heq

end FlannelRs.BridgeAddresses
