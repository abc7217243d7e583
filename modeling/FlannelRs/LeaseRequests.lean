import FlannelRs.LeaseStores

/-!
# Which files `host-local` asks for

The requests of a run, whatever their answers are.
-/

namespace FlannelRs.LeaseRequests
open InteractionPrograms FileSystem Ipv4Addresses RustText CniTypes HostLocal LeaseStores

/-- The directory of an operation. -/
def opDir : FsOp → String
  | .createDirAll dir => dir
  | .createFile dir _ => dir
  | .lockExclusive dir _ => dir
  | .unlock dir _ => dir
  | .readDir dir => dir
  | .readToString dir _ => dir
  | .write dir _ _ => dir
  | .removeFile dir _ => dir

/-- What a run for `o` asks of a store, when it may only allocate addresses with `usable`: the
only file it makes is the lock, and it writes the cursor and leases of `o`. -/
def Asks (dir : String) (o : Attachment) (usable : Ipv4Addr → Prop) : FsOp → Prop
  | .createFile d name => d = dir ∧ name = "lock"
  | .write d name text => d = dir ∧ ((name = "last_reserved_ip.0" ∧
      ∃ ip, usable ip ∧ text = ip.toString) ∨
      ∃ ip, usable ip ∧ name = ip.toString ∧ text = Store.leaseText o.1 o.2)
  | op => opDir op = dir

/-- The operations that only read. -/
def Reads (dir : String) : FsOp → Prop
  | .readDir d => d = dir
  | .readToString d _ => d = dir
  | _ => False

/-- What giving leases back takes. -/
def Frees (dir : String) : FsOp → Prop
  | .removeFile d name => d = dir ∧ ∃ ip : Ipv4Addr, name = ip.toString
  | op => Reads dir op

theorem Asks.dir {dir : String} {o : Attachment} {usable : Ipv4Addr → Prop} {op : FsOp}
    (h : Asks dir o usable op) : opDir op = dir := by
  cases op with
  | createFile d name => exact h.1
  | write d name text => exact h.1
  | _ => exact h

/-- An operation leaves the other directories as they are. -/
theorem dirs_of_mayFail {p : ℕ} {s s' : Fs} {op : FsOp} {r : FsRes op}
    (h : s.MayFail p op r s') {d : String} (hd : d ≠ opDir op) : s'.dirs d = s.dirs d := by
  have hset : ∀ entries, (s.setDir (opDir op) entries).dirs d = s.dirs d := fun entries =>
    Function.update_of_ne hd _ _
  rcases h with h | h
  · cases op with
    | createDirAll dir =>
      obtain ⟨-, rfl⟩ := h
      exact hset _
    | createFile dir name =>
      obtain ⟨-, -, -, rfl⟩ := h
      exact hset _
    | lockExclusive dir name => rw [h.2.2, Fs.setLock_dirs]
    | unlock dir name => rw [h.2, Fs.setLock_dirs]
    | readDir dir =>
      obtain ⟨-, -, -, -, -, rfl⟩ := h
      rfl
    | readToString dir name => rw [h.1]
    | write dir name text =>
      obtain ⟨-, -, -, rfl⟩ := h
      exact hset _
    | removeFile dir name =>
      obtain ⟨-, -, -, -, rfl⟩ := h
      exact hset _
  · cases op with
    | write dir name text =>
      obtain ⟨-, rfl | ⟨-, -, -, rfl⟩⟩ := h
      · rfl
      · exact hset _
    | readToString dir name => exact h.elim
    | unlock dir name => exact h.elim
    | _ => rw [h.2]

section

variable {dir : String} {o : Attachment} {usable : Ipv4Addr → Prop}

/-- The requests of a part of a run. -/
abbrev Local (dir : String) (o : Attachment) (usable : Ipv4Addr → Prop) {α : Type}
    (p : FsProgram α) : Prop := p.Uses (Asks dir o usable)

theorem local_orError {α : Type} {x : IoProgram α} {e : CniError} (h : Local dir o usable x.run) :
    Local dir o usable (orError x e).run := by
  refine h.bind fun r => ?_
  cases r <;> trivial

theorem local_withLock {α : Type} {body : CniProgram α} (h : Local dir o usable body.run) :
    Local dir o usable (withLock ⟨dir⟩ body).run := by
  have hlock : Local dir o usable (Store.mk dir).lock.run :=
    Program.Uses.exceptBind (Program.Uses.send ⟨rfl, rfl⟩) fun _ => Program.Uses.send rfl
  refine Program.Uses.exceptBind (local_orError hlock) fun _ => ?_
  refine h.bind fun r => ?_
  exact Program.Uses.bind (Program.Uses.send rfl) fun _ => trivial

theorem Reads.asks {op : FsOp} (h : Reads dir op) : Asks dir o usable op := by
  cases op with
  | readDir d => exact h
  | readToString d name => exact h
  | _ => exact h.elim

theorem Frees.asks {op : FsOp} (h : Frees dir op) : Asks dir o usable op := by
  cases op with
  | removeFile d name => exact h.1
  | _ => exact Reads.asks h

theorem uses_readOrDefault {P : FsOp → Prop} {name : String} (h : P (.readToString dir name)) :
    ((Store.mk dir).readOrDefault name).Uses P := by
  refine Program.Uses.bind (Program.Uses.send h) fun r => ?_
  cases r <;> trivial

theorem uses_release_of {P : FsOp → Prop} (hscan : P (.readDir dir))
    (hread : ∀ ip : Ipv4Addr, P (.readToString dir ip.toString))
    (hremove : ∀ ip : Ipv4Addr, P (.removeFile dir ip.toString)) (containerId ifname : String) :
    ((Store.mk dir).release containerId ifname).run.Uses P := by
  refine Program.Uses.exceptBind (Program.Uses.send hscan) fun names => ?_
  induction names with
  | nil => trivial
  | cons name rest ih =>
    refine Program.Uses.exceptBind ?_ fun _ => ih
    unfold Store.releaseEntry
    cases hname : parseIpv4 name with
    | none => trivial
    | some ip =>
      obtain rfl := eq_toString_of_parseIpv4 hname
      refine Program.Uses.exceptBind (uses_readOrDefault (hread ip)).lift fun content => ?_
      by_cases hmatch : (lines content)[0]?.getD "" = containerId ∧
          (lines content)[1]?.getD "" = ifname
      · rw [if_pos hmatch]
        exact Program.Uses.send (hremove ip)
      · rw [if_neg hmatch]
        trivial

theorem uses_release (containerId ifname : String) :
    ((Store.mk dir).release containerId ifname).run.Uses (Frees dir) :=
  uses_release_of (P := Frees dir) rfl (fun _ => rfl) (fun ip => ⟨rfl, ip, rfl⟩) containerId ifname

theorem uses_has (containerId ifname : String) :
    ((Store.mk dir).has containerId ifname).run.Uses (Reads dir) := by
  refine Program.Uses.exceptBind (Program.Uses.send rfl) fun names => ?_
  induction names with
  | nil => trivial
  | cons name rest ih =>
    unfold Store.hasLoop
    split
    · exact ih
    · have hread : Reads dir (.readToString dir name) := rfl
      refine Program.Uses.exceptBind (uses_readOrDefault hread).lift fun content => ?_
      split
      · trivial
      · exact ih

theorem local_release (containerId ifname : String) :
    Local dir o usable ((Store.mk dir).release containerId ifname).run :=
  (uses_release containerId ifname).mono fun _ => Frees.asks

theorem local_has (containerId ifname : String) :
    Local dir o usable ((Store.mk dir).has containerId ifname).run :=
  (uses_has containerId ifname).mono fun _ => Reads.asks

theorem local_reserve {ip : Ipv4Addr} (h : usable ip) :
    Local dir o usable ((Store.mk dir).reserve ip o.1 o.2).run :=
  Program.Uses.exceptBind (Program.Uses.send ⟨rfl, .inr ⟨ip, h, rfl, rfl⟩⟩) fun _ =>
    Program.Uses.send ⟨rfl, .inl ⟨rfl, ip, h, rfl⟩⟩

variable [Crates] {args : CniArgs} {stdin : String}

omit [Crates] in
theorem local_storeFor_bind {nc : NetConf} {f : Store → CniProgram String}
    (hdir : joinPath (nc.ipam.dataDir.getD defaultDataDir) nc.name = dir)
    (hf : Local dir o usable (f ⟨dir⟩).run) : Local dir o usable (storeFor nc >>= f).run := by
  rw [storeFor, run_orError_bind, Store.new, hdir]
  refine ⟨rfl, fun r => ?_⟩
  cases r with
  | error e => trivial
  | ok a => exact hf

theorem local_addLocked {nc : NetConf} {alloc : Allocator}
    (halloc : ∀ ip ∈ alloc.usableHosts, usable ip) :
    Local dir (args.containerId, args.ifname) usable (addLocked args nc alloc ⟨dir⟩).run := by
  have hleased : Local dir (args.containerId, args.ifname) usable (Store.mk dir).leased.run :=
    Program.Uses.exceptBind (Program.Uses.send rfl) fun _ => trivial
  have hlast : Local dir (args.containerId, args.ifname) usable (Store.mk dir).lastReserved := by
    refine Program.Uses.bind (Program.Uses.send rfl) fun r => ?_
    cases r <;> trivial
  refine Program.Uses.exceptBind (local_orError hleased) fun leased => ?_
  refine Program.Uses.exceptBind hlast.lift fun last => ?_
  cases hnext : alloc.nextIp leased last with
  | none => trivial
  | some ip =>
    have hip := halloc ip (Allocator.nextIp_spec hnext).1
    exact Program.Uses.exceptBind (local_orError (local_reserve hip)) fun _ => trivial

/-- The addresses that a run may allocate. -/
def Allocates (stdin : String) (usable : Ipv4Addr → Prop) : Prop :=
  ∀ nc alloc, NetConf.parse stdin = some nc → allocatorFor nc = .ok alloc →
    ∀ ip ∈ alloc.usableHosts, usable ip

theorem local_cmdAdd (hdir : LeadsTo stdin dir) (husable : Allocates stdin usable) :
    Local dir (args.containerId, args.ifname) usable (cmdAdd args stdin).run := by
  rw [cmdAdd, Program.run_pure_bind, load]
  cases hnc : NetConf.parse stdin with
  | none => trivial
  | some nc =>
    simp only [Program.run_pure_bind]
    cases halloc : allocatorFor nc with
    | error e => trivial
    | ok alloc =>
      apply local_storeFor_bind (hdir nc hnc)
      exact local_withLock (local_addLocked (husable nc alloc hnc halloc))

theorem local_cmdDel (hdir : LeadsTo stdin dir) : Local dir o usable (cmdDel args stdin).run := by
  rw [cmdDel, Program.run_pure_bind, load]
  cases hnc : NetConf.parse stdin with
  | none => trivial
  | some nc =>
    apply local_storeFor_bind (hdir nc hnc)
    apply local_withLock
    exact Program.Uses.exceptBind (local_orError (local_release _ _)) fun _ => trivial

theorem local_cmdCheck (hdir : LeadsTo stdin dir) :
    Local dir o usable (cmdCheck args stdin).run := by
  rw [cmdCheck, Program.run_pure_bind, load]
  cases hnc : NetConf.parse stdin with
  | none => trivial
  | some nc =>
    apply local_storeFor_bind (hdir nc hnc)
    refine Program.Uses.exceptBind (local_orError (local_has _ _)) fun found => ?_
    cases found <;> trivial

/-- Any command, on a configuration for `dir`. Only an ADD allocates. -/
theorem local_run (hdir : LeadsTo stdin dir)
    (husable : args.command = "ADD" → Allocates stdin usable) :
    Local dir (args.containerId, args.ifname) usable (HostLocal.run args stdin).run := by
  unfold HostLocal.run
  by_cases hversion : args.command = "VERSION"
  · rw [if_pos hversion]
    trivial
  rw [if_neg hversion]
  by_cases hadd : args.command = "ADD"
  · rw [if_pos hadd]
    exact local_cmdAdd hdir (husable hadd)
  rw [if_neg hadd]
  by_cases hdel : args.command = "DEL"
  · rw [if_pos hdel]
    exact local_cmdDel hdir
  rw [if_neg hdel]
  by_cases hcheck : args.command = "CHECK"
  · rw [if_pos hcheck]
    exact local_cmdCheck hdir
  · rw [if_neg hcheck]
    trivial

omit [Crates] in
/-- A run leaves every other directory as it is. -/
theorem wlp_other_dirs {p : ℕ} {E : Environment Fs FsOp FsRes}
    (hE : ∀ s o r s', E s o r s' → s.MayFail p o r s') {α : Type} {prog : FsProgram α}
    (h : Local dir o usable prog) (s : Fs) :
    wlp E (fun _ s' => ∀ d, d ≠ dir → s'.dirs d = s.dirs d) prog s := by
  refine h.wlp (R := fun s s' => ∀ d, d ≠ dir → s'.dirs d = s.dirs d) (fun _ _ _ => rfl) ?_ ?_ s
  · exact fun s t u h h' d hd => (h' d hd).trans (h d hd)
  · intro s op r s' hop hr d hd
    exact dirs_of_mayFail (hE s op r s' hr) (hop.dir ▸ hd)

end

end FlannelRs.LeaseRequests
