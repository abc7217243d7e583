import FlannelRs.ExclusiveLeases
import FlannelRs.LeaseFailures
import FlannelRs.LeaseRequests
import FlannelRs.SerialRuns

/-!
# `host-local` processes as if one after the other

Any number of processes work on one lease directory, and file operations may fail. All that an
ADD or a DEL does with the leases it does under the lock of the directory.
-/

namespace FlannelRs.LeaseTurns
open InteractionPrograms ProcessPools SerialRuns FileSystem Ipv4Addresses RustText CniTypes
open HostLocal
open LeaseStores LeaseRequests
open ExclusiveLeases (Job)
open LeaseFailures (SameFiles cursorFile freshStore cbr0Dir sameFiles_createDirAll
  sameFiles_createFile)

/-- What a job prints, or its error. -/
abbrev Outcome := Except CniError String

/-- A file system on which the given operations may fail. -/
def Faulty (fails : FsOp → Prop) (p : ℕ) : Environment Fs FsOp FsRes := fun s o r s' =>
  s.Answers p o r s' ∨ (fails o ∧ s.Fails o r s')

variable {fails : FsOp → Prop} {p : ℕ} {dir : String} {s s' t : Fs}

theorem Faulty.mayFail {o : FsOp} {r : FsRes o} (h : Faulty fails p s o r s') :
    s.MayFail p o r s' :=
  h.imp id And.right

/-- A job that has the lock. -/
def holding (dir : String) (rest : FsProgram Outcome) : FsProgram Outcome :=
  rest >>= fun r => .request (.unlock dir "lock") fun _ => .ret r

def locking (dir : String) (e : CniError) (body : FsProgram Outcome) : FsProgram Outcome :=
  .request (.lockExclusive dir "lock") fun
    | .ok _ => holding dir body
    | .error io => .ret (.error (e.withDetails io.text))

def making (dir : String) (e : CniError) (body : FsProgram Outcome) : FsProgram Outcome :=
  .request (.createFile dir "lock") fun
    | .ok _ => locking dir e body
    | .error io => .ret (.error (e.withDetails io.text))

/-- A job that opens the directory and takes its lock for the body. -/
def guarded (dir : String) (e e' : CniError) (body : FsProgram Outcome) : FsProgram Outcome :=
  .request (.createDirAll dir) fun
    | .ok _ => making dir e' body
    | .error io => .ret (.error (e.withDetails io.text))

/-- What is done under the lock. -/
def UnderLock (dir : String) : FsOp → Prop
  | .readDir d => d = dir
  | .readToString d name => d = dir ∧ name ≠ "lock"
  | .write d name _ => d = dir ∧ name ≠ "lock"
  | .removeFile d name => d = dir ∧ name ≠ "lock"
  | _ => False

theorem storeFor_withLock {nc : NetConf} {body : Store → CniProgram String}
    (hdir : joinPath (nc.ipam.dataDir.getD defaultDataDir) nc.name = dir) :
    (storeFor nc >>= fun store => withLock store (body store)).run =
      guarded dir (.new 5 "failed to open data dir") (.new 11 "failed to lock data dir")
        (body ⟨dir⟩).run := by
  rw [storeFor, run_orError_bind, Store.new, hdir, guarded]
  refine congrArg (Program.request (FsOp.createDirAll dir)) (funext fun r => ?_)
  cases r with
  | error io => rfl
  | ok _ =>
    refine (run_orError_bind _ _ _).trans ?_
    refine congrArg (Program.request (FsOp.createFile dir "lock")) (funext fun r => ?_)
    cases r with
    | error io => rfl
    | ok _ =>
      refine congrArg (Program.request (FsOp.lockExclusive dir "lock")) (funext fun r => ?_)
      cases r <;> rfl

theorem uses_addLocked_of [Crates] {args : CniArgs} {nc : NetConf} {alloc : Allocator}
    {P : FsOp → Prop} (hscan : P (.readDir dir)) (hread : P (.readToString dir cursorFile))
    (hwrite : ∀ (ip : Ipv4Addr) text, P (.write dir ip.toString text))
    (hcursor : ∀ text, P (.write dir cursorFile text)) :
    (addLocked args nc alloc ⟨dir⟩).run.Uses P := by
  have hleased : (Store.mk dir).leased.run.Uses P :=
    Program.Uses.exceptBind (Program.Uses.send hscan) fun _ => trivial
  have hlast : (Store.mk dir).lastReserved.Uses P := by
    refine Program.Uses.bind (Program.Uses.send hread) fun r => ?_
    cases r <;> trivial
  have herror : ∀ {β : Type} {x : IoProgram β} {e : CniError}, x.run.Uses P →
      (orError x e).run.Uses P := by
    refine fun h => h.bind fun r => ?_
    cases r <;> trivial
  refine Program.Uses.exceptBind (herror hleased) fun leased => ?_
  refine Program.Uses.exceptBind hlast.lift fun last => ?_
  cases alloc.nextIp leased last with
  | none => trivial
  | some ip =>
    refine Program.Uses.exceptBind (herror ?_) fun _ => trivial
    exact Program.Uses.exceptBind (Program.Uses.send (hwrite ip _))
      fun _ => Program.Uses.send (hcursor _)

theorem uses_addLocked [Crates] {args : CniArgs} {nc : NetConf} {alloc : Allocator} :
    (addLocked args nc alloc ⟨dir⟩).run.Uses (UnderLock dir) :=
  uses_addLocked_of (P := UnderLock dir) rfl ⟨rfl, by decide⟩
    (fun ip _ => ⟨rfl, LeaseFailures.toString_ne_lock ip⟩) fun _ => ⟨rfl, by decide⟩

/-- What a DEL does under the lock. -/
def released (args : CniArgs) (dir : String) : CniProgram String := do
  orError ((Store.mk dir).release args.containerId args.ifname) (.new 5 "release lease")
  return ""

theorem uses_released (args : CniArgs) : (released args dir).run.Uses (UnderLock dir) := by
  refine Program.Uses.exceptBind ?_ fun _ => trivial
  refine Program.Uses.bind ?_ fun r => ?_
  · exact uses_release_of (P := UnderLock dir) rfl
      (fun ip => ⟨rfl, LeaseFailures.toString_ne_lock ip⟩)
      (fun ip => ⟨rfl, LeaseFailures.toString_ne_lock ip⟩) _ _
  · cases r <;> trivial

/-- The directory is there. -/
def Made (dir : String) (s : Fs) : Prop := (s.dirs dir).isSome

/-- The lock file is there. -/
def Opened (dir : String) (s : Fs) : Prop := (s.lookup dir "lock").isSome

/-- Nothing has changed but the lock file, which may have been made. -/
structure Unmoved (dir : String) (s s' : Fs) : Prop where
  files : SameFiles dir s s'
  lock : s'.locks (dir, "lock") = s.locks (dir, "lock")
  made : Made dir s → Made dir s'
  opened : Opened dir s → Opened dir s'

theorem SameFiles.symm (h : SameFiles dir s t) : SameFiles dir t s :=
  fun name hname => (h name hname).symm

theorem made_setDir (d : Dir) : Made dir (s.setDir dir d) := by
  rw [Made, Fs.setDir_dirs_self]
  rfl

theorem unmoved_createDirAll (s : Fs) :
    Unmoved dir s (s.setDir dir ((s.dirs dir).getD ∅)) := by
  refine ⟨sameFiles_createDirAll dir s, rfl, fun _ => made_setDir _, fun h => ?_⟩
  unfold Opened at h ⊢
  rw [Fs.setDir_lookup_self]
  cases hd : s.dirs dir with
  | none => simp [Fs.lookup, hd] at h
  | some d => rwa [Fs.lookup_of_dirs hd] at h

theorem opened_createFile (d : Dir) :
    Opened dir (s.setDir dir (d.insert "lock" (.text ""))) := by
  rw [Opened, Fs.setDir_lookup_self, AList.lookup_insert]
  rfl

theorem unmoved_createFile {d : Dir} (hd : s.dirs dir = some d) :
    Unmoved dir s (s.setDir dir (d.insert "lock" (.text ""))) :=
  ⟨sameFiles_createFile hd, rfl, fun _ => made_setDir _, fun _ => opened_createFile d⟩

/-- An operation on another directory. -/
theorem unmoved_of_elsewhere {o : FsOp} {r : FsRes o} (h : Faulty fails p s o r s')
    (hdir : dir ≠ opDir o) : Unmoved dir s s' := by
  have hdirs : s'.dirs dir = s.dirs dir := dirs_of_mayFail h.mayFail hdir
  have hlookup : ∀ name, s'.lookup dir name = s.lookup dir name := fun name => by
    rw [Fs.lookup, hdirs, Fs.lookup]
  refine ⟨fun name _ => hlookup name, ?_, fun hmade => by rwa [Made, hdirs],
    fun hopen => by rwa [Opened, hlookup]⟩
  have hset : ∀ d name holder, dir ≠ d → (s.setLock d name holder).locks (dir, "lock") =
      s.locks (dir, "lock") := fun d name holder hd =>
    Function.update_of_ne (fun he => hd (congrArg Prod.fst he)) _ _
  rcases h with h | ⟨-, h⟩
  · cases o with
    | lockExclusive d name =>
      obtain ⟨-, -, rfl⟩ := h
      exact hset d name _ hdir
    | unlock d name =>
      obtain ⟨-, rfl⟩ := h
      exact hset d name _ hdir
    | _ => rw [Fs.locks_of_answers (by trivial) h]
  · cases o with
    | write d name text =>
      obtain ⟨-, rfl | ⟨-, -, -, rfl⟩⟩ := h <;> rfl
    | readToString d name => exact h.elim
    | unlock d name => exact h.elim
    | _ => rw [h.2]

theorem unmoved_of_reads {o : FsOp} {r : FsRes o} (h : Faulty fails p s o r s')
    (hreads : Reads dir o) : s' = s := by
  cases o with
  | readDir d =>
    obtain ⟨-, -, -, -, -, rfl⟩ | ⟨-, -, rfl⟩ := h <;> rfl
  | readToString d name =>
    obtain ⟨rfl, -⟩ | ⟨-, h⟩ := h
    · rfl
    · exact h.elim
  | _ => exact hreads.elim

/-- The same files, both times with the lock of the process. -/
structure Held (dir : String) (p : ℕ) (s t : Fs) : Prop where
  files : SameFiles dir s t
  lock : s.locks (dir, "lock") = some p
  lock' : t.locks (dir, "lock") = some p
  opened : Opened dir s
  opened' : Opened dir t

theorem not_held (h : s.locks (dir, "lock") = none) : ¬ Held dir p s t := by
  intro hheld
  have hlock := hheld.lock
  rw [h] at hlock
  cases hlock

theorem dir_of_opened (h : Opened dir s) : ∃ d, s.dirs dir = some d ∧ "lock" ∈ d := by
  obtain ⟨content, hcontent⟩ := Option.isSome_iff_exists.mp h
  obtain ⟨d, hd, hlock⟩ := Option.bind_eq_some_iff.mp hcontent
  exact ⟨d, hd, AList.lookup_isSome.mp (by rw [hlock]; rfl)⟩

theorem made_of_opened (h : Opened dir s) : Made dir s := by
  obtain ⟨d, hd, -⟩ := dir_of_opened h
  rw [Made, hd]
  rfl

/-- With the lock file on both sides, the same names are there. -/
theorem Held.mem_iff (h : Held dir p s t) {d d' : Dir} (hd : s.dirs dir = some d)
    (hd' : t.dirs dir = some d') (name : String) : name ∈ d ↔ name ∈ d' := by
  by_cases hname : name = "lock"
  · subst hname
    have hs := h.opened
    have ht := h.opened'
    unfold Opened at hs ht
    rw [Fs.lookup_of_dirs hd, AList.lookup_isSome] at hs
    rw [Fs.lookup_of_dirs hd', AList.lookup_isSome] at ht
    exact iff_of_true hs ht
  · have hfiles := h.files name hname
    rw [Fs.lookup_of_dirs hd, Fs.lookup_of_dirs hd'] at hfiles
    rw [← AList.lookup_isSome, ← AList.lookup_isSome, hfiles]

theorem sameFiles_insert (h : SameFiles dir s t) {d d' : Dir} (hd : s.dirs dir = some d)
    (hd' : t.dirs dir = some d') (name : String) (content : FileContent) :
    SameFiles dir (s.setDir dir (d.insert name content))
      (t.setDir dir (d'.insert name content)) := by
  intro x hx
  rw [Fs.setDir_lookup_self, Fs.setDir_lookup_self]
  by_cases hxn : x = name
  · rw [hxn, AList.lookup_insert, AList.lookup_insert]
  · rw [AList.lookup_insert_ne hxn, AList.lookup_insert_ne hxn, ← Fs.lookup_of_dirs hd,
      ← Fs.lookup_of_dirs hd']
    exact h x hx

theorem opened_insert {d : Dir} (hd : s.dirs dir = some d) (h : Opened dir s) {name : String}
    (hname : name ≠ "lock") (content : FileContent) :
    Opened dir (s.setDir dir (d.insert name content)) := by
  rw [Opened, Fs.setDir_lookup_self, AList.lookup_insert_ne hname.symm, ← Fs.lookup_of_dirs hd]
  exact h

theorem Held.insert (h : Held dir p s t) {d d' : Dir} (hd : s.dirs dir = some d)
    (hd' : t.dirs dir = some d') {name : String} (hname : name ≠ "lock") (content : FileContent) :
    Held dir p (s.setDir dir (d.insert name content)) (t.setDir dir (d'.insert name content)) :=
  ⟨sameFiles_insert h.files hd hd' name content, h.lock, h.lock',
    opened_insert hd h.opened hname content, opened_insert hd' h.opened' hname content⟩

theorem Held.erase (h : Held dir p s t) {d d' : Dir} (hd : s.dirs dir = some d)
    (hd' : t.dirs dir = some d') {name : String} (hname : name ≠ "lock") :
    Held dir p (s.setDir dir (d.erase name)) (t.setDir dir (d'.erase name)) := by
  refine ⟨fun x hx => ?_, h.lock, h.lock', ?_, ?_⟩
  · rw [Fs.setDir_lookup_self, Fs.setDir_lookup_self]
    by_cases hxn : x = name
    · rw [hxn, AList.lookup_erase, AList.lookup_erase]
    · rw [AList.lookup_erase_ne hxn, AList.lookup_erase_ne hxn, ← Fs.lookup_of_dirs hd,
        ← Fs.lookup_of_dirs hd']
      exact h.files x hx
  · rw [Opened, Fs.setDir_lookup_self, AList.lookup_erase_ne hname.symm, ← Fs.lookup_of_dirs hd]
    exact h.opened
  · rw [Opened, Fs.setDir_lookup_self, AList.lookup_erase_ne hname.symm, ← Fs.lookup_of_dirs hd']
    exact h.opened'

/-- What is done under the lock may be done to the same files with the same answer. -/
theorem Held.answered (h : Held dir p s t) {o : FsOp} (ho : UnderLock dir o) {r : FsRes o}
    (hr : Faulty fails p s o r s') :
    (Opened dir s → Opened dir s') ∧ ∃ t', Faulty fails p t o r t' ∧ Held dir p s' t' := by
  obtain ⟨d, hd, -⟩ := dir_of_opened h.opened
  obtain ⟨d', hd', -⟩ := dir_of_opened h.opened'
  have hkeys : d.keys.Perm d'.keys := by
    refine (List.perm_ext_iff_of_nodup d.keys_nodup d'.keys_nodup).mpr fun name => ?_
    rw [← AList.mem_keys, ← AList.mem_keys]
    exact h.mem_iff hd hd' name
  have hheld : ∀ {u t'}, Faulty fails p t o r t' ∧ Held dir p u t' → u = s' →
      (Opened dir s → Opened dir s') ∧ ∃ t', Faulty fails p t o r t' ∧ Held dir p s' t' := by
    rintro u t' ⟨ht, hu⟩ rfl
    exact ⟨fun _ => hu.opened, t', ht, hu⟩
  cases o with
  | readDir e =>
    obtain rfl : e = dir := ho
    obtain ⟨_, names, hd₁, hnames, rfl, rfl⟩ | ⟨hfails, he, rfl⟩ := hr
    · obtain rfl := Option.some.inj (hd.symm.trans hd₁)
      exact hheld ⟨.inl ⟨d', names, hd', hnames.trans hkeys, rfl, rfl⟩, h⟩ rfl
    · exact hheld ⟨.inr ⟨hfails, he, rfl⟩, h⟩ rfl
  | readToString e name =>
    obtain ⟨rfl, hname⟩ : e = dir ∧ name ≠ "lock" := ho
    obtain ⟨rfl, hread⟩ | ⟨-, he⟩ := hr
    · refine hheld ⟨.inl ⟨rfl, ?_⟩, h⟩ rfl
      rw [h.files name hname]
      exact hread
    · exact he.elim
  | write e name text =>
    obtain ⟨rfl, hname⟩ : e = dir ∧ name ≠ "lock" := ho
    obtain ⟨_, hd₁, rfl, rfl⟩ | ⟨hfails, he, rfl | ⟨_, content, hd₁, rfl⟩⟩ := hr
    · obtain rfl := Option.some.inj (hd.symm.trans hd₁)
      exact hheld ⟨.inl ⟨d', hd', rfl, rfl⟩, h.insert hd hd' hname _⟩ rfl
    · exact hheld ⟨.inr ⟨hfails, he, .inl rfl⟩, h⟩ rfl
    · obtain rfl := Option.some.inj (hd.symm.trans hd₁)
      exact hheld ⟨.inr ⟨hfails, he, .inr ⟨d', content, hd', rfl⟩⟩, h.insert hd hd' hname _⟩ rfl
  | removeFile e name =>
    obtain ⟨rfl, hname⟩ : e = dir ∧ name ≠ "lock" := ho
    obtain ⟨_, hd₁, hmem, rfl, rfl⟩ | ⟨hfails, he, rfl⟩ := hr
    · obtain rfl := Option.some.inj (hd.symm.trans hd₁)
      exact hheld ⟨.inl ⟨d', hd', (h.mem_iff hd hd' name).mp hmem, rfl, rfl⟩,
        h.erase hd hd' hname⟩ rfl
    · exact hheld ⟨.inr ⟨hfails, he, rfl⟩, h⟩ rfl
  | _ => exact ho.elim

/-- A job that takes no turn: a CHECK, or one for another directory. -/
def watches [Crates] (dir : String) (j : Job) : Bool :=
  j.1.command = "CHECK" || (NetConf.parse j.2).any fun nc =>
    joinPath (nc.ipam.dataDir.getD defaultDataDir) nc.name ≠ dir

variable [Crates]

section

variable {args : CniArgs} {stdin : String} {nc : NetConf}

theorem load_eq_ok_iff : load stdin = .ok nc ↔ NetConf.parse stdin = some nc := by
  unfold load
  cases NetConf.parse stdin <;> simp

theorem run_cmdAdd_unread {e : CniError} (hload : load stdin = .error e) :
    (cmdAdd args stdin).run = .ret (.error e) := by
  rw [cmdAdd, Program.run_pure_bind, hload]

theorem run_cmdAdd_unplanned {e : CniError} (hload : load stdin = .ok nc)
    (halloc : allocatorFor nc = .error e) : (cmdAdd args stdin).run = .ret (.error e) := by
  rw [cmdAdd, Program.run_pure_bind, hload]
  simp only [Program.run_pure_bind, halloc]

/-- An ADD whose configuration is in order does all under the lock. -/
theorem run_cmdAdd {alloc : Allocator} (hload : load stdin = .ok nc)
    (halloc : allocatorFor nc = .ok alloc)
    (hdir : joinPath (nc.ipam.dataDir.getD defaultDataDir) nc.name = dir) :
    (cmdAdd args stdin).run = guarded dir (.new 5 "failed to open data dir")
      (.new 11 "failed to lock data dir") (addLocked args nc alloc ⟨dir⟩).run := by
  rw [cmdAdd, Program.run_pure_bind, hload]
  simp only [Program.run_pure_bind, halloc]
  exact storeFor_withLock hdir

end

/-- A job that takes turns returns at once, or does all under the lock. -/
theorem run_cases {j : Job} (hturns : watches dir j = false) :
    (∃ a, (HostLocal.run j.1 j.2).run = .ret a) ∨
    (∃ e e' nc alloc,
      (HostLocal.run j.1 j.2).run = guarded dir e e' (addLocked j.1 nc alloc ⟨dir⟩).run) ∨
    ∃ e e', (HostLocal.run j.1 j.2).run = guarded dir e e' (released j.1 dir).run := by
  rw [watches, Bool.or_eq_false_iff, decide_eq_false_iff_not] at hturns
  obtain ⟨hcheck, hdir⟩ := hturns
  unfold HostLocal.run
  by_cases hversion : j.1.command = "VERSION"
  · rw [if_pos hversion]
    exact .inl ⟨_, rfl⟩
  rw [if_neg hversion]
  by_cases hadd : j.1.command = "ADD"
  · rw [if_pos hadd]
    cases hload : load j.2 with
    | error e => exact .inl ⟨_, run_cmdAdd_unread hload⟩
    | ok nc =>
      rw [load_eq_ok_iff.mp hload] at hdir
      cases halloc : allocatorFor nc with
      | error e => exact .inl ⟨_, run_cmdAdd_unplanned hload halloc⟩
      | ok alloc =>
        exact .inr (.inl ⟨_, _, nc, alloc, run_cmdAdd hload halloc (by simpa using hdir)⟩)
  rw [if_neg hadd]
  by_cases hdel : j.1.command = "DEL"
  · rw [if_pos hdel, cmdDel, Program.run_pure_bind, load]
    cases hnc : NetConf.parse j.2 with
    | none => exact .inl ⟨_, rfl⟩
    | some nc =>
      rw [hnc] at hdir
      exact .inr (.inr ⟨_, _, storeFor_withLock (by simpa using hdir)⟩)
  rw [if_neg hdel, if_neg hcheck]
  exact .inl ⟨_, rfl⟩

theorem run_shape {j : Job} (hturns : watches dir j = false) :
    (∃ a, (HostLocal.run j.1 j.2).run = .ret a) ∨ ∃ e e' body,
      (HostLocal.run j.1 j.2).run = guarded dir e e' body ∧ body.Uses (UnderLock dir) := by
  rcases run_cases hturns with hret | ⟨e, e', nc, alloc, hcode⟩ | ⟨e, e', hcode⟩
  · exact .inl hret
  · exact .inr ⟨e, e', _, hcode, uses_addLocked⟩
  · exact .inr ⟨e, e', _, hcode, uses_released j.1⟩

/-- The same files, and both times nobody has the lock. -/
structure Free (dir : String) (s t : Fs) : Prop where
  files : SameFiles dir s t
  lock : s.locks (dir, "lock") = none
  lock' : t.locks (dir, "lock") = none

omit [Crates] in
theorem Free.self (h : s.locks (dir, "lock") = none) : Free dir s s := ⟨fun _ _ => rfl, h, h⟩

/-- A job before it has the lock. -/
inductive Outside (dir : String) (fails : FsOp → Prop) (p : ℕ) (code prog : FsProgram Outcome)
    (s : Fs) : Prop where
  | starting {e e' : CniError} {body : FsProgram Outcome} (hcode : code = guarded dir e e' body)
      (hbody : body.Uses (UnderLock dir)) (hprog : prog = guarded dir e e' body)
  | making {e e' : CniError} {body : FsProgram Outcome} (hcode : code = guarded dir e e' body)
      (hbody : body.Uses (UnderLock dir)) (hprog : prog = making dir e' body) (hmade : Made dir s)
  | locking {e e' : CniError} {body : FsProgram Outcome} (hcode : code = guarded dir e e' body)
      (hbody : body.Uses (UnderLock dir)) (hprog : prog = locking dir e' body)
      (hopened : Opened dir s)
  | returned {a : Outcome} (hprog : prog = .ret a) (hidles : ∀ s t, Free dir s t →
      ∃ t', Exec (Faulty fails p) t code a t' ∧ Free dir s t')

def Inside (dir : String) (prog : FsProgram Outcome) : Prop :=
  ∃ rest : FsProgram Outcome, rest.Uses (UnderLock dir) ∧ prog = holding dir rest

/-- The processes on a node, of which those for `dir` take turns. -/
def discipline (dir : String) (fails : FsOp → Prop) :
    Discipline Fs ℕ Job FsOp FsRes Outcome where
  code _ j := (HostLocal.run j.1 j.2).run
  answers p _ := Faulty fails p
  allowed _ _ := True
  watches := watches dir
  outside p j := Outside dir fails p (HostLocal.run j.1 j.2).run
  inside _ _ := Inside dir
  free := Free dir
  held := Held dir

theorem keeps_of_opened (hmade : Made dir s → Made dir s')
    (hopened : Opened dir s → Opened dir s') :
    (discipline dir fails).Keeps s s' := by
  intro q j prog hout
  cases hout with
  | starting hcode hbody hprog => exact .starting hcode hbody hprog
  | making hcode hbody hprog h => exact .making hcode hbody hprog (hmade h)
  | locking hcode hbody hprog h => exact .locking hcode hbody hprog (hopened h)
  | returned hprog hidles => exact .returned hprog hidles

omit [Crates] in
theorem Free.unmoved (hf : Free dir s t) (h : Unmoved dir s s') : Free dir s' t :=
  ⟨(SameFiles.symm h.files).trans hf.files, h.lock.trans hf.lock, hf.lock'⟩

theorem silent_of_unmoved (h : Unmoved dir s s') : (discipline dir fails).Silent s s' :=
  ⟨keeps_of_opened h.made h.opened, fun _ hf => hf.unmoved h, fun _ _ hheld =>
    ⟨(SameFiles.symm h.files).trans hheld.files, h.lock.trans hheld.lock, hheld.lock',
      h.opened hheld.opened, hheld.opened'⟩⟩

omit [Crates] in
/-- A job by itself gets the lock that nobody has. -/
theorem advance_guarded (hfree : Free dir s t) (e e' : CniError) (body : FsProgram Outcome) :
    ∃ t', Advance (Faulty fails p) t (guarded dir e e' body) t' (holding dir body) ∧
      SameFiles dir s t' ∧ t'.locks (dir, "lock") = some p ∧ Opened dir t' := by
  let made := t.setDir dir ((t.dirs dir).getD ∅)
  have hdir : made.dirs dir = some ((t.dirs dir).getD ∅) := Fs.setDir_dirs_self ..
  let opened := made.setDir dir (((t.dirs dir).getD ∅).insert "lock" (.text ""))
  have hmade : Faulty fails p t (.createDirAll dir) (.ok ()) made := .inl ⟨rfl, rfl⟩
  have hopened : Faulty fails p made (.createFile dir "lock") (.ok ()) opened :=
    .inl ⟨_, hdir, rfl, rfl⟩
  have hlocked : Faulty fails p opened (.lockExclusive dir "lock") (.ok ())
      (opened.setLock dir "lock" (some p)) := .inl ⟨hfree.lock', rfl, rfl⟩
  have hstart : Advance (Faulty fails p) t (guarded dir e e' body) t (guarded dir e e' body) :=
    .here
  refine ⟨_, ((hstart.step hmade).step hopened).step hlocked, ?_, Fs.setLock_locks_self ..,
    opened_createFile _⟩
  exact (hfree.files.trans (unmoved_createDirAll t).files).trans (unmoved_createFile hdir).files

omit [Crates] in
/-- A job by itself that cannot open the directory. -/
theorem idles_of_unopened {io : IoError} (e e' : CniError) (body : FsProgram Outcome)
    (hfails : fails (.createDirAll dir)) (s t : Fs) (hfree : Free dir s t) :
    ∃ t', Exec (Faulty fails p) t (guarded dir e e' body) (.error (e.withDetails io.text)) t' ∧
      Free dir s t' := by
  have hrefused : Faulty fails p t (.createDirAll dir) (.error io) t :=
    .inr ⟨hfails, ⟨io, rfl⟩, rfl⟩
  exact ⟨t, .request hrefused (.ret ..), hfree⟩

omit [Crates] in
/-- A job by itself that cannot make the lock file, or cannot take the lock. -/
theorem idles_of_unlocked {io : IoError} (e e' : CniError) (body : FsProgram Outcome)
    (hfails : fails (.createFile dir "lock") ∨ fails (.lockExclusive dir "lock")) (s t : Fs)
    (hfree : Free dir s t) :
    ∃ t', Exec (Faulty fails p) t (guarded dir e e' body) (.error (e'.withDetails io.text)) t' ∧
      Free dir s t' := by
  let made := t.setDir dir ((t.dirs dir).getD ∅)
  have hdir : made.dirs dir = some ((t.dirs dir).getD ∅) := Fs.setDir_dirs_self ..
  have hmade : Faulty fails p t (.createDirAll dir) (.ok ()) made := .inl ⟨rfl, rfl⟩
  have hfree₁ : SameFiles dir s made := hfree.files.trans (unmoved_createDirAll t).files
  rcases hfails with hfails | hfails
  · have hrefused : Faulty fails p made (.createFile dir "lock") (.error io) made :=
      .inr ⟨hfails, ⟨io, rfl⟩, rfl⟩
    exact ⟨made, .request hmade (.request hrefused (.ret ..)), hfree₁, hfree.lock, hfree.lock'⟩
  · let opened := made.setDir dir (((t.dirs dir).getD ∅).insert "lock" (.text ""))
    have hopened : Faulty fails p made (.createFile dir "lock") (.ok ()) opened :=
      .inl ⟨_, hdir, rfl, rfl⟩
    have hrefused : Faulty fails p opened (.lockExclusive dir "lock") (.error io) opened :=
      .inr ⟨hfails, ⟨io, rfl⟩, rfl⟩
    exact ⟨opened, .request hmade (.request hopened (.request hrefused (.ret ..))),
      hfree₁.trans (unmoved_createFile hdir).files, hfree.lock, hfree.lock'⟩

/-- A request of a job that does not have the lock. -/
theorem outside_step {j : Job} {o : FsOp} {next : FsRes o → FsProgram Outcome} {r : FsRes o}
    (hout : Outside dir fails p (HostLocal.run j.1 j.2).run (.request o next) s)
    (hr : Faulty fails p s o r s') :
    (Outside dir fails p (HostLocal.run j.1 j.2).run (next r) s' ∧
      (discipline dir fails).Silent s s') ∨
    (Inside dir (next r) ∧ (discipline dir fails).Keeps s s' ∧ (∀ q t, ¬ Held dir q s t) ∧
      ∀ t, Free dir s t → ∃ t', Advance (Faulty fails p) t (HostLocal.run j.1 j.2).run t' (next r) ∧
        Held dir p s' t') := by
  cases hout with
  | @starting e e' body hcode hbody hprog =>
    unfold guarded at hprog
    cases hprog
    left
    obtain ⟨rfl, rfl⟩ | ⟨hfails, ⟨io, rfl⟩, rfl⟩ := hr
    · exact ⟨.making hcode hbody rfl (made_setDir _), silent_of_unmoved (unmoved_createDirAll s)⟩
    · exact ⟨.returned rfl (hcode ▸ idles_of_unopened e e' body hfails), .refl _ _⟩
  | @making e e' body hcode hbody hprog hmade =>
    unfold making at hprog
    cases hprog
    left
    obtain ⟨d, hd, rfl, rfl⟩ | ⟨hfails, ⟨io, rfl⟩, rfl⟩ := hr
    · exact ⟨.locking hcode hbody rfl (opened_createFile d),
        silent_of_unmoved (unmoved_createFile hd)⟩
    · exact ⟨.returned rfl (hcode ▸ idles_of_unlocked e e' body (.inl hfails)), .refl _ _⟩
  | @locking e e' body hcode hbody hprog hopened =>
    unfold locking at hprog
    cases hprog
    obtain ⟨hfree, rfl, rfl⟩ | ⟨hfails, ⟨io, rfl⟩, rfl⟩ := hr
    · right
      refine ⟨⟨body, hbody, rfl⟩, keeps_of_opened id id, fun q t => not_held hfree, fun t h => ?_⟩
      · have hadvance : ∃ t', Advance (Faulty fails p) t (guarded dir e e' body) t'
            (holding dir body) ∧ SameFiles dir s t' ∧ t'.locks (dir, "lock") = some p ∧
            Opened dir t' := advance_guarded h e e' body
        obtain ⟨t', hrun, hfiles, hlock, hopened'⟩ := hadvance
        rw [hcode]
        exact ⟨t', hrun, hfiles, Fs.setLock_locks_self .., hlock, hopened, hopened'⟩
    · left
      exact ⟨.returned rfl (hcode ▸ idles_of_unlocked e e' body (.inr hfails)), .refl _ _⟩
  | returned hprog hidles => cases hprog

/-- A request of a job that has the lock. -/
theorem inside_step {o : FsOp} {next : FsRes o → FsProgram Outcome} {r : FsRes o}
    (hin : Inside dir (.request o next)) (h : Held dir p s t) (hr : Faulty fails p s o r s') :
    (discipline dir fails).Keeps s s' ∧ ∃ t', Faulty fails p t o r t' ∧
      ((Inside dir (next r) ∧ Held dir p s' t') ∨ ∃ a, next r = .ret a ∧ Free dir s' t') := by
  obtain ⟨rest, hrest, hprog⟩ := hin
  cases rest with
  | ret a =>
    change Program.request o next = Program.request (.unlock dir "lock") fun _ => .ret a at hprog
    cases hprog
    obtain ⟨rfl, rfl⟩ | ⟨-, he⟩ := hr
    · exact ⟨keeps_of_opened id id, t.setLock dir "lock" none, .inl ⟨rfl, rfl⟩, .inr ⟨a, rfl,
        h.files, Fs.setLock_locks_self .., Fs.setLock_locks_self ..⟩⟩
    · exact he.elim
  | request o' next' =>
    change Program.request o next = Program.request o' fun r => holding dir (next' r) at hprog
    cases hprog
    obtain ⟨hopened, t', hr', h'⟩ := h.answered hrest.1 hr
    exact ⟨keeps_of_opened (fun _ => made_of_opened (hopened h.opened)) hopened, t', hr',
      .inl ⟨⟨next' r, hrest.2 r, rfl⟩, h'⟩⟩

/-- A job for another directory, or for none. -/
theorem exists_leadsTo {stdin : String} (h : ∀ nc, NetConf.parse stdin = some nc →
    joinPath (nc.ipam.dataDir.getD defaultDataDir) nc.name ≠ dir) :
    ∃ d, dir ≠ d ∧ LeadsTo stdin d := by
  cases hnc : NetConf.parse stdin with
  | none =>
    refine ⟨dir ++ "/", fun he => ?_, fun nc hnc' => ?_⟩
    · simpa using congrArg String.length he
    · rw [hnc] at hnc'
      cases hnc'
  | some nc =>
    refine ⟨_, (h nc hnc).symm, fun nc' hnc' => ?_⟩
    rw [hnc] at hnc'
    rw [Option.some.inj hnc']

theorem uses_cmdCheck {j : Job} {nc : NetConf} (hnc : NetConf.parse j.2 = some nc)
    (hdir : joinPath (nc.ipam.dataDir.getD defaultDataDir) nc.name = dir) {P : FsOp → Prop}
    (hmake : P (.createDirAll dir)) (hreads : ∀ o, Reads dir o → P o) :
    (cmdCheck j.1 j.2).run.Uses P := by
  rw [cmdCheck, Program.run_pure_bind, load, hnc]
  change (storeFor nc >>= _).run.Uses P
  rw [storeFor, run_orError_bind, Store.new, hdir]
  refine ⟨hmake, fun r => ?_⟩
  cases r with
  | error io => trivial
  | ok _ =>
    refine Program.Uses.exceptBind (Program.Uses.bind ?_ fun r => ?_) fun found => ?_
    · exact (uses_has _ _).mono hreads
    · cases r <;> trivial
    · cases found <;> trivial

/-- A job that takes no turn. -/
theorem uses_watching {j : Job} (hwatches : watches dir j = true) :
    (HostLocal.run j.1 j.2).run.Uses ((discipline dir fails).Quiet p j) := by
  by_cases hleads : ∀ nc, NetConf.parse j.2 = some nc →
      joinPath (nc.ipam.dataDir.getD defaultDataDir) nc.name ≠ dir
  · obtain ⟨d, hd, hleads⟩ := exists_leadsTo hleads
    have hallocates : Allocates j.2 fun _ => True := fun _ _ _ _ _ _ => trivial
    refine (local_run hleads fun _ => hallocates).mono fun o ho s r s' hr => ?_
    exact silent_of_unmoved (unmoved_of_elsewhere hr (ho.dir ▸ hd))
  · obtain ⟨nc, hnc, hdir⟩ : ∃ nc, NetConf.parse j.2 = some nc ∧
        joinPath (nc.ipam.dataDir.getD defaultDataDir) nc.name = dir := by
      by_contra hnone
      exact hleads fun nc hnc hdir => hnone ⟨nc, hnc, hdir⟩
    have hcheck : j.1.command = "CHECK" := by
      rw [watches, hnc] at hwatches
      simpa [hdir] using hwatches
    have hrun : HostLocal.run j.1 j.2 = cmdCheck j.1 j.2 := by simp [HostLocal.run, hcheck]
    rw [hrun]
    refine uses_cmdCheck hnc hdir (fun s r s' hr => ?_) fun o ho s r s' hr => ?_
    · obtain ⟨-, rfl⟩ | ⟨-, -, rfl⟩ := hr
      · exact silent_of_unmoved (unmoved_createDirAll s)
      · exact .refl _ _
    · rw [unmoved_of_reads hr ho]
      exact .refl _ _

theorem lawful (dir : String) (fails : FsOp → Prop) : (discipline dir fails).Lawful where
  refl s t h := ⟨fun _ _ => rfl, h.lock', h.lock'⟩
  watch p j _ hwatches := uses_watching hwatches
  start p j _ hturns s := by
    obtain ⟨a, hret⟩ | ⟨e, e', body, hcode, hbody⟩ := run_shape hturns
    · refine .returned hret fun s t hfree => ⟨t, ?_, hfree⟩
      rw [hret]
      exact .ret ..
    · exact .starting hcode hbody hcode
  outsideStep p j o next s r s' hout hr := outside_step hout hr
  outsideRet p j a s hout := by
    cases hout with
    | starting _ _ hprog => cases hprog
    | making _ _ hprog => cases hprog
    | locking _ _ hprog _ => cases hprog
    | returned hprog hidles =>
      obtain rfl := Program.ret.inj hprog
      exact hidles
  insideStep p j o next s t r s' hin h hr := inside_step hin h hr
  insideRet p j a hin := by
    obtain ⟨rest, -, hprog⟩ := hin
    cases rest <;> cases hprog

/-- What any number of processes have done to the leases of a network, and what they print, is
what the ADDs and DELs among them do one after the other, whatever file operations may fail. The
order respects which of them were over when others began. -/
theorem serializable (dir : String) (fails : FsOp → Prop)
    {c d : Config (Book Fs ℕ Job Outcome) ℕ Job FsOp FsRes Outcome} (idle : ∀ p, c.busy p = none)
    (hnew : c.state.past = []) (hfree : c.state.state.locks (dir, "lock") = none)
    (h : (discipline dir fails).system.Reachable c d) :
    ∃ order pending t,
      Serial (discipline dir fails).code (discipline dir fails).answers c.state.state order t ∧
      order.Perm ((discipline dir fails).turns d.state.past ++ pending) ∧
      order.Pairwise (fun x y => y ∉ d.state.past.take x.opened) ∧
      (∀ x ∈ pending, d.busy x.pid = some (x.job, .ret x.result) ∧ watches dir x.job = false ∧
        x.opened = d.state.opened x.pid) ∧
      (d.state.state.locks (dir, "lock") = none →
        ∀ name, name ≠ "lock" → t.lookup dir name = d.state.state.lookup dir name) := by
  obtain ⟨order, pending, t, hserial, hperm, htime, hpending, hstate⟩ :=
    exists_serial (lawful dir fails) idle hnew (Free.self hfree) h
  refine ⟨order, pending, t, hserial, hperm, htime, hpending, fun hunlocked => ?_⟩
  have hfiles : Free dir d.state.state t := hstate fun q u => not_held hunlocked
  exact hfiles.files

/-- The second of two pods that are added at the same time. Its ADD starts last and goes first. -/
def lastPodJob : Job := (⟨"ADD", "c2", "/proc/2/ns/net", "eth0", "", "/opt/cni/bin"⟩, cbr0Conf)

/-- How process `p` does a job alone. -/
def podRun (p : ℕ) (j : Job) (s : Fs) : Option (Outcome × Fs) :=
  (HostLocal.run j.1 j.2).run.run (Fs.perform p) s

omit [Crates] in
theorem podRuns_leases : ((@podRun Crates.compact 1 lastPodJob freshStore).bind fun r =>
    (@podRun Crates.compact 0 ExclusiveLeases.podJob r.2).map fun r' =>
      (lease cbr0Dir r'.2 (.ofOctets 10 244 1 2), lease cbr0Dir r'.2 (.ofOctets 10 244 1 3),
        r'.2.locks (cbr0Dir, "lock"))) =
    some (some (.text "c2\neth0"), some (.text "c1\neth0"), none) := by
  decide +kernel

theorem exec_podRun {j : Job} {r : Outcome} (h : podRun p j s = some (r, s')) :
    Exec ((discipline dir fails).answers p j) s ((discipline dir fails).code p j) r s' :=
  Program.exec_of_run (fun _ _ _ _ hr => .inl (Fs.perform_answers hr)) h

omit [Crates] in
theorem reachable_two_pods (fails : FsOp → Prop) : ∃ d a b,
    (@discipline Crates.compact cbr0Dir fails).system.Reachable
      ⟨⟨freshStore, fun _ => 0, []⟩, fun _ => none⟩ d ∧
    d.state.past = [⟨1, lastPodJob, b, 0⟩, ⟨0, ExclusiveLeases.podJob, a, 0⟩] ∧
    d.state.state.locks (cbr0Dir, "lock") = none ∧
    lease cbr0Dir d.state.state (.ofOctets 10 244 1 2) = some (.text "c2\neth0") := by
  let := Crates.compact
  obtain ⟨⟨b, s₁⟩, hb, hrest⟩ := Option.bind_eq_some_iff.mp podRuns_leases
  obtain ⟨⟨a, s₂⟩, ha, hleases⟩ := Option.map_eq_some_iff.mp hrest
  obtain ⟨hfirst, hsecond⟩ := Prod.mk.inj hleases
  obtain ⟨d, hd, hstate, hover⟩ := reachable_crossed (D := discipline cbr0Dir fails) (p := 0)
    (q := 1) (by decide) trivial trivial (exec_podRun hb) (exec_podRun ha)
  exact ⟨d, a, b, hd, hover, by rw [hstate]; exact (Prod.mk.inj hsecond).2, by rwa [hstate]⟩

omit [Crates] in
theorem serializable_two_pods : ∃ d order pending t,
    (@discipline Crates.compact cbr0Dir fun _ => True).system.Reachable
      ⟨⟨freshStore, fun _ => 0, []⟩, fun _ => none⟩ d ∧ d.state.past.length = 2 ∧
    Serial (@discipline Crates.compact cbr0Dir fun _ => True).code
      (@discipline Crates.compact cbr0Dir fun _ => True).answers freshStore order t ∧
    order.Perm
      ((@discipline Crates.compact cbr0Dir fun _ => True).turns d.state.past ++ pending) ∧
    order.Pairwise (fun x y => y ∉ d.state.past.take x.opened) ∧
    (∀ x ∈ pending, d.busy x.pid = some (x.job, .ret x.result) ∧
      @watches Crates.compact cbr0Dir x.job = false ∧ x.opened = d.state.opened x.pid) ∧
    ∀ name, name ≠ "lock" → t.lookup cbr0Dir name = d.state.state.lookup cbr0Dir name := by
  let := Crates.compact
  obtain ⟨d, a, b, hd, hover, hlock, -⟩ := reachable_two_pods fun _ => True
  obtain ⟨order, pending, t, hserial, hperm, htime, hpending, hfiles⟩ :=
    serializable cbr0Dir _ (fun _ => rfl) rfl rfl hd
  exact ⟨d, order, pending, t, hd, by rw [hover]; rfl, hserial, hperm, htime, hpending,
    hfiles hlock⟩

end FlannelRs.LeaseTurns
