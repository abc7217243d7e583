import FlannelRs.LeaseOwnership
import FlannelRs.LeaseTurns

/-!
# The lease directory as a registry

What `host-local` is for: a registry that answers one job at a time. On a file system whose
operations do not fail, the processes on a lease directory are as good as that.
-/

namespace FlannelRs.LeaseRegistry
open InteractionPrograms ProcessPools SerialRuns FileSystem Ipv4Addresses RustText CniTypes
open HostLocal
open LeaseStores LeaseRequests LeaseTurns
open ExclusiveLeases (Job)
open LeaseOwnership (Ledger)
open LeaseFailures (SameFiles cbr0Dir freshStore cursor cursorFile cursor_of_answers cursor_insert
  toString_ne_cursorFile toString_ne_lock)

/-- Which address belongs to whom, and which one was handed out last. -/
structure Registry where
  leases : Ledger
  cursor : Option Ipv4Addr

namespace Registry

/-- The next free address after the last one. -/
def next (R : Registry) (alloc : Allocator) : Option Ipv4Addr :=
  alloc.nextIp (alloc.usableHosts.filter fun ip => (R.leases ip).isSome) R.cursor

/-- The attachment that a lease file of the arguments names, which is that of the arguments if it
is a valid one. -/
def named (args : CniArgs) : Attachment := owner (Attachment.file (args.containerId, args.ifname))

variable [Crates]

def add (R : Registry) (args : CniArgs) (nc : NetConf) (alloc : Allocator) : Outcome × Registry :=
  match R.next alloc with
  | none => (.error (.new 7 "no IP addresses available in range"), R)
  | some ip => (.ok (addResult nc alloc ip).toJson, ⟨R.leases.reserve ip (named args), some ip⟩)

/-- What a job prints, and the registry afterwards. -/
def serve (R : Registry) (j : Job) : Outcome × Registry :=
  if j.1.command = "VERSION" then (.ok versionResult, R)
  else if j.1.command = "ADD" then
    match load j.2 with
    | .error e => (.error e, R)
    | .ok nc =>
      match allocatorFor nc with
      | .error e => (.error e, R)
      | .ok alloc => R.add j.1 nc alloc
  else if j.1.command = "DEL" then
    match load j.2 with
    | .error e => (.error e, R)
    | .ok _ => (.ok "", ⟨R.leases.release (j.1.containerId, j.1.ifname), R.cursor⟩)
  else (.error (.new 4 ("unknown CNI_COMMAND " ++ j.1.command)), R)

/-- Jobs one after the other. -/
def serveAll (R : Registry) : List Job → List Outcome × Registry
  | [] => ([], R)
  | j :: rest =>
    let (a, R') := R.serve j
    let (as, R'') := R'.serveAll rest
    (a :: as, R'')

theorem serveAll_concat (R : Registry) (js : List Job) (j : Job) :
    R.serveAll (js ++ [j]) = ((R.serveAll js).1 ++ [((R.serveAll js).2.serve j).1],
      ((R.serveAll js).2.serve j).2) := by
  induction js generalizing R with
  | nil => rfl
  | cons i rest ih =>
    simp only [List.cons_append, serveAll, ih]

end Registry

/-- A lease belongs to the owner that its file names. -/
def registry (dir : String) (s : Fs) : Registry :=
  ⟨fun ip => (lease dir s ip).map owner, cursor dir s⟩

variable {dir : String} {s s' t : Fs} {p : ℕ} {E : Environment Fs FsOp FsRes}

theorem registry_of_files (h : SameFiles dir s t) : registry dir t = registry dir s := by
  rw [registry, h.cursor_eq, registry]
  congr 1
  funext ip
  rw [h.leases ip]

/-- The allocator only asks whether usable hosts are leased. -/
theorem nextIp_congr_usable {alloc : Allocator} {l l' : List Ipv4Addr}
    (h : ∀ ip ∈ alloc.usableHosts, ip ∈ l ↔ ip ∈ l') (last : Option Ipv4Addr) :
    alloc.nextIp l last = alloc.nextIp l' last := by
  simp only [Allocator.nextIp]
  split
  · rfl
  · refine congrArg (List.findSome? · _) (funext fun k => Option.bind_congr fun ip hip => ?_)
    simp only [h ip (List.mem_of_getElem? hip)]

theorem next_eq {alloc : Allocator} {ips : List Ipv4Addr}
    (hips : ∀ ip, ip ∈ ips ↔ lease dir s ip ≠ none) :
    alloc.nextIp ips (cursor dir s) = (registry dir s).next alloc := by
  apply nextIp_congr_usable
  intro ip hip
  rw [hips ip, List.mem_filter, registry, Option.isSome_map, Option.isSome_iff_ne_none]
  exact ⟨fun h => ⟨hip, h⟩, And.right⟩

/-- The two files that an ADD writes. -/
theorem registry_reserved {d : Dir} (hd : s.dirs dir = some d) (ip : Ipv4Addr) (text : String) :
    registry dir ((s.setDir dir (d.insert ip.toString (.text text))).setDir dir
        ((d.insert ip.toString (.text text)).insert cursorFile (.text ip.toString))) =
      ⟨(registry dir s).leases.reserve ip (owner (.text text)), some ip⟩ := by
  have hdir : (s.setDir dir (d.insert ip.toString (.text text))).dirs dir =
      some (d.insert ip.toString (.text text)) := Fs.setDir_dirs_self ..
  rw [registry, cursor_insert]
  congr 1
  funext x
  rw [lease_setDir_insert hdir (toString_ne_cursorFile x), Ledger.reserve]
  by_cases hx : x = ip
  · rw [hx, lease_insert_self, Function.update_self, Option.map_some]
  · rw [lease_insert_ne hd hx, Function.update_of_ne hx]
    rfl

section

variable (hE : ∀ s o r s', E s o r s' → s.Answers p o r s')

include hE

theorem wlp_guarded {post : Outcome → Fs → Prop} {e e' : CniError} {body : FsProgram Outcome}
    (hbody : ∀ s₁, SameFiles dir s s₁ →
      wlp E (fun r s₂ => ∀ s₃, s₃.dirs = s₂.dirs → post r s₃) body s₁) :
    wlp E post (guarded dir e e' body) s := by
  intro r s₁ h₁
  obtain ⟨rfl, rfl⟩ := hE _ _ _ _ h₁
  intro r s₂ h₂
  obtain ⟨d, hd, rfl, rfl⟩ := hE _ _ _ _ h₂
  intro r s₃ h₃
  obtain ⟨-, rfl, rfl⟩ := hE _ _ _ _ h₃
  have hfiles := (unmoved_createDirAll s).files.trans (unmoved_createFile hd).files
  refine wlp.bind (hbody _ ?_) ?_
  · exact fun name hname => hfiles name hname
  · intro r s₄ hpost _ s₅ h₅
    obtain ⟨-, rfl⟩ := hE _ _ _ _ h₅
    exact hpost _ rfl

/-- The lock is not part of the registry. -/
theorem wlp_guarded_registry (post : Outcome → Registry → Prop) {e e' : CniError}
    {body : FsProgram Outcome} (hbody : ∀ s₁, registry dir s₁ = registry dir s →
      wlp E (fun r s₂ => post r (registry dir s₂)) body s₁) :
    wlp E (fun r s' => post r (registry dir s')) (guarded dir e e' body) s := by
  refine wlp_guarded hE fun s₁ hfiles => (hbody s₁ (registry_of_files hfiles)).mono ?_
  intro r s₂ h s₃ hdirs
  have hsame : SameFiles dir s₂ s₃ := fun name _ => by rw [Fs.lookup, hdirs, Fs.lookup]
  rwa [registry_of_files hsame]

theorem wlp_leased : wlp E (fun r s' => s' = s ∧
      ∃ ips, r = .ok ips ∧ ∀ ip, ip ∈ ips ↔ lease dir s ip ≠ none)
    (Store.mk dir).leased.run s := by
  intro r s' h
  obtain ⟨d, names, hd, hnames, rfl, rfl⟩ := hE _ _ _ _ h
  exact ⟨rfl, _, rfl, fun ip => mem_filterMap_parseIpv4.trans (mem_names_iff hd hnames ip)⟩

theorem wlp_lastReserved : wlp E (fun last s' => s' = s ∧ last = cursor dir s)
    (Store.mk dir).lastReserved s := by
  intro r s' h
  have hanswer := hE _ _ _ _ h
  have hcursor := cursor_of_answers hanswer
  obtain ⟨rfl, -⟩ := hanswer
  cases r with
  | ok t => exact ⟨rfl, hcursor⟩
  | error e => exact ⟨rfl, hcursor⟩

theorem wlp_reserve (ip : Ipv4Addr) (o : Attachment) :
    wlp E (fun r s' => r = .ok () ∧
        registry dir s' = ⟨(registry dir s).leases.reserve ip (owner o.file), some ip⟩)
      ((Store.mk dir).reserve ip o.1 o.2).run s := by
  intro r s₁ h₁
  obtain ⟨d, hd, rfl, rfl⟩ := hE _ _ _ _ h₁
  intro r s₂ h₂
  obtain ⟨d₁, hd₁, rfl, rfl⟩ := hE _ _ _ _ h₂
  obtain rfl := Option.some.inj ((Fs.setDir_dirs_self ..).symm.trans hd₁)
  exact ⟨rfl, registry_reserved hd ip _⟩

theorem wlp_addLocked [Crates] {args : CniArgs} {nc : NetConf} {alloc : Allocator} :
    wlp E (fun r s' => (registry dir s).add args nc alloc = (r, registry dir s'))
      (addLocked args nc alloc ⟨dir⟩).run s := by
  refine wlp_orError_bind (wlp_leased hE) ?_ ?_
  · rintro ips _ ⟨rfl, _, ⟨rfl⟩, hips⟩
    refine wlp.liftBind (wlp_lastReserved hE) ?_
    rintro _ _ ⟨rfl, rfl⟩
    rw [next_eq hips, Registry.add]
    cases (registry dir _).next alloc with
    | none => exact rfl
    | some ip =>
      refine wlp_orError_bind (wlp_reserve hE ip (args.containerId, args.ifname)) ?_ ?_
      · rintro _ s₁ ⟨-, hreserved⟩
        exact Prod.ext rfl hreserved.symm
      · rintro io s₁ ⟨hr, -⟩
        cases hr
  · rintro io s₁ ⟨-, _, hr, -⟩
    cases hr

theorem wlp_releaseEntry_ok (o : Attachment) (name : String) :
    wlp E (fun r _ => r = .ok ()) ((Store.mk dir).releaseEntry o.1 o.2 name).run s := by
  unfold Store.releaseEntry
  cases parseIpv4 name with
  | none => rfl
  | some ip =>
    refine wlp.liftBind (wlp_true _ s) fun content s₁ _ => ?_
    by_cases hmatch : (lines content)[0]?.getD "" = o.1 ∧ (lines content)[1]?.getD "" = o.2
    · rw [if_pos hmatch]
      intro r s₂ h
      obtain ⟨-, -, -, rfl, -⟩ := hE _ _ _ _ h
      rfl
    · rw [if_neg hmatch]
      rfl

theorem wlp_release_ok (o : Attachment) :
    wlp E (fun r _ => r = .ok ()) ((Store.mk dir).release o.1 o.2).run s := by
  intro r s₁ h
  obtain ⟨d, names, -, -, rfl, rfl⟩ := hE _ _ _ _ h
  have hloop : ∀ (names : List String) (s : Fs), wlp E (fun r _ => r = .ok ())
      (names.forM ((Store.mk dir).releaseEntry o.1 o.2)).run s := by
    intro names
    induction names with
    | nil => exact fun _ => rfl
    | cons name rest ih =>
      refine fun s => wlp.exceptBind (wlp_releaseEntry_ok hE o name) (fun _ s₁ _ => ih s₁) ?_
      rintro e s₁ ⟨⟩
  exact hloop names s₁

/-- A release leaves the cursor as it is. -/
theorem wlp_release_cursor (o : Attachment) :
    wlp E (fun _ s' => cursor dir s' = cursor dir s) ((Store.mk dir).release o.1 o.2).run s := by
  refine (uses_release o.1 o.2).wlp (R := fun s s' => cursor dir s' = cursor dir s)
    (fun _ => rfl) (fun _ _ _ h h' => h'.trans h) ?_ s
  intro s op r s' hop h
  have hanswer := hE _ _ _ _ h
  cases op with
  | readDir d =>
    obtain ⟨-, -, -, -, -, rfl⟩ := hanswer
    rfl
  | readToString d name =>
    obtain ⟨rfl, -⟩ := hanswer
    rfl
  | removeFile d name =>
    obtain ⟨rfl, ip, rfl⟩ := hop
    obtain ⟨entries, hd, -, -, rfl⟩ := hanswer
    rw [cursor, Fs.setDir_lookup_self, AList.lookup_erase_ne (toString_ne_cursorFile ip).symm,
      ← Fs.lookup_of_dirs hd, cursor]
  | _ => exact hop.elim

theorem wlp_release (o : Attachment) :
    wlp E (fun r s' => r = .ok () ∧
        registry dir s' = ⟨(registry dir s).leases.release o, (registry dir s).cursor⟩)
      ((Store.mk dir).release o.1 o.2).run s := by
  refine wlp_of_exec fun r s' hexec => ?_
  obtain rfl := hexec.wlp (wlp_release_ok hE o)
  obtain ⟨hdropped, hgone⟩ := hexec.wlp (LeaseStores.wlp_release
    fun _ _ _ _ h => Fs.losing_of_mayFail (.inl (hE _ _ _ _ h)))
  refine ⟨rfl, ?_⟩
  rw [registry, hexec.wlp (wlp_release_cursor hE o)]
  congr 1
  funext ip
  change (lease dir s' ip).map owner =
    if (lease dir s ip).map owner = some o then none else (lease dir s ip).map owner
  rcases hdropped.released ip with hsame | ⟨⟨content, hcontent, howner⟩, hnone⟩
  · rw [hsame, if_neg]
    intro ho
    obtain ⟨content, hcontent, howner⟩ := Option.map_eq_some_iff.mp ho
    exact (hgone rfl).not_owns ip ⟨content, hsame.trans hcontent, howner⟩
  · rw [hnone, hcontent, Option.map_none, Option.map_some, howner, if_pos rfl]

theorem wlp_addGuarded [Crates] {args : CniArgs} {nc : NetConf} {alloc : Allocator}
    {e e' : CniError} :
    wlp E (fun r s' => (registry dir s).add args nc alloc = (r, registry dir s'))
      (guarded dir e e' (addLocked args nc alloc ⟨dir⟩).run) s := by
  refine wlp_guarded_registry hE (fun r R => (registry dir s).add args nc alloc = (r, R)) ?_
  intro s₁ hsame
  rw [← hsame]
  exact wlp_addLocked hE

theorem wlp_delGuarded {args : CniArgs} {e e' : CniError} :
    wlp E (fun r s' => r = .ok "" ∧ registry dir s' =
        ⟨(registry dir s).leases.release (args.containerId, args.ifname), (registry dir s).cursor⟩)
      (guarded dir e e' (released args dir).run) s := by
  refine wlp_guarded_registry hE (fun r R => r = .ok "" ∧ R =
    ⟨(registry dir s).leases.release (args.containerId, args.ifname), (registry dir s).cursor⟩) ?_
  intro s₁ hsame
  rw [← hsame]
  refine wlp_orError_bind (wlp_release hE (args.containerId, args.ifname)) ?_ ?_
  · rintro _ s₂ ⟨-, hreleased⟩
    exact ⟨rfl, hreleased⟩
  · rintro io s₂ ⟨hr, -⟩
    cases hr

/-- A job that takes turns, by itself, does what the registry does. -/
theorem wlp_serve [Crates] {j : Job} (hturns : watches dir j = false) :
    wlp E (fun r s' => (registry dir s).serve j = (r, registry dir s'))
      (HostLocal.run j.1 j.2).run s := by
  rw [watches, Bool.or_eq_false_iff, decide_eq_false_iff_not] at hturns
  obtain ⟨hcheck, hdir⟩ := hturns
  unfold HostLocal.run Registry.serve
  by_cases hversion : j.1.command = "VERSION"
  · rw [if_pos hversion, if_pos hversion]
    rfl
  rw [if_neg hversion, if_neg hversion]
  by_cases hadd : j.1.command = "ADD"
  · rw [if_pos hadd, if_pos hadd]
    cases hload : load j.2 with
    | error e =>
      rw [run_cmdAdd_unread hload]
      rfl
    | ok nc =>
      rw [load_eq_ok_iff.mp hload] at hdir
      cases halloc : allocatorFor nc with
      | error e =>
        rw [run_cmdAdd_unplanned hload halloc]
        simp only [halloc]
        rfl
      | ok alloc =>
        rw [run_cmdAdd hload halloc (by simpa using hdir)]
        simp only [halloc]
        exact wlp_addGuarded hE
  rw [if_neg hadd, if_neg hadd]
  by_cases hdel : j.1.command = "DEL"
  · rw [if_pos hdel, if_pos hdel, cmdDel, Program.run_pure_bind, load]
    cases hnc : NetConf.parse j.2 with
    | none => rfl
    | some nc =>
      rw [hnc] at hdir
      change wlp E _ (storeFor nc >>= fun st => withLock st _).run s
      rw [storeFor_withLock (by simpa using hdir)]
      refine (wlp_delGuarded hE).mono fun r s' h => ?_
      obtain ⟨rfl, hreleased⟩ := h
      exact Prod.ext rfl hreleased.symm
  rw [if_neg hdel, if_neg hdel, if_neg hcheck]
  rfl

end

variable [Crates]

/-- Jobs that take turns, one after the other. -/
theorem serveAll_of_serial {order : List (Turn ℕ Job Outcome)}
    (h : Serial (discipline dir fun _ => False).code (discipline dir fun _ => False).answers s order
      t) (hturns : ∀ x ∈ order, watches dir x.job = false) :
    (registry dir s).serveAll (order.map Turn.job) = (order.map Turn.result, registry dir t) := by
  induction h with
  | nil => rfl
  | @concat order t u x run act ih =>
    have hserve : (registry dir t).serve x.job = (x.result, registry dir u) := by
      apply act.wlp (wlp_serve (p := x.pid) ?_ (hturns x (List.mem_append_right _ (.head _))))
      exact fun _ _ _ _ hr => hr.resolve_right And.left
    have hrest := ih fun y hy => hturns y (List.mem_append_left _ hy)
    rw [List.map_append, List.map_append, List.map_singleton, List.map_singleton,
      Registry.serveAll_concat, hrest, hserve]

/-- Any number of processes work on one lease directory at the same time, and no file operation
fails. What the ADDs and DELs print is what the registry answers them, one after the other, in an
order in which none comes before another that was over when it began; jobs that have given up the
lock but are not over yet may be among them. While nobody has the lock, the directory stands for
the registry afterwards. -/
theorem linearizable (dir : String)
    {c d : Config (Book Fs ℕ Job Outcome) ℕ Job FsOp FsRes Outcome} (idle : ∀ p, c.busy p = none)
    (hnew : c.state.past = []) (hfree : c.state.state.locks (dir, "lock") = none)
    (h : (discipline dir fun _ => False).system.Reachable c d) :
    ∃ order pending : List (Turn ℕ Job Outcome),
      order.Perm ((d.state.past.filter fun x => !watches dir x.job) ++ pending) ∧
      order.Pairwise (fun x y => y ∉ d.state.past.take x.opened) ∧
      (∀ x ∈ pending, d.busy x.pid = some (x.job, .ret x.result) ∧ watches dir x.job = false ∧
        x.opened = d.state.opened x.pid) ∧
      ((registry dir c.state.state).serveAll (order.map Turn.job)).1 = order.map Turn.result ∧
      (d.state.state.locks (dir, "lock") = none →
        ((registry dir c.state.state).serveAll (order.map Turn.job)).2 =
          registry dir d.state.state) := by
  obtain ⟨order, pending, t, hserial, hperm, htime, hpending, hstate⟩ :=
    exists_serial (lawful dir fun _ => False) idle hnew (Free.self hfree) h
  have hturns : ∀ x ∈ order, watches dir x.job = false := by
    intro x hx
    rcases List.mem_append.mp (hperm.mem_iff.mp hx) with hover | hx
    · have hfilter : (!watches dir x.job) = true := (List.mem_filter.mp hover).2
      simpa using hfilter
    · exact (hpending x hx).2.1
  have hserved := serveAll_of_serial hserial hturns
  refine ⟨order, pending, hperm, htime, hpending, congrArg Prod.fst hserved, fun hunlocked => ?_⟩
  have hfiles : Free dir d.state.state t := hstate fun q u => not_held hunlocked
  exact (congrArg Prod.snd hserved).trans (registry_of_files hfiles.files)

omit [Crates] in
theorem linearizable_two_pods : ∃ d, ∃ order pending : List (Turn ℕ Job Outcome),
    (@discipline Crates.compact cbr0Dir fun _ => False).system.Reachable
      ⟨⟨freshStore, fun _ => 0, []⟩, fun _ => none⟩ d ∧ d.state.past.length = 2 ∧
    order.Perm ((d.state.past.filter fun x => !@watches Crates.compact cbr0Dir x.job) ++ pending) ∧
    order.Pairwise (fun x y => y ∉ d.state.past.take x.opened) ∧
    (∀ x ∈ pending, d.busy x.pid = some (x.job, .ret x.result) ∧
      @watches Crates.compact cbr0Dir x.job = false ∧ x.opened = d.state.opened x.pid) ∧
    @Registry.serveAll Crates.compact (registry cbr0Dir freshStore) (order.map Turn.job) =
      (order.map Turn.result, registry cbr0Dir d.state.state) ∧
    (registry cbr0Dir d.state.state).leases (.ofOctets 10 244 1 2) = some ("c2", "eth0") := by
  let := Crates.compact
  obtain ⟨d, a, b, hd, hover, hlock, hlease⟩ := reachable_two_pods fun _ => False
  obtain ⟨order, pending, hperm, htime, hpending, hserved, hregistry⟩ :=
    linearizable cbr0Dir (fun _ => rfl) rfl rfl hd
  have hleased : (registry cbr0Dir d.state.state).leases (.ofOctets 10 244 1 2) =
      some ("c2", "eth0") := by
    change (lease cbr0Dir d.state.state (.ofOctets 10 244 1 2)).map owner = some ("c2", "eth0")
    rw [hlease]
    decide +kernel
  exact ⟨d, order, pending, hd, by rw [hover]; rfl, hperm, htime, hpending,
    Prod.ext hserved (hregistry hlock), hleased⟩

end FlannelRs.LeaseRegistry
