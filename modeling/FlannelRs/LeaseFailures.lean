import FlannelRs.LeaseStores

/-!
# What a failed ADD of `host-local` leaves in the store

Two files are written one after the other, and a write that fails may have created its file.
-/

namespace FlannelRs.LeaseFailures
open InteractionPrograms FileSystem Ipv4Addresses RustText CniTypes HostLocal LeaseStores

/-- How an operation fails: with no effect, or, if it writes a file, with that file there. -/
inductive Fault where
  | clean
  | torn (content : FileContent)

/-- The operations that fail. -/
abbrev Faults := FsOp → Option Fault

def Fault.leaves (f : Fault) (s : Fs) : FsOp → Fs
  | .write dir name _ =>
    match f, s.dirs dir with
    | .torn content, some d => s.setDir dir (d.insert name content)
    | _, _ => s
  | _ => s

/-- Unlocking does not fail, and a file that cannot be read is part of the store. -/
def fallible : FsOp → Bool
  | .unlock _ _ => false
  | .readToString _ _ => false
  | _ => true

/-- A file system on which the given operations fail and no other. -/
def Failing (faults : Faults) (p : ℕ) : Environment Fs FsOp FsRes := fun s o r s' =>
  match if fallible o then faults o else none with
  | none => s.Answers p o r s'
  | some f => s.Fails o r s' ∧ s' = f.leaves s o

/-- The leases and their owners are the same. -/
def SameOwners (dir : String) (s s' : Fs) : Prop := ∀ ip o, Owns dir s' ip o ↔ Owns dir s ip o

def cursorFile : String := "last_reserved_ip.0"

/-- The address that was handed out last, if the file that says so can be read. -/
def cursor (dir : String) (s : Fs) : Option Ipv4Addr :=
  match s.lookup dir cursorFile with
  | some (.text t) => parseIpv4 (trim t)
  | _ => none

/-- An ADD on the store gets as far as writing the lease of `ip`. -/
structure Chooses [Crates] (faults : Faults) (dir : String) (s : Fs) (stdin : String)
    (ip : Ipv4Addr) : Prop where
  dirMade : faults (.createDirAll dir) = none
  lockMade : faults (.createFile dir "lock") = none
  locked : faults (.lockExclusive dir "lock") = none
  free : s.locks (dir, "lock") = none
  scanned : faults (.readDir dir) = none
  next : ∃ nc alloc leased, NetConf.parse stdin = some nc ∧ allocatorFor nc = .ok alloc ∧
    (∀ x, x ∈ leased ↔ lease dir s x ≠ none) ∧ alloc.nextIp leased (cursor dir s) = some ip

/-- The writes for a lease happen both or not at all. -/
def Together (faults : Faults) (dir : String) (ip : Ipv4Addr) (text : String) : Prop :=
  match faults (.write dir ip.toString text) with
  | none => faults (.write dir cursorFile ip.toString) = none
  | some .clean => True
  | some (.torn _) => False

variable {faults : Faults} {p : ℕ} {dir : String} {s s' : Fs}

theorem Failing.mayFail {o : FsOp} {r : FsRes o} (h : Failing faults p s o r s') :
    s.MayFail p o r s' := by
  unfold Failing at h
  split at h
  · exact .inl h
  · exact .inr h.1

theorem failing_of_none {o : FsOp} (ho : faults o = none) (r : FsRes o) :
    Failing faults p s o r s' ↔ s.Answers p o r s' := by
  simp [Failing, ho]

theorem failing_of_some {o : FsOp} {f : Fault} (ho : faults o = some f) (hf : fallible o)
    (r : FsRes o) : Failing faults p s o r s' ↔ s.Fails o r s' ∧ s' = f.leaves s o := by
  simp [Failing, ho, hf]

theorem failing_of_infallible {o : FsOp} (ho : ¬ fallible o) (r : FsRes o) :
    Failing faults p s o r s' ↔ s.Answers p o r s' := by
  simp [Failing, ho]

/-- Nothing but the lock file has changed. -/
def SameFiles (dir : String) (s s' : Fs) : Prop :=
  ∀ name, name ≠ "lock" → s'.lookup dir name = s.lookup dir name

theorem SameFiles.trans {t : Fs} (h : SameFiles dir s t) (h' : SameFiles dir t s') :
    SameFiles dir s s' :=
  fun name hname => (h' name hname).trans (h name hname)

theorem toString_ne_lock (ip : Ipv4Addr) : ip.toString ≠ "lock" :=
  toString_ne_of_parse (by decide) ip

theorem toString_ne_cursorFile (ip : Ipv4Addr) : ip.toString ≠ cursorFile :=
  toString_ne_of_parse (by decide) ip

theorem SameFiles.leases (h : SameFiles dir s s') : SameLeases dir s s' :=
  fun ip => h _ (toString_ne_lock ip)

theorem SameFiles.cursor_eq (h : SameFiles dir s s') : cursor dir s' = cursor dir s := by
  unfold cursor
  rw [h cursorFile (by decide)]

theorem sameFiles_createDirAll (dir : String) (s : Fs) :
    SameFiles dir s (s.setDir dir ((s.dirs dir).getD ∅)) := by
  intro name _
  rw [Fs.setDir_lookup_self]
  cases hd : s.dirs dir <;> simp [Fs.lookup, hd]

theorem sameFiles_createFile {d : Dir} (hd : s.dirs dir = some d) :
    SameFiles dir s (s.setDir dir (d.insert "lock" (.text ""))) := by
  intro name hname
  rw [Fs.setDir_lookup_self, AList.lookup_insert_ne hname, Fs.lookup_of_dirs hd]

/-- The cursor is what a read of its file gives. -/
theorem cursor_of_answers {r : FsRes (.readToString dir cursorFile)}
    (h : s.Answers p (.readToString dir cursorFile) r s') :
    (Except.toOption r).bind (fun t => parseIpv4 (trim t)) = cursor dir s := by
  obtain ⟨-, hread⟩ := h
  unfold cursor
  cases hl : s.lookup dir cursorFile with
  | none =>
    rw [hl] at hread
    obtain ⟨e, rfl⟩ := hread
    rfl
  | some content =>
    rw [hl] at hread
    cases content with
    | text t =>
      obtain rfl : r = .ok t := hread
      rfl
    | unreadable =>
      obtain ⟨e, rfl⟩ := hread
      rfl

/-- An address and its text, after the cursor was written. -/
theorem cursor_insert {fs : Fs} (entries : Dir) (ip : Ipv4Addr) :
    cursor dir (fs.setDir dir (entries.insert cursorFile (.text ip.toString))) = some ip := by
  have hsolid : Solid ip.toString := by
    intro c hc
    by_contra hwhite
    have hdigit : c.isDigit = false := by
      by_contra hd
      exact hwhite (not_isWhitespace_of_isDigit (by simpa using hd))
    refine ip.not_mem_toString hdigit (fun hdot => hwhite ?_) hc
    rw [hdot]
    rfl
  rw [cursor, Fs.setDir_lookup_self, AList.lookup_insert]
  simp [trim_of_solid hsolid]

theorem SameLeases.owners (h : SameLeases dir s s') : SameOwners dir s s' := by
  intro ip o
  rw [Owns, Owns, h ip]

section

variable {α : Type}

/-- One operation: it is answered, or it fails as it was given. -/
theorem wlp_failing {post : α → Fs → Prop} {o : FsOp} {next : FsRes o → FsProgram α}
    (hok : ∀ r s', faults o = none → s.Answers p o r s' → wlp (Failing faults p) post (next r) s')
    (hfail : ∀ f r, faults o = some f → s.Fails o r (f.leaves s o) →
      wlp (Failing faults p) post (next r) (f.leaves s o)) (ho : fallible o) :
    wlp (Failing faults p) post (.request o next) s := by
  intro r s' h
  cases hf : faults o with
  | none => exact hok r s' hf ((failing_of_none hf r).mp h)
  | some f =>
    obtain ⟨hfails, rfl⟩ := (failing_of_some hf ho r).mp h
    exact hfail f r hf hfails

theorem wlp_storeFor_bind {nc : NetConf} {f : Store → CniProgram String}
    {post : Except CniError String → Fs → Prop}
    (hdir : joinPath (nc.ipam.dataDir.getD defaultDataDir) nc.name = dir)
    (hf : ∀ s', faults (.createDirAll dir) = none → s'.locks = s.locks → SameFiles dir s s' →
      wlp (Failing faults p) post (f ⟨dir⟩).run s')
    (herr : ∀ e, post (.error e) s) :
    wlp (Failing faults p) post (storeFor nc >>= f).run s := by
  apply wlp_orError_bind (m := fun r s' => match r with
    | .ok a => a = ⟨dir⟩ ∧ faults (.createDirAll dir) = none ∧ s'.locks = s.locks ∧
        SameFiles dir s s'
    | .error _ => s' = s)
  · unfold Store.new
    rw [hdir]
    refine wlp_failing (o := .createDirAll dir) (fun r s' hnone h => ?_) (fun f r _ h => ?_) rfl
    · obtain ⟨rfl, rfl⟩ := h
      exact ⟨rfl, hnone, rfl, sameFiles_createDirAll dir s⟩
    · obtain ⟨⟨e, rfl⟩, hs⟩ := h
      exact hs
  · rintro a s' ⟨rfl, hnone, hlocks, hfiles⟩
    exact hf s' hnone hlocks hfiles
  · rintro io s' rfl
    exact herr _

theorem wlp_withLock {body : CniProgram String} {post : Except CniError String → Fs → Prop}
    (hbody : ∀ s', faults (.createFile dir "lock") = none →
      faults (.lockExclusive dir "lock") = none → s.locks (dir, "lock") = none →
      SameFiles dir s s' → wlp (Failing faults p) post body.run s')
    (hpost : ∀ r t, post r t → post r (t.setLock dir "lock" none))
    (herr : ∀ e s', SameFiles dir s s' → post (.error e) s') :
    wlp (Failing faults p) post (withLock ⟨dir⟩ body).run s := by
  apply wlp_orError_bind (m := fun r s' => SameFiles dir s s' ∧ ∀ a, r = .ok a →
    faults (.createFile dir "lock") = none ∧ faults (.lockExclusive dir "lock") = none ∧
      s.locks (dir, "lock") = none)
  · refine wlp_failing (o := .createFile dir "lock") (fun r s₁ hmade h => ?_) (fun f r _ h => ?_) rfl
    · obtain ⟨d, hd, rfl, rfl⟩ := h
      refine wlp_failing (o := .lockExclusive dir "lock") (fun r s₂ hlocked h => ?_)
        (fun f r _ h => ?_) rfl
      · obtain ⟨hfree, rfl, rfl⟩ := h
        exact ⟨sameFiles_createFile hd, fun a _ => ⟨hmade, hlocked, hfree⟩⟩
      · obtain ⟨⟨e, rfl⟩, hs⟩ := h
        rw [hs]
        exact ⟨sameFiles_createFile hd, fun a ha => by cases ha⟩
    · obtain ⟨⟨e, rfl⟩, hs⟩ := h
      rw [hs]
      exact ⟨fun _ _ => rfl, fun a ha => by cases ha⟩
  · rintro a s₁ ⟨hfiles, hok⟩
    obtain ⟨hmade, hlocked, hfree⟩ := hok a rfl
    refine (hbody s₁ hmade hlocked hfree hfiles).bind fun r s₂ hr => ?_
    rintro r' s₃ h
    obtain ⟨-, rfl⟩ := (failing_of_infallible (by simp [fallible]) r').mp h
    exact hpost r s₂ hr
  · rintro io s₁ ⟨hfiles, -⟩
    exact herr _ s₁ hfiles

theorem wlp_leased : wlp (Failing faults p) (fun r s' => s' = s ∧ ∀ ips, r = .ok ips →
      faults (.readDir dir) = none ∧ ∀ ip, ip ∈ ips ↔ lease dir s ip ≠ none)
    (Store.mk dir).leased.run s := by
  intro r s' h
  have hpost := LeaseStores.wlp_leased (fun _ _ _ _ h => Fs.losing_of_mayFail h.mayFail) r s' h
  cases r with
  | error e =>
    obtain ⟨hs, -⟩ := hpost
    exact ⟨hs, fun ips hr => by cases hr⟩
  | ok names =>
    obtain ⟨hs, hips⟩ := hpost
    refine ⟨hs, fun ips hr => ⟨?_, hips ips hr⟩⟩
    cases hf : faults (.readDir dir) with
    | none => rfl
    | some f =>
      obtain ⟨⟨⟨e, he⟩, -⟩, -⟩ := (failing_of_some hf rfl _).mp h
      cases he

theorem wlp_lastReserved : wlp (Failing faults p) (fun last s' => s' = s ∧ last = cursor dir s)
    (Store.mk dir).lastReserved s := by
  intro r s' h
  have hanswer := (failing_of_infallible (by simp [fallible]) r).mp h
  have hcursor := cursor_of_answers hanswer
  obtain ⟨rfl, -⟩ := hanswer
  cases r with
  | ok t =>
    rw [Except.toOption, Option.bind_some] at hcursor
    exact ⟨rfl, hcursor⟩
  | error e =>
    rw [Except.toOption, Option.bind_none] at hcursor
    exact ⟨rfl, hcursor⟩

/-- Where the writes happen together, a failed one leaves the leases alone. -/
theorem wlp_reserve {ip : Ipv4Addr} {cid ifn : String}
    (h : Together faults dir ip (Store.leaseText cid ifn)) :
    wlp (Failing faults p) (fun r s' => ∀ e, r = .error e → SameLeases dir s s')
      ((Store.mk dir).reserve ip cid ifn).run s := by
  unfold Together at h
  refine wlp_failing (o := .write dir ip.toString (Store.leaseText cid ifn))
    (fun r s₁ hnone hans => ?_) (fun f r hsome hfails => ?_) rfl
  · obtain ⟨d, hd, rfl, rfl⟩ := hans
    rw [hnone] at h
    refine wlp_failing (o := .write dir cursorFile ip.toString) (fun r s₂ _ hans => ?_)
      (fun f r hsome _ => ?_) rfl
    · obtain ⟨-, -, rfl, -⟩ := hans
      intro e he
      cases he
    · cases h.symm.trans hsome
  · obtain ⟨⟨e, rfl⟩, -⟩ := hfails
    rw [hsome] at h
    cases f with
    | clean => exact fun _ _ _ => rfl
    | torn content => exact h.elim

variable [Crates]

/-- If the writes for every address it may choose happen together, a failed ADD leaves the
leases alone. -/
theorem wlp_cmdAdd {args : CniArgs} {stdin : String} (hdir : LeadsTo stdin dir)
    (h : ∀ ip, Chooses faults dir s stdin ip →
      Together faults dir ip (Store.leaseText args.containerId args.ifname)) :
    wlp (Failing faults p) (fun r s' => ∀ e, r = .error e → SameLeases dir s s')
      (cmdAdd args stdin).run s := by
  rw [cmdAdd, Program.run_pure_bind, load]
  cases hnc : NetConf.parse stdin with
  | none => exact fun _ _ _ => rfl
  | some nc =>
    simp only [Program.run_pure_bind]
    cases halloc : allocatorFor nc with
    | error e => exact fun _ _ _ => rfl
    | ok alloc =>
      refine wlp_storeFor_bind (hdir nc hnc) (fun s₁ hmade hlocks hs₁ => ?_) fun _ _ _ _ => rfl
      refine wlp_withLock (fun s₂ hlockMade hlocked hfree hs₂ => ?_) (fun r t ht => ht)
        fun e s₂ hs₂ _ _ => (hs₁.trans hs₂).leases
      have hfiles := hs₁.trans hs₂
      refine wlp_orError_bind wlp_leased ?_ ?_
      · rintro ips _ ⟨rfl, hips⟩
        obtain ⟨hscanned, hips⟩ := hips ips rfl
        refine wlp_lastReserved.liftBind ?_
        rintro last _ ⟨rfl, rfl⟩
        cases hnext : alloc.nextIp ips (cursor dir _) with
        | none => exact fun _ _ => hfiles.leases
        | some ip =>
          have hchooses : Chooses faults dir s stdin ip :=
            ⟨hmade, hlockMade, hlocked, hlocks ▸ hfree, hscanned, nc, alloc, ips, hnc, halloc,
              fun x => by rw [hips x, hfiles.leases x], by rw [← hfiles.cursor_eq, hnext]⟩
          refine wlp_orError_bind (wlp_reserve (h ip hchooses)) ?_ ?_
          · intro a s₃ _ e he
            cases he
          · exact fun io s₃ hs₃ _ _ => hfiles.leases.trans (hs₃ io rfl)
      · rintro io _ ⟨rfl, -⟩ _ _
        exact hfiles.leases

end

theorem nextIp_congr {alloc : Allocator} {l l' : List Ipv4Addr} (h : ∀ x, x ∈ l ↔ x ∈ l')
    (last : Option Ipv4Addr) : alloc.nextIp l last = alloc.nextIp l' last := by
  simp only [Allocator.nextIp, h]

theorem exec_orError_bind {β : Type} {x : IoProgram β} {e : CniError}
    {f : β → CniProgram String} {a : β} {t : Fs} {r : Except CniError String}
    (hx : Exec (Failing faults p) s x.run (.ok a) t)
    (hf : Exec (Failing faults p) t (f a).run r s') :
    Exec (Failing faults p) s (orError x e >>= f).run r s' := by
  rw [run_orError_bind]
  exact hx.bind hf

theorem exec_orError_error {β : Type} {x : IoProgram β} {e : CniError}
    {f : β → CniProgram String} {io : IoError} (hx : Exec (Failing faults p) s x.run (.error io) s') :
    Exec (Failing faults p) s (orError x e >>= f).run (.error (e.withDetails io.text)) s' := by
  rw [run_orError_bind]
  exact hx.bind (.ret s' _)

theorem exec_answered {α : Type} {o : FsOp} (ho : faults o = none) {r : FsRes o} {t : Fs}
    (hr : s.Answers p o r t) {next : FsRes o → FsProgram α} {a : α}
    (h : Exec (Failing faults p) t (next r) a s') :
    Exec (Failing faults p) s (.request o next) a s' :=
  .request ((failing_of_none ho r).mpr hr) h

theorem exec_lastReserved (s : Fs) :
    Exec (Failing faults p) s (Store.mk dir).lastReserved (cursor dir s) s := by
  have hread : ∃ r, s.Answers p (.readToString dir cursorFile) r s := by
    cases hl : s.lookup dir cursorFile with
    | none => exact ⟨.error ⟨"not there"⟩, rfl, by rw [hl]; exact ⟨_, rfl⟩⟩
    | some content =>
      cases content with
      | text t => exact ⟨.ok t, rfl, by rw [hl]⟩
      | unreadable => exact ⟨.error ⟨"not text"⟩, rfl, by rw [hl]; exact ⟨_, rfl⟩⟩
  obtain ⟨r, hr⟩ := hread
  have hanswer : Failing faults p s (.readToString dir cursorFile) r s :=
    (failing_of_infallible (by simp [fallible]) r).mpr hr
  have hexec : ∃ last, Exec (Failing faults p) s (Store.mk dir).lastReserved last s := by
    cases r with
    | ok t => exact ⟨_, .request hanswer (.ret s _)⟩
    | error e => exact ⟨_, .request hanswer (.ret s _)⟩
  obtain ⟨last, hlast⟩ := hexec
  obtain ⟨-, rfl⟩ := hlast.wlp wlp_lastReserved
  exact hlast

/-- An ADD that gets as far as writing a lease fails if that does. -/
theorem exec_cmdAdd [Crates] (args : CniArgs) {stdin : String} {ip : Ipv4Addr}
    (hdir : LeadsTo stdin dir) (h : Chooses faults dir s stdin ip) :
    ∃ t d, SameLeases dir s t ∧ t.dirs dir = some d ∧ ∀ io u,
      Exec (Failing faults p) t ((Store.mk dir).reserve ip args.containerId args.ifname).run
        (.error io) u →
      Exec (Failing faults p) s (cmdAdd args stdin).run
        (.error ((CniError.new 5 "write lease").withDetails io.text))
        (u.setLock dir "lock" none) := by
  obtain ⟨nc, alloc, leased, hnc, halloc, hleased, hnext⟩ := h.next
  let s₁ := s.setDir dir ((s.dirs dir).getD ∅)
  let s₂ := s₁.setDir dir (((s.dirs dir).getD ∅).insert "lock" (.text ""))
  let t := s₂.setLock dir "lock" (some p)
  have hd₁ : s₁.dirs dir = some ((s.dirs dir).getD ∅) := Fs.setDir_dirs_self ..
  have hd : t.dirs dir = some (((s.dirs dir).getD ∅).insert "lock" (.text "")) :=
    Fs.setDir_dirs_self ..
  have hfiles : SameFiles dir s t :=
    (sameFiles_createDirAll dir s).trans (sameFiles_createFile hd₁)
  refine ⟨t, _, hfiles.leases, hd, fun io u hreserve => ?_⟩
  have hstore : Exec (Failing faults p) s
      (Store.new (nc.ipam.dataDir.getD defaultDataDir) nc.name).run (.ok ⟨dir⟩) s₁ := by
    unfold Store.new
    rw [hdir nc hnc]
    exact exec_answered (o := .createDirAll dir) h.dirMade (r := .ok ()) ⟨rfl, rfl⟩ (.ret s₁ _)
  have hfree : s₂.locks (dir, "lock") = none := h.free
  have hlock : Exec (Failing faults p) s₁ (Store.mk dir).lock.run (.ok ()) t := by
    apply exec_answered (o := .createFile dir "lock") (t := s₂) h.lockMade (r := .ok ())
      ⟨_, hd₁, rfl, rfl⟩
    exact exec_answered (o := .lockExclusive dir "lock") h.locked (r := .ok ())
      ⟨hfree, rfl, rfl⟩ (.ret t _)
  obtain ⟨ips, hscan, hips⟩ : ∃ ips,
      Exec (Failing faults p) t (Store.mk dir).leased.run (.ok ips) t ∧
        ∀ x, x ∈ ips ↔ lease dir t x ≠ none := by
    have hexec : Exec (Failing faults p) t (Store.mk dir).leased.run (.ok _) t :=
      exec_answered (o := .readDir dir) h.scanned ⟨_, _, hd, .refl _, rfl, rfl⟩ (.ret t _)
    obtain ⟨-, hips⟩ := hexec.wlp wlp_leased
    exact ⟨_, hexec, (hips _ rfl).2⟩
  have hchosen : alloc.nextIp ips (cursor dir t) = some ip := by
    rw [hfiles.cursor_eq, ← hnext]
    exact nextIp_congr (fun x => by rw [hips x, hleased x, hfiles.leases x]) _
  have hlocked : Exec (Failing faults p) t (addLocked args nc alloc ⟨dir⟩).run
      (.error ((CniError.new 5 "write lease").withDetails io.text)) u := by
    apply exec_orError_bind hscan
    apply Exec.liftBind (exec_lastReserved t)
    rw [hchosen]
    exact exec_orError_error hreserve
  rw [cmdAdd, Program.run_pure_bind, load, hnc]
  simp only [Program.run_pure_bind, halloc]
  apply exec_orError_bind hstore
  apply exec_orError_bind hlock
  apply Exec.bind hlocked
  have hunlock : Failing faults p u (.unlock dir "lock") (.ok ()) (u.setLock dir "lock" none) :=
    (failing_of_infallible (by simp [fallible]) _).mpr ⟨rfl, rfl⟩
  exact .request hunlock (.ret _ _)

/-- A write that fails as it was given. -/
theorem failing_write {name text : String} {f : Fault}
    (hf : faults (.write dir name text) = some f) (e : IoError) :
    Failing faults p s (.write dir name text) (.error e) (f.leaves s (.write dir name text)) := by
  refine (failing_of_some hf rfl _).mpr ⟨⟨⟨e, rfl⟩, ?_⟩, rfl⟩
  cases f with
  | clean => exact .inl rfl
  | torn content =>
    cases hd : s.dirs dir with
    | none => exact .inl (by simp [Fault.leaves, hd])
    | some d => exact .inr ⟨d, content, rfl, by simp [Fault.leaves, hd]⟩

def diskFull : IoError := ⟨"No space left on device (os error 28)"⟩

/-- Where the writes do not happen together, the lease stays. -/
theorem exec_reserve {ip : Ipv4Addr} {cid ifn : String} {d : Dir} (hd : s.dirs dir = some d)
    (h : ¬ Together faults dir ip (Store.leaseText cid ifn)) : ∃ io u,
      Exec (Failing faults p) s ((Store.mk dir).reserve ip cid ifn).run (.error io) u ∧
        lease dir u ip ≠ none := by
  unfold Together at h
  split at h
  · rename_i hnone
    obtain ⟨f, hf⟩ := Option.ne_none_iff_exists'.mp h
    let t := s.setDir dir (d.insert ip.toString (.text (Store.leaseText cid ifn)))
    have hlease : lease dir t ip = some (.text (Store.leaseText cid ifn)) := lease_insert_self ..
    have hcursor := failing_write (p := p) (s := t) hf diskFull
    have hsame : lease dir (f.leaves t (.write dir cursorFile ip.toString)) ip = lease dir t ip :=
      lease_of_mayFail (by simp only [QuietOp]; decide) hcursor.mayFail ip
    refine ⟨diskFull, f.leaves t (.write dir cursorFile ip.toString), ?_, ?_⟩
    · exact exec_answered (o := .write dir ip.toString (Store.leaseText cid ifn)) hnone
        (r := .ok ()) ⟨d, hd, rfl, rfl⟩ (.request hcursor (.ret _ _))
    · rw [hsame, hlease]
      simp
  · exact absurd trivial h
  · rename_i content hsome
    have hwrite := failing_write (p := p) (s := s) hsome diskFull
    refine ⟨diskFull, _, .request hwrite (.ret _ _), ?_⟩
    simp [Fault.leaves, hd]

/-- A lease that is there when the lock is given back is a lease too many. -/
theorem not_sameOwners {ip : Ipv4Addr} {u : Fs} (hfree : lease dir s ip = none)
    (hlease : lease dir u ip ≠ none) : ¬ SameOwners dir s (u.setLock dir "lock" none) := by
  intro h
  obtain ⟨content, hcontent⟩ := Option.ne_none_iff_exists'.mp hlease
  obtain ⟨content', hnone, -⟩ := (h ip (owner content)).mp ⟨content, hcontent, rfl⟩
  rw [hfree] at hnone
  cases hnone

/-- Whatever the store and whatever fails, a failed ADD leaves the leases and their owners as they
were exactly if the two writes for the address it chooses happen together. -/
theorem failed_add_keeps_iff [Crates] (faults : Faults) (p : ℕ) (s : Fs) (args : CniArgs)
    (stdin dir : String) (hdir : LeadsTo stdin dir) :
    (∀ e s', Exec (Failing faults p) s (cmdAdd args stdin).run (.error e) s' →
      SameOwners dir s s') ↔
    ∀ ip, Chooses faults dir s stdin ip →
      Together faults dir ip (Store.leaseText args.containerId args.ifname) := by
  constructor
  · intro h ip hip
    by_contra htogether
    obtain ⟨t, d, hsame, hd, hadd⟩ := exec_cmdAdd (p := p) args hdir hip
    obtain ⟨io, u, hreserve, hlease⟩ := exec_reserve (p := p) hd htogether
    have hfree : lease dir s ip = none := by
      obtain ⟨nc, alloc, leased, -, -, hleased, hnext⟩ := hip.next
      have hnot := (Allocator.nextIp_spec hnext).2
      rwa [hleased ip, not_not] at hnot
    exact not_sameOwners hfree hlease (h _ _ (hadd io u hreserve))
  · intro h e s' hexec
    exact SameLeases.owners (hexec.wlp (wlp_cmdAdd hdir h) e rfl)

/-- The ADD of a pod on the network `cbr0`, on a node without leases. -/
def podArgs : CniArgs := ⟨"ADD", "c1", "/run/netns/c1", "eth0", "", "/opt/cni/bin"⟩

abbrev cbr0Dir : String := "/var/lib/cni/networks/cbr0"

def freshStore : Fs := ⟨fun _ => none, fun _ => none⟩

theorem cbr0Conf_parse : @NetConf.parse Crates.compact cbr0Conf =
    some ⟨"", "cbr0", ⟨"host-local", [[⟨"10.244.1.0/24", none⟩]], [], none⟩⟩ := by
  decide +kernel

theorem cbr0Conf_leadsTo : @LeadsTo Crates.compact cbr0Conf cbr0Dir := by
  intro nc hnc
  obtain rfl := Option.some.inj (hnc.symm.trans cbr0Conf_parse)
  decide +kernel

/-- Only writes fail. -/
def OnlyWrites (faults : Faults) : Prop :=
  ∀ o, (∀ dir name text, o ≠ .write dir name text) → faults o = none

theorem allocates_first :
    (@allocatorFor Crates.compact ⟨"", "cbr0", ⟨"host-local", [[⟨"10.244.1.0/24", none⟩]], [],
      none⟩⟩).toOption.bind (·.nextIp [] none) = some (.ofOctets 10 244 1 2) := by
  decide +kernel

theorem chooses_first {faults : Faults} (h : OnlyWrites faults) :
    @Chooses Crates.compact faults cbr0Dir freshStore cbr0Conf (.ofOctets 10 244 1 2) := by
  obtain ⟨alloc, halloc, hnext⟩ := Option.bind_eq_some_iff.mp allocates_first
  have hok : ∀ x : Except CniError Allocator, x.toOption = some alloc → x = .ok alloc := by
    intro x hx
    cases x with
    | error e => cases hx
    | ok a => rw [Option.some.inj hx]
  have hnone : ∀ x, x ∈ [] ↔ lease cbr0Dir freshStore x ≠ none := by
    intro x
    simp [lease, Fs.lookup, freshStore]
  exact @Chooses.mk Crates.compact _ _ _ _ _ (h _ (by simp)) (h _ (by simp)) (h _ (by simp)) rfl
    (h _ (by simp)) ⟨_, alloc, [], cbr0Conf_parse, hok _ halloc, hnone, hnext⟩

/-- No file can be written. -/
def noWrites : Faults
  | .write _ _ _ => some .clean
  | _ => none

theorem onlyWrites_noWrites : OnlyWrites noWrites := by
  intro o ho
  cases o with
  | write dir name text => exact absurd rfl (ho dir name text)
  | _ => rfl

/-- The ADD fails, and nothing is left of it. -/
theorem failed_add_keeps_full :
    (∃ e s', Exec (Failing noWrites 0) freshStore (@cmdAdd Crates.compact podArgs cbr0Conf).run
      (.error e) s') ∧
    ∀ e s', Exec (Failing noWrites 0) freshStore (@cmdAdd Crates.compact podArgs cbr0Conf).run
      (.error e) s' → SameOwners cbr0Dir freshStore s' := by
  let := Crates.compact
  obtain ⟨t, d, -, -, hadd⟩ := exec_cmdAdd (p := 0) podArgs cbr0Conf_leadsTo
    (chooses_first onlyWrites_noWrites)
  have hwrite : Failing noWrites 0 t (.write cbr0Dir (Ipv4Addr.ofOctets 10 244 1 2).toString
      (Store.leaseText podArgs.containerId podArgs.ifname)) (.error diskFull) _ :=
    failing_write (f := .clean) rfl diskFull
  constructor
  · exact ⟨_, _, hadd diskFull _ (.request hwrite (.ret _ _))⟩
  · exact (failed_add_keeps_iff noWrites 0 freshStore podArgs cbr0Conf cbr0Dir
      cbr0Conf_leadsTo).mpr fun _ _ => trivial

/-- Only the cursor cannot be written. -/
def noCursor : Faults
  | .write _ name _ => if name = cursorFile then some .clean else none
  | _ => none

theorem onlyWrites_noCursor : OnlyWrites noCursor := by
  intro o ho
  cases o with
  | write dir name text => exact absurd rfl (ho dir name text)
  | _ => rfl

/-- The lease of the address stays. -/
theorem failed_add_consumes : ∃ e s',
    Exec (Failing noCursor 0) freshStore (@cmdAdd Crates.compact podArgs cbr0Conf).run
      (.error e) s' ∧ ¬ SameOwners cbr0Dir freshStore s' := by
  let := Crates.compact
  obtain ⟨t, d, hsame, hd, hadd⟩ := exec_cmdAdd (p := 0) podArgs cbr0Conf_leadsTo
    (chooses_first onlyWrites_noCursor)
  have htogether : ¬ Together noCursor cbr0Dir (.ofOctets 10 244 1 2)
      (Store.leaseText podArgs.containerId podArgs.ifname) := by
    simp [Together, noCursor, toString_ne_cursorFile]
  obtain ⟨io, u, hreserve, hlease⟩ := exec_reserve (p := 0) hd htogether
  exact ⟨_, _, hadd io u hreserve, not_sameOwners rfl hlease⟩

end FlannelRs.LeaseFailures
