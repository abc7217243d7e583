import FlannelRs.HostLocalCommands

/-!
# Lease stores, and what `host-local` does to one when it works alone

The store may hold any files, and the file operations may fail.
-/

namespace FlannelRs.LeaseStores
open InteractionPrograms FileSystem Ipv4Addresses RustText CniTypes HostLocal

/-- A container id and an interface name. -/
abbrev Attachment := String × String

/-- What a CNI runtime guarantees of both parts. -/
def ValidName (s : String) : Prop := s ≠ "" ∧ '\n' ∉ s.toList ∧ '\r' ∉ s.toList

def Attachment.Valid (o : Attachment) : Prop := ValidName o.1 ∧ ValidName o.2

def Attachment.file (o : Attachment) : FileContent := .text (Store.leaseText o.1 o.2)

/-- The owner a lease file names: its first two lines. -/
def owner : FileContent → Attachment
  | .text t => ((lines t)[0]?.getD "", (lines t)[1]?.getD "")
  | .unreadable => ("", "")

/-- The lease file of an address in the directory `dir`. -/
def lease (dir : String) (s : Fs) (ip : Ipv4Addr) : Option FileContent :=
  s.lookup dir ip.toString

/-- The leases of a store, as pairs of an address and its owner. -/
def Owns (dir : String) (s : Fs) (ip : Ipv4Addr) (o : Attachment) : Prop :=
  ∃ content, lease dir s ip = some content ∧ owner content = o

theorem lines_leaseText {o : Attachment} (h : o.Valid) :
    lines (Store.leaseText o.1 o.2) = [o.1, o.2] :=
  lines_pair h.1.2.1 (fun hr => h.1.2.2 (List.mem_of_getLast? hr)) h.2.2.1 h.2.1

theorem owner_file {o : Attachment} (h : o.Valid) : owner o.file = o := by
  simp [owner, Attachment.file, lines_leaseText h]

/-- The text of a lease file names one valid attachment. -/
theorem Attachment.file_injective {o o' : Attachment} (h : o.Valid) (h' : o'.Valid)
    (he : o.file = o'.file) : o = o' := by
  rw [← owner_file h, he, owner_file h']

theorem toString_ne_of_parse {name : String} (h : parseIpv4 name = none) (ip : Ipv4Addr) :
    ip.toString ≠ name := by
  rintro rfl
  simp at h

def QuietOp : FsOp → Prop
  | .createFile _ name => parseIpv4 name = none
  | .write _ name _ => parseIpv4 name = none
  | .removeFile _ _ => False
  | _ => True

variable {dir : String} {s s' : Fs} {p : ℕ}

theorem lease_setDir_ne {d : String} (h : d ≠ dir) (entries : Dir) (ip : Ipv4Addr) :
    lease dir (s.setDir d entries) ip = lease dir s ip := by
  simp [lease, Fs.lookup, Fs.setDir, Function.update_of_ne h.symm]

theorem lease_setDir_insert {entries : Dir} (hd : s.dirs dir = some entries) {name : String}
    {content : FileContent} {ip : Ipv4Addr} (hne : ip.toString ≠ name) :
    lease dir (s.setDir dir (entries.insert name content)) ip = lease dir s ip := by
  rw [lease, Fs.setDir_lookup_self, AList.lookup_insert_ne hne, lease, Fs.lookup_of_dirs hd]

theorem lease_of_dirs {entries : Dir} (hd : s.dirs dir = some entries) (ip : Ipv4Addr) :
    lease dir s ip = entries.lookup ip.toString :=
  Fs.lookup_of_dirs hd _

/-- An address is among the names of the files if it has a lease. -/
theorem mem_names_iff {entries : Dir} (hd : s.dirs dir = some entries) {names : List String}
    (hnames : names.Perm entries.keys) (ip : Ipv4Addr) :
    ip.toString ∈ names ↔ lease dir s ip ≠ none := by
  rw [hnames.mem_iff, ← AList.mem_keys, lease_of_dirs hd, ← AList.lookup_isSome,
    Option.isSome_iff_ne_none]

@[simp] theorem lease_insert_self (entries : Dir) (ip : Ipv4Addr) (content : FileContent) :
    lease dir (s.setDir dir (entries.insert ip.toString content)) ip = some content := by
  rw [lease, Fs.setDir_lookup_self, AList.lookup_insert]

@[simp] theorem lease_erase_self (entries : Dir) (ip : Ipv4Addr) :
    lease dir (s.setDir dir (entries.erase ip.toString)) ip = none := by
  rw [lease, Fs.setDir_lookup_self, AList.lookup_erase]

theorem lease_insert_ne {entries : Dir} (hd : s.dirs dir = some entries) {ip x : Ipv4Addr}
    {content : FileContent} (hne : x ≠ ip) :
    lease dir (s.setDir dir (entries.insert ip.toString content)) x = lease dir s x :=
  lease_setDir_insert hd fun h => hne (Ipv4Addr.toString_injective h)

theorem lease_erase_ne {entries : Dir} (hd : s.dirs dir = some entries) {ip x : Ipv4Addr}
    (hne : x ≠ ip) :
    lease dir (s.setDir dir (entries.erase ip.toString)) x = lease dir s x := by
  have hname : x.toString ≠ ip.toString := fun h => hne (Ipv4Addr.toString_injective h)
  rw [lease, Fs.setDir_lookup_self, AList.lookup_erase_ne hname, lease_of_dirs hd]

@[simp] theorem lease_setLock (d name : String) (holder : Option ℕ) (ip : Ipv4Addr) :
    lease dir (s.setLock d name holder) ip = lease dir s ip := rfl

private theorem lease_insert_quiet {d name : String} {entries : Dir}
    (hd : s.dirs d = some entries) (hname : parseIpv4 name = none) (content : FileContent)
    (ip : Ipv4Addr) : lease dir (s.setDir d (entries.insert name content)) ip = lease dir s ip := by
  by_cases hdir : d = dir
  · subst hdir
    exact lease_setDir_insert hd (toString_ne_of_parse hname ip)
  · exact lease_setDir_ne hdir _ ip

theorem lease_of_answers {o : FsOp} {r : FsRes o} (ho : QuietOp o) (h : s.Answers p o r s')
    (ip : Ipv4Addr) : lease dir s' ip = lease dir s ip := by
  cases o with
  | createDirAll d =>
    obtain ⟨-, rfl⟩ := h
    by_cases hdir : d = dir
    · subst hdir
      rw [lease, Fs.setDir_lookup_self]
      cases hd : s.dirs d <;> simp [lease, Fs.lookup, hd]
    · exact lease_setDir_ne hdir _ ip
  | createFile d name =>
    obtain ⟨entries, hd, -, rfl⟩ := h
    exact lease_insert_quiet hd ho _ ip
  | lockExclusive d name =>
    obtain ⟨-, -, rfl⟩ := h
    rfl
  | unlock d name =>
    obtain ⟨-, rfl⟩ := h
    rfl
  | readDir d =>
    obtain ⟨-, -, -, -, -, rfl⟩ := h
    rfl
  | readToString d name =>
    obtain ⟨rfl, -⟩ := h
    rfl
  | write d name text =>
    obtain ⟨entries, hd, -, rfl⟩ := h
    exact lease_insert_quiet hd ho _ ip
  | removeFile d name => exact ho.elim

theorem lease_of_fails {o : FsOp} {r : FsRes o} (ho : QuietOp o) (h : s.Fails o r s')
    (ip : Ipv4Addr) : lease dir s' ip = lease dir s ip := by
  cases o with
  | write d name text =>
    obtain ⟨-, rfl | ⟨entries, content, hd, rfl⟩⟩ := h
    · rfl
    · exact lease_insert_quiet hd ho _ ip
  | readToString d name => exact h.elim
  | unlock d name => exact h.elim
  | removeFile d name => exact ho.elim
  | createDirAll d => rw [h.2]
  | createFile d name => rw [h.2]
  | lockExclusive d name => rw [h.2]
  | readDir d => rw [h.2]

theorem lease_of_mayFail {o : FsOp} {r : FsRes o} (ho : QuietOp o) (h : s.MayFail p o r s')
    (ip : Ipv4Addr) : lease dir s' ip = lease dir s ip := by
  rcases h with h | h
  · exact lease_of_answers ho h ip
  · exact lease_of_fails ho h ip

theorem lease_of_losing {lost : String × String → Prop} {o : FsOp} {r : FsRes o}
    (ho : QuietOp o) (h : s.Losing lost p o r s') (ip : Ipv4Addr) :
    lease dir s' ip = lease dir s ip := by
  cases o with
  | readToString d name =>
    rcases h with ⟨-, -, rfl⟩ | ⟨-, rfl, -⟩ <;> rfl
  | _ => exact lease_of_mayFail ho h ip

/-- The leases are the same. -/
def SameLeases (dir : String) (s s' : Fs) : Prop := ∀ ip, lease dir s' ip = lease dir s ip

/-- The leases are the same but for that of `ip`, which is new and belongs to `o`. -/
structure Added (dir : String) (o : Attachment) (ip : Ipv4Addr) (s s' : Fs) : Prop where
  fresh : lease dir s ip = none
  file : lease dir s' ip = some o.file
  others : ∀ x, x ≠ ip → lease dir s' x = lease dir s x

/-- The leases are the same but for some of those of `o`, which are gone. -/
def Released (dir : String) (o : Attachment) (s s' : Fs) : Prop :=
  ∀ ip, lease dir s' ip = lease dir s ip ∨ (Owns dir s ip o ∧ lease dir s' ip = none)

/-- The leases are the same but for some whose files satisfy `Q`, which are gone. -/
def Dropped (dir : String) (Q : Ipv4Addr → FileContent → Prop) (s s' : Fs) : Prop :=
  ∀ ip, lease dir s' ip = lease dir s ip ∨
    ((∃ content, lease dir s ip = some content ∧ Q ip content) ∧ lease dir s' ip = none)

/-- No lease is left whose file satisfies `Q`. -/
def NoneLeft (dir : String) (Q : Ipv4Addr → FileContent → Prop) (s : Fs) : Prop :=
  ∀ ip content, lease dir s ip = some content → ¬ Q ip content

section

variable {E : Environment Fs FsOp FsRes}

/-- No write fails. -/
def WritesSucceed (E : Environment Fs FsOp FsRes) : Prop :=
  ∀ s dir name text r s', E s (.write dir name text) r s' → r = .ok ()

theorem SameLeases.refl (s : Fs) : SameLeases dir s s := fun _ => rfl

theorem SameLeases.trans {t : Fs} (h : SameLeases dir s t) (h' : SameLeases dir t s') :
    SameLeases dir s s' :=
  fun ip => (h' ip).trans (h ip)

theorem Added.of_same {o : Attachment} {ip : Ipv4Addr} {t t' : Fs} (h : Added dir o ip t t')
    (hs : SameLeases dir s t) (hs' : SameLeases dir t' s') : Added dir o ip s s' :=
  ⟨(hs ip).symm.trans h.fresh, (hs' ip).trans h.file,
    fun x hx => (hs' x).trans ((h.others x hx).trans (hs x))⟩

section

variable {Q : Ipv4Addr → FileContent → Prop}

theorem Dropped.of_same {t t' : Fs} (h : Dropped dir Q t t') (hs : SameLeases dir s t)
    (hs' : SameLeases dir t' s') : Dropped dir Q s s' := by
  intro ip
  rcases h ip with hip | ⟨⟨content, hip, hQ⟩, hgone⟩
  · exact .inl ((hs' ip).trans (hip.trans (hs ip)))
  · exact .inr ⟨⟨content, (hs ip).symm.trans hip, hQ⟩, (hs' ip).trans hgone⟩

theorem Dropped.refl (s : Fs) : Dropped dir Q s s := fun _ => .inl rfl

theorem Dropped.trans {t : Fs} (h : Dropped dir Q s t) (h' : Dropped dir Q t s') :
    Dropped dir Q s s' := by
  intro ip
  rcases h' ip with hip | ⟨⟨content, hip, hQ⟩, hgone⟩
  · rw [hip]
    exact h ip
  · rcases h ip with hip' | ⟨-, hgone'⟩
    · exact .inr ⟨⟨content, hip' ▸ hip, hQ⟩, hgone⟩
    · rw [hgone'] at hip
      cases hip

/-- What is there afterwards was there before. -/
theorem Dropped.lease (h : Dropped dir Q s s') {ip : Ipv4Addr} {content : FileContent}
    (hip : lease dir s' ip = some content) : lease dir s ip = some content := by
  rcases h ip with hsame | ⟨-, hgone⟩
  · rw [← hsame, hip]
  · rw [hgone] at hip
    cases hip

theorem NoneLeft.of_same {t : Fs} (h : NoneLeft dir Q t) (hs : SameLeases dir t s') :
    NoneLeft dir Q s' :=
  fun ip content hip => h ip content ((hs ip).symm.trans hip)

end

variable {α : Type} {post : α → Fs → Prop} {lost : String × String → Prop}
  (hE : ∀ s o r s', E s o r s' → s.Losing lost p o r s')

include hE

theorem wlp_quiet {o : FsOp} {next : FsRes o → FsProgram α} (ho : QuietOp o)
    (h : ∀ r s', E s o r s' → (∀ dir, SameLeases dir s s') → wlp E post (next r) s') :
    wlp E post (.request o next) s :=
  fun r s' hs => h r s' hs fun _ => lease_of_losing ho (hE _ _ _ _ hs)

omit hE in
theorem wlp_orError_bind {β γ : Type} {prog : IoProgram β} {e : CniError}
    {f : β → CniProgram γ} {m : Except IoError β → Fs → Prop}
    {post : Except CniError γ → Fs → Prop} (h : wlp E m prog.run s)
    (hok : ∀ a s', m (.ok a) s' → wlp E post (f a).run s')
    (herr : ∀ io s', m (.error io) s' → post (.error (e.withDetails io.text)) s') :
    wlp E post (orError prog e >>= f).run s := by
  rw [run_orError_bind]
  refine h.bind fun r s' hm => ?_
  cases r with
  | ok a => exact hok a s' hm
  | error io => exact herr io s' hm

/-- A scan of the directory sees exactly the leases. -/
theorem wlp_readDir {next : FsRes (.readDir dir) → FsProgram α}
    (hok : ∀ names, (∀ ip : Ipv4Addr, ip.toString ∈ names ↔ lease dir s ip ≠ none) →
      wlp E post (next (.ok names)) s)
    (herr : ∀ e, wlp E post (next (.error e)) s) : wlp E post (.request (.readDir dir) next) s := by
  intro r s' hs
  rcases hE _ _ _ _ hs with ⟨d, names, hd, hperm, rfl, rfl⟩ | ⟨⟨e, rfl⟩, rfl⟩
  · exact hok names (mem_names_iff hd hperm)
  · exact herr e

theorem wlp_leased : wlp E (fun r s' => s' = s ∧
      ∀ ips, r = .ok ips → ∀ ip, ip ∈ ips ↔ lease dir s ip ≠ none)
    (Store.mk dir).leased.run s := by
  refine wlp_readDir hE (fun names hnames => ⟨rfl, ?_⟩) (fun e => ⟨rfl, ?_⟩)
  · rintro _ ⟨rfl⟩ ip
    exact mem_filterMap_parseIpv4.trans (hnames ip)
  · rintro ips ⟨⟩

theorem wlp_lastReserved :
    wlp E (fun _ s' => SameLeases dir s s') (Store.mk dir).lastReserved s := by
  refine wlp_quiet hE (o := .readToString dir "last_reserved_ip.0") trivial fun r s' _ hs => ?_
  cases r <;> exact hs dir

/-- Writing the lease file and the cursor for a free address. -/
theorem wlp_reserve {ip : Ipv4Addr} {o : Attachment} (hfree : lease dir s ip = none) :
    wlp E (fun r s' => match r with
        | .ok _ => Added dir o ip s s'
        | .error _ => ¬ WritesSucceed E)
      ((Store.mk dir).reserve ip o.1 o.2).run s := by
  intro r s₁ hs
  cases r with
  | error e =>
    intro hw
    cases hw _ _ _ _ _ _ hs
  | ok a =>
    have hadded : Added dir o ip s s₁ := by
      rcases hE _ _ _ _ hs with ⟨d, hd, -, rfl⟩ | ⟨⟨e, he⟩, -⟩
      · exact ⟨hfree, lease_insert_self d ip _, fun x hx => lease_insert_ne hd hx⟩
      · cases he
    have hcursor : parseIpv4 "last_reserved_ip.0" = none := by decide
    refine wlp_quiet hE (o := .write dir "last_reserved_ip.0" ip.toString) hcursor
      fun r s₂ hs₂ hsame => ?_
    cases r with
    | error e =>
      intro hw
      cases hw _ _ _ _ _ _ hs₂
    | ok a => exact hadded.of_same (.refl s) (hsame dir)

variable [Crates]

/-- The configuration on the standard input, if it can be read, leads to `dir`. -/
def LeadsTo (stdin dir : String) : Prop :=
  ∀ nc, NetConf.parse stdin = some nc →
    joinPath (nc.ipam.dataDir.getD defaultDataDir) nc.name = dir

/-- What an ADD on the directory has done to the leases. -/
def AddOutcome (E : Environment Fs FsOp FsRes) (dir : String) (args : CniArgs)
    (stdin : String) (s : Fs) (r : Except CniError String) (s' : Fs) : Prop :=
  match r with
  | .ok out => ∃ nc alloc ip, NetConf.parse stdin = some nc ∧ allocatorFor nc = .ok alloc ∧
      ip ∈ alloc.usableHosts ∧ out = (addResult nc alloc ip).toJson ∧
      Added dir (args.containerId, args.ifname) ip s s'
  | .error _ => WritesSucceed E → SameLeases dir s s'

/-- What a DEL has done: it removed leases of its attachment only, and all of them if it
succeeded. -/
def DelOutcome (dir : String) (o : Attachment) (s : Fs) (r : Except CniError String)
    (s' : Fs) : Prop :=
  Released dir o s s' ∧ ∀ out, r = .ok out → ∀ ip, ¬ Owns dir s' ip o

omit hE in
theorem AddOutcome.of_same {args : CniArgs} {stdin : String} {r : Except CniError String}
    {t t' : Fs} (h : AddOutcome E dir args stdin t r t') (hs : SameLeases dir s t)
    (hs' : SameLeases dir t' s') : AddOutcome E dir args stdin s r s' := by
  cases r with
  | error e => exact fun hw => hs.trans ((h hw).trans hs')
  | ok out =>
    obtain ⟨nc, alloc, ip, hnc, halloc, hip, hout, hadded⟩ := h
    exact ⟨nc, alloc, ip, hnc, halloc, hip, hout, hadded.of_same hs hs'⟩

theorem wlp_addLocked {args : CniArgs} {stdin : String} {nc : NetConf} {alloc : Allocator}
    (hnc : NetConf.parse stdin = some nc) (halloc : allocatorFor nc = .ok alloc) :
    wlp E (AddOutcome E dir args stdin s) (addLocked args nc alloc ⟨dir⟩).run s := by
  refine wlp_orError_bind (wlp_leased hE) ?_ ?_
  · rintro ips _ ⟨rfl, hips⟩
    refine (wlp_lastReserved hE).liftBind fun last s₁ hs₁ => ?_
    cases hnext : alloc.nextIp ips last with
    | none => exact fun _ => hs₁
    | some ip =>
      obtain ⟨husable, hnot⟩ := Allocator.nextIp_spec hnext
      have hfree : lease dir s₁ ip = none := by
        rw [hs₁ ip]
        by_contra h
        exact hnot ((hips ips rfl ip).mpr h)
      refine wlp_orError_bind (wlp_reserve hE (o := (args.containerId, args.ifname)) hfree)
        ?_ ?_
      · intro a s₂ hadded
        exact ⟨nc, alloc, ip, hnc, halloc, husable, rfl, hadded.of_same hs₁ (.refl s₂)⟩
      · exact fun _ _ hfail hw => absurd hw hfail
  · rintro io _ ⟨rfl, -⟩ _ ip
    rfl

omit [Crates] in
/-- A critical section does to the leases what its body does. -/
theorem wlp_withLock {body : CniProgram String} {post : Except CniError String → Fs → Prop}
    (hbody : ∀ s', SameLeases dir s s' → wlp E post body.run s')
    (hpost : ∀ r t t', post r t → SameLeases dir t t' → post r t')
    (herr : ∀ e s', SameLeases dir s s' → post (.error e) s') :
    wlp E post (withLock ⟨dir⟩ body).run s := by
  have hlock : wlp E (fun _ s' => SameLeases dir s s') (Store.mk dir).lock.run s := by
    have hname : parseIpv4 "lock" = none := by decide
    refine wlp_quiet hE (o := .createFile dir "lock") hname fun r s₁ _ hs₁ => ?_
    cases r with
    | error e => exact hs₁ dir
    | ok a =>
      refine wlp_quiet hE (o := .lockExclusive dir "lock") trivial fun r s₂ _ hs₂ => ?_
      exact (hs₁ dir).trans (hs₂ dir)
  refine wlp_orError_bind hlock (fun _ s₁ hs₁ => ?_) (fun _ s₁ hs₁ => herr _ s₁ hs₁)
  refine (hbody s₁ hs₁).bind fun r s₂ hr => ?_
  refine wlp_quiet hE (o := .unlock dir "lock") trivial fun _ s₃ _ hs₃ => ?_
  exact hpost r s₂ s₃ hr (hs₃ dir)

omit [Crates] in
theorem wlp_storeFor_bind {nc : NetConf} {f : Store → CniProgram String}
    {post : Except CniError String → Fs → Prop}
    (hdir : joinPath (nc.ipam.dataDir.getD defaultDataDir) nc.name = dir)
    (hf : ∀ s', SameLeases dir s s' → wlp E post (f ⟨dir⟩).run s')
    (herr : ∀ e s', SameLeases dir s s' → post (.error e) s') :
    wlp E post (storeFor nc >>= f).run s := by
  have hnew : wlp E (fun r s' => SameLeases dir s s' ∧ ∀ a, r = .ok a → a = ⟨dir⟩)
      (Store.new (nc.ipam.dataDir.getD defaultDataDir) nc.name).run s := by
    unfold Store.new
    rw [hdir]
    refine wlp_quiet hE (o := .createDirAll dir) trivial fun r s₁ _ hs₁ => ?_
    cases r with
    | error e => exact ⟨hs₁ dir, fun a h => by cases h⟩
    | ok _ => exact ⟨hs₁ dir, fun a h => (Except.ok.inj h).symm⟩
  refine wlp_orError_bind hnew ?_ (fun _ s₁ hs₁ => herr _ s₁ hs₁.1)
  rintro a s₁ ⟨hs₁, ha⟩
  obtain rfl := ha a rfl
  exact hf s₁ hs₁

/-- ADD, alone on any store. -/
theorem wlp_cmdAdd {args : CniArgs} {stdin : String}
    (hdir : LeadsTo stdin dir) :
    wlp E (AddOutcome E dir args stdin s) (cmdAdd args stdin).run s := by
  have herr : ∀ e t, SameLeases dir s t → AddOutcome E dir args stdin s (.error e) t :=
    fun _ _ h _ => h
  rw [cmdAdd, Program.run_pure_bind, load]
  cases hnc : NetConf.parse stdin with
  | none => exact fun _ _ => rfl
  | some nc =>
    simp only [Program.run_pure_bind]
    cases halloc : allocatorFor nc with
    | error e => exact fun _ _ => rfl
    | ok alloc =>
      refine wlp_storeFor_bind hE (hdir nc hnc) (fun s₁ hs₁ => ?_) herr
      refine wlp_withLock hE (fun s₂ hs₂ => ?_) (fun r t t' h h' => h.of_same (.refl s) h')
        (fun e s₂ hs₂ => herr e s₂ (hs₁.trans hs₂))
      refine (wlp_addLocked hE hnc halloc).mono fun r s₃ h => ?_
      exact h.of_same (hs₁.trans hs₂) (.refl s₃)

/-- What the loops read of a lease. -/
def textOf : Option FileContent → String
  | some (.text t) => t
  | _ => ""

omit [Crates] in
theorem wlp_readOrDefault (ip : Ipv4Addr) :
    wlp E (fun content s' => s' = s ∧ (lost (dir, ip.toString) ∧ content = "" ∨
        ¬ lost (dir, ip.toString) ∧ content = textOf (lease dir s ip)))
      ((Store.mk dir).readOrDefault ip.toString) s := by
  intro r s₁ hs
  rcases hE _ _ _ _ hs with ⟨hlost, ⟨e, rfl⟩, rfl⟩ | ⟨hread, rfl, hanswer⟩
  · exact ⟨rfl, .inl ⟨hlost, rfl⟩⟩
  · rw [show s₁.lookup dir ip.toString = lease dir s₁ ip from rfl] at hanswer
    cases hl : lease dir s₁ ip with
    | none =>
      rw [hl] at hanswer
      obtain ⟨e, rfl⟩ := hanswer
      exact ⟨rfl, .inr ⟨hread, rfl⟩⟩
    | some content =>
      rw [hl] at hanswer
      cases content with
      | unreadable =>
        obtain ⟨e, rfl⟩ := hanswer
        exact ⟨rfl, .inr ⟨hread, rfl⟩⟩
      | text t =>
        obtain rfl : r = .ok t := hanswer
        exact ⟨rfl, .inr ⟨hread, rfl⟩⟩

/-- The file of a lease looks as if it belonged to `o`. A file that is lost has no lines. -/
def SeemsOf (lost : String × String → Prop) (dir : String) (o : Attachment) (ip : Ipv4Addr)
    (content : FileContent) : Prop :=
  (lost (dir, ip.toString) ∧ o = ("", "")) ∨ (¬ lost (dir, ip.toString) ∧ owner content = o)

omit hE [Crates] in
/-- The match of `release`. -/
theorem seemsOf_iff {o : Attachment} {ip : Ipv4Addr} {content : FileContent} {text : String}
    (h : lost (dir, ip.toString) ∧ text = "" ∨
      ¬ lost (dir, ip.toString) ∧ text = textOf (some content)) :
    SeemsOf lost dir o ip content ↔
      (lines text)[0]?.getD "" = o.1 ∧ (lines text)[1]?.getD "" = o.2 := by
  have hlines : lines "" = [] := by decide
  rcases h with ⟨hlost, rfl⟩ | ⟨hread, rfl⟩
  · simp only [SeemsOf, hlost, hlines, true_and, not_true_eq_false, false_and, or_false]
    exact eq_comm.trans Prod.ext_iff
  · simp only [SeemsOf, hread, false_and, false_or, not_false_eq_true, true_and]
    cases content with
    | text t => exact Prod.ext_iff
    | unreadable =>
      rw [textOf, hlines]
      · exact Prod.ext_iff
      · rintro t ⟨⟩

omit [Crates] in
/-- One round of the loop of `release`. -/
theorem wlp_releaseEntry {o : Attachment} (name : String) :
    wlp E (fun r s' => Dropped dir (SeemsOf lost dir o) s s' ∧
        (r = .ok () → ∀ ip : Ipv4Addr, ip.toString = name → ∀ content,
          lease dir s' ip = some content → ¬ SeemsOf lost dir o ip content))
      ((Store.mk dir).releaseEntry o.1 o.2 name).run s := by
  unfold Store.releaseEntry
  cases hname : parseIpv4 name with
  | none =>
    exact ⟨.refl s, fun _ ip hip => absurd hip (toString_ne_of_parse hname ip)⟩
  | some ip =>
    obtain rfl := eq_toString_of_parseIpv4 hname
    refine wlp.liftBind (wlp_readOrDefault hE ip) ?_
    rintro text t ⟨rfl, htext⟩
    have hmatch : ∀ content, lease dir t ip = some content → (SeemsOf lost dir o ip content ↔
        (lines text)[0]?.getD "" = o.1 ∧ (lines text)[1]?.getD "" = o.2) :=
      fun content hl => seemsOf_iff (hl ▸ htext)
    by_cases hyes : (lines text)[0]?.getD "" = o.1 ∧ (lines text)[1]?.getD "" = o.2
    · rw [if_pos hyes]
      intro r s₁ hs
      rcases hE _ _ _ _ hs with ⟨d, hd, hmem, rfl, rfl⟩ | ⟨⟨e, rfl⟩, rfl⟩
      · obtain ⟨content, hl⟩ : ∃ content, lease dir t ip = some content := by
          rw [lease_of_dirs hd, ← Option.isSome_iff_exists]
          exact AList.lookup_isSome.mpr hmem
        refine ⟨fun x => ?_, fun _ x hx content' hx' => ?_⟩
        · by_cases hx : x = ip
          · subst hx
            exact .inr ⟨⟨content, hl, (hmatch content hl).mpr hyes⟩, lease_erase_self d x⟩
          · exact .inl (lease_erase_ne hd hx)
        · obtain rfl := Ipv4Addr.toString_injective hx
          rw [lease_erase_self] at hx'
          cases hx'
      · exact ⟨.refl _, fun h => by cases h⟩
    · rw [if_neg hyes]
      refine ⟨.refl _, fun _ x hx content hl => ?_⟩
      obtain rfl := Ipv4Addr.toString_injective hx
      exact fun h => hyes ((hmatch content hl).mp h)

omit [Crates] in
theorem wlp_releaseLoop {o : Attachment} (names : List String) :
    wlp E (fun r s' => Dropped dir (SeemsOf lost dir o) s s' ∧
        (r = .ok () → ∀ ip : Ipv4Addr, ip.toString ∈ names → ∀ content,
          lease dir s' ip = some content → ¬ SeemsOf lost dir o ip content))
      (names.forM ((Store.mk dir).releaseEntry o.1 o.2)).run s := by
  induction names generalizing s with
  | nil => exact ⟨.refl s, fun _ ip hip => by cases hip⟩
  | cons name rest ih =>
    refine wlp.exceptBind (wlp_releaseEntry hE name) ?_ ?_
    · rintro a s₁ ⟨h₁, hname⟩
      refine ih.mono fun r s₂ ⟨h₂, hrest⟩ => ⟨h₁.trans h₂, fun hr ip hip content hl => ?_⟩
      rcases List.mem_cons.mp hip with hip | hip
      · exact hname rfl ip hip content (h₂.lease hl)
      · exact hrest hr ip hip content hl
    · rintro e s₁ ⟨h₁, -⟩
      exact ⟨h₁, fun h => by cases h⟩

omit [Crates] in
theorem wlp_release {o : Attachment} :
    wlp E (fun r s' => Dropped dir (SeemsOf lost dir o) s s' ∧
        (r = .ok () → NoneLeft dir (SeemsOf lost dir o) s'))
      ((Store.mk dir).release o.1 o.2).run s := by
  refine wlp_readDir hE (fun names hnames => ?_) (fun e => ⟨.refl s, fun h => by cases h⟩)
  refine (wlp_releaseLoop hE names).mono fun r s₁ ⟨h₁, hgone⟩ => ⟨h₁, fun hr ip content hl => ?_⟩
  have hip : ip.toString ∈ names := by
    rw [hnames ip, h₁.lease hl]
    simp
  exact hgone hr ip hip content hl

/-- DEL, alone on any store: it removes what looks like a lease of its attachment. -/
theorem wlp_cmdDel_losing {args : CniArgs} {stdin : String} (hdir : LeadsTo stdin dir) :
    wlp E (fun r s' => Dropped dir (SeemsOf lost dir (args.containerId, args.ifname)) s s' ∧
        ∀ out, r = .ok out →
          NoneLeft dir (SeemsOf lost dir (args.containerId, args.ifname)) s')
      (cmdDel args stdin).run s := by
  have herr : ∀ (e : CniError) t, SameLeases dir s t →
      Dropped dir (SeemsOf lost dir (args.containerId, args.ifname)) s t ∧
        ∀ out : String, (Except.error e : Except CniError String) = .ok out →
          NoneLeft dir (SeemsOf lost dir (args.containerId, args.ifname)) t :=
    fun _ _ h => ⟨fun ip => .inl (h ip), fun _ h => by cases h⟩
  rw [cmdDel, Program.run_pure_bind, load]
  cases hnc : NetConf.parse stdin with
  | none => exact herr _ _ fun _ => rfl
  | some nc =>
    refine wlp_storeFor_bind hE (hdir nc hnc) (fun s₁ hs₁ => ?_) herr
    refine wlp_withLock hE (fun s₂ hs₂ => ?_)
      (fun r t t' h h' => ⟨h.1.of_same (.refl s) h', fun out hr => (h.2 out hr).of_same h'⟩)
      (fun e s₂ hs₂ => herr e s₂ (hs₁.trans hs₂))
    have hsame := hs₁.trans hs₂
    refine wlp_orError_bind (wlp_release hE (o := (args.containerId, args.ifname))) ?_ ?_
    · rintro a s₃ ⟨hdropped, hgone⟩
      exact ⟨hdropped.of_same hsame (.refl s₃), fun _ _ => hgone rfl⟩
    · rintro io s₃ ⟨hdropped, -⟩
      exact ⟨hdropped.of_same hsame (.refl s₃), fun _ h => by cases h⟩

end

section

variable {o : Attachment}

theorem seemsOf_unlost {ip : Ipv4Addr} {content : FileContent} :
    SeemsOf (fun _ => False) dir o ip content ↔ owner content = o := by
  simp [SeemsOf]

theorem Dropped.released (h : Dropped dir (SeemsOf (fun _ => False) dir o) s s') :
    Released dir o s s' := by
  intro ip
  refine (h ip).imp_right fun ⟨⟨content, hip, ho⟩, hgone⟩ => ⟨⟨content, hip, ?_⟩, hgone⟩
  exact seemsOf_unlost.mp ho

theorem NoneLeft.not_owns (h : NoneLeft dir (SeemsOf (fun _ => False) dir o) s) (ip : Ipv4Addr) :
    ¬ Owns dir s ip o :=
  fun ⟨content, hip, ho⟩ => h ip content hip (seemsOf_unlost.mpr ho)

/-- DEL, alone on any store. -/
theorem wlp_cmdDel [Crates] {E : Environment Fs FsOp FsRes}
    (hE : ∀ s o r s', E s o r s' → s.MayFail p o r s') {args : CniArgs} {stdin : String}
    (hdir : LeadsTo stdin dir) :
    wlp E (DelOutcome dir (args.containerId, args.ifname) s) (cmdDel args stdin).run s := by
  have h : wlp E _ (cmdDel args stdin).run s :=
    wlp_cmdDel_losing (fun s o r s' h => Fs.losing_of_mayFail (hE s o r s' h)) hdir
  exact h.mono fun r s' h => ⟨h.1.released, fun out hr => (h.2 out hr).not_owns⟩

end

end FlannelRs.LeaseStores
