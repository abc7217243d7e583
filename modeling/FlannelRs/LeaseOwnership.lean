import FlannelRs.LeaseStores

/-!
# Whose lease a file is

`reserve` writes the two parts of an attachment as two lines. `release` and `has` read the
lines back, each in its own way.
-/

namespace FlannelRs.LeaseOwnership
open InteractionPrograms FileSystem Ipv4Addresses RustText CniTypes HostLocal LeaseStores

/-- Which address belongs to whom, as it is meant to be. -/
abbrev Ledger := Ipv4Addr → Option Attachment

/-- The lease of `ip` for `o`. -/
def Ledger.reserve (l : Ledger) (ip : Ipv4Addr) (o : Attachment) : Ledger :=
  Function.update l ip (some o)

/-- Without the leases of `o`. -/
def Ledger.release (l : Ledger) (o : Attachment) : Ledger :=
  fun ip => if l ip = some o then none else l ip

inductive StoreOp where
  | reserve (ip : Ipv4Addr) (o : Attachment)
  | release (o : Attachment)

variable {dir : String} {p : ℕ} {s s' : Fs} {o q : Attachment} {l : Ledger}

/-- The store and the ledger after each operation of a sequence on an empty store, the last one
first. An address is reserved while it is free. -/
inductive Run (dir : String) (p : ℕ) : List StoreOp → List (Fs × Ledger) → Prop where
  | start {s : Fs} (h : s.dirs dir = some ∅) : Run dir p [] [(s, fun _ => none)]
  | reserve {ops : List StoreOp} {past : List (Fs × Ledger)} {s s' : Fs} {l : Ledger}
      {ip : Ipv4Addr} {o : Attachment} (hrun : Run dir p ops ((s, l) :: past))
      (hfree : l ip = none)
      (hexec : Exec (Fs.Answers p) s ((Store.mk dir).reserve ip o.1 o.2).run (.ok ()) s') :
      Run dir p (.reserve ip o :: ops) ((s', l.reserve ip o) :: (s, l) :: past)
  | release {ops : List StoreOp} {past : List (Fs × Ledger)} {s s' : Fs} {l : Ledger}
      {o : Attachment} (hrun : Run dir p ops ((s, l) :: past))
      (hexec : Exec (Fs.Answers p) s ((Store.mk dir).release o.1 o.2).run (.ok ()) s') :
      Run dir p (.release o :: ops) ((s', l.release o) :: (s, l) :: past)

/-- Ownership is matched exactly, for every attachment. -/
structure Exact (dir : String) (p : ℕ) (s : Fs) (l : Ledger) : Prop where
  has_iff : ∀ (q : Attachment) b s',
    Exec (Fs.Answers p) s ((Store.mk dir).has q.1 q.2).run (.ok b) s' →
      (b = true ↔ ∃ ip, l ip = some q)
  release_exact : ∀ (q : Attachment) s',
    Exec (Fs.Answers p) s ((Store.mk dir).release q.1 q.2).run (.ok ()) s' →
      ∀ ip, (l ip = some q → lease dir s ip ≠ none ∧ lease dir s' ip = none) ∧
        (l ip ≠ some q → lease dir s' ip = lease dir s ip)
  has_iff_frees : ∀ q : Attachment,
    (∃ s', Exec (Fs.Answers p) s ((Store.mk dir).has q.1 q.2).run (.ok true) s') ↔
      ∃ s' ip, Exec (Fs.Answers p) s ((Store.mk dir).release q.1 q.2).run (.ok ()) s' ∧
        lease dir s ip ≠ none ∧ lease dir s' ip = none

/-- The attachments that are read back from two lines as they were written. -/
structure Clean (o : Attachment) : Prop where
  containerId : '\n' ∉ o.1.toList
  carriage : o.1.toList.getLast? ≠ some '\r'
  ifname : '\n' ∉ o.2.toList
  given : o.2 ≠ ""

/-- The attachment a lease file is a match for in `has`: both lines have to be there. -/
def Names (content : FileContent) (q : Attachment) : Prop :=
  ∃ t, content = .text t ∧ (lines t)[0]? = some q.1 ∧ (lines t)[1]? = some q.2

theorem names_file_iff : Names o.file o ↔ Clean o := by
  constructor
  · rintro ⟨t, ht, h⟩
    obtain rfl := FileContent.text.inj ht
    obtain ⟨h1, h2, h3, h4⟩ := lines_pair_iff.mp h
    exact ⟨h1, h2, h3, h4⟩
  · exact fun h => ⟨_, rfl, lines_pair_iff.mpr ⟨h.containerId, h.carriage, h.ifname, h.given⟩⟩

theorem Clean.lines_file (h : Clean o) : lines (Store.leaseText o.1 o.2) = [o.1, o.2] :=
  lines_pair h.containerId h.carriage h.ifname h.given

theorem Clean.names_iff (h : Clean o) : Names o.file q ↔ o = q := by
  constructor
  · rintro ⟨t, ht, hfirst, hsecond⟩
    obtain rfl := FileContent.text.inj ht
    rw [h.lines_file] at hfirst hsecond
    exact Prod.ext (Option.some.inj hfirst) (Option.some.inj hsecond)
  · rintro rfl
    exact names_file_iff.mpr h

theorem Clean.owner_file (h : Clean o) : owner o.file = o := by
  simp [owner, Attachment.file, h.lines_file]

/-- The match of `has`. -/
theorem names_iff_textOf {ip : Ipv4Addr} :
    ((lines (textOf (lease dir s ip)))[0]? = some q.1 ∧
      (lines (textOf (lease dir s ip)))[1]? = some q.2) ↔
    ∃ content, lease dir s ip = some content ∧ Names content q := by
  have hlines : lines "" = [] := by decide
  cases hl : lease dir s ip with
  | none => simp [textOf, hlines]
  | some content =>
    cases content with
    | text t => simp [textOf, Names]
    | unreadable => simp [textOf, Names, hlines]

theorem wlp_hasLoop (names : List String) :
    wlp (Fs.Answers p) (fun r s' => s' = s ∧ ∀ b, r = .ok b →
        (b = true ↔ ∃ ip content, ip.toString ∈ names ∧ lease dir s ip = some content ∧
          Names content q))
      ((Store.mk dir).hasLoop q.1 q.2 names).run s := by
  induction names with
  | nil =>
    refine ⟨rfl, ?_⟩
    rintro b ⟨⟩
    simp
  | cons name rest ih =>
    unfold Store.hasLoop
    cases hname : parseIpv4 name with
    | none =>
      refine ih.mono fun r s' h => ⟨h.1, fun b hb => (h.2 b hb).trans ?_⟩
      have hne : ∀ ip : Ipv4Addr, ip.toString ≠ name := toString_ne_of_parse hname
      simp [hne]
    | some ip =>
      obtain rfl := eq_toString_of_parseIpv4 hname
      refine wlp.liftBind
        (wlp_readOrDefault (fun _ _ _ _ h => Fs.losing_of_mayFail (.inl h)) ip) ?_
      rintro content t ⟨rfl, ⟨hlost, -⟩ | ⟨-, rfl⟩⟩
      · exact hlost.elim
      by_cases hmatch : (lines (textOf (lease dir t ip)))[0]? = some q.1 ∧
          (lines (textOf (lease dir t ip)))[1]? = some q.2
      · rw [if_pos hmatch]
        obtain ⟨content, hlease, hnames⟩ := names_iff_textOf.mp hmatch
        refine ⟨rfl, ?_⟩
        rintro b ⟨⟩
        exact iff_of_true rfl ⟨ip, content, List.mem_cons_self, hlease, hnames⟩
      · rw [if_neg hmatch]
        refine ih.mono fun r s' h => ⟨h.1, fun b hb => (h.2 b hb).trans ?_⟩
        constructor
        · rintro ⟨x, content, hx, hcontent⟩
          exact ⟨x, content, List.mem_cons_of_mem _ hx, hcontent⟩
        · rintro ⟨x, content, hx, hcontent⟩
          rcases List.mem_cons.mp hx with hx | hx
          · obtain rfl := Ipv4Addr.toString_injective hx
            exact absurd (names_iff_textOf.mpr ⟨content, hcontent⟩) hmatch
          · exact ⟨x, content, hx, hcontent⟩

/-- `has` finds a file that is a match, if there is one. -/
theorem wlp_has :
    wlp (Fs.Answers p) (fun r s' => s' = s ∧ ∀ b, r = .ok b →
        (b = true ↔ ∃ ip content, lease dir s ip = some content ∧ Names content q))
      ((Store.mk dir).has q.1 q.2).run s := by
  refine wlp_readDir (fun _ _ _ _ h => Fs.losing_of_mayFail (.inl h)) (fun names hnames => ?_)
    (fun e => ⟨rfl, fun b h => by cases h⟩)
  refine (wlp_hasLoop names).mono fun r s' h => ⟨h.1, fun b hb => (h.2 b hb).trans ?_⟩
  constructor
  · rintro ⟨ip, content, -, h⟩
    exact ⟨ip, content, h⟩
  · rintro ⟨ip, content, hlease, h⟩
    refine ⟨ip, content, (hnames ip).mpr ?_, hlease, h⟩
    simp [hlease]

variable (dir p s) in
theorem exec_readOrDefault (name : String) :
    ∃ content, Exec (Fs.Answers p) s ((Store.mk dir).readOrDefault name) content s := by
  cases hl : s.lookup dir name with
  | none =>
    have hanswer : s.Answers p (.readToString dir name) (.error ⟨"not there"⟩) s :=
      ⟨rfl, by rw [hl]; exact ⟨_, rfl⟩⟩
    exact ⟨_, .request hanswer (.ret s _)⟩
  | some content =>
    cases content with
    | text t =>
      have hanswer : s.Answers p (.readToString dir name) (.ok t) s := ⟨rfl, by rw [hl]⟩
      exact ⟨_, .request hanswer (.ret s _)⟩
    | unreadable =>
      have hanswer : s.Answers p (.readToString dir name) (.error ⟨"not text"⟩) s :=
        ⟨rfl, by rw [hl]; exact ⟨_, rfl⟩⟩
      exact ⟨_, .request hanswer (.ret s _)⟩

variable (dir p s q) in
theorem exec_hasLoop (names : List String) :
    ∃ b, Exec (Fs.Answers p) s ((Store.mk dir).hasLoop q.1 q.2 names).run (.ok b) s := by
  induction names with
  | nil => exact ⟨false, .ret s _⟩
  | cons name rest ih =>
    obtain ⟨b, hrest⟩ := ih
    unfold Store.hasLoop
    split
    · exact ⟨b, hrest⟩
    · obtain ⟨content, hread⟩ := exec_readOrDefault dir p s name
      by_cases hmatch : (lines content)[0]? = some q.1 ∧ (lines content)[1]? = some q.2
      · refine ⟨true, hread.liftBind ?_⟩
        rw [if_pos hmatch]
        exact .ret s _
      · refine ⟨b, hread.liftBind ?_⟩
        rwa [if_neg hmatch]

theorem exec_has {d : Dir} (hd : s.dirs dir = some d) :
    ∃ b, Exec (Fs.Answers p) s ((Store.mk dir).has q.1 q.2).run (.ok b) s := by
  obtain ⟨b, hloop⟩ := exec_hasLoop dir p s q d.keys
  have hanswer : s.Answers p (.readDir dir) (.ok d.keys) s := ⟨d, d.keys, hd, .refl _, rfl, rfl⟩
  exact ⟨b, .request hanswer hloop⟩

/-- The files that are still to come are there. -/
theorem exec_releaseLoop {names : List String} (hnodup : names.Nodup) {d : Dir}
    (hd : s.dirs dir = some d) (hin : ∀ name ∈ names, name ∈ d) :
    ∃ s', Exec (Fs.Answers p) s (names.forM ((Store.mk dir).releaseEntry q.1 q.2)).run (.ok ())
      s' := by
  induction names generalizing s d with
  | nil => exact ⟨s, .ret s _⟩
  | cons name rest ih =>
    obtain ⟨hname, hrest⟩ := List.nodup_cons.mp hnodup
    obtain ⟨hfirst, hlater⟩ := List.forall_mem_cons.mp hin
    have hentry : ∃ s₁ d₁, Exec (Fs.Answers p) s
        ((Store.mk dir).releaseEntry q.1 q.2 name).run (.ok ()) s₁ ∧ s₁.dirs dir = some d₁ ∧
        ∀ n ∈ rest, n ∈ d₁ := by
      unfold Store.releaseEntry
      split
      · exact ⟨s, d, .ret s _, hd, hlater⟩
      · obtain ⟨content, hread⟩ := exec_readOrDefault dir p s name
        by_cases hmatch : (lines content)[0]?.getD "" = q.1 ∧ (lines content)[1]?.getD "" = q.2
        · refine ⟨s.setDir dir (d.erase name), d.erase name, hread.liftBind ?_,
            Fs.setDir_dirs_self .., fun n hn => ?_⟩
          · rw [if_pos hmatch]
            have hanswer : s.Answers p (.removeFile dir name) (.ok ())
                (s.setDir dir (d.erase name)) := ⟨d, hd, hfirst, rfl, rfl⟩
            exact .request hanswer (.ret _ _)
          · have hne : n ≠ name := fun h => hname (h ▸ hn)
            rw [AList.mem_erase]
            exact ⟨hne, hlater n hn⟩
        · refine ⟨s, d, hread.liftBind ?_, hd, hlater⟩
          rw [if_neg hmatch]
          exact .ret s _
    obtain ⟨s₁, d₁, hexec, hd₁, hin₁⟩ := hentry
    obtain ⟨s', hloop⟩ := ih hrest hd₁ hin₁
    exact ⟨s', hexec.exceptBind hloop⟩

theorem exec_release {d : Dir} (hd : s.dirs dir = some d) :
    ∃ s', Exec (Fs.Answers p) s ((Store.mk dir).release q.1 q.2).run (.ok ()) s' := by
  obtain ⟨s', hloop⟩ := exec_releaseLoop (q := q) (p := p) d.keys_nodup hd fun _ h =>
    AList.mem_keys.mpr h
  have hanswer : s.Answers p (.readDir dir) (.ok d.keys) s := ⟨d, d.keys, hd, .refl _, rfl, rfl⟩
  exact ⟨s', .request hanswer hloop⟩

/-- While nobody has the lock, a DEL can run to its end. -/
theorem exists_cmdDel [Crates] (args : CniArgs) {stdin : String} {nc : NetConf}
    (hnc : NetConf.parse stdin = some nc)
    (hdir : joinPath (nc.ipam.dataDir.getD defaultDataDir) nc.name = dir)
    (hfree : s.locks (dir, "lock") = none) :
    ∃ s', Exec (Fs.Answers p) s (cmdDel args stdin).run (.ok "") s' := by
  let s₁ := s.setDir dir ((s.dirs dir).getD ∅)
  let d := ((s.dirs dir).getD ∅).insert "lock" (.text "")
  let s₂ := (s₁.setDir dir d).setLock dir "lock" (some p)
  have hd₁ : s₁.dirs dir = some ((s.dirs dir).getD ∅) := Fs.setDir_dirs_self ..
  have hd₂ : s₂.dirs dir = some d := Fs.setDir_dirs_self ..
  obtain ⟨s₃, hrelease⟩ := exec_release (p := p) (q := (args.containerId, args.ifname)) hd₂
  have h₁ : s.Answers p (.createDirAll dir) (.ok ()) s₁ := ⟨rfl, rfl⟩
  have h₂ : s₁.Answers p (.createFile dir "lock") (.ok ()) (s₁.setDir dir d) := ⟨_, hd₁, rfl, rfl⟩
  have h₃ : (s₁.setDir dir d).Answers p (.lockExclusive dir "lock") (.ok ()) s₂ :=
    ⟨hfree, rfl, rfl⟩
  have h₄ : s₃.Answers p (.unlock dir "lock") (.ok ()) (s₃.setLock dir "lock" none) := ⟨rfl, rfl⟩
  let body : CniProgram String := do
    orError ((Store.mk dir).release args.containerId args.ifname) (.new 5 "release lease")
    return ""
  have hbody : Exec (Fs.Answers p) s₂ body.run (.ok "") s₃ := by
    rw [run_orError_bind]
    exact Exec.bind hrelease (.ret ..)
  have hunlocked : Exec (Fs.Answers p) s₂ (body.run >>= fun r =>
      .request (.unlock dir "lock") fun _ => .ret r) (.ok "") (s₃.setLock dir "lock" none) :=
    hbody.bind (.request h₄ (.ret ..))
  refine ⟨s₃.setLock dir "lock" none, ?_⟩
  rw [cmdDel, Program.run_pure_bind, load, hnc]
  change Exec _ s (storeFor nc >>= fun st => withLock st _).run _ _
  rw [storeFor, run_orError_bind, Store.new, hdir]
  exact .request h₁ (.request h₂ (.request h₃ hunlocked))

/-- Every lease is as it was written for a clean attachment. -/
structure Mirrors (dir : String) (s : Fs) (l : Ledger) : Prop where
  there : (s.dirs dir).isSome
  files : ∀ ip, lease dir s ip = (l ip).map Attachment.file
  clean : ∀ ip o, l ip = some o → Clean o

theorem dirs_of_answers {op : FsOp} {r : FsRes op} (h : s.Answers p op r s')
    (hd : (s.dirs dir).isSome) : (s'.dirs dir).isSome := by
  have hset : ∀ d entries, ((s.setDir d entries).dirs dir).isSome := by
    intro d entries
    by_cases hdir : dir = d
    · subst hdir
      rw [Fs.setDir_dirs_self]
      rfl
    · rwa [Fs.setDir_dirs_ne hdir]
  cases op with
  | createDirAll d =>
    obtain ⟨-, rfl⟩ := h
    exact hset _ _
  | createFile d name =>
    obtain ⟨-, -, -, rfl⟩ := h
    exact hset _ _
  | lockExclusive d name => rwa [h.2.2, Fs.setLock_dirs]
  | unlock d name => rwa [h.2, Fs.setLock_dirs]
  | readDir d =>
    obtain ⟨-, -, -, -, -, rfl⟩ := h
    exact hd
  | readToString d name => rwa [h.1]
  | write d name text =>
    obtain ⟨-, -, -, rfl⟩ := h
    exact hset _ _
  | removeFile d name =>
    obtain ⟨-, -, -, -, rfl⟩ := h
    exact hset _ _

theorem dirs_of_exec {α : Type} {prog : FsProgram α} {a : α}
    (h : Exec (Fs.Answers p) s prog a s') : (s.dirs dir).isSome → (s'.dirs dir).isSome := by
  refine h.preserves (R := fun s s' => (s.dirs dir).isSome → (s'.dirs dir).isSome) ?_ ?_ ?_
  · exact fun _ hd => hd
  · exact fun _ _ _ h h' hd => h' (h hd)
  · exact fun _ _ _ _ hr hd => dirs_of_answers hr hd

theorem Mirrors.start (h : s.dirs dir = some ∅) : Mirrors dir s fun _ => none := by
  refine ⟨by rw [h]; rfl, fun ip => ?_, fun ip o ho => by cases ho⟩
  rw [lease_of_dirs h, AList.lookup_empty]
  rfl

theorem Mirrors.owns_iff (hm : Mirrors dir s l) {ip : Ipv4Addr} :
    Owns dir s ip q ↔ l ip = some q := by
  unfold Owns
  rw [hm.files ip]
  cases hl : l ip with
  | none => simp
  | some o => simp [(hm.clean ip o hl).owner_file]

theorem Mirrors.names_iff (hm : Mirrors dir s l) {ip : Ipv4Addr} :
    (∃ content, lease dir s ip = some content ∧ Names content q) ↔ l ip = some q := by
  rw [hm.files ip]
  cases hl : l ip with
  | none => simp
  | some o => simp [(hm.clean ip o hl).names_iff]

/-- A release frees exactly the leases of its attachment. -/
theorem Mirrors.lease_release (hm : Mirrors dir s l)
    (h : Exec (Fs.Answers p) s ((Store.mk dir).release q.1 q.2).run (.ok ()) s') (ip : Ipv4Addr) :
    lease dir s' ip = if l ip = some q then none else lease dir s ip := by
  obtain ⟨hdropped, hgone⟩ := h.wlp (wlp_release fun _ _ _ _ h => Fs.losing_of_mayFail (.inl h))
  by_cases hq : l ip = some q
  · rw [if_pos hq]
    rcases hdropped.released ip with hsame | ⟨-, hnone⟩
    · obtain ⟨content, hcontent, ho⟩ := hm.owns_iff.mpr hq
      exact absurd ⟨content, hsame.trans hcontent, ho⟩ ((hgone rfl).not_owns ip)
    · exact hnone
  · rw [if_neg hq]
    rcases hdropped.released ip with hsame | ⟨howns, -⟩
    · exact hsame
    · exact absurd (hm.owns_iff.mp howns) hq

theorem Mirrors.release (hm : Mirrors dir s l)
    (h : Exec (Fs.Answers p) s ((Store.mk dir).release q.1 q.2).run (.ok ()) s') :
    Mirrors dir s' (l.release q) := by
  refine ⟨dirs_of_exec h hm.there, fun ip => ?_, fun ip o ho => ?_⟩
  · rw [hm.lease_release h ip, Ledger.release]
    by_cases hq : l ip = some q
    · rw [if_pos hq, if_pos hq]
      rfl
    · rw [if_neg hq, if_neg hq]
      exact hm.files ip
  · unfold Ledger.release at ho
    split at ho
    · cases ho
    · exact hm.clean ip o ho

theorem Mirrors.added (hm : Mirrors dir s l) {ip : Ipv4Addr} (hfree : l ip = none)
    (h : Exec (Fs.Answers p) s ((Store.mk dir).reserve ip o.1 o.2).run (.ok ()) s') :
    Added dir o ip s s' := by
  have hnone : lease dir s ip = none := by
    rw [hm.files ip, hfree]
    rfl
  exact h.wlp (wlp_reserve (fun _ _ _ _ h => Fs.losing_of_mayFail (.inl h)) hnone)

theorem Mirrors.reserve (hm : Mirrors dir s l) {ip : Ipv4Addr} (hfree : l ip = none)
    (h : Exec (Fs.Answers p) s ((Store.mk dir).reserve ip o.1 o.2).run (.ok ()) s')
    (ho : Clean o) : Mirrors dir s' (l.reserve ip o) := by
  have hadded := hm.added hfree h
  refine ⟨dirs_of_exec h hm.there, fun x => ?_, fun x o' ho' => ?_⟩
  · by_cases hx : x = ip
    · subst hx
      rw [hadded.file, Ledger.reserve, Function.update_self]
      rfl
    · rw [hadded.others x hx, hm.files x, Ledger.reserve, Function.update_of_ne hx]
  · by_cases hx : x = ip
    · subst hx
      rw [Ledger.reserve, Function.update_self] at ho'
      rwa [← Option.some.inj ho']
    · rw [Ledger.reserve, Function.update_of_ne hx] at ho'
      exact hm.clean x o' ho'

/-- A store that holds what the ledger says is matched exactly, whatever is asked for. -/
theorem Mirrors.exact (hm : Mirrors dir s l) : Exact dir p s l where
  has_iff q b s' h := by
    obtain ⟨-, hb⟩ := h.wlp wlp_has
    rw [hb b rfl]
    exact exists_congr fun ip => hm.names_iff
  release_exact q s' h ip := by
    rw [hm.lease_release h ip]
    refine ⟨fun hq => ⟨?_, if_pos hq⟩, fun hq => if_neg hq⟩
    rw [hm.files ip, hq]
    simp
  has_iff_frees q := by
    obtain ⟨d, hd⟩ := Option.isSome_iff_exists.mp hm.there
    constructor
    · rintro ⟨s', h⟩
      obtain ⟨-, hb⟩ := h.wlp wlp_has
      obtain ⟨ip, content, hlease, hnames⟩ := (hb true rfl).mp rfl
      obtain ⟨s', hrelease⟩ := exec_release (p := p) (q := q) hd
      refine ⟨s', ip, hrelease, by simp [hlease], ?_⟩
      rw [hm.lease_release hrelease ip, if_pos (hm.names_iff.mp ⟨content, hlease, hnames⟩)]
    · rintro ⟨s', ip, hrelease, hlease, hgone⟩
      have hq : l ip = some q := by
        by_contra hq
        rw [hm.lease_release hrelease ip, if_neg hq] at hgone
        exact hlease hgone
      obtain ⟨b, hhas⟩ := exec_has (p := p) (q := q) hd
      obtain ⟨-, hb⟩ := hhas.wlp wlp_has
      obtain ⟨content, hcontent⟩ := hm.names_iff.mpr hq
      obtain rfl := (hb b rfl).mpr ⟨ip, content, hcontent⟩
      exact ⟨s, hhas⟩

/-- After one more reservation, ownership is matched exactly if the attachment is clean. -/
theorem Mirrors.exact_reserve_iff (hm : Mirrors dir s l) {ip : Ipv4Addr} (hfree : l ip = none)
    (h : Exec (Fs.Answers p) s ((Store.mk dir).reserve ip o.1 o.2).run (.ok ()) s') :
    Exact dir p s' (l.reserve ip o) ↔ Clean o := by
  constructor
  · intro hexact
    have hadded := hm.added hfree h
    obtain ⟨d, hd⟩ := Option.isSome_iff_exists.mp (dirs_of_exec h hm.there)
    obtain ⟨b, hhas⟩ := exec_has (p := p) (q := o) hd
    obtain rfl := (hexact.has_iff o b s' hhas).mpr ⟨ip, Function.update_self ..⟩
    obtain ⟨-, hb⟩ := hhas.wlp wlp_has
    obtain ⟨x, content, hlease, hnames⟩ := (hb true rfl).mp rfl
    by_cases hx : x = ip
    · subst hx
      obtain rfl := Option.some.inj (hlease.symm.trans hadded.file)
      exact names_file_iff.mp hnames
    · rw [hadded.others x hx] at hlease
      exact hm.clean x o (hm.names_iff.mp ⟨content, hlease, hnames⟩)
  · exact fun ho => (hm.reserve hfree h ho).exact

/-- A sequence in which every reservation is clean leaves stores that hold what the ledger
says. -/
theorem Run.mirrors {ops : List StoreOp} {visits : List (Fs × Ledger)} (h : Run dir p ops visits)
    (hclean : ∀ ip o, .reserve ip o ∈ ops → Clean o) : ∀ v ∈ visits, Mirrors dir v.1 v.2 := by
  induction h with
  | start h =>
    intro v hv
    obtain rfl := List.mem_singleton.mp hv
    exact Mirrors.start h
  | reserve hrun hfree hexec ih =>
    have hpast := ih fun ip o ho => hclean ip o (List.mem_cons_of_mem _ ho)
    refine List.forall_mem_cons.mpr ⟨?_, hpast⟩
    exact (hpast _ List.mem_cons_self).reserve hfree hexec (hclean _ _ List.mem_cons_self)
  | release hrun hexec ih =>
    have hpast := ih fun ip o ho => hclean ip o (List.mem_cons_of_mem _ ho)
    refine List.forall_mem_cons.mpr ⟨?_, hpast⟩
    exact (hpast _ List.mem_cons_self).release hexec

/-- Ownership is matched exactly after every operation of a sequence if and only if every
attachment that was reserved is read back as it was written. -/
theorem exact_iff_clean {dir : String} {p : ℕ} {ops : List StoreOp} {visits : List (Fs × Ledger)}
    (h : Run dir p ops visits) :
    (∀ v ∈ visits, Exact dir p v.1 v.2) ↔ ∀ ip o, .reserve ip o ∈ ops → Clean o := by
  constructor
  · intro hexact
    induction h with
    | start h => rintro ip o ⟨⟩
    | @reserve ops past s s' l ip o hrun hfree hexec ih =>
      obtain ⟨hlast, hpast⟩ := List.forall_mem_cons.mp hexact
      have hclean := ih hpast
      have hmirrors := hrun.mirrors hclean (s, l) List.mem_cons_self
      have ho := (hmirrors.exact_reserve_iff hfree hexec).mp hlast
      intro x o' hmem
      rcases List.mem_cons.mp hmem with heq | hmem
      · obtain ⟨-, rfl⟩ := StoreOp.reserve.inj heq
        exact ho
      · exact hclean x o' hmem
    | release hrun hexec ih =>
      obtain ⟨-, hpast⟩ := List.forall_mem_cons.mp hexact
      intro x o' hmem
      rcases List.mem_cons.mp hmem with heq | hmem
      · cases heq
      · exact ih hpast x o' hmem
  · exact fun hclean v hv => (h.mirrors hclean v hv).exact

/-- Every attachment is that of arguments which `from_map` accepts. -/
theorem exists_fromMap (o : Attachment) :
    ∃ env args, CniArgs.fromMap env = .ok args ∧ (args.containerId, args.ifname) = o := by
  let env (k : String) : Option String :=
    if k = "CNI_COMMAND" then some "ADD"
    else if k = "CNI_CONTAINERID" then some o.1
    else if k = "CNI_IFNAME" then some o.2
    else none
  exact ⟨env, ⟨"ADD", o.1, "", o.2, "", ""⟩, rfl, rfl⟩

/-- The directory of a network without leases. -/
def emptyStore : Fs := ⟨fun _ => some ∅, fun _ => none⟩

variable (dir p) in
theorem reserve_runs (ip : Ipv4Addr) (o : Attachment) {s : Fs} {d : Dir}
    (hd : s.dirs dir = some d) :
    ∃ s' d', Exec (Fs.Answers p) s ((Store.mk dir).reserve ip o.1 o.2).run (.ok ()) s' ∧
      s'.dirs dir = some d' := by
  have hlease : s.Answers p (.write dir ip.toString (Store.leaseText o.1 o.2)) (.ok ())
      (s.setDir dir (d.insert ip.toString (.text (Store.leaseText o.1 o.2)))) :=
    ⟨d, hd, rfl, rfl⟩
  exact ⟨_, _, .request hlease (.request ⟨_, Fs.setDir_dirs_self .., rfl, rfl⟩ (.ret _ _)),
    Fs.setDir_dirs_self ..⟩

/-- Two leases are made, and the first one is released. -/
theorem exact_of_two_pods : ∃ visits,
    Run "cbr0" 0 [.release ("c1", "eth0"), .reserve (.ofOctets 10 244 1 3) ("c2", "eth0"),
      .reserve (.ofOctets 10 244 1 2) ("c1", "eth0")] visits ∧
      (∃ s l past, visits = (s, l) :: past ∧ l (.ofOctets 10 244 1 2) = none ∧
        l (.ofOctets 10 244 1 3) = some ("c2", "eth0")) ∧
      ∀ v ∈ visits, Exact "cbr0" 0 v.1 v.2 := by
  obtain ⟨s₁, d₁, hexec₁, hd₁⟩ := reserve_runs "cbr0" 0 (.ofOctets 10 244 1 2)
    ("c1", "eth0") (s := emptyStore) rfl
  obtain ⟨s₂, d₂, hexec₂, hd₂⟩ := reserve_runs "cbr0" 0 (.ofOctets 10 244 1 3) ("c2", "eth0") hd₁
  obtain ⟨s₃, hexec₃⟩ := exec_release (p := 0) (q := ("c1", "eth0")) hd₂
  have hrun := Run.release (.reserve (.reserve (.start rfl) rfl hexec₁) (by decide +kernel) hexec₂)
    hexec₃
  refine ⟨_, hrun, ⟨_, _, _, rfl, by decide +kernel, by decide +kernel⟩,
    (exact_iff_clean hrun).mpr ?_⟩
  intro ip o ho
  simp only [List.mem_cons, reduceCtorEq, StoreOp.reserve.injEq, List.not_mem_nil, or_false,
    false_or] at ho
  rcases ho with ⟨-, rfl⟩ | ⟨-, rfl⟩
  · exact ⟨by decide, by decide, by decide, by decide⟩
  · exact ⟨by decide, by decide, by decide, by decide⟩

/-- A lease that was made without `CNI_IFNAME` is never found again. -/
theorem nameless_lost : ∃ env args visits, CniArgs.fromMap env = .ok args ∧
    (args.containerId, args.ifname) = ("c1", "") ∧
    Run "cbr0" 0 [.reserve (.ofOctets 10 244 1 2) ("c1", "")] visits ∧
      ¬ ∀ v ∈ visits, Exact "cbr0" 0 v.1 v.2 := by
  obtain ⟨env, args, hargs, ho⟩ := exists_fromMap ("c1", "")
  obtain ⟨s', -, hexec, -⟩ := reserve_runs "cbr0" 0 (.ofOctets 10 244 1 2)
    ("c1", "") (s := emptyStore) rfl
  refine ⟨env, args, _, hargs, ho, .reserve (.start rfl) rfl hexec, fun h => ?_⟩
  have hstart : Mirrors "cbr0" emptyStore fun _ => none := Mirrors.start rfl
  have hclean := (hstart.exact_reserve_iff rfl hexec).mp (h _ List.mem_cons_self)
  exact hclean.given rfl

end FlannelRs.LeaseOwnership
