import FlannelRs.LeaseStores
import FlannelRs.ProcessPools

/-!
# Exclusive leases under any interleaving of `host-local` processes

Any number of processes work on one lease directory, one file operation at a time. The
only thing that keeps them apart is the lock of the directory. Beside the files the
state keeps a log of what happened to the leases: an address is handed to an attachment
at the moment its lease file is written, and an attachment is deleted at the moment its
DEL gives the lock back.
-/

namespace FlannelRs.ExclusiveLeases
open InteractionPrograms ProcessPools FileSystem Ipv4Addresses RustText CniTypes HostLocal
open LeaseStores

inductive Event where
  | handed (ip : Ipv4Addr) (o : Attachment)
  | deleted (o : Attachment)
  deriving DecidableEq

/-- The attachment an address was last handed to, if it was not deleted since. The log
begins with its newest event. -/
def holder : List Event → Ipv4Addr → Option Attachment
  | [], _ => none
  | .handed x o :: es, ip => if x = ip then some o else holder es ip
  | .deleted o :: es, ip => (holder es ip).filter (· ≠ o)

structure Shared where
  fs : Fs
  log : List Event

/-- A process is started with its arguments and its standard input. -/
abbrev Job := CniArgs × String

def attachment (j : Job) : Attachment := (j.1.containerId, j.1.ifname)

/-- What an operation adds to the log. -/
def record (j : Job) : FsOp → List Event
  | .write _ name _ =>
    if j.1.command = "ADD" then
      ((parseIpv4 name).map fun ip => Event.handed ip (attachment j)).toList
    else []
  | .unlock _ _ => if j.1.command = "DEL" then [.deleted (attachment j)] else []
  | _ => []

section

variable [Crates]

/-- The processes on the lease directory `dir`: any command, for any valid attachment,
with any input that, if it can be read, leads to `dir`. -/
def Admissible (dir : String) (j : Job) : Prop :=
  (attachment j).Valid ∧ ∀ nc, NetConf.parse j.2 = some nc →
    joinPath (nc.ipam.dataDir.getD defaultDataDir) nc.name = dir

def system (dir : String) : System Shared ℕ Job FsOp FsRes (Except CniError String) where
  code _ j := (HostLocal.run j.1 j.2).run
  start _ j s s' := Admissible dir j ∧ s' = s
  answers p j s o r s' := s.fs.Answers p o r s'.fs ∧ s'.log = record j o ++ s.log
  finish _ _ _ s s' := s' = s

/-- No process runs and no address is leased. -/
structure Initial (dir : String)
    (c : Config Shared ℕ Job FsOp FsRes (Except CniError String)) : Prop where
  idle : ∀ p, c.busy p = none
  empty : ∀ ip, lease dir c.state.fs ip = none
  unlocked : c.state.fs.locks (dir, "lock") = none
  log : c.state.log = []

end

/-- The lease file of an address. -/
def Shared.lease (s : Shared) (dir : String) (ip : Ipv4Addr) : Option FileContent :=
  LeaseStores.lease dir s.fs ip

/-- Process `p` has the lock. -/
def Held (dir : String) (p : ℕ) (s : Shared) : Prop := s.fs.locks (dir, "lock") = some p

/-- Nothing happened to the leases. -/
def SameLeases (dir : String) (s s' : Shared) : Prop :=
  (∀ ip, s'.lease dir ip = s.lease dir ip) ∧ s'.log = s.log

/-- Every address that is held has its lease file. -/
def Complete (dir : String) (s : Shared) : Prop :=
  ∀ ip o, holder s.log ip = some o → s.lease dir ip ≠ none

/-- No address was handed out while it was held. -/
def Exclusive : List Event → Prop
  | [] => True
  | .handed ip _ :: es => holder es ip = none ∧ Exclusive es
  | .deleted _ :: es => Exclusive es

structure Inv (dir : String) (s : Shared) : Prop where
  named : ∀ ip content, s.lease dir ip = some content →
    ∃ o : Attachment, holder s.log ip = some o ∧ o.Valid ∧ content = o.file
  complete : s.fs.locks (dir, "lock") = none → Complete dir s
  exclusive : Exclusive s.log

/-- While `p` has the lock, no other process touches the lock or the leases. -/
structure Rely (dir : String) (p : ℕ) (s s' : Shared) : Prop where
  lock : Held dir p s ↔ Held dir p s'
  leases : Held dir p s → SameLeases dir s s'
  log : s.log <:+ s'.log

structure Guar (dir : String) (p : ℕ) (j : Job) (s s' : Shared) : Prop where
  leases : ¬ Held dir p s → SameLeases dir s s'
  lock : s'.fs.locks (dir, "lock") = s.fs.locks (dir, "lock") ∨
    (s.fs.locks (dir, "lock") = none ∧ Held dir p s') ∨
    (Held dir p s ∧ s'.fs.locks (dir, "lock") = none)
  log : s.log <:+ s'.log
  fresh : ∀ ip o, s'.log = .handed ip o :: s.log → s.lease dir ip = none
  own : ∀ ip content, s.lease dir ip = some content → s'.lease dir ip ≠ some content →
    j.1.command = "DEL" ∧ content = (attachment j).file

theorem SameLeases.refl (dir : String) (s : Shared) : SameLeases dir s s :=
  ⟨fun _ => rfl, rfl⟩

theorem SameLeases.trans {dir : String} {s t u : Shared} (h : SameLeases dir s t)
    (h' : SameLeases dir t u) : SameLeases dir s u :=
  ⟨fun ip => (h'.1 ip).trans (h.1 ip), h'.2.trans h.2⟩

theorem SameLeases.complete {dir : String} {s s' : Shared} (h : SameLeases dir s s')
    (hc : Complete dir s) : Complete dir s' := by
  intro ip o ho
  rw [h.1 ip]
  exact hc ip o (h.2 ▸ ho)

def contract (dir : String) : Contract Shared ℕ Job where
  inv := Inv dir
  rely := Rely dir
  guar := Guar dir
  rely_refl p s := ⟨Iff.rfl, fun _ => .refl dir s, List.suffix_refl _⟩
  rely_trans p s t u h h' :=
    ⟨h.lock.trans h'.lock, fun hs => (h.leases hs).trans (h'.leases (h.lock.mp hs)),
      h.log.trans h'.log⟩
  guar_rely p j q s s' hq _ h := by
    refine ⟨?_, ?_, h.log⟩
    · rcases h.lock with hl | ⟨hn, hp⟩ | ⟨hp, hn⟩
      · simp only [Held, hl]
      · simp only [Held] at hp ⊢
        simp [hn, hp, Ne.symm hq]
      · simp only [Held] at hp ⊢
        simp [hn, hp, Ne.symm hq]
    · intro hs
      apply h.leases
      intro hp
      have he : some q = some p := hs.symm.trans hp
      exact hq (Option.some.inj he)

variable {dir : String} {p : ℕ} {j : Job} {s s' : Shared}

/-- A step that touches neither the leases nor the lock. -/
theorem quiet (hi : Inv dir s) (hs : SameLeases dir s s')
    (hl : s'.fs.locks (dir, "lock") = s.fs.locks (dir, "lock")) :
    Inv dir s' ∧ Guar dir p j s s' := by
  have hlog : ∀ ip o, s'.log ≠ .handed ip o :: s.log := by
    intro ip o h
    have hlen := congrArg List.length (hs.2.symm.trans h)
    simp at hlen
  refine ⟨⟨?_, ?_, hs.2 ▸ hi.exclusive⟩, fun _ => hs, .inl hl, hs.2 ▸ List.suffix_refl _,
    fun ip o h => absurd h (hlog ip o), fun ip content h h' => absurd (hs.1 ip ▸ h) h'⟩
  · intro ip content h
    rw [hs.2]
    exact hi.named ip content (hs.1 ip ▸ h)
  · exact fun h => hs.complete (hi.complete (hl ▸ h))

/-- Taking the lock. -/
theorem acquire (hi : Inv dir s) (hs : SameLeases dir s s')
    (hn : s.fs.locks (dir, "lock") = none) (hp : Held dir p s') :
    Inv dir s' ∧ Guar dir p j s s' := by
  have hsame : SameLeases dir s ⟨s.fs, s'.log⟩ := ⟨fun _ => rfl, hs.2⟩
  have hq := quiet (p := p) (j := j) hi hsame rfl
  refine ⟨⟨?_, ?_, hs.2 ▸ hi.exclusive⟩, fun _ => hs, .inr (.inl ⟨hn, hp⟩), hq.2.log,
    hq.2.fresh, fun ip content h h' => absurd (hs.1 ip ▸ h) h'⟩
  · intro ip content h
    rw [hs.2]
    exact hi.named ip content (hs.1 ip ▸ h)
  · intro h
    rw [Held, h] at hp
    cases hp

/-- Handing out a free address. -/
theorem handout {ip : Ipv4Addr} (hi : Inv dir s) (hv : (attachment j).Valid)
    (hp : Held dir p s) (hc : Complete dir s) (hfree : s.lease dir ip = none)
    (hip : s'.lease dir ip = some (attachment j).file)
    (hother : ∀ x, x ≠ ip → s'.lease dir x = s.lease dir x)
    (hl : s'.fs.locks (dir, "lock") = s.fs.locks (dir, "lock"))
    (hlog : s'.log = .handed ip (attachment j) :: s.log) :
    Inv dir s' ∧ Guar dir p j s s' ∧ Complete dir s' := by
  have hnone : holder s.log ip = none := by
    by_contra hne
    obtain ⟨o, ho⟩ := Option.ne_none_iff_exists'.mp hne
    exact hc ip o ho hfree
  have hcomp : Complete dir s' := by
    intro x o ho
    by_cases hx : x = ip
    · subst hx
      simp [hip]
    · rw [hother x hx]
      have hne : ip ≠ x := fun h => hx h.symm
      exact hc x o (by simpa [hlog, holder, hne] using ho)
  refine ⟨⟨?_, fun _ => hcomp, ?_⟩, ⟨fun h => absurd hp h, .inl hl, ?_, ?_, ?_⟩, hcomp⟩
  · intro x content hx
    by_cases he : x = ip
    · subst he
      refine ⟨attachment j, by simp [hlog, holder], hv, ?_⟩
      exact (Option.some.inj (hip.symm.trans hx)).symm
    · rw [hother x he] at hx
      obtain ⟨o, ho, hrest⟩ := hi.named x content hx
      have hne : ip ≠ x := fun h => he h.symm
      exact ⟨o, by simpa [hlog, holder, hne] using ho, hrest⟩
  · rw [hlog]
    exact ⟨hnone, hi.exclusive⟩
  · exact ⟨[_], hlog.symm⟩
  · intro x o h
    obtain ⟨rfl, -⟩ : ip = x ∧ attachment j = o := by simpa [hlog] using h
    exact hfree
  · intro x content hx hx'
    by_cases he : x = ip
    · subst he
      rw [hfree] at hx
      cases hx
    · exact absurd (hother x he ▸ hx) hx'

/-- Removing a lease of the attachment that is deleted. -/
theorem revoke {ip : Ipv4Addr} (hi : Inv dir s) (hp : Held dir p s)
    (hdel : j.1.command = "DEL") (hip : s.lease dir ip = some (attachment j).file)
    (hgone : s'.lease dir ip = none) (hother : ∀ x, x ≠ ip → s'.lease dir x = s.lease dir x)
    (hl : s'.fs.locks (dir, "lock") = s.fs.locks (dir, "lock")) (hlog : s'.log = s.log) :
    Inv dir s' ∧ Guar dir p j s s' := by
  refine ⟨⟨?_, ?_, hlog ▸ hi.exclusive⟩, fun h => absurd hp h, .inl hl,
    hlog ▸ List.suffix_refl _, ?_, ?_⟩
  · intro x content hx
    by_cases he : x = ip
    · subst he
      rw [hgone] at hx
      cases hx
    · rw [hlog]
      exact hi.named x content (hother x he ▸ hx)
  · intro h
    rw [hl, hp] at h
    cases h
  · intro x o h
    have hlen := congrArg List.length (hlog.symm.trans h)
    simp at hlen
  · intro x content hx hx'
    by_cases he : x = ip
    · subst he
      exact ⟨hdel, (Option.some.inj (hip.symm.trans hx)).symm⟩
    · exact absurd (hother x he ▸ hx) hx'

/-- Giving the lock back. A DEL has removed all leases of its attachment by then. -/
theorem giveBack (hi : Inv dir s) (hp : Held dir p s)
    (hc : j.1.command = "DEL" → ∀ ip, s.lease dir ip ≠ some (attachment j).file)
    (hall : ∀ ip o, holder s.log ip = some o → s.lease dir ip = none →
      j.1.command = "DEL" ∧ o = attachment j)
    (hs : ∀ ip, s'.lease dir ip = s.lease dir ip)
    (hn : s'.fs.locks (dir, "lock") = none)
    (hlog : s'.log = record j (.unlock dir "lock") ++ s.log) :
    Inv dir s' ∧ Guar dir p j s s' := by
  refine ⟨⟨?_, ?_, ?_⟩, fun h => absurd hp h, .inr (.inr ⟨hp, hn⟩), ⟨_, hlog.symm⟩, ?_,
    fun x content hx hx' => absurd (hs x ▸ hx) hx'⟩
  · intro x content hx
    rw [hs x] at hx
    obtain ⟨o, ho, hv, rfl⟩ := hi.named x content hx
    refine ⟨o, ?_, hv, rfl⟩
    by_cases hdel : j.1.command = "DEL"
    · have hne : o ≠ attachment j := by
        rintro rfl
        exact hc hdel x hx
      simp [hlog, record, hdel, holder, ho, Option.filter, hne]
    · simpa [hlog, record, hdel] using ho
  · intro _ x o ho hx
    rw [hs x] at hx
    by_cases hdel : j.1.command = "DEL"
    · simp only [hlog, record, hdel, if_true, List.singleton_append, holder,
        Option.filter_eq_some_iff, decide_eq_true_eq] at ho
      exact ho.2 (hall x o ho.1 hx).2
    · exact hdel (hall x o (by simpa [hlog, record, hdel] using ho) hx).1
  · by_cases hdel : j.1.command = "DEL"
    · simpa [hlog, record, hdel, Exclusive] using hi.exclusive
    · simpa [hlog, record, hdel] using hi.exclusive
  · intro x o h
    by_cases hdel : j.1.command = "DEL"
    · simp [hlog, record, hdel] at h
    · have hlen := congrArg List.length h
      simp [hlog, record, hdel] at hlen

/-- Between two handings of one address, its first owner is deleted. -/
theorem Exclusive.deleted_between {ip : Ipv4Addr} {a : Attachment}
    {earlier : List Event} {between : List Event}
    (h : Exclusive (between ++ .handed ip a :: earlier))
    (hne : holder (between ++ .handed ip a :: earlier) ip ≠ some a) :
    .deleted a ∈ between := by
  induction between with
  | nil => simp [holder] at hne
  | cons e between ih =>
    apply List.mem_cons.mpr
    cases e with
    | handed x o =>
      obtain ⟨hfree, hrest⟩ := h
      refine .inr (ih hrest ?_)
      by_cases hx : x = ip
      · subst hx
        have hnone : holder (between ++ .handed x a :: earlier) x = none := hfree
        simp [hnone]
      · simpa [holder, hx] using hne
    | deleted o =>
      by_cases ho : o = a
      · subst ho
        exact .inl rfl
      · refine .inr (ih h fun hheld => hne ?_)
        have hao : a ≠ o := fun h => ho h.symm
        simp [holder, hheld, hao]

theorem Exclusive.of_append {later log : List Event} (h : Exclusive (later ++ log)) :
    Exclusive log := by
  induction later with
  | nil => exact h
  | cons e later ih =>
    cases e with
    | handed x o => exact ih h.2
    | deleted o => exact ih h

/-- The operations that touch neither the leases nor the lock. -/
def Quiet (o : FsOp) : Prop := QuietOp o ∧ o.KeepsLocks

section

variable [Crates]

/-- The answers to process `p` in its job `j`. -/
abbrev Answered (dir : String) (p : ℕ) (j : Job) : Environment Shared FsOp FsRes :=
  (system dir).answers p j

abbrev SafeIn (dir : String) (p : ℕ) (j : Job) {α : Type} (post : α → Shared → Prop)
    (prog : FsProgram α) (s : Shared) : Prop :=
  (contract dir).Safe (Answered dir p j) p j post prog s

theorem Answered.quiet {o : FsOp} {r : FsRes o} (ho : Quiet o)
    (h : Answered dir p j s o r s') :
    SameLeases dir s s' ∧ s'.fs.locks (dir, "lock") = s.fs.locks (dir, "lock") := by
  obtain ⟨hfs, hlog⟩ := h
  refine ⟨⟨lease_of_answers ho.1 hfs, ?_⟩, by rw [Fs.locks_of_answers ho.2 hfs]⟩
  cases o with
  | write d name text =>
    have hname : parseIpv4 name = none := ho.1
    simpa [record, hname] using hlog
  | unlock d name => exact ho.2.elim
  | _ => exact hlog

variable {α : Type} {post : α → Shared → Prop}

/-- An operation outside of the critical section. -/
theorem safe_quiet {o : FsOp} {next : FsRes o → FsProgram α} (ho : Quiet o)
    (hnext : ∀ s₁ r s₂, Answered dir p j s₁ o r s₂ → Inv dir s₂ →
      SafeIn dir p j post (next r) s₂) :
    SafeIn dir p j post (.request o next) s := by
  intro s₁ _ hi r s₂ ha
  obtain ⟨hs, hl⟩ := ha.quiet ho
  obtain ⟨hi₂, hg⟩ := quiet (p := p) (j := j) hi hs hl
  exact ⟨hi₂, hg, hnext s₁ r s₂ ha hi₂⟩

/-- What process `p` knows in the critical section: it has the lock, and the leases are
those of the state `s₀`. -/
structure Within (dir : String) (p : ℕ) (s₀ s : Shared) : Prop where
  held : Held dir p s
  same : SameLeases dir s₀ s

omit [Crates] in
theorem Within.rely {s₀ s₁ : Shared} (h : Within dir p s₀ s) (hr : Rely dir p s s₁) :
    Within dir p s₀ s₁ :=
  ⟨hr.lock.mp h.held, h.same.trans (hr.leases h.held)⟩

/-- A quiet operation inside of the critical section. -/
theorem safe_within {o : FsOp} {next : FsRes o → FsProgram α} {s₀ : Shared}
    (hw : Within dir p s₀ s) (ho : Quiet o)
    (hnext : ∀ s₁ r s₂, Inv dir s₁ → Within dir p s₀ s₁ → Answered dir p j s₁ o r s₂ →
      Inv dir s₂ → Within dir p s₀ s₂ → SafeIn dir p j post (next r) s₂) :
    SafeIn dir p j post (.request o next) s := by
  intro s₁ hr hi r s₂ ha
  obtain ⟨hs, hl⟩ := ha.quiet ho
  obtain ⟨hi₂, hg⟩ := quiet (p := p) (j := j) hi hs hl
  have hw₁ := hw.rely hr
  exact ⟨hi₂, hg, hnext s₁ r s₂ hi hw₁ ha hi₂ ⟨hl.trans hw₁.held, hw₁.same.trans hs⟩⟩

theorem safe_ret_within {s₀ : Shared} {a : α} (hw : Within dir p s₀ s)
    (h : ∀ s₁, Inv dir s₁ → Within dir p s₀ s₁ → post a s₁) :
    SafeIn dir p j post (.ret a) s :=
  fun s₁ hr hi => h s₁ hi (hw.rely hr)

theorem readDir_within {s₀ s₁ : Shared} {r : FsRes (.readDir dir)}
    (hw : Within dir p s₀ s) (h : Answered dir p j s (.readDir dir) r s₁) :
    ∃ names, r = .ok names ∧
      ∀ ip : Ipv4Addr, ip.toString ∈ names ↔ s₀.lease dir ip ≠ none := by
  obtain ⟨⟨d, names, hd, hperm, hr, -⟩, -⟩ := h
  refine ⟨names, hr, fun ip => ?_⟩
  rw [← hw.same.1 ip]
  exact mem_names_iff hd hperm ip

/-- The scan for leased addresses, under the lock, sees exactly the leases. -/
theorem safe_leased {s₀ : Shared} (hw : Within dir p s₀ s) :
    SafeIn dir p j (fun r s' => ∃ ips, r = .ok ips ∧ Within dir p s₀ s' ∧
      ∀ ip, ip ∈ ips ↔ s₀.lease dir ip ≠ none) (Store.mk dir).leased.run s := by
  refine safe_within (o := .readDir dir) hw ⟨trivial, trivial⟩ fun s₁ r s₂ _ hw₁ ha _ hw₂ => ?_
  obtain ⟨names, rfl, hnames⟩ := readDir_within hw₁ ha
  refine safe_ret_within hw₂ fun s₃ _ hw₃ => ⟨_, rfl, hw₃, fun ip => ?_⟩
  exact mem_filterMap_parseIpv4.trans (hnames ip)

theorem safe_lastReserved {s₀ : Shared} (hw : Within dir p s₀ s) :
    SafeIn dir p j (fun _ s' => Within dir p s₀ s') (Store.mk dir).lastReserved s := by
  refine safe_within (o := .readToString dir "last_reserved_ip.0") hw
    ⟨trivial, trivial⟩ fun s₁ r s₂ _ _ _ _ hw₂ => ?_
  cases r with
  | ok t => exact safe_ret_within hw₂ fun _ _ hw₃ => hw₃
  | error e => exact safe_ret_within hw₂ fun _ _ hw₃ => hw₃

/-- Writing the lease file and the cursor for an address that is free. -/
theorem safe_reserve {s₀ : Shared} {ip : Ipv4Addr} (hv : (attachment j).Valid)
    (hadd : j.1.command = "ADD") (hw : Within dir p s₀ s) (hc : Complete dir s₀)
    (hfree : s₀.lease dir ip = none) :
    SafeIn dir p j (fun r s' => ∃ a, r = .ok a ∧ Held dir p s' ∧ Complete dir s' ∧
      .handed ip (attachment j) ∈ s'.log)
      ((Store.mk dir).reserve ip j.1.containerId j.1.ifname).run s := by
  intro s₁ hr hi r s₂ ha
  have hw₁ := hw.rely hr
  obtain ⟨⟨d, hd, rfl, hfs⟩, hlog⟩ := ha
  have hip : s₂.lease dir ip = some (attachment j).file := by
    rw [Shared.lease, hfs]
    exact lease_insert_self d ip _
  have hother : ∀ x, x ≠ ip → s₂.lease dir x = s₁.lease dir x := by
    intro x hx
    rw [Shared.lease, hfs]
    exact lease_insert_ne hd hx
  have hlog₂ : s₂.log = .handed ip (attachment j) :: s₁.log := by
    simpa [record, hadd] using hlog
  have hl : s₂.fs.locks (dir, "lock") = s₁.fs.locks (dir, "lock") := by rw [hfs]; rfl
  obtain ⟨hi₂, hg, hc₂⟩ := handout (p := p) hi hv hw₁.held (hw₁.same.complete hc)
    ((hw₁.same.1 ip).trans hfree) hip hother hl hlog₂
  refine ⟨hi₂, hg, ?_⟩
  have hw₂ : Within dir p s₂ s₂ := ⟨hl.trans hw₁.held, .refl dir s₂⟩
  have hcursor : Quiet (.write dir "last_reserved_ip.0" ip.toString) :=
    ⟨show parseIpv4 "last_reserved_ip.0" = none by decide, trivial⟩
  refine safe_within hw₂ hcursor fun s₃ r s₄ _ _ ha₄ _ hw₄ => ?_
  obtain ⟨⟨-, -, rfl, -⟩, -⟩ := ha₄
  refine safe_ret_within hw₄ fun s₅ _ hw₅ =>
    ⟨(), rfl, hw₅.held, hw₅.same.complete hc₂, ?_⟩
  rw [hw₅.same.2, hlog₂]
  exact List.mem_cons_self

/-- What an ADD that succeeds has done. -/
def AddOutcome (j : Job) (r : Except CniError String) (s : Shared) : Prop :=
  ∀ out, r = .ok out → ∃ nc alloc ip, NetConf.parse j.2 = some nc ∧
    allocatorFor nc = .ok alloc ∧ out = (addResult nc alloc ip).toJson ∧
    .handed ip (attachment j) ∈ s.log

/-- A part whose file operations all succeed, and what follows it. -/
theorem safe_orError_bind {β γ : Type} {prog : IoProgram β} {e : CniError}
    {f : β → CniProgram γ} {m : β → Shared → Prop} {post : Except CniError γ → Shared → Prop}
    (hs : Inv dir s) (h : SafeIn dir p j (fun r s' => ∃ a, r = .ok a ∧ m a s') prog.run s)
    (hf : ∀ a s', Inv dir s' → m a s' → SafeIn dir p j post (f a).run s') :
    SafeIn dir p j post (orError prog e >>= f).run s := by
  rw [run_orError_bind]
  refine Contract.Safe.bind h hs fun r s' hi hm => ?_
  obtain ⟨a, rfl, hm⟩ := hm
  exact hf a s' hi hm

theorem safe_addLocked {nc : NetConf} {alloc : Allocator} {s₀ : Shared}
    (hv : (attachment j).Valid) (hadd : j.1.command = "ADD")
    (hnc : NetConf.parse j.2 = some nc) (halloc : allocatorFor nc = .ok alloc)
    (hs : Inv dir s) (hw : Within dir p s₀ s) (hc : Complete dir s₀) :
    SafeIn dir p j (fun r s' => Held dir p s' ∧ Complete dir s' ∧ AddOutcome j r s')
      (addLocked j.1 nc alloc ⟨dir⟩).run s := by
  refine safe_orError_bind hs (safe_leased hw) ?_
  rintro ips s₁ hi₁ ⟨hw₁, hleased⟩
  refine Contract.Safe.liftBind (safe_lastReserved hw₁) hi₁ fun last s₂ hi₂ hw₂ => ?_
  cases hnext : alloc.nextIp ips last with
  | none =>
    refine safe_ret_within hw₂ fun s₃ _ hw₃ => ⟨hw₃.held, hw₃.same.complete hc, ?_⟩
    intro out h
    cases h
  | some ip =>
    have hfree : s₀.lease dir ip = none := by
      by_contra h
      exact (Allocator.nextIp_spec hnext).2 ((hleased ip).mpr h)
    refine safe_orError_bind hi₂ (safe_reserve hv hadd hw₂ hc hfree) ?_
    rintro - s₃ _ ⟨hp, hc₃, hmem⟩
    have hw₃ : Within dir p s₃ s₃ := ⟨hp, .refl dir s₃⟩
    refine safe_ret_within hw₃ fun s₄ _ hw₄ =>
      ⟨hw₄.held, hw₄.same.complete hc₃, fun out h => ?_⟩
    exact ⟨nc, alloc, ip, hnc, halloc, (Except.ok.inj h).symm, hw₄.same.2 ▸ hmem⟩

/-- Within the loop of `release`: what is left to do is among the names `rest`. -/
structure Releasing (dir : String) (p : ℕ) (j : Job) (rest : List String) (s : Shared) :
    Prop where
  held : Held dir p s
  gone : ∀ ip o, holder s.log ip = some o → s.lease dir ip = none → o = attachment j
  left : ∀ ip, s.lease dir ip = some (attachment j).file → ip.toString ∈ rest

omit [Crates] in
theorem Releasing.rely {rest : List String} {s₁ : Shared} (h : Releasing dir p j rest s)
    (hr : Rely dir p s s₁) : Releasing dir p j rest s₁ := by
  obtain ⟨hsame, hlog⟩ := hr.leases h.held
  refine ⟨hr.lock.mp h.held, fun ip o ho hl => ?_, fun ip hl => ?_⟩
  · exact h.gone ip o (hlog ▸ ho) (hsame ip ▸ hl)
  · exact h.left ip (hsame ip ▸ hl)

omit [Crates] in
/-- A lease file belongs to the attachment iff its first two lines say so. -/
theorem own_iff (hi : Inv dir s) (hv : (attachment j).Valid) {ip : Ipv4Addr} {t : String}
    (h : s.lease dir ip = some (.text t)) :
    (lines t)[0]?.getD "" = j.1.containerId ∧ (lines t)[1]?.getD "" = j.1.ifname ↔
      s.lease dir ip = some (attachment j).file := by
  obtain ⟨o, -, ho, hfile⟩ := hi.named ip _ h
  obtain rfl : t = Store.leaseText o.1 o.2 := by simpa [Attachment.file] using hfile
  rw [h, lines_leaseText ho]
  constructor
  · rintro ⟨h1, h2⟩
    obtain rfl : o = attachment j := Prod.ext h1 h2
    rfl
  · intro hown
    obtain rfl := Attachment.file_injective ho hv (Option.some.inj hown)
    exact ⟨rfl, rfl⟩

/-- Removing the lease file that the loop has just read. -/
theorem safe_removeOwn {rest : List String} {ip : Ipv4Addr} {s₀ : Shared}
    (hv : (attachment j).Valid) (hdel : j.1.command = "DEL") (hw : Within dir p s₀ s)
    (hrel : Releasing dir p j (ip.toString :: rest) s₀)
    (hown : s₀.lease dir ip = some (attachment j).file) :
    SafeIn dir p j (fun r s' => ∃ a, r = .ok a ∧ Releasing dir p j rest s')
      (removeFile dir ip.toString).run s := by
  intro s₁ hr hi r s₂ ha
  have hw₁ := hw.rely hr
  obtain ⟨⟨d, hd, -, rfl, hfs⟩, hlog⟩ := ha
  have hgone : s₂.lease dir ip = none := by
    rw [Shared.lease, hfs]
    exact lease_erase_self d ip
  have hother : ∀ x, x ≠ ip → s₂.lease dir x = s₁.lease dir x := by
    intro x hx
    rw [Shared.lease, hfs]
    exact lease_erase_ne hd hx
  have hl : s₂.fs.locks (dir, "lock") = s₁.fs.locks (dir, "lock") := by rw [hfs]; rfl
  obtain ⟨hi₂, hg⟩ := revoke (p := p) hi hw₁.held hdel ((hw₁.same.1 ip).trans hown) hgone
    hother hl hlog
  refine ⟨hi₂, hg, ?_⟩
  have hrel₂ : Releasing dir p j rest s₂ := by
    refine ⟨hl.trans hw₁.held, fun x o ho hx => ?_, fun x hx => ?_⟩
    · rw [hlog] at ho
      change holder s₁.log x = some o at ho
      by_cases he : x = ip
      · subst he
        obtain ⟨o', ho', ho'v, hfile⟩ := hi.named x _ ((hw₁.same.1 x).trans hown)
        obtain rfl : o = o' := Option.some.inj (ho.symm.trans ho')
        exact Attachment.file_injective ho'v hv hfile.symm
      · rw [hother x he, hw₁.same.1 x] at hx
        exact hrel.gone x o (hw₁.same.2 ▸ ho) hx
    · by_cases he : x = ip
      · subst he
        rw [hgone] at hx
        cases hx
      · rw [hother x he, hw₁.same.1 x] at hx
        rcases List.mem_cons.mp (hrel.left x hx) with h | h
        · exact absurd (Ipv4Addr.toString_injective h) he
        · exact h
  exact fun s₃ hr₃ _ => ⟨(), rfl, hrel₂.rely hr₃⟩

/-- One round of the loop of `release`. -/
theorem safe_releaseEntry {name : String} {rest : List String} (hv : (attachment j).Valid)
    (hdel : j.1.command = "DEL") (hs : Inv dir s) (hrel : Releasing dir p j (name :: rest) s) :
    SafeIn dir p j (fun r s' => ∃ a, r = .ok a ∧ Releasing dir p j rest s')
      ((Store.mk dir).releaseEntry j.1.containerId j.1.ifname name).run s := by
  unfold Store.releaseEntry
  cases hname : parseIpv4 name with
  | none =>
    have hrest : Releasing dir p j rest s := by
      refine ⟨hrel.held, hrel.gone, fun ip hip => ?_⟩
      rcases List.mem_cons.mp (hrel.left ip hip) with h | h
      · exact absurd h (toString_ne_of_parse hname ip)
      · exact h
    exact fun s₁ hr _ => ⟨(), rfl, hrest.rely hr⟩
  | some ip =>
    obtain rfl := eq_toString_of_parseIpv4 hname
    have hw : Within dir p s s := ⟨hrel.held, .refl dir s⟩
    refine Contract.Safe.liftBind (m := fun content s' => Within dir p s s' ∧
      ((lines content)[0]?.getD "" = j.1.containerId ∧
        (lines content)[1]?.getD "" = j.1.ifname ↔
          s.lease dir ip = some (attachment j).file)) ?_ hs ?_
    · refine safe_within (o := .readToString dir ip.toString) hw
        ⟨trivial, trivial⟩ fun s₁ r s₂ hi₁ hw₁ ha _ hw₂ => ?_
      obtain ⟨⟨-, hread⟩, -⟩ := ha
      cases hl : s₁.lease dir ip with
      | none =>
        rw [show s₁.fs.lookup dir ip.toString = none from hl] at hread
        obtain ⟨e, rfl⟩ := hread
        refine safe_ret_within hw₂ fun s₃ _ hw₃ => ⟨hw₃, ?_⟩
        rw [← hw₁.same.1 ip, hl]
        constructor
        · rintro ⟨h, -⟩
          exact absurd h.symm hv.1.1
        · intro h
          cases h
      | some content =>
        obtain ⟨o, -, -, rfl⟩ := hi₁.named ip _ hl
        rw [show s₁.fs.lookup dir ip.toString = some o.file from hl] at hread
        obtain rfl : r = .ok (Store.leaseText o.1 o.2) := hread
        refine safe_ret_within hw₂ fun s₃ _ hw₃ => ⟨hw₃, ?_⟩
        rw [← hw₁.same.1 ip]
        exact own_iff hi₁ hv hl
    · rintro content s₁ _ ⟨hw₁, hown⟩
      by_cases hmatch : (lines content)[0]?.getD "" = j.1.containerId ∧
          (lines content)[1]?.getD "" = j.1.ifname
      · rw [if_pos hmatch]
        exact safe_removeOwn hv hdel hw₁ hrel (hown.mp hmatch)
      · rw [if_neg hmatch]
        refine safe_ret_within hw₁ fun s₂ _ hw₂ => ⟨(), rfl, hw₂.held, ?_, ?_⟩
        · intro x o ho hx
          exact hrel.gone x o (hw₂.same.2 ▸ ho) (hw₂.same.1 x ▸ hx)
        · intro x hx
          rw [hw₂.same.1 x] at hx
          rcases List.mem_cons.mp (hrel.left x hx) with h | h
          · obtain rfl := Ipv4Addr.toString_injective h
            exact absurd (hown.mpr hx) hmatch
          · exact h

theorem safe_releaseLoop (hv : (attachment j).Valid) (hdel : j.1.command = "DEL")
    {names : List String} (hs : Inv dir s) (hrel : Releasing dir p j names s) :
    SafeIn dir p j (fun r s' => ∃ a, r = .ok a ∧ Releasing dir p j [] s')
      (names.forM ((Store.mk dir).releaseEntry j.1.containerId j.1.ifname)).run s := by
  induction names generalizing s with
  | nil => exact fun s₁ hr _ => ⟨(), rfl, hrel.rely hr⟩
  | cons name rest ih =>
    refine Contract.Safe.exceptBind (safe_releaseEntry hv hdel hs hrel) hs ?_ ?_
    · rintro a s₁ hi₁ ⟨-, -, h₁⟩
      exact ih hi₁ h₁
    · rintro e s₁ - ⟨a, h, -⟩
      cases h

/-- After `release`, under the lock, the attachment has no lease file. -/
theorem safe_release (hv : (attachment j).Valid) (hdel : j.1.command = "DEL")
    (hp : Held dir p s) (hc : Complete dir s) :
    SafeIn dir p j (fun r s' => ∃ a, r = .ok a ∧ Releasing dir p j [] s')
      ((Store.mk dir).release j.1.containerId j.1.ifname).run s := by
  have hw : Within dir p s s := ⟨hp, .refl dir s⟩
  refine safe_within (o := .readDir dir) hw ⟨trivial, trivial⟩ fun s₁ r s₂ _ hw₁ ha hi₂ hw₂ => ?_
  obtain ⟨names, rfl, hnames⟩ := readDir_within hw₁ ha
  refine safe_releaseLoop hv hdel hi₂ ⟨hw₂.held, fun ip o ho hl => ?_, fun ip hl => ?_⟩
  · exact absurd hl (hw₂.same.complete hc ip o ho)
  · rw [hnames ip, ← hw₂.same.1 ip, hl]
    simp

/-- The lock may be given back: an ADD has left every held address with its file, a DEL
has left its attachment without one. -/
structure Settled (dir : String) (p : ℕ) (j : Job) (s : Shared) : Prop where
  held : Held dir p s
  clean : j.1.command = "DEL" → ∀ ip, s.lease dir ip ≠ some (attachment j).file
  complete : ∀ ip o, holder s.log ip = some o → s.lease dir ip = none →
    j.1.command = "DEL" ∧ o = attachment j

omit [Crates] in
theorem Settled.rely {s₁ : Shared} (h : Settled dir p j s) (hr : Rely dir p s s₁) :
    Settled dir p j s₁ := by
  obtain ⟨hsame, hlog⟩ := hr.leases h.held
  refine ⟨hr.lock.mp h.held, fun hd ip hl => ?_, fun ip o ho hl => ?_⟩
  · exact h.clean hd ip (hsame ip ▸ hl)
  · exact h.complete ip o (hlog ▸ ho) (hsame ip ▸ hl)

omit [Crates] in
theorem Settled.of_complete (hadd : j.1.command ≠ "DEL") (hp : Held dir p s)
    (hc : Complete dir s) : Settled dir p j s :=
  ⟨hp, fun h => absurd h hadd, fun ip o ho hl => absurd hl (hc ip o ho)⟩

omit [Crates] in
theorem Releasing.settled (hdel : j.1.command = "DEL") (h : Releasing dir p j [] s) :
    Settled dir p j s :=
  ⟨h.held, fun _ ip hl => absurd (h.left ip hl) List.not_mem_nil,
    fun ip o ho hl => ⟨hdel, h.gone ip o ho hl⟩⟩

/-- Under a lock that was just taken, every held address has its lease file. -/
theorem safe_lock (hs : Inv dir s) :
    SafeIn dir p j (fun r s' => ∃ a, r = .ok a ∧ Held dir p s' ∧ Complete dir s')
      (Store.mk dir).lock.run s := by
  refine Contract.Safe.exceptBind (m := fun r _ => r = .ok ()) ?_ hs ?_ ?_
  · have hlock : Quiet (.createFile dir "lock") :=
      ⟨show parseIpv4 "lock" = none by decide, trivial⟩
    refine safe_quiet hlock fun s₁ r s₂ ha _ => ?_
    obtain ⟨⟨-, -, rfl, -⟩, -⟩ := ha
    exact fun _ _ _ => rfl
  · intro _ s' _ _ s₁ _ hi r s₂ ha
    obtain ⟨⟨hfree, rfl, hfs⟩, hlog⟩ := ha
    have hp : Held dir p s₂ := by
      rw [Held, hfs, Fs.setLock_locks_self]
    have hsame : SameLeases dir s₁ s₂ :=
      ⟨fun ip => by rw [Shared.lease, hfs, lease_setLock, Shared.lease], hlog⟩
    obtain ⟨hi₂, hg⟩ := acquire (p := p) (j := j) hi hsame hfree hp
    have hw : Within dir p s₂ s₂ := ⟨hp, .refl dir s₂⟩
    have hc : Complete dir s₂ := hsame.complete (hi.complete hfree)
    exact ⟨hi₂, hg, safe_ret_within hw fun s₃ _ hw₃ =>
      ⟨(), rfl, hw₃.held, hw₃.same.complete hc⟩⟩
  · intro e s' _ h
    cases h

theorem safe_unlock {r : Except CniError String}
    {post : Except CniError String → Shared → Prop}
    (hpost : ∀ s s', s.log <:+ s'.log → post r s → post r s')
    (h : Settled dir p j s ∧ post r s) :
    SafeIn dir p j post (.request (.unlock dir "lock") fun _ => .ret r) s := by
  intro s₁ hr hi _ s₂ ha
  obtain ⟨⟨-, hfs⟩, hlog⟩ := ha
  have h₁ := h.1.rely hr
  obtain ⟨hi₂, hg⟩ := giveBack (p := p) (j := j) hi h₁.held h₁.clean h₁.complete
    (fun ip => by rw [Shared.lease, hfs, lease_setLock, Shared.lease])
    (by rw [hfs, Fs.setLock_locks_self]) hlog
  refine ⟨hi₂, hg, fun s₃ hr₃ _ => ?_⟩
  have hsuffix : s.log <:+ s₃.log := (hr.log.trans hg.log).trans hr₃.log
  exact hpost s s₃ hsuffix h.2

/-- A critical section: its body starts with a complete store and has to settle it. -/
theorem safe_withLock {body : CniProgram String}
    {post : Except CniError String → Shared → Prop}
    (hpost : ∀ r s s', s.log <:+ s'.log → post r s → post r s') (hs : Inv dir s)
    (hbody : ∀ s', Inv dir s' → Held dir p s' → Complete dir s' →
      SafeIn dir p j (fun r s₂ => Settled dir p j s₂ ∧ post r s₂) body.run s') :
    SafeIn dir p j post (withLock ⟨dir⟩ body).run s := by
  refine safe_orError_bind hs (safe_lock hs) ?_
  rintro - s₁ hi₁ ⟨hp, hc⟩
  refine Contract.Safe.bind (hbody s₁ hi₁ hp hc) hi₁ fun r s₂ _ h => ?_
  exact safe_unlock (hpost r) h

/-- `storeFor` opens the directory of the pool. -/
theorem safe_storeFor_bind {nc : NetConf} {f : Store → CniProgram String}
    {post : Except CniError String → Shared → Prop} (hj : Admissible dir j)
    (hnc : NetConf.parse j.2 = some nc) (hs : Inv dir s)
    (hf : ∀ s', Inv dir s' → SafeIn dir p j post (f ⟨dir⟩).run s') :
    SafeIn dir p j post (storeFor nc >>= f).run s := by
  have hdir := hj.2 nc hnc
  refine safe_orError_bind (m := fun store _ => store = ⟨dir⟩) hs ?_ ?_
  · unfold Store.new
    rw [hdir]
    refine safe_quiet (o := .createDirAll dir) ⟨trivial, trivial⟩ fun s₁ r s₂ ha _ => ?_
    obtain ⟨⟨rfl, -⟩, -⟩ := ha
    exact fun _ _ _ => ⟨_, rfl, rfl⟩
  · rintro _ s' hi rfl
    exact hf s' hi

omit [Crates] in
theorem AddOutcome.mono [Crates] {r : Except CniError String} {s s' : Shared}
    (hlog : s.log <:+ s'.log) (h : AddOutcome j r s) : AddOutcome j r s' := by
  intro out hr
  obtain ⟨nc, alloc, ip, hnc, halloc, hout, hmem⟩ := h out hr
  exact ⟨nc, alloc, ip, hnc, halloc, hout, hlog.subset hmem⟩

/-- What a finished job has done. -/
def Outcome (j : Job) (r : Except CniError String) (s : Shared) : Prop :=
  j.1.command = "ADD" → AddOutcome j r s

/-- An input that cannot be read, or names no usable range, ends the job with an error. -/
theorem safe_error {e : CniError} : SafeIn dir p j (Outcome j) (.ret (.error e)) s := by
  intro _ _ _ _ out h
  cases h

theorem safe_load_bind {f : NetConf → CniProgram String}
    (hf : ∀ nc, NetConf.parse j.2 = some nc → SafeIn dir p j (Outcome j) (f nc).run s) :
    SafeIn dir p j (Outcome j) (ExceptT.mk (pure (load j.2)) >>= f).run s := by
  unfold load
  cases hnc : NetConf.parse j.2 with
  | none => exact safe_error
  | some nc => exact hf nc hnc

theorem safe_cmdAdd (hj : Admissible dir j) (hadd : j.1.command = "ADD") (hs : Inv dir s) :
    SafeIn dir p j (Outcome j) (cmdAdd j.1 j.2).run s := by
  refine safe_load_bind fun nc hnc => ?_
  cases halloc : allocatorFor nc with
  | error e => exact safe_error
  | ok alloc =>
    refine safe_storeFor_bind hj hnc hs fun s₁ hi₁ => ?_
    refine safe_withLock (fun r s s' hlog h hadd => (h hadd).mono hlog) hi₁
      fun s₂ hi₂ hp hc => ?_
    have hw : Within dir p s₂ s₂ := ⟨hp, .refl dir s₂⟩
    refine (safe_addLocked hj.1 hadd hnc halloc hi₂ hw hc).mono ?_
    rintro r s₃ - ⟨hp₃, hc₃, hout⟩
    have hndel : j.1.command ≠ "DEL" := by simp [hadd]
    exact ⟨.of_complete hndel hp₃ hc₃, fun _ => hout⟩

theorem safe_cmdDel (hj : Admissible dir j) (hdel : j.1.command = "DEL") (hs : Inv dir s) :
    SafeIn dir p j (Outcome j) (cmdDel j.1 j.2).run s := by
  have hnadd : j.1.command ≠ "ADD" := by simp [hdel]
  refine safe_load_bind fun nc hnc => ?_
  refine safe_storeFor_bind hj hnc hs fun s₁ hi₁ => ?_
  refine safe_withLock (fun r s s' _ _ hadd => absurd hadd hnadd) hi₁
    fun s₂ hi₂ hp hc => ?_
  refine safe_orError_bind hi₂ (safe_release hj.1 hdel hp hc) ?_
  rintro - s₃ _ hrel s₄ hr _
  exact ⟨(hrel.rely hr).settled hdel, fun hadd => absurd hadd hnadd⟩

/-- The loop of `has` only reads. -/
theorem safe_hasLoop (names : List String) (hs : Inv dir s) :
    SafeIn dir p j (fun r _ => ∃ a, r = .ok a)
      ((Store.mk dir).hasLoop j.1.containerId j.1.ifname names).run s := by
  induction names generalizing s with
  | nil => exact fun _ _ _ => ⟨_, rfl⟩
  | cons name rest ih =>
    unfold Store.hasLoop
    by_cases hname : (parseIpv4 name).isNone
    · rw [if_pos hname]
      exact ih hs
    · rw [if_neg hname]
      refine Contract.Safe.liftBind (m := fun _ _ => True) ?_ hs fun content s₁ hi₁ _ => ?_
      · refine safe_quiet (o := .readToString dir name) ⟨trivial, trivial⟩ fun s₁ r s₂ _ _ => ?_
        cases r <;> exact fun _ _ _ => trivial
      · split
        · exact fun _ _ _ => ⟨_, rfl⟩
        · exact ih hi₁

theorem safe_cmdCheck (hj : Admissible dir j) (hcheck : j.1.command = "CHECK")
    (hs : Inv dir s) : SafeIn dir p j (Outcome j) (cmdCheck j.1 j.2).run s := by
  have hnadd : j.1.command ≠ "ADD" := by simp [hcheck]
  refine safe_load_bind fun nc hnc => ?_
  refine safe_storeFor_bind hj hnc hs fun s₁ hi₁ => ?_
  refine safe_orError_bind (m := fun _ _ => True) hi₁ ?_ ?_
  · refine safe_quiet (o := .readDir dir) ⟨trivial, trivial⟩ fun s₂ r s₃ ha hi₃ => ?_
    obtain ⟨⟨-, names, -, -, rfl, -⟩, -⟩ := ha
    refine (safe_hasLoop names hi₃).mono fun r s' _ h => ?_
    obtain ⟨a, rfl⟩ := h
    exact ⟨a, rfl, trivial⟩
  · rintro a s₂ _ -
    cases a <;> exact fun _ _ _ hadd => absurd hadd hnadd

theorem safe_run (hj : Admissible dir j) (hs : Inv dir s) :
    SafeIn dir p j (Outcome j) (HostLocal.run j.1 j.2).run s := by
  unfold HostLocal.run
  by_cases hversion : j.1.command = "VERSION"
  · rw [if_pos hversion]
    exact fun _ _ _ hadd => by simp [hversion] at hadd
  rw [if_neg hversion]
  by_cases hadd : j.1.command = "ADD"
  · rw [if_pos hadd]
    exact safe_cmdAdd hj hadd hs
  rw [if_neg hadd]
  by_cases hdel : j.1.command = "DEL"
  · rw [if_pos hdel]
    exact safe_cmdDel hj hdel hs
  rw [if_neg hdel]
  by_cases hcheck : j.1.command = "CHECK"
  · rw [if_pos hcheck]
    exact safe_cmdCheck hj hcheck hs
  · rw [if_neg hcheck]
    exact safe_error

/-- Every job on the pool's directory keeps the contract. -/
theorem verified (dir : String) :
    Verified (system dir) (contract dir) (fun _ _ => True) (fun _ j => Outcome j) where
  idle_rely _ _ _ _ _ _ := trivial
  start p j s s' hi _ h := by
    obtain ⟨hj, rfl⟩ := h
    obtain ⟨hi', hg⟩ := quiet (p := p) (j := j) hi (.refl dir s') rfl
    exact ⟨hi', hg, safe_run hj hi'⟩
  finish p j a s s' hi _ h := by
    obtain rfl : s' = s := h
    obtain ⟨hi', hg⟩ := quiet (p := p) (j := j) hi (.refl dir s') rfl
    exact ⟨hi', hg, trivial⟩

theorem initial_stands {c : Config Shared ℕ Job FsOp FsRes (Except CniError String)}
    (hc : Initial dir c) : Inv dir c.state ∧
      ∀ p, Stands (system dir) (contract dir) (fun _ _ => True) (fun _ j => Outcome j) c p := by
  refine ⟨⟨?_, ?_, ?_⟩, fun p => ?_⟩
  · intro ip content h
    rw [Shared.lease, hc.empty ip] at h
    cases h
  · intro _ ip o ho
    simp [hc.log, holder] at ho
  · simp [hc.log, Exclusive]
  · simp [Stands, hc.idle p]

/-- Leases are exclusive in every run: a lease file names the attachment the address was
last handed to, which was not deleted since, and outside of the critical sections every
such attachment has its file. An address is handed on only after its owner was deleted,
the address that a successful ADD prints was handed to its attachment, no ADD writes
over a lease file, and what a DEL removes is its own. -/
theorem exclusive_leases {dir : String}
    {c d : Config Shared ℕ Job FsOp FsRes (Except CniError String)}
    (hc : Initial dir c) (h : (system dir).Reachable c d) :
    (∀ ip content, d.state.lease dir ip = some content →
      ∃ o, holder d.state.log ip = some o ∧ content = o.file) ∧
    (d.state.fs.locks (dir, "lock") = none →
      ∀ ip o, holder d.state.log ip = some o → d.state.lease dir ip = some o.file) ∧
    (∀ ip a b later between earlier,
      d.state.log = later ++ .handed ip b :: (between ++ .handed ip a :: earlier) →
      .deleted a ∈ between) ∧
    (∀ p j out, d.busy p = some (j, .ret (.ok out)) → j.1.command = "ADD" →
      ∃ nc alloc ip, NetConf.parse j.2 = some nc ∧ allocatorFor nc = .ok alloc ∧
        out = (addResult nc alloc ip).toJson ∧ .handed ip (attachment j) ∈ d.state.log) ∧
    ∀ p j e, (system dir).Step p j d e →
      (∀ ip o, e.state.log = .handed ip o :: d.state.log → d.state.lease dir ip = none) ∧
      ∀ ip content, d.state.lease dir ip = some content →
        e.state.lease dir ip ≠ some content →
        j.1.command = "DEL" ∧ content = (attachment j).file := by
  obtain ⟨hi₀, hs₀⟩ := initial_stands hc
  obtain ⟨hi, hs⟩ := (verified dir).reachable hi₀ hs₀ h
  refine ⟨?_, ?_, ?_, ?_, ?_⟩
  · intro ip content hl
    obtain ⟨o, ho, -, hfile⟩ := hi.named ip content hl
    exact ⟨o, ho, hfile⟩
  · intro hfree ip o ho
    obtain ⟨content, hl⟩ := Option.ne_none_iff_exists'.mp (hi.complete hfree ip o ho)
    obtain ⟨o', ho', -, rfl⟩ := hi.named ip content hl
    obtain rfl := Option.some.inj (ho.symm.trans ho')
    exact hl
  · intro ip a b later between earlier hlog
    have hex := hi.exclusive
    rw [hlog] at hex
    obtain ⟨hfree, hrest⟩ := hex.of_append
    exact hrest.deleted_between (by simp [hfree])
  · intro p j out hb hadd
    have hsafe := hs p
    simp only [Stands, hb] at hsafe
    exact hsafe _ ((contract dir).rely_refl _ _) hi hadd out rfl
  · intro p j e hstep
    obtain ⟨-, -, hg⟩ := (verified dir).step hi hs hstep
    exact ⟨hg.fresh, hg.own⟩

end

def podJob : Job := (⟨"ADD", "c1", "/proc/1/ns/net", "eth0", "", "/opt/cni/bin"⟩, cbr0Conf)

/-- How process 0 is answered in its job. -/
def perform (j : Job) (o : FsOp) (s : Shared) : Option (FsRes o × Shared) :=
  (Fs.perform 0 o s.fs).map fun rs => (rs.1, ⟨rs.2, record j o ++ s.log⟩)

def emptyStore : Shared := ⟨⟨fun _ => none, fun _ => none⟩, []⟩

theorem podJob_admissible : @Admissible Crates.compact "/var/lib/cni/networks/cbr0" podJob := by
  let := Crates.compact
  have hconf : NetConf.parse podJob.2 =
      some ⟨"", "cbr0", ⟨"host-local", [[⟨"10.244.1.0/24", none⟩]], [], none⟩⟩ := by decide +kernel
  refine ⟨⟨⟨by decide, by decide, by decide⟩, by decide, by decide, by decide⟩,
    fun nc hnc => ?_⟩
  obtain rfl := Option.some.inj (hconf.symm.trans hnc)
  decide

def podJobOf (command id : String) : Job :=
  (⟨command, id, "/proc/1/ns/net", "eth0", "", "/opt/cni/bin"⟩, cbr0Conf)

theorem podJobOf_admissible {command id : String}
    (hvalid : Attachment.Valid (id, "eth0")) :
    @Admissible Crates.compact "/var/lib/cni/networks/cbr0" (podJobOf command id) :=
  ⟨hvalid, podJob_admissible.2⟩

def podRun [Crates] (j : Job) (s : Shared) : Option (Except CniError String × Shared) :=
  (HostLocal.run j.1 j.2).run.run (perform j) s

theorem reachable_podRun [Crates] {dir : String} {j : Job} {a : Except CniError String}
    {c : Config Shared ℕ Job FsOp FsRes (Except CniError String)} {s s' : Shared}
    (hd : (system dir).Reachable c ⟨s, fun _ => none⟩) (hj : Admissible dir j)
    (h : podRun j s = some (a, s')) : (system dir).Reachable c ⟨s', fun _ => none⟩ := by
  have hexec : Exec ((system dir).answers 0 j) s (HostLocal.run j.1 j.2).run a s' := by
    refine Program.exec_of_run (fun o s r s₁ h => ?_) h
    obtain ⟨⟨r', fs'⟩, hfs, he⟩ := Option.map_eq_some_iff.mp h
    obtain ⟨rfl, rfl⟩ := Prod.mk.inj he
    exact ⟨Fs.perform_answers hfs, rfl⟩
  exact hd.done (p := 0) ⟨hj, rfl⟩ hexec rfl

/-- Two pods are added, and the first one goes. -/
def twoPods [Crates] : Option Shared := do
  let (_, s₁) ← podRun (podJobOf "ADD" "c1") emptyStore
  let (_, s₂) ← podRun (podJobOf "ADD" "c2") s₁
  let (_, s₃) ← podRun (podJobOf "DEL" "c1") s₂
  return s₃

theorem twoPods_leases : (@twoPods Crates.compact).map (fun s =>
      decide (s.log = [.deleted ("c1", "eth0"), .handed (.ofOctets 10 244 1 3) ("c2", "eth0"),
          .handed (.ofOctets 10 244 1 2) ("c1", "eth0")] ∧
        s.fs.locks ("/var/lib/cni/networks/cbr0", "lock") = none ∧
        s.lease "/var/lib/cni/networks/cbr0" (.ofOctets 10 244 1 2) = none ∧
        s.lease "/var/lib/cni/networks/cbr0" (.ofOctets 10 244 1 3) =
          some (Attachment.file ("c2", "eth0")))) = some true := by
  decide +kernel

/-- In the run of two ADDs and a DEL the lease of the second pod stays, and its file is that of the
owner of the address by the log. -/
theorem exclusive_leases_two_pods : ∃ d o,
    (@system Crates.compact "/var/lib/cni/networks/cbr0").Reachable
      ⟨emptyStore, fun _ => none⟩ d ∧
    d.state.log = [.deleted ("c1", "eth0"), .handed (.ofOctets 10 244 1 3) ("c2", "eth0"),
      .handed (.ofOctets 10 244 1 2) ("c1", "eth0")] ∧
    d.state.lease "/var/lib/cni/networks/cbr0" (.ofOctets 10 244 1 2) = none ∧
    d.state.lease "/var/lib/cni/networks/cbr0" (.ofOctets 10 244 1 3) =
      some (Attachment.file ("c2", "eth0")) ∧
    holder d.state.log (.ofOctets 10 244 1 3) = some o ∧
    d.state.lease "/var/lib/cni/networks/cbr0" (.ofOctets 10 244 1 3) = some o.file := by
  let := Crates.compact
  obtain ⟨s, hjobs, hleases⟩ := Option.map_eq_some_iff.mp twoPods_leases
  obtain ⟨hlog, hfree, hgone, hlease⟩ := of_decide_eq_true hleases
  unfold twoPods at hjobs
  obtain ⟨⟨r₁, s₁⟩, hrun₁, hjobs⟩ := Option.bind_eq_some_iff.mp hjobs
  obtain ⟨⟨r₂, s₂⟩, hrun₂, hjobs⟩ := Option.bind_eq_some_iff.mp hjobs
  obtain ⟨⟨r₃, s₃⟩, hrun₃, hjobs⟩ := Option.bind_eq_some_iff.mp hjobs
  obtain rfl : s₃ = s := Option.some.inj hjobs
  have hc₁ : Attachment.Valid ("c1", "eth0") :=
    ⟨⟨by decide, by decide, by decide⟩, by decide, by decide, by decide⟩
  have hc₂ : Attachment.Valid ("c2", "eth0") :=
    ⟨⟨by decide, by decide, by decide⟩, by decide, by decide, by decide⟩
  have hd₁ := reachable_podRun .here (podJobOf_admissible hc₁) hrun₁
  have hd₂ := reachable_podRun hd₁ (podJobOf_admissible hc₂) hrun₂
  have hd₃ := reachable_podRun hd₂ (podJobOf_admissible hc₁) hrun₃
  have hinitial : Initial "/var/lib/cni/networks/cbr0" ⟨emptyStore, fun _ => none⟩ :=
    ⟨fun _ => rfl, fun _ => rfl, rfl, rfl⟩
  obtain ⟨hnamed, hcomplete, -⟩ := exclusive_leases hinitial hd₃
  obtain ⟨o, ho, -⟩ := hnamed _ _ hlease
  exact ⟨_, o, hd₃, hlog, hgone, hlease, ho, hcomplete hfree _ o ho⟩

end FlannelRs.ExclusiveLeases
