import FlannelRs.LeaseFailures
import FlannelRs.LeaseRequests
import FlannelRs.NextAddress
import FlannelRs.ProcessPools

/-!
# Addresses are handed out in rounds

Any number of processes work on one lease directory, one file operation at a time. The
state keeps a history of the operations and of the files each of them found. An address is
handed out when its lease file is written.
-/

namespace FlannelRs.LeaseRounds
open InteractionPrograms ProcessPools FileSystem Ipv4Addresses RustText CniTypes HostLocal
open LeaseStores (lease LeadsTo)
open LeaseFailures LeaseRequests NextAddress RoundRobin

/-- A process is started with its arguments and its standard input. -/
abbrev Job := CniArgs × String

/-- An operation, and the files it found. -/
structure Moment where
  job : Job
  op : FsOp
  before : Fs

/-- The address whose lease file the operation writes. -/
def Moment.handed (dir : String) (m : Moment) : Option Ipv4Addr :=
  match m.op with
  | .write d name _ => if d = dir then parseIpv4 name else none
  | _ => none

/-- The files, and what happened to them. The history begins with the newest operation. -/
structure Recorded where
  fs : Fs
  past : List Moment

section

variable [Crates]

/-- The processes on the lease directory `dir`: any command with any input that, if it can be
read, leads to `dir` and to the hosts of `alloc`. -/
def Admissible (dir : String) (alloc : Allocator) (j : Job) : Prop :=
  LeadsTo j.2 dir ∧ ∀ nc a, NetConf.parse j.2 = some nc → allocatorFor nc = .ok a →
    a.usableHosts = alloc.usableHosts

def system (dir : String) (alloc : Allocator) :
    System Recorded ℕ Job FsOp FsRes (Except CniError String) where
  code _ j := (HostLocal.run j.1 j.2).run
  start _ j s s' := Admissible dir alloc j ∧ s' = s
  answers p j s o r s' := s.fs.Answers p o r s'.fs ∧ s'.past = ⟨j, o, s.fs⟩ :: s.past
  finish _ _ _ s s' := s' = s

/-- No process runs. The directory may hold any files. -/
structure Initial (dir : String)
    (c : Config Recorded ℕ Job FsOp FsRes (Except CniError String)) : Prop where
  idle : ∀ p, c.busy p = none
  unlocked : c.state.fs.locks (dir, "lock") = none
  past : c.state.past = []

end

/-- The address that is handed out after `last` is the first one free in the cycle of the
usable hosts. -/
theorem nextIp_scansTo {a : Allocator} {leased : List Ipv4Addr} {last ip : Ipv4Addr}
    (hlast : last ∈ a.usableHosts) (h : a.nextIp leased (some last) = some ip) :
    ScansTo a.usableHosts (· ∈ leased) last ip := by
  obtain ⟨u, v, hosts, hnext⟩ := nextIp_after hlast leased
  rw [hnext, List.find?_eq_some_iff_append] at h
  obtain ⟨-, skipped, beyond, horder, hskip⟩ := h
  refine ⟨v ++ u, skipped, beyond, ?_, horder, ?_⟩
  · rw [hosts]
    exact List.isRotated_append
  · intro y hy
    simpa using hskip y hy

variable {dir : String} {hosts : List Ipv4Addr} {s s' : Recorded} {m : Moment}

/-- The address that was handed out last. -/
def lastHanded (dir : String) (past : List Moment) : Option Ipv4Addr :=
  past.findSome? (Moment.handed dir)

/-- The address has a lease now, or had one when one of the `recent` operations came. -/
def SeenSince (dir : String) (recent : List Moment) (now : Fs) (ip : Ipv4Addr) : Prop :=
  ∃ fs ∈ now :: recent.map Moment.before, lease dir fs ip ≠ none

/-- The addresses handed out so far went round the hosts. -/
structure Rounds (dir : String) (hosts : List Ipv4Addr) (s : Recorded) : Prop where
  mem : ∀ ip, lastHanded dir s.past = some ip → ip ∈ hosts
  swept : ∀ recent m earlier x, s.past = recent ++ m :: earlier → m.handed dir = some x →
    ∃ last, lastHanded dir s.past = some last ∧
      Swept hosts (SeenSince dir recent s.fs) x last
  full : ∀ later m between n earlier x, s.past = later ++ m :: (between ++ n :: earlier) →
    n.handed dir = some x → m.handed dir = some x →
    ∀ y ∈ hosts, SeenSince dir between m.before y

theorem SeenSince.step {recent : List Moment} {ip : Ipv4Addr} (now : Fs)
    (h : SeenSince dir recent m.before ip) : SeenSince dir (m :: recent) now ip := by
  obtain ⟨fs, hfs, hl⟩ := h
  exact ⟨fs, List.mem_cons_of_mem _ hfs, hl⟩

theorem lastHanded_cons_of_none (h : m.handed dir = none) (past : List Moment) :
    lastHanded dir (m :: past) = lastHanded dir past := by
  rw [lastHanded, List.findSome?_cons, h, lastHanded]

theorem lastHanded_cons_of_some {ip : Ipv4Addr} (h : m.handed dir = some ip)
    (past : List Moment) : lastHanded dir (m :: past) = some ip := by
  rw [lastHanded, List.findSome?_cons, h]

/-- An operation that hands out nothing. -/
theorem Rounds.quiet (h : Rounds dir hosts s) (hm : m.handed dir = none) (hb : m.before = s.fs)
    (hpast : s'.past = m :: s.past) : Rounds dir hosts s' := by
  have hlast : lastHanded dir s'.past = lastHanded dir s.past := by
    rw [hpast, lastHanded_cons_of_none hm]
  refine ⟨fun ip hip => h.mem ip (hlast ▸ hip), ?_, ?_⟩
  · intro recent n earlier x he hn
    rw [hpast] at he
    cases recent with
    | nil =>
      obtain ⟨rfl, -⟩ := List.cons.inj he
      rw [hm] at hn
      cases hn
    | cons _ recent =>
      obtain ⟨rfl, he'⟩ := List.cons.inj he
      obtain ⟨last, hl, hswept⟩ := h.swept recent n earlier x he' hn
      refine ⟨last, hlast.trans hl, hswept.mono fun y hy => ?_⟩
      rw [← hb] at hy
      exact hy.step _
  · intro later n between l earlier x he hl hn
    rw [hpast] at he
    cases later with
    | nil =>
      obtain ⟨rfl, -⟩ := List.cons.inj he
      rw [hm] at hn
      cases hn
    | cons _ later =>
      exact h.full later n between l earlier x (List.cons.inj he).2 hl hn

/-- Handing out the address at which the scan stops. -/
theorem Rounds.handout {ip : Ipv4Addr} (hn : hosts.Nodup) (h : Rounds dir hosts s)
    (hm : m.handed dir = some ip) (hb : m.before = s.fs) (hpast : s'.past = m :: s.past)
    (hip : ip ∈ hosts) (hleased : lease dir s'.fs ip ≠ none)
    (hscan : ∀ last, lastHanded dir s.past = some last →
      ScansTo hosts (fun y => lease dir s.fs y ≠ none) last ip) : Rounds dir hosts s' := by
  have hlast : lastHanded dir s'.past = some ip := by
    rw [hpast, lastHanded_cons_of_some hm]
  have hnow : ∀ recent : List Moment, SeenSince dir recent s'.fs ip := fun recent =>
    ⟨s'.fs, List.mem_cons_self, hleased⟩
  have hskip : ∀ (recent : List Moment) y, lease dir s.fs y ≠ none →
      SeenSince dir recent s.fs y := fun recent y hy => ⟨s.fs, List.mem_cons_self, hy⟩
  refine ⟨fun x hx => ?_, ?_, ?_⟩
  · rw [hlast] at hx
    exact Option.some.inj hx ▸ hip
  · intro recent n earlier x he hx
    refine ⟨ip, hlast, ?_⟩
    rw [hpast] at he
    cases recent with
    | nil =>
      obtain ⟨rfl, -⟩ := List.cons.inj he
      obtain rfl := Option.some.inj (hm.symm.trans hx)
      exact Swept.start hip (hnow [])
    | cons _ recent =>
      obtain ⟨rfl, he'⟩ := List.cons.inj he
      obtain ⟨last, hl, hswept⟩ := h.swept recent n earlier x he' hx
      have hstep : ∀ y, SeenSince dir recent s.fs y → SeenSince dir (m :: recent) s'.fs y := by
        intro y hy
        rw [← hb] at hy
        exact hy.step _
      exact hswept.visit hn (hscan last hl) hstep (fun y hy => hstep y (hskip recent y hy))
        (hnow _)
  · intro later n between l earlier x he hx hn'
    rw [hpast] at he
    cases later with
    | nil =>
      obtain ⟨rfl, he'⟩ := List.cons.inj he
      obtain rfl := Option.some.inj (hm.symm.trans hn')
      obtain ⟨last, hl, hswept⟩ := h.swept between l earlier ip he' hx
      rw [hb]
      exact hswept.round hn (hscan last hl) (hskip between)
    | cons _ later =>
      exact h.full later n between l earlier x (List.cons.inj he).2 hx hn'

/-- Process `p` has the lock. -/
def Held (dir : String) (p : ℕ) (s : Recorded) : Prop := s.fs.locks (dir, "lock") = some p

/-- Nothing but the lock file changed, and nothing was handed out. -/
structure Still (dir : String) (s s' : Recorded) : Prop where
  files : SameFiles dir s.fs s'.fs
  last : lastHanded dir s'.past = lastHanded dir s.past

/-- The cursor is the address that was handed out last. -/
def CursorRight (dir : String) (s : Recorded) : Prop :=
  ∀ ip, lastHanded dir s.past = some ip → cursor dir s.fs = some ip

structure Inv (dir : String) (hosts : List Ipv4Addr) (s : Recorded) : Prop where
  rounds : Rounds dir hosts s
  cursor : s.fs.locks (dir, "lock") = none → CursorRight dir s

/-- While `p` has the lock, no other process touches the lock, the leases or the cursor. -/
structure Rely (dir : String) (p : ℕ) (s s' : Recorded) : Prop where
  lock : Held dir p s ↔ Held dir p s'
  still : Held dir p s → Still dir s s'

structure Guar (dir : String) (p : ℕ) (s s' : Recorded) : Prop where
  still : ¬ Held dir p s → Still dir s s'
  lock : s'.fs.locks (dir, "lock") = s.fs.locks (dir, "lock") ∨
    (s.fs.locks (dir, "lock") = none ∧ Held dir p s') ∨
    (Held dir p s ∧ s'.fs.locks (dir, "lock") = none)

theorem Still.refl (dir : String) (s : Recorded) : Still dir s s := ⟨fun _ _ => rfl, rfl⟩

theorem Still.trans {t : Recorded} (h : Still dir s t) (h' : Still dir t s') : Still dir s s' :=
  ⟨h.files.trans h'.files, h'.last.trans h.last⟩

theorem Still.cursorRight (h : Still dir s s') (hc : CursorRight dir s) : CursorRight dir s' := by
  intro ip hip
  rw [h.files.cursor_eq]
  exact hc ip (h.last ▸ hip)

def contract (dir : String) (hosts : List Ipv4Addr) : Contract Recorded ℕ Job where
  inv := Inv dir hosts
  rely := Rely dir
  guar p _ := Guar dir p
  rely_refl _ s := ⟨Iff.rfl, fun _ => .refl dir s⟩
  rely_trans _ _ _ _ h h' :=
    ⟨h.lock.trans h'.lock, fun hs => (h.still hs).trans (h'.still (h.lock.mp hs))⟩
  guar_rely p _ q s s' hq _ h := by
    have hlock : Held dir q s ↔ Held dir q s' := by
      simp only [Held]
      rcases h.lock with hl | ⟨hn, hp⟩ | ⟨hp, hn⟩
      · rw [hl]
      · simp [hn, show s'.fs.locks (dir, "lock") = some p from hp, Ne.symm hq]
      · simp [hn, show s.fs.locks (dir, "lock") = some p from hp, Ne.symm hq]
    refine ⟨hlock, fun hs => h.still fun hp => hq ?_⟩
    exact Option.some.inj (hs.symm.trans hp)

/-- The operations that leave the leases, the cursor and the lock alone. -/
def Quiet (dir : String) : FsOp → Prop
  | .createDirAll d => d = dir
  | .createFile d name => d = dir ∧ name = "lock"
  | op => Reads dir op

section

variable [Crates] {p : ℕ} {j : Job} {alloc : Allocator}

/-- The answers to process `p` in its job `j`. -/
abbrev Answered (dir : String) (alloc : Allocator) (p : ℕ) (j : Job) :
    Environment Recorded FsOp FsRes :=
  (system dir alloc).answers p j

abbrev SafeIn (dir : String) (alloc : Allocator) (p : ℕ) (j : Job) {α : Type}
    (post : α → Recorded → Prop) (prog : FsProgram α) (s : Recorded) : Prop :=
  (contract dir alloc.usableHosts).Safe (Answered dir alloc p j) p j post prog s

theorem Answered.still {o : FsOp} {r : FsRes o} (ho : Quiet dir o)
    (h : Answered dir alloc p j s o r s') :
    Still dir s s' ∧ s'.fs.locks = s.fs.locks ∧ (Moment.mk j o s.fs).handed dir = none := by
  obtain ⟨hfs, hpast⟩ := h
  have hnone : (Moment.mk j o s.fs).handed dir = none := by
    cases o with
    | write d name text => exact ho.elim
    | _ => rfl
  refine ⟨⟨?_, by rw [hpast, lastHanded_cons_of_none hnone]⟩, ?_, hnone⟩
  · cases o with
    | createDirAll d =>
      obtain rfl : d = dir := ho
      rw [hfs.2]
      exact sameFiles_createDirAll d s.fs
    | createFile d name =>
      obtain ⟨rfl, rfl⟩ := ho
      obtain ⟨entries, hd, -, he⟩ := hfs
      rw [he]
      exact sameFiles_createFile hd
    | readDir d =>
      obtain ⟨-, -, -, -, -, he⟩ := hfs
      rw [he]
      exact fun _ _ => rfl
    | readToString d name =>
      rw [hfs.1]
      exact fun _ _ => rfl
    | _ => exact ho.elim
  · have hkeeps : o.KeepsLocks := by
      cases o with
      | lockExclusive d name => exact ho.elim
      | unlock d name => exact ho.elim
      | _ => trivial
    exact Fs.locks_of_answers hkeeps hfs

/-- An operation that leaves everything alone. -/
theorem quiet {o : FsOp} {r : FsRes o} (hi : Inv dir alloc.usableHosts s) (ho : Quiet dir o)
    (h : Answered dir alloc p j s o r s') :
    Inv dir alloc.usableHosts s' ∧ Guar dir p s s' ∧ Still dir s s' ∧
      (Held dir p s → Held dir p s') := by
  obtain ⟨hstill, hlocks, hnone⟩ := h.still ho
  refine ⟨⟨hi.rounds.quiet hnone rfl h.2, fun hl => ?_⟩, ⟨fun _ => hstill, .inl (by rw [hlocks])⟩,
    hstill, fun hp => ?_⟩
  · exact hstill.cursorRight (hi.cursor (by rwa [← hlocks]))
  · rwa [Held, hlocks]

/-- An operation of the process that has the lock, which hands out nothing. -/
theorem own {o : FsOp} {r : FsRes o} (hi : Inv dir alloc.usableHosts s) (hp : Held dir p s)
    (hnone : (Moment.mk j o s.fs).handed dir = none) (hlocks : s'.fs.locks = s.fs.locks)
    (h : Answered dir alloc p j s o r s') :
    Inv dir alloc.usableHosts s' ∧ Guar dir p s s' ∧ Held dir p s' := by
  have hp' : Held dir p s' := by rwa [Held, hlocks]
  refine ⟨⟨hi.rounds.quiet hnone rfl h.2, fun hl => ?_⟩, ⟨fun hn => absurd hp hn,
    .inl (by rw [hlocks])⟩, hp'⟩
  rw [Held, hl] at hp'
  cases hp'

variable {α : Type} {post : α → Recorded → Prop}

theorem safe_quiet {o : FsOp} {next : FsRes o → FsProgram α} (ho : Quiet dir o)
    (hnext : ∀ s₁ r s₂, Answered dir alloc p j s₁ o r s₂ → Inv dir alloc.usableHosts s₂ →
      SafeIn dir alloc p j post (next r) s₂) :
    SafeIn dir alloc p j post (.request o next) s := by
  intro s₁ _ hi r s₂ ha
  obtain ⟨hi₂, hg, -, -⟩ := quiet hi ho ha
  exact ⟨hi₂, hg, hnext s₁ r s₂ ha hi₂⟩

/-- What process `p` knows in the critical section: it has the lock, and the leases and the
cursor are those of the state `s₀`. -/
structure Within (dir : String) (p : ℕ) (s₀ s : Recorded) : Prop where
  held : Held dir p s
  still : Still dir s₀ s

/-- The lock may be given back. -/
structure Ready (dir : String) (p : ℕ) (s : Recorded) : Prop where
  held : Held dir p s
  cursor : CursorRight dir s

omit [Crates] in
theorem Within.rely {s₀ s₁ : Recorded} (h : Within dir p s₀ s) (hr : Rely dir p s s₁) :
    Within dir p s₀ s₁ :=
  ⟨hr.lock.mp h.held, h.still.trans (hr.still h.held)⟩

omit [Crates] in
theorem Ready.rely {s₁ : Recorded} (h : Ready dir p s) (hr : Rely dir p s s₁) : Ready dir p s₁ :=
  ⟨hr.lock.mp h.held, (hr.still h.held).cursorRight h.cursor⟩

theorem safe_within {o : FsOp} {next : FsRes o → FsProgram α} {s₀ : Recorded}
    (hw : Within dir p s₀ s) (ho : Quiet dir o)
    (hnext : ∀ s₁ r s₂, Within dir p s₀ s₁ → Answered dir alloc p j s₁ o r s₂ →
      Within dir p s₀ s₂ → SafeIn dir alloc p j post (next r) s₂) :
    SafeIn dir alloc p j post (.request o next) s := by
  intro s₁ hr hi r s₂ ha
  obtain ⟨hi₂, hg, hstill, hheld⟩ := quiet hi ho ha
  have hw₁ := hw.rely hr
  exact ⟨hi₂, hg, hnext s₁ r s₂ hw₁ ha ⟨hheld hw₁.held, hw₁.still.trans hstill⟩⟩

theorem safe_ret_within {s₀ : Recorded} {a : α} (hw : Within dir p s₀ s)
    (h : ∀ s₁, Within dir p s₀ s₁ → post a s₁) : SafeIn dir alloc p j post (.ret a) s :=
  fun s₁ hr _ => h s₁ (hw.rely hr)

/-- The scan for leased addresses, under the lock, sees exactly the leases. -/
theorem safe_leased {s₀ : Recorded} (hw : Within dir p s₀ s) :
    SafeIn dir alloc p j (fun r s' => ∃ ips, r = .ok ips ∧ Within dir p s₀ s' ∧
      ∀ ip, ip ∈ ips ↔ lease dir s₀.fs ip ≠ none) (Store.mk dir).leased.run s := by
  refine safe_within (o := .readDir dir) hw rfl fun s₁ r s₂ hw₁ ha hw₂ => ?_
  obtain ⟨⟨d, names, hd, hperm, rfl, -⟩, -⟩ := ha
  refine safe_ret_within hw₂ fun s₃ hw₃ => ⟨_, rfl, hw₃, fun ip => ?_⟩
  rw [mem_filterMap_parseIpv4, LeaseStores.mem_names_iff hd hperm,
    hw₁.still.files.leases ip]

theorem safe_lastReserved {s₀ : Recorded} (hw : Within dir p s₀ s) :
    SafeIn dir alloc p j (fun last s' => Within dir p s₀ s' ∧ last = cursor dir s₀.fs)
      (Store.mk dir).lastReserved s := by
  refine safe_within (o := .readToString dir cursorFile) hw rfl fun s₁ r s₂ hw₁ ha hw₂ => ?_
  have hcursor := cursor_of_answers ha.1
  rw [hw₁.still.files.cursor_eq] at hcursor
  cases r with
  | ok t =>
    rw [Except.toOption, Option.bind_some] at hcursor
    exact safe_ret_within hw₂ fun _ hw₃ => ⟨hw₃, hcursor⟩
  | error e =>
    rw [Except.toOption, Option.bind_none] at hcursor
    exact safe_ret_within hw₂ fun _ hw₃ => ⟨hw₃, hcursor⟩

/-- Writing the lease file and the cursor for the address at which the scan stops. -/
theorem safe_reserve {s₀ : Recorded} {ip : Ipv4Addr} {cid ifn : String}
    (hw : Within dir p s₀ s) (hip : ip ∈ alloc.usableHosts)
    (hscan : ∀ last, lastHanded dir s₀.past = some last →
      ScansTo alloc.usableHosts (fun y => lease dir s₀.fs y ≠ none) last ip) :
    SafeIn dir alloc p j (fun _ s' => Ready dir p s')
      ((Store.mk dir).reserve ip cid ifn).run s := by
  intro s₁ hr hi r s₂ ha
  have hw₁ := hw.rely hr
  obtain ⟨⟨entries, hd, rfl, hfs⟩, hpast⟩ := ha
  have hhanded : (Moment.mk j (.write dir ip.toString (Store.leaseText cid ifn)) s₁.fs).handed dir =
      some ip := by
    simp [Moment.handed]
  have hleased : lease dir s₂.fs ip ≠ none := by
    rw [hfs, LeaseStores.lease_insert_self]
    exact Option.some_ne_none _
  have hrounds : Rounds dir alloc.usableHosts s₂ := by
    refine hi.rounds.handout (alloc.nodup_usableHosts) hhanded rfl hpast hip hleased
      fun last hl => ?_
    have hsame : (fun y => lease dir s₁.fs y ≠ none) = fun y => lease dir s₀.fs y ≠ none := by
      funext y
      rw [hw₁.still.files.leases y]
    rw [hsame]
    exact hscan last (hw₁.still.last ▸ hl)
  have hheld : Held dir p s₂ := by
    rw [Held, hfs]
    exact hw₁.held
  have hi₂ : Inv dir alloc.usableHosts s₂ := by
    refine ⟨hrounds, fun hl => ?_⟩
    rw [Held, hl] at hheld
    cases hheld
  refine ⟨hi₂, ⟨fun hn => absurd hw₁.held hn, .inl (by rw [hfs]; rfl)⟩, ?_⟩
  intro s₃ hr₃ hi₃ r s₄ ha₄
  have hnone : (Moment.mk j (.write dir cursorFile ip.toString) s₃.fs).handed dir = none := by
    have hname : parseIpv4 cursorFile = none := by decide
    simp [Moment.handed, hname]
  have hheld₃ : Held dir p s₃ := hr₃.lock.mp hheld
  have hlocks : s₄.fs.locks = s₃.fs.locks :=
    Fs.locks_of_answers (o := .write dir cursorFile ip.toString) trivial ha₄.1
  obtain ⟨hi₄, hg₄, hheld₄⟩ := own hi₃ hheld₃ hnone hlocks ha₄
  obtain ⟨⟨entries₃, -, -, hfs₄⟩, hpast₄⟩ := ha₄
  replace hpast₄ : s₄.past = ⟨j, .write dir cursorFile ip.toString, s₃.fs⟩ :: s₃.past := hpast₄
  have hready : Ready dir p s₄ := by
    refine ⟨hheld₄, fun x hx => ?_⟩
    rw [hpast₄, lastHanded_cons_of_none hnone, (hr₃.still hheld).last, hpast,
      lastHanded_cons_of_some hhanded] at hx
    rw [← hx, hfs₄]
    exact cursor_insert entries₃ ip
  exact ⟨hi₄, hg₄, fun s₅ hr₅ _ => hready.rely hr₅⟩

/-- A part of a command, and what follows it. -/
theorem safe_orError_bind {β γ : Type} {prog : IoProgram β} {e : CniError}
    {f : β → CniProgram γ} {m : Except IoError β → Recorded → Prop}
    {post : Except CniError γ → Recorded → Prop} (hs : Inv dir alloc.usableHosts s)
    (h : SafeIn dir alloc p j m prog.run s)
    (hok : ∀ a s', Inv dir alloc.usableHosts s' → m (.ok a) s' →
      SafeIn dir alloc p j post (f a).run s')
    (herr : ∀ io s', m (.error io) s' →
      SafeIn dir alloc p j post (.ret (.error (e.withDetails io.text))) s') :
    SafeIn dir alloc p j post (orError prog e >>= f).run s := by
  rw [run_orError_bind]
  refine Contract.Safe.bind h hs fun r s' hi hm => ?_
  cases r with
  | ok a => exact hok a s' hi hm
  | error io => exact herr io s' hm

theorem safe_ready {a : α} (h : Ready dir p s) :
    SafeIn dir alloc p j (fun _ s' => Ready dir p s') (.ret a) s :=
  fun _ hr _ => h.rely hr

theorem safe_addLocked {nc : NetConf} {a : Allocator} (hhosts : a.usableHosts = alloc.usableHosts)
    (hs : Inv dir alloc.usableHosts s) (h : Ready dir p s) :
    SafeIn dir alloc p j (fun _ s' => Ready dir p s') (addLocked j.1 nc a ⟨dir⟩).run s := by
  have hw : Within dir p s s := ⟨h.held, .refl dir s⟩
  have hready : ∀ s₁, Within dir p s s₁ → Ready dir p s₁ := fun s₁ hw₁ =>
    ⟨hw₁.held, hw₁.still.cursorRight h.cursor⟩
  refine safe_orError_bind hs (safe_leased hw) ?_ ?_
  · rintro ips s₁ hi₁ ⟨leased, he, hw₁, hleased⟩
    obtain rfl := Except.ok.inj he
    refine Contract.Safe.liftBind (safe_lastReserved hw₁) hi₁ ?_
    rintro last s₂ hi₂ ⟨hw₂, rfl⟩
    cases hnext : a.nextIp ips (cursor dir s.fs) with
    | none => exact safe_ready (hready s₂ hw₂)
    | some ip =>
      have hip : ip ∈ alloc.usableHosts := hhosts ▸ (Allocator.nextIp_spec hnext).1
      refine safe_orError_bind hi₂ (safe_reserve hw₂ hip fun last hlast => ?_)
        (fun _ _ _ h₃ => safe_ready h₃) (fun _ _ h₃ => safe_ready h₃)
      rw [h.cursor last hlast] at hnext
      have hmem : last ∈ a.usableHosts := hhosts ▸ hs.rounds.mem last hlast
      have hscan := nextIp_scansTo hmem hnext
      rw [hhosts] at hscan
      exact hscan.mono fun y hy => (hleased y).mp hy
  · rintro io s₁ ⟨leased, he, -⟩
    cases he

theorem safe_release {cid ifn : String} (h : Ready dir p s) :
    SafeIn dir alloc p j (fun _ s' => Ready dir p s') ((Store.mk dir).release cid ifn).run s := by
  refine Contract.Safe.of_uses (P := Frees dir) (fun _ _ hr hk => hk.rely hr) ?_
    (uses_release cid ifn) h
  intro s₁ o r s₂ ho hi hk ha
  by_cases hquiet : Quiet dir o
  · obtain ⟨hi₂, hg, hstill, hheld⟩ := quiet hi hquiet ha
    exact ⟨hi₂, hg, hheld hk.held, hstill.cursorRight hk.cursor⟩
  · cases o with
    | removeFile d name =>
      obtain ⟨rfl, ip, rfl⟩ := ho
      have hlocks : s₂.fs.locks = s₁.fs.locks :=
        Fs.locks_of_answers (o := .removeFile d ip.toString) trivial ha.1
      obtain ⟨hi₂, hg, hheld⟩ := own hi hk.held rfl hlocks ha
      obtain ⟨⟨entries, hd, -, -, hfs⟩, hpast⟩ := ha
      refine ⟨hi₂, hg, hheld, fun x hx => ?_⟩
      have hnone : (Moment.mk j (.removeFile d ip.toString) s₁.fs).handed d = none := rfl
      rw [hpast, lastHanded_cons_of_none hnone] at hx
      have hsame : cursor d s₂.fs = cursor d s₁.fs := by
        rw [cursor, cursor, hfs, Fs.setDir_lookup_self,
          AList.lookup_erase_ne (toString_ne_cursorFile ip).symm, Fs.lookup_of_dirs hd]
      rw [hsame]
      exact hk.cursor x hx
    | readDir d => exact absurd ho hquiet
    | readToString d name => exact absurd ho hquiet
    | _ => exact ho.elim

/-- Under a lock that was just taken, the cursor is right. -/
theorem safe_lock : SafeIn dir alloc p j (fun r s' => ∃ a, r = .ok a ∧ Ready dir p s')
    (Store.mk dir).lock.run s := by
  refine safe_quiet (o := .createFile dir "lock") ⟨rfl, rfl⟩ fun s₁ r s₂ ha _ => ?_
  obtain ⟨⟨-, -, rfl, -⟩, -⟩ := ha
  intro s₃ _ hi r s₄ ha₄
  have hnone : (Moment.mk j (.lockExclusive dir "lock") s₃.fs).handed dir = none := rfl
  obtain ⟨⟨hfree, rfl, hfs⟩, hpast⟩ := ha₄
  replace hpast : s₄.past = ⟨j, .lockExclusive dir "lock", s₃.fs⟩ :: s₃.past := hpast
  have hp : Held dir p s₄ := by
    rw [Held, hfs, Fs.setLock_locks_self]
  have hstill : Still dir s₃ s₄ :=
    ⟨fun name _ => by rw [hfs, Fs.setLock_lookup], by rw [hpast, lastHanded_cons_of_none hnone]⟩
  have hi₄ : Inv dir alloc.usableHosts s₄ := by
    refine ⟨hi.rounds.quiet hnone rfl hpast, fun hl => ?_⟩
    rw [Held, hl] at hp
    cases hp
  have hready : Ready dir p s₄ := ⟨hp, hstill.cursorRight (hi.cursor hfree)⟩
  exact ⟨hi₄, ⟨fun _ => hstill, .inr (.inl ⟨hfree, hp⟩)⟩, fun s₅ hr₅ _ =>
    ⟨(), rfl, hready.rely hr₅⟩⟩

theorem safe_unlock {a : α} (h : Ready dir p s) :
    SafeIn dir alloc p j (fun _ _ => True) (.request (.unlock dir "lock") fun _ => .ret a) s := by
  intro s₁ hr hi r s₂ ha
  have h₁ := h.rely hr
  have hnone : (Moment.mk j (.unlock dir "lock") s₁.fs).handed dir = none := rfl
  obtain ⟨⟨-, hfs⟩, hpast⟩ := ha
  replace hpast : s₂.past = ⟨j, .unlock dir "lock", s₁.fs⟩ :: s₁.past := hpast
  have hstill : Still dir s₁ s₂ :=
    ⟨fun name _ => by rw [hfs, Fs.setLock_lookup], by rw [hpast, lastHanded_cons_of_none hnone]⟩
  have hfree : s₂.fs.locks (dir, "lock") = none := by
    rw [hfs, Fs.setLock_locks_self]
  exact ⟨⟨hi.rounds.quiet hnone rfl hpast, fun _ => hstill.cursorRight h₁.cursor⟩,
    ⟨fun _ => hstill, .inr (.inr ⟨h₁.held, hfree⟩)⟩, fun _ _ _ => trivial⟩

/-- A critical section: its body keeps the cursor right. -/
theorem safe_withLock {body : CniProgram String} (hs : Inv dir alloc.usableHosts s)
    (hbody : ∀ s', Inv dir alloc.usableHosts s' → Ready dir p s' →
      SafeIn dir alloc p j (fun _ s' => Ready dir p s') body.run s') :
    SafeIn dir alloc p j (fun _ _ => True) (withLock ⟨dir⟩ body).run s := by
  refine safe_orError_bind hs safe_lock ?_ ?_
  · rintro a s₁ hi₁ ⟨-, -, h₁⟩
    exact Contract.Safe.bind (hbody s₁ hi₁ h₁) hi₁ fun r s₂ _ h₂ => safe_unlock h₂
  · rintro io s₁ ⟨a, he, -⟩
    cases he

/-- `storeFor` opens the directory of the pool. -/
theorem safe_storeFor_bind {nc : NetConf} {f : Store → CniProgram String}
    (hdir : joinPath (nc.ipam.dataDir.getD defaultDataDir) nc.name = dir)
    (hs : Inv dir alloc.usableHosts s)
    (hf : ∀ s', Inv dir alloc.usableHosts s' →
      SafeIn dir alloc p j (fun _ _ => True) (f ⟨dir⟩).run s') :
    SafeIn dir alloc p j (fun _ _ => True) (storeFor nc >>= f).run s := by
  refine safe_orError_bind (m := fun r _ => r = .ok ⟨dir⟩) hs ?_ ?_ ?_
  · rw [Store.new, hdir]
    refine safe_quiet (o := .createDirAll dir) rfl fun s₁ r s₂ ha _ => ?_
    obtain ⟨⟨rfl, -⟩, -⟩ := ha
    exact fun _ _ _ => rfl
  · intro a s' hi he
    obtain rfl := Except.ok.inj he
    exact hf s' hi
  · intro io s' he
    cases he

theorem safe_ret {a : α} : SafeIn dir alloc p j (fun _ _ => True) (.ret a) s :=
  fun _ _ _ => trivial

theorem safe_cmdAdd (hj : Admissible dir alloc j) (hs : Inv dir alloc.usableHosts s) :
    SafeIn dir alloc p j (fun _ _ => True) (cmdAdd j.1 j.2).run s := by
  rw [cmdAdd, Program.run_pure_bind, load]
  cases hnc : NetConf.parse j.2 with
  | none => exact safe_ret
  | some nc =>
    simp only [Program.run_pure_bind]
    cases halloc : allocatorFor nc with
    | error e => exact safe_ret
    | ok a =>
      exact safe_storeFor_bind (hj.1 nc hnc) hs fun s₁ hi₁ => safe_withLock hi₁
        fun s₂ hi₂ h₂ => safe_addLocked (hj.2 nc a hnc halloc) hi₂ h₂

theorem safe_cmdDel (hj : Admissible dir alloc j) (hs : Inv dir alloc.usableHosts s) :
    SafeIn dir alloc p j (fun _ _ => True) (cmdDel j.1 j.2).run s := by
  rw [cmdDel, Program.run_pure_bind, load]
  cases hnc : NetConf.parse j.2 with
  | none => exact safe_ret
  | some nc =>
    refine safe_storeFor_bind (hj.1 nc hnc) hs fun s₁ hi₁ => safe_withLock hi₁
      fun s₂ hi₂ h₂ => ?_
    exact safe_orError_bind hi₂ (safe_release h₂) (fun _ _ _ h₃ => safe_ready h₃)
      fun _ _ h₃ => safe_ready h₃

theorem safe_cmdCheck (hj : Admissible dir alloc j) (hs : Inv dir alloc.usableHosts s) :
    SafeIn dir alloc p j (fun _ _ => True) (cmdCheck j.1 j.2).run s := by
  rw [cmdCheck, Program.run_pure_bind, load]
  cases hnc : NetConf.parse j.2 with
  | none => exact safe_ret
  | some nc =>
    refine safe_storeFor_bind (hj.1 nc hnc) hs fun s₁ hi₁ => ?_
    refine safe_orError_bind (m := fun _ _ => True) hi₁ ?_ (fun found _ _ _ => ?_)
      fun _ _ _ => safe_ret
    · refine Contract.Safe.of_uses (P := Reads dir) (K := fun _ => True)
        (fun _ _ _ _ => trivial) (fun s₂ o r s₃ ho hi _ ha => ?_) (uses_has _ _) trivial
      have hquiet : Quiet dir o := by
        cases o with
        | readDir d => exact ho
        | readToString d name => exact ho
        | _ => exact ho.elim
      obtain ⟨hi₃, hg, -, -⟩ := quiet hi hquiet ha
      exact ⟨hi₃, hg, trivial⟩
    · cases found <;> exact safe_ret

theorem safe_run (hj : Admissible dir alloc j) (hs : Inv dir alloc.usableHosts s) :
    SafeIn dir alloc p j (fun _ _ => True) (HostLocal.run j.1 j.2).run s := by
  unfold HostLocal.run
  by_cases hversion : j.1.command = "VERSION"
  · rw [if_pos hversion]
    exact safe_ret
  rw [if_neg hversion]
  by_cases hadd : j.1.command = "ADD"
  · rw [if_pos hadd]
    exact safe_cmdAdd hj hs
  rw [if_neg hadd]
  by_cases hdel : j.1.command = "DEL"
  · rw [if_pos hdel]
    exact safe_cmdDel hj hs
  rw [if_neg hdel]
  by_cases hcheck : j.1.command = "CHECK"
  · rw [if_pos hcheck]
    exact safe_cmdCheck hj hs
  · rw [if_neg hcheck]
    exact safe_ret

/-- Every job on the pool's directory keeps the contract. -/
theorem verified (dir : String) (alloc : Allocator) :
    Verified (system dir alloc) (contract dir alloc.usableHosts) (fun _ _ => True)
      (fun _ _ _ _ => True) where
  idle_rely _ _ _ _ _ _ := trivial
  start p j s s' hi _ h := by
    obtain ⟨hj, rfl⟩ := h
    exact ⟨hi, ⟨fun _ => .refl dir s', .inl rfl⟩, safe_run hj hi⟩
  finish p j a s s' hi _ h := by
    obtain rfl : s' = s := h
    exact ⟨hi, ⟨fun _ => .refl dir s', .inl rfl⟩, trivial⟩

/-- Between two hand-outs of one address, every other address of the subnet was leased at
some moment, but for those that are never handed out: the network, the broadcast and the
gateway address. -/
theorem handed_out_in_rounds {c d : Config Recorded ℕ Job FsOp FsRes (Except CniError String)}
    (hc : Initial dir c) (h : (system dir alloc).Reachable c d) {x y : Ipv4Addr}
    {later between earlier : List Moment} {first second : Moment}
    (hpast : d.state.past = later ++ second :: (between ++ first :: earlier))
    (hfirst : first.handed dir = some x) (hsecond : second.handed dir = some x)
    (hy : alloc.net.contains y = true) (hnetwork : y ≠ alloc.net.network)
    (hbroadcast : y ≠ alloc.net.broadcast) (hgateway : y ≠ alloc.gateway) :
    ∃ m ∈ second :: between, lease dir m.before y ≠ none := by
  have hinitial : Inv dir alloc.usableHosts c.state := by
    have hnone : ∀ {a b : List Moment} {m}, ¬ c.state.past = a ++ m :: b := by
      intro a b m he
      rw [hc.past] at he
      cases a <;> cases he
    refine ⟨⟨fun ip hip => ?_, ?_, ?_⟩, fun _ ip hip => ?_⟩
    · rw [hc.past] at hip
      cases hip
    · exact fun _ _ _ _ he => absurd he hnone
    · exact fun _ _ _ _ _ _ he => absurd he hnone
    · rw [hc.past] at hip
      cases hip
  have hstands : ∀ p, Stands (system dir alloc) (contract dir alloc.usableHosts)
      (fun _ _ => True) (fun _ _ _ _ => True) c p := by
    intro p
    simp [Stands, hc.idle p]
  obtain ⟨hi, -⟩ := (verified dir alloc).reachable hinitial hstands h
  have hmem : y ∈ alloc.usableHosts := Allocator.mem_usableHosts.mpr ⟨hy, hnetwork, hbroadcast, hgateway⟩
  obtain ⟨fs, hfs, hl⟩ := hi.rounds.full later second between first earlier x hpast hfirst
    hsecond y hmem
  rcases List.mem_cons.mp hfs with rfl | hfs
  · exact ⟨second, List.mem_cons_self, hl⟩
  · obtain ⟨m, hm, rfl⟩ := List.mem_map.mp hfs
    exact ⟨m, List.mem_cons_of_mem _ hm, hl⟩

/-- How process 0 is answered in its job. -/
def perform (j : Job) (o : FsOp) (s : Recorded) : Option (FsRes o × Recorded) :=
  (Fs.perform 0 o s.fs).map fun rs => (rs.1, ⟨rs.2, ⟨j, o, s.fs⟩ :: s.past⟩)

def serve : List Job → Recorded → Option Recorded
  | [], s => some s
  | j :: js, s => ((HostLocal.run j.1 j.2).run.run (perform j) s).bind fun r => serve js r.2

theorem reachable_serve {c : Config Recorded ℕ Job FsOp FsRes (Except CniError String)}
    {js : List Job} (hjs : ∀ j ∈ js, Admissible dir alloc j)
    (hc : (system dir alloc).Reachable c ⟨s, fun _ => none⟩) (h : serve js s = some s') :
    (system dir alloc).Reachable c ⟨s', fun _ => none⟩ := by
  induction js generalizing s with
  | nil =>
    obtain rfl := Option.some.inj h
    exact hc
  | cons j js ih =>
    obtain ⟨⟨a, s₁⟩, hrun, hrest⟩ := Option.bind_eq_some_iff.mp h
    refine ih (fun k hk => hjs k (List.mem_cons_of_mem _ hk)) ?_ hrest
    have hexec : Exec (Answered dir alloc 0 j) s (HostLocal.run j.1 j.2).run a s₁ := by
      refine Program.exec_of_run (fun o s r s₁ h => ?_) hrun
      obtain ⟨⟨r', fs'⟩, hfs, he⟩ := Option.map_eq_some_iff.mp h
      obtain ⟨rfl, rfl⟩ := Prod.mk.inj he
      exact ⟨Fs.perform_answers hfs, rfl⟩
    have hjob := hc.job (p := 0) rfl ⟨hjs j List.mem_cons_self, rfl⟩ hexec
    have hdone := hjob.step (.finish (Config.goOn_busy_self ..) rfl)
    rwa [Config.goOn_state, Config.goOn_goOn, Config.goOn, Function.update_eq_self] at hdone

end

/-- A subnet with two addresses to hand out. -/
def smallConf : String :=
  "\x7b\"name\":\"cbr0\",\"ipam\":\x7b\"type\":\"host-local\"," ++
    "\"ranges\":[[\x7b\"subnet\":\"10.244.1.0/30\",\"gateway\":\"10.244.1.62\"\x7d]]\x7d\x7d"

def addJob : Job := (podArgs, smallConf)

def delJob : Job := ({ podArgs with command := "DEL" }, smallConf)

def smallAlloc : Allocator := ⟨⟨.ofOctets 10 244 1 0, 30, by decide⟩, .ofOctets 10 244 1 62⟩

theorem smallConf_admissible (args : CniArgs) :
    @Admissible Crates.compact cbr0Dir smallAlloc (args, smallConf) := by
  let := Crates.compact
  have hconf : NetConf.parse smallConf = some ⟨"", "cbr0", ⟨"host-local",
      [[⟨"10.244.1.0/30", some "10.244.1.62"⟩]], [], none⟩⟩ := by decide +kernel
  refine ⟨fun nc hnc => ?_, fun nc a hnc ha => ?_⟩
  · obtain rfl := Option.some.inj (hconf.symm.trans hnc)
    decide
  · obtain rfl := Option.some.inj (hconf.symm.trans hnc)
    have halloc : (allocatorFor ⟨"", "cbr0", ⟨"host-local",
        [[⟨"10.244.1.0/30", some "10.244.1.62"⟩]], [], none⟩⟩).toOption.map
          (fun a => (a.net, a.gateway)) = some (smallAlloc.net, smallAlloc.gateway) := by
      decide +kernel
    rw [ha] at halloc
    obtain ⟨hnet, hgateway⟩ := Prod.mk.inj (Option.some.inj halloc)
    rw [Allocator.usableHosts, Allocator.usableHosts, hnet, hgateway]

theorem served_handed :
    (@serve Crates.compact [addJob, delJob, addJob, delJob, addJob] ⟨freshStore, []⟩).map
      (fun s => s.past.map (Moment.handed cbr0Dir)) =
    some ([none, none] ++ some (.ofOctets 10 244 1 1) ::
      ((List.replicate 14 none ++ some (.ofOctets 10 244 1 2) :: List.replicate 14 none) ++
        some (.ofOctets 10 244 1 1) :: List.replicate 5 none)) := by
  decide +kernel

/-- A pod that is added, deleted and added again gets the first address only after the
second one. -/
theorem handed_out_in_rounds_small : ∃ d later second between first earlier,
    (@system Crates.compact cbr0Dir smallAlloc).Reachable
      ⟨⟨freshStore, []⟩, fun _ => none⟩ d ∧
    d.state.past = later ++ second :: (between ++ first :: earlier) ∧
    first.handed cbr0Dir = some (.ofOctets 10 244 1 1) ∧
    second.handed cbr0Dir = some (.ofOctets 10 244 1 1) ∧
    ∃ m ∈ second :: between, lease cbr0Dir m.before (.ofOctets 10 244 1 2) ≠ none := by
  let := Crates.compact
  obtain ⟨s, hserve, hpast⟩ := Option.map_eq_some_iff.mp served_handed
  obtain ⟨later, rest, hlater, -, hrest⟩ := List.map_eq_append_iff.mp hpast
  obtain ⟨second, rest', rfl, hsecond, hrest'⟩ := List.map_eq_cons_iff.mp hrest
  obtain ⟨between, rest₂, rfl, -, hrest₂⟩ := List.map_eq_append_iff.mp hrest'
  obtain ⟨first, earlier, rfl, hfirst, -⟩ := List.map_eq_cons_iff.mp hrest₂
  have hjobs : ∀ j ∈ [addJob, delJob, addJob, delJob, addJob], Admissible cbr0Dir smallAlloc j := by
    intro j hj
    have hconf : j = (j.1, smallConf) := by
      simp only [List.mem_cons, List.not_mem_nil, or_false] at hj
      rcases hj with rfl | rfl | rfl | rfl | rfl <;> rfl
    rw [hconf]
    exact smallConf_admissible j.1
  have hinitial : Initial cbr0Dir
      (⟨⟨freshStore, []⟩, fun _ => none⟩ : Config Recorded ℕ Job FsOp FsRes _) :=
    ⟨fun _ => rfl, rfl, rfl⟩
  have hd := reachable_serve hjobs .here hserve
  exact ⟨_, later, second, between, first, earlier, hd, hlater, hfirst, hsecond,
    handed_out_in_rounds hinitial hd hlater hfirst hsecond (by decide) (by decide) (by decide)
      (by decide)⟩

end FlannelRs.LeaseRounds
