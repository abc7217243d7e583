import FlannelRs.LeaseTurns
import FlannelRs.SerialProgress

/-!
# No `host-local` process is stuck

A process waits for the lock of its directory only, and the one that has it can always go on.
-/

namespace FlannelRs.LeaseProgress
open InteractionPrograms ProcessPools SerialRuns SerialProgress FileSystem Ipv4Addresses RustText
open CniTypes HostLocal LeaseTurns
open ExclusiveLeases (Job podJob)
open LeaseFailures (cursorFile freshStore cbr0Dir cbr0Conf_parse)

variable {fails : FsOp → Prop} {p : ℕ} {dir : String} {s s' : Fs}

theorem answered_of_perform {o : FsOp} (h : (Fs.perform p o s).isSome) :
    ∃ r s', Faulty fails p s o r s' := by
  obtain ⟨⟨r, s'⟩, hr⟩ := Option.isSome_iff_exists.mp h
  exact ⟨r, s', .inl (Fs.perform_answers hr)⟩

theorem answered_readToString (d name : String) :
    ∃ r s', Faulty fails p s (.readToString d name) r s' := by
  apply answered_of_perform
  simp only [Fs.perform]
  split <;> rfl

/-- The operations of an ADD under the lock. -/
def Adds (dir : String) : FsOp → Prop
  | .readDir d => d = dir
  | .readToString d _ => d = dir
  | .write d _ _ => d = dir
  | _ => False

theorem adds_answered {o : FsOp} (ho : Adds dir o) (hmade : Made dir s) :
    (∃ r s', Faulty fails p s o r s') ∧ ∀ r s', Faulty fails p s o r s' → Made dir s' := by
  cases o with
  | readDir d =>
    obtain rfl : d = dir := ho
    refine ⟨answered_of_perform ?_, fun r s' hr => ?_⟩
    · rwa [Fs.perform, Option.isSome_map]
    · obtain ⟨-, -, -, -, -, rfl⟩ | ⟨-, -, rfl⟩ := hr <;> exact hmade
  | readToString d name =>
    refine ⟨answered_readToString d name, fun r s' hr => ?_⟩
    obtain ⟨rfl, -⟩ | ⟨-, h⟩ := hr
    · exact hmade
    · exact h.elim
  | write d name text =>
    obtain rfl : d = dir := ho
    refine ⟨answered_of_perform ?_, fun r s' hr => ?_⟩
    · rwa [Fs.perform, Option.isSome_map]
    · obtain ⟨_, -, -, rfl⟩ | ⟨-, -, rfl | ⟨_, _, -, rfl⟩⟩ := hr
      · exact made_setDir _
      · exact hmade
      · exact made_setDir _
  | _ => exact ho.elim

theorem live_addLocked [Crates] {args : CniArgs} {nc : NetConf} {alloc : Allocator}
    (hmade : Made dir s) : Live (Faulty fails p) (addLocked args nc alloc ⟨dir⟩).run s :=
  live_of_uses (P := Adds dir) (fun _ ho _ hmade => adds_answered ho hmade)
    (uses_addLocked_of rfl rfl (fun _ _ => rfl) fun _ => rfl) hmade

/-- An entry of the directory can be removed, and the other entries stay. -/
theorem live_releaseEntry {d : Dir} (hd : s.dirs dir = some d) {name : String} (hname : name ∈ d)
    (containerId ifname : String) :
    Live (Faulty fails p) ((Store.mk dir).releaseEntry containerId ifname name).run s ∧
      wlp (Faulty fails p) (fun _ s' => ∃ d', s'.dirs dir = some d' ∧ ∀ x ∈ d, x ≠ name → x ∈ d')
        ((Store.mk dir).releaseEntry containerId ifname name).run s := by
  have hsame : ∃ d', s.dirs dir = some d' ∧ ∀ x ∈ d, x ≠ name → x ∈ d' :=
    ⟨d, hd, fun x hx _ => hx⟩
  have hread : Live (Faulty fails p) ((Store.mk dir).readOrDefault name) s := by
    refine ⟨answered_readToString dir name, fun r s' _ => ?_⟩
    cases r <;> trivial
  have hkeeps : wlp (Faulty fails p) (fun _ s' => s' = s)
      ((Store.mk dir).readOrDefault name) s := by
    intro r s' hr
    obtain ⟨rfl, -⟩ | ⟨-, h⟩ := hr
    · cases r <;> rfl
    · exact h.elim
  unfold Store.releaseEntry
  cases parseIpv4 name with
  | none => exact ⟨trivial, hsame⟩
  | some ip =>
    refine ⟨Live.liftBind hread hkeeps ?_, wlp.liftBind hkeeps ?_⟩
    · rintro content _ rfl
      by_cases hmatch : (lines content)[0]?.getD "" = containerId ∧
          (lines content)[1]?.getD "" = ifname
      · rw [if_pos hmatch]
        refine ⟨answered_of_perform ?_, fun r _ _ => ?_⟩
        · simp [Fs.perform, hd, hname]
        · cases r <;> trivial
      · rw [if_neg hmatch]
        trivial
    · rintro content _ rfl
      by_cases hmatch : (lines content)[0]?.getD "" = containerId ∧
          (lines content)[1]?.getD "" = ifname
      · rw [if_pos hmatch]
        intro r s' hr
        obtain ⟨_, hd', -, rfl, rfl⟩ | ⟨-, ⟨io, rfl⟩, rfl⟩ := hr
        · obtain rfl := Option.some.inj (hd.symm.trans hd')
          refine ⟨_, Fs.setDir_dirs_self .., fun x hx hne => ?_⟩
          exact AList.mem_erase.mpr ⟨hne, hx⟩
        · exact hsame
      · rw [if_neg hmatch]
        exact hsame

/-- The entries of the listing are removed while nobody else removes any. -/
theorem live_releaseLoop (containerId ifname : String) {names : List String}
    (hnodup : names.Nodup) {s : Fs} {d : Dir} (hd : s.dirs dir = some d)
    (hnames : ∀ x ∈ names, x ∈ d) :
    Live (Faulty fails p) (names.forM ((Store.mk dir).releaseEntry containerId ifname)).run s := by
  induction names generalizing s d with
  | nil => trivial
  | cons name rest ih =>
    obtain ⟨hnot, hrest⟩ := List.nodup_cons.mp hnodup
    have hentry : Live (Faulty fails p) _ s ∧ wlp (Faulty fails p) _ _ s :=
      live_releaseEntry hd (hnames name (.head _)) containerId ifname
    refine Live.exceptBind hentry.1 hentry.2 ?_
    rintro - s₁ ⟨d₁, hd₁, hmem⟩
    refine ih hrest hd₁ fun x hx => hmem x (hnames x (.tail _ hx)) ?_
    rintro rfl
    exact hnot hx

theorem live_released (hmade : Made dir s) (args : CniArgs) :
    Live (Faulty fails p) (released args dir).run s := by
  have hrelease : Live (Faulty fails p)
      ((Store.mk dir).release args.containerId args.ifname).run s := by
    obtain ⟨d, hd⟩ := Option.isSome_iff_exists.mp hmade
    refine ⟨answered_of_perform ?_, fun r s' hr => ?_⟩
    · rwa [Fs.perform, Option.isSome_map]
    · obtain ⟨_, names, hd', hnames, rfl, rfl⟩ | ⟨-, ⟨io, rfl⟩, rfl⟩ := hr
      · obtain rfl := Option.some.inj (hd.symm.trans hd')
        refine live_releaseLoop _ _ (hnames.nodup_iff.mpr d.keys_nodup) hd fun x hx => ?_
        exact AList.mem_keys.mpr (hnames.mem_iff.mp hx)
      · trivial
  rw [released, run_orError_bind]
  refine hrelease.bind (wlp_true _ s) fun r s' _ => ?_
  cases r <;> trivial

theorem made_setLock (h : Made dir s) (name : String) (holder : Option ℕ) :
    Made dir (s.setLock dir name holder) := h

theorem live_holding {body : FsProgram Outcome} (h : Live (Faulty fails p) body s) :
    Live (Faulty fails p) (holding dir body) s := by
  refine h.bind (wlp_true _ s) fun r s' _ => ?_
  exact ⟨⟨.ok (), _, .inl ⟨rfl, rfl⟩⟩, fun _ _ _ => trivial⟩

theorem live_guarded {e e' : CniError} {body : FsProgram Outcome}
    (hlock : s.locks (dir, "lock") = none)
    (hbody : ∀ s', Made dir s' → Live (Faulty fails p) body s') :
    Live (Faulty fails p) (guarded dir e e' body) s := by
  refine ⟨⟨.ok (), _, .inl ⟨rfl, rfl⟩⟩, fun r s₁ h₁ => ?_⟩
  obtain ⟨rfl, rfl⟩ | ⟨-, ⟨io, rfl⟩, rfl⟩ := h₁
  · refine ⟨⟨.ok (), _, .inl ⟨_, Fs.setDir_dirs_self .., rfl, rfl⟩⟩, fun r s₂ h₂ => ?_⟩
    obtain ⟨d, -, rfl, rfl⟩ | ⟨-, ⟨io, rfl⟩, rfl⟩ := h₂
    · refine ⟨⟨.ok (), _, .inl ⟨hlock, rfl, rfl⟩⟩, fun r s₃ h₃ => ?_⟩
      obtain ⟨-, rfl, rfl⟩ | ⟨-, ⟨io, rfl⟩, rfl⟩ := h₃
      · exact live_holding (hbody _ (made_setLock (made_setDir _) "lock" (some p)))
      · trivial
    · trivial
  · trivial

variable [Crates]

theorem unblocked (dir : String) (fails : FsOp → Prop) : Unblocked (discipline dir fails) where
  live p j t hturns hfree := by
    change Live (Faulty fails p) (HostLocal.run j.1 j.2).run t
    rcases run_cases hturns with ⟨a, hcode⟩ | ⟨e, e', nc, alloc, hcode⟩ | ⟨e, e', hcode⟩
    · rw [hcode]
      trivial
    · rw [hcode]
      exact live_guarded hfree.lock fun s' hmade => live_addLocked hmade
    · rw [hcode]
      exact live_guarded hfree.lock fun s' hmade => live_released hmade j.1
  answered p j o next s t hout hfree := by
    cases hout with
    | starting _ _ hprog =>
      unfold guarded at hprog
      cases hprog
      exact ⟨.ok (), _, .inl ⟨rfl, rfl⟩⟩
    | making _ _ hprog hmade =>
      unfold LeaseTurns.making at hprog
      cases hprog
      obtain ⟨d, hd⟩ := Option.isSome_iff_exists.mp hmade
      exact ⟨.ok (), _, .inl ⟨d, hd, rfl, rfl⟩⟩
    | locking _ _ hprog _ =>
      unfold LeaseTurns.locking at hprog
      cases hprog
      exact ⟨.ok (), _, .inl ⟨hfree.lock, rfl, rfl⟩⟩
    | returned hprog _ => cases hprog
  symm p s t h := ⟨SameFiles.symm h.files, h.lock', h.lock, h.opened', h.opened⟩

/-- Wherever any number of processes have come to, and whatever file operations may fail, each
ADD and DEL among them can still come to its end. The only other process that has to go on for
this is the one that has the lock, and then the lock is free. -/
theorem never_stuck (dir : String) (fails : FsOp → Prop)
    {c d : Config (Book Fs ℕ Job Outcome) ℕ Job FsOp FsRes Outcome} (idle : ∀ p, c.busy p = none)
    (hnew : c.state.past = []) (hfree : c.state.state.locks (dir, "lock") = none)
    (h : (discipline dir fails).system.Reachable c d) {p : ℕ} {j : Job} {prog : FsProgram Outcome}
    (hbusy : d.busy p = some (j, prog)) (hturns : watches dir j = false) :
    ∃ e q, (discipline dir fails).system.Reachable d e ∧ e.busy p = none ∧
      e.state.state.locks (dir, "lock") = none ∧
      (q = p ∨ d.state.state.locks (dir, "lock") = some q) ∧
      ∀ x, x ≠ p → x ≠ q → e.busy x = d.busy x := by
  obtain ⟨order, waiting, pending, holder, t, hordered⟩ :=
    ordered_of_reachable (lawful dir fails) idle hnew (Free.self hfree) h
  obtain ⟨e, q, u, he, hend, hfree', hholder, hothers⟩ :=
    exists_end (lawful dir fails) (unblocked dir fails) hordered hbusy hturns
  refine ⟨e, q, he, hend, Free.lock hfree', hholder.imp_right ?_, hothers⟩
  rintro ⟨v, hheld⟩
  exact Held.lock hheld

/-- A busy process gets an answer. -/
theorem reachable_answered {c d : Config (Book Fs ℕ Job Outcome) ℕ Job FsOp FsRes Outcome}
    (h : (discipline dir fails).system.Reachable c d) {j : Job} {o : FsOp}
    {next : FsRes o → FsProgram Outcome} (hbusy : d.busy p = some (j, .request o next))
    {r : FsRes o} (hr : d.state.state.Answers p o r s') :
    (discipline dir fails).system.Reachable c
      (d.goOn p ⟨s', d.state.opened, d.state.past⟩ (some (j, next r))) :=
  h.step (.request hbusy ⟨.inl hr, rfl⟩)

/-- A process opens the directory and comes to the lock. -/
theorem reachable_locking {c d : Config (Book Fs ℕ Job Outcome) ℕ Job FsOp FsRes Outcome}
    (h : (discipline dir fails).system.Reachable c d) {j : Job} {e e' : CniError}
    {body : FsProgram Outcome} (hbusy : d.busy p = some (j, guarded dir e e' body)) :
    ∃ d', (discipline dir fails).system.Reachable c d' ∧
      d'.busy p = some (j, locking dir e' body) ∧ (∀ q, q ≠ p → d'.busy q = d.busy q) ∧
      d'.state.state.locks = d.state.state.locks := by
  let s := d.state.state
  let made := s.setDir dir ((s.dirs dir).getD ∅)
  have hmade : s.Answers p (.createDirAll dir) (.ok ()) made := ⟨rfl, rfl⟩
  have hopened : made.Answers p (.createFile dir "lock") (.ok ())
      (made.setDir dir (((s.dirs dir).getD ∅).insert "lock" (.text ""))) :=
    ⟨_, Fs.setDir_dirs_self .., rfl, rfl⟩
  have h₁ := reachable_answered h hbusy hmade
  have h₂ := reachable_answered h₁ (Config.goOn_busy_self ..) hopened
  refine ⟨_, h₂, Config.goOn_busy_self .., fun q hq => ?_, rfl⟩
  rw [Config.goOn_busy_other _ hq, Config.goOn_busy_other _ hq]

/-- Two processes come to the lock that nobody has, and process `q` takes it. -/
theorem reachable_waiting (fails : FsOp → Prop) {q : ℕ} (hpq : p ≠ q) {i j : Job} {e e' f f' : CniError}
    {body body' : FsProgram Outcome} (hi : (HostLocal.run i.1 i.2).run = guarded dir e e' body)
    (hj : (HostLocal.run j.1 j.2).run = guarded dir f f' body')
    (hfree : s.locks (dir, "lock") = none) :
    ∃ d, (discipline dir fails).system.Reachable ⟨⟨s, fun _ => 0, []⟩, fun _ => none⟩ d ∧
      d.busy p = some (i, locking dir e' body) ∧ d.state.state.locks (dir, "lock") = some q := by
  have hp : (discipline dir fails).system.Reachable ⟨⟨s, fun _ => 0, []⟩, fun _ => none⟩ _ :=
    .step .here (.start (p := p) (j := i) rfl ⟨trivial, rfl⟩)
  obtain ⟨d₁, h₁, hbusy₁, hothers₁, hlocks₁⟩ := reachable_locking (p := p) hp
    ((Config.goOn_busy_self ..).trans (congrArg (fun code => some (i, code)) hi))
  have hidle : d₁.busy q = none := by
    rw [hothers₁ q hpq.symm, Config.goOn_busy_other _ hpq.symm]
  have hq := h₁.step (.start (p := q) (j := j) hidle ⟨trivial, rfl⟩)
  obtain ⟨d₂, h₂, hbusy₂, hothers₂, hlocks₂⟩ := reachable_locking (p := q) hq
    ((Config.goOn_busy_self ..).trans (congrArg (fun code => some (j, code)) hj))
  have hunlocked : d₂.state.state.locks (dir, "lock") = none := by
    rw [hlocks₂, Config.goOn_state, hlocks₁]
    exact hfree
  have hlocked : d₂.state.state.Answers q (.lockExclusive dir "lock") (.ok ())
      (d₂.state.state.setLock dir "lock" (some q)) := ⟨hunlocked, rfl, rfl⟩
  refine ⟨_, reachable_answered h₂ hbusy₂ hlocked, ?_, Fs.setLock_locks_self ..⟩
  rw [Config.goOn_busy_other _ hpq, hothers₂ p hpq, Config.goOn_busy_other _ hpq, hbusy₁]

/-- While somebody has the lock and no operation fails, a process before the lock cannot go on. -/
theorem no_step_of_locked {d e : Config (Book Fs ℕ Job Outcome) ℕ Job FsOp FsRes Outcome}
    {j i : Job} {error : CniError} {body : FsProgram Outcome}
    (hbusy : d.busy p = some (j, locking dir error body))
    (hlock : d.state.state.locks (dir, "lock") ≠ none) :
    ¬ (discipline dir fun _ => False).system.Step p i d e := by
  intro h
  cases h with
  | start idle act =>
    rw [hbusy] at idle
    cases idle
  | request turn act =>
    rw [hbusy, locking] at turn
    cases turn
    obtain ⟨⟨hfree, -⟩ | ⟨h, -⟩, -⟩ := act
    · exact hlock hfree
    · exact h
  | finish done act =>
    rw [hbusy] at done
    cases done

omit [Crates] in
theorem guarded_of_cbr0 {j : Job} (hadd : j.1.command = "ADD") (hconf : j.2 = cbr0Conf) :
    ∃ e e' body, (@HostLocal.run Crates.compact j.1 j.2).run = guarded cbr0Dir e e' body := by
  let := Crates.compact
  have hok : (allocatorFor ⟨"", "cbr0", ⟨"host-local", [[⟨"10.244.1.0/24", none⟩]], [],
      none⟩⟩).isOk = true := by decide +kernel
  cases halloc : allocatorFor ⟨"", "cbr0", ⟨"host-local", [[⟨"10.244.1.0/24", none⟩]], [],
      none⟩⟩ with
  | error e =>
    rw [halloc] at hok
    cases hok
  | ok alloc =>
    rw [HostLocal.run_add hadd, hconf]
    exact ⟨_, _, _, run_cmdAdd (load_eq_ok_iff.mpr cbr0Conf_parse) halloc (by decide +kernel)⟩

omit [Crates] in
/-- An ADD waits for the lock, which the ADD of another process has. -/
theorem never_stuck_waiting : ∃ d e,
    (@discipline Crates.compact cbr0Dir fun _ => False).system.Reachable
      ⟨⟨freshStore, fun _ => 0, []⟩, fun _ => none⟩ d ∧
    d.busy 0 ≠ none ∧ d.state.state.locks (cbr0Dir, "lock") = some 1 ∧
    (∀ j x, ¬ (@discipline Crates.compact cbr0Dir fun _ => False).system.Step 0 j d x) ∧
    (@discipline Crates.compact cbr0Dir fun _ => False).system.Reachable d e ∧
    e.busy 0 = none ∧ e.state.state.locks (cbr0Dir, "lock") = none ∧
    ∀ x, x ≠ 0 → x ≠ 1 → e.busy x = d.busy x := by
  let := Crates.compact
  obtain ⟨_, _, _, hfirst⟩ := guarded_of_cbr0 (j := podJob) rfl rfl
  obtain ⟨_, _, _, hlast⟩ := guarded_of_cbr0 (j := lastPodJob) rfl rfl
  obtain ⟨d, hd, hwaits, hlock⟩ :=
    reachable_waiting (fun _ => False) Nat.zero_ne_one hfirst hlast (s := freshStore) rfl
  have hturns : watches cbr0Dir podJob = false := by decide +kernel
  obtain ⟨e, q, he, hend, hfree, hq, hothers⟩ :=
    never_stuck cbr0Dir _ (fun _ => rfl) rfl rfl hd hwaits hturns
  have hstuck : ∀ j x, ¬ (discipline cbr0Dir fun _ => False).system.Step 0 j d x := fun j x =>
    no_step_of_locked hwaits (by rw [hlock]; exact Option.some_ne_none _)
  refine ⟨d, e, hd, busy_ne_none hwaits, hlock, hstuck, he, hend, hfree, fun x hx₀ hx₁ => ?_⟩
  apply hothers x hx₀
  rcases hq with rfl | hq
  · exact hx₀
  · rw [hlock] at hq
    exact fun hx => hx₁ (hx.trans (Option.some.inj hq).symm)

end FlannelRs.LeaseProgress
