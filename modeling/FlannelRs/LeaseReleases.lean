import FlannelRs.LeaseFailures

/-!
# What a successful DEL of `host-local` leaves in the store

Any file operation may fail. A lease whose file cannot be read is taken for one that names
nobody, and is passed over.
-/

namespace FlannelRs.LeaseReleases
open InteractionPrograms FileSystem Ipv4Addresses RustText CniTypes HostLocal LeaseStores
open LeaseFailures (podArgs cbr0Dir cbr0Conf_parse cbr0Conf_leadsTo)

variable {lost : String × String → Prop} {p : ℕ} {dir : String} {s s' : Fs} {o : Attachment}

/-- Of the leases of `o` those stay whose files were lost. -/
theorem owns_after_iff (h : Dropped dir (SeemsOf lost dir o) s s')
    (hnone : NoneLeft dir (SeemsOf lost dir o) s') (ip : Ipv4Addr) :
    Owns dir s' ip o ↔ Owns dir s ip o ∧ lost (dir, ip.toString) ∧ o ≠ ("", "") := by
  constructor
  · rintro ⟨content, hl, ho⟩
    have hseems := hnone ip content hl
    have hlost : lost (dir, ip.toString) := by
      by_contra hread
      exact hseems (.inr ⟨hread, ho⟩)
    exact ⟨⟨content, h.lease hl, ho⟩, hlost, fun he => hseems (.inl ⟨hlost, he⟩)⟩
  · rintro ⟨⟨content, hl, ho⟩, hlost, hne⟩
    rcases h ip with hsame | ⟨⟨_, -, ⟨-, he⟩ | ⟨hread, -⟩⟩, -⟩
    · exact ⟨content, hsame.trans hl, ho⟩
    · exact absurd he hne
    · exact absurd hlost hread

theorem exec_cmdDel [Crates] {args : CniArgs} {stdin out : String} (hdir : LeadsTo stdin dir)
    (h : Exec (Fs.Losing lost p) s (cmdDel args stdin).run (.ok out) s') (ip : Ipv4Addr) :
    Owns dir s' ip (args.containerId, args.ifname) ↔
      Owns dir s ip (args.containerId, args.ifname) ∧ lost (dir, ip.toString) ∧
        (args.containerId, args.ifname) ≠ ("", "") := by
  obtain ⟨hdropped, hnone⟩ := h.wlp (wlp_cmdDel_losing (fun _ _ _ _ h => h) hdir)
  exact owns_after_iff hdropped (hnone out rfl) ip

/-- Whatever the store and whatever fails, a DEL that succeeds frees all leases of its attachment
exactly if none of their files was lost, or if the attachment has no name at all. -/
theorem del_frees_iff [Crates] (lost : String × String → Prop) (p : ℕ) (s s' : Fs)
    (args : CniArgs) (stdin dir out : String) (hdir : LeadsTo stdin dir)
    (h : Exec (Fs.Losing lost p) s (cmdDel args stdin).run (.ok out) s') :
    (∀ ip, ¬ Owns dir s' ip (args.containerId, args.ifname)) ↔
      (args.containerId, args.ifname) = ("", "") ∨
        ∀ ip, Owns dir s ip (args.containerId, args.ifname) → ¬ lost (dir, ip.toString) := by
  simp only [exec_cmdDel hdir h, not_and, ne_eq, not_not]
  constructor
  · intro hfreed
    refine or_iff_not_imp_left.mpr fun hne ip howns hlost => ?_
    exact hne (hfreed ip howns hlost)
  · rintro (he | hread) ip howns hlost
    · exact he
    · exact absurd hlost (hread ip howns)

/-- Answers as `Fs.perform`, but for the reads that are lost. -/
def performLosing (lost : String × String → Prop) [DecidablePred lost] (p : ℕ) :
    (o : FsOp) → Fs → Option (FsRes o × Fs)
  | .readToString dir name, s =>
    if lost (dir, name) then some (.error ⟨"Input/output error (os error 5)"⟩, s)
    else s.perform p (.readToString dir name)
  | o, s => s.perform p o

theorem performLosing_losing [DecidablePred lost] {o : FsOp} {r : FsRes o}
    (h : performLosing lost p o s = some (r, s')) : s.Losing lost p o r s' := by
  cases o with
  | readToString dir name =>
    by_cases hlost : lost (dir, name)
    · have hr : performLosing lost p (.readToString dir name) s =
          some (.error ⟨"Input/output error (os error 5)"⟩, s) := if_pos hlost
      obtain ⟨rfl, rfl⟩ := Prod.mk.inj (Option.some.inj (hr.symm.trans h))
      exact .inl ⟨hlost, ⟨_, rfl⟩, rfl⟩
    · have hr : performLosing lost p (.readToString dir name) s =
          s.perform p (.readToString dir name) := if_neg hlost
      exact .inr ⟨hlost, Fs.perform_answers (hr.symm.trans h)⟩
  | _ => exact .inl (Fs.perform_answers h)

def podLease : Ipv4Addr := .ofOctets 10 244 1 2

def oneLease : Fs where
  dirs dir :=
    if dir = cbr0Dir then
      some ((∅ : Dir).insert podLease.toString (Attachment.file ("c1", "eth0")))
    else none
  locks _ := none

theorem oneLease_owns : Owns cbr0Dir oneLease podLease ("c1", "eth0") :=
  ⟨Attachment.file ("c1", "eth0"), by decide +kernel, by decide +kernel⟩

def podDel : CniArgs := { podArgs with command := "DEL" }

/-- The file of the lease cannot be read. -/
def LeaseLost (f : String × String) : Prop := f = (cbr0Dir, podLease.toString)

instance : DecidablePred LeaseLost :=
  fun f => inferInstanceAs (Decidable (f = (cbr0Dir, podLease.toString)))

theorem cmdDel_eq : @cmdDel Crates.compact podDel cbr0Conf =
    (storeFor ⟨"", "cbr0", ⟨"host-local", [[⟨"10.244.1.0/24", none⟩]], [], none⟩⟩ >>=
      fun store => withLock store do
        orError (store.release "c1" "eth0") (.new 5 "release lease")
        return "") := by
  let := Crates.compact
  unfold cmdDel load
  rw [cbr0Conf_parse]
  rfl

theorem exec_del [DecidablePred lost]
    (h : ((@cmdDel Crates.compact podDel cbr0Conf).run.run (performLosing lost 0) oneLease).map
      (fun r => r.1.toOption) = some (some "")) :
    ∃ s', Exec (Fs.Losing lost 0) oneLease (@cmdDel Crates.compact podDel cbr0Conf).run
      (.ok "") s' := by
  obtain ⟨⟨r, s'⟩, hrun, hok⟩ := Option.map_eq_some_iff.mp h
  cases r with
  | error e => cases hok
  | ok out =>
    obtain rfl := Option.some.inj hok
    have hanswers : ∀ o t r t', performLosing lost 0 o t = some (r, t') →
        t.Losing lost 0 o r t' := fun _ _ _ _ h => performLosing_losing h
    exact ⟨s', Program.exec_of_run hanswers hrun⟩

theorem del_frees_one_lease : ∃ s', Exec (Fs.Losing (fun _ => False) 0) oneLease
      (@cmdDel Crates.compact podDel cbr0Conf).run (.ok "") s' ∧
    ∀ ip, ¬ Owns cbr0Dir s' ip ("c1", "eth0") := by
  obtain ⟨s', h⟩ : ∃ s', Exec (Fs.Losing (fun _ => False) 0) oneLease
      (@cmdDel Crates.compact podDel cbr0Conf).run (.ok "") s' := by
    apply exec_del
    rw [cmdDel_eq]
    decide +kernel
  refine ⟨s', h, ?_⟩
  exact (@del_frees_iff Crates.compact _ 0 _ _ podDel cbr0Conf cbr0Dir "" cbr0Conf_leadsTo h).mpr
    (.inr fun _ _ => id)

/-- The DEL says that it is done, and the lease is still there. -/
theorem del_keeps_lost_lease : ∃ s',
    Exec (Fs.Losing LeaseLost 0) oneLease (@cmdDel Crates.compact podDel cbr0Conf).run
      (.ok "") s' ∧ Owns cbr0Dir s' podLease (podDel.containerId, podDel.ifname) := by
  obtain ⟨s', h⟩ : ∃ s', Exec (Fs.Losing LeaseLost 0) oneLease
      (@cmdDel Crates.compact podDel cbr0Conf).run (.ok "") s' := by
    apply exec_del
    rw [cmdDel_eq]
    decide +kernel
  refine ⟨s', h, ?_⟩
  exact (@exec_cmdDel _ _ _ _ _ Crates.compact _ _ _ cbr0Conf_leadsTo h podLease).mpr
    ⟨oneLease_owns, rfl, by decide +kernel⟩

end FlannelRs.LeaseReleases
