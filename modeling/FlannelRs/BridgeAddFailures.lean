import FlannelRs.HostNetworking
import FlannelRs.LeaseStores

/-!
# Every failure of bridge ADD after the lease releases the lease

Any system call of the plugin may fail. The IPAM plugin it finds is `host-local`, which
has the lease store to itself while the ADD runs and whose file operations may fail too.
-/

namespace FlannelRs.BridgeAddFailures
open InteractionPrograms FileSystem Ipv4Addresses RustText CniTypes Bridge HostNetworking
open LeaseStores

/-- A node: its plugin files, the store, the addresses that were configured in containers,
and the runs of the IPAM plugin with their success, newest first. A run that was not
waited for has none. -/
structure Node where
  files : String → Bool
  fs : Fs
  configured : List (String × Ipv4Addr × ℕ)
  runs : List (String × Option Bool)

def Node.configure (s : Node) (netns : String) (addr : Ipv4Addr) (len : ℕ) : Node :=
  { s with configured := (netns, addr, len) :: s.configured }

section

variable [Crates]

/-- A run of `host-local` by process `p`. -/
def HostLocalRan (p : ℕ) (args : CniArgs) (stdin : String) (fs : Fs) (out : DelegateOutput)
    (fs' : Fs) : Prop :=
  ∃ result, Exec (Fs.MayFail p) fs (HostLocal.run args stdin).run result fs' ∧
    out = pluginOutput result

/-- What a run of the delegate leaves behind, with its output if it was waited for. -/
def Node.Ran (p : ℕ) (args : CniArgs) (stdin : String) (s : Node) (out : Option DelegateOutput)
    (s' : Node) : Prop :=
  ∃ fs', s' = { s with
      fs := fs'
      runs := (args.command, out.map DelegateOutput.success) :: s.runs } ∧
    match out with
    | some out => HostLocalRan p args stdin s.fs out fs'
    | none => fs' = s.fs ∨ ∃ out, HostLocalRan p args stdin s.fs out fs'

/-- How the node answers one system call. -/
def Node.Answers (p : ℕ) (s : Node) : (o : SysOp) → SysRes o → Node → Prop
  | .exec _ args stdin, r, s' => s.Ran p args stdin r.toOption s'
  | .isFile path, r, s' => r = s.files path ∧ s' = s
  | .netlink (some ns) (.addAddress _ addr len), .ok _, s' => s' = s.configure ns addr len
  | _, _, s' => s' = s

/-- The plugin is in one of the directories of `CNI_PATH`. -/
def Node.Has (s : Node) (name cniPath : String) : Prop :=
  ∃ dir ∈ (splitOn ':' cniPath).filter (· ≠ ""), s.files (joinPath dir name) = true

/-- What the commands of the plugin may expect of their requests. -/
def Node.Allows (p : ℕ) (s : Node) : (o : BridgeOp) → BridgeRes o → Node → Prop
  | .runDelegate name args stdin, r, s' =>
      (s.Has name args.path ∧ s.Ran p args stdin r.toOption s') ∨
      (¬ s.Has name args.path ∧ r.toOption = none ∧ s' = s)
  | .configureContainerIface netns _ _ plan _, .ok _, s' =>
      s' = s.configure netns plan.addr plan.len
  | _, _, s' => s' = s

/-- A call that leaves the node as it is. -/
def Silent : SysOp → Prop
  | .exec _ _ _ => False
  | .netlink (some _) (.addAddress _ _ _) => False
  | _ => True

variable {p : ℕ} {s s' : Node} {α β : Type}

theorem Node.Answers.silent {o : SysOp} {r : SysRes o} (ho : Silent o)
    (h : s.Answers p o r s') : s' = s := by
  cases o with
  | exec bin args stdin => exact ho.elim
  | isFile path => exact h.2
  | netlink ns req =>
    cases ns with
    | none => cases req <;> exact h
    | some ns => cases req <;> first | exact ho.elim | exact h
  | _ => exact h

abbrev Wlp (p : ℕ) (post : α → Node → Prop) (prog : SysProgram α) (s : Node) : Prop :=
  wlp (fun s o r s' => s.Answers p o r s') post prog s

/-- A program that leaves the node as it is. -/
def Idle (p : ℕ) (prog : SysProgram α) : Prop := ∀ s, Wlp p (fun _ s' => s' = s) prog s

theorem Idle.ret (a : α) : Idle p (.ret a) := fun _ => rfl

theorem Idle.call {o : SysOp} (ho : Silent o) : Idle p (call o) :=
  fun _ _ _ h => h.silent ho

theorem Idle.bind {prog : SysProgram α} {f : α → SysProgram β} (h : Idle p prog)
    (hf : ∀ a, Idle p (f a)) : Idle p (prog >>= f) := by
  intro s
  refine (h s).bind fun a s' hs => ?_
  obtain rfl := hs
  exact hf a s'

theorem Idle.exceptBind {ε : Type} {prog : ExceptT ε SysProgram α}
    {f : α → ExceptT ε SysProgram β} (h : Idle p prog.run) (hf : ∀ a, Idle p (f a).run) :
    Idle p (prog >>= f).run := by
  refine Idle.bind (f := ExceptT.bindCont f) h fun a => ?_
  cases a with
  | ok a => exact hf a
  | error e => exact Idle.ret _

theorem Idle.map {prog : SysProgram α} (h : Idle p prog) (f : α → β) :
    Idle p (prog >>= fun a => pure (f a)) :=
  h.bind fun _ => Idle.ret _

theorem idle_context {text : String} {x : SysProgram (Except String α)} (h : Idle p x) :
    Idle p (context text x).run :=
  h.map _

theorem idle_plain {x : SysProgram (Except NlError α)} (h : Idle p x) : Idle p (plain x) :=
  h.map _

/-- A netlink request, other than for an address in a container, as the functions make it. -/
theorem idle_netlink {ns : Option String} {req : NlReq} (h : Silent (.netlink ns req)) :
    Idle p (HostNetworking.call (.netlink ns req)) :=
  Idle.call h

omit [Crates] in
theorem silent_host (req : NlReq) : Silent (.netlink none req) := by
  cases req <;> trivial

theorem idle_of_uses {prog : SysProgram α} (h : prog.Uses Silent) : Idle p prog := by
  intro s
  exact h.wlp (R := fun s s' => s' = s) (fun _ => rfl) (fun _ _ _ h h' => h'.trans h)
    (fun _ _ _ _ ho hr => hr.silent ho) s

theorem idle_linkIndex (ns : Option String) (name : String) : Idle p (linkIndex ns name).run :=
  idle_of_uses (uses_linkIndex (by cases ns <;> trivial))

theorem idle_orMissing (text : String) (a : Option α) : Idle p (orMissing text a).run :=
  idle_of_uses (uses_orMissing text a)

theorem Idle.lift {ε : Type} {x : SysProgram α} (h : Idle p x) :
    Idle p (ExceptT.lift x : ExceptT ε SysProgram α).run :=
  h.map _

theorem idle_addRoutes (netns : String) (idx : ℕ) (gw : Option Ipv4Addr)
    (routes : List Ipv4Network) : Idle p (addRoutes netns idx gw routes) :=
  idle_of_uses (uses_addRoutes (fun _ _ _ => trivial) routes)

theorem idle_deleteContainerIface (netns ifname : String) :
    Idle p (deleteContainerIface netns ifname).run := by
  refine Idle.exceptBind (idle_context (Idle.call trivial)) fun hostNs => ?_
  refine Idle.exceptBind (Idle.call (o := .openFile netns) trivial).lift fun opened => ?_
  cases opened with
  | error e => exact Idle.ret _
  | ok contNs =>
    refine Idle.exceptBind (idle_context (Idle.call trivial)) fun _ => ?_
    refine Idle.exceptBind (Idle.call (o := .buildRuntime) trivial) fun _ => ?_
    refine Idle.exceptBind (Idle.lift ?_) fun _ => ?_
    · refine Idle.exceptBind (Idle.call (o := .newConnection (some netns)) trivial) fun _ => ?_
      refine Idle.exceptBind (idle_linkIndex _ ifname) fun found => ?_
      cases found with
      | none => exact Idle.ret _
      | some idx =>
        have hdel : Silent (.netlink (some netns) (.delLink idx)) := trivial
        exact Idle.exceptBind (idle_netlink hdel).lift fun _ => Idle.ret _
    · exact Idle.exceptBind (Idle.call (o := .setns hostNs) trivial).lift fun _ => Idle.ret _

/-- An idle part of a program that may stop with an error. -/
theorem Idle.wlp_bind {ε : Type} {prog : ExceptT ε SysProgram α}
    {f : α → ExceptT ε SysProgram β} {post : Except ε β → Node → Prop} (h : Idle p prog.run)
    (hf : ∀ a, Wlp p post (f a).run s) (herr : ∀ e, post (.error e) s) :
    Wlp p post (prog >>= f).run s := by
  refine wlp.exceptBind (h s) ?_ ?_
  · rintro a _ rfl
    exact hf a
  · rintro e _ rfl
    exact herr e

theorem Idle.wlp_liftBind {ε : Type} {prog : SysProgram α} {f : α → ExceptT ε SysProgram β}
    {post : Except ε β → Node → Prop} (h : Idle p prog) (hf : ∀ a, Wlp p post (f a).run s) :
    Wlp p post ((liftM prog : ExceptT ε SysProgram α) >>= f).run s := by
  refine (h s).liftBind fun a s' hs => ?_
  obtain rfl := hs
  exact hf a

/-- What configuring the container adds to the node, if it succeeds. -/
def Configured (netns : String) (plan : IpPlan) (s : Node) (r : Except String Unit)
    (s' : Node) : Prop :=
  match r with
  | .ok _ => s' = s.configure netns plan.addr plan.len
  | .error _ => s' = s

theorem wlp_configure (netns temp ifname : String) (plan : IpPlan) (defaultRoute : Bool) :
    Wlp p (Configured netns plan s) (configure netns temp ifname plan defaultRoute).run s := by
  have hname : ∀ idx, Silent (.netlink (some netns) (.setName idx ifname)) := fun _ => trivial
  have hup : ∀ idx, Silent (.netlink (some netns) (.setUp idx)) := fun _ => trivial
  refine Idle.wlp_bind (idle_context (Idle.call trivial)) (fun _ => ?_) fun _ => rfl
  refine Idle.wlp_bind (idle_linkIndex _ temp) (fun found => ?_) fun _ => rfl
  refine Idle.wlp_bind (idle_orMissing _ found) (fun idx => ?_) fun _ => rfl
  refine Idle.wlp_bind (idle_context (idle_plain (idle_netlink (hname idx)))) (fun _ => ?_)
    fun _ => rfl
  refine Idle.wlp_bind (idle_context (idle_plain (idle_netlink (hup idx)))) (fun _ => ?_)
    fun _ => rfl
  refine wlp.exceptBind (m := Configured netns plan s) ?_ ?_ fun _ _ h => h
  · intro r s₁ h
    cases r <;> exact h
  · intro _ s₁ h
    obtain rfl : s₁ = s.configure netns plan.addr plan.len := h
    refine (idle_addRoutes netns idx plan.gateway plan.routes).wlp_liftBind fun _ => ?_
    split
    · split
      · exact rfl
      · rename_i g _
        have hroute : Silent (.netlink (some netns)
            (.addRoute (.ofOctets 0 0 0 0) 0 (some g) idx)) := trivial
        exact (idle_netlink hroute).wlp_liftBind fun _ => rfl
    · exact rfl

theorem wlp_configureContainerIface (netns temp ifname : String) (plan : IpPlan)
    (defaultRoute : Bool) :
    Wlp p (Configured netns plan s)
      (configureContainerIface netns temp ifname plan defaultRoute).run s := by
  refine Idle.wlp_bind (idle_context (Idle.call trivial)) (fun hostNs => ?_) fun _ => rfl
  refine Idle.wlp_bind (idle_context (Idle.call trivial)) (fun contNs => ?_) fun _ => rfl
  refine Idle.wlp_bind (idle_context (Idle.call trivial)) (fun _ => ?_) fun _ => rfl
  refine Idle.wlp_bind (idle_context (Idle.call trivial)) (fun _ => ?_) fun _ => rfl
  refine (wlp_configure netns temp ifname plan defaultRoute).liftBind fun res s₁ h => ?_
  exact (Idle.call (o := .setns hostNs) trivial).wlp_liftBind fun _ => h

theorem wlp_findInDirs (name : String) (dirs : List String) :
    Wlp p (fun r s' => s' = s ∧
        (r.isSome ↔ ∃ dir ∈ dirs, s.files (joinPath dir name) = true))
      (findInDirs name dirs) s := by
  induction dirs with
  | nil => exact ⟨rfl, by simp⟩
  | cons dir dirs ih =>
    rintro _ t ⟨rfl, rfl⟩
    cases hfile : t.files (joinPath dir name) with
    | true => exact ⟨rfl, by simp [hfile]⟩
    | false =>
      refine ih.mono fun r s' ⟨hs, hfound⟩ => ⟨hs, ?_⟩
      simpa [hfile] using hfound

theorem wlp_runDelegate (name : String) (args : CniArgs) (stdin : String) :
    Wlp p (fun r s' => s.Allows p (.runDelegate name args stdin) r s')
      (runDelegate name args stdin) s := by
  refine (wlp_findInDirs name _).bind fun found s₁ h => ?_
  obtain ⟨rfl, hfound⟩ := h
  cases found with
  | none => exact .inr ⟨fun h => by simpa using hfound.mpr h, rfl, rfl⟩
  | some bin =>
    intro r s₂ hr
    have hhas : s₁.Has name args.path := hfound.mp rfl
    cases r with
    | ok out => exact .inl ⟨hhas, hr⟩
    | error e => cases e <;> exact .inl ⟨hhas, hr⟩

/-- The modules of the plugin do what its commands may expect. -/
theorem impl_allows (o : BridgeOp) (s : Node) :
    Wlp p (fun r s' => s.Allows p o r s') (impl o) s := by
  cases o with
  | newConnection => exact Idle.call (o := .newConnection none) trivial s
  | ensureBridge name mtu =>
    exact idle_of_uses (uses_ensureBridge (fun req _ => silent_host req) name mtu) s
  | runDelegate name args stdin => exact wlp_runDelegate name args stdin
  | createVeth host peer mtu =>
    exact idle_of_uses (uses_createVeth (fun req _ => silent_host req) (silent_host _) mtu) s
  | openNetns path => exact Idle.call (o := .openFile path) trivial s
  | moveToNetns idx fd => exact idle_context (idle_plain (idle_netlink (silent_host _))) s
  | configureContainerIface netns temp ifname plan defaultRoute =>
    refine (wlp_configureContainerIface netns temp ifname plan defaultRoute).mono ?_
    intro r s' h
    cases r <;> exact h
  | attachHostVeth hostIdx bridgeIdx hairpin =>
    exact idle_of_uses (uses_attachHostVeth (fun req _ => silent_host req) _ _ hairpin) s
  | setBridgeGateway bridgeIdx gw len =>
    exact idle_of_uses (uses_setBridgeGateway (silent_host _)) s
  | enableIpForward =>
    exact (Idle.call (o := .writeFile "/proc/sys/net/ipv4/ip_forward" "1") trivial).bind
      (fun _ => Idle.ret _) s
  | delLink idx => exact (idle_netlink (silent_host _)).bind (fun _ => Idle.ret _) s
  | deleteContainerIface netns ifname => exact idle_deleteContainerIface netns ifname s

abbrev CommandWlp (p : ℕ) (post : α → Node → Prop) (prog : Program BridgeOp BridgeRes α)
    (s : Node) : Prop :=
  wlp (fun s o r s' => s.Allows p o r s') post prog s

/-- The node is the same but for what is configured in containers. -/
def SameStore (s s' : Node) : Prop := s'.files = s.files ∧ s'.fs = s.fs ∧ s'.runs = s.runs

/-- What `wirePod` has done: nothing to the store, and if it succeeds, the address of the
result is configured in the container. -/
def Wired (args : CniArgs) (ipamStdout : String) (s : Node) (r : Except CniError Unit)
    (s' : Node) : Prop :=
  SameStore s s' ∧ (r = .ok () →
    ∃ ipam plan, CniResult.parse ipamStdout = some ipam ∧ ipPlan ipam = .ok plan ∧
      s'.configured = (args.netns, plan.addr, plan.len) :: s.configured)

theorem Wired.error {args : CniArgs} {ipamStdout : String} {e : CniError} (h : SameStore s s') :
    Wired args ipamStdout s (.error e) s' :=
  ⟨h, fun he => by cases he⟩

theorem wlp_orFail_bind {e : CniError} {x : Program BridgeOp BridgeRes (Except String α)}
    {f : α → BridgeProgram β} {post : Except CniError β → Node → Prop}
    (hx : CommandWlp p (fun _ s' => s' = s) x s) (hf : ∀ a, CommandWlp p post (f a).run s)
    (herr : ∀ e, post (.error e) s) : CommandWlp p post (orFail x e >>= f).run s := by
  rw [run_orFail_bind]
  refine hx.bind fun r s' hs => ?_
  obtain rfl := hs
  cases r with
  | ok a => exact hf a
  | error text => exact herr _

/-- A step after which the veth pair is deleted if it fails. -/
theorem wlp_orDelLink_bind {idx : ℕ} {e : CniError}
    {x : Program BridgeOp BridgeRes (Except String α)} {f : α → BridgeProgram β}
    {m : Except String α → Node → Prop} {post : Except CniError β → Node → Prop}
    (hx : CommandWlp p m x s) (hf : ∀ a s', m (.ok a) s' → CommandWlp p post (f a).run s')
    (herr : ∀ e text s', m (.error text) s' → post (.error e) s') :
    CommandWlp p post (orDelLink idx x e >>= f).run s := by
  rw [run_orDelLink_bind]
  refine hx.bind fun r s' hm => ?_
  cases r with
  | ok a => exact hf a s' hm
  | error text =>
    intro _ s₂ hs₂
    obtain rfl : s₂ = s' := hs₂
    exact herr _ text s₂ hm

/-- The steps of `wirePod` from the move of the container end on. -/
theorem wlp_wire {conf : BridgeConf} {args : CniArgs} {ipamStdout tempCont : String}
    {ipam : CniResult} {plan : IpPlan} {hostIdx peerIdx fd bridgeIdx : ℕ}
    {gateway : BridgeProgram Unit} (hipam : CniResult.parse ipamStdout = some ipam)
    (hplan : ipPlan ipam = .ok plan)
    (hgateway : ∀ t, CommandWlp p (fun _ s' => s' = t) gateway.run t) :
    CommandWlp p (Wired args ipamStdout s) (do
      orDelLink hostIdx (ask (.moveToNetns peerIdx fd)) (.new 5 "move veth to netns")
      orDelLink hostIdx (ask (.configureContainerIface args.netns tempCont args.ifname plan
        conf.isDefaultGateway)) (.new 7 "configure container iface")
      orDelLink hostIdx (ask (.attachHostVeth hostIdx bridgeIdx conf.hairpinMode))
        (.new 5 "attach host veth")
      gateway : BridgeProgram Unit).run s := by
  have hsame : SameStore s (s.configure args.netns plan.addr plan.len) := ⟨rfl, rfl, rfl⟩
  refine wlp_orDelLink_bind (m := fun _ s' => s = s') (fun _ _ h => h.symm) ?_ ?_
  · rintro _ _ rfl
    refine wlp_orDelLink_bind (m := Configured args.netns plan s) ?_ ?_ ?_
    · intro r s' h
      cases r <;> exact h
    · rintro _ s₁ rfl
      refine wlp_orDelLink_bind (m := fun _ s' => s.configure args.netns plan.addr plan.len = s')
        (fun _ _ h => h.symm) ?_ ?_
      · rintro _ _ rfl
        refine (hgateway _).mono ?_
        rintro r _ rfl
        exact ⟨hsame, fun _ => ⟨ipam, plan, hipam, hplan, rfl⟩⟩
      · rintro e text _ rfl
        exact .error hsame
    · intro e text s₁ h
      obtain rfl : s₁ = s := h
      exact .error ⟨rfl, rfl, rfl⟩
  · rintro e text _ rfl
    exact .error ⟨rfl, rfl, rfl⟩

theorem wlp_setGateway (bridgeIdx : ℕ) (ipam : CniResult) :
    CommandWlp p (fun _ s' => s' = s) (setGateway bridgeIdx ipam) s := by
  unfold setGateway
  cases bridgeGateway ipam with
  | none => exact fun _ _ h => h
  | some gateway =>
    intro _ s₁ h₁ _ s₂ h₂
    exact Eq.trans h₂ h₁

theorem wlp_wirePod (bridgeIdx : ℕ) (conf : BridgeConf) (args : CniArgs) (ipamStdout : String) :
    CommandWlp p (Wired args ipamStdout s) (wirePod bridgeIdx conf args ipamStdout).run s := by
  rw [wirePod, Program.run_pure_bind]
  cases hipam : CniResult.parse ipamStdout with
  | none => exact .error ⟨rfl, rfl, rfl⟩
  | some ipam =>
    simp only [Program.run_pure_bind]
    cases hplan : ipPlan ipam with
    | error text => exact .error ⟨rfl, rfl, rfl⟩
    | ok plan =>
      refine wlp_orFail_bind (fun _ _ h => h) (fun veth => ?_) fun e => .error ⟨rfl, rfl, rfl⟩
      refine wlp_orFail_bind (fun _ _ h => h) (fun fd => ?_) fun e => .error ⟨rfl, rfl, rfl⟩
      refine wlp_wire hipam hplan fun t => ?_
      by_cases hgw : conf.isGateway
      · rw [if_pos hgw]
        exact wlp.bind (wlp_setGateway bridgeIdx ipam) fun _ _ h => h
      · rw [if_neg hgw]
        exact rfl

/-- What ADD has done to the node: the IPAM plugin did not run, or its ADD failed, or the
pod is wired, or what followed failed and a DEL of the plugin ran. -/
inductive AddOutcome (p : ℕ) (args : CniArgs) (stdin : String) (s : Node) :
    Except CniError String → Node → Prop where
  | notRun {e : CniError} {s' : Node} (same : SameStore s s') : AddOutcome p args stdin s (.error e) s'
  | refused {e : CniError} {s' : Node} {b : Option Bool} (hb : b ≠ some true)
      (runs : s'.runs = (args.command, b) :: s.runs) : AddOutcome p args stdin s (.error e) s'
  | released {e : CniError} {s' : Node} {t u : Node} {stdout : String} {b : Option DelegateOutput}
      (added : s.Ran p args stdin (some ⟨stdout, true⟩) t) (same : SameStore t u)
      (deleted : u.Ran p { args with command := "DEL" } stdin b s') :
      AddOutcome p args stdin s (.error e) s'
  | wired {s' : Node} {t : Node} {stdout : String}
      (added : s.Ran p args stdin (some ⟨stdout, true⟩) t)
      (wired : Wired args stdout t (.ok ()) s') : AddOutcome p args stdin s (.ok stdout) s'

theorem wlp_ipamDel (conf : BridgeConf) (args : CniArgs) (stdin : String)
    (hhas : s.Has conf.ipam.kind args.path) :
    CommandWlp p (fun _ s' => ∃ b, s.Ran p { args with command := "DEL" } stdin b s')
      (ipamDel conf args stdin) s := by
  intro r s' h
  rcases h with ⟨-, hran⟩ | ⟨hnot, -⟩
  · exact ⟨_, hran⟩
  · exact absurd hhas hnot

theorem wlp_cmdAdd (args : CniArgs) (conf : BridgeConf) (stdin : String) :
    CommandWlp p (AddOutcome p args stdin s) (cmdAdd args conf stdin).run s := by
  have hnone : ∀ e, AddOutcome p args stdin s (.error e) s := fun _ => .notRun ⟨rfl, rfl, rfl⟩
  refine wlp_orFail_bind (fun _ _ h => h) (fun _ => ?_) hnone
  refine wlp_orFail_bind (fun _ _ h => h) (fun bridgeIdx => ?_) hnone
  refine wlp.exceptBind (m := fun r s' => s.Allows p (.runDelegate conf.ipam.kind args stdin) r s')
    (fun _ _ h => h) ?_ ?_
  · rintro ⟨stdout, success⟩ t (⟨hhas, hran⟩ | ⟨-, h, -⟩)
    · cases success with
      | false =>
        obtain ⟨fs', rfl, -⟩ := hran
        exact .refused (by simp [Except.toOption]) rfl
      | true =>
        have hkeep : t.Has conf.ipam.kind args.path := by
          obtain ⟨fs', rfl, -⟩ := hran
          exact hhas
        refine (wlp_wirePod bridgeIdx conf args stdout).bind fun r u hwired => ?_
        cases r with
        | ok a => exact .wired hran hwired
        | error e =>
          have hhas' : u.Has conf.ipam.kind args.path := by
            obtain ⟨hfiles, -, -⟩ := hwired.1
            rw [Node.Has, hfiles]
            exact hkeep
          refine (wlp_ipamDel conf args stdin hhas').bind fun _ s' hdel => ?_
          obtain ⟨b, hdel⟩ := hdel
          exact .released hran hwired.1 hdel
    · cases h
  · rintro e t (⟨hhas, fs', rfl, -⟩ | ⟨-, -, rfl⟩)
    · exact .refused (by simp [Except.toOption]) rfl
    · exact .notRun ⟨rfl, rfl, rfl⟩

variable {dir stdin : String} {args : CniArgs} {fs fs' : Fs}

theorem HostLocalRan.added {stdout : String} (hcmd : args.command = "ADD")
    (hdir : LeadsTo stdin dir) (h : HostLocalRan p args stdin fs ⟨stdout, true⟩ fs') :
    ∃ nc alloc ip, HostLocal.allocatorFor nc = .ok alloc ∧
      stdout = (HostLocal.addResult nc alloc ip).toJson ∧
      Added dir (args.containerId, args.ifname) ip fs fs' := by
  obtain ⟨result, hexec, hout⟩ := h
  rw [HostLocal.run_add hcmd] at hexec
  have hadd := hexec.wlp (LeaseStores.wlp_cmdAdd (fun _ _ _ _ h => Fs.losing_of_mayFail h) hdir)
  cases result with
  | error e => cases hout
  | ok out =>
    obtain rfl : stdout = out := congrArg DelegateOutput.stdout hout
    obtain ⟨nc, alloc, ip, -, halloc, -, hstdout, hadded⟩ := hadd
    exact ⟨nc, alloc, ip, halloc, hstdout, hadded⟩

theorem HostLocalRan.deleted {out : DelegateOutput} (hcmd : args.command = "DEL")
    (hdir : LeadsTo stdin dir) (h : HostLocalRan p args stdin fs out fs') (hs : out.success = true) :
    Released dir (args.containerId, args.ifname) fs fs' ∧
      ∀ ip, ¬ Owns dir fs' ip (args.containerId, args.ifname) := by
  obtain ⟨result, hexec, rfl⟩ := h
  rw [HostLocal.run_del hcmd] at hexec
  obtain ⟨hrel, hgone⟩ := hexec.wlp (LeaseStores.wlp_cmdDel (fun _ _ _ _ h => h) hdir)
  cases result with
  | error e => cases hs
  | ok out => exact ⟨hrel, hgone out rfl⟩

/-- A node on which all requests succeed, but for the attachment of the host end to the bridge,
which is answered by `attach`. -/
def reply (attach : Except NlError Unit) (ns : Option String) :
    (req : NlReq) → SysRes (.netlink ns req)
  | .getLink _ => .ok (some 2)
  | .setController _ _ => attach
  | .addBridge _ => .ok ()
  | .addVeth _ _ => .ok ()
  | .setMtu _ _ => .ok ()
  | .setUp _ => .ok ()
  | .setName _ _ => .ok ()
  | .setNs _ _ => .ok ()
  | .delLink _ => .ok ()
  | .addAddress _ _ _ => .ok ()
  | .addRoute _ _ _ _ => .ok ()

def Node.afterNetlink (s : Node) : Option String → NlReq → Node
  | some ns, .addAddress _ addr len => s.configure ns addr len
  | _, _ => s

def perform (attach : Except NlError Unit) : (o : SysOp) → Node → Option (SysRes o × Node)
  | .exec _ args stdin, s =>
    ((HostLocal.run args stdin).run.run (Fs.perform 0) s.fs).map fun r =>
      (.ok (pluginOutput r.1), { s with
        fs := r.2
        runs := (args.command, some (pluginOutput r.1).success) :: s.runs })
  | .isFile path, s => some (s.files path, s)
  | .netlink ns req, s => some (reply attach ns req, s.afterNetlink ns req)
  | .newConnection _, s => some (.ok (), s)
  | .openFile _, s => some (.ok 3, s)
  | .setns _, s => some (.ok (), s)
  | .buildRuntime, s => some (.ok (), s)
  | .writeFile _ _, s => some (.ok (), s)

theorem perform_answers {attach : Except NlError Unit} {o : SysOp} {r : SysRes o}
    (h : perform attach o s = some (r, s')) : s.Answers 0 o r s' := by
  cases o with
  | exec bin args stdin =>
    obtain ⟨⟨result, fs'⟩, hrun, he⟩ := Option.map_eq_some_iff.mp h
    obtain ⟨rfl, rfl⟩ := Prod.mk.inj he
    refine ⟨fs', rfl, result, ?_, rfl⟩
    exact Program.exec_of_run (fun _ _ _ _ h => .inl (Fs.perform_answers h)) hrun
  | isFile path =>
    obtain ⟨rfl, rfl⟩ := Prod.mk.inj (Option.some.inj h)
    exact ⟨rfl, rfl⟩
  | netlink ns req =>
    obtain ⟨rfl, rfl⟩ := Prod.mk.inj (Option.some.inj h)
    cases ns <;> cases req <;> exact rfl
  | _ =>
    obtain ⟨rfl, rfl⟩ := Prod.mk.inj (Option.some.inj h)
    exact rfl

end

def freshNode : Node where
  files path := path = "/opt/cni/bin/host-local"
  fs := ⟨fun _ => none, fun _ => none⟩
  configured := []
  runs := []

def podArgs : CniArgs := ⟨"ADD", "c1", "/proc/1/ns/net", "eth0", "", "/opt/cni/bin"⟩

def podBridgeConf : BridgeConf := ⟨"", "cbr0", true, true, false, some 1450, ⟨"host-local"⟩⟩

abbrev cbr0Dir : String := "/var/lib/cni/networks/cbr0"

def podAdd (attach : Except NlError Unit) : Option (Except CniError String × Node) :=
  ((@Bridge.cmdAdd Crates.compact podArgs podBridgeConf cbr0Conf).run.interpret impl).run
    (@perform Crates.compact attach) freshNode

end FlannelRs.BridgeAddFailures
