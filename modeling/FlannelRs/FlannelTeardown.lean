import FlannelRs.BridgeAddFailures
import FlannelRs.DelegateIpam
import FlannelRs.LeaseRequests

/-!
# Teardown does not depend on the environment file

Two DELs of the plugin that differ only in what they read of `subnet.env`.
-/

namespace FlannelRs.FlannelTeardown
open InteractionPrograms FileSystem Ipv4Addresses RustText JsonValues JsonTexts CniTypes Bridge
open HostNetworking FlannelPlugin DelegateIpam HostLocal LeaseStores LeaseRequests BridgeAddFailures

section

variable {conf : FlannelConf} (env₁ env₂ : SubnetEnv)

theorem lookup_insertAbsent_congr {k key : String} (value₁ value₂ : Json) {d₁ d₂ : JsonMap}
    (hk : k ≠ key) (h : d₁.lookup k = d₂.lookup k) :
    (insertAbsent key value₁ d₁).lookup k = (insertAbsent key value₂ d₂).lookup k := by
  rw [lookup_insertAbsent_ne hk, lookup_insertAbsent_ne hk, h]

theorem typedDelegate_congr {k : String} (hmasq : k ≠ "ipMasq") (hmtu : k ≠ "mtu") :
    (typedDelegate conf env₁).lookup k = (typedDelegate conf env₂).lookup k := by
  unfold typedDelegate
  apply lookup_insertAbsent_congr _ _ hmtu
  apply lookup_insertAbsent_congr _ _ hmasq
  rfl

theorem delegateType_congr :
    delegateType (typedDelegate conf env₁) = delegateType (typedDelegate conf env₂) := by
  rw [delegateType, delegateType, typedDelegate_congr env₁ env₂ (by decide) (by decide)]

/-- Only three entries depend on the environment. -/
theorem buildDelegate_congr {k : String} (hmasq : k ≠ "ipMasq") (hmtu : k ≠ "mtu")
    (hipam : k ≠ "ipam") :
    (buildDelegate conf env₁).lookup k = (buildDelegate conf env₂).lookup k := by
  have htyped : (typedDelegate conf env₁).lookup k = (typedDelegate conf env₂).lookup k :=
    typedDelegate_congr env₁ env₂ hmasq hmtu
  rw [buildDelegate_eq, buildDelegate_eq, AList.lookup_insert_ne hipam,
    AList.lookup_insert_ne hipam, gatewayDelegate, gatewayDelegate, delegateType_congr env₁ env₂]
  split
  · by_cases hg : k = "isGateway"
    · rw [hg, lookup_insertAbsent, lookup_insertAbsent,
        typedDelegate_congr env₁ env₂ (by decide) (by decide)]
    · rw [lookup_insertAbsent_ne hg, lookup_insertAbsent_ne hg, htyped]
  · exact htyped

theorem delegateType_buildDelegate :
    delegateType (buildDelegate conf env₁) = delegateType (buildDelegate conf env₂) := by
  rw [delegateType, delegateType,
    buildDelegate_congr env₁ env₂ (by decide) (by decide) (by decide)]

theorem lookup_mtu (env : SubnetEnv) : (buildDelegate conf env).lookup "mtu" =
    some ((conf.delegate.lookup "mtu").getD (.num (.int env.mtu))) := by
  rw [buildDelegate_eq, AList.lookup_insert_ne (by decide), gatewayDelegate]
  split
  · rw [lookup_insertAbsent_ne (by decide), lookup_typedDelegate_mtu]
  · rw [lookup_typedDelegate_mtu]

/-- The user's `mtu` is the same, and that of an environment is always accepted. -/
theorem defaulted_mtu_congr {mtu : Option ℕ}
    (h : defaulted none (Json.decodeOption (Json.decodeUnsigned (2 ^ 32)))
      (some ((conf.delegate.lookup "mtu").getD (.num (.int env₁.mtu)))) = some mtu) :
    ∃ mtu', defaulted none (Json.decodeOption (Json.decodeUnsigned (2 ^ 32)))
      (some ((conf.delegate.lookup "mtu").getD (.num (.int env₂.mtu)))) = some mtu' := by
  cases huser : conf.delegate.lookup "mtu" with
  | none =>
    refine ⟨some env₂.mtu, ?_⟩
    rw [defaulted, Option.getD_none, decode_mtu]
  | some j =>
    rw [huser] at h
    exact ⟨mtu, h⟩

/-- The bridge plugin accepts the delegate of one environment if it accepts that of another,
and its IPAM plugin is `host-local`. -/
theorem decode_congr {c₁ : BridgeConf}
    (h : BridgeConf.decode (.ofMap (buildDelegate conf env₁)) = some c₁) :
    ∃ c₂, BridgeConf.decode (.ofMap (buildDelegate conf env₂)) = some c₂ ∧
      c₂.ipam = ⟨"host-local"⟩ := by
  have hbridge : Field.find ⟨["bridge", "name"], true⟩ (buildDelegate conf env₁).members =
      Field.find ⟨["bridge", "name"], true⟩ (buildDelegate conf env₂).members := by
    apply Field.find_congr
    intro k hk
    rcases List.mem_pair.mp hk with rfl | rfl
    · exact buildDelegate_congr env₁ env₂ (by decide) (by decide) (by decide)
    · exact buildDelegate_congr env₁ env₂ (by decide) (by decide) (by decide)
  have hkey : ∀ k ∉ ["ipMasq", "mtu", "ipam"],
      (buildDelegate conf env₁).lookup k = (buildDelegate conf env₂).lookup k := by
    intro k hk
    simp only [List.mem_cons, List.not_mem_nil, or_false, not_or] at hk
    exact buildDelegate_congr env₁ env₂ hk.1 hk.2.1 hk.2.2
  simp only [BridgeConf.decode, Json.ofMap, Json.fields, List.mapM_cons, List.mapM_nil, hbridge,
    Field.find_single, lookup_mtu, lookup_ipam, hkey "cniVersion" (by decide),
    hkey "isGateway" (by decide), hkey "isDefaultGateway" (by decide),
    hkey "hairpinMode" (by decide)] at h ⊢
  cases hfind : Field.find ⟨["bridge", "name"], true⟩ (buildDelegate conf env₂).members with
  | none => simp [hfind] at h
  | some bridge =>
    simp only [hfind, Option.pure_def, Option.bind_eq_bind, Option.bind_some] at h ⊢
    obtain ⟨version, hversion, h⟩ := Option.bind_eq_some_iff.mp h
    obtain ⟨name, hname, h⟩ := Option.bind_eq_some_iff.mp h
    obtain ⟨gateway, hgateway, h⟩ := Option.bind_eq_some_iff.mp h
    obtain ⟨default, hdefault, h⟩ := Option.bind_eq_some_iff.mp h
    obtain ⟨hairpin, hhairpin, h⟩ := Option.bind_eq_some_iff.mp h
    obtain ⟨mtu, hmtu, -⟩ := Option.bind_eq_some_iff.mp h
    obtain ⟨mtu', hmtu'⟩ := defaulted_mtu_congr env₁ env₂ hmtu
    have hipam : required Ipam.decode (some (hostLocalIpam env₂)) = some ⟨"host-local"⟩ := rfl
    rw [hversion, hname, hgateway, hdefault, hhairpin, hmtu', hipam]
    exact ⟨_, rfl, rfl⟩

end

section

variable [Crates] {p : ℕ} {args : CniArgs}

/-- The bridge plugin run with a text, down to its system calls. -/
def BridgeRan (p : ℕ) (args : CniArgs) (json : String) (s : Node) (r : Except CniError String)
    (s' : Node) : Prop :=
  Exec (fun s o r s' => s.Answers p o r s') s ((Bridge.run args json).run.interpret impl) r s'

/-- The DEL ends with an error before anything is asked of the system. -/
def Refused (args : CniArgs) (stdin : String) (file : Option SubnetEnv) : Prop :=
  (∃ e, resolveDelegate stdin file "DEL" = .error e) ∨
  ∃ kind json e, resolveDelegate stdin file "DEL" = .ok (kind, json) ∧
    (Bridge.run args json).run = .ret (.error e)

theorem resolveDelegate_del {stdin : String} {conf : FlannelConf}
    (hconf : FlannelConf.parse stdin = some conf) (file : Option SubnetEnv) :
    resolveDelegate stdin file "DEL" =
      .ok ((delegateType (buildDelegate conf (file.getD placeholderEnv))).getD "bridge",
        Crates.jsonToString (.ofMap (buildDelegate conf (file.getD placeholderEnv)))) := by
  cases file <;> simp [resolveDelegate, hconf, envFor]

theorem resolveDelegate_add {stdin : String} {conf : FlannelConf}
    (hconf : FlannelConf.parse stdin = some conf) (env : SubnetEnv) :
    resolveDelegate stdin (some env) "ADD" =
      .ok ((delegateType (buildDelegate conf env)).getD "bridge",
        Crates.jsonToString (.ofMap (buildDelegate conf env))) := by
  simp only [resolveDelegate, hconf, envFor]

theorem parse_delegate {conf : FlannelConf} {env : SubnetEnv}
    (hread : ReadsBack (.ofMap (buildDelegate conf env))) :
    BridgeConf.parse (Crates.jsonToString (.ofMap (buildDelegate conf env))) =
      BridgeConf.decode (.ofMap (buildDelegate conf env)) := by
  rw [BridgeConf.parse, hread, Option.bind_some]

/-- The bridge plugin does not accept the delegate. -/
theorem refused_of_decode {stdin kind : String} {file : Option SubnetEnv} {conf : FlannelConf}
    {env : SubnetEnv} (hdel : args.command = "DEL") (hresolve : resolveDelegate stdin file "DEL" =
      .ok (kind, Crates.jsonToString (.ofMap (buildDelegate conf env))))
    (hread : ReadsBack (.ofMap (buildDelegate conf env)))
    (h : BridgeConf.decode (.ofMap (buildDelegate conf env)) = none) :
    ∃ kind json e, resolveDelegate stdin file "DEL" = .ok (kind, json) ∧
      (Bridge.run args json).run = .ret (.error e) := by
  refine ⟨kind, Crates.jsonToString (.ofMap (buildDelegate conf env)),
    decodeFailure (Crates.jsonToString (.ofMap (buildDelegate conf env))), hresolve, ?_⟩
  rw [Bridge.run_del hdel, parse_delegate hread, h]

/-- The release reads the name of the network and the data directory only. -/
theorem cmdDel_congr {conf : FlannelConf} {env₁ env₂ : SubnetEnv} {json₁ json₂ : String}
    (h₁ : NetConf.parse json₁ = some (nodeNetConf conf env₁))
    (h₂ : NetConf.parse json₂ = some (nodeNetConf conf env₂)) :
    HostLocal.cmdDel args json₁ = HostLocal.cmdDel args json₂ := by
  simp only [HostLocal.cmdDel, load, h₁, h₂]
  rfl

/-- The error for what is wrong with a delegate. -/
def delegateResult (name : String) : Except ExecError DelegateOutput →
    Except CniError DelegateOutput
  | .ok out => .ok out
  | .error (.spawn text) =>
    .error ((CniError.new 5 ("exec delegate " ++ name ++ " failed")).withDetails text)
  | .error (.wait text) => .error ((CniError.new 5 "wait for delegate").withDetails text)

omit [Crates] in
theorem runDelegate_eq (name : String) (args : CniArgs) (stdin : String) :
    runDelegate name args stdin = findInPath name args.path >>= fun found => match found with
      | none =>
        .ret (.error (.new 5 ("delegate plugin " ++ debugText name ++ " not found in CNI_PATH")))
      | some bin => .request (.exec bin args stdin) fun r => .ret (delegateResult name r) := by
  unfold runDelegate
  congr 1
  funext found
  cases found with
  | none => rfl
  | some bin =>
    refine congrArg (Program.request _) (funext fun r => ?_)
    match r with
    | .ok out => rfl
    | .error (.spawn text) => rfl
    | .error (.wait text) => rfl

theorem ran_congr {json₁ json₂ : String} {s s' : Node} {out : Option DelegateOutput}
    (hrun : HostLocal.run args json₁ = HostLocal.run args json₂) (h : s.Ran p args json₁ out s') :
    s.Ran p args json₂ out s' := by
  unfold Node.Ran HostLocalRan at h ⊢
  rwa [hrun] at h

/-- Texts that `host-local` treats alike are alike for the plugin that runs it. -/
theorem exec_runDelegate_congr {name json₁ json₂ : String} {s s' : Node}
    {r : Except CniError DelegateOutput}
    (hrun : HostLocal.run args json₁ = HostLocal.run args json₂)
    (h : Exec (fun s o r s' => s.Answers p o r s') s (runDelegate name args json₁) r s') :
    Exec (fun s o r s' => s.Answers p o r s') s (runDelegate name args json₂) r s' := by
  rw [runDelegate_eq] at h ⊢
  obtain ⟨found, s₁, hfind, hrest⟩ := Exec.of_bind h
  refine Exec.bind hfind ?_
  cases found with
  | none => exact hrest
  | some bin =>
    cases hrest with
    | request step rest => exact Exec.request (o := SysOp.exec bin args json₂) (ran_congr hrun step) rest

/-- What the plugin does after the release. -/
def afterRelease (args : CniArgs) : BridgeProgram String := do
  if args.netns ≠ "" then
    let _ ← ExceptT.lift (ask (.deleteContainerIface args.netns args.ifname))
  return ""

omit [Crates] in
theorem interpret_cmdDel (args : CniArgs) (conf : BridgeConf) (json : String) :
    (Bridge.cmdDel args conf json).run.interpret impl =
      runDelegate conf.ipam.kind args json >>= fun _ => (afterRelease args).run.interpret impl :=
  rfl

theorem bridgeRan_congr {json₁ json₂ : String} {c₁ c₂ : BridgeConf} (hdel : args.command = "DEL")
    (h₁ : BridgeConf.parse json₁ = some c₁) (h₂ : BridgeConf.parse json₂ = some c₂)
    (hipam : c₁.ipam = c₂.ipam) (hrun : HostLocal.run args json₁ = HostLocal.run args json₂)
    {s s' : Node} {r : Except CniError String} (h : BridgeRan p args json₁ s r s') :
    BridgeRan p args json₂ s r s' := by
  rw [BridgeRan, Bridge.run_del hdel, h₁] at h
  rw [BridgeRan, Bridge.run_del hdel, h₂]
  simp only [interpret_cmdDel, hipam] at h ⊢
  obtain ⟨out, s₁, hdelegate, hafter⟩ := Exec.of_bind h
  exact Exec.bind (exec_runDelegate_congr hrun hdelegate) hafter

/-- A release, alone on a store: exactly the leases of the attachment in the directory go, and
no other directory changes. -/
structure Frees (dir : String) (o : Attachment) (s : Fs) (r : Except CniError String)
    (s' : Fs) : Prop where
  released : Released dir o s s'
  all : ∀ out, r = .ok out → ∀ ip, Owns dir s ip o → lease dir s' ip = none
  others : ∀ d, d ≠ dir → s'.dirs d = s.dirs d

theorem frees_cmdDel {dir stdin : String} {E : Environment Fs FsOp FsRes}
    (hE : ∀ s o r s', E s o r s' → s.MayFail p o r s') (hdir : LeadsTo stdin dir) {s s' : Fs}
    {r : Except CniError String} (h : Exec E s (HostLocal.cmdDel args stdin).run r s') :
    Frees dir (args.containerId, args.ifname) s r s' := by
  obtain ⟨hreleased, hgone⟩ := h.wlp (wlp_cmdDel hE hdir)
  refine ⟨hreleased, fun out hr ip howns => ?_, ?_⟩
  · rcases hreleased ip with hsame | ⟨-, hnone⟩
    · refine absurd ?_ (hgone out hr ip)
      obtain ⟨content, hcontent, ho⟩ := howns
      exact ⟨content, hsame.trans hcontent, ho⟩
    · exact hnone
  · have hlocal : Local dir (args.containerId, args.ifname) (fun _ => True)
        (HostLocal.cmdDel args stdin).run := local_cmdDel hdir
    exact h.wlp (wlp_other_dirs hE hlocal s)

/-- What a DEL of the bridge plugin does to a node. `host-local` runs once if it is there, and where
it succeeds exactly the leases of the attachment go. No other lease and no other directory
changes. -/
structure TornDown (dir : String) (args : CniArgs) (s : Node) (r : Except CniError String)
    (s' : Node) : Prop where
  done : r = .ok ""
  absent : ¬ s.Has "host-local" args.path → s' = s
  ran : s.Has "host-local" args.path → ∃ b, s'.runs = ("DEL", b) :: s.runs
  freed : s'.runs = ("DEL", some true) :: s.runs →
    Frees dir (args.containerId, args.ifname) s.fs r s'.fs
  released : Released dir (args.containerId, args.ifname) s.fs s'.fs
  others : ∀ d, d ≠ dir → s'.fs.dirs d = s.fs.dirs d

omit [Crates] in
theorem TornDown.of_absent {dir : String} {s : Node} (h : ¬ s.Has "host-local" args.path) :
    TornDown dir args s (.ok "") s where
  done := rfl
  absent _ := rfl
  ran hhas := absurd hhas h
  freed hruns := absurd hruns.symm (List.cons_ne_self _ _)
  released _ := .inl rfl
  others _ _ := rfl

/-- The deletion of the interface leaves the node as the delegate left it. -/
theorem wlp_bridgeDel (args : CniArgs) (conf : BridgeConf) (stdin : String) (s : Node) :
    CommandWlp p (fun r s' => r = .ok "" ∧
        ∃ out, s.Allows p (.runDelegate conf.ipam.kind args stdin) out s')
      (Bridge.cmdDel args conf stdin).run s := by
  refine wlp.liftBind (m := fun out s' => s.Allows p (.runDelegate conf.ipam.kind args stdin) out s')
    (fun _ _ h => h) fun out s₁ hout => ?_
  by_cases hnetns : args.netns ≠ ""
  · rw [if_pos hnetns]
    refine wlp.liftBind (m := fun _ s' => s' = s₁) (fun _ _ h => h) fun _ s₂ h => ?_
    obtain rfl := h
    exact ⟨rfl, out, hout⟩
  · rw [if_neg hnetns]
    exact ⟨rfl, out, hout⟩

theorem frees_of_ran {dir stdin : String} {fs fs' : Fs} {out : DelegateOutput}
    (hdel : args.command = "DEL") (hdir : LeadsTo stdin dir)
    (h : HostLocalRan p args stdin fs out fs') :
    ∃ result, Frees dir (args.containerId, args.ifname) fs result fs' ∧
      (out.success = true → ∃ text, result = .ok text) := by
  obtain ⟨result, hexec, rfl⟩ := h
  rw [HostLocal.run_del hdel] at hexec
  refine ⟨result, frees_cmdDel (fun _ _ _ _ h => h) hdir hexec, fun hs => ?_⟩
  cases result with
  | ok text => exact ⟨text, rfl⟩
  | error e => cases hs

theorem tornDown_of_ran {dir stdin : String} {s s' : Node} {out : Option DelegateOutput}
    (hdel : args.command = "DEL") (hdir : LeadsTo stdin dir)
    (hhas : s.Has "host-local" args.path) (h : s.Ran p args stdin out s') :
    TornDown dir args s (.ok "") s' := by
  obtain ⟨fs', rfl, hran⟩ := h
  -- also without an output `host-local` may have run to its end
  have hfrees : fs' = s.fs ∨ ∃ result,
      Frees dir (args.containerId, args.ifname) s.fs result fs' := by
    cases out with
    | some out =>
      obtain ⟨result, hfrees, -⟩ := frees_of_ran hdel hdir hran
      exact .inr ⟨result, hfrees⟩
    | none =>
      refine hran.imp_right ?_
      rintro ⟨out, hran⟩
      obtain ⟨result, hfrees, -⟩ := frees_of_ran hdel hdir hran
      exact ⟨result, hfrees⟩
  have hreleased : Released dir (args.containerId, args.ifname) s.fs fs' := by
    rcases hfrees with rfl | ⟨_, hfrees⟩
    · exact fun _ => .inl rfl
    · exact hfrees.released
  have hothers : ∀ d, d ≠ dir → fs'.dirs d = s.fs.dirs d := by
    rcases hfrees with rfl | ⟨_, hfrees⟩
    · exact fun _ _ => rfl
    · exact hfrees.others
  refine ⟨rfl, absurd hhas, fun _ => ⟨_, congrArg (fun c => (c, _) :: s.runs) hdel⟩, fun hruns => ?_,
    hreleased, hothers⟩
  have hsuccess : out.map DelegateOutput.success = some true :=
    congrArg Prod.snd (List.cons.inj hruns).1
  obtain ⟨out, rfl, hs⟩ := Option.map_eq_some_iff.mp hsuccess
  obtain ⟨result, hfrees, hok⟩ := frees_of_ran hdel hdir hran
  obtain ⟨text, rfl⟩ := hok hs
  exact ⟨hreleased, fun _ _ => hfrees.all text rfl, hothers⟩

/-- Every DEL of the bridge plugin, whatever fails in it. -/
theorem tornDown_of_bridgeRan {dir json : String} {conf : BridgeConf} {s s' : Node}
    {r : Except CniError String} (hdel : args.command = "DEL")
    (hconf : BridgeConf.parse json = some conf) (hipam : conf.ipam = ⟨"host-local"⟩)
    (hdir : LeadsTo json dir) (h : BridgeRan p args json s r s') : TornDown dir args s r s' := by
  rw [BridgeRan, Bridge.run_del hdel, hconf] at h
  obtain ⟨rfl, out, hout⟩ := h.wlp (wlp.interpret impl_allows (wlp_bridgeDel args conf json s))
  rw [hipam] at hout
  rcases hout with ⟨hhas, hran⟩ | ⟨hnot, -, rfl⟩
  · exact tornDown_of_ran hdel hdir hhas hran
  · exact .of_absent hnot

end

/-- For every netconf, arguments and two contents of `subnet.env`: both DELs are refused, or both
choose the same delegate and do the same to every node and to every store. What they free, the
release alone and as the bridge plugin runs it, are the leases of the attachment, in the directory
where an ADD with any `subnet.env` makes them. -/
theorem teardown_ignores_env [Crates] {stdin : String} {args : CniArgs}
    (hdel : args.command = "DEL") (hread : ∀ conf env, FlannelConf.parse stdin = some conf →
      ReadsBack (.ofMap (buildDelegate conf env))) (p : ℕ) (file₁ file₂ : Option SubnetEnv) :
    (Refused args stdin file₁ ∧ Refused args stdin file₂) ∨
    ∃ kind json₁ json₂ dir, resolveDelegate stdin file₁ "DEL" = .ok (kind, json₁) ∧
      resolveDelegate stdin file₂ "DEL" = .ok (kind, json₂) ∧
      (∀ s r s', BridgeRan p args json₁ s r s' ↔ BridgeRan p args json₂ s r s') ∧
      HostLocal.cmdDel args json₁ = HostLocal.cmdDel args json₂ ∧
      (∀ env, ∃ kind' json nc, resolveDelegate stdin (some env) "ADD" = .ok (kind', json) ∧
        NetConf.parse json = some nc ∧
        joinPath (nc.ipam.dataDir.getD defaultDataDir) nc.name = dir) ∧
      (∀ E : Environment Fs FsOp FsRes, (∀ s o r s', E s o r s' → s.MayFail p o r s') →
        ∀ s r s', Exec E s (HostLocal.cmdDel args json₁).run r s' →
          Frees dir (args.containerId, args.ifname) s r s') ∧
      ∀ s r s', BridgeRan p args json₁ s r s' → TornDown dir args s r s' := by
  cases hconf : FlannelConf.parse stdin with
  | none =>
    have hrefused : ∀ file, Refused args stdin file := by
      intro file
      have herr : resolveDelegate stdin file "DEL" = .error ((CniError.new 6
          "failed to decode network config").withDetails (Crates.jsonError "Value" stdin)) := by
        simp only [resolveDelegate, hconf]
      exact .inl ⟨_, herr⟩
    exact .inl ⟨hrefused file₁, hrefused file₂⟩
  | some conf =>
    have hback := fun env => hread conf env hconf
    have hresolve₁ := resolveDelegate_del hconf file₁
    have hresolve₂ := resolveDelegate_del hconf file₂
    generalize file₁.getD placeholderEnv = env₁ at hresolve₁
    generalize file₂.getD placeholderEnv = env₂ at hresolve₂
    rw [delegateType_buildDelegate env₂ env₁] at hresolve₂
    cases hc₁ : BridgeConf.decode (.ofMap (buildDelegate conf env₁)) with
    | none =>
      have hc₂ : BridgeConf.decode (.ofMap (buildDelegate conf env₂)) = none := by
        by_contra hne
        obtain ⟨c₂, hc₂⟩ := Option.ne_none_iff_exists'.mp hne
        obtain ⟨c, hc, -⟩ := decode_congr env₂ env₁ hc₂
        simp [hc₁] at hc
      exact .inl ⟨.inr (refused_of_decode hdel hresolve₁ (hback env₁) hc₁),
        .inr (refused_of_decode hdel hresolve₂ (hback env₂) hc₂)⟩
    | some c₁ =>
      obtain ⟨c₂, hc₂, hipam₂⟩ := decode_congr env₁ env₂ hc₁
      obtain ⟨c, hc, hipam₁⟩ := decode_congr env₁ env₁ hc₁
      obtain rfl := Option.some.inj (hc.symm.trans hc₁)
      have hipam := hipam₁.trans hipam₂.symm
      have hbridge₁ := (parse_delegate (hback env₁)).trans hc₁
      have hbridge₂ := (parse_delegate (hback env₂)).trans hc₂
      have hsame : HostLocal.cmdDel args _ = HostLocal.cmdDel args _ :=
        cmdDel_congr (parse_buildDelegate (hback env₁)) (parse_buildDelegate (hback env₂))
      have hrun : HostLocal.run args _ = HostLocal.run args _ :=
        ((HostLocal.run_del hdel _).trans hsame).trans (HostLocal.run_del hdel _).symm
      have hdir : LeadsTo (Crates.jsonToString (.ofMap (buildDelegate conf env₁)))
          (joinPath defaultDataDir conf.name) := by
        intro nc hnc
        obtain rfl := Option.some.inj ((parse_buildDelegate (hback env₁)).symm.trans hnc)
        rfl
      refine .inr ⟨_, _, _, joinPath defaultDataDir conf.name, hresolve₁, hresolve₂,
        fun s r s' => ⟨bridgeRan_congr hdel hbridge₁ hbridge₂ hipam hrun,
          bridgeRan_congr hdel hbridge₂ hbridge₁ hipam.symm hrun.symm⟩, hsame, fun env => ?_,
        fun E hE s r s' hexec => frees_cmdDel hE hdir hexec,
        fun s r s' hran => tornDown_of_bridgeRan hdel hbridge₁ hipam₁ hdir hran⟩
      exact ⟨_, _, nodeNetConf conf env, resolveDelegate_add hconf env,
        parse_buildDelegate (hback env), rfl⟩

/-- A map without floating-point numbers. -/
def PlainMap (m : JsonMap) : Prop := ∀ k v, m.lookup k = some v → Plain v

theorem PlainMap.insert {m : JsonMap} {key : String} {value : Json} (h : PlainMap m)
    (hvalue : Plain value) : PlainMap (m.insert key value) := by
  intro k v hk
  by_cases hkey : k = key
  · rw [hkey, AList.lookup_insert] at hk
    rwa [← Option.some.inj hk]
  · rw [AList.lookup_insert_ne hkey] at hk
    exact h k v hk

theorem PlainMap.insertAbsent {m : JsonMap} {key : String} {value : Json} (h : PlainMap m)
    (hvalue : Plain value) : PlainMap (insertAbsent key value m) := by
  unfold FlannelPlugin.insertAbsent
  split
  · exact h
  · exact h.insert hvalue

theorem PlainMap.buildDelegate {conf : FlannelConf} (h : PlainMap conf.delegate)
    (env : SubnetEnv) : PlainMap (buildDelegate conf env) := by
  have htyped : PlainMap (typedDelegate conf env) :=
    ((((h.insert (plain_str _)).insert (plain_str _)).insertAbsent (plain_str _)).insertAbsent
      (plain_bool _)).insertAbsent (plain_int _)
  rw [buildDelegate_eq, gatewayDelegate]
  have hipam : Plain (hostLocalIpam env) := by simp [hostLocalIpam]
  split
  · exact (htyped.insertAbsent (plain_bool _)).insert hipam
  · exact htyped.insert hipam

theorem PlainMap.plain {m : JsonMap} (h : PlainMap m) : Plain (.ofMap m) := by
  rw [Json.ofMap, plain_obj, plainMembers_iff]
  exact fun e he => h e.1 e.2 (JsonMap.mem_members.mp he)

theorem hairpinConf_readsBack : ∀ conf env,
    @FlannelConf.parse Crates.compact hairpinConf = some conf →
      @ReadsBack Crates.compact (.ofMap (buildDelegate conf env)) := by
  intro conf env hconf
  have hdelegate : PlainMap conf.delegate := by
    have h := hairpinConf_parse
    rw [hconf] at h
    simp only [Option.map_some, Option.some.injEq, Prod.mk.injEq] at h
    obtain ⟨-, hkeys, hhairpin, -⟩ := h
    intro k v hk
    have hmem : k ∈ conf.delegate.keys := by
      rw [← AList.mem_keys, ← AList.lookup_isSome, hk]
      rfl
    rw [hkeys, List.mem_singleton] at hmem
    rw [← hmem, hk] at hhairpin
    cases v with
    | bool b => exact plain_bool b
    | _ => cases hhairpin
  exact ofText_jsonText (hdelegate.buildDelegate env).plain

def delArgs : CniArgs := ⟨"DEL", "c1", "/run/netns/c1", "eth0", "", "/opt/cni/bin"⟩

theorem hairpinConf_accepted :
    (@resolveDelegate Crates.compact hairpinConf none "DEL").toOption.map
      (fun d => (d.1, (@BridgeConf.parse Crates.compact d.2).isSome)) = some ("bridge", true) := by
  decide +kernel

/-- A node with the leases of two pods. -/
def twoLeases : Node where
  files path := path = "/opt/cni/bin/host-local"
  fs :=
    { dirs := fun dir =>
        if dir = cbr0Dir then
          some (((∅ : Dir).insert "10.244.1.2" (Attachment.file ("c1", "eth0"))).insert "10.244.1.3"
            (Attachment.file ("c2", "eth0")))
        else none
      locks := fun _ => none }
  configured := []
  runs := []

theorem twoLeases_owns :
    Owns cbr0Dir twoLeases.fs (.ofOctets 10 244 1 2) ("c1", "eth0") ∧
      lease cbr0Dir twoLeases.fs (.ofOctets 10 244 1 3) = some (Attachment.file ("c2", "eth0")) ∧
      owner (Attachment.file ("c2", "eth0")) ≠ ("c1", "eth0") :=
  ⟨⟨Attachment.file ("c1", "eth0"), by decide +kernel, by decide +kernel⟩, by decide +kernel,
    by decide +kernel⟩

/-- The DEL of the first pod, when no request fails. -/
def delRun (json : String) : Option (Except CniError String × Node) :=
  ((@Bridge.run Crates.compact delArgs json).run.interpret impl).run
    (@perform Crates.compact (.ok ())) twoLeases

theorem delRun_succeeds :
    ((@resolveDelegate Crates.compact hairpinConf none "DEL").toOption.bind
      fun d => (delRun d.2).map fun r => (r.1.toOption, r.2.runs)) =
    some (some "", [("DEL", some true)]) := by
  decide +kernel

theorem bridgeRan_of_delRun {json : String} {r : Except CniError String} {s' : Node}
    (h : delRun json = some (r, s')) : @BridgeRan Crates.compact 0 delArgs json twoLeases r s' := by
  unfold delRun at h
  refine Program.exec_of_run (fun o s r s₁ h => ?_) h
  exact @perform_answers Crates.compact _ _ _ _ _ h

theorem hairpinConf_dir :
    ((@resolveDelegate Crates.compact hairpinConf (some nodeEnv) "ADD").toOption.bind
      fun d => (@NetConf.parse Crates.compact d.2).map
        fun nc => joinPath (nc.ipam.dataDir.getD defaultDataDir) nc.name) = some cbr0Dir := by
  decide +kernel

/-- One of two pods goes. Its lease is freed, and that of the other one stays. -/
theorem teardown_ignores_env_hairpin : ∃ json₁ json₂ s',
    @resolveDelegate Crates.compact hairpinConf none "DEL" = .ok ("bridge", json₁) ∧
    @resolveDelegate Crates.compact hairpinConf (some nodeEnv) "DEL" = .ok ("bridge", json₂) ∧
    @HostLocal.cmdDel Crates.compact delArgs json₁ =
      @HostLocal.cmdDel Crates.compact delArgs json₂ ∧
    @BridgeRan Crates.compact 0 delArgs json₁ twoLeases (.ok "") s' ∧
    @BridgeRan Crates.compact 0 delArgs json₂ twoLeases (.ok "") s' ∧
    Owns cbr0Dir twoLeases.fs (.ofOctets 10 244 1 2) ("c1", "eth0") ∧
    lease cbr0Dir s'.fs (.ofOctets 10 244 1 2) = none ∧
    lease cbr0Dir s'.fs (.ofOctets 10 244 1 3) = some (Attachment.file ("c2", "eth0")) := by
  let := Crates.compact
  have haccepted := hairpinConf_accepted
  have hdel : delArgs.command = "DEL" := rfl
  rcases teardown_ignores_env hdel hairpinConf_readsBack 0 none (some nodeEnv) with
    ⟨⟨e, he⟩ | ⟨kind, json, e, hjson, he⟩, -⟩ |
    ⟨kind, json₁, json₂, dir, h₁, h₂, hran, hsame, hadds, -, htorn⟩
  · rw [he] at haccepted
    cases haccepted
  · rw [hjson] at haccepted
    obtain ⟨-, hsome⟩ := Prod.mk.inj (Option.some.inj haccepted)
    obtain ⟨conf, hconf⟩ := Option.isSome_iff_exists.mp hsome
    rw [Bridge.run_del rfl, hconf] at he
    cases he
  · rw [h₁] at haccepted
    obtain ⟨rfl, -⟩ := Prod.mk.inj (Option.some.inj haccepted)
    obtain ⟨_, json, nc, hadd, hnc, rfl⟩ := hadds nodeEnv
    have hdir := hairpinConf_dir
    rw [hadd] at hdir
    simp only [Except.toOption, Option.bind_some, hnc, Option.map_some, Option.some.injEq] at hdir
    rw [hdir] at htorn
    have hsucceeds := delRun_succeeds
    rw [h₁] at hsucceeds
    obtain ⟨⟨r, s'⟩, hrun, hend⟩ := Option.map_eq_some_iff.mp hsucceeds
    obtain ⟨-, hruns⟩ := Prod.mk.inj hend
    have hbridge₁ := bridgeRan_of_delRun hrun
    have hend := htorn _ _ _ hbridge₁
    obtain rfl := hend.done
    obtain ⟨howns, hother, hne⟩ := twoLeases_owns
    refine ⟨json₁, json₂, s', h₁, h₂, hsame, hbridge₁, (hran _ _ _).mp hbridge₁, howns,
      (hend.freed hruns).all "" rfl _ howns, ?_⟩
    rcases hend.released (.ofOctets 10 244 1 3) with hkept | ⟨⟨content, hcontent, howner⟩, -⟩
    · exact hkept.trans hother
    · obtain rfl := Option.some.inj (hother.symm.trans hcontent)
      exact absurd howner hne

end FlannelRs.FlannelTeardown
