import FlannelRs.ClusterAddresses
import FlannelRs.FlanneldDaemon
import FlannelRs.TracedPrograms

/-!
# The order in which the bootstrap of `flanneld` does things

Whatever is answered to its requests, `subnet.env` is written last, and the delays between the
attempts grow up to half a minute.
-/

namespace FlannelRs.BootstrapRuns
open InteractionPrograms Ipv4Addresses JsonValues CniTypes Flanneld LeasePublication VxlanDevices
open FlanneldBootstrap FlanneldDaemon

/-- The requests with their answers, the last one first. -/
abbrev History := List (Answered HostOp HostRes)

/-- Anything may be answered. -/
def Recorded (h : History) (o : HostOp) (r : HostRes o) (h' : History) : Prop := h' = ⟨o, r⟩ :: h

/-- A request in the midst of an attempt. -/
def Ordinary : HostOp → Prop
  | .writeFile _ _ => False
  | .sleep _ => False
  | _ => True

/-- An attempt that began with `h₀` has gone on with ordinary requests, and has the answers. -/
def Underway (h₀ : History) (answers : List (Answered HostOp HostRes)) (h : History) : Prop :=
  ∃ recent, h = recent ++ h₀ ∧ (∀ e ∈ recent, Ordinary e.1) ∧ ∀ e ∈ answers, e ∈ recent

variable {h₀ h h' : History} {as : List (Answered HostOp HostRes)}

theorem underway_start (h₀ : History) : Underway h₀ [] h₀ :=
  ⟨[], rfl, by simp, by simp⟩

theorem Underway.more (hu : Underway h₀ as h) (recent : History) (hh : h' = recent ++ h)
    (ho : ∀ e ∈ recent, Ordinary e.1) : Underway h₀ as h' := by
  obtain ⟨before, rfl, hbefore, has⟩ := hu
  refine ⟨recent ++ before, by rw [hh, List.append_assoc], ?_, ?_⟩
  · intro e he
    rcases List.mem_append.mp he with he | he
    · exact ho e he
    · exact hbefore e he
  · exact fun e he => List.mem_append_right recent (has e he)

theorem Underway.cons (hu : Underway h₀ as h) {e : Answered HostOp HostRes} (ho : Ordinary e.1) :
    Underway h₀ (e :: as) (e :: h) := by
  obtain ⟨recent, rfl, hrecent, has⟩ := hu
  refine ⟨e :: recent, rfl, ?_, ?_⟩
  · intro x hx
    rcases List.mem_cons.mp hx with rfl | hx
    · exact ho
    · exact hrecent x hx
  · intro x hx
    rcases List.mem_cons.mp hx with rfl | hx
    · exact List.mem_cons_self
    · exact List.mem_cons_of_mem e (has x hx)

theorem wlp_underway {α : Type} {prog : HostProgram α} (huses : prog.Uses Ordinary)
    (hu : Underway h₀ as h) : wlp Recorded (fun _ h' => Underway h₀ as h') prog h := by
  have hstep : ∀ (h : History) o r h', Ordinary o → Recorded h o r h' →
      ∃ recent, h' = recent ++ h ∧ ∀ e ∈ recent, Ordinary e.1 := by
    rintro h o r h' ho rfl
    exact ⟨[⟨o, r⟩], rfl, by simpa using ho⟩
  refine (Program.Uses.wlp (R := fun h h' => ∃ recent, h' = recent ++ h ∧
    ∀ e ∈ recent, Ordinary e.1) ?_ ?_ hstep huses h).mono ?_
  · exact fun h => ⟨[], rfl, by simp⟩
  · rintro h₁ h₂ h₃ ⟨r, rfl, hr⟩ ⟨r', rfl, hr'⟩
    refine ⟨r' ++ r, by rw [List.append_assoc], fun e he => ?_⟩
    rcases List.mem_append.mp he with he | he
    · exact hr' e he
    · exact hr e he
  · rintro _ h' ⟨recent, hh, ho⟩
    exact hu.more recent hh ho

theorem Underway.weaken {as' : List (Answered HostOp HostRes)} (hu : Underway h₀ as h)
    (has : ∀ e ∈ as', e ∈ as) : Underway h₀ as' h := by
  obtain ⟨recent, hh, ho, hmem⟩ := hu
  exact ⟨recent, hh, ho, fun e he => hmem e (has e he)⟩

/-- The delays, the last one first. -/
def sleeps (h : History) : List ℕ :=
  h.filterMap fun e => match e.1 with
    | .sleep n => some n
    | _ => none

theorem Underway.sleeps (hu : Underway h₀ as h) :
    BootstrapRuns.sleeps h = BootstrapRuns.sleeps h₀ := by
  obtain ⟨recent, rfl, ho, -⟩ := hu
  have hnone : BootstrapRuns.sleeps recent = [] := by
    refine List.filterMap_eq_nil_iff.mpr fun e he => ?_
    have hordinary := ho e he
    obtain ⟨o, r⟩ := e
    cases o with
    | sleep n => exact hordinary.elim
    | _ => rfl
  rw [BootstrapRuns.sleeps, List.filterMap_append]
  exact congrArg (· ++ _) hnone

/-- What a part of an attempt comes to. -/
def Part {α : Type} (h₀ : History) (post : α → History → Prop) (r : Except AttemptError α)
    (h : History) : Prop :=
  match r with
  | .ok a => post a h
  | .error e => Underway h₀ [] h ∧ ∀ f, e ≠ .fatal f

theorem wlp_readFile (text path : String) (hu : Underway h₀ as h) :
    wlp Recorded (Part h₀ fun raw h' => Underway h₀ (⟨.readFile path, .ok raw⟩ :: as) h')
      (orTransient text (ask (.readFile path))).run h := by
  rintro r h' rfl
  have hcons := hu.cons (e := ⟨.readFile path, r⟩) trivial
  cases r with
  | ok raw => exact hcons
  | error e => exact ⟨hcons.weaken (by simp), nofun⟩

theorem wlp_ownNode (hu : Underway h₀ as h) :
    wlp Recorded (Part h₀ fun own h' => ∃ o, extractOwnNode o = .ok own ∧
      Underway h₀ (⟨.getNode, .ok o⟩ :: as) h') ownNode.run h := by
  rintro r h' rfl
  have hcons := hu.cons (e := ⟨.getNode, r⟩) trivial
  cases r with
  | error e => exact ⟨hcons.weaken (by simp), nofun⟩
  | ok o =>
    change Part h₀ _ ((extractOwnNode o).mapError .transient) _
    cases hown : extractOwnNode o with
    | error e => exact ⟨hcons.weaken (by simp), nofun⟩
    | ok own => exact ⟨o, hown, hcons⟩

/-- A part whose requests are of no further interest. -/
theorem wlp_ordinary {α : Type} {x : ExceptT LinkFailure HostProgram α}
    (huses : x.run.Uses Ordinary) (hu : Underway h₀ as h) :
    wlp Recorded (Part h₀ fun _ h' => Underway h₀ as h') (orLink x).run h := by
  refine (wlp_underway huses hu).bind fun r h' hu' => ?_
  cases r with
  | ok a => exact hu'
  | error e => exact ⟨hu'.weaken (by simp), nofun⟩

theorem ordinary_of_looksUp (o : HostOp) (h : LooksUp o) : Ordinary o := by
  cases o with
  | getAddresses => trivial
  | getMtu i => trivial
  | _ => exact h.elim

variable [Crates]

/-- Since the beginning of the attempt the lease was published, and the file is made of what was
read. -/
def Leased (h₀ h : History) (text : String) : Prop :=
  ∃ raw o own linkMtu b vtepMac,
    Underway h₀ [⟨.patchNode (buildPublishPatch b.backend own.publicIp vtepMac), .ok ()⟩,
      ⟨.getNode, .ok o⟩, ⟨.readFile netConfPath, .ok raw⟩] h ∧
    extractOwnNode o = .ok own ∧ FlanneldBootstrap.tryBootstrap raw own linkMtu = .ok b ∧
    (vtepMac.isSome ↔ b.backend = .vxlan) ∧ text = b.env.render

/-- No file is written before its lease is published. -/
def EnvSound (h : History) : Prop :=
  ∀ later e earlier path text, h = later ++ e :: earlier → e.1 = .writeFile path text →
    path = subnetEnvPath ∧ ∃ h₀, Leased h₀ earlier text

theorem EnvSound.cons {e : Answered HostOp HostRes} (hs : EnvSound h)
    (he : ∀ path text, e.1 = .writeFile path text → path = subnetEnvPath ∧ ∃ h₀, Leased h₀ h text) :
    EnvSound (e :: h) := by
  intro later x earlier path text hh hx
  cases later with
  | nil =>
    obtain ⟨rfl, rfl⟩ := List.cons.inj hh
    exact he path text hx
  | cons y later => exact hs later x earlier path text (List.cons.inj hh).2 hx

theorem EnvSound.underway (hs : EnvSound h₀) (hu : Underway h₀ as h) : EnvSound h := by
  obtain ⟨recent, rfl, ho, -⟩ := hu
  induction recent with
  | nil => exact hs
  | cons e recent ih =>
    refine (ih fun x hx => ho x (List.mem_cons_of_mem e hx)).cons fun path text he => ?_
    have hordinary := ho e List.mem_cons_self
    rw [he] at hordinary
    exact hordinary.elim

/-- What an attempt that began with `h₀` comes to. -/
structure Outcome (h₀ : History) (r : Except AttemptError BootstrapState) (h : History) :
    Prop where
  sound : EnvSound h₀ → EnvSound h
  sleeps : sleeps h = sleeps h₀
  fatal : ∀ e, r = .error (.fatal e) → ∃ raw,
    Underway h₀ [⟨.readFile netConfPath, .ok raw⟩] h ∧ classifyNetConf raw = .error e

theorem outcome_of_part {α : Type} {post : α → History → Prop} {e : AttemptError}
    (hp : Part h₀ post (.error e) h) : Outcome h₀ (.error e) h := by
  refine ⟨fun hs => hs.underway hp.1, hp.1.sleeps, fun f hf => ?_⟩
  exact absurd (Except.error.inj hf) (hp.2 f)

/-- The next part of an attempt. -/
theorem wlp_part {α : Type} {post : α → History → Prop} {x : AttemptProgram α}
    {f : α → AttemptProgram BootstrapState} (hx : wlp Recorded (Part h₀ post) x.run h)
    (hf : ∀ a h', post a h' → wlp Recorded (Outcome h₀) (f a).run h') :
    wlp Recorded (Outcome h₀) (x >>= f).run h :=
  wlp.exceptBind hx (fun a h' hp => hf a h' hp) fun _ _ hp => outcome_of_part hp

theorem wlp_publish {backend : BackendType} {publicIp : String} (vtepMac : Option String)
    (hu : Underway h₀ as h) :
    wlp Recorded (Part h₀ fun _ h' => Underway h₀
      (⟨.patchNode (buildPublishPatch backend publicIp vtepMac), .ok ()⟩ :: as) h')
      (publish backend publicIp vtepMac).run h := by
  rintro r h' rfl
  have hcons := hu.cons (e := ⟨.patchNode (buildPublishPatch backend publicIp vtepMac), r⟩) trivial
  cases r with
  | ok a => exact hcons
  | error e => exact ⟨hcons.weaken (by simp), nofun⟩

theorem wlp_setUpBackend (backend : BackendType) (publicIp : String) (endpoint gateway : Ipv4Addr)
    (mtu : ℕ) (hu : Underway h₀ as h) :
    wlp Recorded (Part h₀ fun _ h' => ∃ vtepMac : Option String,
        (vtepMac.isSome ↔ backend = .vxlan) ∧
        Underway h₀ (⟨.patchNode (buildPublishPatch backend publicIp vtepMac), .ok ()⟩ :: as) h')
      (setUpBackend backend publicIp endpoint gateway mtu).run h := by
  cases backend with
  | vxlan =>
    refine wlp.exceptBind (wlp_ordinary (Program.uses_interpret (fun _ => .send trivial) _) hu) ?_
      fun _ _ hp => hp
    rintro ⟨mac, idx⟩ h₁ hu₁
    refine wlp.exceptBind (wlp_publish (some mac) hu₁) (fun _ h₂ hu₂ => ?_)
      fun _ _ hp => hp
    exact ⟨some mac, by simp, hu₂⟩
  | hostGw =>
    refine wlp.exceptBind (wlp_ordinary
      ((uses_linkIndexByIp endpoint).mono ordinary_of_looksUp) hu) ?_ fun _ _ hp => hp
    intro idx h₁ hu₁
    refine wlp.exceptBind (wlp_publish none hu₁) (fun _ h₂ hu₂ => ?_)
      fun _ _ hp => hp
    exact ⟨none, by simp, hu₂⟩

/-- The two models of an attempt agree on what is written. -/
theorem tryBootstrap_eq {raw : String} {conf : FlanneldBootstrap.NetConf × BackendType}
    {own : OwnNode} {endpoint : Ipv4Addr} {cidr : Ipv4Network}
    (linkMtu : Option { n : ℕ // n < 2 ^ 32 }) (hconf : classifyNetConf raw = .ok conf)
    (hip : parseIpv4 own.publicIp = some endpoint)
    (hcidr : Crates.parseNetwork own.podCidr = some cidr) :
    FlanneldBootstrap.tryBootstrap raw own linkMtu =
      .ok ⟨conf.2, cidr.network, envOf conf.1 own conf.2 linkMtu⟩ := by
  simp only [FlanneldBootstrap.tryBootstrap, hconf, hip, hcidr]
  rfl

/-- The end of an attempt. -/
theorem wlp_writeEnv {text : String} {boot : BootstrapState} (hu : Underway h₀ as h)
    (hleased : ∀ h', Underway h₀ as h' → Leased h₀ h' text) :
    wlp Recorded (Outcome h₀) (do
      let _ ← ExceptT.lift (ask (.createDirAll "/run/flannel"))
      orTransient "write subnet.env" (ask (.writeFile subnetEnvPath text))
      return boot : AttemptProgram BootstrapState).run h := by
  refine wlp.liftBind (m := fun _ h' => Underway h₀ as h') ?_ fun _ h₁ hu₁ => ?_
  · rintro r h' rfl
    exact hu.more [⟨.createDirAll "/run/flannel", r⟩] rfl (by
      simp only [List.mem_singleton, forall_eq]
      trivial)
  rintro r h₂ rfl
  have hsound : EnvSound h₀ → EnvSound (⟨.writeFile subnetEnvPath text, r⟩ :: h₁) := by
    intro hs
    refine (hs.underway hu₁).cons fun path text' he => ?_
    obtain ⟨rfl, rfl⟩ := HostOp.writeFile.inj he
    exact ⟨rfl, h₀, hleased h₁ hu₁⟩
  have hsleeps : sleeps (⟨.writeFile subnetEnvPath text, r⟩ :: h₁) = sleeps h₀ := hu₁.sleeps
  cases r with
  | ok a => exact ⟨hsound, hsleeps, nofun⟩
  | error e => exact ⟨hsound, hsleeps, fun f hf => by cases hf⟩

/-- One attempt. -/
theorem wlp_tryBootstrap (h₀ : History) :
    wlp Recorded (Outcome h₀) tryBootstrap.run h₀ := by
  refine wlp_part (wlp_readFile _ _ (underway_start h₀)) fun raw h₁ hu₁ => ?_
  rw [Program.run_pure_bind]
  cases hconf : classifyNetConf raw with
  | error e =>
    refine ⟨fun hs => hs.underway hu₁, hu₁.sleeps, fun f hf => ⟨raw, hu₁, ?_⟩⟩
    rw [hconf, AttemptError.fatal.inj (Except.error.inj hf)]
  | ok conf =>
    refine wlp_part (wlp_ownNode hu₁) ?_
    rintro own h₂ ⟨o, hown, hu₂⟩
    have hstop : ∀ text, Outcome h₀ (.error (.transient text)) h₂ := fun text =>
      ⟨fun hs => hs.underway hu₂, hu₂.sleeps, nofun⟩
    cases hip : parseIpv4 own.publicIp with
    | none => exact hstop _
    | some endpoint =>
      simp only [orUnparsed, pure_bind]
      cases hcidr : Crates.parseNetwork own.podCidr with
      | none => exact hstop _
      | some cidr =>
        simp only [pure_bind]
        refine wlp.liftBind (wlp_underway ((uses_linkMtuByIp endpoint).mono ordinary_of_looksUp)
          hu₂) fun linkMtu h₃ hu₃ => ?_
        refine wlp_part (wlp_setUpBackend _ _ _ _ _ hu₃) ?_
        rintro idx h₄ ⟨vtepMac, hmac, hu₄⟩
        refine wlp_writeEnv hu₄ fun h' hu => ?_
        let b : Bootstrap := ⟨conf.2, cidr.network, envOf conf.1 own conf.2 linkMtu.toOption⟩
        exact ⟨raw, o, own, linkMtu.toOption, b, vtepMac, hu, hown,
          tryBootstrap_eq _ hconf hip hcidr, hmac, rfl⟩

/-- The delays of so many failed attempts. -/
def delays : ℕ → ℕ → List ℕ
  | 0, _ => []
  | k + 1, delay => delay :: delays k (nextDelay delay)

/-- What the attempts come to that began with `h₀`. -/
structure Ended (attempts delay : ℕ) (h₀ : History)
    (r : Option (Except Fatal BootstrapState)) (h : History) : Prop where
  sound : EnvSound h₀ → EnvSound h
  sleeps : ∃ k, sleeps h = (delays k delay).reverse ++ BootstrapRuns.sleeps h₀ ∧
    (r = none → k = attempts) ∧ (r ≠ none → k < attempts)
  fatal : ∀ e, r = some (.error e) → ∃ h₁ raw,
    Underway h₁ [⟨.readFile netConfPath, .ok raw⟩] h ∧ classifyNetConf raw = .error e

theorem wlp_bootstrapFrom (attempts delay : ℕ) (h₀ : History) :
    wlp Recorded (Ended attempts delay h₀) (bootstrapFrom attempts delay) h₀ := by
  induction attempts generalizing delay h₀ with
  | zero => exact ⟨id, ⟨0, by simp [delays], by simp, by simp⟩, nofun⟩
  | succ attempts ih =>
    refine (wlp_tryBootstrap h₀).bind fun r h₁ hr => ?_
    have hagain : wlp Recorded (Ended (attempts + 1) delay h₀) (do
        ask (.sleep delay)
        bootstrapFrom attempts (nextDelay delay)) h₁ := by
      rintro slept _ rfl
      refine (ih (nextDelay delay) _).mono fun res h hended => ?_
      obtain ⟨k, hsleeps, hnone, hsome⟩ := hended.sleeps
      refine ⟨fun hs => hended.sound ((hr.sound hs).cons nofun), ⟨k + 1, ?_, ?_, ?_⟩, hended.fatal⟩
      · have hlast : sleeps (⟨.sleep delay, slept⟩ :: h₁) = delay :: sleeps h₁ := rfl
        rw [hsleeps, hlast, hr.sleeps, delays, List.reverse_cons, List.append_assoc]
        rfl
      · exact fun hres => by rw [hnone hres]
      · exact fun hres => Nat.succ_lt_succ (hsome hres)
    cases r with
    | ok boot =>
      exact ⟨hr.sound, ⟨0, by simp [delays, hr.sleeps], by simp, by simp⟩, fun e he => by cases he⟩
    | error e =>
      cases e with
      | fatal e =>
        refine ⟨hr.sound, ⟨0, by simp [delays, hr.sleeps], by simp, by simp⟩, fun f hf => ?_⟩
        obtain rfl := Except.error.inj (Option.some.inj hf)
        obtain ⟨raw, hu, hclass⟩ := hr.fatal e rfl
        exact ⟨h₀, raw, hu, hclass⟩
      | transient text => exact hagain
      | link e => exact hagain

omit [Crates] in
/-- The delays double, up to half a minute. -/
theorem delays_eq (k i : ℕ) :
    delays k (min (2 ^ i) 30) = (List.range k).map fun j => min (2 ^ (i + j)) 30 := by
  induction k generalizing i with
  | zero => rfl
  | succ k ih =>
    have hnext : nextDelay (min (2 ^ i) 30) = min (2 ^ (i + 1)) 30 := by
      rw [nextDelay, Nat.pow_succ]
      omega
    rw [delays, hnext, ih, List.range_succ_eq_map, List.map_cons, List.map_map]
    congr 1
    refine List.map_congr_left fun j _ => ?_
    simp only [Function.comp_apply, Nat.add_assoc, Nat.add_comm 1 j]

theorem empty_sound : EnvSound [] := by
  intro later e earlier path text hh
  simp at hh

/-- Whatever is answered to the bootstrap, when it writes `subnet.env` it has published the lease
of the same attempt, and the `flannel` plugin can read the file. -/
theorem env_after_lease (hplain : SubnetEnvFiles.PlainNetworks) {attempts : ℕ}
    {r : Option (Except Fatal BootstrapState)} {later earlier : History} {path text : String}
    {res : Except String Unit}
    (h : Exec Recorded [] (bootstrap attempts) r
      (later ++ ⟨.writeFile path text, res⟩ :: earlier)) :
    path = subnetEnvPath ∧ ∃ h₀, Leased h₀ earlier text ∧
      (FlannelPlugin.SubnetEnv.parse text).isSome := by
  have hsound := (h.wlp (wlp_bootstrapFrom attempts 1 [])).sound empty_sound
  obtain ⟨hpath, h₀, hleased⟩ := hsound later _ earlier path text rfl rfl
  refine ⟨hpath, h₀, hleased, ?_⟩
  obtain ⟨raw, o, own, linkMtu, b, vtepMac, -, -, hboot, -, rfl⟩ := hleased
  rw [parse_env hplain hboot]
  rfl

/-- The set-up of a device that is there from before. -/
def joined (publicIp : String) (mtu : ℕ) (h : History) : History :=
  ⟨.patchNode (buildPublishPatch .vxlan publicIp (some (linkMac vtep.bytes))), .ok ()⟩ ::
    ⟨.link (.setUp 4), .ok ()⟩ ::
    ⟨.link (.getLinkByIndex 4), .ok (some ⟨4, some vtep.bytes⟩)⟩ ::
    ⟨.link (.setMtu 4 mtu), .ok ()⟩ ::
    ⟨.link (.getLinkByName dev), .ok (some ⟨4, none⟩)⟩ :: h

theorem exec_joined (publicIp : String) (endpoint gateway : Ipv4Addr) (mtu : ℕ) (h : History) :
    Exec Recorded h (setUpBackend .vxlan publicIp endpoint gateway mtu).run (.ok 4)
      (joined publicIp mtu h) := by
  refine .request (r := .ok (some ⟨4, none⟩)) rfl ?_
  refine .request (r := .ok ()) rfl ?_
  refine .request (r := .ok (some ⟨4, some vtep.bytes⟩)) rfl ?_
  refine .request (r := .ok ()) rfl ?_
  exact .request (r := .ok ()) rfl (.ret ..)

omit [Crates] in
/-- The MTU is not read, and the device is there from before. -/
theorem env_after_lease_joined : ∃ r earlier text,
    Exec Recorded [] (@bootstrap Crates.compact 1) r
      (⟨.writeFile subnetEnvPath text, .ok ()⟩ :: earlier) ∧
    (∃ h₀, @Leased Crates.compact h₀ earlier text) ∧
    (FlannelPlugin.SubnetEnv.parse text).isSome := by
  let := Crates.compact
  have hclass : (classifyNetConf ClusterAddresses.netConf).toOption.map Prod.snd =
    some .vxlan := by decide +kernel
  have hip : parseIpv4 "172.18.0.2" = some (.ofOctets 172 18 0 2) := by decide +kernel
  have hcidr : (Crates.parseNetwork "10.244.1.0/24").isSome := by decide +kernel
  obtain ⟨cidr, hcidr⟩ := Option.isSome_iff_exists.mp hcidr
  cases hconf : classifyNetConf ClusterAddresses.netConf with
  | error e =>
    rw [hconf] at hclass
    cases hclass
  | ok conf =>
    rw [hconf] at hclass
    obtain ⟨nc, backend⟩ := conf
    obtain rfl : backend = .vxlan := Option.some.inj hclass
    let own : OwnNode := ⟨"10.244.1.0/24", "172.18.0.2"⟩
    let o : NodeObject := ⟨⟨some "a", none, some own.podCidr⟩, some [⟨"InternalIP", own.publicIp⟩]⟩
    let lost : NlError := ⟨none, "connection closed"⟩
    let read : History := [⟨.getAddresses, ⟨[], some lost⟩⟩, ⟨.getNode, .ok o⟩,
      ⟨.readFile netConfPath, .ok ClusterAddresses.netConf⟩]
    let env := envOf nc own .vxlan none
    have hexec : Exec Recorded [] (bootstrap 1) (some (.ok ⟨4, .vxlan, nc.network, own.podCidr⟩))
        (⟨.writeFile subnetEnvPath env.render, .ok ()⟩ ::
          ⟨.createDirAll "/run/flannel", .ok ()⟩ :: joined own.publicIp env.mtu read) := by
      refine Exec.bind (a := .ok ⟨4, .vxlan, nc.network, own.podCidr⟩) ?_ (.ret ..)
      refine Exec.exceptBind (.request (r := .ok ClusterAddresses.netConf) rfl (.ret ..)) ?_
      rw [Program.run_pure_bind, hconf]
      refine Exec.exceptBind (a := own) (.request (r := .ok o) rfl (.ret ..)) ?_
      simp only [own, hip, hcidr, orUnparsed, pure_bind]
      refine Exec.liftBind (a := .error (.netlink none lost))
        (.request (r := ⟨[], some lost⟩) rfl (.ret ..)) ?_
      exact Exec.exceptBind (exec_joined _ _ _ _ _)
        (.request (r := .ok ()) rfl (.request (r := .ok ()) rfl (.ret ..)))
    obtain ⟨-, hleased⟩ := env_after_lease SubnetEnvFiles.plainNetworks_compact
      (show Exec Recorded [] _ _ ([] ++ _) from hexec)
    obtain ⟨h₀, hleased, hparsed⟩ := hleased
    exact ⟨_, _, _, hexec, ⟨h₀, hleased⟩, hparsed⟩

/-- Whatever is answered to the bootstrap, between two attempts it waits for 1, 2, 4, 8, 16 and then
always 30 seconds, it is given up for no error but one of the configuration that it has read last,
and it goes on for ever otherwise. -/
theorem bootstrap_backoff {attempts : ℕ} {r : Option (Except Fatal BootstrapState)} {h : History}
    (hexec : Exec Recorded [] (bootstrap attempts) r h) :
    ∃ k, (sleeps h).reverse = (List.range k).map (fun i => min (2 ^ i) 30) ∧
      (r = none → k = attempts) ∧ (r ≠ none → k < attempts) ∧
      ∀ e, r = some (.error e) → ∃ h₁ raw,
        Underway h₁ [⟨.readFile netConfPath, .ok raw⟩] h ∧ classifyNetConf raw = .error e := by
  have hended := hexec.wlp (wlp_bootstrapFrom attempts 1 [])
  obtain ⟨k, hsleeps, hnone, hsome⟩ := hended.sleeps
  refine ⟨k, ?_, hnone, hsome, hended.fatal⟩
  have hdelays := delays_eq k 0
  simp only [Nat.zero_add] at hdelays
  rw [hsleeps, ← hdelays]
  simp [sleeps]

omit [Crates] in
/-- Three attempts that cannot read the configuration. -/
theorem bootstrap_backoff_unread : ∃ h,
    Exec Recorded [] (@bootstrap Crates.compact 3) none h ∧ (sleeps h).reverse = [1, 2, 4] := by
  let := Crates.compact
  have hexec : ∃ h, Exec Recorded [] (bootstrap 3) none h := by
    have hunread : ∀ h attempts delay r h',
        Exec Recorded (⟨.sleep delay, ()⟩ :: ⟨.readFile netConfPath, .error "absent"⟩ :: h)
          (bootstrapFrom attempts (nextDelay delay)) r h' →
        Exec Recorded h (bootstrapFrom (attempts + 1) delay) r h' :=
    fun h attempts delay r h' hrest => .request (r := .error "absent") rfl (.request (r := ()) rfl hrest)
    exact ⟨_, hunread _ _ _ _ _ (hunread _ _ _ _ _ (hunread _ _ _ _ _ (.ret ..)))⟩
  obtain ⟨h, hexec⟩ := hexec
  obtain ⟨k, hsleeps, hnone, -, -⟩ := bootstrap_backoff hexec
  obtain rfl := hnone rfl
  exact ⟨h, hexec, hsleeps⟩

end FlannelRs.BootstrapRuns
