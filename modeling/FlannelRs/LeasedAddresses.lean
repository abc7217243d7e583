import FlannelRs.LeaseFailures
import FlannelRs.BridgePlugin
import FlannelRs.PortmapPlugin

/-!
# One address for three plugins

The address that `host-local` leases is the address that `bridge` configures and the one that
`portmap` forwards to.
-/

namespace FlannelRs.LeasedAddresses
open InteractionPrograms FileSystem Ipv4Addresses RustText CniTypes HostLocal LeaseStores LeaseFailures
open Bridge (ipPlan planRoutes planGateway)
open Portmap (podIpv4)

section

variable [Crates]

/-- The destinations of the routes, all of which are networks. -/
def Destinations (routes : List Route) (nets : List Ipv4Network) : Prop :=
  routes.mapM (fun r => Crates.parseNetwork r.dst) = some nets

theorem Destinations.planRoutes {routes : List Route} {nets : List Ipv4Network}
    (h : Destinations routes nets) : planRoutes routes = .ok nets := by
  induction routes generalizing nets with
  | nil =>
    obtain rfl := Option.some.inj h
    rfl
  | cons r rs ih =>
    rw [Destinations, List.mapM_cons] at h
    obtain ⟨net, hnet, h⟩ := Option.bind_eq_some_iff.mp h
    obtain ⟨rest, hrest, h⟩ := Option.bind_eq_some_iff.mp h
    obtain rfl := Option.some.inj h
    simp [Bridge.planRoutes, hnet, ih hrest, Except.map]

variable {nc : NetConf} {alloc : Allocator}

/-- What the bridge plugin configures for a result of `host-local`. -/
theorem ipPlan_addResult (hc : Crates.Lawful) (ip : Ipv4Addr) {nets : List Ipv4Network}
    (hnets : Destinations nc.ipam.routes nets) : ipPlan (addResult nc alloc ip) =
      .ok ⟨ip, alloc.net.len, some alloc.gateway, nets⟩ := by
  have hnet := hc.network ip alloc.net.len alloc.net.len_le
  have hgateway : planGateway (some alloc.gateway.toString) = .ok (some alloc.gateway) := by
    simp [planGateway]
  have hroutes := hnets.planRoutes
  simp only [ipPlan, addResult, List.head?_cons, hnet, hgateway, hroutes]
  rfl

/-- What the portmap plugin forwards to for a result of `host-local`. -/
theorem podIpv4_addResult (hc : Crates.Lawful) (nc : NetConf) (alloc : Allocator) (ip : Ipv4Addr) :
    podIpv4 (addResult nc alloc ip) = some ip := by
  have hnet := hc.network ip alloc.net.len alloc.net.len_le
  simp [podIpv4, addResult, hnet]

/-- The allocator of a configuration works on the first range, with its gateway if there is
one. -/
theorem allocatorFor_ok (h : allocatorFor nc = .ok alloc) : ∃ range,
    nc.ipam.ranges.head?.bind List.head? = some range ∧
      Crates.parseNetwork range.subnet = some alloc.net := by
  unfold allocatorFor at h
  cases hrange : nc.ipam.ranges.head?.bind List.head? with
  | none => simp [hrange] at h
  | some range =>
    cases hnet : Crates.parseNetwork range.subnet with
    | none => simp [hrange, hnet] at h
    | some net =>
      refine ⟨range, rfl, hnet.trans ?_⟩
      simp only [hrange, hnet] at h
      split at h
      · cases h
      · cases hgateway : range.gateway with
        | none =>
          simp only [hgateway] at h
          rw [← Except.ok.inj h]
          rfl
        | some g =>
          cases hg : parseIpv4 g with
          | none => simp [hgateway, hg] at h
          | some gw =>
            simp only [hgateway, hg] at h
            rw [← Except.ok.inj h]
            rfl

end

/-- Whatever the standard input and the store, what a successful ADD prints gives the bridge
plugin and the portmap plugin the address that was leased. -/
theorem same_address [Crates] (hc : Crates.Lawful) {p : ℕ} {E : Environment Fs FsOp FsRes}
    (hE : ∀ s o r s', E s o r s' → s.MayFail p o r s') {args : CniArgs} {stdin out : String}
    {s s' : Fs} (hexec : Exec E s (cmdAdd args stdin).run (.ok out) s') {nc : NetConf}
    (hnc : NetConf.parse stdin = some nc) {nets : List Ipv4Network}
    (hnets : Destinations nc.ipam.routes nets) :
    ∃ range alloc ip result,
      nc.ipam.ranges.head?.bind List.head? = some range ∧
      allocatorFor nc = .ok alloc ∧ Crates.parseNetwork range.subnet = some alloc.net ∧
      Added (joinPath (nc.ipam.dataDir.getD defaultDataDir) nc.name)
        (args.containerId, args.ifname) ip s s' ∧
      CniResult.parse out = some result ∧
      ipPlan result = .ok ⟨ip, alloc.net.len, some alloc.gateway, nets⟩ ∧
      podIpv4 result = some ip := by
  have hdir : LeadsTo stdin (joinPath (nc.ipam.dataDir.getD defaultDataDir) nc.name) := by
    intro nc' hnc'
    obtain rfl := Option.some.inj (hnc'.symm.trans hnc)
    rfl
  obtain ⟨nc', alloc, ip, hnc', halloc, -, rfl, hadded⟩ := hexec.wlp
    (wlp_cmdAdd (fun _ _ _ _ h => Fs.losing_of_mayFail (hE _ _ _ _ h)) hdir)
  obtain rfl := Option.some.inj (hnc'.symm.trans hnc)
  obtain ⟨range, hrange, hnet⟩ := allocatorFor_ok halloc
  exact ⟨range, alloc, ip, _, hrange, halloc, hnet, hadded, CniResult.parse_toJson hc _,
    ipPlan_addResult hc ip hnets, podIpv4_addResult hc nc' alloc ip⟩

/-- A configuration with a route to the network of all pods. -/
def routedConf : String :=
  "\x7b\"name\":\"cbr0\",\"ipam\":\x7b\"type\":\"host-local\"," ++
    "\"ranges\":[[\x7b\"subnet\":\"10.244.1.0/24\"\x7d]]," ++
    "\"routes\":[\x7b\"dst\":\"10.244.0.0/16\"\x7d]\x7d\x7d"

theorem routedConf_parse : @NetConf.parse Crates.compact routedConf =
    some ⟨"", "cbr0", ⟨"host-local", [[⟨"10.244.1.0/24", none⟩]], [⟨"10.244.0.0/16", none⟩],
      none⟩⟩ := by
  decide +kernel

theorem routedConf_added :
    ((@cmdAdd Crates.compact podArgs routedConf).run.run (Fs.perform 0) freshStore).map
      (fun r => r.1.toOption.isSome) = some true := by
  decide +kernel

theorem routedConf_allocator :
    (@allocatorFor Crates.compact ⟨"", "cbr0", ⟨"host-local", [[⟨"10.244.1.0/24", none⟩]],
      [⟨"10.244.0.0/16", none⟩], none⟩⟩).toOption.map (fun a => (a.net.len, a.gateway)) =
      some (24, .ofOctets 10 244 1 1) := by
  decide +kernel

theorem same_address_routed : ∃ out s' ip result,
    Exec (Fs.MayFail 0) freshStore (@cmdAdd Crates.compact podArgs routedConf).run (.ok out) s' ∧
    lease cbr0Dir s' ip = some (.text "c1\neth0") ∧
    @CniResult.parse Crates.compact out = some result ∧
    @ipPlan Crates.compact result = .ok ⟨ip, 24, some (.ofOctets 10 244 1 1),
      [⟨.ofOctets 10 244 0 0, 16, by decide⟩]⟩ ∧
    @podIpv4 Crates.compact result = some ip := by
  let := Crates.compact
  obtain ⟨⟨r, s'⟩, hrun, hok⟩ := Option.map_eq_some_iff.mp routedConf_added
  cases r with
  | error e => cases hok
  | ok out =>
    have hexec : Exec (Fs.MayFail 0) freshStore (cmdAdd podArgs routedConf).run (.ok out) s' :=
      Program.exec_of_run (fun _ _ _ _ h => .inl (Fs.perform_answers h)) hrun
    have hnets : Destinations [⟨"10.244.0.0/16", none⟩]
        [⟨.ofOctets 10 244 0 0, 16, by decide⟩] := by
      unfold Destinations
      decide +kernel
    obtain ⟨range, alloc, ip, result, -, halloc, -, hadded, hresult, hplan, hip⟩ :=
      same_address Crates.compact_lawful (fun _ _ _ _ h => h) hexec routedConf_parse hnets
    obtain ⟨hlen, hgateway⟩ : alloc.net.len = 24 ∧ alloc.gateway = .ofOctets 10 244 1 1 := by
      have h := routedConf_allocator
      rw [halloc] at h
      simpa [Except.toOption] using h
    have hdir : joinPath defaultDataDir "cbr0" = cbr0Dir := by decide +kernel
    refine ⟨out, s', ip, result, hexec, ?_, hresult, ?_, hip⟩
    · rw [← hdir]
      exact hadded.file
    · rw [hplan, hlen, hgateway]

end FlannelRs.LeasedAddresses
