import FlannelRs.PortmapPlugin

/-!
# The result that `portmap` passes on

The plugin reads the result of the plugin before it into a type of its own and prints that.
-/

namespace FlannelRs.PortmapRelay
open InteractionPrograms JsonValues JsonTexts CniTypes NatTables Portmap

/-- An object with no other members. -/
def KeysIn (keys : List String) : Json → Prop
  | .obj ms => ∀ m ∈ ms, m.1 ∈ keys
  | _ => False

/-- A record of strings, of which one may be missing but not be `null`. -/
def KeptRecord (keys : List String) (last : String) (j : Json) : Prop :=
  KeysIn (keys ++ [last]) j ∧ j.get? last ≠ some .null

def KeptIp : Json → Prop := KeptRecord ["version", "address"] "gateway"

def KeptRoute : Json → Prop := KeptRecord ["dst"] "gw"

/-- The items of an array that may be missing. -/
def items : Option Json → List Json
  | some (.arr js) => js
  | _ => []

/-- A result of which the plugin can hold everything. -/
structure KeptResult (j : Json) : Prop where
  keys : KeysIn ["cniVersion", "ips", "routes"] j
  ips : ∀ ip ∈ items (j.get? "ips"), KeptIp ip
  someRoutes : j.get? "routes" ≠ some (.arr [])
  routes : ∀ route ∈ items (j.get? "routes"), KeptRoute route

theorem fields_obj_cons {f : Field} {fs : List Field} {ms : List (String × Json)}
    {x : Option Json} {xs : List (Option Json)} :
    (Json.obj ms).fields (f :: fs) = some (x :: xs) ↔
      f.find ms = some x ∧ (Json.obj ms).fields fs = some xs := by
  simp only [Json.fields, List.mapM_cons, Option.bind_eq_bind, Option.pure_def,
    Option.bind_eq_some_iff, Option.some.injEq, List.cons.injEq]
  constructor
  · rintro ⟨_, hx, _, hxs, rfl, rfl⟩
    exact ⟨hx, hxs⟩
  · rintro ⟨hx, hxs⟩
    exact ⟨x, hx, xs, hxs, rfl, rfl⟩

theorem required_string_eq_some {x : Option Json} {s : String} :
    required Json.decodeString x = some s ↔ x = some (.str s) := by
  cases x with
  | none => simp [required]
  | some j => cases j <;> simp [required, Json.decodeString]

/-- A string that may be missing. -/
def optional (s : Option String) (x : Option Json) : Prop :=
  (s = none ∧ (x = none ∨ x = some .null)) ∨ ∃ t, s = some t ∧ x = some (.str t)

theorem defaulted_string_eq_some {x : Option Json} {s : Option String}
    (h : defaulted none (Json.decodeOption Json.decodeString) x = some s) : optional s x := by
  cases x with
  | none =>
    obtain rfl := Option.some.inj h
    exact .inl ⟨rfl, .inl rfl⟩
  | some j =>
    cases j with
    | null =>
      obtain rfl := Option.some.inj h
      exact .inl ⟨rfl, .inr rfl⟩
    | str t =>
      obtain rfl := Option.some.inj h
      exact .inr ⟨t, rfl, rfl⟩
    | bool b => cases h
    | num n => cases h
    | arr js => cases h
    | obj ms => cases h

def record (strings : List (String × String)) (last : String) (s : Option String) :
    List (String × Json) :=
  strings.map (fun e => (e.1, Json.str e.2)) ++ (s.map fun t => (last, Json.str t)).toList

theorem map_fst_record (strings : List (String × String)) (last : String) (s : Option String) :
    (record strings last s).map Prod.fst =
      strings.map Prod.fst ++ (s.map fun _ => last).toList := by
  cases s with
  | none => simp [record, Function.comp_def]
  | some t => simp [record, Function.comp_def]

/-- Objects are the same value if they agree on the keys that one of them may have. -/
theorem toValue_obj_iff_of_keys {keys : List String} {ms es : List (String × Json)}
    (hkeys : ∀ e ∈ es, e.1 ∈ keys) :
    (Json.obj ms).toValue = (Json.obj es).toValue ↔
      KeysIn keys (.obj ms) ∧ ∀ k ∈ keys, valueAt ms k = valueAt es k := by
  rw [toValue_obj_eq_iff]
  constructor
  · intro h
    refine ⟨fun m hm => ?_, fun k _ => h k⟩
    have hne : valueAt es m.1 ≠ none := by
      rw [← h m.1, ne_eq, valueAt_eq_none_iff]
      exact fun hall => hall m hm rfl
    rw [ne_eq, valueAt_eq_none_iff] at hne
    simp only [not_forall, not_not] at hne
    obtain ⟨e, he, heq⟩ := hne
    rw [← heq]
    exact hkeys e he
  · rintro ⟨hms, hagree⟩ k
    by_cases hk : k ∈ keys
    · exact hagree k hk
    · have hnone : ∀ l : List (String × Json), (∀ e ∈ l, e.1 ∈ keys) → valueAt l k = none := by
        intro l hl
        rw [valueAt_eq_none_iff]
        rintro e he rfl
        exact hk (hl e he)
      rw [hnone ms hms, hnone es hkeys]

/-- Such a record comes out as it went in if nothing else was in it. -/
theorem toValue_record_iff {strings : List (String × String)} {last : String}
    (hkeys : (strings.map Prod.fst ++ [last]).Nodup) {ms : List (String × Json)}
    (hstrings : ∀ e ∈ strings, valueAt ms e.1 = some (.str e.2)) {s : Option String}
    {x : Option Json} {o : Bool} (hlast : Field.find ⟨[last], o⟩ ms = some x)
    (hs : optional s x) :
    (Json.obj ms).toValue = (Json.obj (record strings last s)).toValue ↔
      KeptRecord (strings.map Prod.fst) last (.obj ms) := by
  have hvalue := valueAt_of_find hlast
  have hget : (Json.obj ms).get? last = x := lookup_of_find hlast
  have hmem : ∀ e ∈ record strings last s, e.1 ∈ strings.map Prod.fst ++ [last] := by
    intro e he
    have he := List.mem_map_of_mem (f := Prod.fst) he
    rw [map_fst_record] at he
    cases s with
    | none => exact List.mem_append_left _ (by simpa using he)
    | some t => exact he
  have hnodup : ((record strings last s).map Prod.fst).Nodup := by
    rw [map_fst_record]
    cases s with
    | none => simpa using (List.nodup_append.mp hkeys).1
    | some t => exact hkeys
  have hsame : ∀ k ∈ strings.map Prod.fst, valueAt ms k = valueAt (record strings last s) k := by
    intro k hk
    obtain ⟨e, he, rfl⟩ := List.mem_map.mp hk
    have he' : (e.1, Json.str e.2) ∈ record strings last s :=
      List.mem_append_left _ (List.mem_map.mpr ⟨e, he, rfl⟩)
    rw [hstrings e he, valueAt_of_mem hnodup he']
    rfl
  have hnull : valueAt ms last = valueAt (record strings last s) last ↔ x ≠ some .null := by
    rw [hvalue]
    rcases hs with ⟨rfl, hx⟩ | ⟨t, rfl, rfl⟩
    · have hnone : valueAt (record strings last none) last = none := by
        rw [valueAt_eq_none_iff]
        intro e he heq
        have he := List.mem_map_of_mem (f := Prod.fst) he
        rw [map_fst_record, heq] at he
        exact (List.nodup_append.mp hkeys).2.2 last (by simpa using he) last (by simp) rfl
      rw [hnone]
      rcases hx with rfl | rfl <;> simp
    · have ht : (last, Json.str t) ∈ record strings last (some t) :=
        List.mem_append_right _ (by simp)
      rw [valueAt_of_mem hnodup ht]
      simp
  rw [toValue_obj_iff_of_keys hmem, KeptRecord, hget, ← hnull]
  constructor
  · rintro ⟨hin, hagree⟩
    exact ⟨hin, hagree last (by simp)⟩
  · rintro ⟨hin, hagree⟩
    refine ⟨hin, fun k hk => ?_⟩
    rcases List.mem_append.mp hk with hk | hk
    · exact hsame k hk
    · rw [List.mem_singleton.mp hk]
      exact hagree

/-- An array stands for no object. -/
theorem toValue_arr_ne (js : List Json) (ms : List (String × Json)) :
    (Json.arr js).toValue ≠ (Json.obj ms).toValue := by
  simp [Json.toValue, Json.ofMap]

theorem ip_kept_iff {j : Json} {r : IpResult} (h : IpResult.decode j = some r) :
    j.toValue = r.encode.toValue ↔ KeptIp j := by
  cases j with
  | obj ms =>
    unfold IpResult.decode at h
    split at h
    · rename_i version address gateway hfields
      simp only [fields_obj_cons] at hfields
      obtain ⟨hversion, haddress, hgateway, -⟩ := hfields
      simp only [Option.bind_eq_bind, Option.pure_def, Option.bind_eq_some_iff,
        Option.some.injEq] at h
      obtain ⟨v, hv, a, ha, g, hg, rfl⟩ := h
      have hstrings : ∀ e ∈ [("version", v), ("address", a)], valueAt ms e.1 = some (.str e.2) := by
        simp [valueAt_of_find hversion, valueAt_of_find haddress, required_string_eq_some.mp hv,
          required_string_eq_some.mp ha, Json.toValue]
      exact toValue_record_iff (by simp) hstrings hgateway (defaulted_string_eq_some hg)
    · cases h
  | arr js => exact iff_of_false (toValue_arr_ne js _) fun h => h.1
  | null => cases h
  | bool b => cases h
  | num n => cases h
  | str t => cases h

theorem route_kept_iff {j : Json} {r : Route} (h : Route.decode j = some r) :
    j.toValue = r.encode.toValue ↔ KeptRoute j := by
  cases j with
  | obj ms =>
    unfold Route.decode at h
    split at h
    · rename_i dst gw hfields
      simp only [fields_obj_cons] at hfields
      obtain ⟨hdst, hgw, -⟩ := hfields
      simp only [Option.bind_eq_bind, Option.pure_def, Option.bind_eq_some_iff,
        Option.some.injEq] at h
      obtain ⟨d, hd, g, hg, rfl⟩ := h
      have hstrings : ∀ e ∈ [("dst", d)], valueAt ms e.1 = some (.str e.2) := by
        simp [valueAt_of_find hdst, required_string_eq_some.mp hd, Json.toValue]
      exact toValue_record_iff (by simp) hstrings hgw (defaulted_string_eq_some hg)
    · cases h
  | arr js => exact iff_of_false (toValue_arr_ne js _) fun h => h.1
  | null => cases h
  | bool b => cases h
  | num n => cases h
  | str t => cases h

/-- Arrays of records come out as they went in if every record does. -/
theorem items_kept_iff {α : Type} {decode : Json → Option α} {encode : α → Json}
    {kept : Json → Prop}
    (h : ∀ {j a}, decode j = some a → (j.toValue = (encode a).toValue ↔ kept j)) {js : List Json}
    {xs : List α} (hdecode : js.mapM decode = some xs) :
    js.map Json.toValue = (xs.map encode).map Json.toValue ↔ ∀ j ∈ js, kept j := by
  induction js generalizing xs with
  | nil =>
    obtain rfl : xs = [] := by simpa using hdecode.symm
    simp
  | cons j js ih =>
    simp only [List.mapM_cons, Option.bind_eq_bind, Option.pure_def, Option.bind_eq_some_iff,
      Option.some.injEq] at hdecode
    obtain ⟨a, ha, as, has, rfl⟩ := hdecode
    rw [List.map_cons, List.map_cons, List.map_cons, List.cons.injEq, h ha, ih has,
      List.forall_mem_cons]

theorem toValue_arr_eq_iff {js js' : List Json} :
    (Json.arr js).toValue = (Json.arr js').toValue ↔ js.map Json.toValue = js'.map Json.toValue := by
  rw [Json.toValue, Json.toValue, itemsToValue_eq, itemsToValue_eq, Json.arr.injEq]

theorem decodeVec_eq_some {α : Type} {decode : Json → Option α} {j : Json} {xs : List α}
    (h : Json.decodeVec decode j = some xs) : ∃ js, j = .arr js ∧ js.mapM decode = some xs := by
  cases j with
  | arr js => exact ⟨js, rfl, h⟩
  | null => cases h
  | bool b => cases h
  | num n => cases h
  | str t => cases h
  | obj ms => cases h

theorem required_vec_eq_some {α : Type} {decode : Json → Option α} {x : Option Json}
    {xs : List α} (h : required (Json.decodeVec decode) x = some xs) :
    ∃ js, x = some (.arr js) ∧ js.mapM decode = some xs := by
  cases x with
  | none => cases h
  | some j =>
    obtain ⟨js, rfl, hjs⟩ := decodeVec_eq_some h
    exact ⟨js, rfl, hjs⟩

theorem defaulted_vec_eq_some {α : Type} {decode : Json → Option α} {x : Option Json}
    {xs : List α} (h : defaulted [] (Json.decodeVec decode) x = some xs) :
    (x = none ∧ xs = []) ∨ ∃ js, x = some (.arr js) ∧ js.mapM decode = some xs := by
  cases x with
  | none => exact .inl ⟨rfl, (Option.some.inj h).symm⟩
  | some j =>
    obtain ⟨js, rfl, hjs⟩ := decodeVec_eq_some h
    exact .inr ⟨js, rfl, hjs⟩

theorem mapM_eq_some_nil {α : Type} {decode : Json → Option α} {js : List Json} :
    js.mapM decode = some [] ↔ js = [] := by
  cases js with
  | nil => simp
  | cons j js =>
    simp only [List.mapM_cons, Option.bind_eq_bind, Option.pure_def, Option.bind_eq_some_iff,
      Option.some.injEq, reduceCtorEq, iff_false]
    rintro ⟨a, -, as, -, h⟩
    cases h

def members (r : CniResult) : List (String × Json) :=
  [("cniVersion", .str r.cniVersion), ("ips", .arr (r.ips.map IpResult.encode))] ++
    if r.routes = [] then [] else [("routes", .arr (r.routes.map Route.encode))]

theorem keys_members (r : CniResult) :
    ∀ e ∈ members r, e.1 ∈ ["cniVersion", "ips", "routes"] := by
  by_cases h : r.routes = [] <;> simp [members, h]

theorem nodup_members (r : CniResult) : ((members r).map Prod.fst).Nodup := by
  by_cases h : r.routes = [] <;> simp [members, h]

theorem valueAt_version (r : CniResult) :
    valueAt (members r) "cniVersion" = some (.str r.cniVersion) := by
  have hmem : ("cniVersion", Json.str r.cniVersion) ∈ members r :=
    List.mem_append_left _ (by simp)
  rw [valueAt_of_mem (nodup_members r) hmem]
  rfl

theorem valueAt_ips (r : CniResult) :
    valueAt (members r) "ips" = some (Json.arr (r.ips.map IpResult.encode)).toValue :=
  valueAt_of_mem (nodup_members r) (List.mem_append_left _ (by simp))

theorem valueAt_routes (r : CniResult) :
    valueAt (members r) "routes" =
      if r.routes = [] then none else some (Json.arr (r.routes.map Route.encode)).toValue := by
  by_cases h : r.routes = []
  · rw [if_pos h, valueAt_eq_none_iff]
    simp [members, h]
  · rw [if_neg h]
    apply valueAt_of_mem (nodup_members r)
    simp [members, h]

/-- A list of routes that is there but empty is left out. -/
theorem routes_kept_iff {x : Option Json} {r : CniResult}
    (h : defaulted [] (Json.decodeVec Route.decode) x = some r.routes) :
    x.map Json.toValue = valueAt (members r) "routes" ↔
      x ≠ some (.arr []) ∧ ∀ route ∈ items x, KeptRoute route := by
  rw [valueAt_routes]
  rcases defaulted_vec_eq_some h with ⟨rfl, hnil⟩ | ⟨js, rfl, hjs⟩
  · simp [hnil, items]
  · by_cases hnil : r.routes = []
    · rw [hnil, mapM_eq_some_nil] at hjs
      simp [hnil, hjs]
    · have hne : js ≠ [] := by
        rintro rfl
        rw [List.mapM_nil] at hjs
        exact hnil (Option.some.inj hjs).symm
      rw [if_neg hnil, Option.map_some, Option.some.injEq, toValue_arr_eq_iff,
        items_kept_iff route_kept_iff hjs]
      simp [items, hne]

/-- What is printed for a result is the result if the plugin could hold all of it. -/
theorem result_kept_iff {j : Json} {r : CniResult} (h : CniResult.decode j = some r) :
    j.toValue = r.encode.toValue ↔ KeptResult j := by
  cases j with
  | obj ms =>
    unfold CniResult.decode at h
    split at h
    · rename_i version ips routes hfields
      simp only [fields_obj_cons] at hfields
      obtain ⟨hversion, hips, hroutes, -⟩ := hfields
      simp only [Option.bind_eq_bind, Option.pure_def, Option.bind_eq_some_iff,
        Option.some.injEq] at h
      obtain ⟨v, hv, is, his, rs, hrs, hr⟩ := h
      subst hr
      obtain rfl := required_string_eq_some.mp hv
      obtain ⟨js, rfl, hjs⟩ := required_vec_eq_some his
      have hgetIps : (Json.obj ms).get? "ips" = some (.arr js) := lookup_of_find hips
      have hgetRoutes : (Json.obj ms).get? "routes" = routes := lookup_of_find hroutes
      have hvalues : (∀ k ∈ ["cniVersion", "ips", "routes"],
          valueAt ms k = valueAt (members ⟨v, is, rs⟩) k) ↔
          (∀ ip ∈ js, KeptIp ip) ∧
            (routes ≠ some (.arr []) ∧ ∀ route ∈ items routes, KeptRoute route) := by
        rw [← routes_kept_iff (r := ⟨v, is, rs⟩) hrs, ← items_kept_iff ip_kept_iff hjs, List.forall_mem_cons,
          List.forall_mem_cons, List.forall_mem_singleton, valueAt_of_find hversion,
          valueAt_of_find hips, valueAt_of_find hroutes, valueAt_version, valueAt_ips,
          Option.map_some, Option.map_some, Option.some.injEq, Option.some.injEq,
          toValue_arr_eq_iff]
        exact and_iff_right rfl
      refine (toValue_obj_iff_of_keys (keys_members ⟨v, is, rs⟩)).trans ?_
      rw [hvalues]
      constructor
      · rintro ⟨hkeys, hkeptIps, hsome, hkeptRoutes⟩
        exact ⟨hkeys, by rwa [hgetIps], by rwa [hgetRoutes], by rwa [hgetRoutes]⟩
      · rintro ⟨hkeys, hkeptIps, hsome, hkeptRoutes⟩
        rw [hgetIps] at hkeptIps
        rw [hgetRoutes] at hsome hkeptRoutes
        exact ⟨hkeys, hkeptIps, hsome, hkeptRoutes⟩
    · cases h
  | arr js => exact iff_of_false (toValue_arr_ne js _) fun h => h.keys
  | null => cases h
  | bool b => cases h
  | num n => cases h
  | str t => cases h

variable [Crates]

/-- The value that the configuration gives for the result of the plugin before. -/
def prevResultOf (stdin : String) : Option Json :=
  match (Crates.jsonFromStr stdin).bind fun j =>
      j.fields [⟨["cniVersion"], true⟩, ⟨["prevResult"], true⟩, ⟨["runtimeConfig"], true⟩] with
  | some [_, prevResult, _] => prevResult
  | _ => none

theorem prevResultOf_parsed {stdin : String} {conf : PortmapConf} {prev : CniResult}
    (hconf : PortmapConf.parse stdin = some conf) (hprev : conf.prevResult = some prev) :
    ∃ p, prevResultOf stdin = some p ∧ CniResult.decode p = some prev := by
  obtain ⟨j, hj, hdecode⟩ := Option.bind_eq_some_iff.mp hconf
  unfold PortmapConf.decode at hdecode
  split at hdecode
  · rename_i version prevResult runtimeConfig hfields
    simp only [Option.bind_eq_bind, Option.pure_def, Option.bind_eq_some_iff,
      Option.some.injEq] at hdecode
    obtain ⟨-, -, x, hx, ms, -, rfl⟩ := hdecode
    obtain rfl : x = some prev := hprev
    cases prevResult with
    | none => cases hx
    | some p =>
      refine ⟨p, ?_, ?_⟩
      · rw [prevResultOf, hj, Option.bind_some, hfields]
      · cases p with
        | null => cases hx
        | obj ms =>
          obtain ⟨r, hr, h⟩ := Option.map_eq_some_iff.mp hx
          rwa [← Option.some.inj h]
        | arr js =>
          obtain ⟨r, hr, h⟩ := Option.map_eq_some_iff.mp hx
          rwa [← Option.some.inj h]
        | bool b => cases hx
        | num n => cases hx
        | str t => cases hx
  · cases hdecode

/-- The command prints what it parsed, whatever the table answers. -/
theorem cmdAdd_prints {σ : Type} {A : Environment σ Command CommandRes} {ipt : Iptables}
    {args : CniArgs} {stdin : String} {s : σ} :
    wlp A (fun r _ => ∀ out, r = .ok out → ∃ conf prev, PortmapConf.parse stdin = some conf ∧
      conf.prevResult = some prev ∧ out = prev.toJson) (cmdAdd ipt args stdin).run s := by
  have hdone : ∀ conf prev, PortmapConf.parse stdin = some conf → conf.prevResult = some prev →
      ∀ s, wlp A (fun r _ => ∀ out, r = .ok out → ∃ conf prev, PortmapConf.parse stdin = some conf ∧
        conf.prevResult = some prev ∧ out = prev.toJson)
        (pure prev.toJson : IptablesProgram String).run s := by
    intro conf prev hconf hprev s out h
    exact ⟨conf, prev, hconf, hprev, (Except.ok.inj h).symm⟩
  unfold cmdAdd
  split
  · intro out h
    cases h
  · rename_i conf hconf
    split
    · intro out h
      cases h
    · rename_i prev hprev
      split
      · split
        · intro out h
          cases h
        · apply wlp.exceptBind (m := fun _ _ => True) (wlp_true _ s)
          · exact fun _ s' _ => hdone conf prev hconf hprev s'
          · intro e s' _ out h
            cases h
      · exact hdone conf prev hconf hprev s

/-- Whenever the command succeeds, what it prints reads as the same value as the result it was
given exactly if that result has nothing but what the plugin holds. -/
theorem cmdAdd_relays_iff (hc : Crates.Lawful) (σ : Type)
    (A : Environment σ Command CommandRes) (ipt : Iptables) (args : CniArgs) (stdin out : String)
    (s s' : σ) (h : Exec A s (cmdAdd ipt args stdin).run (.ok out) s') : ∃ prev printed,
      prevResultOf stdin = some prev ∧ Crates.jsonFromStr out = some printed ∧
      (printed.toValue = prev.toValue ↔ KeptResult prev) := by
  obtain ⟨conf, prev, hconf, hprev, rfl⟩ := h.wlp cmdAdd_prints out rfl
  obtain ⟨p, hp, hdecode⟩ := prevResultOf_parsed hconf hprev
  exact ⟨p, prev.encode, hp, hc.json prev, eq_comm.trans (result_kept_iff hdecode)⟩

omit [Crates]

/-- A result with one address, of which more may be known. -/
def prevWith (more : List (String × Json)) : Json :=
  .obj [("cniVersion", .str "0.3.1"),
    ("ips", .arr [.obj (("version", .str "4") :: ("address", .str "10.244.1.5/24") :: more)])]

def stdinWith (more : List (String × Json)) : String :=
  jsonText (.obj [("prevResult", prevWith more)])

def podResult : CniResult := ⟨"0.3.1", [⟨"4", "10.244.1.5/24", none⟩], []⟩

section

variable {more : List (String × Json)}

theorem jsonFromStr_stdinWith (hplain : PlainMembers more) :
    ofText (stdinWith more) = some (.obj [("prevResult", prevWith more)]) := by
  apply ofText_jsonText
  simpa [prevWith] using hplain

theorem prevResultOf_stdinWith (hplain : PlainMembers more) :
    @prevResultOf Crates.compact (stdinWith more) = some (prevWith more) := by
  unfold prevResultOf
  rw [show @Crates.jsonFromStr Crates.compact (stdinWith more) = _ from
    jsonFromStr_stdinWith hplain]
  rfl

variable (hmore : ∀ m ∈ more, m.1 ∉ ["version", "address", "gateway"])

include hmore

theorem decode_prevWith : CniResult.decode (prevWith more) = some podResult := by
  have hnone : ∀ k ∈ ["version", "address", "gateway"], more.filter (·.1 = k) = [] := by
    intro k hk
    rw [List.filter_eq_nil_iff]
    intro m hm heq
    rw [← of_decide_eq_true heq] at hk
    exact hmore m hm hk
  simp only [List.forall_mem_cons] at hnone
  simp [CniResult.decode, IpResult.decode, prevWith, Json.fields, Field.find, required, defaulted,
    Json.decodeVec, Json.decodeString, hnone, podResult]

theorem cmdAdd_stdinWith (hplain : PlainMembers more) {σ : Type}
    (A : Environment σ Command CommandRes) (ipt : Iptables) (args : CniArgs) (s : σ) :
    Exec A s (@cmdAdd Crates.compact ipt args (stdinWith more)).run
      (.ok (@CniResult.toJson Crates.compact podResult)) s := by
  have hdecode : PortmapConf.decode (.obj [("prevResult", prevWith more)]) =
      some ⟨some podResult, []⟩ := by
    have hprev : Json.decodeOption CniResult.decode (prevWith more) = some (some podResult) := by
      simpa [Json.decodeOption, prevWith] using decode_prevWith hmore
    simp [PortmapConf.decode, Json.fields, Field.find, defaulted, hprev]
  have hconf : @PortmapConf.parse Crates.compact (stdinWith more) =
      some ⟨some podResult, []⟩ := by
    exact (congrArg (·.bind PortmapConf.decode) (jsonFromStr_stdinWith hplain)).trans hdecode
  unfold cmdAdd
  rw [hconf]
  exact .ret s _

end

def podArgs : CniArgs := ⟨"ADD", "c1", "/run/netns/c1", "eth0", "", "/opt/cni/bin"⟩

/-- A result that is relayed. -/
theorem cmdAdd_relays_plain : ∃ prev printed,
    @prevResultOf Crates.compact (stdinWith []) = some prev ∧
    ofText (@CniResult.toJson Crates.compact podResult) = some printed ∧
    printed.toValue = prev.toValue := by
  have hmore : ∀ m ∈ ([] : List (String × Json)), m.1 ∉ ["version", "address", "gateway"] := by
    simp
  have hplain : PlainMembers [] := by simp
  obtain ⟨prev, printed, hprev, hprinted, hiff⟩ := @cmdAdd_relays_iff Crates.compact
    Crates.compact_lawful Unit (fun s _ _ s' => s' = s) ⟨"iptables-nft"⟩ podArgs _ _ () ()
    (cmdAdd_stdinWith hmore hplain _ _ _ _)
  refine ⟨prev, printed, hprev, hprinted, hiff.mpr ?_⟩
  rw [prevResultOf_stdinWith hplain] at hprev
  obtain rfl := Option.some.inj hprev
  constructor
  · simp [prevWith, KeysIn]
  · intro ip hip
    obtain rfl := List.mem_singleton.mp hip
    constructor
    · simp only [KeysIn, List.forall_mem_cons]
      simp
    · simp [Json.get?, List.lookup_cons]
  · simp [prevWith, Json.get?, List.lookup_cons]
  · simp [prevWith, items, Json.get?, List.lookup_cons]

/-- The index of the interface that an address is on gets lost. -/
theorem cmdAdd_loses_interface : ∃ prev printed,
    Exec (fun (s : Unit) _ _ s' => s' = s) ()
      (@cmdAdd Crates.compact ⟨"iptables-nft"⟩ podArgs
        (stdinWith [("interface", .num (.int 0))])).run
      (.ok (@CniResult.toJson Crates.compact podResult)) () ∧
    @prevResultOf Crates.compact (stdinWith [("interface", .num (.int 0))]) = some prev ∧
    ofText (@CniResult.toJson Crates.compact podResult) = some printed ∧
    printed.toValue ≠ prev.toValue := by
  have hmore : ∀ m ∈ [("interface", Json.num (.int 0))],
      m.1 ∉ ["version", "address", "gateway"] := by simp
  have hplain : PlainMembers [("interface", Json.num (.int 0))] := by simp
  refine ⟨_, _, cmdAdd_stdinWith hmore hplain _ _ _ _, prevResultOf_stdinWith hplain,
    @Crates.Lawful.json Crates.compact Crates.compact_lawful podResult, fun heq => ?_⟩
  have hkept := (result_kept_iff (decode_prevWith hmore)).mp heq.symm
  have hip := hkept.ips _ (List.mem_singleton_self _)
  have hkey := hip.1 ("interface", .num (.int 0)) (by simp)
  simp at hkey

end FlannelRs.PortmapRelay
