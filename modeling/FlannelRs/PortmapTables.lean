import FlannelRs.PortmapChains

/-!
# The nat table that several containers publish ports in

Each container has a chain of its own. The chains and hooks that all share only grow, except
that a container removes its own jump.
-/

namespace FlannelRs.PortmapTables
open Ipv4Addresses RustText RuleChains NatTables Portmap PortmapChains

/-- The nat table, what each container has published since its last DEL, and the containers
in the order in which their jumps were appended. -/
structure Node (C : Type) where
  table : Table
  live : C → List Published
  jumps : List C

/-- The chains that all containers use. -/
def sharedChains : List String :=
  ["PREROUTING", "OUTPUT", "POSTROUTING", topChain, setmarkChain, masqChain]

variable {C : Type} (ids : C → String) (t₀ : Table)

/-- A chain that is none of the plugin's business. -/
def Foreign (name : String) : Prop := name ∉ sharedChains ∧ ∀ c, name ≠ dnChain (ids c)

/-- A table with the built-in chains, without chains of the plugin and without jumps into the
void. -/
structure Fresh : Prop where
  builtin : ∀ name ∈ ["PREROUTING", "OUTPUT", "POSTROUTING"], name ∈ t₀
  shared : ∀ name ∈ [topChain, setmarkChain, masqChain], name ∉ t₀
  own : ∀ c, dnChain (ids c) ∉ t₀
  jumps : ∀ name rs, t₀.lookup name = some rs → ∀ r ∈ rs, ∀ n, r.target = .jump n → n ∈ t₀

/-- What may stand in a chain. -/
structure Fits (jumps : List C) (name : String) (rs : List Rule) : Prop where
  hook : name = "PREROUTING" ∨ name = "OUTPUT" →
    ∃ n, rs = List.replicate n hookRule ++ t₀.chain name
  post : name = "POSTROUTING" → ∃ n, rs = List.replicate n (jumpTo masqChain) ++ t₀.chain name
  top : name = topChain → rs = jumps.map fun c => jumpTo (dnChain (ids c))
  setmark : name = setmarkChain → ∀ r ∈ rs, r = setmarkRule
  masq : name = masqChain → ∀ r ∈ rs, r = masqRule
  own : ∀ c, name = dnChain (ids c) → ∀ r ∈ rs, OwnRule r
  foreign : Foreign ids name → t₀.lookup name = some rs

structure Inv (s : Node C) : Prop where
  fits : ∀ name rs, s.table.lookup name = some rs → Fits ids t₀ s.jumps name rs
  kept : ∀ name ∈ t₀, name ∈ s.table
  nodup : s.jumps.Nodup
  top : topChain ∉ s.table → s.jumps = []

variable {ids t₀} {jumps jumps' : List C} {name : String} {rs : List Rule} {r : Rule} {c : C}

theorem dnChain_not_shared (id : String) : dnChain id ∉ sharedChains := by
  intro h
  simp only [sharedChains, List.mem_cons, List.not_mem_nil, or_false] at h
  rcases h with h | h | h | h | h | h <;> exact dnChain_ne (by decide) h

theorem dnChain_ne_shared {id : String} (h : name ∈ sharedChains) : dnChain id ≠ name :=
  fun he => dnChain_not_shared id (he ▸ h)

theorem dnChain_not_builtin (id : String) : dnChain id ∉ builtin := by
  intro h
  simp only [builtin, List.mem_cons, List.not_mem_nil, or_false] at h
  rcases h with h | h | h | h <;> exact dnChain_ne (by decide) h

theorem parse_jumpTo_dnChain (id : String) : parseRule ["-j", dnChain id] = some (jumpTo (dnChain id)) :=
  parse_jumpTo (dnChain_ne (by decide)) (dnChain_ne (by decide))

theorem parse_jumpTo_masqChain : parseRule ["-j", masqChain] = some (jumpTo masqChain) :=
  parse_jumpTo (by decide) (by decide)

/-- The table of a node on which nothing has been set up. -/
def builtinTable : Table :=
  ((∅ : Table).insert "PREROUTING" []).insert "OUTPUT" [] |>.insert "POSTROUTING" []

theorem fresh_builtinTable (ids : C → String) : Fresh ids builtinTable where
  builtin := by decide +kernel
  shared := by decide +kernel
  own c h := by
    have hnames : dnChain (ids c) ∈ builtinTable.keys := h
    have hkeys : builtinTable.keys = ["POSTROUTING", "OUTPUT", "PREROUTING"] := by decide +kernel
    rw [hkeys] at hnames
    simp only [List.mem_cons, List.not_mem_nil, or_false] at hnames
    rcases hnames with h | h | h <;> exact dnChain_ne (by decide) h
  jumps name rs hname r hr := by
    have hempty : ∀ e ∈ builtinTable.entries, e.2 = [] := by decide +kernel
    have hrs : rs = [] := hempty _ (AList.mem_lookup_iff.mp hname)
    simp [hrs] at hr

/-- Of a shared chain, only what concerns its name has to be shown. -/
theorem Fits.of_hook (h : name = "PREROUTING" ∨ name = "OUTPUT")
    (hrs : ∃ n, rs = List.replicate n hookRule ++ t₀.chain name) : Fits ids t₀ jumps name rs where
  hook _ := hrs
  post he := by rcases h with rfl | rfl <;> exact absurd he (by decide)
  top he := by rcases h with rfl | rfl <;> exact absurd he (by decide)
  setmark he := by rcases h with rfl | rfl <;> exact absurd he (by decide)
  masq he := by rcases h with rfl | rfl <;> exact absurd he (by decide)
  own c he := by rcases h with rfl | rfl <;> exact absurd he.symm (dnChain_ne (by decide))
  foreign hf := by rcases h with rfl | rfl <;> exact absurd (by simp [sharedChains]) hf.1

theorem Fits.of_post (hrs : ∃ n, rs = List.replicate n (jumpTo masqChain) ++ t₀.chain "POSTROUTING") :
    Fits ids t₀ jumps "POSTROUTING" rs where
  hook he := absurd he (by decide)
  post _ := hrs
  top he := absurd he (by decide)
  setmark he := absurd he (by decide)
  masq he := absurd he (by decide)
  own _ he := absurd he.symm (dnChain_ne (by decide))
  foreign hf := absurd (by simp [sharedChains]) hf.1

theorem Fits.of_top (hrs : rs = jumps.map fun c => jumpTo (dnChain (ids c))) :
    Fits ids t₀ jumps topChain rs where
  hook he := absurd he (by decide)
  post he := absurd he (by decide)
  top _ := hrs
  setmark he := absurd he (by decide)
  masq he := absurd he (by decide)
  own _ he := absurd he.symm (dnChain_ne (by decide))
  foreign hf := absurd (by simp [sharedChains]) hf.1

theorem Fits.of_setmark (hrs : ∀ r ∈ rs, r = setmarkRule) : Fits ids t₀ jumps setmarkChain rs where
  hook he := absurd he (by decide)
  post he := absurd he (by decide)
  top he := absurd he (by decide)
  setmark _ := hrs
  masq he := absurd he (by decide)
  own _ he := absurd he.symm (dnChain_ne (by decide))
  foreign hf := absurd (by simp [sharedChains]) hf.1

theorem Fits.of_masq (hrs : ∀ r ∈ rs, r = masqRule) : Fits ids t₀ jumps masqChain rs where
  hook he := absurd he (by decide)
  post he := absurd he (by decide)
  top he := absurd he (by decide)
  setmark he := absurd he (by decide)
  masq _ := hrs
  own _ he := absurd he.symm (dnChain_ne (by decide))
  foreign hf := absurd (by simp [sharedChains]) hf.1

theorem Fits.of_own (c : C) (hrs : ∀ r ∈ rs, OwnRule r) :
    Fits ids t₀ jumps (dnChain (ids c)) rs where
  hook he := by rcases he with he | he <;> exact absurd he (dnChain_ne (by decide))
  post he := absurd he (dnChain_ne (by decide))
  top he := absurd he (dnChain_ne (by decide))
  setmark he := absurd he (dnChain_ne (by decide))
  masq he := absurd he (dnChain_ne (by decide))
  own _ _ := hrs
  foreign hf := absurd rfl (hf.2 c)

/-- Only the shared chain of jumps depends on the jumps. -/
theorem Fits.of_ne_top (h : Fits ids t₀ jumps name rs) (hne : name ≠ topChain) :
    Fits ids t₀ jumps' name rs :=
  { h with top := fun he => absurd he hne }

variable {s s' : Node C}

theorem Inv.setmark_only (h : Inv ids t₀ s) :
    ∀ r ∈ s.table.chain setmarkChain, r = setmarkRule := by
  intro r hr
  cases hlookup : s.table.lookup setmarkChain with
  | none => simp [Table.chain, hlookup] at hr
  | some rs =>
    rw [Table.chain_of_lookup hlookup] at hr
    exact (h.fits _ _ hlookup).setmark rfl r hr

/-- Before anything is published. -/
theorem inv_initial (hfresh : Fresh ids t₀) : Inv ids t₀ ⟨t₀, fun _ => [], []⟩ where
  fits name rs hname := by
    have hname : t₀.lookup name = some rs := hname
    have hmem : name ∈ t₀ := AList.lookup_isSome.mp (by rw [hname]; rfl)
    have hchain := Table.chain_of_lookup hname
    constructor
    · exact fun _ => ⟨0, by rw [hchain]; rfl⟩
    · exact fun _ => ⟨0, by rw [hchain]; rfl⟩
    · rintro rfl
      exact absurd hmem (hfresh.shared _ (by simp))
    · rintro rfl
      exact absurd hmem (hfresh.shared _ (by simp))
    · rintro rfl
      exact absurd hmem (hfresh.shared _ (by simp))
    · rintro c rfl
      exact absurd hmem (hfresh.own c)
    · exact fun _ => hname
  kept _ h := h
  nodup := List.nodup_nil
  top _ := rfl

def Node.put (s : Node C) (name : String) (rs : List Rule) : Node C :=
  { s with table := s.table.insert name rs }

theorem Inv.put (h : Inv ids t₀ s) (hfits : Fits ids t₀ s.jumps name rs) :
    Inv ids t₀ (s.put name rs) where
  fits n rs' hn := by
    by_cases he : n = name
    · subst he
      rw [Node.put, AList.lookup_insert] at hn
      rwa [← Option.some.inj hn]
    · exact h.fits n rs' (by rwa [Node.put, AList.lookup_insert_ne he] at hn)
  kept n hn := AList.mem_insert _ |>.mpr (.inr (h.kept n hn))
  nodup := h.nodup
  top ht := h.top fun hmem => ht (AList.mem_insert _ |>.mpr (.inr hmem))

/-- The chain of jumps, with other jumps. -/
def Node.putTop (ids : C → String) (s : Node C) (jumps : List C) : Node C :=
  { s with
    table := s.table.insert topChain (jumps.map fun c => jumpTo (dnChain (ids c)))
    jumps := jumps }

theorem Inv.putTop (h : Inv ids t₀ s) (hnodup : jumps.Nodup) : Inv ids t₀ (s.putTop ids jumps) where
  fits n rs' hn := by
    by_cases he : n = topChain
    · subst he
      rw [Node.putTop, AList.lookup_insert] at hn
      exact .of_top (Option.some.inj hn).symm
    · rw [Node.putTop, AList.lookup_insert_ne he] at hn
      exact (h.fits n rs' hn).of_ne_top he
  kept n hn := AList.mem_insert _ |>.mpr (.inr (h.kept n hn))
  nodup := hnodup
  top ht := absurd (AList.mem_insert _ |>.mpr (.inl rfl)) ht

def Node.drop (s : Node C) (name : String) : Node C := { s with table := s.table.erase name }

theorem Inv.drop (h : Inv ids t₀ s) (hfresh : Fresh ids t₀) (c : C) :
    Inv ids t₀ (s.drop (dnChain (ids c))) where
  fits n rs' hn := by
    by_cases he : n = dnChain (ids c)
    · subst he
      simp [Node.drop] at hn
    · exact h.fits n rs' (by rwa [Node.drop, AList.lookup_erase_ne he] at hn)
  kept n hn := by
    refine AList.mem_erase.mpr ⟨?_, h.kept n hn⟩
    rintro rfl
    exact hfresh.own c hn
  nodup := h.nodup
  top ht := h.top fun hmem => ht (AList.mem_erase.mpr ⟨(dnChain_ne (by decide)).symm, hmem⟩)

/-- The shared chains stay, and so do their rules, but for the jumps. -/
structure Lasts (s s' : Node C) : Prop where
  names : ∀ name ∈ sharedChains, name ∈ s.table → name ∈ s'.table
  rules : ∀ name ∈ sharedChains, name ≠ topChain → ∀ r ∈ s.table.chain name, r ∈ s'.table.chain name

theorem Lasts.refl (s : Node C) : Lasts s s := ⟨fun _ _ h => h, fun _ _ _ _ h => h⟩

theorem Lasts.trans {s'' : Node C} (h : Lasts s s') (h' : Lasts s' s'') : Lasts s s'' :=
  ⟨fun n hn hs => h'.names n hn (h.names n hn hs),
    fun n hn hne r hr => h'.rules n hn hne r (h.rules n hn hne r hr)⟩

/-- What belongs to a container is as it was. -/
structure Untouched (ids : C → String) (c : C) (s s' : Node C) : Prop where
  own : s'.table.lookup (dnChain (ids c)) = s.table.lookup (dnChain (ids c))
  jump : c ∈ s'.jumps ↔ c ∈ s.jumps
  live : s'.live c = s.live c

theorem Untouched.refl (s : Node C) : Untouched ids c s s := ⟨rfl, Iff.rfl, rfl⟩

theorem Untouched.trans {s'' : Node C} (h : Untouched ids c s s') (h' : Untouched ids c s' s'') :
    Untouched ids c s s'' :=
  ⟨h'.own.trans h.own, h'.jump.trans h.jump, h'.live.trans h.live⟩

/-- What the commands of a container do to the others. -/
structure Guar (ids : C → String) (c : C) (s s' : Node C) : Prop where
  lasts : Lasts s s'
  others : ∀ q, q ≠ c → Untouched ids q s s'

theorem Guar.refl (s : Node C) : Guar ids c s s := ⟨.refl s, fun _ _ => .refl s⟩

/-- A chain that is not the one of jumps keeps its rules and may get others. -/
theorem Lasts.put (h : ∀ r ∈ s.table.chain name, name ∈ sharedChains → name ≠ topChain → r ∈ rs) :
    Lasts s (s.put name rs) where
  names n _ hn := AList.mem_insert _ |>.mpr (.inr hn)
  rules n hn hne r hr := by
    rw [Node.put, Table.chain_insert]
    by_cases he : n = name
    · subst he
      rw [if_pos rfl]
      exact h r hr hn hne
    · rwa [if_neg he]

theorem Guar.put_shared (hname : name ∈ sharedChains)
    (h : ∀ r ∈ s.table.chain name, name ≠ topChain → r ∈ rs) : Guar ids c s (s.put name rs) where
  lasts := .put fun r hr _ hne => h r hr hne
  others q _ := by
    refine ⟨?_, Iff.rfl, rfl⟩
    rw [Node.put, AList.lookup_insert_ne (dnChain_ne_shared hname)]

variable (hinj : Function.Injective fun c => dnChain (ids c))

include hinj

theorem Guar.put_own (c : C) (rs : List Rule) : Guar ids c s (s.put (dnChain (ids c)) rs) where
  lasts := .put fun r hr hn _ => absurd hn (dnChain_not_shared _)
  others q hq := by
    refine ⟨?_, Iff.rfl, rfl⟩
    rw [Node.put, AList.lookup_insert_ne fun he => hq (hinj he)]

theorem Guar.drop (c : C) : Guar ids c s (s.drop (dnChain (ids c))) where
  lasts := by
    have hne : ∀ name ∈ sharedChains, name ≠ dnChain (ids c) :=
      fun name hn => (dnChain_ne_shared hn).symm
    constructor
    · exact fun n hn hs => AList.mem_erase.mpr ⟨hne n hn, hs⟩
    · intro n hn _ r hr
      rwa [Table.chain, Node.drop, AList.lookup_erase_ne (hne n hn)]
  others q hq := by
    refine ⟨?_, Iff.rfl, rfl⟩
    rw [Node.drop, AList.lookup_erase_ne fun he => hq (hinj he)]

omit hinj in
/-- Jumps of other containers stay. -/
theorem Guar.putTop (h : ∀ q, q ≠ c → (q ∈ jumps ↔ q ∈ s.jumps)) :
    Guar ids c s (s.putTop ids jumps) where
  lasts := by
    constructor
    · exact fun n _ hs => AList.mem_insert _ |>.mpr (.inr hs)
    · intro n _ hne r hr
      rwa [Node.putTop, Table.chain_insert, if_neg hne]
  others q hq := by
    refine ⟨?_, h q hq, rfl⟩
    rw [Node.putTop, AList.lookup_insert_ne (dnChain_ne (by decide))]

end FlannelRs.PortmapTables
