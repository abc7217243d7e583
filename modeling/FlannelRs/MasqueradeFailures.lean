import FlannelRs.Masquerade

/-!
# Masquerade rules when commands fail

Calls of `ensure` one after the other, without interference. Any append may fail, and the
backend may not know `--random-fully`.
-/

namespace FlannelRs.MasqueradeFailures
open InteractionPrograms Ipv4Addresses RuleChains NatTables Masquerade

/-- The nat table, and whether an append has failed for another reason than the option. -/
structure State where
  table : Table
  failed : Bool

def rulesOf (s : State) : List Rule := s.table.chain "POSTROUTING"

/-- The backend does not know an option. -/
def Unknown (rejects : Bool) (args : List String) : Prop :=
  rejects = true ∧ "--random-fully" ∈ args

def Succeeds (r : Except String Output) : Prop := ∃ stderr, r = .ok ⟨true, stderr⟩

/-- A check tells what is there. An append is done, or fails and has no effect. -/
inductive Answers (rejects : Bool) : Environment State Command CommandRes
  | rejectCheck {s : State} {name : String} {args : List String} {r : Except String Output}
      (hunknown : Unknown rejects args) (hfail : ¬ Succeeds r) :
      Answers rejects s (.check name args) r s
  | rejectAppend {s : State} {name : String} {args : List String} {r : Except String Output}
      (hunknown : Unknown rejects args) (hfail : ¬ Succeeds r) :
      Answers rejects s (.append name args) r s
  | check {s : State} {name : String} {args : List String} {out : Output}
      (hknown : ¬ Unknown rejects args)
      (hout : out.success = (s.table.answer (.check name args)).1.success) :
      Answers rejects s (.check name args) (.ok out) s
  | append {s : State} {name : String} {args : List String} {stderr : String} {t : Table}
      (hknown : ¬ Unknown rejects args) (hperform : s.table.perform (.append name args) = some t) :
      Answers rejects s (.append name args) (.ok ⟨true, stderr⟩) ⟨t, s.failed⟩
  | fail {s : State} {name : String} {args : List String} {r : Except String Output}
      (hknown : ¬ Unknown rejects args) (hfail : ¬ Succeeds r) :
      Answers rejects s (.append name args) r ⟨s.table, true⟩

/-- The states between the calls. -/
inductive Reached (rejects : Bool) (network subnet : String) (t : Table) : State → Prop
  | start : Reached rejects network subnet t ⟨t, false⟩
  | ensure {s s' : State} {r : Except Failure Unit} (before : Reached rejects network subnet t s)
      (exec : Exec (Answers rejects) s (ensure network subnet).run r s') :
      Reached rejects network subnet t s'

variable {net subnet : Ipv4Network} {rejects : Bool} {s s' : State} {args : List String} {q : Rule}

theorem targetExists_of_mem (h : q ∈ flannelRules net subnet) (t : Table) :
    t.targetExists q.target = true := by
  simp only [flannelRules, List.mem_cons, List.not_mem_nil, or_false] at h
  rcases h with rfl | rfl | rfl | rfl | rfl | rfl <;> rfl

/-- What a check tells of a rule. -/
theorem success_check {t : Table} (hparse : parseRule args = some q)
    (hours : q ∈ flannelRules net subnet) :
    (t.answer (.check "POSTROUTING" args)).1.success = decide (q ∈ t.chain "POSTROUTING") := by
  cases hlookup : t.lookup "POSTROUTING" with
  | none => simp [Table.answer, Table.perform, Table.readRule, Table.chain, hlookup]
  | some rs =>
    have hread := Table.readRule_of hlookup hparse (targetExists_of_mem hours t)
    rw [Table.chain_of_lookup hlookup]
    exact (Table.answer_check hread).1

theorem wlp_ruleExists (hparse : parseRule args = some q) (hours : q ∈ flannelRules net subnet) :
    wlp (Answers rejects) (fun r s' => s' = s ∧ ((Unknown rejects args ∧ r ≠ .ok true) ∨
      (¬ Unknown rejects args ∧ r = .ok (decide (q ∈ rulesOf s))))) (ruleExists args).run s := by
  refine wlp.exceptBind wlp_call ?_ ?_
  · rintro out s' ⟨r', hanswers, hsame⟩
    obtain rfl := (hsame out).mp rfl
    cases hanswers with
    | rejectCheck hargs hfail =>
      refine ⟨rfl, .inl ⟨hargs, fun he => hfail ⟨out.stderr, ?_⟩⟩⟩
      have hsuccess : out.success = true := Except.ok.inj he
      rw [← hsuccess]
    | check hknown hout =>
      refine ⟨rfl, .inr ⟨hknown, ?_⟩⟩
      rw [success_check hparse hours] at hout
      exact congrArg Except.ok hout
  · rintro e s' ⟨r', hanswers, hsame⟩
    cases hanswers with
    | rejectCheck hargs hfail =>
      exact ⟨rfl, .inl ⟨hargs, nofun⟩⟩
    | check hknown hout => cases (hsame _).mpr rfl

theorem wlp_append (hparse : parseRule args = some q) :
    wlp (Answers rejects) (fun r s' =>
      (Unknown rejects args ∧ s' = s ∧ r ≠ .ok ()) ∨
      (¬ Unknown rejects args ∧ r = .ok () ∧ s'.failed = s.failed ∧
        rulesOf s' = rulesOf s ++ [q]) ∨
      (¬ Unknown rejects args ∧ r ≠ .ok () ∧ s' = ⟨s.table, true⟩)) (append args).run s := by
  refine wlp.exceptBind wlp_call ?_ ?_
  · rintro out s' ⟨r', hanswers, hsame⟩
    obtain rfl := (hsame out).mp rfl
    obtain ⟨success, stderr⟩ := out
    cases hanswers with
    | rejectAppend hargs hfail =>
      cases success with
      | true => exact absurd ⟨stderr, rfl⟩ hfail
      | false => exact .inl ⟨hargs, rfl, nofun⟩
    | append hknown hperform =>
      obtain ⟨q', hq', rfl⟩ := Table.perform_append hperform
      obtain rfl := Option.some.inj (hparse.symm.trans hq')
      refine .inr (.inl ⟨hknown, rfl, rfl, ?_⟩)
      rw [rulesOf, Table.chain_insert, if_pos rfl, rulesOf]
    | fail hknown hfail =>
      cases success with
      | true => exact absurd ⟨stderr, rfl⟩ hfail
      | false => exact .inr (.inr ⟨hknown, nofun, rfl⟩)
  · rintro e s' ⟨r', hanswers, hsame⟩
    cases hanswers with
    | rejectAppend hargs hfail =>
      exact .inl ⟨hargs, rfl, nofun⟩
    | append hknown hperform => cases (hsame _).mpr rfl
    | fail hknown hfail => exact .inr (.inr ⟨hknown, nofun, rfl⟩)

/-- A rule that is ensured, as it is with its options and as it is without `--random-fully`. -/
structure Entry where
  args : List String
  full : Rule
  short : Rule

/-- As it is appended when nothing fails. -/
def Entry.form (rejects : Bool) (e : Entry) : Rule := if rejects then e.short else e.full

structure Entry.Fits (net subnet : Ipv4Network) (e : Entry) : Prop where
  parse : parseRule e.args = some e.full
  parse_stripped : parseRule (stripped e.args) = some e.short
  full : e.full ∈ flannelRules net subnet
  short : e.short ∈ flannelRules net subnet
  plain : "--random-fully" ∉ e.args → e.full = e.short

/-- What ensuring a rule does. -/
structure Ensures (rejects : Bool) (e : Entry) (s : State) (r : Except Failure Unit) (s' : State) :
    Prop where
  chain : rulesOf s' = rulesOf s ∨ ∃ q, (q = e.full ∨ q = e.short) ∧
    rulesOf s' = rulesOf s ++ [q] ∧
    (s'.failed = false → q = e.form rejects ∧ e.form rejects ∉ rulesOf s)
  failed : s'.failed = false → s.failed = false
  there : r = .ok () → e.full ∈ rulesOf s' ∨ e.short ∈ rulesOf s'
  form : r = .ok () → s'.failed = false → e.form rejects ∈ rulesOf s'
  same : e.form rejects ∈ rulesOf s → s' = s

variable {e : Entry}

theorem Entry.Fits.form_full (h : e.Fits net subnet) (hknown : ¬ Unknown rejects e.args) :
    e.form rejects = e.full := by
  unfold Entry.form
  cases rejects with
  | false => rfl
  | true => exact (h.plain fun hmem => hknown ⟨rfl, hmem⟩).symm

theorem Entry.form_short (hunknown : Unknown rejects e.args) : e.form rejects = e.short := by
  rw [Entry.form, hunknown.1, if_pos rfl]

theorem not_unknown_stripped : ¬ Unknown rejects (stripped args) := by
  rintro ⟨-, h⟩
  simp [stripped] at h

/-- The second try, without the option. -/
def ensureStripped (args : List String) : MasqProgram Unit := do
  if ← ruleExists (stripped args) then return () else append (stripped args)

theorem wlp_ensureStripped (h : e.Fits net subnet) :
    wlp (Answers rejects) (fun r s' =>
      (rulesOf s' = rulesOf s ∨ (rulesOf s' = rulesOf s ++ [e.short] ∧ e.short ∉ rulesOf s)) ∧
      (s'.failed = false → s.failed = false) ∧ (r = .ok () → e.short ∈ rulesOf s') ∧
      (e.short ∈ rulesOf s → s' = s)) (ensureStripped e.args).run s := by
  refine wlp.exceptBind (wlp_ruleExists h.parse_stripped h.short) ?_ ?_
  · rintro found s₁ ⟨rfl, ⟨hunknown, -⟩ | ⟨-, hfound⟩⟩
    · exact absurd hunknown not_unknown_stripped
    · obtain rfl := Except.ok.inj hfound
      by_cases hmem : e.short ∈ rulesOf s₁
      · rw [decide_eq_true hmem, if_pos rfl]
        exact ⟨.inl rfl, fun hf => hf, fun _ => hmem, fun _ => rfl⟩
      · rw [decide_eq_false hmem, if_neg Bool.false_ne_true]
        refine (wlp_append h.parse_stripped).mono ?_
        rintro r s₂ (⟨hunknown, -⟩ | ⟨-, hr, hsame, hrules⟩ | ⟨-, hr, rfl⟩)
        · exact absurd hunknown not_unknown_stripped
        · exact ⟨.inr ⟨hrules, hmem⟩, fun hf => hsame ▸ hf, fun _ => by simp [hrules],
            fun hno => absurd hno hmem⟩
        · exact ⟨.inl rfl, nofun, fun hok => absurd hok hr, fun hno => absurd hno hmem⟩
  · rintro err s₁ ⟨rfl, ⟨hunknown, -⟩ | ⟨-, hfound⟩⟩
    · exact absurd hunknown not_unknown_stripped
    · cases hfound

/-- Where the option is not known, only the second try counts. -/
theorem wlp_ensureRule_unknown (h : e.Fits net subnet) (hunknown : Unknown rejects e.args) :
    wlp (Answers rejects) (fun r s' => Ensures rejects e s r s') (ensureRule e.args).run s := by
  have hform := Entry.form_short hunknown
  refine wlp.exceptBind (wlp_ruleExists h.parse h.full) ?_ ?_
  · rintro found s₁ ⟨rfl, ⟨-, hfound⟩ | ⟨hknown, -⟩⟩
    · have hnot : found = false := by
        cases found with
        | true => exact absurd rfl hfound
        | false => rfl
      rw [hnot, if_neg Bool.false_ne_true]
      refine (wlp_append h.parse).liftBind ?_
      rintro r s₂ (⟨-, rfl, hr⟩ | ⟨hknown, -⟩ | ⟨hknown, -⟩)
      · cases r with
        | ok u => exact absurd rfl hr
        | error err =>
          simp only [if_pos hunknown.2]
          refine (wlp_ensureStripped h).mono ?_
          rintro r s' ⟨hchain, hfailed, hthere, hsame⟩
          constructor
          · rcases hchain with hchain | ⟨hchain, hnew⟩
            · exact .inl hchain
            · exact .inr ⟨e.short, .inr rfl, hchain, fun _ => ⟨hform.symm, hform ▸ hnew⟩⟩
          · exact hfailed
          · exact fun hr => .inr (hthere hr)
          · exact fun hr _ => hform ▸ hthere hr
          · exact fun hmem => hsame (hform ▸ hmem)
      · exact absurd hunknown hknown
      · exact absurd hunknown hknown
    · exact absurd hunknown hknown
  · rintro err s₁ ⟨rfl, -⟩
    exact ⟨.inl rfl, fun hf => hf, nofun, nofun, fun _ => rfl⟩

/-- Where it is known, the second try comes after a failure. -/
theorem wlp_ensureRule_known (h : e.Fits net subnet) (hknown : ¬ Unknown rejects e.args) :
    wlp (Answers rejects) (fun r s' => Ensures rejects e s r s') (ensureRule e.args).run s := by
  have hform := h.form_full hknown
  refine wlp.exceptBind (wlp_ruleExists h.parse h.full) ?_ ?_
  · rintro found s₁ ⟨rfl, ⟨hunknown, -⟩ | ⟨-, hfound⟩⟩
    · exact absurd hunknown hknown
    · obtain rfl := Except.ok.inj hfound
      by_cases hmem : e.full ∈ rulesOf s₁
      · rw [decide_eq_true hmem, if_pos rfl]
        exact ⟨.inl rfl, fun hf => hf, fun _ => .inl hmem, fun _ _ => hform ▸ hmem, fun _ => rfl⟩
      · have habsent : e.form rejects ∉ rulesOf s₁ := hform ▸ hmem
        rw [decide_eq_false hmem, if_neg Bool.false_ne_true]
        refine (wlp_append h.parse).liftBind ?_
        rintro r s₂ (⟨hunknown, -⟩ | ⟨-, rfl, hsame, hrules⟩ | ⟨-, hr, rfl⟩)
        · exact absurd hunknown hknown
        · have hthere : e.full ∈ rulesOf s₂ := by simp [hrules]
          exact ⟨.inr ⟨e.full, .inl rfl, hrules, fun _ => ⟨hform.symm, habsent⟩⟩,
            fun hf => hsame ▸ hf, fun _ => .inl hthere, fun _ _ => hform ▸ hthere,
            fun hno => absurd hno habsent⟩
        · cases r with
          | ok u => exact absurd rfl hr
          | error err =>
            by_cases hrandom : "--random-fully" ∈ e.args
            · simp only [if_pos hrandom]
              refine (wlp_ensureStripped h).mono ?_
              rintro r s' ⟨hchain, hfailed, hthere, -⟩
              have hf : s'.failed ≠ false := fun hf => by cases hfailed hf
              constructor
              · rcases hchain with hchain | ⟨hchain, -⟩
                · exact .inl hchain
                · exact .inr ⟨e.short, .inr rfl, hchain, fun hno => absurd hno hf⟩
              · exact fun hno => absurd hno hf
              · exact fun hr => .inr (hthere hr)
              · exact fun _ hno => absurd hno hf
              · exact fun hno => absurd hno habsent
            · simp only [if_neg hrandom]
              exact ⟨.inl rfl, nofun, nofun, nofun, fun hno => absurd hno habsent⟩
  · rintro err s₁ ⟨rfl, -⟩
    exact ⟨.inl rfl, fun hf => hf, nofun, nofun, fun _ => rfl⟩

theorem wlp_ensureRule (h : e.Fits net subnet) :
    wlp (Answers rejects) (fun r s' => Ensures rejects e s r s') (ensureRule e.args).run s := by
  by_cases hunknown : Unknown rejects e.args
  · exact wlp_ensureRule_unknown h hunknown
  · exact wlp_ensureRule_known h hunknown

section

variable {A : Type} {front back : List A} {a : A} {k : ℕ}

/-- An element of a list without repetition is among the first ones if they reach it. -/
theorem mem_take_iff (hnodup : (front ++ a :: back).Nodup) (hk : front.length ≤ k) :
    a ∈ (front ++ a :: back).take k ↔ front.length < k := by
  obtain ⟨j, rfl⟩ := Nat.exists_eq_add_of_le hk
  rw [List.take_length_add_append]
  cases j with
  | zero =>
    have hnot : a ∉ front := fun hmem => (List.nodup_append.mp hnodup).2.2 a hmem a (by simp) rfl
    simp [hnot]
  | succ j =>
    rw [List.take_succ_cons]
    simp

end

/-- The chain while the rules are ensured one after the other: some are done, and if nothing has
failed then those that stand there are the first ones. -/
structure Shape (net subnet : Ipv4Network) (rejects : Bool) (base : List Rule)
    (entries done : List Entry) (s : State) (added : List Rule) : Prop where
  chain : rulesOf s = base ++ added
  ours : ∀ r ∈ added, r ∈ flannelRules net subnet
  covered : Covered (needs net subnet) added
  there : ∀ e ∈ done, e.full ∈ added ∨ e.short ∈ added
  exact : s.failed = false → ∃ k, done.length ≤ k ∧
    added = (entries.map (Entry.form rejects)).take k

/-- What a rule needs is one of those before it, which is the same without the option. -/
def Behind (net subnet : Ipv4Network) (done : List Entry) (e : Entry) : Prop :=
  ∀ q, q ∈ needs net subnet e.full ∨ q ∈ needs net subnet e.short →
    ∃ e' ∈ done, e'.full = q ∧ e'.short = q

variable {base added : List Rule} {done todo : List Entry} {r : Except Failure Unit}

theorem Shape.step (h : Shape net subnet rejects base (done ++ e :: todo) done s added)
    (hbase : ∀ r ∈ base, r ∉ flannelRules net subnet) (he : e.Fits net subnet)
    (hbehind : Behind net subnet done e)
    (hnodup : ((done ++ e :: todo).map (Entry.form rejects)).Nodup)
    (hens : Ensures rejects e s r s') :
    ∃ added', Shape net subnet rejects base (done ++ e :: todo) done s' added' ∧
      (r = .ok () → Shape net subnet rejects base (done ++ e :: todo) (done ++ [e]) s' added') := by
  have hform : e.form rejects ∈ flannelRules net subnet := by
    unfold Entry.form
    cases rejects with
    | false => exact he.full
    | true => exact he.short
  have hmem : ∀ {s added q}, rulesOf s = base ++ added → q ∈ flannelRules net subnet →
      (q ∈ rulesOf s ↔ q ∈ added) := by
    intro s added q hchain hq
    rw [hchain, List.mem_append, or_iff_right fun hb => hbase q hb hq]
  rw [List.map_append, List.map_cons] at hnodup
  have htake : ∀ {k}, done.length ≤ k →
      (e.form rejects ∈ ((done ++ e :: todo).map (Entry.form rejects)).take k ↔ done.length < k) := by
    intro k hk
    rw [List.map_append, List.map_cons]
    rw [← List.length_map (f := Entry.form rejects)] at hk ⊢
    exact mem_take_iff hnodup hk
  have hdone : ∀ {added'}, rulesOf s' = base ++ added' → (∀ q ∈ added, q ∈ added') → r = .ok () →
      ∀ e' ∈ done ++ [e], e'.full ∈ added' ∨ e'.short ∈ added' := by
    intro added' hchain hsub hr e' he'
    rcases List.mem_append.mp he' with he' | he'
    · exact (h.there e' he').imp (hsub _) (hsub _)
    · rw [List.mem_singleton.mp he', ← hmem hchain he.full, ← hmem hchain he.short]
      exact hens.there hr
  rcases hens.chain with hchain | ⟨q, hq, hchain, hexact⟩
  · have hchain' := hchain.trans h.chain
    refine ⟨added, ⟨hchain', h.ours, h.covered, h.there, fun hf => h.exact (hens.failed hf)⟩,
      fun hr => ⟨hchain', h.ours, h.covered, hdone hchain' (fun _ hq => hq) hr, fun hf => ?_⟩⟩
    obtain ⟨k, hk, hadded⟩ := h.exact (hens.failed hf)
    have hthere := (hmem hchain' hform).mp (hens.form hr hf)
    rw [hadded, htake hk] at hthere
    exact ⟨k, by rw [List.length_append]; exact hthere, hadded⟩
  · have hours : q ∈ flannelRules net subnet := by
      rcases hq with rfl | rfl
      · exact he.full
      · exact he.short
    have hchain' : rulesOf s' = base ++ (added ++ [q]) := by
      rw [hchain, h.chain, List.append_assoc]
    have hall : ∀ x ∈ added ++ [q], x ∈ flannelRules net subnet := by
      intro x hx
      rcases List.mem_append.mp hx with hx | hx
      · exact h.ours x hx
      · rwa [List.mem_singleton.mp hx]
    have hcovered : Covered (needs net subnet) (added ++ [q]) := by
      refine h.covered.concat fun x hx => ?_
      obtain ⟨e', he', hfull, hshort⟩ := hbehind x (by
        rcases hq with rfl | rfl
        · exact .inl hx
        · exact .inr hx)
      have hthere := h.there e' he'
      rwa [hfull, hshort, or_self] at hthere
    have hnew : s'.failed = false → ∃ k, done.length + 1 ≤ k ∧
        added ++ [q] = ((done ++ e :: todo).map (Entry.form rejects)).take k := by
      intro hf
      obtain ⟨hqform, hnot⟩ := hexact hf
      obtain ⟨k, hk, hadded⟩ := h.exact (hens.failed hf)
      rw [hmem h.chain hform, hadded, htake hk] at hnot
      obtain rfl : k = done.length := by omega
      refine ⟨done.length + 1, le_rfl, ?_⟩
      rw [hadded, hqform, List.map_append, List.map_cons,
        ← List.length_map (f := Entry.form rejects), List.take_left', List.take_length_add_append]
      · simp
      · rfl
    refine ⟨added ++ [q], ⟨hchain', hall, hcovered, fun e' he' => ?_, fun hf => ?_⟩,
      fun hr => ⟨hchain', hall, hcovered, hdone hchain' (fun x hx => by simp [hx]) hr, fun hf => ?_⟩⟩
    · exact (h.there e' he').imp (List.mem_append_left _) (List.mem_append_left _)
    · obtain ⟨k, hk, hadded⟩ := hnew hf
      exact ⟨k, by omega, hadded⟩
    · obtain ⟨k, hk, hadded⟩ := hnew hf
      exact ⟨k, by simpa using hk, hadded⟩

/-- Entries each of which comes behind what it needs. -/
def Ordered (net subnet : Ipv4Network) (entries : List Entry) : Prop :=
  ∀ done e todo, entries = done ++ e :: todo → Behind net subnet done e

theorem wlp_entries {entries : List Entry} (hbase : ∀ r ∈ base, r ∉ flannelRules net subnet)
    (hfits : ∀ e ∈ entries, e.Fits net subnet) (hordered : Ordered net subnet entries)
    (hnodup : (entries.map (Entry.form rejects)).Nodup) (hentries : entries = done ++ todo)
    (h : Shape net subnet rejects base entries done s added) :
    wlp (Answers rejects) (fun r s' => (∃ done' added',
        Shape net subnet rejects base entries done' s' added') ∧
      (r = .ok () → ∃ added', Shape net subnet rejects base entries entries s' added'))
      ((todo.map Entry.args).forM ensureRule).run s := by
  induction todo generalizing done s added with
  | nil =>
    rw [List.append_nil] at hentries
    exact ⟨⟨done, added, h⟩, fun _ => ⟨added, by rwa [← hentries] at h⟩⟩
  | cons e todo ih =>
    have he := hfits e (by simp [hentries])
    have hone : ∀ {s₁ r}, Ensures rejects e s r s₁ → ∃ added₁,
        Shape net subnet rejects base entries done s₁ added₁ ∧
        (r = .ok () → Shape net subnet rejects base entries (done ++ [e]) s₁ added₁) := by
      intro s₁ r hens
      rw [hentries] at h hnodup ⊢
      exact h.step hbase he (hordered done e todo hentries) hnodup hens
    refine wlp.exceptBind (wlp_ensureRule he) ?_ ?_
    · rintro u s₁ hens
      obtain ⟨added₁, -, hok⟩ := hone hens
      exact ih (by simp [hentries]) (hok rfl)
    · rintro err s₁ hens
      obtain ⟨added₁, hshape, -⟩ := hone hens
      exact ⟨⟨done, added₁, hshape⟩, nofun⟩

/-- Before the next call. -/
theorem Shape.again {entries : List Entry} (h : Shape net subnet rejects base entries done s added) :
    Shape net subnet rejects base entries [] s added :=
  ⟨h.chain, h.ours, h.covered, fun _ he => absurd he List.not_mem_nil, fun hf => by
    obtain ⟨k, -, hadded⟩ := h.exact hf
    exact ⟨k, Nat.zero_le k, hadded⟩⟩

/-- Once all rules are there as they are appended when nothing fails, no call changes anything. -/
theorem wlp_entries_same {entries : List Entry} (hfits : ∀ e ∈ entries, e.Fits net subnet)
    (hthere : ∀ e ∈ entries, e.form rejects ∈ rulesOf s) :
    wlp (Answers rejects) (fun _ s' => s' = s) ((entries.map Entry.args).forM ensureRule).run s := by
  induction entries with
  | nil => rfl
  | cons e entries ih =>
    obtain ⟨he, hes⟩ := List.forall_mem_cons.mp hfits
    obtain ⟨ht, hts⟩ := List.forall_mem_cons.mp hthere
    refine wlp.exceptBind (wlp_ensureRule he) ?_ ?_
    · rintro u s₁ hens
      rw [hens.same ht]
      exact ih hes hts
    · rintro err s₁ hens
      exact hens.same ht

def entriesOf (net subnet : Ipv4Network) (network subnetText : String) : List Entry :=
  [⟨["-s", network, "-d", network, "-j", "RETURN"], podToPod net, podToPod net⟩,
    ⟨["-s", network, "!", "-d", "224.0.0.0/4", "-j", "MASQUERADE", "--random-fully"],
      podToExternal net true, podToExternal net false⟩,
    ⟨["!", "-s", network, "-d", subnetText, "-j", "RETURN"], toLocalPods net subnet,
      toLocalPods net subnet⟩,
    ⟨["!", "-s", network, "-d", network, "-j", "MASQUERADE", "--random-fully"],
      toRemotePods net true, toRemotePods net false⟩]

/-- The rules as they are appended when nothing fails. -/
def fourRules (net subnet : Ipv4Network) (randomFully : Bool) : List Rule :=
  [podToPod net, podToExternal net randomFully, toLocalPods net subnet, toRemotePods net randomFully]

variable {network subnetText : String} {t : Table}

theorem ensure_eq (net subnet : Ipv4Network) : ensure network subnetText =
    ((entriesOf net subnet network subnetText).map Entry.args).forM ensureRule := by
  rw [ensure, masqRules, entriesOf]
  rfl

theorem forms_entriesOf (rejects : Bool) : (entriesOf net subnet network subnetText).map
    (Entry.form rejects) = fourRules net subnet (!rejects) := by
  cases rejects <;> rfl

theorem nodup_fourRules (b : Bool) : (fourRules net subnet b).Nodup := by
  simp [fourRules, podToPod, podToExternal, toLocalPods, toRemotePods]

theorem ordered_entriesOf : Ordered net subnet (entriesOf net subnet network subnetText) := by
  intro done e todo h q hq
  have hone : ∀ {net subnet b}, needs net subnet (podToExternal net b) = some (podToPod net) ∧
      needs net subnet (toRemotePods net b) = some (toLocalPods net subnet) := by
    intro net subnet b
    simp [needs, podToExternal, toRemotePods]
  rcases done with _ | ⟨e₁, _ | ⟨e₂, _ | ⟨e₃, _ | ⟨e₄, done⟩⟩⟩⟩
  · obtain ⟨rfl, -⟩ := List.cons.inj h
    rcases hq with hq | hq <;> cases hq
  · simp only [entriesOf, List.cons_append, List.nil_append, List.cons.injEq] at h
    obtain ⟨rfl, rfl, -⟩ := h
    rw [hone.1, hone.1, or_self] at hq
    exact ⟨_, List.mem_singleton_self _, Option.some.inj hq, Option.some.inj hq⟩
  · simp only [entriesOf, List.cons_append, List.nil_append, List.cons.injEq] at h
    obtain ⟨-, -, rfl, -⟩ := h
    rcases hq with hq | hq <;> cases hq
  · simp only [entriesOf, List.cons_append, List.nil_append, List.cons.injEq] at h
    obtain ⟨-, -, rfl, rfl, -⟩ := h
    rw [hone.2, hone.2, or_self] at hq
    exact ⟨_, List.mem_of_getLast? rfl, Option.some.inj hq, Option.some.inj hq⟩
  · simp [entriesOf] at h

theorem fits_entriesOf (hn : parseAddress network = some net)
    (hsn : parseAddress subnetText = some subnet) :
    ∀ e ∈ entriesOf net subnet network subnetText, e.Fits net subnet := by
  have hnr := ne_random_of_parseAddress hn
  have hsnr := ne_random_of_parseAddress hsn
  simp only [entriesOf, List.forall_mem_cons]
  refine ⟨⟨parse_podToPod hn, ?_, ?_, ?_, fun _ => rfl⟩,
    ⟨(parse_podToExternal hn).1, ?_, ?_, ?_, fun hno => absurd (by simp) hno⟩,
    ⟨parse_toLocalPods hn hsn, ?_, ?_, ?_, fun _ => rfl⟩,
    ⟨(parse_toRemotePods hn).1, ?_, ?_, ?_, fun hno => absurd (by simp) hno⟩, by simp⟩
  · simpa [stripped, hnr] using parse_podToPod hn
  · simp [flannelRules]
  · simp [flannelRules]
  · simpa [stripped, hnr] using (parse_podToExternal hn).2
  · simp [flannelRules]
  · simp [flannelRules]
  · simpa [stripped, hnr, hsnr] using parse_toLocalPods hn hsn
  · simp [flannelRules]
  · simp [flannelRules]
  · simpa [stripped, hnr] using (parse_toRemotePods hn).2
  · simp [flannelRules]
  · simp [flannelRules]

theorem nodup_forms :
    ((entriesOf net subnet network subnetText).map (Entry.form rejects)).Nodup := by
  rw [forms_entriesOf]
  exact nodup_fourRules _

theorem not_ours (ht : Masquerade.ours net subnet t = []) :
    ∀ r ∈ t.chain "POSTROUTING", r ∉ flannelRules net subnet := by
  intro r hr hours
  have hmem : r ∈ Masquerade.ours net subnet t := List.mem_filter.mpr ⟨hr, by simpa using hours⟩
  rw [ht] at hmem
  cases hmem

theorem Reached.shape (hn : parseAddress network = some net)
    (hsn : parseAddress subnetText = some subnet) (ht : Masquerade.ours net subnet t = [])
    (h : Reached rejects network subnetText t s) : ∃ added,
    Shape net subnet rejects (t.chain "POSTROUTING") (entriesOf net subnet network subnetText) [] s
      added := by
  induction h with
  | start =>
    exact ⟨[], by simp [rulesOf], fun _ hr => absurd hr List.not_mem_nil, .nil,
      fun _ he => absurd he List.not_mem_nil, fun _ => ⟨0, le_rfl, rfl⟩⟩
  | ensure before exec ih =>
    obtain ⟨added, hshape⟩ := ih
    rw [ensure_eq net subnet] at exec
    obtain ⟨⟨done', added', hshape'⟩, -⟩ := exec.wlp (wlp_entries (not_ours ht)
      (fits_entriesOf hn hsn) ordered_entriesOf nodup_forms rfl hshape)
    exact ⟨added', hshape'.again⟩

theorem Shape.filters {entries : List Entry}
    (h : Shape net subnet rejects base entries done s added)
    (hbase : ∀ r ∈ base, r ∉ flannelRules net subnet) :
    Masquerade.ours net subnet s.table = added ∧
      (s.table.chain "POSTROUTING").filter (· ∉ flannelRules net subnet) = base := by
  have hchain : s.table.chain "POSTROUTING" = base ++ added := h.chain
  constructor
  · rw [Masquerade.ours, hchain, List.filter_append, List.filter_eq_nil_iff.mpr, List.nil_append,
      List.filter_eq_self]
    · exact fun r hr => by simpa using h.ours r hr
    · exact fun r hr => by simpa using hbase r hr
  · rw [hchain, List.filter_append, List.filter_eq_self.mpr, List.filter_eq_nil_iff.mpr,
      List.append_nil]
    · exact fun r hr => by simpa using h.ours r hr
    · exact fun r hr => by simpa using hbase r hr

/-- After every call that succeeds the verdicts are the intended ones. No call removes or
reorders a rule of others. As long as no append has failed but for the option, the four rules
stand there once each after a call that succeeds, and no further call changes anything. -/
theorem verdict_after_failures (rejects : Bool) (network subnetText : String)
    (net subnet : Ipv4Network) (hn : parseAddress network = some net)
    (hsn : parseAddress subnetText = some subnet) (t : Table) (ht : Masquerade.ours net subnet t = [])
    (s s' : State) (r : Except Failure Unit) (hreached : Reached rejects network subnetText t s)
    (hexec : Exec (Answers rejects) s (ensure network subnetText).run r s') :
    (s'.table.chain "POSTROUTING").filter (· ∉ flannelRules net subnet) = t.chain "POSTROUTING" ∧
    (r = .ok () → (∀ p, verdict net subnet s'.table p =
        if intended net subnet p then some .masquerade else none) ∧
      (s'.failed = false →
        Masquerade.ours net subnet s'.table = fourRules net subnet (!rejects) ∧
        ∀ r' s'', Exec (Answers rejects) s' (ensure network subnetText).run r' s'' → s'' = s')) := by
  obtain ⟨added, hshape⟩ := hreached.shape hn hsn ht
  have hfits := fits_entriesOf hn hsn
  have hbase := not_ours ht
  rw [ensure_eq net subnet] at hexec
  obtain ⟨⟨done', added', hshape'⟩, hok⟩ := hexec.wlp (wlp_entries hbase hfits ordered_entriesOf
    nodup_forms rfl hshape)
  refine ⟨(hshape'.filters hbase).2, fun hr => ?_⟩
  obtain ⟨added', hshape'⟩ := hok hr
  have hours := (hshape'.filters hbase).1
  refine ⟨fun p => ?_, fun hf => ?_⟩
  · have hthere := hshape'.there
    simp only [entriesOf, List.forall_mem_cons] at hthere
    obtain ⟨-, hexternal, -, hremote, -⟩ := hthere
    refine verdict_of_covered (hours ▸ hshape'.covered) ?_ ?_
    · rw [hours]
      exact hexternal.elim (fun hx => ⟨true, hx⟩) fun hx => ⟨false, hx⟩
    · rw [hours]
      exact hremote.elim (fun hx => ⟨true, hx⟩) fun hx => ⟨false, hx⟩
  · obtain ⟨k, hk, hadded⟩ := hshape'.exact hf
    rw [List.take_of_length_le (by simpa using hk), forms_entriesOf] at hadded
    refine ⟨hours.trans hadded, fun r' s'' hexec' => ?_⟩
    rw [ensure_eq net subnet] at hexec'
    refine hexec'.wlp (wlp_entries_same hfits fun e he => ?_)
    have hforms : e.form rejects ∈ fourRules net subnet (!rejects) := by
      rw [← forms_entriesOf rejects]
      exact List.mem_map_of_mem he
    rw [hshape'.chain, hadded]
    exact List.mem_append_right _ hforms

instance (rejects : Bool) (args : List String) : Decidable (Unknown rejects args) :=
  inferInstanceAs (Decidable (_ ∧ _))

/-- A backend that may not know the option, and performs the commands without it. -/
def respond (rejects : Bool) (c : Command) (s : State) : Option (CommandRes c × State) :=
  match c with
  | .check _ args =>
    if Unknown rejects args then some (.ok ⟨false, ""⟩, s) else some (.ok (s.table.answer c).1, s)
  | .append _ args =>
    if Unknown rejects args then some (.ok ⟨false, ""⟩, s)
    else (s.table.perform c).map fun t => (.ok ⟨true, ""⟩, ⟨t, s.failed⟩)
  | _ => none

theorem respond_answers {c : Command} {r : CommandRes c}
    (h : respond rejects c s = some (r, s')) : Answers rejects s c r s' := by
  have hfail : ¬ Succeeds (.ok ⟨false, ""⟩) := by
    rintro ⟨stderr, he⟩
    cases he
  cases c with
  | check name args =>
    by_cases hu : Unknown rejects args
    · obtain ⟨rfl, rfl⟩ := Prod.mk.inj (Option.some.inj ((if_pos hu).symm.trans h))
      exact .rejectCheck hu hfail
    · obtain ⟨rfl, rfl⟩ := Prod.mk.inj (Option.some.inj ((if_neg hu).symm.trans h))
      exact .check hu rfl
  | append name args =>
    by_cases hu : Unknown rejects args
    · obtain ⟨rfl, rfl⟩ := Prod.mk.inj (Option.some.inj ((if_pos hu).symm.trans h))
      exact .rejectAppend hu hfail
    · obtain ⟨t, ht, he⟩ := Option.map_eq_some_iff.mp ((if_neg hu).symm.trans h)
      obtain ⟨rfl, rfl⟩ := Prod.mk.inj he
      exact .append hu ht
  | newChain name => cases h
  | insert name args => cases h
  | delete name args => cases h
  | flush name => cases h
  | deleteChain name => cases h

theorem verdict_after_rejection : ∃ s',
    Exec (Answers true) ⟨emptyTable, false⟩ (ensure "10.244.0.0/16" "10.244.1.0/24").run (.ok ()) s' ∧
    (∀ p, verdict clusterNet nodeSubnet s'.table p =
      if intended clusterNet nodeSubnet p then some .masquerade else none) ∧
    Masquerade.ours clusterNet nodeSubnet s'.table = fourRules clusterNet nodeSubnet false ∧
    ∀ r' s'', Exec (Answers true) s' (ensure "10.244.0.0/16" "10.244.1.0/24").run r' s'' →
      s'' = s' := by
  have h : ((ensure "10.244.0.0/16" "10.244.1.0/24").run.run (respond true) ⟨emptyTable, false⟩).map
      (fun r => (r.1.isOk, r.2.failed)) = some (true, false) := by
    decide +kernel
  obtain ⟨⟨r, s'⟩, hrun, he⟩ := Option.map_eq_some_iff.mp h
  obtain ⟨hok, hfailed⟩ := Prod.mk.inj he
  have hexec : Exec (Answers true) ⟨emptyTable, false⟩
      (ensure "10.244.0.0/16" "10.244.1.0/24").run r s' := by
    refine Program.exec_of_run (fun c s r s₁ hr => ?_) hrun
    exact respond_answers hr
  cases r with
  | error e => cases hok
  | ok u =>
    obtain ⟨-, hafter⟩ := verdict_after_failures true _ _ clusterNet nodeSubnet parse_clusterNet
      parse_nodeSubnet emptyTable rfl _ s' _ .start hexec
    exact ⟨s', hexec, (hafter rfl).1, (hafter rfl).2 hfailed⟩

end FlannelRs.MasqueradeFailures
