import Mathlib.Data.List.AList

/-!
# Tables whose insertions never overwrite, and keyed diffs applied to them

A table answers an insertion at a key that is taken by leaving the entry as it is. A diff
of two keyed collections becomes a list of changes of such a table. The order of these
changes matters, and with it the order in which the collections are walked through.
-/

namespace FlannelRs.ExclusiveTables

abbrev Table (K V : Type) := K → Option V

inductive Change (K V : Type) where
  | add (k : K) (v : V)
  | remove (k : K)

variable {K V : Type} [DecidableEq K]

/-- An insertion at a taken key has no effect. -/
def Change.apply (t : Table K V) : Change K V → Table K V
  | .add k v => if t k = none then Function.update t k (some v) else t
  | .remove k => Function.update t k none

def run (cs : List (Change K V)) (t : Table K V) : Table K V := cs.foldl Change.apply t

def adds (es : List (K × V)) : List (Change K V) := es.map fun e => .add e.1 e.2

def removes (es : List (K × V)) : List (Change K V) := es.map fun e => .remove e.1

variable {t : Table K V} {cs ds : List (Change K V)} {x : K} {v w : V}

@[simp] theorem run_nil (t : Table K V) : run [] t = t := rfl

@[simp] theorem run_cons (c : Change K V) (cs : List (Change K V)) (t : Table K V) :
    run (c :: cs) t = run cs (c.apply t) := rfl

theorem run_append (cs ds : List (Change K V)) (t : Table K V) :
    run (cs ++ ds) t = run ds (run cs t) := List.foldl_append

omit [DecidableEq K] in
@[simp] theorem add_mem_adds {es : List (K × V)} : Change.add x v ∈ adds es ↔ (x, v) ∈ es := by
  constructor
  · intro h
    obtain ⟨e, he, heq⟩ := List.mem_map.mp h
    obtain ⟨rfl, rfl⟩ := Change.add.inj heq
    exact he
  · exact fun h => List.mem_map.mpr ⟨_, h, rfl⟩

omit [DecidableEq K] in
@[simp] theorem remove_not_mem_adds {es : List (K × V)} : Change.remove x ∉ adds es := by
  simp [adds]

omit [DecidableEq K] in
@[simp] theorem add_not_mem_removes {es : List (K × V)} : Change.add x v ∉ removes es := by
  simp [removes]

omit [DecidableEq K] in
@[simp] theorem remove_mem_removes {es : List (K × V)} :
    (Change.remove x : Change K V) ∈ removes es ↔ ∃ v, (x, v) ∈ es := by
  simp [removes]

theorem apply_add_self (h : t x = none) : (Change.add x v).apply t x = some v := by
  simp [Change.apply, h]

theorem apply_add_taken (h : t x = some w) : (Change.add x v).apply t = t := by
  simp [Change.apply, h]

theorem apply_add_ne {k : K} (h : x ≠ k) : (Change.add k v).apply t x = t x := by
  simp only [Change.apply]
  split
  · exact Function.update_of_ne h ..
  · rfl

@[simp] theorem apply_remove_self : (Change.remove x : Change K V).apply t x = none :=
  Function.update_self ..

theorem apply_remove_ne {k : K} (h : x ≠ k) : (Change.remove k : Change K V).apply t x = t x :=
  Function.update_of_ne h ..

theorem apply_remove_free (h : t x = none) : (Change.remove x : Change K V).apply t = t := by
  funext y
  by_cases hy : y = x
  · subst hy
    rw [apply_remove_self, h]
  · rw [apply_remove_ne hy]

/-- No entry is lost. -/
def Extends (t t' : Table K V) : Prop := ∀ x v, t x = some v → t' x = some v

omit [DecidableEq K] in
theorem Extends.refl (t : Table K V) : Extends t t := fun _ _ h => h

omit [DecidableEq K] in
theorem Extends.trans {t t' t'' : Table K V} (h : Extends t t') (h' : Extends t' t'') :
    Extends t t'' := fun x v hx => h' x v (h x v hx)

theorem extends_add (t : Table K V) (k : K) (v : V) : Extends t ((Change.add k v).apply t) := by
  intro x w hx
  by_cases hk : x = k
  · subst hk
    rw [apply_add_taken hx, hx]
  · rw [apply_add_ne hk, hx]

/-- What is taken stays, unless it is removed. -/
theorem run_of_taken (h : t x = some v) (hr : Change.remove x ∉ cs) : run cs t x = some v := by
  induction cs generalizing t with
  | nil => exact h
  | cons c cs ih =>
    have hrest : Change.remove x ∉ cs := fun hm => hr (List.mem_cons_of_mem c hm)
    apply ih _ hrest
    cases c with
    | add k u =>
      by_cases hk : x = k
      · subst hk
        rw [apply_add_taken h, h]
      · rw [apply_add_ne hk, h]
    | remove k =>
      have hk : x ≠ k := by
        rintro rfl
        exact hr List.mem_cons_self
      rw [apply_remove_ne hk, h]

/-- A key that is never inserted stays free. -/
theorem run_of_free (h : t x = none) (ha : ∀ v, Change.add x v ∉ cs) : run cs t x = none := by
  induction cs generalizing t with
  | nil => exact h
  | cons c cs ih =>
    have hrest : ∀ v, Change.add x v ∉ cs := fun v hm => ha v (List.mem_cons_of_mem c hm)
    apply ih _ hrest
    cases c with
    | add k u =>
      have hk : x ≠ k := by
        rintro rfl
        exact ha u List.mem_cons_self
      rw [apply_add_ne hk, h]
    | remove k =>
      by_cases hk : x = k
      · subst hk
        exact apply_remove_self
      · rw [apply_remove_ne hk, h]

/-- The first insertion at a free key decides, when nothing is removed. -/
theorem run_of_added (h : t x = none) (hr : Change.remove x ∉ cs) (hv : Change.add x v ∈ cs)
    (hone : ∀ w, Change.add x w ∈ cs → w = v) : run cs t x = some v := by
  induction cs generalizing t with
  | nil => cases hv
  | cons c cs ih =>
    have hrest : Change.remove x ∉ cs := fun hm => hr (List.mem_cons_of_mem c hm)
    have hone' : ∀ w, Change.add x w ∈ cs → w = v :=
      fun w hm => hone w (List.mem_cons_of_mem c hm)
    cases c with
    | add k u =>
      by_cases hk : x = k
      · subst hk
        obtain rfl := hone u List.mem_cons_self
        rw [run_cons]
        exact run_of_taken (apply_add_self h) hrest
      · refine ih (by rw [apply_add_ne hk, h]) hrest ?_ hone'
        rcases List.mem_cons.mp hv with heq | hm
        · exact absurd (Change.add.inj heq).1 hk
        · exact hm
    | remove k =>
      have hk : x ≠ k := by
        rintro rfl
        exact hr List.mem_cons_self
      refine ih (by rw [apply_remove_ne hk, h]) hrest ?_ hone'
      rcases List.mem_cons.mp hv with heq | hm
      · cases heq
      · exact hm

/-- An entry has been inserted, or was there and has not been removed. -/
theorem run_eq_some (h : run cs t x = some v) :
    Change.add x v ∈ cs ∨ t x = some v ∧ Change.remove x ∉ cs := by
  induction cs generalizing t with
  | nil => exact .inr ⟨h, List.not_mem_nil⟩
  | cons c cs ih =>
    rcases ih h with hadd | ⟨hc, hr⟩
    · exact .inl (List.mem_cons_of_mem c hadd)
    · cases c with
      | add k u =>
        by_cases hk : x = k
        · subst hk
          cases ht : t x with
          | none =>
            rw [apply_add_self ht] at hc
            exact .inl (by simp [Option.some.inj hc])
          | some w =>
            rw [apply_add_taken ht, ht] at hc
            exact .inr ⟨hc, by simpa using hr⟩
        · rw [apply_add_ne hk] at hc
          exact .inr ⟨hc, by simpa using hr⟩
      | remove k =>
        have hk : x ≠ k := by
          rintro rfl
          simp at hc
        rw [apply_remove_ne hk] at hc
        exact .inr ⟨hc, by simpa [hk] using hr⟩

/-- Changes of which some insertions are left out. -/
structure Thinned (cs ds : List (Change K V)) : Prop where
  subset : ∀ c ∈ cs, c ∈ ds
  removes : ∀ x, Change.remove x ∈ ds → Change.remove x ∈ cs

omit [DecidableEq K] in
theorem Thinned.append {cs ds cs' ds' : List (Change K V)} (h : Thinned cs ds)
    (h' : Thinned cs' ds') : Thinned (cs ++ cs') (ds ++ ds') := by
  constructor
  · intro c hc
    exact List.mem_append.mpr ((List.mem_append.mp hc).imp (h.subset c) (h'.subset c))
  · intro x hx
    exact List.mem_append.mpr ((List.mem_append.mp hx).imp (h.removes x) (h'.removes x))

/-- Removing the entries of a list frees their keys. -/
theorem run_removes {es : List (K × V)} (h : (x, v) ∈ es) : run (removes es) t x = none := by
  induction es generalizing t with
  | nil => cases h
  | cons e es ih =>
    rcases List.mem_cons.mp h with rfl | h
    · apply run_of_free (t := (Change.remove x).apply t) apply_remove_self
      exact fun w hm => add_not_mem_removes hm
    · exact ih h

/-- After insertions into a table that was not empty, all inserted entries are there exactly
if they agree with each other and with the entries that were there before. -/
theorem run_adds_iff {es : List (K × V)} :
    (∀ v, (x, v) ∈ es → run (adds es) t x = some v) ↔
      ∀ v, (x, v) ∈ es → (∀ w, t x = some w → w = v) ∧ ∀ w, (x, w) ∈ es → w = v := by
  have hr : (Change.remove x : Change K V) ∉ adds es := remove_not_mem_adds
  constructor
  · intro h v hv
    refine ⟨fun w hw => ?_, fun w hw => ?_⟩
    · have hrun := run_of_taken hw hr
      exact Option.some.inj (hrun.symm.trans (h v hv))
    · exact Option.some.inj ((h w hw).symm.trans (h v hv))
  · intro h v hv
    obtain ⟨htable, hone⟩ := h v hv
    cases ht : t x with
    | none => exact run_of_added ht hr (add_mem_adds.mpr hv) fun w hw => hone w (add_mem_adds.mp hw)
    | some w =>
      obtain rfl := htable w ht
      exact run_of_taken ht hr

section Diffs

variable {N P : Type} [DecidableEq N] [DecidableEq P] (entries : P → List (K × V))

abbrev Collection (N P : Type) := AList fun _ : N => P

/-- The table has the entries of the collection's members and no others. -/
def Realises (t : Table K V) (m : Collection N P) : Prop :=
  ∀ x v, t x = some v ↔ ∃ n p, m.lookup n = some p ∧ (x, v) ∈ entries p

def KeysDisjoint (es fs : List (K × V)) : Prop := ∀ e ∈ es, ∀ f ∈ fs, e.1 ≠ f.1

instance (es fs : List (K × V)) : Decidable (KeysDisjoint es fs) :=
  inferInstanceAs (Decidable (∀ e ∈ es, ∀ f ∈ fs, e.1 ≠ f.1))

/-- Different members have different keys. -/
def Separate (m : Collection N P) : Prop :=
  m.entries.Pairwise fun e e' => KeysDisjoint (entries e.2) (entries e'.2)

instance (m : Collection N P) : Decidable (Separate entries m) :=
  inferInstanceAs (Decidable (List.Pairwise _ m.entries))

/-- The changes for one member that is installed. -/
def update (desired : Collection N P) (e : Sigma fun _ : N => P) : List (Change K V) :=
  match desired.lookup e.1 with
  | none => removes (entries e.2)
  | some new =>
    if new ≠ e.2 then removes (entries e.2) ++ adds (entries new) else []

/-- The changes for the members that are not. -/
def additions (installed desired : Collection N P) : List (Change K V) :=
  desired.entries.flatMap fun e => if e.1 ∈ installed then [] else adds (entries e.2)

/-- The changes from one collection to another, in the order in which both are walked
through. -/
def updates (installed desired : Collection N P) : List (Change K V) :=
  installed.entries.flatMap (update entries desired) ++ additions entries installed desired

/-- No member stands behind another one that takes one of its keys. -/
def InOrder (installed desired : Collection N P) : Prop :=
  installed.entries.Pairwise fun d i =>
    ∀ new ∈ desired.lookup d.1, KeysDisjoint (entries i.2) (entries new)

instance (installed desired : Collection N P) : Decidable (InOrder entries installed desired) :=
  inferInstanceAs (Decidable (List.Pairwise _ installed.entries))

omit [DecidableEq K] [DecidableEq P] in
/-- `Realises` in terms of the lists of entries. -/
theorem realises_iff_listed {m : Collection N P} {t : Table K V} {listed : List (K × V)}
    (hl : ∀ x v, (x, v) ∈ listed ↔ t x = some v) :
    Realises entries t m ↔ ∀ e, e ∈ listed ↔ e ∈ m.entries.flatMap fun e => entries e.2 := by
  have hm : ∀ x v, (∃ n p, m.lookup n = some p ∧ (x, v) ∈ entries p) ↔
      (x, v) ∈ m.entries.flatMap fun e => entries e.2 := by
    intro x v
    rw [List.mem_flatMap]
    constructor
    · rintro ⟨n, p, hn, hx⟩
      exact ⟨⟨n, p⟩, AList.mem_lookup_iff.mp hn, hx⟩
    · rintro ⟨⟨n, p⟩, hn, hx⟩
      exact ⟨n, p, AList.mem_lookup_iff.mpr hn, hx⟩
  constructor
  · rintro h ⟨x, v⟩
    rw [hl, h, hm]
  · intro h x v
    rw [hm, ← h, hl]

variable {entries} {installed desired : Collection N P}

omit [DecidableEq K] [DecidableEq P] in
theorem Separate.eq_of_mem {m : Collection N P} (h : Separate entries m) {n n' : N} {p p' : P}
    {x : K} {v v' : V} (hn : m.lookup n = some p) (hn' : m.lookup n' = some p')
    (hx : (x, v) ∈ entries p) (hx' : (x, v') ∈ entries p') : n = n' := by
  by_contra hne
  have hsymm : Std.Symm fun e e' : Sigma fun _ : N => P =>
      KeysDisjoint (entries e.2) (entries e'.2) :=
    ⟨fun _ _ hd f hf g hg he => hd g hg f hf he.symm⟩
  have hdisjoint := List.Pairwise.forall h (AList.mem_lookup_iff.mp hn)
    (AList.mem_lookup_iff.mp hn') fun he => hne (Sigma.mk.inj he).1
  exact hdisjoint _ hx _ hx' rfl

omit [DecidableEq K] in
theorem remove_mem_update {e : Sigma fun _ : N => P} :
    Change.remove x ∈ update entries desired e ↔
      desired.lookup e.1 ≠ some e.2 ∧ ∃ v, (x, v) ∈ entries e.2 := by
  unfold update
  cases h : desired.lookup e.1 with
  | none => simp
  | some new =>
    by_cases hne : new = e.2 <;> simp [hne]

omit [DecidableEq K] in
theorem add_mem_update {e : Sigma fun _ : N => P} :
    Change.add x w ∈ update entries desired e ↔
      ∃ new, desired.lookup e.1 = some new ∧ new ≠ e.2 ∧ (x, w) ∈ entries new := by
  unfold update
  cases h : desired.lookup e.1 with
  | none => simp
  | some new =>
    by_cases hne : new = e.2 <;> simp [hne]

omit [DecidableEq K] [DecidableEq P] in
theorem remove_not_mem_additions : Change.remove x ∉ additions entries installed desired := by
  simp only [additions, List.mem_flatMap, not_exists, not_and]
  intro e _
  split <;> simp

omit [DecidableEq K] [DecidableEq P] in
theorem add_mem_additions : Change.add x w ∈ additions entries installed desired ↔
    ∃ n new, desired.lookup n = some new ∧ installed.lookup n = none ∧ (x, w) ∈ entries new := by
  simp only [additions, List.mem_flatMap]
  constructor
  · rintro ⟨⟨n, new⟩, he, hadd⟩
    by_cases hn : n ∈ installed
    · simp [hn] at hadd
    · exact ⟨n, new, AList.mem_lookup_iff.mpr he, AList.lookup_eq_none.mpr hn, by simpa [hn] using hadd⟩
  · rintro ⟨n, new, hnew, hn, hx⟩
    refine ⟨⟨n, new⟩, AList.mem_lookup_iff.mp hnew, ?_⟩
    rw [if_neg (AList.lookup_eq_none.mp hn)]
    exact add_mem_adds.mpr hx

omit [DecidableEq K] in
theorem add_mem_updates : Change.add x w ∈ updates entries installed desired ↔
    ∃ n new, desired.lookup n = some new ∧ installed.lookup n ≠ some new ∧
      (x, w) ∈ entries new := by
  simp only [updates, List.mem_append, List.mem_flatMap, add_mem_update, add_mem_additions]
  constructor
  · rintro (⟨⟨n, old⟩, he, new, hnew, hne, hx⟩ | ⟨n, new, hnew, hn, hx⟩)
    · have hold : installed.lookup n = some old := AList.mem_lookup_iff.mpr he
      refine ⟨n, new, hnew, fun h => ?_, hx⟩
      exact hne (Option.some.inj (h.symm.trans hold))
    · exact ⟨n, new, hnew, by simp [hn], hx⟩
  · rintro ⟨n, new, hnew, hne, hx⟩
    cases hold : installed.lookup n with
    | none => exact .inr ⟨n, new, hnew, hold, hx⟩
    | some old =>
      refine .inl ⟨⟨n, old⟩, AList.mem_lookup_iff.mp hold, new, hnew, ?_, hx⟩
      rintro rfl
      exact hne hold

omit [DecidableEq K] in
theorem remove_mem_updates : Change.remove x ∈ updates entries installed desired ↔
    ∃ n old v, installed.lookup n = some old ∧ desired.lookup n ≠ some old ∧
      (x, v) ∈ entries old := by
  simp only [updates, List.mem_append, List.mem_flatMap, remove_mem_update,
    remove_not_mem_additions, or_false]
  constructor
  · rintro ⟨⟨n, old⟩, he, hne, v, hx⟩
    exact ⟨n, old, v, AList.mem_lookup_iff.mpr he, hne, hx⟩
  · rintro ⟨n, old, v, hold, hne, hx⟩
    exact ⟨⟨n, old⟩, AList.mem_lookup_iff.mp hold, hne, v, hx⟩

/-- The value at a key of a removed member, from what follows its removal. -/
theorem run_updates_of_removed (hsep : Separate entries installed)
    {l₁ l₂ : List (Sigma fun _ : N => P)} {i : N} {old : P}
    (hl : installed.entries = l₁ ++ ⟨i, old⟩ :: l₂) (hne : desired.lookup i ≠ some old)
    (hx : (x, v) ∈ entries old) :
    ∃ post t', run (updates entries installed desired) t x = run post t' x ∧ t' x = none ∧
      Change.remove x ∉ post ∧
      ∀ w, Change.add x w ∈ post ↔
        (∃ new, desired.lookup i = some new ∧ (x, w) ∈ entries new) ∨
        (∃ e ∈ l₂, Change.add x w ∈ update entries desired e) ∨
        Change.add x w ∈ additions entries installed desired := by
  have hmem : ∀ e ∈ l₁ ++ ⟨i, old⟩ :: l₂, installed.lookup e.1 = some e.2 := by
    intro e he
    exact AList.mem_lookup_iff.mpr (hl ▸ he)
  have hnot : Change.remove x ∉ l₂.flatMap (update entries desired) := by
    intro hm
    obtain ⟨e, he, hrem⟩ := List.mem_flatMap.mp hm
    obtain ⟨-, u, hu⟩ := remove_mem_update.mp hrem
    obtain ⟨n, p⟩ := e
    have hei : n = i := hsep.eq_of_mem (hmem ⟨n, p⟩ (by simp [he])) (hmem ⟨i, old⟩ (by simp)) hu hx
    have hnodup := installed.nodupKeys
    rw [hl, List.NodupKeys, List.keys, List.map_append, List.map_cons] at hnodup
    have hnotin := (List.nodup_cons.mp (List.nodup_append.mp hnodup).2.1).1
    subst hei
    exact hnotin (List.mem_map.mpr ⟨_, he, rfl⟩)
  cases hnew : desired.lookup i with
  | none =>
    refine ⟨l₂.flatMap (update entries desired) ++ additions entries installed desired,
      run (removes (entries old)) (run (l₁.flatMap (update entries desired)) t), ?_,
      run_removes hx, ?_, fun w => ?_⟩
    · simp [updates, hl, run_append, update, hnew]
    · simp [hnot, remove_not_mem_additions]
    · simp
  | some new =>
    have hchanged : new ≠ old := by
      rintro rfl
      exact hne hnew
    refine ⟨adds (entries new) ++ (l₂.flatMap (update entries desired) ++
        additions entries installed desired),
      run (removes (entries old)) (run (l₁.flatMap (update entries desired)) t), ?_,
      run_removes hx, ?_, fun w => ?_⟩
    · simp [updates, hl, run_append, update, hnew, hchanged]
    · simp [hnot, remove_not_mem_additions]
    · simp

variable (hfun : ∀ p x v w, (x, v) ∈ entries p → (x, w) ∈ entries p → v = w)
  (ht : Realises entries t installed) (hi : Separate entries installed)
  (hd : Separate entries desired)

include hfun ht hi hd

/-- When the changes come in order, every desired entry is there in the end. -/
theorem run_updates_desired (ho : InOrder entries installed desired) {d : N} {new : P}
    (hnew : desired.lookup d = some new) (hx : (x, w) ∈ entries new) :
    run (updates entries installed desired) t x = some w := by
  have hone : ∀ n p u, desired.lookup n = some p → (x, u) ∈ entries p → n = d ∧ u = w := by
    intro n p u hn hu
    obtain rfl := hd.eq_of_mem hn hnew hu hx
    obtain rfl := Option.some.inj (hn.symm.trans hnew)
    exact ⟨rfl, hfun _ _ _ _ hu hx⟩
  by_cases howner : ∃ i old v, installed.lookup i = some old ∧ (x, v) ∈ entries old
  · obtain ⟨i, old, v, hold, hv⟩ := howner
    by_cases hsame : desired.lookup i = some old
    · -- the member is unchanged, and so is its entry
      obtain ⟨rfl, rfl⟩ := hone i old v hsame hv
      apply run_of_taken ((ht x v).mpr ⟨i, old, hold, hv⟩)
      intro hrem
      obtain ⟨n, old', u, hn, hne, hu⟩ := remove_mem_updates.mp hrem
      obtain rfl := hi.eq_of_mem hn hold hu hv
      obtain rfl := Option.some.inj (hn.symm.trans hold)
      exact hne hsame
    · obtain ⟨l₁, l₂, hl⟩ := List.append_of_mem (AList.mem_lookup_iff.mp hold)
      obtain ⟨post, t', hrun, hnone, hrem, hadd⟩ :=
        run_updates_of_removed (t := t) hi hl hsame hv
      rw [hrun]
      refine run_of_added hnone hrem ((hadd w).mpr ?_) fun u hu => ?_
      · -- where the new owner of the key stands among the installed members
        cases hdin : installed.lookup d with
        | none => exact .inr (.inr (add_mem_additions.mpr ⟨d, new, hnew, hdin, hx⟩))
        | some oldd =>
          have hmem : ⟨d, oldd⟩ ∈ l₁ ++ ⟨i, old⟩ :: l₂ := hl ▸ AList.mem_lookup_iff.mp hdin
          rcases List.mem_append.mp hmem with hbefore | hafter
          · unfold InOrder at ho
            rw [hl, List.pairwise_append] at ho
            have hdisjoint := ho.2.2 _ hbefore _ List.mem_cons_self new hnew
            exact absurd rfl (hdisjoint (x, v) hv (x, w) hx)
          · rcases List.mem_cons.mp hafter with heq | hafter
            · obtain ⟨rfl, heq⟩ := Sigma.mk.inj heq
              exact .inl ⟨new, hnew, hx⟩
            · refine .inr (.inl ⟨_, hafter, add_mem_update.mpr ⟨new, hnew, ?_, hx⟩⟩)
              rintro rfl
              obtain rfl := hi.eq_of_mem hdin hold hx hv
              exact hsame (hnew.trans (hdin.symm.trans hold))
      · have hu' : Change.add x u ∈ updates entries installed desired := by
          rcases (hadd u).mp hu with ⟨new', hnew', hx'⟩ | ⟨e, he, hx'⟩ | hx'
          · refine add_mem_updates.mpr ⟨i, new', hnew', fun h => ?_, hx'⟩
            exact hsame (hnew'.trans (h.symm.trans hold))
          · apply List.mem_append_left
            exact List.mem_flatMap.mpr ⟨e, by simp [hl, he], hx'⟩
          · exact List.mem_append_right _ hx'
        obtain ⟨n, p, hn, -, hp⟩ := add_mem_updates.mp hu'
        exact (hone n p u hn hp).2
  · have hfree : t x = none := by
      cases hx' : t x with
      | none => rfl
      | some u =>
        obtain ⟨n, p, hn, hp⟩ := (ht x u).mp hx'
        exact absurd ⟨n, p, u, hn, hp⟩ howner
    refine run_of_added hfree ?_ ?_ ?_
    · intro hrem
      obtain ⟨n, old, u, hn, -, hu⟩ := remove_mem_updates.mp hrem
      exact howner ⟨n, old, u, hn, hu⟩
    · refine add_mem_updates.mpr ⟨d, new, hnew, fun h => ?_, hx⟩
      exact howner ⟨d, new, w, h, hx⟩
    · intro u hu
      obtain ⟨n, p, hn, -, hp⟩ := add_mem_updates.mp hu
      exact (hone n p u hn hp).2

omit hfun hd in
/-- A key that is not desired is free in the end. -/
theorem run_updates_undesired
    (hx : ∀ n p w, desired.lookup n = some p → (x, w) ∉ entries p) :
    run (updates entries installed desired) t x = none := by
  have hadd : ∀ w, Change.add x w ∉ updates entries installed desired := by
    intro w hm
    obtain ⟨n, p, hn, -, hp⟩ := add_mem_updates.mp hm
    exact hx n p w hn hp
  cases ht' : t x with
  | none => exact run_of_free ht' hadd
  | some v =>
    obtain ⟨i, old, hold, hv⟩ := (ht x v).mp ht'
    have hne : desired.lookup i ≠ some old := fun h => hx i old v h hv
    obtain ⟨l₁, l₂, hl⟩ := List.append_of_mem (AList.mem_lookup_iff.mp hold)
    obtain ⟨post, t', hrun, hnone, -, hpost⟩ :=
      run_updates_of_removed (t := t) hi hl hne hv
    rw [hrun]
    refine run_of_free hnone fun w hw => ?_
    rcases (hpost w).mp hw with ⟨new, hnew, hx'⟩ | ⟨e, -, hx'⟩ | hx'
    · exact hx i new w hnew hx'
    · obtain ⟨new, hnew, -, hx'⟩ := add_mem_update.mp hx'
      exact hx e.1 new w hnew hx'
    · obtain ⟨n, new, hnew, -, hx'⟩ := add_mem_additions.mp hx'
      exact hx n new w hnew hx'

omit hfun ht in
/-- A key that is taken from a later member is lost. -/
theorem run_updates_lost {l₁ l₂ : List (Sigma fun _ : N => P)} {i d : N} {old oldd new : P}
    (hl : installed.entries = l₁ ++ ⟨i, old⟩ :: l₂) (hbefore : ⟨d, oldd⟩ ∈ l₁)
    (hnew : desired.lookup d = some new) (hv : (x, v) ∈ entries old) (hx : (x, w) ∈ entries new) :
    run (updates entries installed desired) t x = none := by
  have hnodup := installed.nodupKeys
  rw [hl, List.NodupKeys, List.keys, List.map_append, List.map_cons] at hnodup
  have hdisjoint := (List.nodup_append.mp hnodup).2.2
  have hd₁ : d ∈ l₁.map Sigma.fst := List.mem_map_of_mem hbefore
  have hdi : d ≠ i := hdisjoint d hd₁ i List.mem_cons_self
  have hdin : installed.lookup d = some oldd :=
    AList.mem_lookup_iff.mpr (by simp [hl, hbefore])
  have hne : desired.lookup i ≠ some old := fun h => hdi (hd.eq_of_mem hnew h hx hv)
  obtain ⟨post, t', hrun, hnone, -, hpost⟩ :=
    run_updates_of_removed (t := t) hi hl hne hv
  rw [hrun]
  refine run_of_free hnone fun u hu => ?_
  rcases (hpost u).mp hu with ⟨new', hnew', hx'⟩ | ⟨e, he, hx'⟩ | hx'
  · exact hdi (hd.eq_of_mem hnew hnew' hx hx')
  · obtain ⟨new', hnew', -, hx'⟩ := add_mem_update.mp hx'
    have hde : d = e.1 := hd.eq_of_mem hnew hnew' hx hx'
    exact hdisjoint d hd₁ e.1 (List.mem_cons_of_mem _ (List.mem_map_of_mem he)) hde
  · obtain ⟨n, new', hnew', hn, hx'⟩ := add_mem_additions.mp hx'
    obtain rfl := hd.eq_of_mem hnew hnew' hx hx'
    rw [hdin] at hn
    cases hn

/-- Applying the changes realises the desired collection, from a table that realises the
installed one, exactly if they come in order. -/
theorem realises_updates_iff :
    Realises entries (run (updates entries installed desired) t) desired ↔
      InOrder entries installed desired := by
  constructor
  · intro h
    refine List.pairwise_iff_forall_sublist.mpr fun {d i} hsub new hnew => ?_
    rintro ⟨x, v⟩ hv ⟨_, w⟩ hx rfl
    have hsub' : ([d] ++ [i]).Sublist installed.entries := hsub
    obtain ⟨r₁, r₂, hr, hd₁, hi₂⟩ := List.append_sublist_iff.mp hsub'
    obtain ⟨s₁, s₂, hs⟩ := List.append_of_mem (List.singleton_sublist.mp hi₂)
    have hl : installed.entries = (r₁ ++ s₁) ++ i :: s₂ := by simp [hr, hs]
    have hbefore : d ∈ r₁ ++ s₁ := List.mem_append_left _ (List.singleton_sublist.mp hd₁)
    have hlost := run_updates_lost (t := t) hi hd hl hbefore hnew hv hx
    rw [(h x w).mpr ⟨d.1, new, hnew, hx⟩] at hlost
    cases hlost
  · intro ho x v
    constructor
    · intro hv
      by_contra hnone
      rw [run_updates_undesired ht hi fun n p w hn hp => ?_] at hv
      · cases hv
      · have hw := run_updates_desired hfun ht hi hd ho hn hp
        obtain rfl := Option.some.inj (hv.symm.trans hw)
        exact hnone ⟨n, p, hn, hp⟩
    · rintro ⟨n, p, hn, hp⟩
      exact run_updates_desired hfun ht hi hd ho hn hp

end Diffs

end FlannelRs.ExclusiveTables
