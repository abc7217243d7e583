import Mathlib.Data.List.Basic

/-!
# Chains of rules, the first matching one deciding

A rule that a packet matches ends the walk with a verdict, returns from the chain, alters
the packet and lets it go on, or sends it through another chain first.
-/

namespace FlannelRs.RuleChains

/-- What a rule does to a packet that matches it. -/
inductive Action (Name P V : Type) where
  | stop (v : V)
  | ret
  | alter (f : P → P)
  | jump (n : Name)

/-- Rules `R` in chains `Name`, met by packets `P`. -/
structure Semantics (R Name P V : Type) where
  cond : R → P → Bool
  action : R → Action Name P V

variable {R Name P V : Type} (S : Semantics R Name P V)

/-- The walk through a chain, given what happens in the chains that its rules jump to. -/
def traverse (enter : Name → P → P × Option V) : List R → P → P × Option V
  | [], p => (p, none)
  | r :: rs, p =>
    if S.cond r p then
      match S.action r with
      | .stop v => (p, some v)
      | .ret => (p, none)
      | .alter f => traverse enter rs (f p)
      | .jump n =>
        match enter n p with
        | (p', some v) => (p', some v)
        | (p', none) => traverse enter rs p'
    else traverse enter rs p

/-- The walk with jumps up to a depth. -/
def walk (chains : Name → List R) : ℕ → List R → P → P × Option V
  | 0 => traverse S fun _ p => (p, none)
  | d + 1 => traverse S fun n p => walk chains d (chains n) p

/-- What one rule does. -/
def effect (enter : Name → P → P × Option V) (r : R) (p : P) : P × Option V :=
  if S.cond r p then
    match S.action r with
    | .stop v => (p, some v)
    | .ret => (p, none)
    | .alter f => (f p, none)
    | .jump n => enter n p
  else (p, none)

variable {S} {enter : Name → P → P × Option V} {rs : List R} {r : R} {p : P}

/-- The next rule is met only if this one decided nothing. -/
theorem traverse_cons (hr : S.action r ≠ .ret) :
    traverse S enter (r :: rs) p = match effect S enter r p with
      | (p', some v) => (p', some v)
      | (p', none) => traverse S enter rs p' := by
  rw [traverse, effect]
  by_cases hc : S.cond r p = true
  · rw [if_pos hc, if_pos hc]
    cases ha : S.action r with
    | stop v => rfl
    | ret => exact absurd ha hr
    | alter f => rfl
    | jump n => rfl
  · rw [if_neg hc, if_neg hc]

/-- Rules that decide nothing hand the packet on to those behind them. -/
theorem traverse_append {rs' : List R} {p' : P} (hret : ∀ r ∈ rs, S.action r ≠ .ret)
    (h : traverse S enter rs p = (p', none)) :
    traverse S enter (rs ++ rs') p = traverse S enter rs' p' := by
  induction rs generalizing p with
  | nil =>
    obtain rfl := (Prod.mk.inj h).1
    rfl
  | cons r rs ih =>
    have hr := hret r List.mem_cons_self
    rw [traverse_cons hr] at h
    rw [List.cons_append, traverse_cons hr]
    generalize effect S enter r p = e at h ⊢
    obtain ⟨q, v⟩ := e
    cases v with
    | some v => cases (Prod.mk.inj h).2
    | none => exact ih (fun x hx => hret x (List.mem_cons_of_mem _ hx)) h

/-- The first rule with a verdict decides, when what the rules do depends only on what
they all preserve. -/
theorem traverse_of_stable {same : P → Prop} {verdict : R → Option V}
    (hret : ∀ r ∈ rs, S.action r ≠ .ret)
    (hstable : ∀ r ∈ rs, ∀ q, same q → (effect S enter r q).2 = verdict r ∧
      same (effect S enter r q).1) (hp : same p) :
    (traverse S enter rs p).2 = rs.findSome? verdict ∧ same (traverse S enter rs p).1 := by
  induction rs generalizing p with
  | nil => exact ⟨rfl, hp⟩
  | cons r rs ih =>
    obtain ⟨hv, hs⟩ := hstable r List.mem_cons_self p hp
    rw [traverse_cons (hret r List.mem_cons_self), List.findSome?_cons, ← hv]
    generalize effect S enter r p = e at hs ⊢
    obtain ⟨p', v⟩ := e
    cases v with
    | some v => exact ⟨rfl, hs⟩
    | none =>
      exact ih (fun r hr => hret r (List.mem_cons_of_mem _ hr))
        (fun r hr => hstable r (List.mem_cons_of_mem _ hr)) hs

/-- When the rules decide nothing, and those that match all alter the packet in one way, it
does not matter how many they are. -/
theorem traverse_of_idempotent (same : P → Prop) (hit : R → Bool) (f : P → P)
    (hret : ∀ r ∈ rs, S.action r ≠ .ret) (hf : ∀ q, f (f q) = f q)
    (hsame : ∀ q, same q → same (f q))
    (heffect : ∀ r ∈ rs, ∀ q, same q → effect S enter r q = (if hit r then f q else q, none))
    (hp : same p) : traverse S enter rs p = (if rs.any hit then f p else p, none) := by
  induction rs generalizing p with
  | nil => rfl
  | cons r rs ih =>
    have hrest : ∀ q, same q → traverse S enter rs q = (if rs.any hit then f q else q, none) :=
      fun q hq => ih (fun r hr => hret r (List.mem_cons_of_mem _ hr))
        (fun r hr => heffect r (List.mem_cons_of_mem _ hr)) hq
    rw [traverse_cons (hret r List.mem_cons_self), heffect r List.mem_cons_self p hp,
      List.any_cons]
    cases hit r with
    | false => simpa using hrest p hp
    | true =>
      simp only [if_true, Bool.true_or]
      rw [hrest (f p) (hsame p hp), hf, ite_self]

/-- In a chain whose rules all end the walk, the first match is all that counts. -/
theorem traverse_of_terminal
    (hend : ∀ r ∈ rs, S.action r = .ret ∨ ∃ v, S.action r = .stop v) :
    (traverse S enter rs p).2 = (rs.find? (S.cond · p)).bind fun r =>
      match S.action r with
      | .stop v => some v
      | _ => none := by
  induction rs with
  | nil => rfl
  | cons r rs ih =>
    rw [traverse]
    by_cases hc : S.cond r p = true
    · rw [if_pos hc, List.find?_cons_of_pos (p := (S.cond · p)) hc, Option.bind_some]
      rcases hend r List.mem_cons_self with ha | ⟨v, ha⟩
      · rw [ha]
      · rw [ha]
    · rw [if_neg hc, List.find?_cons_of_neg (p := (S.cond · p)) hc]
      exact ih fun r hr => hend r (List.mem_cons_of_mem _ hr)

/-- The chains that the rules send a packet to, up to the end of the walk. -/
def jumps (S : Semantics R Name P V) (enter : Name → P → P × Option V) : List R → P → List Name
  | [], _ => []
  | r :: rs, p =>
    if S.cond r p then
      match S.action r with
      | .stop _ => []
      | .ret => []
      | .alter f => jumps S enter rs (f p)
      | .jump n => n :: match enter n p with
        | (_, some _) => []
        | (p', none) => jumps S enter rs p'
    else jumps S enter rs p

theorem jumps_cons (hr : S.action r ≠ .ret) : jumps S enter (r :: rs) p =
    (match S.action r with
      | .jump n => if S.cond r p then [n] else []
      | _ => []) ++ match effect S enter r p with
      | (_, some _) => []
      | (p', none) => jumps S enter rs p' := by
  rw [jumps, effect]
  by_cases hc : S.cond r p = true
  · rw [if_pos hc, if_pos hc]
    cases ha : S.action r with
    | stop v => rfl
    | ret => exact absurd ha hr
    | alter f => rfl
    | jump n => simp only [if_pos hc, List.singleton_append]
  · rw [if_neg hc, if_neg hc]
    cases S.action r with
    | jump n => simp only [if_neg hc, List.nil_append]
    | _ => rfl

/-- A rule jumps if it matches and none before it decides, when what the rules do depends only on
what they all preserve. -/
theorem mem_jumps_of_stable {same : P → Prop} {verdict : R → Option V} {hits : R → Bool} {n : Name}
    (hret : ∀ r ∈ rs, S.action r ≠ .ret)
    (hstable : ∀ r ∈ rs, ∀ q, same q → (effect S enter r q).2 = verdict r ∧
      same (effect S enter r q).1)
    (hhits : ∀ r ∈ rs, ∀ q, same q → (hits r = true ↔ S.action r = .jump n ∧ S.cond r q = true))
    (hp : same p) : n ∈ jumps S enter rs p ↔
      ∃ front r back, rs = front ++ r :: back ∧ front.findSome? verdict = none ∧ hits r = true := by
  induction rs generalizing p with
  | nil => simp [jumps]
  | cons r rs ih =>
    obtain ⟨hv, hs⟩ := hstable r List.mem_cons_self p hp
    have hrest := ih (fun r hr => hret r (List.mem_cons_of_mem _ hr))
      (fun r hr => hstable r (List.mem_cons_of_mem _ hr))
      (fun r hr => hhits r (List.mem_cons_of_mem _ hr)) hs
    have hfirst : n ∈ (match S.action r with
        | .jump n => if S.cond r p then [n] else []
        | _ => []) ↔ hits r = true := by
      rw [hhits r List.mem_cons_self p hp]
      cases ha : S.action r with
      | jump n' =>
        by_cases hc : S.cond r p = true <;> simp [hc, eq_comm]
      | _ => simp
    rw [jumps_cons (hret r List.mem_cons_self), List.mem_append, hfirst]
    have hafter : n ∈ (match effect S enter r p with
        | (_, some _) => []
        | (p', none) => jumps S enter rs p') ↔ verdict r = none ∧
          ∃ front r' back, rs = front ++ r' :: back ∧ front.findSome? verdict = none ∧
            hits r' = true := by
      rw [← hrest, ← hv]
      cases he : effect S enter r p with
      | mk p' v =>
        cases v with
        | some v => simp
        | none => simp
    rw [hafter]
    constructor
    · rintro (hhit | ⟨hnone, front, r', back, rfl, hfront, hhit⟩)
      · exact ⟨[], r, rs, rfl, rfl, hhit⟩
      · exact ⟨r :: front, r', back, rfl, by rw [List.findSome?_cons, hnone]; exact hfront, hhit⟩
    · rintro ⟨front, r', back, heq, hfront, hhit⟩
      cases front with
      | nil =>
        obtain ⟨rfl, rfl⟩ := List.cons.inj heq
        exact .inl hhit
      | cons r'' front =>
        obtain ⟨rfl, rfl⟩ := List.cons.inj heq
        rw [List.findSome?_cons] at hfront
        cases hnone : verdict r with
        | some v =>
          rw [hnone] at hfront
          cases hfront
        | none =>
          rw [hnone] at hfront
          exact .inr ⟨rfl, front, r', back, rfl, hfront, hhit⟩

section

variable {A B : Type} [DecidableEq A] {xs ys : List A} {a : A}

/-- Added at the end, unless it is there. -/
def addNew (xs : List A) (a : A) : List A := if a ∈ xs then xs else xs ++ [a]

theorem mem_addNew {b : A} : b ∈ addNew xs a ↔ b ∈ xs ∨ b = a := by
  unfold addNew
  by_cases ha : a ∈ xs
  · rw [if_pos ha]
    exact ⟨.inl, fun h => h.elim id fun h => h ▸ ha⟩
  · rw [if_neg ha, List.mem_append, List.mem_singleton]

theorem mem_foldl_addNew {b : A} : b ∈ ys.foldl addNew xs ↔ b ∈ xs ∨ b ∈ ys := by
  induction ys generalizing xs with
  | nil => simp
  | cons y ys ih => rw [List.foldl_cons, ih, mem_addNew, List.mem_cons, or_assoc]

/-- What is there already would decide first anyway. -/
theorem findSome?_foldl_addNew (f : A → Option B) :
    (ys.foldl addNew xs).findSome? f = (xs ++ ys).findSome? f := by
  induction ys generalizing xs with
  | nil => simp
  | cons y ys ih =>
    rw [List.foldl_cons, ih, addNew]
    by_cases hy : y ∈ xs
    · rw [if_pos hy, List.findSome?_append, List.findSome?_append, List.findSome?_cons]
      cases hxs : xs.findSome? f with
      | some b => rfl
      | none =>
        rw [List.findSome?_eq_none_iff.mp hxs y hy]
    · rw [if_neg hy]
      simp

end

/-- Every rule stands behind the one it needs. -/
def Covered (needs : R → Option R) (rs : List R) : Prop :=
  ∀ front r back, rs = front ++ r :: back → ∀ q ∈ needs r, q ∈ front

variable {needs : R → Option R}

theorem Covered.nil : Covered needs [] := by
  intro front r back h
  simp at h

theorem Covered.concat (h : Covered needs rs) (hr : ∀ q ∈ needs r, q ∈ rs) :
    Covered needs (rs ++ [r]) := by
  intro front r' back heq q hq
  rcases List.eq_nil_or_concat back with rfl | ⟨back', r'', rfl⟩
  · obtain ⟨rfl, hr'⟩ := List.append_inj' heq rfl
    obtain rfl := (List.cons.inj hr').1
    exact hr q hq
  · have heq' : rs ++ [r] = (front ++ r' :: back') ++ [r''] := by simpa using heq
    obtain ⟨hrs, -⟩ := List.append_inj' heq' rfl
    exact h front r' back' hrs q hq

theorem Covered.addNew [DecidableEq R] (h : Covered needs rs) (hr : ∀ q ∈ needs r, q ∈ rs) :
    Covered needs (addNew rs r) := by
  unfold RuleChains.addNew
  by_cases hmem : r ∈ rs
  · rwa [if_pos hmem]
  · rw [if_neg hmem]
    exact h.concat hr

theorem Covered.mem (h : Covered needs rs) (hr : r ∈ rs) {q : R} (hq : q ∈ needs r) : q ∈ rs := by
  obtain ⟨front, back, rfl⟩ := List.append_of_mem hr
  exact List.mem_append_left _ (h front r back rfl q hq)

/-- The first rule that matches has the one it needs in front of it, which does not. -/
theorem Covered.not_of_find? (h : Covered needs rs) {c : R → Bool} (hr : rs.find? c = some r)
    {q : R} (hq : q ∈ needs r) : c q = false := by
  obtain ⟨-, front, back, hrs, hfront⟩ := List.find?_eq_some_iff_append.mp hr
  simpa using hfront q (h front r back hrs q hq)

end FlannelRs.RuleChains
