import Mathlib.Data.List.Rotate

/-!
# Sweeping over a cycle

The members of a list are visited in a cyclic order. Each scan begins after the member of
the last visit, skips some members and visits the next one. Before a visit comes back to
where it began, every member was visited or skipped. A loop whose index wraps is a search
over a rotation of the list.
-/

namespace FlannelRs.RoundRobin

variable {α : Type} {cycle : List α} {seen seen' skip : α → Prop} {first last next : α}

/-- A sweep that began with `first` has come to `last`, and has `seen` all in between. -/
def Swept (cycle : List α) (seen : α → Prop) (first last : α) : Prop :=
  ∃ swept ahead, cycle ~r swept ++ last :: ahead ∧ (swept ++ [last]).head? = some first ∧
    ∀ y ∈ swept ++ [last], seen y

/-- The scan that begins after `last` skips members with `skip`, and stops at `next`. -/
def ScansTo (cycle : List α) (skip : α → Prop) (last next : α) : Prop :=
  ∃ order skipped beyond, cycle ~r last :: order ∧ order ++ [last] = skipped ++ next :: beyond ∧
    ∀ y ∈ skipped, skip y

/-- A list without duplicates has one rotation that begins with a given member. -/
theorem rotation_unique {x : α} {l l' : List α} (hn : (x :: l).Nodup)
    (h : (x :: l) ~r (x :: l')) : l = l' := by
  obtain ⟨n, hrot⟩ := h
  have hmod : (x :: l).rotate (n % (x :: l).length) = x :: l' := by rw [List.rotate_mod, hrot]
  have hlt : n % (x :: l).length < (x :: l).length := Nat.mod_lt _ (by simp)
  have hhead := List.head?_rotate hlt
  rw [hmod, List.head?_cons] at hhead
  have hget : (x :: l)[n % (x :: l).length]? = (x :: l)[0]? := hhead.symm
  have hzero : n % (x :: l).length = 0 := (List.getElem?_inj hlt hn).mp hget
  rw [hzero, List.rotate_zero] at hmod
  exact (List.cons.inj hmod).2

theorem Swept.mono (hseen : ∀ y, seen y → seen' y) (h : Swept cycle seen first last) :
    Swept cycle seen' first last := by
  obtain ⟨swept, ahead, hrot, hfirst, hall⟩ := h
  exact ⟨swept, ahead, hrot, hfirst, fun y hy => hseen y (hall y hy)⟩

theorem ScansTo.mono {skip' : α → Prop} (hskip : ∀ y, skip y → skip' y)
    (h : ScansTo cycle skip last next) : ScansTo cycle skip' last next := by
  obtain ⟨order, skipped, beyond, ho, he, hall⟩ := h
  exact ⟨order, skipped, beyond, ho, he, fun y hy => hskip y (hall y hy)⟩

/-- The first visit. -/
theorem Swept.start (hfirst : first ∈ cycle) (hseen : seen first) :
    Swept cycle seen first first := by
  obtain ⟨u, v, rfl⟩ := List.append_of_mem hfirst
  refine ⟨[], v ++ u, List.isRotated_append, rfl, fun y hy => ?_⟩
  rw [List.nil_append, List.mem_singleton] at hy
  exact hy ▸ hseen

/-- The scan goes over what is ahead of the sweep, and then over what was swept. -/
theorem Swept.scan (hn : cycle.Nodup) {swept ahead order : List α}
    (h : cycle ~r swept ++ last :: ahead) (ho : cycle ~r last :: order) :
    order = ahead ++ swept := by
  have hrot : cycle ~r last :: (ahead ++ swept) := h.trans List.isRotated_append
  exact rotation_unique (ho.nodup_iff.mp hn) (ho.symm.trans hrot)

/-- Where the scan stops: ahead of the sweep, or, when all that is ahead was skipped, within
what was swept. -/
theorem stops (hn : cycle.Nodup) {swept ahead : List α} (h : cycle ~r swept ++ last :: ahead)
    (hs : ScansTo cycle skip last next) :
    (∃ skipped beyond, ahead = skipped ++ next :: beyond ∧ ∀ y ∈ skipped, skip y) ∨
      ((∀ y ∈ ahead, skip y) ∧ ∃ front back, swept ++ [last] = front ++ next :: back) := by
  obtain ⟨order, skipped, beyond, ho, he, hskip⟩ := hs
  obtain rfl := Swept.scan hn h ho
  rw [List.append_assoc] at he
  rcases List.append_eq_append_iff.mp he with ⟨front, hfront, hback⟩ | ⟨rest, hahead, hrest⟩
  · refine .inr ⟨fun y hy => hskip y ?_, front, beyond, hback⟩
    rw [hfront]
    exact List.mem_append_left _ hy
  · cases rest with
    | nil =>
      refine .inr ⟨fun y hy => hskip y ?_, [], beyond, hrest.symm⟩
      rwa [hahead, List.append_nil] at hy
    | cons z rest =>
      obtain ⟨rfl, -⟩ := List.cons.inj hrest
      exact .inl ⟨skipped, rest, hahead, hskip⟩

/-- A visit extends the sweep. -/
theorem Swept.visit (hn : cycle.Nodup) (h : Swept cycle seen first last)
    (hs : ScansTo cycle skip last next) (hseen : ∀ y, seen y → seen' y)
    (hskip : ∀ y, skip y → seen' y) (hnext : seen' next) : Swept cycle seen' first next := by
  obtain ⟨swept, ahead, hrot, hfirst, hall⟩ := h
  rcases stops hn hrot hs with ⟨skipped, beyond, rfl, hskipped⟩ | ⟨-, front, back, hback⟩
  · refine ⟨swept ++ last :: skipped, beyond, by simpa using hrot, ?_, ?_⟩
    · cases swept <;> simpa using hfirst
    · intro y hy
      simp only [List.append_assoc, List.cons_append, List.mem_append, List.mem_cons,
        List.not_mem_nil, or_false] at hy
      rcases hy with hy | rfl | hy | rfl
      · exact hseen y (hall y (by simp [hy]))
      · exact hseen y (hall y (by simp))
      · exact hskip y (hskipped y hy)
      · exact hnext
  · refine ⟨front, back ++ ahead, ?_, ?_, ?_⟩
    · rw [List.append_cons, hback] at hrot
      simpa using hrot
    · rw [hback] at hfirst
      cases front <;> simpa using hfirst
    · intro y hy
      refine hseen y (hall y ?_)
      rw [hback]
      simp only [List.mem_append, List.mem_cons, List.not_mem_nil, or_false] at hy ⊢
      exact hy.imp_right .inl

/-- A visit that comes back to the first member has swept the cycle. -/
theorem Swept.round (hn : cycle.Nodup) (h : Swept cycle seen first last)
    (hs : ScansTo cycle skip last first) (hskip : ∀ y, skip y → seen y) :
    ∀ y ∈ cycle, seen y := by
  obtain ⟨swept, ahead, hrot, hfirst, hall⟩ := h
  have hmem : ∀ y, y ∈ cycle ↔ y ∈ swept ++ [last] ∨ y ∈ ahead := by
    intro y
    rw [hrot.mem_iff, List.append_cons, List.mem_append]
  have hahead : ∀ y ∈ ahead, skip y := by
    rcases stops hn hrot hs with ⟨skipped, beyond, rfl, -⟩ | ⟨hahead, -⟩
    · have hd := hrot.nodup_iff.mp hn
      rw [List.append_cons] at hd
      have hdisjoint := (List.nodup_append.mp hd).2.2
      exact absurd rfl (hdisjoint first (List.mem_of_head? hfirst) first (by simp))
    · exact hahead
  intro y hy
  rcases (hmem y).mp hy with hy | hy
  · exact hall y hy
  · exact hskip y (hahead y hy)

/-- The indices of a list from `start` on, wrapping at its end, go through a rotation. -/
theorem findSome?_wrapping {α β : Type} (l : List α) (start : ℕ) (f : α → Option β) :
    (List.range l.length).findSome? (fun k => (l[(start + k) % l.length]?).bind f) =
      (l.rotate start).findSome? f := by
  have hmap : (List.range l.length).map (fun k => l[(start + k) % l.length]?) =
      (l.rotate start).map some := by
    apply List.ext_getElem?
    intro k
    by_cases hk : k < l.length
    · have hlt : (start + k) % l.length < l.length := Nat.mod_lt _ (by omega)
      rw [List.getElem?_map, List.getElem?_map, List.getElem?_range hk, List.getElem?_rotate hk,
        Nat.add_comm k start]
      simp [List.getElem?_eq_getElem hlt]
    · simp [hk]
  have h := congrArg (List.findSome? fun host => host.bind f) hmap
  rw [List.findSome?_map, List.findSome?_map] at h
  exact h

theorem rotate_past (u v : List α) (last : α) :
    (u ++ last :: v).rotate (u.length + 1) = v ++ u ++ [last] := by
  have h := List.rotate_append_length_eq (u ++ [last]) v
  simpa using h

section

variable {place : α → ℕ} {l : List α} {p : α → Bool} {x y : α}

theorem find?_le (hl : l.Pairwise (place · < place ·)) (h : l.find? p = some x) (hy : y ∈ l)
    (hp : p y = true) : place x ≤ place y := by
  obtain ⟨-, below, above, rfl, hbelow⟩ := List.find?_eq_some_iff_append.mp h
  rcases List.mem_append.mp hy with hy | hy
  · have hnot := hbelow y hy
    simp [hp] at hnot
  · have habove := (List.pairwise_append.mp hl).2.1
    cases hy with
    | head => exact Nat.le_refl _
    | tail _ hy => exact Nat.le_of_lt (List.rel_of_pairwise_cons habove hy)

/-- In a list that ascends, the first match is the least one. -/
theorem find?_eq_some_iff_least (hl : l.Pairwise (place · < place ·)) :
    l.find? p = some x ↔ x ∈ l ∧ p x = true ∧ ∀ y ∈ l, p y = true → place x ≤ place y := by
  constructor
  · intro h
    exact ⟨List.mem_of_find?_eq_some h, List.find?_some h, fun y hy hp => find?_le hl h hy hp⟩
  · intro ⟨hx, hp, hleast⟩
    cases h : l.find? p with
    | none => exact absurd hp (List.find?_eq_none.mp h x hx)
    | some y =>
      have hy := List.mem_of_find?_eq_some h
      have hxy : place x = place y :=
        Nat.le_antisymm (hleast y hy (List.find?_some h)) (find?_le hl h hx hp)
      have hplaces : (l.map place).Nodup := List.pairwise_map.mpr (hl.imp Nat.ne_of_lt)
      rw [List.inj_on_of_nodup_map hplaces hx hy hxy]

end

end FlannelRs.RoundRobin
