import FlannelRs.SerialRuns

/-!
# Jobs under a lock that come to their end

When every request of a job by itself has an answer, no job of the pool is stuck either: at most
the job that has the lock must go on before.
-/

namespace FlannelRs.SerialProgress
open InteractionPrograms ProcessPools SerialRuns

variable {σ Pid Job Op : Type} {Res : Op → Type} {α β : Type}

section

variable {answers : Environment σ Op Res} {s t : σ}

/-- Each request has an answer, whatever the answers before it were. -/
def Live (answers : Environment σ Op Res) : Program Op Res α → σ → Prop
  | .ret _, _ => True
  | .request o next, s => (∃ r s', answers s o r s') ∧
      ∀ r s', answers s o r s' → Live answers (next r) s'

theorem Live.bind {m : α → σ → Prop} {p : Program Op Res α} {f : α → Program Op Res β}
    (hp : Live answers p s) (hm : wlp answers m p s)
    (hf : ∀ a s', m a s' → Live answers (f a) s') : Live answers (p >>= f) s := by
  induction p generalizing s with
  | ret a => exact hf a s hm
  | request o next ih =>
    obtain ⟨hanswered, hlive⟩ := hp
    exact ⟨hanswered, fun r s' hr => ih r (hlive r s' hr) (hm r s' hr)⟩

theorem Live.exceptBind {ε : Type} {m : Except ε α → σ → Prop}
    {p : ExceptT ε (Program Op Res) α} {f : α → ExceptT ε (Program Op Res) β}
    (hp : Live answers p.run s) (hm : wlp answers m p.run s)
    (hok : ∀ a s', m (.ok a) s' → Live answers (f a).run s') :
    Live answers (p >>= f).run s := by
  refine Live.bind (f := ExceptT.bindCont f) hp hm fun a s' h => ?_
  cases a with
  | ok a => exact hok a s' h
  | error e => trivial

theorem Live.liftBind {ε : Type} {m : α → σ → Prop} {p : Program Op Res α}
    {f : α → ExceptT ε (Program Op Res) β} (hp : Live answers p s) (hm : wlp answers m p s)
    (hf : ∀ a s', m a s' → Live answers (f a).run s') :
    Live answers ((liftM p : ExceptT ε (Program Op Res) α) >>= f).run s := by
  have hrun : ((liftM p : ExceptT ε (Program Op Res) α) >>= f).run =
      p >>= fun a => (f a).run := Program.bind_assoc _ _ _
  rw [hrun]
  exact hp.bind hm hf

/-- Requests that have an answer in all states of a kind, and lead to such states. -/
theorem live_of_uses {P : Op → Prop} {inv : σ → Prop}
    (hP : ∀ o, P o → ∀ s, inv s →
      (∃ r s', answers s o r s') ∧ ∀ r s', answers s o r s' → inv s')
    {p : Program Op Res α} (hp : p.Uses P) (hs : inv s) : Live answers p s := by
  induction p generalizing s with
  | ret a => trivial
  | request o next ih =>
    obtain ⟨hanswered, hkept⟩ := hP o hp.1 s hs
    exact ⟨hanswered, fun r s' hr => ih r (hp.2 r) (hkept r s' hr)⟩

/-- What is left of the program is answered as well. -/
theorem Live.advance {p q : Program Op Res α} (hp : Live answers p s)
    (h : Advance answers s p t q) : Live answers q t := by
  induction h with
  | here => exact hp
  | step run act ih => exact ih.2 _ _ act

end

variable {D : Discipline σ Pid Job Op Res α} {p : Pid} {j : Job} {prog : Program Op Res α}
  {s t : σ}

/-- A job by itself is always answered, and before it has the lock at least while the lock is
free. -/
structure Unblocked (D : Discipline σ Pid Job Op Res α) : Prop where
  live : ∀ p j t, D.watches j = false → D.free t t → Live (D.answers p j) (D.code p j) t
  answered : ∀ p j o next s t, D.outside p j (.request o next) s → D.free s t →
    ∃ r s', D.answers p j s o r s'
  symm : ∀ p s t, D.held p s t → D.held p t s

/-- A job that has the lock comes to its end, and then the lock is free. -/
theorem inside_ends (hD : D.Lawful) (hU : Unblocked D) (hin : D.inside p j prog)
    (hheld : D.held p s t) (hlive : Live (D.answers p j) prog t) :
    ∃ a s' t', Exec (D.answers p j) s prog a s' ∧ D.free s' t' ∧ D.Keeps s s' := by
  induction prog generalizing s t with
  | ret a => exact absurd hin (hD.insideRet p j a)
  | request o next ih =>
    obtain ⟨⟨r, t₁, hr⟩, hrest⟩ := hlive
    -- the request is answered in `s` as well, and then it has the same answer in `t`
    obtain ⟨-, s₁, hs₁, -⟩ := hD.insideStep p j o next t s r t₁ hin (hU.symm p s t hheld) hr
    obtain ⟨hkeeps, t₂, ht₂, hnext⟩ := hD.insideStep p j o next s t r s₁ hin hheld hs₁
    rcases hnext with ⟨hin', hheld'⟩ | ⟨a, hret, hfree⟩
    · obtain ⟨a, s', t', hexec, hfree, hkeeps'⟩ := ih r hin' hheld' (hrest r t₂ ht₂)
      exact ⟨a, s', t', .request hs₁ hexec, hfree, fun q i x hx => hkeeps' q i x (hkeeps q i x hx)⟩
    · refine ⟨a, s₁, t₂, .request hs₁ ?_, hfree, hkeeps⟩
      rw [hret]
      exact .ret ..

/-- While the lock is free, a job that does not have it comes to its end. -/
theorem outside_ends (hD : D.Lawful) (hU : Unblocked D) (hturns : D.watches j = false)
    (hout : D.outside p j prog s) (hfree : D.free s t) :
    ∃ a s' t', Exec (D.answers p j) s prog a s' ∧ D.free s' t' := by
  induction prog generalizing s with
  | ret a => exact ⟨a, s, t, .ret .., hfree⟩
  | request o next ih =>
    obtain ⟨r, s₁, hr⟩ := hU.answered p j o next s t hout hfree
    rcases hD.outsideStep p j o next s r s₁ hout hr with
      ⟨hout', hsilent⟩ | ⟨hin, -, -, henter⟩
    · obtain ⟨a, s', t', hexec, hfree'⟩ := ih r hout' (hsilent.free t hfree)
      exact ⟨a, s', t', .request hr hexec, hfree'⟩
    · obtain ⟨t₁, hrun, hheld⟩ := henter t hfree
      have hlive := (hU.live p j t hturns (hD.refl s t hfree)).advance hrun
      obtain ⟨a, s', t', hexec, hfree', -⟩ := inside_ends hD hU hin hheld hlive
      exact ⟨a, s', t', .request hr hexec, hfree'⟩

variable {c d : Config (Book σ Pid Job α) Pid Job Op Res α}
  {order waiting pending : List (Turn Pid Job α)} {holder : Option Pid} {s₀ : σ}

/-- A job that takes turns has the lock, is outside of it, or only has to end. -/
theorem place_of_turns (h : Place D d pending holder p) (hbusy : d.busy p = some (j, prog))
    (hturns : D.watches j = false) :
    (D.inside p j prog ∧ holder = some p) ∨
      (holder ≠ some p ∧ (D.outside p j prog d.state.state ∨ ∃ a, prog = .ret a)) := by
  cases h with
  | idle hidle _ _ =>
    rw [hbusy] at hidle
    cases hidle
  | watching hbusy' hwatches _ _ _ =>
    obtain ⟨rfl, rfl⟩ := Prod.mk.inj (Option.some.inj (hbusy.symm.trans hbusy'))
    rw [hturns] at hwatches
    cases hwatches
  | outside hbusy' _ hout _ hlock =>
    obtain ⟨rfl, rfl⟩ := Prod.mk.inj (Option.some.inj (hbusy.symm.trans hbusy'))
    exact .inr ⟨hlock, .inl hout⟩
  | inside hbusy' _ hin _ hlock =>
    obtain ⟨rfl, rfl⟩ := Prod.mk.inj (Option.some.inj (hbusy.symm.trans hbusy'))
    exact .inl ⟨hin, hlock⟩
  | pending hbusy' _ _ _ hlock =>
    obtain ⟨rfl, rfl⟩ := Prod.mk.inj (Option.some.inj (hbusy.symm.trans hbusy'))
    exact .inr ⟨hlock, .inr ⟨_, rfl⟩⟩

/-- Only a job that takes turns has the lock. -/
theorem inside_of_holder (h : Place D d pending (some p) p) (hbusy : d.busy p = some (j, prog)) :
    D.watches j = false ∧ D.inside p j prog := by
  cases h with
  | idle _ _ hlock => exact absurd rfl hlock
  | watching _ _ _ _ hlock => exact absurd rfl hlock
  | outside _ _ _ _ hlock => exact absurd rfl hlock
  | inside hbusy' hturns hin _ _ =>
    obtain ⟨rfl, rfl⟩ := Prod.mk.inj (Option.some.inj (hbusy.symm.trans hbusy'))
    exact ⟨hturns, hin⟩
  | pending _ _ _ _ hlock => exact absurd rfl hlock

variable [DecidableEq Pid]

/-- A process ends its job alone. -/
theorem reachable_ended {a : α} {s' : σ} (hd : D.system.Reachable c d)
    (hbusy : d.busy p = some (j, prog)) (h : Exec (D.answers p j) d.state.state prog a s') :
    D.system.Reachable c
      (d.goOn p ⟨s', d.state.opened, d.state.past ++ [d.state.turn p j a]⟩ none) :=
  hd.ended hbusy (exec_booked h rfl) rfl

/-- While the lock is free, each job that takes turns comes to its end alone. -/
theorem exists_end_free (hD : D.Lawful) (hU : Unblocked D) (hd : D.system.Reachable c d)
    (hbusy : d.busy p = some (j, prog)) (hturns : D.watches j = false)
    (hplace : D.outside p j prog d.state.state ∨ ∃ a, prog = .ret a)
    (hfree : D.free d.state.state t) :
    ∃ e u, D.system.Reachable c e ∧ e.busy p = none ∧ D.free e.state.state u ∧
      ∀ x, x ≠ p → e.busy x = d.busy x := by
  have hends : ∃ a s' t', Exec (D.answers p j) d.state.state prog a s' ∧ D.free s' t' := by
    rcases hplace with hout | ⟨a, rfl⟩
    · exact outside_ends hD hU hturns hout hfree
    · exact ⟨a, _, t, .ret .., hfree⟩
  obtain ⟨a, s', t', hexec, hfree'⟩ := hends
  exact ⟨_, t', reachable_ended hd hbusy hexec, Config.goOn_busy_self .., hfree',
    fun x hx => Config.goOn_busy_other _ hx ..⟩

/-- Each job that takes turns can come to its end, and beside it only the process that has the lock
has to go on. -/
theorem exists_end (hD : D.Lawful) (hU : Unblocked D)
    (h : Ordered D s₀ d order waiting pending holder t) (hbusy : d.busy p = some (j, prog))
    (hturns : D.watches j = false) :
    ∃ e q u, D.system.Reachable d e ∧ e.busy p = none ∧ D.free e.state.state u ∧
      (q = p ∨ ∃ v, D.held q d.state.state v) ∧
      ∀ x, x ≠ p → x ≠ q → e.busy x = d.busy x := by
  have hplace := place_of_turns (h.place p) hbusy hturns
  cases h.lock with
  | free hnone hfree =>
    have hout : D.outside p j prog d.state.state ∨ ∃ a, prog = .ret a := by
      rcases hplace with ⟨-, hlock⟩ | ⟨-, hout⟩
      · cases hlock
      · exact hout
    obtain ⟨e, u, he, hend, hfree', hothers⟩ :=
      exists_end_free hD hU .here hbusy hturns hout hfree
    exact ⟨e, p, u, he, hend, hfree', .inl rfl, fun x hx _ => hothers x hx⟩
  | @held q i rest t' hq hrefl hrun hheld hlate =>
    obtain ⟨hqturns, hin⟩ := inside_of_holder (h.place q) hq
    have hlive := (hU.live q i t hqturns hrefl).advance hrun
    obtain ⟨a, s', u, hexec, hfree, hkeeps⟩ := inside_ends hD hU hin hheld hlive
    have hd₁ := reachable_ended (.here : D.system.Reachable d d) hq hexec
    by_cases hpq : p = q
    · subst hpq
      exact ⟨_, p, u, hd₁, Config.goOn_busy_self .., hfree, .inl rfl,
        fun x hx _ => Config.goOn_busy_other _ hx ..⟩
    · rcases hplace with ⟨-, hlock⟩ | ⟨-, hout⟩
      · exact absurd (Option.some.inj hlock).symm hpq
      obtain ⟨e, u', he, hend, hfree', hothers⟩ := exists_end_free hD hU hd₁
        ((Config.goOn_busy_other d hpq ..).trans hbusy) hturns (hout.imp (hkeeps p j prog) id) hfree
      refine ⟨e, q, u', he, hend, hfree', .inr ⟨_, hheld⟩, fun x hx hxq => ?_⟩
      exact (hothers x hx).trans (Config.goOn_busy_other _ hxq ..)

end FlannelRs.SerialProgress
