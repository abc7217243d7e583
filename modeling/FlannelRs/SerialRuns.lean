import FlannelRs.ProcessPools
import Mathlib.Data.List.Nodup

/-!
# Processes that run as if one after the other

The jobs of a pool change the shared state only while they hold a lock, which each of them takes
at most once. What such a pool has done is what the same jobs do one after the other, in an order
in which no job comes before another one that was over when it began.
-/

namespace FlannelRs.SerialRuns
open InteractionPrograms ProcessPools

variable {σ Pid Job Op : Type} {Res : Op → Type} {α : Type}

/-- From state `s` the program `p` gets to state `t`, where `q` is left of it. -/
inductive Advance (answers : Environment σ Op Res) (s : σ) (p : Program Op Res α) :
    σ → Program Op Res α → Prop where
  | here : Advance answers s p s p
  | step {t u : σ} {o : Op} {r : Res o} {next : Res o → Program Op Res α}
      (run : Advance answers s p t (.request o next)) (act : answers t o r u) :
      Advance answers s p u (next r)

theorem Advance.exec {answers : Environment σ Op Res} {s t u : σ} {p q : Program Op Res α} {a : α}
    (h : Advance answers s p t q) (hq : Exec answers t q a u) : Exec answers s p a u := by
  induction h with
  | here => exact hq
  | step run act ih => exact ih (.request act hq)

/-- A job with its result, and how many jobs were over when it began. -/
structure Turn (Pid Job α : Type) where
  pid : Pid
  job : Job
  result : α
  opened : Nat

/-- The state, and the jobs that are over, the oldest one first. -/
structure Book (σ Pid Job α : Type) where
  state : σ
  opened : Pid → Nat
  past : List (Turn Pid Job α)

/-- The turn of the job that process `p` ends now. -/
def Book.turn (b : Book σ Pid Job α) (p : Pid) (j : Job) (a : α) : Turn Pid Job α :=
  ⟨p, j, a, b.opened p⟩

/-- The jobs of the turns, one after the other. -/
inductive Serial (code : Pid → Job → Program Op Res α) (answers : Pid → Job → Environment σ Op Res)
    (s : σ) : List (Turn Pid Job α) → σ → Prop where
  | nil : Serial code answers s [] s
  | concat {order : List (Turn Pid Job α)} {t u : σ} {x : Turn Pid Job α}
      (run : Serial code answers s order t)
      (act : Exec (answers x.pid x.job) t (code x.pid x.job) x.result u) :
      Serial code answers s (order ++ [x]) u

/-- How the jobs of a pool go about their lock. A job that `watches` takes no turn. The others
are `outside` of the lock first, and then `inside`. The relations `free` and `held` compare the
state with that of the same jobs one after the other. -/
structure Discipline (σ Pid Job Op : Type) (Res : Op → Type) (α : Type) where
  code : Pid → Job → Program Op Res α
  answers : Pid → Job → Environment σ Op Res
  allowed : Pid → Job → Prop
  watches : Job → Bool
  outside : Pid → Job → Program Op Res α → σ → Prop
  inside : Pid → Job → Program Op Res α → Prop
  free : σ → σ → Prop
  held : Pid → σ → σ → Prop

namespace Discipline

variable (D : Discipline σ Pid Job Op Res α)

/-- The change means nothing to the jobs that have not taken the lock yet. -/
def Keeps (s s' : σ) : Prop :=
  ∀ p j prog, D.outside p j prog s → D.outside p j prog s'

/-- The change means nothing to the jobs that take turns. -/
structure Silent (s s' : σ) : Prop where
  keeps : D.Keeps s s'
  free : ∀ t, D.free s t → D.free s' t
  held : ∀ p t, D.held p s t → D.held p s' t

theorem Silent.refl (s : σ) : D.Silent s s := ⟨fun _ _ _ => id, fun _ => id, fun _ _ => id⟩

/-- Every answer to the request is silent. -/
def Quiet (p : Pid) (j : Job) (o : Op) : Prop :=
  ∀ s r s', D.answers p j s o r s' → D.Silent s s'

/-- A job that ends so has done nothing, whenever it has its turn. -/
def Idles (p : Pid) (j : Job) (a : α) : Prop :=
  ∀ s t, D.free s t → ∃ t', Exec (D.answers p j) t (D.code p j) a t' ∧ D.free s t'

structure Lawful : Prop where
  refl : ∀ s t, D.free s t → D.free t t
  watch : ∀ p j, D.allowed p j → D.watches j = true → (D.code p j).Uses (D.Quiet p j)
  start : ∀ p j, D.allowed p j → D.watches j = false → ∀ s, D.outside p j (D.code p j) s
  outsideStep : ∀ p j o next s r s', D.outside p j (.request o next) s → D.answers p j s o r s' →
    (D.outside p j (next r) s' ∧ D.Silent s s') ∨
    (D.inside p j (next r) ∧ D.Keeps s s' ∧ (∀ q t, ¬ D.held q s t) ∧ ∀ t, D.free s t →
      ∃ t', Advance (D.answers p j) t (D.code p j) t' (next r) ∧ D.held p s' t')
  outsideRet : ∀ p j a s, D.outside p j (.ret a) s → D.Idles p j a
  insideStep : ∀ p j o next s t r s', D.inside p j (.request o next) → D.held p s t →
    D.answers p j s o r s' → D.Keeps s s' ∧ ∃ t', D.answers p j t o r t' ∧
      ((D.inside p j (next r) ∧ D.held p s' t') ∨ ∃ a, next r = .ret a ∧ D.free s' t')
  insideRet : ∀ p j a, ¬ D.inside p j (.ret a)

/-- The turns of the jobs that take turns. -/
def turns (past : List (Turn Pid Job α)) : List (Turn Pid Job α) :=
  past.filter fun x => !D.watches x.job

variable [DecidableEq Pid]

/-- The pool, with its books. -/
def system : System (Book σ Pid Job α) Pid Job Op Res α where
  code := D.code
  start p j b b' := D.allowed p j ∧ b' = ⟨b.state, Function.update b.opened p b.past.length, b.past⟩
  answers p j b o r b' := D.answers p j b.state o r b'.state ∧ b' = ⟨b'.state, b.opened, b.past⟩
  finish p j a b b' := b' = ⟨b.state, b.opened, b.past ++ [b.turn p j a]⟩

end Discipline

variable {D : Discipline σ Pid Job Op Res α} {c d e : Config (Book σ Pid Job α) Pid Job Op Res α}

theorem busy_ne_none {p : Pid} {j : Job} {prog : Program Op Res α}
    (h : d.busy p = some (j, prog)) : d.busy p ≠ none := by
  rw [h]
  exact Option.some_ne_none _

/-- The books number the jobs that are over, and what is over before a job of a process began
contains all that this process did before. -/
structure Dated (d : Config (Book σ Pid Job α) Pid Job Op Res α) : Prop where
  busy : ∀ p, d.busy p ≠ none → d.state.opened p ≤ d.state.past.length
  earlier : ∀ (i : Nat) (x : Turn Pid Job α), d.state.past[i]? = some x → x.opened ≤ i
  own : ∀ p, d.busy p ≠ none → ∀ x ∈ d.state.past, x.pid = p →
    x ∈ d.state.past.take (d.state.opened p)

theorem Dated.opened_le (h : Dated d) {x : Turn Pid Job α} (hx : x ∈ d.state.past) :
    x.opened ≤ d.state.past.length := by
  obtain ⟨i, hi, hget⟩ := List.getElem_of_mem hx
  have hle := h.earlier i x (by rw [List.getElem?_eq_getElem hi, hget])
  omega

/-- The turn of a job that is not over is not in the books yet. -/
theorem Dated.fresh (h : Dated d) {p : Pid} (hb : d.busy p ≠ none) (j : Job) (a : α) :
    d.state.turn p j a ∉ d.state.past := by
  intro hmem
  have htake := h.own p hb _ hmem rfl
  obtain ⟨i, hi, hget⟩ := List.getElem_of_mem htake
  have hlt : i < d.state.opened p := by
    rw [List.length_take] at hi
    omega
  have hle : (d.state.turn p j a).opened ≤ i := by
    apply h.earlier i
    rw [← hget, List.getElem_take, List.getElem?_eq_getElem]
  have heq : (d.state.turn p j a).opened = d.state.opened p := rfl
  omega

/-- What was over when a job began does not change. -/
theorem take_concat {past : List (Turn Pid Job α)} {n : Nat} (h : n ≤ past.length)
    (x : Turn Pid Job α) : (past ++ [x]).take n = past.take n :=
  List.take_append_of_le_length h

theorem Discipline.turns_concat {past : List (Turn Pid Job α)} {x : Turn Pid Job α}
    (hx : D.watches x.job = false) : D.turns (past ++ [x]) = D.turns past ++ [x] := by
  rw [Discipline.turns, List.filter_append, List.filter_cons_of_pos (by simp [hx])]
  rfl

theorem Discipline.turns_concat_watching {past : List (Turn Pid Job α)} {x : Turn Pid Job α}
    (hx : D.watches x.job = true) : D.turns (past ++ [x]) = D.turns past := by
  rw [Discipline.turns, List.filter_append, List.filter_cons_of_neg (by simp [hx])]
  exact List.append_nil _

variable {s₀ t : σ} {order waiting pending : List (Turn Pid Job α)} {holder : Option Pid}

/-- Where a process is in its job. A job in `pending` has had its turn, but is not over yet. -/
inductive Place (D : Discipline σ Pid Job Op Res α) (d : Config (Book σ Pid Job α) Pid Job Op Res α)
    (pending : List (Turn Pid Job α)) (holder : Option Pid) (p : Pid) : Prop where
  | idle (hbusy : d.busy p = none) (hnot : ∀ x ∈ pending, x.pid ≠ p) (hlock : holder ≠ some p)
  | watching {j : Job} {prog : Program Op Res α} (hbusy : d.busy p = some (j, prog))
      (hwatches : D.watches j = true) (huses : prog.Uses (D.Quiet p j))
      (hnot : ∀ x ∈ pending, x.pid ≠ p) (hlock : holder ≠ some p)
  | outside {j : Job} {prog : Program Op Res α} (hbusy : d.busy p = some (j, prog))
      (hturns : D.watches j = false) (hout : D.outside p j prog d.state.state)
      (hnot : ∀ x ∈ pending, x.pid ≠ p) (hlock : holder ≠ some p)
  | inside {j : Job} {prog : Program Op Res α} (hbusy : d.busy p = some (j, prog))
      (hturns : D.watches j = false) (hin : D.inside p j prog) (hnot : ∀ x ∈ pending, x.pid ≠ p)
      (hlock : holder = some p)
  | pending {x : Turn Pid Job α} (hbusy : d.busy p = some (x.job, .ret x.result))
      (hturns : D.watches x.job = false) (hx : x ∈ pending)
      (hself : x = d.state.turn p x.job x.result) (hlock : holder ≠ some p)

/-- What the jobs one after the other have to do with the state. While a process has the lock,
its requests so far are put behind the others, and the jobs that end idly wait. -/
inductive Lock (D : Discipline σ Pid Job Op Res α) (d : Config (Book σ Pid Job α) Pid Job Op Res α)
    (waiting : List (Turn Pid Job α)) (t : σ) : Option Pid → Prop where
  | free (hnone : waiting = []) (hfree : D.free d.state.state t) : Lock D d waiting t none
  | held {p : Pid} {j : Job} {prog : Program Op Res α} {t' : σ} (hbusy : d.busy p = some (j, prog))
      (hfree : D.free t t) (hrun : Advance (D.answers p j) t (D.code p j) t' prog)
      (hheld : D.held p d.state.state t')
      (hlate : ∀ x ∈ waiting, x ∉ d.state.past.take (d.state.opened p)) :
      Lock D d waiting t (some p)

/-- The turns so far are those of the jobs one after the other, in an order that respects which of
them were over when others began. -/
structure Ordered (D : Discipline σ Pid Job Op Res α) (s₀ : σ)
    (d : Config (Book σ Pid Job α) Pid Job Op Res α) (order waiting pending : List (Turn Pid Job α))
    (holder : Option Pid) (t : σ) : Prop where
  dated : Dated d
  serial : Serial D.code D.answers s₀ order t
  perm : (order ++ waiting).Perm (D.turns d.state.past ++ pending)
  realTime : (order ++ waiting).Pairwise fun x y => y ∉ d.state.past.take x.opened
  idles : ∀ x ∈ waiting, D.Idles x.pid x.job x.result
  single : (pending.map Turn.pid).Nodup
  place : ∀ p, Place D d pending holder p
  lock : Lock D d waiting t holder

theorem Ordered.pending_busy (h : Ordered D s₀ d order waiting pending holder t)
    {x : Turn Pid Job α} (hx : x ∈ pending) :
    d.busy x.pid = some (x.job, .ret x.result) ∧ D.watches x.job = false ∧
      x = d.state.turn x.pid x.job x.result := by
  cases h.place x.pid with
  | idle _ hnot _ => exact absurd rfl (hnot x hx)
  | watching _ _ _ hnot _ => exact absurd rfl (hnot x hx)
  | outside _ _ _ hnot _ => exact absurd rfl (hnot x hx)
  | inside _ _ _ hnot _ => exact absurd rfl (hnot x hx)
  | @pending y hbusy hturns hy hpid _ =>
    have hsame : y.pid = x.pid := (congrArg Turn.pid hpid).trans rfl
    obtain rfl : y = x := List.inj_on_of_nodup_map h.single hy hx hsame
    exact ⟨hbusy, hturns, hpid⟩

/-- The jobs with a turn began when no more were over than now. -/
theorem Ordered.opened_le (h : Ordered D s₀ d order waiting pending holder t)
    {x : Turn Pid Job α} (hx : x ∈ order ++ waiting) : x.opened ≤ d.state.past.length := by
  rcases List.mem_append.mp (h.perm.mem_iff.mp hx) with hx | hx
  · exact h.dated.opened_le (List.mem_of_mem_filter hx)
  · obtain ⟨hbusy, -, hself⟩ := h.pending_busy hx
    rw [hself]
    exact h.dated.busy _ (busy_ne_none hbusy)

/-- Jobs that end idly may have their turns at any time. -/
theorem Serial.idle {s : σ} (h : Serial D.code D.answers s₀ order t) (hfree : D.free s t)
    (hidles : ∀ x ∈ waiting, D.Idles x.pid x.job x.result) :
    ∃ t', Serial D.code D.answers s₀ (order ++ waiting) t' ∧ D.free s t' := by
  induction waiting generalizing order t with
  | nil => exact ⟨t, by rwa [List.append_nil], hfree⟩
  | cons x rest ih =>
    obtain ⟨t₁, hexec, hfree₁⟩ := hidles x List.mem_cons_self s t hfree
    obtain ⟨t', hserial, hfree'⟩ := ih (h.concat hexec) hfree₁ fun y hy =>
      hidles y (List.mem_cons_of_mem x hy)
    exact ⟨t', by rwa [List.append_assoc, List.singleton_append] at hserial, hfree'⟩

variable [DecidableEq Pid]

/-- A process begins a job. -/
theorem Dated.start (h : Dated d) (p : Pid) (j : Job) :
    Dated (d.goOn p ⟨d.state.state, Function.update d.state.opened p d.state.past.length,
      d.state.past⟩ (some (j, D.code p j))) := by
  refine ⟨fun q hq => ?_, h.earlier, fun q hq x hx hpid => ?_⟩
  · by_cases hqp : q = p
    · subst hqp
      simp
    · rw [Config.goOn_busy_other _ hqp] at hq
      simpa [Function.update_of_ne hqp] using h.busy q hq
  · by_cases hqp : q = p
    · subst hqp
      simpa using hx
    · rw [Config.goOn_busy_other _ hqp] at hq
      simpa [Function.update_of_ne hqp] using h.own q hq x hx hpid

/-- A request leaves the books as they are. -/
theorem Dated.request (h : Dated d) {p : Pid} {j : Job} {prog : Program Op Res α}
    (turn : d.busy p = some (j, prog)) (s : σ) (rest : Option (Job × Program Op Res α)) :
    Dated (d.goOn p ⟨s, d.state.opened, d.state.past⟩ rest) := by
  have hbusy : ∀ q, (d.goOn p ⟨s, d.state.opened, d.state.past⟩ rest).busy q ≠ none →
      d.busy q ≠ none := by
    intro q hq
    by_cases hqp : q = p
    · rw [hqp]
      exact busy_ne_none turn
    · rwa [Config.goOn_busy_other _ hqp] at hq
  exact ⟨fun q hq => h.busy q (hbusy q hq), h.earlier,
    fun q hq x hx hpid => h.own q (hbusy q hq) x hx hpid⟩

/-- A process ends its job. -/
theorem Dated.finish (h : Dated d) {p : Pid} {j : Job} {prog : Program Op Res α}
    (done : d.busy p = some (j, prog)) (a : α) :
    Dated (d.goOn p ⟨d.state.state, d.state.opened, d.state.past ++ [d.state.turn p j a]⟩
      none) := by
  -- whoever is busy afterwards is another process, and was busy before
  have hother : ∀ q, (d.goOn p ⟨d.state.state, d.state.opened,
      d.state.past ++ [d.state.turn p j a]⟩ none).busy q ≠ none → q ≠ p ∧ d.busy q ≠ none := by
    intro q hq
    by_cases hqp : q = p
    · subst hqp
      exact absurd (Config.goOn_busy_self ..) hq
    · rw [Config.goOn_busy_other _ hqp] at hq
      exact ⟨hqp, hq⟩
  refine ⟨fun q hq => ?_, fun i x hi => ?_, fun q hq x hx hpid => ?_⟩
  · have hle := h.busy q (hother q hq).2
    simp only [Config.goOn_state, List.length_append, List.length_singleton]
    omega
  · rw [Config.goOn_state] at hi
    rcases Nat.lt_or_ge i d.state.past.length with hlt | hge
    · rw [List.getElem?_append_left hlt] at hi
      exact h.earlier i x hi
    · rw [List.getElem?_append_right hge, List.getElem?_singleton] at hi
      obtain ⟨-, he⟩ := Option.ite_none_right_eq_some.mp hi
      obtain rfl := Option.some.inj he
      exact Nat.le_trans (h.busy p (busy_ne_none done)) hge
  · obtain ⟨hqp, hq'⟩ := hother q hq
    rw [Config.goOn_state] at hx ⊢
    rw [take_concat (h.busy q hq')]
    rcases List.mem_append.mp hx with hx | hx
    · exact h.own q hq' x hx hpid
    · obtain rfl := List.mem_singleton.mp hx
      exact absurd hpid.symm hqp

/-- The lock after a change of the books that concerns another process. -/
theorem Lock.goOn (h : Lock D d waiting t holder) {p : Pid} {b : Book σ Pid Job α}
    {rest : Option (Job × Program Op Res α)} (hp : holder ≠ some p)
    (hsilent : D.Silent d.state.state b.state)
    (hopened : ∀ q, q ≠ p → d.busy q ≠ none →
      b.past.take (b.opened q) = d.state.past.take (d.state.opened q)) :
    Lock D (d.goOn p b rest) waiting t holder := by
  cases h with
  | free hnone hfree => exact .free hnone (hsilent.free t hfree)
  | @held q j prog t' hbusy hfree hrun hheld hlate =>
    have hqp : q ≠ p := fun hqp => hp (congrArg some hqp)
    refine .held (by rwa [Config.goOn_busy_other _ hqp]) hfree hrun (hsilent.held q t' hheld) ?_
    rw [Config.goOn_state, hopened q hqp (busy_ne_none hbusy)]
    exact hlate

theorem Place.goOn {p q : Pid} (h : Place D d pending holder q) (hqp : q ≠ p)
    {b : Book σ Pid Job α} {rest : Option (Job × Program Op Res α)}
    {pending' : List (Turn Pid Job α)} {holder' : Option Pid}
    (hkeeps : D.Keeps d.state.state b.state) (hopened : b.opened q = d.state.opened q)
    (hpending : ∀ x, x.pid = q → (x ∈ pending' ↔ x ∈ pending))
    (hholder : holder' = some q ↔ holder = some q) :
    Place D (d.goOn p b rest) pending' holder' q := by
  have hbusy' := Config.goOn_busy_other d hqp b rest
  have hnot' : (∀ x ∈ pending, x.pid ≠ q) → ∀ x ∈ pending', x.pid ≠ q := by
    intro hnot x hx hpid
    exact hnot x ((hpending x hpid).mp hx) hpid
  cases h with
  | idle hbusy hnot hlock =>
    exact .idle (hbusy'.trans hbusy) (hnot' hnot) (mt hholder.mp hlock)
  | watching hbusy hwatches huses hnot hlock =>
    exact .watching (hbusy'.trans hbusy) hwatches huses (hnot' hnot) (mt hholder.mp hlock)
  | outside hbusy hturns hout hnot hlock =>
    have hout' := hkeeps q _ _ hout
    exact .outside (hbusy'.trans hbusy) hturns hout' (hnot' hnot) (mt hholder.mp hlock)
  | inside hbusy hturns hin hnot hlock =>
    exact .inside (hbusy'.trans hbusy) hturns hin (hnot' hnot) (hholder.mpr hlock)
  | @pending x hbusy hturns hx hself hlock =>
    have hpid : x.pid = q := (congrArg Turn.pid hself).trans rfl
    refine .pending (hbusy'.trans hbusy) hturns ((hpending x hpid).mpr hx) ?_ (mt hholder.mp hlock)
    rw [Book.turn, Config.goOn_state, hopened]
    exact hself

theorem Ordered.start (h : Ordered D s₀ d order waiting pending holder t) (hD : D.Lawful) {p : Pid}
    {j : Job} {b : Book σ Pid Job α} (idle : d.busy p = none)
    (act : D.system.start p j d.state b) :
    Ordered D s₀ (d.goOn p b (some (j, D.code p j))) order waiting pending holder t := by
  obtain ⟨hallowed, rfl⟩ := act
  have hdated := h.dated.start (D := D) p j
  have hnot : ∀ x ∈ pending, x.pid ≠ p := by
    intro x hx hpid
    have hbusy := (h.pending_busy hx).1
    rw [hpid, idle] at hbusy
    cases hbusy
  have hopened : ∀ q, q ≠ p → Function.update d.state.opened p d.state.past.length q =
      d.state.opened q := fun q hqp => Function.update_of_ne hqp _ _
  have hlock : holder ≠ some p := by
    rintro rfl
    obtain ⟨_, _⟩ | ⟨hbusy⟩ := h.lock
    rw [idle] at hbusy
    cases hbusy
  refine ⟨hdated, h.serial, h.perm, h.realTime, h.idles, h.single, fun q => ?_, ?_⟩
  · by_cases hqp : q = p
    · subst hqp
      cases hwatches : D.watches j with
      | true =>
        have huses := hD.watch q j hallowed hwatches
        exact .watching (Config.goOn_busy_self ..) hwatches huses hnot hlock
      | false =>
        have hout := hD.start q j hallowed hwatches d.state.state
        exact .outside (Config.goOn_busy_self ..) hwatches hout hnot hlock
    · exact (h.place q).goOn hqp (fun _ _ _ => id) (hopened q hqp) (fun _ _ => Iff.rfl) Iff.rfl
  · refine h.lock.goOn hlock (.refl D _) fun q hqp _ => ?_
    exact congrArg (List.take · d.state.past) (hopened q hqp)

/-- A request that changes the state, but no books. -/
theorem Ordered.silent (h : Ordered D s₀ d order waiting pending holder t) {p : Pid} {j : Job}
    {o : Op} {r : Res o} {next : Res o → Program Op Res α} {s : σ}
    (turn : d.busy p = some (j, .request o next)) (act : D.answers p j d.state.state o r s)
    (hsilent : D.Silent d.state.state s) (hlock : holder ≠ some p)
    (hplace : Place D (d.goOn p ⟨s, d.state.opened, d.state.past⟩ (some (j, next r))) pending
      holder p) :
    Ordered D s₀ (d.goOn p ⟨s, d.state.opened, d.state.past⟩ (some (j, next r))) order waiting
      pending holder t := by
  have hdated := h.dated.request turn s (some (j, next r))
  refine ⟨hdated, h.serial, h.perm, h.realTime, h.idles, h.single, fun q => ?_, ?_⟩
  · by_cases hqp : q = p
    · subst hqp
      exact hplace
    · exact (h.place q).goOn hqp hsilent.keeps rfl (fun _ _ => Iff.rfl) Iff.rfl
  · exact h.lock.goOn hlock hsilent fun _ _ _ => rfl

/-- A process takes the lock. -/
theorem Ordered.enter (h : Ordered D s₀ d order waiting pending holder t) (hD : D.Lawful) {p : Pid}
    {j : Job} {o : Op} {r : Res o} {next : Res o → Program Op Res α} {s : σ}
    (turn : d.busy p = some (j, .request o next)) (act : D.answers p j d.state.state o r s)
    (hturns : D.watches j = false) (hnot : ∀ x ∈ pending, x.pid ≠ p) (hin : D.inside p j (next r))
    (hkeeps : D.Keeps d.state.state s) (hnone : ∀ q t, ¬ D.held q d.state.state t)
    (henter : ∀ t, D.free d.state.state t →
      ∃ t', Advance (D.answers p j) t (D.code p j) t' (next r) ∧ D.held p s t') :
    Ordered D s₀ (d.goOn p ⟨s, d.state.opened, d.state.past⟩ (some (j, next r))) order waiting
      pending (some p) t := by
  have hdated := h.dated.request turn s (some (j, next r))
  cases h.lock with
  | free hwaiting hfree =>
    obtain ⟨t', hrun, hheld⟩ := henter t hfree
    refine ⟨hdated, h.serial, h.perm, h.realTime, h.idles, h.single, fun q => ?_, ?_⟩
    · by_cases hqp : q = p
      · subst hqp
        exact .inside (Config.goOn_busy_self ..) hturns hin hnot rfl
      · refine (h.place q).goOn hqp hkeeps rfl (fun _ _ => Iff.rfl) ?_
        simpa using fun hpq => hqp hpq.symm
    · refine .held (Config.goOn_busy_self ..) (hD.refl _ _ hfree) hrun hheld ?_
      rw [hwaiting]
      exact fun x hx => nomatch hx
  | held _ _ _ hheld _ => exact absurd hheld (hnone _ _)

/-- A process gives the lock back. Its job has its turn now, and after it those that waited. -/
theorem Ordered.leave {p : Pid} (h : Ordered D s₀ d order waiting pending (some p) t) {j : Job}
    {o : Op} {r : Res o} {next : Res o → Program Op Res α} {s t' : σ} {a : α}
    (turn : d.busy p = some (j, .request o next)) (hturns : D.watches j = false)
    (hnot : ∀ x ∈ pending, x.pid ≠ p) (hkeeps : D.Keeps d.state.state s) (hret : next r = .ret a)
    (hexec : Exec (D.answers p j) t (D.code p j) a t') (hfree : D.free s t')
    (hlate : ∀ x ∈ waiting, x ∉ d.state.past.take (d.state.opened p)) :
    ∃ order t, Ordered D s₀ (d.goOn p ⟨s, d.state.opened, d.state.past⟩ (some (j, next r))) order
      [] (d.state.turn p j a :: pending) none t := by
  let z := d.state.turn p j a
  have hfresh : z ∉ d.state.past := h.dated.fresh (busy_ne_none turn) j a
  have hserial : Serial D.code D.answers s₀ (order ++ [z]) t' := h.serial.concat hexec
  obtain ⟨u, hserial', hfree'⟩ := hserial.idle hfree h.idles
  obtain ⟨horder, hwaiting, hacross⟩ := List.pairwise_append.mp h.realTime
  refine ⟨order ++ [z] ++ waiting, u, h.dated.request turn s _, hserial', ?_, ?_,
    fun x hx => absurd hx List.not_mem_nil, ?_, fun q => ?_, .free rfl hfree'⟩
  · have hmiddle : (order ++ [z] ++ waiting).Perm (z :: (order ++ waiting)) := by
      rw [List.append_assoc, List.singleton_append]
      exact List.perm_middle
    rw [List.append_nil]
    exact hmiddle.trans ((h.perm.cons z).trans List.perm_middle.symm)
  · rw [List.append_nil]
    refine List.pairwise_append.mpr ⟨List.pairwise_append.mpr ⟨horder, List.pairwise_singleton ..,
      fun x _ y hy => ?_⟩, hwaiting, fun x hx y hy => ?_⟩
    · obtain rfl := List.mem_singleton.mp hy
      exact fun hmem => hfresh (List.mem_of_mem_take hmem)
    · rcases List.mem_append.mp hx with hx | hx
      · exact hacross x hx y hy
      · obtain rfl := List.mem_singleton.mp hx
        exact hlate y hy
  · refine List.nodup_cons.mpr ⟨fun hmem => ?_, h.single⟩
    obtain ⟨x, hx, hpid⟩ := List.mem_map.mp hmem
    exact hnot x hx hpid
  · by_cases hqp : q = p
    · subst hqp
      exact .pending (x := z) ((Config.goOn_busy_self ..).trans (by rw [hret]; rfl)) hturns
        List.mem_cons_self rfl nofun
    · refine (h.place q).goOn hqp hkeeps rfl (fun x hpid => ?_) ?_
      · rw [List.mem_cons]
        exact ⟨fun hx => hx.resolve_left fun hxz => hqp (hpid.symm.trans (hxz ▸ rfl)), .inr⟩
      · simpa using fun hpq => hqp hpq.symm

/-- A request of the process that has the lock, which may give it back. -/
theorem Ordered.inner {p : Pid} (h : Ordered D s₀ d order waiting pending (some p) t)
    (hD : D.Lawful) {j : Job} {o : Op} {r : Res o} {next : Res o → Program Op Res α} {s : σ}
    (turn : d.busy p = some (j, .request o next)) (act : D.answers p j d.state.state o r s)
    (hturns : D.watches j = false) (hnot : ∀ x ∈ pending, x.pid ≠ p)
    (hin : D.inside p j (.request o next)) :
    ∃ order waiting pending holder t,
      Ordered D s₀ (d.goOn p ⟨s, d.state.opened, d.state.past⟩ (some (j, next r))) order waiting
        pending holder t := by
  obtain _ | @⟨_, j', prog, t', hbusy, hfree, hrun, hheld, hlate⟩ := h.lock
  obtain ⟨rfl, rfl⟩ := Prod.mk.inj (Option.some.inj (turn.symm.trans hbusy))
  obtain ⟨hkeeps, t'', hact', ⟨hin', hheld'⟩ | ⟨a, hret, hfree'⟩⟩ :=
    hD.insideStep p j o next _ _ r s hin hheld act
  · refine ⟨order, waiting, pending, some p, t, h.dated.request turn s _, h.serial, h.perm,
      h.realTime, h.idles, h.single, fun q => ?_,
      .held (Config.goOn_busy_self ..) hfree (hrun.step hact') hheld' hlate⟩
    by_cases hqp : q = p
    · subst hqp
      exact .inside (Config.goOn_busy_self ..) hturns hin' hnot rfl
    · exact (h.place q).goOn hqp hkeeps rfl (fun _ _ => Iff.rfl) Iff.rfl
  · have hexec : Exec (D.answers p j) t (D.code p j) a t'' :=
      (hrun.step hact').exec (hret ▸ .ret ..)
    obtain ⟨order, t, h'⟩ := h.leave turn hturns hnot hkeeps hret hexec hfree' hlate
    exact ⟨order, [], _, none, t, h'⟩

/-- The books when a process ends its job. -/
theorem Ordered.finished (h : Ordered D s₀ d order waiting pending holder t) {p : Pid} {j : Job}
    {a : α} (done : d.busy p = some (j, .ret a)) :
    Dated (d.goOn p ⟨d.state.state, d.state.opened, d.state.past ++ [d.state.turn p j a]⟩ none) ∧
      (order ++ waiting).Pairwise fun x y =>
        y ∉ (d.state.past ++ [d.state.turn p j a]).take x.opened := by
  refine ⟨h.dated.finish done a, h.realTime.imp_of_mem fun hx _ hxy => ?_⟩
  rwa [take_concat (h.opened_le hx)]

/-- A job ends that takes no turn. -/
theorem Ordered.finish_watching (h : Ordered D s₀ d order waiting pending holder t) {p : Pid}
    {j : Job} {a : α} (done : d.busy p = some (j, .ret a)) (hwatches : D.watches j = true)
    (hnot : ∀ x ∈ pending, x.pid ≠ p) (hlock : holder ≠ some p) :
    Ordered D s₀ (d.goOn p ⟨d.state.state, d.state.opened, d.state.past ++ [d.state.turn p j a]⟩
      none) order waiting pending holder t := by
  obtain ⟨hdated, htime⟩ := h.finished done
  refine ⟨hdated, h.serial, ?_, htime, h.idles, h.single, fun q => ?_, ?_⟩
  · rw [Config.goOn_state, D.turns_concat_watching hwatches]
    exact h.perm
  · by_cases hqp : q = p
    · subst hqp
      exact .idle (Config.goOn_busy_self ..) hnot hlock
    · exact (h.place q).goOn hqp (fun _ _ _ => id) rfl (fun _ _ => Iff.rfl) Iff.rfl
  · exact h.lock.goOn hlock (.refl D _) fun q _ hq =>
      take_concat (h.dated.busy q hq) _

/-- A job ends that had nothing to do. -/
theorem Ordered.finish_outside (h : Ordered D s₀ d order waiting pending holder t) (hD : D.Lawful)
    {p : Pid} {j : Job} {a : α} (done : d.busy p = some (j, .ret a)) (hturns : D.watches j = false)
    (hout : D.outside p j (.ret a) d.state.state) (hnot : ∀ x ∈ pending, x.pid ≠ p)
    (hlock : holder ≠ some p) :
    ∃ order waiting t, Ordered D s₀
      (d.goOn p ⟨d.state.state, d.state.opened, d.state.past ++ [d.state.turn p j a]⟩ none) order
      waiting pending holder t := by
  let z := d.state.turn p j a
  obtain ⟨hdated, htime⟩ := h.finished done
  have hfresh : z ∉ d.state.past := h.dated.fresh (busy_ne_none done) j a
  have hidles : D.Idles z.pid z.job z.result := hD.outsideRet p j a _ hout
  have htime' : (order ++ waiting ++ [z]).Pairwise fun x y =>
      y ∉ (d.state.past ++ [z]).take x.opened := by
    refine List.pairwise_append.mpr ⟨htime, List.pairwise_singleton .., fun x hx y hy => ?_⟩
    obtain rfl := List.mem_singleton.mp hy
    rw [take_concat (h.opened_le hx)]
    exact fun hmem => hfresh (List.mem_of_mem_take hmem)
  have hperm : (order ++ waiting ++ [z]).Perm (D.turns (d.state.past ++ [z]) ++ pending) := by
    rw [D.turns_concat hturns, List.append_assoc _ [z]]
    exact (List.perm_append_comm.trans (h.perm.cons z)).trans List.perm_middle.symm
  have hplace : ∀ q, Place D (d.goOn p ⟨d.state.state, d.state.opened, d.state.past ++ [z]⟩ none)
      pending holder q := by
    intro q
    by_cases hqp : q = p
    · subst hqp
      exact .idle (Config.goOn_busy_self ..) hnot hlock
    · exact (h.place q).goOn hqp (fun _ _ _ => id) rfl (fun _ _ => Iff.rfl) Iff.rfl
  cases h.lock with
  | free hwaiting hfree =>
    subst hwaiting
    rw [List.append_nil] at htime' hperm
    obtain ⟨t', hexec, hfree'⟩ := hidles _ _ hfree
    refine ⟨order ++ [z], [], t', hdated, h.serial.concat hexec, ?_, ?_,
      fun x hx => absurd hx List.not_mem_nil, h.single, hplace, .free rfl hfree'⟩
    · rwa [List.append_nil]
    · rwa [List.append_nil]
  | @held q j' prog t' hbusy hfree hrun hheld hlate =>
    have hqp : q ≠ p := fun hqp => hlock (congrArg some hqp)
    have hle : d.state.opened q ≤ d.state.past.length := h.dated.busy q (busy_ne_none hbusy)
    rw [List.append_assoc] at htime' hperm
    refine ⟨order, waiting ++ [z], t, hdated, h.serial, hperm, htime', fun x hx => ?_, h.single,
      hplace, .held ((Config.goOn_busy_other d hqp ..).trans hbusy) hfree hrun hheld fun x hx => ?_⟩
    · rcases List.mem_append.mp hx with hx | hx
      · exact h.idles x hx
      · obtain rfl := List.mem_singleton.mp hx
        exact hidles
    · rw [Config.goOn_state, take_concat hle]
      rcases List.mem_append.mp hx with hx | hx
      · exact hlate x hx
      · obtain rfl := List.mem_singleton.mp hx
        exact fun hmem => hfresh (List.mem_of_mem_take hmem)

/-- A job ends that had its turn. -/
theorem Ordered.finish_pending (h : Ordered D s₀ d order waiting pending holder t) {p : Pid}
    {x : Turn Pid Job α} (done : d.busy p = some (x.job, .ret x.result))
    (hturns : D.watches x.job = false) (hx : x ∈ pending)
    (hself : x = d.state.turn p x.job x.result) (hlock : holder ≠ some p) :
    ∃ pending, Ordered D s₀
      (d.goOn p ⟨d.state.state, d.state.opened, d.state.past ++ [d.state.turn p x.job x.result]⟩
        none) order waiting pending holder t := by
  obtain ⟨hdated, htime⟩ := h.finished done
  have hpid : x.pid = p := (congrArg Turn.pid hself).trans rfl
  obtain ⟨before, after, rfl⟩ := List.append_of_mem hx
  have hmiddle : (before ++ x :: after).Perm (x :: (before ++ after)) := List.perm_middle
  obtain ⟨hnot, hsingle⟩ := List.nodup_cons.mp ((hmiddle.map Turn.pid).nodup_iff.mp h.single)
  refine ⟨before ++ after, hdated, h.serial, ?_, htime, h.idles, hsingle, fun q => ?_, ?_⟩
  · rw [Config.goOn_state, ← hself, D.turns_concat hturns, List.append_assoc,
      List.singleton_append]
    exact h.perm.trans (hmiddle.append_left _)
  · by_cases hqp : q = p
    · subst hqp
      refine .idle (Config.goOn_busy_self ..) (fun y hy hypid => hnot ?_) hlock
      exact List.mem_map.mpr ⟨y, hy, hypid.trans hpid.symm⟩
    · refine (h.place q).goOn hqp (fun _ _ _ => id) rfl (fun y hy => ?_) Iff.rfl
      rw [hmiddle.mem_iff, List.mem_cons]
      exact ⟨.inr, fun hyx => hyx.resolve_left fun he => hqp (hy.symm.trans (he ▸ hpid))⟩
  · exact h.lock.goOn hlock (.refl D _) fun q _ hq =>
      take_concat (h.dated.busy q hq) _

theorem Ordered.step (h : Ordered D s₀ d order waiting pending holder t) (hD : D.Lawful) {p : Pid}
    {j : Job} (act : D.system.Step p j d e) :
    ∃ order waiting pending holder t, Ordered D s₀ e order waiting pending holder t := by
  cases act with
  | start idle act => exact ⟨_, _, _, _, _, h.start hD idle act⟩
  | @request _ _ _ b o r next turn act =>
    obtain ⟨hact, hb⟩ := act
    rw [hb]
    cases h.place p with
    | idle hbusy => rw [turn] at hbusy; cases hbusy
    | @watching j' prog hbusy hwatches huses hnot hlock =>
      obtain ⟨rfl, rfl⟩ := Prod.mk.inj (Option.some.inj (turn.symm.trans hbusy))
      refine ⟨_, _, _, _, _, h.silent turn hact (huses.1 _ _ _ hact) hlock ?_⟩
      exact .watching (Config.goOn_busy_self ..) hwatches (huses.2 r) hnot hlock
    | @outside j' prog hbusy hturns hout hnot hlock =>
      obtain ⟨rfl, rfl⟩ := Prod.mk.inj (Option.some.inj (turn.symm.trans hbusy))
      rcases hD.outsideStep p j o next _ r _ hout hact with
        ⟨hout', hsilent⟩ | ⟨hin, hkeeps, hnone, henter⟩
      · refine ⟨_, _, _, _, _, h.silent turn hact hsilent hlock ?_⟩
        exact .outside (Config.goOn_busy_self ..) hturns hout' hnot hlock
      · exact ⟨_, _, _, _, _, h.enter hD turn hact hturns hnot hin hkeeps hnone henter⟩
    | @inside j' prog hbusy hturns hin hnot hlock =>
      obtain ⟨rfl, rfl⟩ := Prod.mk.inj (Option.some.inj (turn.symm.trans hbusy))
      subst hlock
      exact h.inner hD turn hact hturns hnot hin
    | pending hbusy => rw [turn] at hbusy; cases hbusy
  | @finish _ _ _ b a done act =>
    obtain rfl := act
    cases h.place p with
    | idle hbusy => rw [done] at hbusy; cases hbusy
    | @watching j' prog hbusy hwatches huses hnot hlock =>
      obtain ⟨rfl, rfl⟩ := Prod.mk.inj (Option.some.inj (done.symm.trans hbusy))
      exact ⟨_, _, _, _, _, h.finish_watching done hwatches hnot hlock⟩
    | @outside j' prog hbusy hturns hout hnot hlock =>
      obtain ⟨rfl, rfl⟩ := Prod.mk.inj (Option.some.inj (done.symm.trans hbusy))
      obtain ⟨order, waiting, t, h'⟩ := h.finish_outside hD done hturns hout hnot hlock
      exact ⟨order, waiting, _, _, t, h'⟩
    | @inside j' prog hbusy hturns hin hnot hlock =>
      obtain ⟨rfl, rfl⟩ := Prod.mk.inj (Option.some.inj (done.symm.trans hbusy))
      exact absurd hin (hD.insideRet p j a)
    | @pending x hbusy hturns hx hself hlock =>
      obtain ⟨rfl, hret⟩ := Prod.mk.inj (Option.some.inj (done.symm.trans hbusy))
      obtain rfl := Program.ret.inj hret
      obtain ⟨pending, h'⟩ := h.finish_pending done hturns hx hself hlock
      exact ⟨_, _, pending, _, _, h'⟩

theorem ordered_of_reachable (hD : D.Lawful) (idle : ∀ p, c.busy p = none)
    (hnew : c.state.past = []) (hfree : D.free c.state.state c.state.state)
    (h : D.system.Reachable c d) : ∃ order waiting pending holder t,
      Ordered D c.state.state d order waiting pending holder t := by
  induction h with
  | here =>
    refine ⟨[], [], [], none, c.state.state, ⟨fun p hp => absurd (idle p) hp, ?_, ?_⟩, .nil, ?_,
      .nil, fun x hx => absurd hx List.not_mem_nil, .nil,
      fun p => .idle (idle p) (fun x hx => absurd hx List.not_mem_nil) nofun, .free rfl hfree⟩
    · intro i x hi
      rw [hnew] at hi
      cases hi
    · exact fun p hp => absurd (idle p) hp
    · rw [hnew]
      exact .nil
  | step run act ih =>
    obtain ⟨_, _, _, _, _, h⟩ := ih
    exact h.step hD act

/-- What a pool has done is what the jobs with a turn do one after the other. Those are the jobs
that are over and some that only have to end, in an order in which none comes before another that
was over when it began. While nobody has the lock, also the state is as if they had been done one
after the other. -/
theorem exists_serial (hD : D.Lawful) (idle : ∀ p, c.busy p = none) (hnew : c.state.past = [])
    (hfree : D.free c.state.state c.state.state) (h : D.system.Reachable c d) :
    ∃ order pending t, Serial D.code D.answers c.state.state order t ∧
      order.Perm (D.turns d.state.past ++ pending) ∧
      order.Pairwise (fun x y => y ∉ d.state.past.take x.opened) ∧
      (∀ x ∈ pending, d.busy x.pid = some (x.job, .ret x.result) ∧ D.watches x.job = false ∧
        x.opened = d.state.opened x.pid) ∧
      ((∀ p t, ¬ D.held p d.state.state t) → D.free d.state.state t) := by
  obtain ⟨order, waiting, pending, holder, t, h⟩ := ordered_of_reachable hD idle hnew hfree h
  have hpending : ∀ x ∈ pending, d.busy x.pid = some (x.job, .ret x.result) ∧
      D.watches x.job = false ∧ x.opened = d.state.opened x.pid := by
    intro x hx
    obtain ⟨hbusy, hturns, hself⟩ := h.pending_busy hx
    exact ⟨hbusy, hturns, (congrArg Turn.opened hself).trans rfl⟩
  cases h.lock with
  | free hwaiting hfree' =>
    obtain ⟨t', hserial, hfree''⟩ := h.serial.idle hfree' h.idles
    exact ⟨order ++ waiting, pending, t', hserial, h.perm, h.realTime, hpending, fun _ => hfree''⟩
  | held _ hfree' _ hheld _ =>
    obtain ⟨t', hserial, -⟩ := h.serial.idle hfree' h.idles
    exact ⟨order ++ waiting, pending, t', hserial, h.perm, h.realTime, hpending,
      fun hnone => absurd hheld (hnone _ _)⟩

/-- A process that works alone, in the books. -/
theorem exec_booked {p : Pid} {j : Job} {s s' : σ} {prog : Program Op Res α} {a : α}
    (h : Exec (D.answers p j) s prog a s') {b : Book σ Pid Job α} (hb : b.state = s) :
    Exec (D.system.answers p j) b prog a ⟨s', b.opened, b.past⟩ :=
  Exec.lift (fun b s => ⟨s, b.opened, b.past⟩) (fun _ _ => rfl) (fun _ _ _ => rfl) (fun _ => rfl)
    (fun _ _ _ _ hr => ⟨hr, rfl⟩) h hb

/-- Two processes begin their jobs, and the one that began last works first. -/
theorem reachable_crossed {p q : Pid} (hpq : p ≠ q) {i j : Job} (hi : D.allowed p i)
    (hj : D.allowed q j) {s s₁ s₂ : σ} {a b : α} (hq : Exec (D.answers q j) s (D.code q j) b s₁)
    (hp : Exec (D.answers p i) s₁ (D.code p i) a s₂) :
    ∃ d, D.system.Reachable ⟨⟨s, fun _ => 0, []⟩, fun _ => none⟩ d ∧ d.state.state = s₂ ∧
      d.state.past = [⟨q, j, b, 0⟩, ⟨p, i, a, 0⟩] := by
  let c : Config (Book σ Pid Job α) Pid Job Op Res α := ⟨⟨s, fun _ => 0, []⟩, fun _ => none⟩
  have hopened : ∀ x : Pid, Function.update (fun _ : Pid => 0) x 0 = fun _ => 0 := fun x =>
    Function.update_eq_self x _
  have hbegun : ∀ x y, D.allowed x y → D.system.start x y c.state c.state := fun x y hxy =>
    ⟨hxy, by simp only [c, List.length_nil, hopened]⟩
  have h₁ : D.system.Reachable c (c.goOn p c.state (some (i, D.code p i))) :=
    .step .here (.start rfl (hbegun p i hi))
  have h₂ := h₁.step (.start (p := q) (Config.goOn_busy_other c hpq.symm ..) (hbegun q j hj))
  have h₃ := h₂.ended (Config.goOn_busy_self ..) (exec_booked hq rfl) rfl
  refine ⟨_, h₃.ended (p := p) (j := i) ?_ (exec_booked hp rfl) rfl, rfl, rfl⟩
  rw [Config.goOn_busy_other _ hpq, Config.goOn_busy_other _ hpq, Config.goOn_busy_self]

end FlannelRs.SerialRuns
