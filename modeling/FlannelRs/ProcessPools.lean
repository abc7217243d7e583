import FlannelRs.InteractionPrograms
import Mathlib.Logic.Function.Basic

/-!
# Pools of processes that share a state, and rely-guarantee reasoning about them

Every process runs one job at a time: it starts the job, sends its requests one by
one and finishes. Between two requests of a process any number of requests of other
processes may be answered. A proof about all interleavings is reduced to one proof
for each job: `Safe` follows the requests of the job and lets the other processes act,
as far as `rely` allows, before each of them.
-/

namespace FlannelRs.ProcessPools
open InteractionPrograms

/-- What a pool is made of. `start` and `finish` may also keep books in the state. -/
structure System (σ Pid Job Op : Type) (Res : Op → Type) (α : Type) where
  code : Pid → Job → Program Op Res α
  start : Pid → Job → σ → σ → Prop
  answers : Pid → Job → Environment σ Op Res
  finish : Pid → Job → α → σ → σ → Prop

/-- The shared state, and for each process its job and the rest of its program. -/
structure Config (σ Pid Job Op : Type) (Res : Op → Type) (α : Type) where
  state : σ
  busy : Pid → Option (Job × Program Op Res α)

variable {σ Pid Job Op : Type} {Res : Op → Type} {α β : Type}

section Pools

variable [DecidableEq Pid]

namespace Config

/-- Process `p` goes on with `b`, in the state `s`. -/
def goOn (c : Config σ Pid Job Op Res α) (p : Pid) (s : σ)
    (b : Option (Job × Program Op Res α)) : Config σ Pid Job Op Res α :=
  ⟨s, Function.update c.busy p b⟩

@[simp] theorem goOn_state (c : Config σ Pid Job Op Res α) (p : Pid) (s : σ)
    (b : Option (Job × Program Op Res α)) : (c.goOn p s b).state = s := rfl

@[simp] theorem goOn_busy_self (c : Config σ Pid Job Op Res α) (p : Pid) (s : σ)
    (b : Option (Job × Program Op Res α)) : (c.goOn p s b).busy p = b :=
  Function.update_self ..

@[simp] theorem goOn_goOn (c : Config σ Pid Job Op Res α) (p : Pid) (s s' : σ)
    (b b' : Option (Job × Program Op Res α)) : (c.goOn p s b).goOn p s' b' = c.goOn p s' b' := by
  simp [goOn]

theorem goOn_busy_other (c : Config σ Pid Job Op Res α) {p q : Pid} (h : q ≠ p) (s : σ)
    (b : Option (Job × Program Op Res α)) : (c.goOn p s b).busy q = c.busy q :=
  Function.update_of_ne h ..

end Config

namespace System

variable (S : System σ Pid Job Op Res α)

/-- Process `p` acts within its job `j`. -/
inductive Step : Pid → Job → Config σ Pid Job Op Res α → Config σ Pid Job Op Res α → Prop where
  | start {c : Config σ Pid Job Op Res α} {p : Pid} {j : Job} {s : σ}
      (idle : c.busy p = none) (act : S.start p j c.state s) :
      Step p j c (c.goOn p s (some (j, S.code p j)))
  | request {c : Config σ Pid Job Op Res α} {p : Pid} {j : Job} {s : σ} {o : Op} {r : Res o}
      {next : Res o → Program Op Res α} (turn : c.busy p = some (j, .request o next))
      (act : S.answers p j c.state o r s) :
      Step p j c (c.goOn p s (some (j, next r)))
  | finish {c : Config σ Pid Job Op Res α} {p : Pid} {j : Job} {s : σ} {a : α}
      (done : c.busy p = some (j, .ret a)) (act : S.finish p j a c.state s) :
      Step p j c (c.goOn p s none)

/-- The configurations reached from `c` by any interleaving. -/
inductive Reachable (c : Config σ Pid Job Op Res α) : Config σ Pid Job Op Res α → Prop where
  | here : Reachable c c
  | step {d e : Config σ Pid Job Op Res α} {p : Pid} {j : Job} (run : Reachable c d)
      (act : S.Step p j d e) : Reachable c e

/-- A run of a pool is a run of any pool that keeps fewer books and allows the same. -/
theorem Reachable.project {τ : Type} {S : System σ Pid Job Op Res α}
    {T : System τ Pid Job Op Res α} (f : σ → τ) (hcode : S.code = T.code)
    (hstart : ∀ p j s s', S.start p j s s' → T.start p j (f s) (f s'))
    (hanswers : ∀ p j s o r s', S.answers p j s o r s' → T.answers p j (f s) o r (f s'))
    (hfinish : ∀ p j a s s', S.finish p j a s s' → T.finish p j a (f s) (f s'))
    {c d : Config σ Pid Job Op Res α} (h : S.Reachable c d) :
    T.Reachable ⟨f c.state, c.busy⟩ ⟨f d.state, d.busy⟩ := by
  induction h with
  | here => exact .here
  | step run act ih =>
    cases act with
    | start idle act =>
      have hstep := Step.start (S := T) (c := ⟨f _, _⟩) idle (hstart _ _ _ _ act)
      rw [← hcode] at hstep
      exact .step ih hstep
    | request turn act =>
      exact .step ih (Step.request (c := ⟨f _, _⟩) turn (hanswers _ _ _ _ _ _ act))
    | finish done act =>
      exact .step ih (Step.finish (c := ⟨f _, _⟩) done (hfinish _ _ _ _ _ act))

/-- A busy process may go on alone to the end of its program. -/
theorem Reachable.alone {S : System σ Pid Job Op Res α} {c d : Config σ Pid Job Op Res α}
    {p : Pid} {j : Job} {s s' : σ} {prog : Program Op Res α} {a : α}
    (h : Exec (S.answers p j) s prog a s')
    (hd : S.Reachable c (d.goOn p s (some (j, prog)))) :
    S.Reachable c (d.goOn p s' (some (j, .ret a))) := by
  induction h with
  | ret s a => exact hd
  | @request s s₁ _ o r next _ step rest ih =>
    apply ih
    have hstep : S.Step p j (d.goOn p s (some (j, .request o next)))
        (d.goOn p s₁ (some (j, next r))) := by
      have := Step.request (S := S) (Config.goOn_busy_self d p s (some (j, .request o next))) step
      rwa [Config.goOn_goOn] at this
    exact .step hd hstep

/-- An idle process may do a job alone to the end of its program. -/
theorem Reachable.job {S : System σ Pid Job Op Res α} {c d : Config σ Pid Job Op Res α}
    {p : Pid} {j : Job} {s s' : σ} {a : α} (hd : S.Reachable c d) (idle : d.busy p = none)
    (act : S.start p j d.state s) (h : Exec (S.answers p j) s (S.code p j) a s') :
    S.Reachable c (d.goOn p s' (some (j, .ret a))) :=
  .alone h (.step hd (.start idle act))

/-- A busy process may end its job alone. -/
theorem Reachable.ended {S : System σ Pid Job Op Res α} {c d : Config σ Pid Job Op Res α}
    {p : Pid} {j : Job} {s s' : σ} {prog : Program Op Res α} {a : α} (hd : S.Reachable c d)
    (turn : d.busy p = some (j, prog)) (h : Exec (S.answers p j) d.state prog a s)
    (last : S.finish p j a s s') : S.Reachable c (d.goOn p s' none) := by
  have hself : d.goOn p d.state (some (j, prog)) = d := by
    rw [Config.goOn, ← turn, Function.update_eq_self]
  have halone := Reachable.alone h (hself ▸ hd)
  have hstep := halone.step (.finish (Config.goOn_busy_self ..) last)
  rwa [Config.goOn_goOn] at hstep

/-- An idle process may do a job alone, and then it is idle again. -/
theorem Reachable.done {S : System σ Pid Job Op Res α} {c : Config σ Pid Job Op Res α}
    {p : Pid} {j : Job} {s s₁ s₂ s₃ : σ} {a : α} (hd : S.Reachable c ⟨s, fun _ => none⟩)
    (act : S.start p j s s₁) (h : Exec (S.answers p j) s₁ (S.code p j) a s₂)
    (last : S.finish p j a s₂ s₃) : S.Reachable c ⟨s₃, fun _ => none⟩ := by
  have hjob := hd.job (d := ⟨s, fun _ => none⟩) rfl act h
  have hfinish := hjob.step (.finish (Config.goOn_busy_self ..) last)
  have hidle : Function.update (fun _ : Pid => (none : Option (Job × Program Op Res α))) p none =
      fun _ => none := Function.update_eq_self p _
  rwa [Config.goOn_goOn, Config.goOn, hidle] at hfinish

/-- Pools side by side: a step of one of them leaves the others as they are. -/
inductive Beside {ι : Type} [DecidableEq ι] (S : ι → System σ Pid Job Op Res α)
    (c : ι → Config σ Pid Job Op Res α) : (ι → Config σ Pid Job Op Res α) → Prop where
  | here : Beside S c c
  | step {d : ι → Config σ Pid Job Op Res α} {e : Config σ Pid Job Op Res α} {i : ι} {p : Pid}
      {j : Job} (run : Beside S c d) (act : (S i).Step p j (d i) e) :
      Beside S c (Function.update d i e)

theorem Beside.reachable {ι : Type} [DecidableEq ι] {S : ι → System σ Pid Job Op Res α}
    {c d : ι → Config σ Pid Job Op Res α} (h : Beside S c d) (i : ι) :
    (S i).Reachable (c i) (d i) := by
  induction h with
  | here => exact .here
  | @step d e k p j run act ih =>
    by_cases hi : i = k
    · subst hi
      rw [Function.update_self]
      exact .step ih act
    · rwa [Function.update_of_ne hi]

/-- A run of one of the pools. -/
theorem Beside.of_reachable {ι : Type} [DecidableEq ι] {S : ι → System σ Pid Job Op Res α}
    {c d : ι → Config σ Pid Job Op Res α} {i : ι} {e : Config σ Pid Job Op Res α}
    (h : Beside S c d) (hrun : (S i).Reachable (d i) e) :
    Beside S c (Function.update d i e) := by
  induction hrun with
  | here => rwa [Function.update_eq_self]
  | @step e e' p j run act ih =>
    have hstep := Beside.step (i := i) ih (by rwa [Function.update_self])
    rwa [Function.update_idem] at hstep

end System

end Pools

/-- The contract of a pool: what holds of the shared state all the time, what a process
may assume of the others, and what each step of a process has to guarantee them. -/
structure Contract (σ Pid Job : Type) where
  inv : σ → Prop
  rely : Pid → σ → σ → Prop
  guar : Pid → Job → σ → σ → Prop
  rely_refl : ∀ p s, rely p s s
  rely_trans : ∀ p s t u, rely p s t → rely p t u → rely p s u
  guar_rely : ∀ p j q s s', q ≠ p → inv s → guar p j s s' → rely q s s'

namespace Contract

variable (C : Contract σ Pid Job) (answers : Environment σ Op Res) (p : Pid) (j : Job)

/-- `Safe post prog s`: from state `s`, whatever the others do within `rely`, each
request of `prog` keeps the invariant and the guarantee, and `post` holds at the end. -/
def Safe (post : β → σ → Prop) : Program Op Res β → σ → Prop
  | .ret a, s => ∀ s₁, C.rely p s s₁ → C.inv s₁ → post a s₁
  | .request o next, s => ∀ s₁, C.rely p s s₁ → C.inv s₁ → ∀ r s₂, answers s₁ o r s₂ →
      C.inv s₂ ∧ C.guar p j s₁ s₂ ∧ Safe post (next r) s₂

variable {C answers p j}

theorem Safe.rely {post : β → σ → Prop} {prog : Program Op Res β} {s s' : σ}
    (h : C.Safe answers p j post prog s) (hr : C.rely p s s') :
    C.Safe answers p j post prog s' := by
  cases prog with
  | ret a => exact fun s₁ h₁ => h s₁ (C.rely_trans _ _ _ _ hr h₁)
  | request o next => exact fun s₁ h₁ => h s₁ (C.rely_trans _ _ _ _ hr h₁)

theorem Safe.mono {post post' : β → σ → Prop} {prog : Program Op Res β} {s : σ}
    (h : C.Safe answers p j post prog s) (hpost : ∀ a s', C.inv s' → post a s' → post' a s') :
    C.Safe answers p j post' prog s := by
  induction prog generalizing s with
  | ret a => exact fun s₁ h₁ hi => hpost _ _ hi (h s₁ h₁ hi)
  | request o next ih =>
    intro s₁ h₁ hi r s₂ ha
    obtain ⟨hinv, hguar, hrest⟩ := h s₁ h₁ hi r s₂ ha
    exact ⟨hinv, hguar, ih r hrest⟩

/-- Sequencing: the second part may start in any state that the others leave behind. -/
theorem Safe.bind {γ : Type} {m : β → σ → Prop} {post : γ → σ → Prop}
    {prog : Program Op Res β} {f : β → Program Op Res γ} {s : σ}
    (h : C.Safe answers p j m prog s) (hs : C.inv s)
    (hf : ∀ a s', C.inv s' → m a s' → C.Safe answers p j post (f a) s') :
    C.Safe answers p j post (prog >>= f) s := by
  induction prog generalizing s with
  | ret a => exact hf a s hs (h s (C.rely_refl p s) hs)
  | request o next ih =>
    intro s₁ h₁ hi r s₂ ha
    obtain ⟨hinv, hguar, hrest⟩ := h s₁ h₁ hi r s₂ ha
    exact ⟨hinv, hguar, ih r hrest hinv⟩

/-- Sequencing of programs that may stop with an error, which ends the whole. -/
theorem Safe.exceptBind {ε γ : Type} {m : Except ε β → σ → Prop}
    {post : Except ε γ → σ → Prop} {prog : ExceptT ε (Program Op Res) β}
    {f : β → ExceptT ε (Program Op Res) γ} {s : σ}
    (h : C.Safe answers p j m prog.run s) (hs : C.inv s)
    (hok : ∀ a s', C.inv s' → m (.ok a) s' → C.Safe answers p j post (f a).run s')
    (herr : ∀ e s', C.inv s' → m (.error e) s' →
      C.Safe answers p j post (.ret (.error e)) s') :
    C.Safe answers p j post (prog >>= f).run s := by
  refine Safe.bind (f := ExceptT.bindCont f) h hs fun a s' hi hm => ?_
  cases a with
  | ok a => exact hok a s' hi hm
  | error e => exact herr e s' hi hm

/-- What is promised of a result that is no error. -/
def OnOk {ε : Type} (post : β → σ → Prop) (r : Except ε β) (s : σ) : Prop :=
  ∀ b, r = .ok b → post b s

/-- Sequencing where nothing is promised of errors. -/
theorem Safe.okBind {ε γ : Type} {m : β → σ → Prop} {post : γ → σ → Prop}
    {prog : ExceptT ε (Program Op Res) β} {f : β → ExceptT ε (Program Op Res) γ} {s : σ}
    (h : C.Safe answers p j (OnOk m) prog.run s) (hs : C.inv s)
    (hf : ∀ b s', C.inv s' → m b s' → C.Safe answers p j (OnOk post) (f b).run s') :
    C.Safe answers p j (OnOk post) (prog >>= f).run s := by
  refine Safe.exceptBind h hs (fun b s' hi hm => hf b s' hi (hm b rfl)) ?_
  intro e s' _ _ s₁ _ _ c hc
  cases hc

/-- Sequencing after a part that cannot stop with an error. -/
theorem Safe.liftBind {ε γ : Type} {m : β → σ → Prop} {post : Except ε γ → σ → Prop}
    {prog : Program Op Res β} {f : β → ExceptT ε (Program Op Res) γ} {s : σ}
    (h : C.Safe answers p j m prog s) (hs : C.inv s)
    (hf : ∀ a s', C.inv s' → m a s' → C.Safe answers p j post (f a).run s') :
    C.Safe answers p j post ((liftM prog : ExceptT ε (Program Op Res) β) >>= f).run s := by
  have hrun : ((liftM prog : ExceptT ε (Program Op Res) β) >>= f).run =
      prog >>= fun a => (f a).run := Program.bind_assoc _ _ _
  rw [hrun]
  exact h.bind hs hf

/-- A function of the result. -/
theorem Safe.map {γ : Type} {post : γ → σ → Prop} {f : β → γ} {prog : Program Op Res β} {s : σ}
    (h : C.Safe answers p j (fun a => post (f a)) prog s) :
    C.Safe answers p j post (prog >>= fun a => .ret (f a)) s := by
  induction prog generalizing s with
  | ret a => exact h
  | request o next ih =>
    intro s₁ h₁ hi r s₂ ha
    obtain ⟨hinv, hguar, hrest⟩ := h s₁ h₁ hi r s₂ ha
    exact ⟨hinv, hguar, ih r hrest⟩

/-- A part that cannot stop with an error, at the end. -/
theorem Safe.lift {ε : Type} {post : Except ε β → σ → Prop} {prog : Program Op Res β} {s : σ}
    (h : C.Safe answers p j (fun a => post (.ok a)) prog s) :
    C.Safe answers p j post (liftM prog : ExceptT ε (Program Op Res) β).run s :=
  h.map

/-- A process that is left alone to the end of its program. -/
theorem Safe.exec {post : β → σ → Prop} {prog : Program Op Res β} {s s' : σ} {a : β}
    (h : C.Safe answers p j post prog s) (hs : C.inv s) (hexec : Exec answers s prog a s') :
    C.inv s' ∧ post a s' ∧ ∀ q, q ≠ p → C.rely q s s' := by
  induction hexec with
  | ret s a => exact ⟨hs, h s (C.rely_refl p s) hs, fun q _ => C.rely_refl q s⟩
  | request step rest ih =>
    obtain ⟨hinv, hguar, hrest⟩ := h _ (C.rely_refl p _) hs _ _ step
    obtain ⟨hinv', hpost, hrely⟩ := ih hrest hinv
    refine ⟨hinv', hpost, fun q hq => ?_⟩
    exact C.rely_trans q _ _ _ (C.guar_rely p j q _ _ hq hs hguar) (hrely q hq)

/-- What every request of a program keeps, and the others too, the program keeps. -/
theorem Safe.of_uses {P : Op → Prop} {K : σ → Prop} {prog : Program Op Res β} {s : σ}
    (hstable : ∀ s s', C.rely p s s' → K s → K s')
    (hstep : ∀ s o r s', P o → C.inv s → K s → answers s o r s' →
      C.inv s' ∧ C.guar p j s s' ∧ K s')
    (h : prog.Uses P) (hs : K s) : C.Safe answers p j (fun _ => K) prog s := by
  induction prog generalizing s with
  | ret a => exact fun s₁ hr _ => hstable s s₁ hr hs
  | request o next ih =>
    intro s₁ hr hi r s₂ ha
    obtain ⟨hinv, hguar, hk⟩ := hstep s₁ o r s₂ h.1 hi (hstable s s₁ hr hs) ha
    exact ⟨hinv, hguar, ih r (h.2 r) hk⟩

/-- A sequence that stops at the first error: each part may rely on what is known once those
before it have succeeded. -/
theorem Safe.forM {ε A : Type} {code : A → ExceptT ε (Program Op Res) Unit}
    {known : List A → σ → Prop} {as : List A} {s : σ}
    (hstable : ∀ front s s', C.rely p s s' → known front s → known front s')
    (hstep : ∀ front a back, as = front ++ a :: back → ∀ s, C.inv s → known front s →
      C.Safe answers p j (fun r s' => r = .ok () → known (front ++ [a]) s') (code a).run s)
    (hi : C.inv s) (hs : known [] s) :
    C.Safe answers p j (fun r s' => r = .ok () → known as s') (as.forM code).run s := by
  have hrest : ∀ back front s, as = front ++ back → C.inv s → known front s →
      C.Safe answers p j (fun r s' => r = .ok () → known as s') (back.forM code).run s := by
    intro back
    induction back with
    | nil =>
      intro front s has _ hs s₁ hr _ _
      rw [has, List.append_nil]
      exact hstable front s s₁ hr hs
    | cons a back ih =>
      intro front s has hi hs
      refine Safe.exceptBind (hstep front a back has s hi hs) hi ?_ ?_
      · intro _ s₁ hi₁ hknown
        exact ih (front ++ [a]) s₁ (by rw [has, List.append_assoc]; rfl) hi₁ (hknown rfl)
      · intro e s₁ _ _ s₂ _ _ herror
        cases herror
  exact hrest as [] s rfl hi hs

/-- A program that may be broken off after any request. -/
theorem Safe.cut {post : β → σ → Prop} {prog : Program Op Res β} {s : σ}
    (h : C.Safe answers p j post prog s) (n : Nat) :
    C.Safe answers p j (fun a s' => ∀ b, a = some b → post b s') (prog.cut n) s := by
  induction prog generalizing n s with
  | ret a =>
    cases n <;>
    · intro s₁ hr hi b hb
      rw [← Option.some.inj hb]
      exact h s₁ hr hi
  | request o next ih =>
    cases n with
    | zero =>
      intro s₁ _ _ b hb
      cases hb
    | succ n =>
      intro s₁ hr hi r s₂ ha
      obtain ⟨hinv, hguar, hrest⟩ := h s₁ hr hi r s₂ ha
      exact ⟨hinv, hguar, ih r hrest n⟩

/-- A program whose requests are some of those of the pool. -/
theorem Safe.interpret_send {Op' : Type} {f : Op' → Op} {post : β → σ → Prop}
    {prog : Program Op' (fun o => Res (f o)) β} {s : σ}
    (h : C.Safe (fun s o r s' => answers s (f o) r s') p j post prog s) :
    C.Safe answers p j post (prog.interpret fun o => Program.send (f o)) s := by
  induction prog generalizing s with
  | ret a => exact h
  | request o next ih =>
    intro s₁ hr hi r s₂ ha
    obtain ⟨hinv, hguar, hrest⟩ := h s₁ hr hi r s₂ ha
    exact ⟨hinv, hguar, ih r hrest⟩

/-- A program that works on a part of the state which the others leave alone may be looked at
with that part only. -/
theorem Safe.of_wlp {τ : Type} {f : σ → τ} {E : Environment τ Op Res} {P : Op → Prop}
    {K : σ → Prop} {post : β → τ → Prop} {prog : Program Op Res β} {s : σ}
    (hstable : ∀ s s', C.rely p s s' → K s → f s' = f s ∧ K s')
    (hstep : ∀ s o r s', P o → C.inv s → K s → answers s o r s' →
      C.inv s' ∧ C.guar p j s s' ∧ E (f s) o r (f s') ∧ K s')
    (huses : prog.Uses P) (h : wlp E post prog (f s)) (hk : K s) :
    C.Safe answers p j (fun a s' => post a (f s') ∧ K s') prog s := by
  induction prog generalizing s with
  | ret a =>
    intro s₁ hr _
    obtain ⟨hpart, hk₁⟩ := hstable s s₁ hr hk
    exact ⟨hpart ▸ h, hk₁⟩
  | request o next ih =>
    intro s₁ hr hi r s₂ ha
    obtain ⟨hpart, hk₁⟩ := hstable s s₁ hr hk
    obtain ⟨hinv, hguar, henv, hk₂⟩ := hstep s₁ o r s₂ huses.1 hi hk₁ ha
    exact ⟨hinv, hguar, ih r (huses.2 r) (h r _ (hpart ▸ henv)) hk₂⟩

theorem Safe.ret_of_stable {post : β → σ → Prop} {a : β} {s : σ} (h : post a s)
    (hstable : ∀ s', C.rely p s s' → C.inv s' → post a s → post a s') :
    C.Safe answers p j post (.ret a) s :=
  fun s₁ h₁ hi => hstable s₁ h₁ hi h

end Contract

variable [DecidableEq Pid]

/-- The obligations under which every interleaving keeps the contract. `idle p` is what
an idle process may assume, and what each of its jobs has to leave behind. -/
structure Verified (S : System σ Pid Job Op Res α) (C : Contract σ Pid Job)
    (idle : Pid → σ → Prop) (post : Pid → Job → α → σ → Prop) : Prop where
  idle_rely : ∀ p s s', C.inv s → C.rely p s s' → idle p s → idle p s'
  start : ∀ p j s s', C.inv s → idle p s → S.start p j s s' →
    C.inv s' ∧ C.guar p j s s' ∧ C.Safe (S.answers p j) p j (post p j) (S.code p j) s'
  finish : ∀ p j a s s', C.inv s → post p j a s → S.finish p j a s s' →
    C.inv s' ∧ C.guar p j s s' ∧ idle p s'

/-- Where a process stands: idle, or safely within a job. -/
def Stands (S : System σ Pid Job Op Res α) (C : Contract σ Pid Job) (idle : Pid → σ → Prop)
    (post : Pid → Job → α → σ → Prop) (c : Config σ Pid Job Op Res α) (p : Pid) : Prop :=
  match c.busy p with
  | none => idle p c.state
  | some (j, prog) => C.Safe (S.answers p j) p j (post p j) prog c.state

namespace Verified

variable {S : System σ Pid Job Op Res α} {C : Contract σ Pid Job} {idle : Pid → σ → Prop}
  {post : Pid → Job → α → σ → Prop}

private theorem stands_other (V : Verified S C idle post)
    {c : Config σ Pid Job Op Res α} {p q : Pid} (hq : q ≠ p) (hi : C.inv c.state) {s : σ}
    (hr : C.rely q c.state s) (b : Option (Job × Program Op Res α))
    (h : Stands S C idle post c q) : Stands S C idle post (c.goOn p s b) q := by
  unfold Stands at h ⊢
  rw [Config.goOn_busy_other c hq]
  cases hb : c.busy q with
  | none => exact V.idle_rely _ _ _ hi hr (by simpa [hb] using h)
  | some jp =>
    have hs : C.Safe (S.answers q jp.1) q jp.1 (post q jp.1) jp.2 c.state := by
      simpa [hb] using h
    exact hs.rely hr

/-- What one step does: it keeps the invariant, every process still stands, and the
process that acted kept its guarantee. -/
theorem step (V : Verified S C idle post) {c d : Config σ Pid Job Op Res α}
    {p : Pid} {j : Job} (hi : C.inv c.state) (hs : ∀ p, Stands S C idle post c p)
    (h : S.Step p j c d) :
    C.inv d.state ∧ (∀ p, Stands S C idle post d p) ∧ C.guar p j c.state d.state := by
  cases h with
  | @start _ _ _ s hidle act =>
    have hp : idle p c.state := by simpa [Stands, hidle] using hs p
    obtain ⟨hinv, hguar, hsafe⟩ := V.start p j _ _ hi hp act
    refine ⟨hinv, fun q => ?_, hguar⟩
    by_cases hq : q = p
    · subst hq
      simpa [Stands] using hsafe
    · exact V.stands_other hq hi (C.guar_rely _ _ _ _ _ hq hi hguar) _ (hs q)
  | @request _ _ _ s o r next turn act =>
    have hp : C.Safe (S.answers p j) p j (post p j) (.request o next) c.state := by
      simpa [Stands, turn] using hs p
    obtain ⟨hinv, hguar, hsafe⟩ := hp _ (C.rely_refl _ _) hi r s act
    refine ⟨hinv, fun q => ?_, hguar⟩
    by_cases hq : q = p
    · subst hq
      simpa [Stands] using hsafe
    · exact V.stands_other hq hi (C.guar_rely _ _ _ _ _ hq hi hguar) _ (hs q)
  | @finish _ _ _ s a done act =>
    have hp : C.Safe (S.answers p j) p j (post p j) (.ret a) c.state := by
      simpa [Stands, done] using hs p
    obtain ⟨hinv, hguar, hidle⟩ := V.finish p j a _ _ hi (hp _ (C.rely_refl _ _) hi) act
    refine ⟨hinv, fun q => ?_, hguar⟩
    by_cases hq : q = p
    · subst hq
      simpa [Stands] using hidle
    · exact V.stands_other hq hi (C.guar_rely _ _ _ _ _ hq hi hguar) _ (hs q)

/-- Every reachable configuration keeps the invariant, and every process stands. -/
theorem reachable (V : Verified S C idle post) {c d : Config σ Pid Job Op Res α}
    (hi : C.inv c.state) (hs : ∀ p, Stands S C idle post c p) (h : S.Reachable c d) :
    C.inv d.state ∧ ∀ p, Stands S C idle post d p := by
  induction h with
  | here => exact ⟨hi, hs⟩
  | step run act ih =>
    obtain ⟨hinv, hst, _⟩ := V.step ih.1 ih.2 act
    exact ⟨hinv, hst⟩

end Verified

end FlannelRs.ProcessPools
