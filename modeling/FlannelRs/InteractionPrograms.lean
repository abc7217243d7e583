import Mathlib.Logic.Basic
import Mathlib.Tactic.Basic

/-!
# Programs that talk to an environment by requests

A program either returns or sends one request and continues with the response.
The environment is given afterwards, as a relation between the state before, the
request, its response and the state after. One program text can so be run to its
end, run among others one request at a time, or run against failing requests.
-/

namespace FlannelRs.InteractionPrograms

/-- A program over requests `o : Op`, where `o` is answered in `Res o`. -/
inductive Program (Op : Type) (Res : Op → Type) (α : Type) where
  | ret (a : α)
  | request (o : Op) (next : Res o → Program Op Res α)

namespace Program

variable {Op : Type} {Res : Op → Type} {α β γ σ : Type}

/-- The program that sends one request and returns its response. -/
def send (o : Op) : Program Op Res (Res o) := .request o .ret

protected def bind (p : Program Op Res α) (f : α → Program Op Res β) : Program Op Res β :=
  match p with
  | .ret a => f a
  | .request o next => .request o (fun r => (next r).bind f)

instance : Monad (Program Op Res) where
  pure := .ret
  bind := Program.bind

@[simp] theorem pure_eq (a : α) : (pure a : Program Op Res α) = .ret a := rfl

@[simp] theorem ret_bind (a : α) (f : α → Program Op Res β) :
    (Program.ret a : Program Op Res α) >>= f = f a := rfl

@[simp] theorem request_bind (o : Op) (next : Res o → Program Op Res α)
    (f : α → Program Op Res β) :
    Program.request o next >>= f = .request o (fun r => next r >>= f) := rfl

@[simp] theorem send_bind (o : Op) (f : Res o → Program Op Res β) :
    send o >>= f = .request o f := rfl

theorem bind_ret (p : Program Op Res α) : p >>= Program.ret = p := by
  induction p with
  | ret a => rfl
  | request o next ih =>
    rw [request_bind]
    congr 1
    funext r
    exact ih r

theorem bind_assoc (p : Program Op Res α) (f : α → Program Op Res β)
    (g : β → Program Op Res γ) : p >>= f >>= g = p >>= fun a => f a >>= g := by
  induction p with
  | ret a => rfl
  | request o next ih =>
    simp only [request_bind]
    congr 1
    funext r
    exact ih r

instance : LawfulMonad (Program Op Res) :=
  LawfulMonad.mk' _
    (fun p => bind_ret p) (fun _ _ => rfl) (fun p f g => bind_assoc p f g)

/-- Runs a program against an environment that answers as a function of its state, as
long as it answers. -/
def run (answer : (o : Op) → σ → Option (Res o × σ)) : Program Op Res α → σ → Option (α × σ)
  | .ret a, s => some (a, s)
  | .request o next, s => (answer o s).bind fun rs => run answer (next rs.1) rs.2

/-- A value that is already there, or an error, at the head of a program. -/
theorem run_pure_bind {ε : Type} (x : Except ε α) (f : α → ExceptT ε (Program Op Res) β) :
    ((ExceptT.mk (pure x) : ExceptT ε (Program Op Res) α) >>= f).run = match x with
      | .ok a => (f a).run
      | .error e => .ret (.error e) := by
  cases x <;> rfl

/-- Whatever the answers, every request of the program satisfies `P`. -/
def Uses (P : Op → Prop) : Program Op Res α → Prop
  | .ret _ => True
  | .request o next => P o ∧ ∀ r, (next r).Uses P

theorem Uses.mono {P Q : Op → Prop} (hPQ : ∀ o, P o → Q o) {p : Program Op Res α}
    (h : p.Uses P) : p.Uses Q := by
  induction p with
  | ret a => trivial
  | request o next ih => exact ⟨hPQ o h.1, fun r => ih r (h.2 r)⟩

theorem uses_true (p : Program Op Res α) : p.Uses fun _ => True := by
  induction p with
  | ret a => trivial
  | request o next ih => exact ⟨trivial, ih⟩

theorem Uses.bind {P : Op → Prop} {p : Program Op Res α} {f : α → Program Op Res β}
    (h : p.Uses P) (hf : ∀ a, (f a).Uses P) : (p >>= f).Uses P := by
  induction p with
  | ret a => exact hf a
  | request o next ih => exact ⟨h.1, fun r => ih r (h.2 r)⟩

theorem Uses.of_bind {P : Op → Prop} {p : Program Op Res α} {f : α → Program Op Res β}
    (h : (p >>= f).Uses P) : p.Uses P := by
  induction p with
  | ret a => trivial
  | request o next ih => exact ⟨h.1, fun r => ih r (h.2 r)⟩

theorem Uses.send {P : Op → Prop} {o : Op} (h : P o) : (send o : Program Op Res (Res o)).Uses P :=
  ⟨h, fun _ => trivial⟩

theorem Uses.exceptBind {P : Op → Prop} {ε : Type} {p : ExceptT ε (Program Op Res) α}
    {f : α → ExceptT ε (Program Op Res) β} (h : p.run.Uses P) (hf : ∀ a, (f a).run.Uses P) :
    (p >>= f).run.Uses P := by
  apply Uses.bind (f := ExceptT.bindCont f) h
  intro a
  cases a with
  | ok a => exact hf a
  | error e => trivial

theorem Uses.lift {P : Op → Prop} {ε : Type} {p : Program Op Res α} (h : p.Uses P) :
    (ExceptT.lift p : ExceptT ε (Program Op Res) α).run.Uses P :=
  h.bind fun _ => trivial

/-- Replaces every request by a program of requests of another kind. -/
def interpret {Op' : Type} {Res' : Op' → Type} (impl : (o : Op) → Program Op' Res' (Res o)) :
    Program Op Res α → Program Op' Res' α
  | .ret a => .ret a
  | .request o next => impl o >>= fun r => interpret impl (next r)

theorem uses_interpret {Op' : Type} {Res' : Op' → Type} {P : Op' → Prop}
    {impl : (o : Op) → Program Op' Res' (Res o)} (h : ∀ o, (impl o).Uses P)
    (p : Program Op Res α) : (p.interpret impl).Uses P := by
  induction p with
  | ret a => trivial
  | request o next ih => exact (h o).bind ih

/-- A program that is broken off when it has sent the given number of requests. -/
def cut : Nat → Program Op Res α → Program Op Res (Option α)
  | _, .ret a => .ret (some a)
  | 0, .request _ _ => .ret none
  | n + 1, .request o next => .request o fun r => (next r).cut n

end Program

/-- The answers an environment may give: `answers s o r s'` holds when the request `o`
in state `s` may be answered by `r` and leave the state `s'`. -/
abbrev Environment (σ Op : Type) (Res : Op → Type) := σ → (o : Op) → Res o → σ → Prop

variable {Op : Type} {Res : Op → Type} {α β σ : Type}

/-- Complete executions of a program. -/
inductive Exec (answers : Environment σ Op Res) :
    σ → Program Op Res α → α → σ → Prop where
  | ret (s : σ) (a : α) : Exec answers s (.ret a) a s
  | request {s s₁ s₂ : σ} {o : Op} {r : Res o} {next : Res o → Program Op Res α} {a : α}
      (step : answers s o r s₁) (rest : Exec answers s₁ (next r) a s₂) :
      Exec answers s (.request o next) a s₂

/-- The weakest condition on the first state under which every complete execution
ends in `post`. -/
def wlp (answers : Environment σ Op Res) (post : α → σ → Prop) : Program Op Res α → σ → Prop
  | .ret a, s => post a s
  | .request o next, s => ∀ r s', answers s o r s' → wlp answers post (next r) s'

section Rules

variable {answers : Environment σ Op Res}

@[simp] theorem wlp_ret (post : α → σ → Prop) (a : α) (s : σ) :
    wlp answers post (.ret a) s ↔ post a s := Iff.rfl

@[simp] theorem wlp_request (post : α → σ → Prop) (o : Op)
    (next : Res o → Program Op Res α) (s : σ) :
    wlp answers post (.request o next) s ↔
      ∀ r s', answers s o r s' → wlp answers post (next r) s' := Iff.rfl

theorem wlp_bind (post : β → σ → Prop) (p : Program Op Res α) (f : α → Program Op Res β)
    (s : σ) :
    wlp answers post (p >>= f) s ↔ wlp answers (fun a s' => wlp answers post (f a) s') p s := by
  induction p generalizing s with
  | ret a => rfl
  | request o next ih =>
    simp only [Program.request_bind, wlp_request, ih]

theorem wlp.mono {post post' : α → σ → Prop} {p : Program Op Res α} {s : σ}
    (h : wlp answers post p s) (hpost : ∀ a s', post a s' → post' a s') :
    wlp answers post' p s := by
  induction p generalizing s with
  | ret a => exact hpost a s h
  | request o next ih => exact fun r s' hs => ih r (h r s' hs)

theorem wlp_true (p : Program Op Res α) (s : σ) : wlp answers (fun _ _ => True) p s := by
  induction p generalizing s with
  | ret a => trivial
  | request o next ih => exact fun r s' _ => ih r s'

/-- The rule of consequence for sequencing: a specification of the first part is all
that the second part may rely on. -/
theorem wlp.bind {m : α → σ → Prop} {post : β → σ → Prop} {p : Program Op Res α}
    {f : α → Program Op Res β} {s : σ} (hp : wlp answers m p s)
    (hf : ∀ a s', m a s' → wlp answers post (f a) s') : wlp answers post (p >>= f) s :=
  (wlp_bind post p f s).mpr (hp.mono hf)

/-- Sequencing of programs that may stop with an error, which ends the whole. -/
theorem wlp.exceptBind {ε : Type} {m : Except ε α → σ → Prop} {post : Except ε β → σ → Prop}
    {p : ExceptT ε (Program Op Res) α} {f : α → ExceptT ε (Program Op Res) β} {s : σ}
    (hp : wlp answers m p.run s) (hok : ∀ a s', m (.ok a) s' → wlp answers post (f a).run s')
    (herr : ∀ e s', m (.error e) s' → post (.error e) s') :
    wlp answers post (p >>= f).run s := by
  refine wlp.bind (f := ExceptT.bindCont f) hp fun a s' hm => ?_
  cases a with
  | ok a => exact hok a s' hm
  | error e => exact herr e s' hm

/-- Sequencing after a part that cannot stop with an error. -/
theorem wlp.liftBind {ε : Type} {m : α → σ → Prop} {post : Except ε β → σ → Prop}
    {p : Program Op Res α} {f : α → ExceptT ε (Program Op Res) β} {s : σ}
    (hp : wlp answers m p s) (hf : ∀ a s', m a s' → wlp answers post (f a).run s') :
    wlp answers post ((liftM p : ExceptT ε (Program Op Res) α) >>= f).run s := by
  have hrun : ((liftM p : ExceptT ε (Program Op Res) α) >>= f).run =
      p >>= fun a => (f a).run := Program.bind_assoc _ _ _
  rw [hrun]
  exact hp.bind hf

/-- What every request keeps, the program keeps. -/
theorem Program.Uses.wlp {P : Op → Prop} {R : σ → σ → Prop} (hrefl : ∀ s, R s s)
    (htrans : ∀ s t u, R s t → R t u → R s u)
    (hstep : ∀ s o r s', P o → answers s o r s' → R s s') {p : Program Op Res α} (h : p.Uses P)
    (s : σ) : wlp answers (fun _ s' => R s s') p s := by
  induction p generalizing s with
  | ret a => exact hrefl s
  | request o next ih =>
    intro r s₁ hr
    refine (ih r (h.2 r) s₁).mono fun a s' hs => ?_
    exact htrans s s₁ s' (hstep s o r s₁ h.1 hr) hs

/-- In states with `inv`, which the requests of the program keep, one environment may stand
for another. -/
theorem wlp.within {answers' : Environment σ Op Res} {P : Op → Prop} {inv : σ → Prop}
    (hstep : ∀ s o r s', inv s → P o → answers s o r s' → answers' s o r s' ∧ inv s')
    {post : α → σ → Prop} {p : Program Op Res α} {s : σ} (h : wlp answers' post p s)
    (huses : p.Uses P) (hs : inv s) : wlp answers (fun a s' => post a s' ∧ inv s') p s := by
  induction p generalizing s with
  | ret a => exact ⟨h, hs⟩
  | request o next ih =>
    intro r s' hr
    obtain ⟨hr', hs'⟩ := hstep s o r s' hs huses.1 hr
    exact ih r (h r s' hr') (huses.2 r) hs'

/-- Refinement: when each request is implemented within what the environment may answer,
the implementation does no more than the program. -/
theorem wlp.interpret {Op' : Type} {Res' : Op' → Type} {answers' : Environment σ Op' Res'}
    {impl : (o : Op) → Program Op' Res' (Res o)} {post : α → σ → Prop}
    (himpl : ∀ o s, wlp answers' (fun r s' => answers s o r s') (impl o) s)
    {p : Program Op Res α} {s : σ} (h : wlp answers post p s) :
    wlp answers' post (p.interpret impl) s := by
  induction p generalizing s with
  | ret a => exact h
  | request o next ih => exact (himpl o s).bind fun r s' hr => ih r (h r s' hr)

theorem Exec.wlp {post : α → σ → Prop} {s s' : σ} {p : Program Op Res α} {a : α}
    (h : Exec answers s p a s') (hp : wlp answers post p s) : post a s' := by
  induction h with
  | ret s a => exact hp
  | request step rest ih => exact ih (hp _ _ step)

/-- What holds at the end of every execution. -/
theorem wlp_of_exec {post : α → σ → Prop} {p : Program Op Res α} {s : σ}
    (h : ∀ a s', Exec answers s p a s' → post a s') : wlp answers post p s := by
  induction p generalizing s with
  | ret a => exact h a s (.ret s a)
  | request o next ih => exact fun r s' hr => ih r fun a t hexec => h a t (.request hr hexec)

/-- An execution as another environment sees it. -/
theorem Exec.project {τ : Type} {answers' : Environment τ Op Res} (f : σ → τ)
    (hstep : ∀ s o r s', answers s o r s' → answers' (f s) o r (f s')) {s s' : σ}
    {p : Program Op Res α} {a : α} (h : Exec answers s p a s') :
    Exec answers' (f s) p a (f s') := by
  induction h with
  | ret s a => exact .ret (f s) a
  | request step rest ih => exact .request (hstep _ _ _ _ step) ih

/-- What the environment guarantees of every answer holds between the first and the
last state, when it is reflexive and transitive. -/
theorem Exec.preserves {R : σ → σ → Prop} (hrefl : ∀ s, R s s)
    (htrans : ∀ s t u, R s t → R t u → R s u)
    (hstep : ∀ s o r s', answers s o r s' → R s s')
    {s s' : σ} {p : Program Op Res α} {a : α} (h : Exec answers s p a s') : R s s' := by
  induction h with
  | ret s a => exact hrefl s
  | request step rest ih => exact htrans _ _ _ (hstep _ _ _ _ step) ih

/-- An execution of a program whose requests are some of others. -/
theorem Exec.of_interpret_send {Op' : Type} {f : Op' → Op} {s s' : σ}
    {p : Program Op' (fun o => Res (f o)) α} {a : α}
    (h : Exec answers s (p.interpret fun o => .send (f o)) a s') :
    Exec (fun s o r s' => answers s (f o) r s') s p a s' := by
  induction p generalizing s with
  | ret b =>
    cases h
    exact .ret ..
  | request o next ih =>
    cases h with
    | request step rest => exact .request step (ih _ rest)

theorem Exec.interpret_send {Op' : Type} {f : Op' → Op} {s s' : σ}
    {p : Program Op' (fun o => Res (f o)) α} {a : α}
    (h : Exec (fun s o r s' => answers s (f o) r s') s p a s') :
    Exec answers s (p.interpret fun o => .send (f o)) a s' := by
  induction h with
  | ret s a => exact .ret s a
  | request step rest ih => exact .request step ih

/-- An execution on a part of the state, which can be put in place of the one that is there. -/
theorem Exec.lift {τ : Type} {E : Environment τ Op Res} {t : σ → τ} (put : σ → τ → σ)
    (hput : ∀ s x, t (put s x) = x) (htwice : ∀ s x y, put (put s x) y = put s y)
    (hself : ∀ s, put s (t s) = s)
    (hstep : ∀ s o r x, E (t s) o r x → answers s o r (put s x)) {x y : τ}
    {p : Program Op Res α} {a : α} (h : Exec E x p a y) {s : σ} (hs : t s = x) :
    Exec answers s p a (put s y) := by
  induction h generalizing s with
  | ret x a =>
    subst hs
    rw [hself]
    exact .ret s a
  | request step rest ih =>
    subst hs
    have hrest := ih (hput s _)
    rw [htwice] at hrest
    exact .request (hstep _ _ _ _ step) hrest

/-- A program comes to its end if it is broken off late enough. -/
theorem Exec.exists_cut {s s' : σ} {p : Program Op Res α} {a : α} (h : Exec answers s p a s') :
    ∃ n, Exec answers s (p.cut n) (some a) s' := by
  induction h with
  | ret s a => exact ⟨0, .ret ..⟩
  | request step rest ih =>
    obtain ⟨n, hn⟩ := ih
    exact ⟨n + 1, .request step hn⟩

/-- What every answer keeps. -/
theorem wlp_of_preserved {I : σ → Prop} (hstep : ∀ s o r s', answers s o r s' → I s → I s')
    (p : Program Op Res α) {s : σ} (hs : I s) : wlp answers (fun _ s' => I s') p s :=
  wlp_of_exec fun _ _ h => h.preserves (R := fun s s' => I s → I s') (fun _ => id)
    (fun _ _ _ h h' => h' ∘ h) hstep hs

theorem Exec.bind {s s₁ s₂ : σ} {p : Program Op Res α} {f : α → Program Op Res β} {a : α}
    {b : β} (hp : Exec answers s p a s₁) (hf : Exec answers s₁ (f a) b s₂) :
    Exec answers s (p >>= f) b s₂ := by
  induction hp with
  | ret s a => exact hf
  | request step rest ih => exact .request step (ih hf)

theorem Exec.liftBind {ε : Type} {s s₁ s₂ : σ} {p : Program Op Res α}
    {f : α → ExceptT ε (Program Op Res) β} {a : α} {r : Except ε β} (hp : Exec answers s p a s₁)
    (hf : Exec answers s₁ (f a).run r s₂) :
    Exec answers s ((liftM p : ExceptT ε (Program Op Res) α) >>= f).run r s₂ := by
  have hrun : ((liftM p : ExceptT ε (Program Op Res) α) >>= f).run =
      p >>= fun a => (f a).run := Program.bind_assoc _ _ _
  rw [hrun]
  exact hp.bind hf

theorem Exec.exceptBind {ε : Type} {s t u : σ} {p : ExceptT ε (Program Op Res) α}
    {f : α → ExceptT ε (Program Op Res) β} {a : α} {r : Except ε β}
    (hp : Exec answers s p.run (.ok a) t) (hf : Exec answers t (f a).run r u) :
    Exec answers s (p >>= f).run r u :=
  Exec.bind (f := ExceptT.bindCont f) hp hf

theorem Exec.of_bind {s s₂ : σ} {p : Program Op Res α} {f : α → Program Op Res β} {b : β}
    (h : Exec answers s (p >>= f) b s₂) :
    ∃ a s₁, Exec answers s p a s₁ ∧ Exec answers s₁ (f a) b s₂ := by
  induction p generalizing s with
  | ret a => exact ⟨a, s, .ret s a, h⟩
  | request o next ih =>
    cases h with
    | request step rest =>
      obtain ⟨a, s₁, hp, hf⟩ := ih _ rest
      exact ⟨a, s₁, .request step hp, hf⟩

/-- Against an environment that answers every request, every program runs to its end. -/
theorem Exec.exists_of_total (h : ∀ s o, ∃ r s', answers s o r s') (p : Program Op Res α) (s : σ) :
    ∃ a s', Exec answers s p a s' := by
  induction p generalizing s with
  | ret a => exact ⟨a, s, .ret s a⟩
  | request o next ih =>
    obtain ⟨r, s₁, hr⟩ := h s o
    obtain ⟨a, s', hrest⟩ := ih r s₁
    exact ⟨a, s', .request hr hrest⟩

/-- A program runs to its end if all its requests are answered. -/
theorem Program.Uses.exists_exec {P : Op → Prop} (h : ∀ s o, P o → ∃ r s', answers s o r s')
    {p : Program Op Res α} (hp : p.Uses P) (s : σ) : ∃ a s', Exec answers s p a s' := by
  induction p generalizing s with
  | ret a => exact ⟨a, s, .ret s a⟩
  | request o next ih =>
    obtain ⟨r, s₁, hr⟩ := h s o hp.1
    obtain ⟨a, s', hrest⟩ := ih r (hp.2 r) s₁
    exact ⟨a, s', .request hr hrest⟩

/-- A run against a function that gives only allowed answers, in states with `inv`, is an
execution. -/
theorem Program.exec_of_run_inv {answer : (o : Op) → σ → Option (Res o × σ)} {inv : σ → Prop}
    (h : ∀ o s r s', inv s → answer o s = some (r, s') → answers s o r s' ∧ inv s')
    {p : Program Op Res α} {a : α} {s s' : σ} (hs : inv s) (hrun : p.run answer s = some (a, s')) :
    Exec answers s p a s' ∧ inv s' := by
  induction p generalizing s with
  | ret b =>
    obtain ⟨rfl, rfl⟩ : b = a ∧ s = s' := by simpa [Program.run] using hrun
    exact ⟨.ret s b, hs⟩
  | request o next ih =>
    obtain ⟨⟨r, s₁⟩, hr, hnext⟩ := Option.bind_eq_some_iff.mp hrun
    obtain ⟨hstep, hs₁⟩ := h o s r s₁ hs hr
    obtain ⟨hrest, hs'⟩ := ih r hs₁ hnext
    exact ⟨.request hstep hrest, hs'⟩

/-- A run against a function that gives only allowed answers is an execution. -/
theorem Program.exec_of_run {answer : (o : Op) → σ → Option (Res o × σ)}
    (h : ∀ o s r s', answer o s = some (r, s') → answers s o r s') {p : Program Op Res α}
    {a : α} {s s' : σ} (hrun : p.run answer s = some (a, s')) : Exec answers s p a s' := by
  have hrun' : Exec answers s p a s' ∧ True := Program.exec_of_run_inv
    (fun o s r s' (_ : True) hr => ⟨h o s r s' hr, trivial⟩) trivial hrun
  exact hrun'.1

end Rules

end FlannelRs.InteractionPrograms
