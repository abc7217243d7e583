import FlannelRs.InteractionPrograms

/-!
# What the executions of a program leave in a trace

Every answer adds labels to the trace of the execution, in the order of the answers. An
implementation of a request may add several.
-/

namespace FlannelRs.InteractionPrograms

/-- The answers an environment may give, with the labels that each adds. -/
abbrev Labelled (σ Op : Type) (Res : Op → Type) (L : Type) :=
  σ → (o : Op) → Res o → σ → List L → Prop

/-- A request with its answer. -/
abbrev Answered (Op : Type) (Res : Op → Type) := (o : Op) × Res o

variable {Op : Type} {Res : Op → Type} {L α β σ : Type}

/-- Each answer is its own label. -/
def answered (answers : Environment σ Op Res) : Labelled σ Op Res (Answered Op Res) :=
  fun s o r s' labels => answers s o r s' ∧ labels = [⟨o, r⟩]

/-- Complete executions with their traces. -/
inductive Trace (env : Labelled σ Op Res L) : σ → Program Op Res α → α → σ → List L → Prop where
  | ret (s : σ) (a : α) : Trace env s (.ret a) a s []
  | request {s s₁ s₂ : σ} {o : Op} {r : Res o} {next : Res o → Program Op Res α} {a : α}
      {labels rest : List L} (step : env s o r s₁ labels) (tail : Trace env s₁ (next r) a s₂ rest) :
      Trace env s (.request o next) a s₂ (labels ++ rest)

/-- The weakest condition on the first state under which every complete execution and its
trace end in `post`. -/
def twlp (env : Labelled σ Op Res L) (post : α → σ → List L → Prop) : Program Op Res α → σ → Prop
  | .ret a, s => post a s []
  | .request o next, s => ∀ r s' labels, env s o r s' labels →
      twlp env (fun a t rest => post a t (labels ++ rest)) (next r) s'

/-- Runs a program against an environment that answers as a function of its state, as long as
it answers, and keeps the answers. -/
def Program.runTraced (answer : (o : Op) → σ → Option (Res o × σ)) :
    Program Op Res α → σ → Option (α × σ × List (Answered Op Res))
  | .ret a, s => some (a, s, [])
  | .request o next, s => (answer o s).bind fun rs =>
      ((next rs.1).runTraced answer rs.2).map fun t => (t.1, t.2.1, ⟨o, rs.1⟩ :: t.2.2)

section Rules

variable {env : Labelled σ Op Res L}

theorem Trace.twlp {post : α → σ → List L → Prop} {s s' : σ} {p : Program Op Res α} {a : α}
    {labels : List L} (h : Trace env s p a s' labels) (hp : twlp env post p s) :
    post a s' labels := by
  induction h generalizing post with
  | ret s a => exact hp
  | request step tail ih => exact ih (hp _ _ _ step)

theorem twlp.mono {post post' : α → σ → List L → Prop} {p : Program Op Res α} {s : σ}
    (h : twlp env post p s) (hpost : ∀ a s' labels, post a s' labels → post' a s' labels) :
    twlp env post' p s := by
  induction p generalizing post post' s with
  | ret a => exact hpost a s [] h
  | request o next ih =>
    exact fun r s' labels hr => ih r (h r s' labels hr) fun a t rest => hpost a t _

theorem twlp_send (o : Op) (s : σ) :
    twlp env (fun r s' labels => env s o r s' labels) (Program.send o) s := by
  intro r s' labels h
  rw [← List.append_nil labels] at h
  exact h

theorem twlp_true (p : Program Op Res α) (s : σ) : twlp env (fun _ _ _ => True) p s := by
  induction p generalizing s with
  | ret a => trivial
  | request o next ih => exact fun r s' _ _ => ih r s'

theorem twlp.bind {m : α → σ → List L → Prop} {post : β → σ → List L → Prop}
    {p : Program Op Res α} {f : α → Program Op Res β} {s : σ} (hp : twlp env m p s)
    (hf : ∀ a t labels, m a t labels →
      twlp env (fun b u rest => post b u (labels ++ rest)) (f a) t) :
    twlp env post (p >>= f) s := by
  induction p generalizing m post s with
  | ret a => exact hf a s [] hp
  | request o next ih =>
    intro r s' labels hr
    refine ih r (hp r s' labels hr) fun a t rest hm => ?_
    simpa only [List.append_assoc] using hf a t _ hm

/-- Sequencing of programs that may stop with an error, which ends the whole. -/
theorem twlp.exceptBind {ε : Type} {m : Except ε α → σ → List L → Prop}
    {post : Except ε β → σ → List L → Prop} {p : ExceptT ε (Program Op Res) α}
    {f : α → ExceptT ε (Program Op Res) β} {s : σ} (hp : twlp env m p.run s)
    (hok : ∀ a t labels, m (.ok a) t labels →
      twlp env (fun b u rest => post b u (labels ++ rest)) (f a).run t)
    (herr : ∀ e t labels, m (.error e) t labels → post (.error e) t labels) :
    twlp env post (p >>= f).run s := by
  refine twlp.bind (f := ExceptT.bindCont f) hp fun a t labels hm => ?_
  cases a with
  | ok a => exact hok a t labels hm
  | error e =>
    rw [← List.append_nil labels] at hm
    exact herr e t _ hm

/-- Sequencing after a part that cannot stop with an error. -/
theorem twlp.liftBind {ε : Type} {m : α → σ → List L → Prop}
    {post : Except ε β → σ → List L → Prop} {p : Program Op Res α}
    {f : α → ExceptT ε (Program Op Res) β} {s : σ} (hp : twlp env m p s)
    (hf : ∀ a t labels, m a t labels →
      twlp env (fun b u rest => post b u (labels ++ rest)) (f a).run t) :
    twlp env post ((liftM p : ExceptT ε (Program Op Res) α) >>= f).run s := by
  have hrun : ((liftM p : ExceptT ε (Program Op Res) α) >>= f).run =
      p >>= fun a => (f a).run := Program.bind_assoc _ _ _
  rw [hrun]
  exact hp.bind hf

/-- Refinement: when each request is implemented within what the environment may answer and
label, the implementation does no more than the program. -/
theorem twlp.interpret {Op' : Type} {Res' : Op' → Type} {env' : Labelled σ Op' Res' L}
    {impl : (o : Op) → Program Op' Res' (Res o)} {post : α → σ → List L → Prop}
    (himpl : ∀ o s, twlp env' (fun r s' labels => env s o r s' labels) (impl o) s)
    {p : Program Op Res α} {s : σ} (h : twlp env post p s) :
    twlp env' post (p.interpret impl) s := by
  induction p generalizing post s with
  | ret a => exact h
  | request o next ih =>
    exact (himpl o s).bind fun r s' labels hr => ih r (h r s' labels hr)

/-- What every request keeps, the program keeps, and its trace has no other requests. -/
theorem Program.Uses.twlp {answers : Environment σ Op Res} {P : Op → Prop} {R : σ → σ → Prop}
    (hrefl : ∀ s, R s s) (htrans : ∀ s t u, R s t → R t u → R s u)
    (hstep : ∀ s o r s', P o → answers s o r s' → R s s') {p : Program Op Res α} (h : p.Uses P)
    (s : σ) : InteractionPrograms.twlp (answered answers)
      (fun _ s' labels => R s s' ∧ ∀ a ∈ labels, P a.1) p s := by
  induction p generalizing s with
  | ret a => exact ⟨hrefl s, fun a ha => by cases ha⟩
  | request o next ih =>
    rintro r s₁ labels ⟨hr, rfl⟩
    refine (ih r (h.2 r) s₁).mono fun a s' rest ⟨hs, hrest⟩ => ⟨?_, ?_⟩
    · exact htrans s s₁ s' (hstep s o r s₁ h.1 hr) hs
    · intro a ha
      rcases List.mem_cons.mp ha with rfl | ha
      · exact h.1
      · exact hrest a ha

/-- A run against a function that gives only allowed answers is an execution. -/
theorem Program.trace_of_runTraced {answers : Environment σ Op Res}
    {answer : (o : Op) → σ → Option (Res o × σ)}
    (h : ∀ o s r s', answer o s = some (r, s') → answers s o r s') {p : Program Op Res α} {a : α}
    {s s' : σ} {labels : List (Answered Op Res)}
    (hrun : p.runTraced answer s = some (a, s', labels)) :
    Trace (answered answers) s p a s' labels := by
  induction p generalizing s labels with
  | ret b =>
    obtain ⟨rfl, rfl, rfl⟩ : b = a ∧ s = s' ∧ [] = labels := by simpa [runTraced] using hrun
    exact .ret s b
  | request o next ih =>
    obtain ⟨⟨r, s₁⟩, hr, hrest⟩ := Option.bind_eq_some_iff.mp hrun
    obtain ⟨⟨b, t, rest⟩, hnext, he⟩ := Option.map_eq_some_iff.mp hrest
    obtain ⟨rfl, rfl, rfl⟩ : b = a ∧ t = s' ∧ ⟨o, r⟩ :: rest = labels := by simpa using he
    exact .request ⟨h o s r s₁ hr, rfl⟩ (ih r hnext)

end Rules

end FlannelRs.InteractionPrograms
