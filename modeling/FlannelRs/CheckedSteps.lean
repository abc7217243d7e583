import FlannelRs.InteractionPrograms
import Mathlib.Data.Nat.Notation

/-!
# Sequences of steps that look first whether they are done

A program that runs alone against an environment that answers as a function of its state may
be cut off after any of its requests. If its steps look first whether they are done, it can be
run again from where it was cut off.
-/

namespace FlannelRs.CheckedSteps
open InteractionPrograms

variable {Op : Type} {Res : Op → Type} {σ ε α β : Type} (answer : (o : Op) → σ → Res o × σ)

/-- Runs a program to its end. -/
def eval : Program Op Res α → σ → α × σ
  | .ret a, s => (a, s)
  | .request o next, s => eval (next (answer o s).1) (answer o s).2

/-- The state after the first `k` requests, or after all if there are fewer. -/
def cut : ℕ → Program Op Res α → σ → σ
  | 0, _, s => s
  | _ + 1, .ret _, s => s
  | k + 1, .request o next, s => cut k (next (answer o s).1) (answer o s).2

variable {answer} {s t u : σ}

theorem eval_bind (p : Program Op Res α) (f : α → Program Op Res β) (s : σ) :
    eval answer (p >>= f) s = eval answer (f (eval answer p s).1) (eval answer p s).2 := by
  induction p generalizing s with
  | ret a => rfl
  | request o next ih => exact ih (answer o s).1 (answer o s).2

theorem eval_ok_bind {p : ExceptT ε (Program Op Res) α} {f : α → ExceptT ε (Program Op Res) β}
    {a : α} (h : eval answer p.run s = (.ok a, t)) :
    eval answer (p >>= f).run s = eval answer (f a).run t := by
  have hrun : (p >>= f).run = p.run >>= ExceptT.bindCont f := rfl
  rw [hrun, eval_bind, h]
  rfl

theorem eval_error_bind {p : ExceptT ε (Program Op Res) α}
    {f : α → ExceptT ε (Program Op Res) β} {e : ε} (h : eval answer p.run s = (.error e, t)) :
    eval answer (p >>= f).run s = (.error e, t) := by
  have hrun : (p >>= f).run = p.run >>= ExceptT.bindCont f := rfl
  rw [hrun, eval_bind, h]
  rfl

/-- A sequence is cut off in its first part or in its second part. -/
theorem cut_bind (k : ℕ) (p : Program Op Res α) (f : α → Program Op Res β) (s : σ) :
    cut answer k (p >>= f) s = cut answer k p s ∨ ∃ j, cut answer k (p >>= f) s =
      cut answer j (f (eval answer p s).1) (eval answer p s).2 := by
  induction p generalizing s k with
  | ret a => exact .inr ⟨k, rfl⟩
  | request o next ih =>
    cases k with
    | zero => exact .inl rfl
    | succ k => exact ih (answer o s).1 k (answer o s).2

section

variable {A : Type} (answer) (code : A → ExceptT ε (Program Op Res) Unit) (done : A → σ → Prop)
  (grows : σ → σ → Prop)

/-- A step that changes nothing if it is done or fails, and of which a part is nothing or all.
What is done stays done while the state grows. -/
structure Checked (a : A) : Prop where
  skip : ∀ s, done a s → eval answer (code a).run s = (.ok (), s)
  does : ∀ s t, eval answer (code a).run s = (.ok (), t) → done a t
  fails : ∀ s e t, eval answer (code a).run s = (.error e, t) → t = s
  whole : ∀ s k, cut answer k (code a).run s = s ∨
    cut answer k (code a).run s = (eval answer (code a).run s).2
  grow : ∀ s, grows s (eval answer (code a).run s).2
  keeps : ∀ s t, grows s t → done a s → done a t

end

section

variable {A : Type} {code : A → ExceptT ε (Program Op Res) Unit} {done : A → σ → Prop}
  {grows : σ → σ → Prop} {as front back : List A}

theorem run_forM_cons (a : A) (as : List A) :
    ((a :: as).forM code).run = (code a >>= fun _ => as.forM code).run := rfl

theorem forM_append_bind (as bs : List A) :
    (as ++ bs).forM code = as.forM code >>= fun _ => bs.forM code := by
  induction as with
  | nil => exact (pure_bind _ _).symm
  | cons a as ih =>
    have hcons : ((a :: as) ++ bs).forM code = code a >>= fun _ => (as ++ bs).forM code := rfl
    have hfront : (a :: as).forM code = code a >>= fun _ => as.forM code := rfl
    rw [hcons, hfront, ih, bind_assoc]

/-- What every step preserves, the sequence does. -/
theorem forM_preserves {inv : σ → Prop}
    (hstep : ∀ a ∈ as, ∀ s, inv s → inv (eval answer (code a).run s).2) (hs : inv s) :
    inv (eval answer (as.forM code).run s).2 := by
  induction as generalizing s with
  | nil => exact hs
  | cons a as ih =>
    obtain ⟨ha, has⟩ := List.forall_mem_cons.mp hstep
    have hfirst := ha s hs
    rw [run_forM_cons]
    cases he : eval answer (code a).run s with
    | mk r t =>
      rw [he] at hfirst
      cases r with
      | ok v =>
        rw [eval_ok_bind he]
        exact ih has hfirst
      | error e =>
        rw [eval_error_bind he]
        exact hfirst

/-- Where a sequence is cut off, some of its steps were run. -/
theorem cut_forM (hwhole : ∀ a ∈ as, ∀ s k, cut answer k (code a).run s = s ∨
      cut answer k (code a).run s = (eval answer (code a).run s).2) (k : ℕ) (s : σ) :
    ∃ front back, as = front ++ back ∧
      cut answer k (as.forM code).run s = (eval answer (front.forM code).run s).2 := by
  induction as generalizing s k with
  | nil => exact ⟨[], [], rfl, by cases k <;> rfl⟩
  | cons a as ih =>
    obtain ⟨ha, has⟩ := List.forall_mem_cons.mp hwhole
    have hone : ([a].forM code).run = (code a >>= fun _ => pure ()).run := rfl
    have hrun : ((a :: as).forM code).run =
        (code a).run >>= ExceptT.bindCont fun _ => as.forM code := rfl
    have hfirst : (eval answer ([a].forM code).run s).2 = (eval answer (code a).run s).2 := by
      rw [hone]
      cases he : eval answer (code a).run s with
      | mk r t =>
        cases r with
        | ok v =>
          rw [eval_ok_bind he]
          rfl
        | error e => rw [eval_error_bind he]
    rw [hrun]
    rcases cut_bind k (code a).run (ExceptT.bindCont fun _ => as.forM code) s with hcut | ⟨j, hcut⟩
    · rw [hcut]
      rcases ha s k with hnone | hall
      · exact ⟨[], a :: as, rfl, hnone⟩
      · exact ⟨[a], as, rfl, hall.trans hfirst.symm⟩
    · rw [hcut]
      cases he : eval answer (code a).run s with
      | mk r t =>
        cases r with
        | ok v =>
          obtain ⟨front, back, rfl, hrest⟩ := ih has j t
          refine ⟨a :: front, back, rfl, hrest.trans ?_⟩
          rw [run_forM_cons, eval_ok_bind he]
        | error e =>
          refine ⟨[a], as, rfl, ?_⟩
          rw [hfirst, he]
          cases j <;> rfl

theorem Checked.grows_forM (hrefl : ∀ s, grows s s)
    (htrans : ∀ s t u, grows s t → grows t u → grows s u)
    (h : ∀ a ∈ as, Checked answer code done grows a) (s : σ) :
    grows s (eval answer (as.forM code).run s).2 :=
  forM_preserves (fun a ha t ht => htrans _ _ _ ht ((h a ha).grow t)) (hrefl s)

/-- After some of the steps, all of them give what they would have given at once. -/
theorem Checked.eval_forM_after (hrefl : ∀ s, grows s s)
    (htrans : ∀ s t u, grows s t → grows t u → grows s u)
    (h : ∀ a ∈ front ++ back, Checked answer code done grows a) (s : σ) :
    eval answer ((front ++ back).forM code).run (eval answer (front.forM code).run s).2 =
      eval answer ((front ++ back).forM code).run s := by
  induction front generalizing s with
  | nil => rfl
  | cons a front ih =>
    obtain ⟨ha, hrest⟩ := List.forall_mem_cons.mp h
    rw [List.cons_append, run_forM_cons, run_forM_cons]
    cases he : eval answer (code a).run s with
    | mk r t =>
      cases r with
      | ok v =>
        rw [eval_ok_bind he, eval_ok_bind he]
        have hgrows : grows t (eval answer (front.forM code).run t).2 :=
          Checked.grows_forM hrefl htrans
            (fun a ha => hrest a (List.mem_append_left _ ha)) t
        have hdone := ha.keeps _ _ hgrows (ha.does s t he)
        rw [eval_ok_bind (ha.skip _ hdone)]
        exact ih hrest t
      | error e =>
        obtain rfl := ha.fails s e t he
        rw [eval_error_bind he]

/-- A sequence that was cut off, and is run again, gives what it would have given at once. -/
theorem Checked.resume (hrefl : ∀ s, grows s s)
    (htrans : ∀ s t u, grows s t → grows t u → grows s u)
    (h : ∀ a ∈ as, Checked answer code done grows a) (k : ℕ) (s : σ) :
    eval answer (as.forM code).run (cut answer k (as.forM code).run s) =
      eval answer (as.forM code).run s := by
  obtain ⟨front, back, rfl, hcut⟩ := cut_forM (fun a ha => (h a ha).whole) k s
  rw [hcut]
  exact Checked.eval_forM_after hrefl htrans h s

/-- Run again, it changes nothing. -/
theorem Checked.again (hrefl : ∀ s, grows s s)
    (htrans : ∀ s t u, grows s t → grows t u → grows s u)
    (h : ∀ a ∈ as, Checked answer code done grows a) (s : σ) :
    eval answer (as.forM code).run (eval answer (as.forM code).run s).2 =
      eval answer (as.forM code).run s := by
  have hall : ∀ a ∈ as ++ [], Checked answer code done grows a := by rwa [List.append_nil]
  have hafter := Checked.eval_forM_after hrefl htrans hall s
  rwa [List.append_nil] at hafter

/-- What every step preserves holds wherever the sequence is cut off. -/
theorem Checked.cut_preserves {inv : σ → Prop} (h : ∀ a ∈ as, Checked answer code done grows a)
    (hstep : ∀ a ∈ as, ∀ s, inv s → inv (eval answer (code a).run s).2) (k : ℕ) (hs : inv s) :
    inv (cut answer k (as.forM code).run s) := by
  obtain ⟨front, back, rfl, hcut⟩ := cut_forM (fun a ha => (h a ha).whole) k s
  rw [hcut]
  exact forM_preserves (fun a ha => hstep a (List.mem_append_left _ ha)) hs

end

end FlannelRs.CheckedSteps
