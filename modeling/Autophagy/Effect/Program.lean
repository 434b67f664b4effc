/-
# Autophagy.Effect.Program — programs that act on a world, and what their histories satisfy.

A `Prog Res α` is a program that performs operations `op : Op` one after another, reads the answer
`Res op` of each, and returns an `α`. Nothing is said here about what an operation does: a *step
relation* on an arbitrary world type `σ` says that, and the same program can be read over several
worlds. The world that only records (`recorded`) turns a program into the set of its histories,
which is where ordering facts ("no delete before its probe") are stated.

A run may end at any operation (`Exec.stop`). That one rule stands for a crash, for a kill, and for
an exception no handler of the program catches: in each case the operations performed so far are the
whole of what happened.

`Always step I Q p s` is the weakest precondition of "every world the run reaches satisfies `I`, and a
returned value satisfies `Q`". It is a structural recursion on the program, so it computes on a
concrete program and is proved by induction on a recursive one; `Always.bind` composes it along `>>=`.
-/
import Mathlib.Data.List.Basic

namespace Autophagy.Effect

/-! ## §1 — Programs -/

/-- A program over the operations `Op`: it returns, or performs one operation and goes on with what
the answer selects. -/
inductive Prog {Op : Type} (Res : Op → Type) (α : Type) : Type
  | ret (a : α)
  | call (op : Op) (k : Res op → Prog Res α)

namespace Prog

variable {Op : Type} {Res : Op → Type} {α β γ : Type}

/-- Run `p`, then the program its result selects. -/
def bind : Prog Res α → (α → Prog Res β) → Prog Res β
  | .ret a, f => f a
  | .call op k, f => .call op fun r => (k r).bind f

/-- The program that performs one operation and returns its answer. -/
def perform (op : Op) : Prog Res (Res op) := .call op .ret

instance : Monad (Prog Res) where
  pure := .ret
  bind := bind

@[simp] theorem pure_eq (a : α) : (pure a : Prog Res α) = .ret a := rfl

@[simp] theorem ret_bind (a : α) (f : α → Prog Res β) : ((.ret a : Prog Res α) >>= f) = f a := rfl

@[simp] theorem call_bind (op : Op) (k : Res op → Prog Res α) (f : α → Prog Res β) :
    (.call op k >>= f) = .call op fun r => k r >>= f := rfl

@[simp] theorem perform_bind (op : Op) (f : Res op → Prog Res β) : (perform op >>= f) = .call op f := rfl

theorem bind_assoc (p : Prog Res α) (f : α → Prog Res β) (g : β → Prog Res γ) :
    (p >>= f) >>= g = p >>= fun a => f a >>= g := by
  induction p with
  | ret a => rfl
  | call op k ih =>
    simp only [call_bind]
    congr 1
    funext r
    exact ih r

end Prog

/-! ## §2 — Runs over a world -/

section World

variable {Op : Type} {Res : Op → Type} {α β σ : Type}

/-- What an operation, answered so, does to a world. -/
abbrev StepRel (Res : Op → Type) (σ : Type) := σ → (op : Op) → Res op → σ → Prop

/-- `Exec step p s out s'`: some run of `p` from `s` reaches `s'`; `out` is the returned value, or
`none` where the run was cut. -/
inductive Exec (step : StepRel Res σ) : Prog Res α → σ → Option α → σ → Prop
  | ret (a : α) (s : σ) : Exec step (.ret a) s (some a) s
  | stop (p : Prog Res α) (s : σ) : Exec step p s none s
  | call {op : Op} {k : Res op → Prog Res α} {r : Res op} {s s' s'' : σ} {out : Option α}
      (hstep : step s op r s') (rest : Exec step (k r) s' out s'') :
      Exec step (.call op k) s out s''

/-- `I` holds in every world a run of `p` from `s` reaches, and `Q` of what it returns. -/
def Always (step : StepRel Res σ) (I : σ → Prop) (Q : α → σ → Prop) : Prog Res α → σ → Prop
  | .ret a, s => I s ∧ Q a s
  | .call op k, s => I s ∧ ∀ r s', step s op r s' → Always step I Q (k r) s'

variable {step : StepRel Res σ} {I : σ → Prop}

theorem Always.inv {Q : α → σ → Prop} {p : Prog Res α} {s : σ} (h : Always step I Q p s) : I s := by
  cases p with
  | ret a => exact h.1
  | call op k => exact h.1

/-- **Soundness.** Whatever `Always` promises holds at the end of every run, cut or complete. -/
theorem Always.sound {Q : α → σ → Prop} {p : Prog Res α} {s s' : σ} {out : Option α}
    (run : Exec step p s out s') (h : Always step I Q p s) :
    I s' ∧ ∀ a, out = some a → Q a s' := by
  induction run with
  | ret a s =>
    refine ⟨h.1, ?_⟩
    intro b hb
    cases hb
    exact h.2
  | stop p s => exact ⟨h.inv, by simp⟩
  | call hstep _ ih => exact ih (h.2 _ _ hstep)

theorem Always.mono {I' : σ → Prop} {Q Q' : α → σ → Prop} {p : Prog Res α} {s : σ}
    (h : Always step I Q p s) (hI : ∀ s, I s → I' s) (hQ : ∀ a s, I s → Q a s → Q' a s) :
    Always step I' Q' p s := by
  induction p generalizing s with
  | ret a => exact ⟨hI s h.1, hQ a s h.1 h.2⟩
  | call op k ih => exact ⟨hI s h.1, fun r s' hs => ih r (h.2 r s' hs)⟩

theorem Always.bind {Q : α → σ → Prop} {Q' : β → σ → Prop} {p : Prog Res α}
    {f : α → Prog Res β} {s : σ} (h : Always step I Q p s)
    (hf : ∀ a s, I s → Q a s → Always step I Q' (f a) s) : Always step I Q' (p >>= f) s := by
  induction p generalizing s with
  | ret a => exact hf a s h.1 h.2
  | call op k ih => exact ⟨h.1, fun r s' hs => ih r (h.2 r s' hs)⟩

end World

/-! ## §3 — Histories -/

section History

variable {Op : Type} (Res : Op → Type)

/-- One performed operation with its answer. -/
structure Event where
  op : Op
  res : Res op

variable {Res} {α : Type}

/-- The world that only records: every answer is possible, and the operation is appended. -/
def recorded : StepRel Res (List (Event Res)) := fun h op r h' => h' = h ++ [⟨op, r⟩]

/-- `Runs p trace out`: `trace` is the history of a run of `p`, and `out` is what it returned, or
`none` where it was cut. -/
inductive Runs : Prog Res α → List (Event Res) → Option α → Prop
  | ret (a : α) : Runs (.ret a) [] (some a)
  | stop (p : Prog Res α) : Runs p [] none
  | call {op : Op} {k : Res op → Prog Res α} {r : Res op} {trace : List (Event Res)} {out : Option α}
      (rest : Runs (k r) trace out) : Runs (.call op k) (⟨op, r⟩ :: trace) out

theorem Runs.exec {p : Prog Res α} {trace : List (Event Res)} {out : Option α}
    (run : Runs p trace out) (h : List (Event Res)) : Exec recorded p h out (h ++ trace) := by
  induction run generalizing h with
  | ret a =>
    rw [List.append_nil]
    exact Exec.ret a h
  | stop p =>
    rw [List.append_nil]
    exact Exec.stop p h
  | @call op k r trace out rest ih =>
    rw [List.append_cons]
    exact Exec.call rfl (ih _)

theorem Always.runs {I : List (Event Res) → Prop} {Q : α → List (Event Res) → Prop} {p : Prog Res α}
    {trace : List (Event Res)} {out : Option α} (h : Always recorded I Q p [])
    (run : Runs p trace out) : I trace ∧ ∀ a, out = some a → Q a trace :=
  h.sound (run.exec [])

/-- Every event of `trace` was allowed by `G` after the events before it. -/
def Ordered (G : List (Event Res) → Event Res → Prop) (trace : List (Event Res)) : Prop :=
  ∀ before e after, trace = before ++ e :: after → G before e

variable {G : List (Event Res) → Event Res → Prop}

@[simp] theorem ordered_nil : Ordered G [] := by
  intro before e after h
  simp at h

theorem ordered_snoc {h : List (Event Res)} {e : Event Res} : Ordered G (h ++ [e]) ↔ Ordered G h ∧ G h e := by
  constructor
  · intro ho
    refine ⟨?_, ho h e [] rfl⟩
    rintro before e' after rfl
    exact ho before e' (after ++ [e]) (by simp)
  · rintro ⟨ho, he⟩ before e' after heq
    rcases List.eq_nil_or_concat after with rfl | ⟨front, last, rfl⟩
    · obtain ⟨rfl, hlast⟩ := List.append_inj' heq rfl
      cases hlast
      exact he
    · rw [List.concat_eq_append, ← List.cons_append, ← List.append_assoc] at heq
      obtain ⟨rfl, -⟩ := List.append_inj' heq rfl
      exact ho before e' front rfl

theorem ordered_of_free {h : List (Event Res)} (hfree : ∀ e ∈ h, ∀ before, G before e) : Ordered G h := by
  rintro before e after rfl
  exact hfree e (by simp) before

theorem Always.event {I : List (Event Res) → Prop} {Q : α → List (Event Res) → Prop} (op : Op)
    {k : Res op → Prog Res α} {h : List (Event Res)} (hI : I h)
    (hk : ∀ r, Always recorded I Q (k r) (h ++ [⟨op, r⟩])) :
    Always recorded I Q (.call op k) h :=
  ⟨hI, fun r h' hh => by rw [hh]; exact hk r⟩

theorem Always.grows {I : List (Event Res) → Prop} {Q : α → List (Event Res) → Prop} {p : Prog Res α}
    {h : List (Event Res)} (hp : Always recorded I Q p h) :
    Always recorded I (fun a h' => Q a h' ∧ h <+: h') p h := by
  induction p generalizing h with
  | ret a => exact ⟨hp.1, hp.2, List.prefix_refl h⟩
  | call op k ih =>
    refine Always.event op hp.1 fun r => ?_
    refine (ih r (hp.2 r _ rfl)).mono (fun _ hI => hI) ?_
    rintro a h' - ⟨hQ, hgrow⟩
    exact ⟨hQ, (List.prefix_append h _).trans hgrow⟩

theorem Always.guarded {Q : α → List (Event Res) → Prop} (op : Op) {k : Res op → Prog Res α}
    {h : List (Event Res)} (ho : Ordered G h) (hG : ∀ r, G h ⟨op, r⟩)
    (hk : ∀ r, Ordered G (h ++ [⟨op, r⟩]) → Always recorded (Ordered G) Q (k r) (h ++ [⟨op, r⟩])) :
    Always recorded (Ordered G) Q (.call op k) h :=
  Always.event op ho fun r => hk r (ordered_snoc.mpr ⟨ho, hG r⟩)

end History

end Autophagy.Effect
