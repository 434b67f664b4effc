/-
# Autophagy.Effect.Stateful — one process over a state, where an exception undoes nothing.

A Python program that raises has done what it did before. `Stateful σ ε α` is such a program as a function of the
state: what it returned or raised, and the state behind it either way. (`StateT` over `Except` would throw the
state away.)

A program whose operations may fail (`Fallible`) is run here by saying what each of its operations does
(`Stateful.perform`); the meaning of an operation may itself be a whole program, the child process of a parent say.
-/
import Autophagy.Effect.Raise

namespace Autophagy.Effect

/-- A program over a state. -/
def Stateful (σ ε α : Type) := σ → Except ε α × σ

namespace Stateful

variable {σ ε ε' α β γ : Type}

instance : Monad (Stateful σ ε) where
  pure a := fun s => (.ok a, s)
  bind p f := fun s =>
    match p s with
    | (.ok a, s) => f a s
    | (.error fault, s) => (.error fault, s)

def raise (fault : ε) : Stateful σ ε α := fun s => (.error fault, s)

/-- Go on with a value, or raise. -/
def get (value : Except ε α) : Stateful σ ε α := fun s => (value, s)

/-- Go on with what is read off the state. -/
def read (f : σ → Except ε α) : Stateful σ ε α := fun s => (f s, s)

def modify (f : σ → σ) : Stateful σ ε Unit := fun s => (.ok (), f s)

/-- Run the body, and catch what it raises. -/
def attempt (body : Stateful σ ε α) : Stateful σ ε' (Except ε α) := fun s => (.ok (body s).1, (body s).2)

/-! ## §1 — Sequences -/

@[simp] theorem pure_apply (a : α) (s : σ) : (pure a : Stateful σ ε α) s = (.ok a, s) := rfl

@[simp] theorem raise_apply (fault : ε) (s : σ) : (raise fault : Stateful σ ε α) s = (.error fault, s) := rfl

@[simp] theorem get_apply (value : Except ε α) (s : σ) : (get value : Stateful σ ε α) s = (value, s) := rfl

@[simp] theorem read_apply (f : σ → Except ε α) (s : σ) : read f s = (f s, s) := rfl

@[simp] theorem modify_apply (f : σ → σ) (s : σ) : (modify f : Stateful σ ε Unit) s = (.ok (), f s) := rfl

@[simp] theorem attempt_apply (p : Stateful σ ε α) (s : σ) :
    (attempt p : Stateful σ ε' (Except ε α)) s = (.ok (p s).1, (p s).2) := rfl

theorem bind_apply (p : Stateful σ ε α) (f : α → Stateful σ ε β) (s : σ) : (p >>= f) s =
      match p s with
      | (.ok a, s) => f a s
      | (.error fault, s) => (.error fault, s) := rfl

theorem bind_of_ok {p : Stateful σ ε α} {s s' : σ} {a : α} (h : p s = (.ok a, s')) (f : α → Stateful σ ε β) :
    (p >>= f) s = f a s' := by
  rw [bind_apply, h]

theorem bind_of_error {p : Stateful σ ε α} {s s' : σ} {fault : ε} (h : p s = (.error fault, s'))
    (f : α → Stateful σ ε β) : (p >>= f) s = (.error fault, s') := by
  rw [bind_apply, h]

theorem bind_assoc (p : Stateful σ ε α) (f : α → Stateful σ ε β) (g : β → Stateful σ ε γ) :
    p >>= f >>= g = p >>= fun a => f a >>= g := by
  funext s
  rw [bind_apply, bind_apply, bind_apply]
  rcases p s with ⟨_ | a, s'⟩ <;> rfl

@[simp] theorem get_ok_bind (a : α) (f : α → Stateful σ ε β) (s : σ) : (get (.ok a) >>= f) s = f a s := rfl

@[simp] theorem get_error_bind (fault : ε) (f : α → Stateful σ ε β) (s : σ) :
    (get (.error fault) >>= f) s = (.error fault, s) := rfl

theorem of_bind_ok {p : Stateful σ ε α} {f : α → Stateful σ ε β} {s s' : σ} {b : β}
    (h : (p >>= f) s = (.ok b, s')) : ∃ a s₁, p s = (.ok a, s₁) ∧ f a s₁ = (.ok b, s') := by
  rw [bind_apply] at h
  split at h
  · rename_i a s₁ heq
    exact ⟨a, s₁, heq, h⟩
  · cases h

/-! ## §2 — Parts that leave some of the state alone -/

section Leaves

variable {τ : Type} {view : σ → τ} {p : Stateful σ ε α} {f : α → Stateful σ ε β}

/-- Whatever the part ends with, the view of the state is as it was. -/
def Leaves (view : σ → τ) (p : Stateful σ ε α) : Prop := ∀ s, view (p s).2 = view s

theorem leaves_pure (a : α) : Leaves view (pure a : Stateful σ ε α) := fun _ => rfl

theorem Leaves.bind (hp : Leaves view p) (hf : ∀ a, Leaves view (f a)) : Leaves view (p >>= f) := by
  intro s
  have hs := hp s
  rw [bind_apply]
  split
  · rename_i a s' heq
    rw [heq] at hs
    exact (hf a s').trans hs
  · rename_i fault s' heq
    rw [heq] at hs
    exact hs

theorem Leaves.attempt (hp : Leaves view p) : Leaves view (Stateful.attempt p : Stateful σ ε' (Except ε α)) := hp

end Leaves

/-! ## §3 — Running a program over operations -/

variable {Op : Type} {Res : Op → Type}

/-- The program, where each operation does what it means. -/
def perform (meaning : (op : Op) → Stateful σ ε (Res op)) : Fallible Res ε α → Stateful σ ε α
  | .ret a => pure a
  | .call (.op op) k => fun s => perform meaning (k (meaning op s).1) (meaning op s).2
  | .call (.raise fault) _ => raise fault

variable {meaning : (op : Op) → Stateful σ ε (Res op)}

@[simp] theorem perform_ret (a : α) : perform meaning (.ret a : Fallible Res ε α) = pure a := rfl

@[simp] theorem perform_raise (fault : ε) :
    perform meaning (Fallible.raise fault : Fallible Res ε α) = raise fault := rfl

@[simp] theorem perform_get (value : Except ε α) :
    perform meaning (Fallible.get value : Fallible Res ε α) = get value := by
  cases value <;> rfl

@[simp] theorem perform_act (op : Op) : perform meaning (Fallible.act op) = meaning op := by
  funext s
  show perform meaning (Fallible.get (meaning op s).1) (meaning op s).2 = meaning op s
  rw [perform_get]
  rfl

theorem perform_bind (p : Fallible Res ε α) (f : α → Fallible Res ε β) :
    perform meaning (p >>= f) = perform meaning p >>= fun a => perform meaning (f a) := by
  induction p with
  | ret a => rfl
  | call op k ih =>
    cases op with
    | op op =>
      funext s
      exact congrFun (ih (meaning op s).1) (meaning op s).2
    | raise fault => rfl

@[simp] theorem perform_attempt (p : Fallible Res ε α) :
    perform meaning (Fallible.attempt p) = attempt (perform meaning p) := by
  induction p with
  | ret a => rfl
  | call op k ih =>
    cases op with
    | op op =>
      funext s
      exact congrFun (ih (meaning op s).1) (meaning op s).2
    | raise fault => rfl

end Stateful

end Autophagy.Effect
