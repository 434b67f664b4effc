/-
# Autophagy.Effect.Raise — programs whose operations may fail, and handlers for what they raise.

In a `Prog` an uncaught exception is simply the end of the run. A program that goes on behind an
exception (a loop that guards each of its entries, a parent that waits for a child process) needs the
exception as a value. Here every operation answers `Except ε (Res op)`, and `raise` is an operation
without an answer: `act` raises what the operation failed with, and `attempt` is the handler, which turns
the raised fault of its body into a result and runs on.

`ensuring` is `try … finally`.

`Machine.Handles` is the rely–guarantee obligation of such a program with two postconditions: one where
it returned and one where it raised.
-/
import Autophagy.Effect.Handler

namespace Autophagy.Effect

/-! ## §1 — Operations that may fail -/

/-- An operation, or the raising of a fault. -/
inductive Raising (Op ε : Type)
  | op (o : Op)
  | raise (fault : ε)

/-- An operation answers or fails; a raise does not answer. -/
@[reducible] def RaisingRes {Op : Type} (Res : Op → Type) (ε : Type) : Raising Op ε → Type
  | .op o => Except ε (Res o)
  | .raise _ => Empty

/-- A program over operations that may fail. -/
abbrev Fallible {Op : Type} (Res : Op → Type) (ε α : Type) := Prog (RaisingRes Res ε) α

namespace Fallible

variable {Op : Type} {Res : Op → Type} {ε α β : Type}

/-- Raise a fault. -/
def raise (fault : ε) : Fallible Res ε α := .call (.raise fault) Empty.elim

/-- Go on with a value, or raise. -/
def get : Except ε α → Fallible Res ε α
  | .ok a => .ret a
  | .error fault => raise fault

/-- Perform one operation; what it fails with is raised. -/
def act (op : Op) : Fallible Res ε (Res op) := .call (.op op) get

/-- Run the body, and catch what it raises. -/
def attempt : Fallible Res ε α → Fallible Res ε (Except ε α)
  | .ret a => .ret (.ok a)
  | .call (.op o) k => .call (.op o) fun r => attempt (k r)
  | .call (.raise fault) _ => .ret (.error fault)

/-- `try: body finally: cleanup`. -/
def ensuring (body : Fallible Res ε α) (cleanup : Fallible Res ε Unit) : Fallible Res ε α := do
  let result ← attempt body
  cleanup
  get result

/-- A critical section: where the lock is not obtained the body does not run, and it is given up behind
the body however that ends. -/
def holding (hold : Fallible Res ε Bool) (release : Fallible Res ε Unit) (refused : α)
    (body : Fallible Res ε α) : Fallible Res ε α := do
  if ← hold then ensuring body release else .ret refused

/-! ## §2 — The operations of such a program -/

/-- The operation, where it is one, satisfies `P`. -/
def Raises.Each (P : Op → Prop) : Raising Op ε → Prop
  | .op o => P o
  | .raise _ => True

/-- Every operation the program can perform satisfies `P`. -/
def Performs (P : Op → Prop) (p : Fallible Res ε α) : Prop := p.Only (Raises.Each P)

variable {P : Op → Prop}

theorem performs_ret (a : α) : Performs P (.ret a : Fallible Res ε α) := trivial

theorem performs_raise (fault : ε) : Performs P (raise fault : Fallible Res ε α) :=
  ⟨trivial, fun answer => answer.elim⟩

theorem performs_get (x : Except ε α) : Performs P (get x : Fallible Res ε α) := by
  cases x with
  | ok a => exact performs_ret a
  | error fault => exact performs_raise fault

theorem Performs.bind {p : Fallible Res ε α} {f : α → Fallible Res ε β} (hp : Performs P p)
    (hf : ∀ a, Performs P (f a)) : Performs P (p >>= f) :=
  Prog.Only.bind hp hf

theorem Performs.mono {P' : Op → Prop} {p : Fallible Res ε α} (hp : Performs P p)
    (h : ∀ op, P op → P' op) : Performs P' p := by
  refine Prog.Only.mono hp ?_
  rintro (o | fault) ho
  · exact h o ho
  · trivial

theorem performs_act {op : Op} (h : P op) : Performs P (act op : Fallible Res ε (Res op)) :=
  ⟨h, performs_get⟩

theorem Performs.attempt {p : Fallible Res ε α} (hp : Performs P p) : Performs P (attempt p) := by
  induction p with
  | ret a => trivial
  | call op k ih =>
    cases op with
    | op o => exact ⟨hp.1, fun r => ih r (hp.2 r)⟩
    | raise fault => trivial

theorem Performs.ensuring {p : Fallible Res ε α} {q : Fallible Res ε Unit} (hp : Performs P p)
    (hq : Performs P q) : Performs P (ensuring p q) :=
  hp.attempt.bind fun result => hq.bind fun _ => performs_get result

theorem Performs.holding {hold : Fallible Res ε Bool} {release : Fallible Res ε Unit} {refused : α}
    {body : Fallible Res ε α} (hhold : Performs P hold) (hrelease : Performs P release)
    (hbody : Performs P body) : Performs P (holding hold release refused body) := by
  refine hhold.bind fun owned => ?_
  cases owned with
  | true => exact hbody.ensuring hrelease
  | false => exact performs_ret refused

end Fallible

/-! ## §3 — Handlers and sequences -/

namespace Fallible

variable {Op : Type} {Res : Op → Type} {ε α β : Type}

theorem attempt_get (x : Except ε α) : attempt (get x : Fallible Res ε α) = .ret x := by
  cases x <;> rfl

theorem attempt_act (op : Op) : attempt (act op : Fallible Res ε (Res op)) = .call (.op op) .ret := by
  show Prog.call _ _ = Prog.call _ _
  congr 1
  funext r
  exact attempt_get r

theorem attempt_bind (p : Fallible Res ε α) (f : α → Fallible Res ε β) : attempt (p >>= f) = attempt p >>= fun r =>
      match r with
      | .ok a => attempt (f a)
      | .error fault => .ret (.error fault) := by
  induction p with
  | ret a => rfl
  | call op k ih =>
    cases op with
    | op o =>
      show Prog.call _ _ = Prog.call _ _
      congr 1
      funext r
      exact ih r
    | raise fault => rfl

theorem attempt_attempt (p : Fallible Res ε α) : attempt (attempt p) = attempt p >>= fun r => .ret (.ok r) := by
  induction p with
  | ret a => rfl
  | call op k ih =>
    cases op with
    | op o =>
      show Prog.call _ _ = Prog.call _ _
      congr 1
      funext r
      exact ih r
    | raise fault => rfl

theorem follow_attempt (answer : (op : Raising Op ε) → Option (RaisingRes Res ε op)) (p : Fallible Res ε α) :
    ((attempt p).follow answer).1 = (p.follow answer).1 := by
  induction p with
  | ret a => rfl
  | call op k ih =>
    cases op with
    | op o =>
      rw [attempt, Prog.follow, Prog.follow]
      cases answer (.op o) with
      | none => rfl
      | some r => exact congrArg (_ :: ·) (ih r)
    | raise fault =>
      rw [attempt, Prog.follow, Prog.follow]
      cases answer (.raise fault) with
      | none => rfl
      | some r => exact r.elim

end Fallible

/-! ## §4 — The rely–guarantee rule with exceptions -/

namespace Machine

variable {Op : Type} {Res : Op → Type} {ε α β Pid σ : Type}

/-- What holds behind a program: `Q` where it returned, `E` where it raised. -/
def Either (Q : α → σ → Prop) (E : ε → σ → Prop) : Except ε α → σ → Prop
  | .ok a, s => Q a s
  | .error fault, s => E fault s

variable (M : Machine (RaisingRes Res ε) Pid σ) (I : σ → Prop) (R : Pid → σ → σ → Prop) (p : Pid)

/-- The program is safe, ends with `Q` where it returns and with `E` where it raises. -/
def Handles (Q : α → σ → Prop) (E : ε → σ → Prop) (prog : Fallible Res ε α) (s : σ) : Prop :=
  Safe M I R p (Either Q E) (Fallible.attempt prog) s

variable {M I R p} {Q : α → σ → Prop} {E : ε → σ → Prop} {s : σ}

theorem Handles.ret {a : α} (h : Q a s) : Handles M I R p Q E (.ret a) s := h

theorem Handles.raise {fault : ε} (h : E fault s) : Handles M I R p Q E (Fallible.raise fault) s := h

theorem Handles.get {x : Except ε α} (h : Either Q E x s) : Handles M I R p Q E (Fallible.get x) s := by
  unfold Handles
  rw [Fallible.attempt_get]
  exact h

theorem Handles.mono {Q' : α → σ → Prop} {E' : ε → σ → Prop} {prog : Fallible Res ε α}
    (h : Handles M I R p Q E prog s) (hQ : ∀ a s, Q a s → Q' a s) (hE : ∀ e s, E e s → E' e s) :
    Handles M I R p Q' E' prog s := by
  refine Safe.mono h ?_
  rintro (fault | a) s h
  · exact hE fault s h
  · exact hQ a s h

theorem Handles.bind {Q' : β → σ → Prop} {prog : Fallible Res ε α} {f : α → Fallible Res ε β}
    (h : Handles M I R p Q E prog s) (hf : ∀ a s, Q a s → Handles M I R p Q' E (f a) s) :
    Handles M I R p Q' E (prog >>= f) s := by
  unfold Handles
  rw [Fallible.attempt_bind]
  refine Safe.bind h ?_
  rintro (fault | a) s h
  · exact h
  · exact hf a s h

theorem Handles.act {op : Op} {Q : Res op → σ → Prop}
    (h : ∀ s₁, I s₁ → R p s s₁ → ∀ r s₂, M.step p s₁ (.op op) r s₂ →
      I s₂ ∧ (∀ q, q ≠ p → R q s₁ s₂) ∧ Either Q E r s₂) :
    Handles M I R p Q E (Fallible.act op) s := by
  unfold Handles
  rw [Fallible.attempt_act]
  exact h

theorem Handles.attempt {E' : ε → σ → Prop} {prog : Fallible Res ε α}
    (h : Handles M I R p Q E prog s) :
    Handles M I R p (Either Q E) E' (Fallible.attempt prog) s := by
  unfold Handles
  rw [Fallible.attempt_attempt]
  exact Safe.bind h fun r s h => h

theorem Handles.ensuring {Q' : α → σ → Prop} {E' : ε → σ → Prop} {body : Fallible Res ε α}
    {cleanup : Fallible Res ε Unit} (h : Handles M I R p Q E body s)
    (hcleanup : ∀ r s, Either Q E r s → Handles M I R p (fun _ => Either Q' E' r) E' cleanup s) :
    Handles M I R p Q' E' (Fallible.ensuring body cleanup) s := by
  refine Handles.bind h.attempt ?_
  intro r s hr
  refine Handles.bind (hcleanup r s hr) ?_
  intro _ s hend
  exact Handles.get hend

theorem Handles.holding {K : σ → Prop} {hold : Fallible Res ε Bool} {release : Fallible Res ε Unit}
    {refused : α} {body : Fallible Res ε α}
    (hhold : Handles M I R p (fun _ => K) (fun _ => K) hold s)
    (hbody : ∀ s, K s → Handles M I R p Q E body s)
    (hrelease : ∀ r s, Either Q E r s → Handles M I R p (fun _ => K) (fun _ => K) release s) :
    Handles M I R p (fun _ => K) (fun _ => K) (Fallible.holding hold release refused body) s := by
  refine Handles.bind hhold ?_
  intro owned s hK
  cases owned with
  | true =>
    refine Handles.ensuring (hbody s hK) ?_
    intro r s hr
    refine (hrelease r s hr).mono ?_ fun _ _ h => h
    intro _ s hK
    cases r with
    | ok a => exact hK
    | error fault => exact hK
  | false => exact hK

theorem Handles.of_performs {P : Op → Prop} {K : σ → Prop} {prog : Fallible Res ε α}
    (hp : Fallible.Performs P prog) (hK : ∀ s s', K s → R p s s' → K s')
    (hstep : ∀ op, P op → ∀ s r s', I s → K s → M.step p s (.op op) r s' →
      I s' ∧ (∀ q, q ≠ p → R q s s') ∧ K s') (hs : K s) :
    Handles M I R p (fun _ => K) (fun _ => K) prog s := by
  induction prog generalizing s with
  | ret a => exact hs
  | call op k ih =>
    cases op with
    | op o =>
      intro s₁ hI hR r s₂ hs₂
      obtain ⟨hI₂, hG, hK₂⟩ := hstep o hp.1 s₁ r s₂ hI (hK s s₁ hs hR) hs₂
      exact ⟨hI₂, hG, ih r (hp.2 r) hK₂⟩
    | raise fault => exact hs

theorem Handles.safe {prog : Fallible Res ε α} (h : Handles M I R p Q E prog s) : Safe M I R p Q prog s := by
  induction prog generalizing s with
  | ret a => exact h
  | call op k ih =>
    cases op with
    | op o =>
      intro s₁ hI hR r s₂ hs₂
      obtain ⟨hI₂, hG, hk⟩ := h s₁ hI hR r s₂ hs₂
      exact ⟨hI₂, hG, ih r hk⟩
    | raise fault => exact fun _ _ _ (answer : Empty) => answer.elim

/-! ## §5 — One process -/

/-- The machine with one process and no environment. -/
def solo (step : StepRel (RaisingRes Res ε) σ) : Machine (RaisingRes Res ε) Unit σ where
  step _ := step
  env _ _ := False
  halt _ s := s

end Machine

end Autophagy.Effect
