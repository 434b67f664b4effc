/-
# Autophagy.Effect.Handler — programs over programs, and what follows from the operations alone.

`Prog.interpret` runs a program whose operations are themselves programs over other operations: a
protocol (the approval lifecycle, say) is written once over its own operations, and each store that takes
part gives its meaning of them.

Much of what a program does needs no look at its order. `Prog.Only P` says that every operation the
program can perform satisfies `P`; it passes through `>>=` and through `interpret`, and it alone gives
what `Always` and `Safe` ask of a part that performs nothing a property speaks about.

`Prog.runOn` follows one run over a deterministic world, and `Prog.follow` one run with fixed answers.
A run they compute is a run of every step relation that admits its answers (`Prog.runOn_exec`).
-/
import Autophagy.Effect.Concurrent

namespace Autophagy.Effect

namespace Prog

variable {Op Op' : Type} {Res : Op → Type} {Res' : Op' → Type} {α β σ : Type}

/-! ## §1 — Interpretation -/

/-- The program with each operation replaced by the program that performs it. -/
def interpret (h : (op : Op) → Prog Res' (Res op)) : Prog Res α → Prog Res' α
  | .ret a => .ret a
  | .call op k => h op >>= fun r => interpret h (k r)

/-! ## §2 — The operations of a program -/

/-- Every operation the program can perform satisfies `P`. -/
def Only (P : Op → Prop) : Prog Res α → Prop
  | .ret _ => True
  | .call op k => P op ∧ ∀ r, Only P (k r)

variable {P : Op → Prop}

theorem only_ret (a : α) : Only P (.ret a : Prog Res α) := trivial

theorem only_perform {op : Op} (h : P op) : Only P (perform op : Prog Res (Res op)) :=
  ⟨h, fun _ => trivial⟩

theorem Only.bind {p : Prog Res α} {f : α → Prog Res β} (hp : Only P p) (hf : ∀ a, Only P (f a)) :
    Only P (p >>= f) := by
  induction p with
  | ret a => exact hf a
  | call op k ih => exact ⟨hp.1, fun r => ih r (hp.2 r)⟩

theorem Only.mono {P' : Op → Prop} {p : Prog Res α} (hp : Only P p) (h : ∀ op, P op → P' op) : Only P' p := by
  induction p with
  | ret a => trivial
  | call op k ih => exact ⟨h op hp.1, fun r => ih r (hp.2 r)⟩

theorem Only.interpret {P : Op' → Prop} {h : (op : Op) → Prog Res' (Res op)}
    (hh : ∀ op, Only P (h op)) (p : Prog Res α) : Only P (p.interpret h) := by
  induction p with
  | ret a => trivial
  | call op k ih => exact (hh op).bind ih

/-! ## §3 — One run over a deterministic world -/

/-- What an operation answers and does, or `none` where the run ends there. -/
abbrev Oracle (Res : Op → Type) (σ : Type) := σ → (op : Op) → Option (Res op × σ)

/-- The world at the end of the run, and the returned value where it was not cut. -/
def runOn (oracle : Oracle Res σ) : Prog Res α → σ → σ × Option α
  | .ret a, s => (s, some a)
  | .call op k, s =>
    match oracle s op with
    | none => (s, none)
    | some (r, s') => runOn oracle (k r) s'

theorem runOn_exec {oracle : Oracle Res σ} {step : StepRel Res σ}
    (h : ∀ s op r s', oracle s op = some (r, s') → step s op r s') (p : Prog Res α) (s : σ) :
    Exec step p s (p.runOn oracle s).2 (p.runOn oracle s).1 := by
  induction p generalizing s with
  | ret a => exact Exec.ret a s
  | call op k ih =>
    unfold runOn
    split
    · exact Exec.stop _ s
    · rename_i r s' hanswer
      exact Exec.call (h s op r s' hanswer) (ih r s')

/-- What is left of the program after `n` operations, and the world there. -/
def advance (oracle : Oracle Res σ) : Nat → Prog Res α → σ → Prog Res α × σ
  | 0, p, s => (p, s)
  | _ + 1, .ret a, s => (.ret a, s)
  | n + 1, .call op k, s =>
    match oracle s op with
    | none => (.call op k, s)
    | some (r, s') => advance oracle n (k r) s'

/-- The history of the run that is given fixed answers, and what it returned. -/
def follow (answer : (op : Op) → Option (Res op)) : Prog Res α → List (Event Res) × Option α
  | .ret a => ([], some a)
  | .call op k =>
    match answer op with
    | none => ([], none)
    | some r => (⟨op, r⟩ :: (follow answer (k r)).1, (follow answer (k r)).2)

theorem runs_follow (answer : (op : Op) → Option (Res op)) (p : Prog Res α) :
    Runs p (p.follow answer).1 (p.follow answer).2 := by
  induction p with
  | ret a => exact Runs.ret a
  | call op k ih =>
    unfold follow
    split
    · exact Runs.stop _
    · rename_i r hanswer
      exact Runs.call (ih r)

theorem follow_answers {answer : (op : Op) → Option (Res op)} {p : Prog Res α} {e : Event Res}
    (he : e ∈ (p.follow answer).1) : answer e.op = some e.res := by
  induction p with
  | ret a => cases he
  | call op k ih =>
    unfold follow at he
    split at he
    · cases he
    · rename_i r hanswer
      rcases List.mem_cons.mp he with rfl | he
      · exact hanswer
      · exact ih r he

section Follow

variable {answer : (op : Op) → Option (Res op)} {p : Prog Res α} {f : α → Prog Res β} {e : Event Res}

theorem mem_follow_bind_left (he : e ∈ (p.follow answer).1) : e ∈ ((p >>= f).follow answer).1 := by
  induction p with
  | ret a => cases he
  | call op k ih =>
    rw [call_bind]
    unfold follow at he ⊢
    split at he
    · cases he
    · rcases List.mem_cons.mp he with rfl | he
      · exact List.mem_cons_self
      · exact List.mem_cons_of_mem _ (ih _ he)

theorem mem_follow_bind_right {a : α} (ha : (p.follow answer).2 = some a)
    (he : e ∈ ((f a).follow answer).1) : e ∈ ((p >>= f).follow answer).1 := by
  induction p with
  | ret b =>
    obtain rfl := Option.some.inj ha
    exact he
  | call op k ih =>
    rw [call_bind]
    unfold follow at ha ⊢
    split at ha
    · cases ha
    · exact List.mem_cons_of_mem _ (ih _ ha)

theorem follow_bind_snd {a : α} (ha : (p.follow answer).2 = some a) :
    ((p >>= f).follow answer).2 = ((f a).follow answer).2 := by
  induction p with
  | ret b =>
    obtain rfl := Option.some.inj ha
    rfl
  | call op k ih =>
    rw [call_bind]
    unfold follow at ha
    rw [follow]
    split at ha
    · cases ha
    · exact ih _ ha

end Follow

theorem Only.mem {p : Prog Res α} (hp : Only P p) {trace : List (Event Res)} {out : Option α}
    (run : Runs p trace out) {e : Event Res} (he : e ∈ trace) : P e.op := by
  induction run with
  | ret a => cases he
  | stop p => cases he
  | @call op k r trace out rest ih =>
    rcases List.mem_cons.mp he with rfl | he
    · exact hp.1
    · exact ih (hp.2 r) he

end Prog

/-! ## §4 — What the operations alone give -/

section Rules

variable {Op : Type} {Res : Op → Type} {α σ : Type} {P : Op → Prop}

theorem Always.of_only {G : List (Event Res) → Event Res → Prop} {p : Prog Res α}
    {h : List (Event Res)} (hp : p.Only P) (hG : ∀ op, P op → ∀ h r, G h ⟨op, r⟩)
    (ho : Ordered G h) : Always recorded (Ordered G) (fun _ h' => h <+: h') p h := by
  induction p generalizing h with
  | ret a => exact ⟨ho, List.prefix_refl h⟩
  | call op k ih =>
    refine Always.guarded op ho (hG op hp.1 h) ?_
    intro r ho'
    refine (ih r (hp.2 r) ho').mono (fun _ hI => hI) ?_
    intro a h' _ hgrow
    exact (List.prefix_append h _).trans hgrow

end Rules

namespace Machine

variable {Op : Type} {Res : Op → Type} {Pid σ : Type}

/-- The machine whose steps moreover meet a condition. -/
def restrict (M : Machine Res Pid σ) (C : Pid → StepRel Res σ) : Machine Res Pid σ where
  step p s op r s' := M.step p s op r s' ∧ C p s op r s'
  env := M.env
  halt := M.halt

variable {M : Machine Res Pid σ} {I : σ → Prop} {R : Pid → σ → σ → Prop} {P : Op → Prop} {α : Type}

/-- A process that runs on for `n` operations while the others rest. -/
theorem Reachable.advance [DecidableEq Pid] {Start : Prog Res Unit → Prop} {init : σ} {p : Pid}
    {oracle : Prog.Oracle Res σ}
    (h : ∀ s op r s', oracle s op = some (r, s') → M.step p s op r s') (n : Nat)
    {procs : Pid → Option (Prog Res Unit)} {prog : Prog Res Unit} {s : σ}
    (hproc : procs p = some prog) (hc : M.Reachable Start init ⟨procs, s⟩) :
    M.Reachable Start init ⟨Function.update procs p (some (prog.advance oracle n s).1),
      (prog.advance oracle n s).2⟩ := by
  have hstay : M.Reachable Start init ⟨Function.update procs p (some prog), s⟩ := by
    rwa [← hproc, Function.update_eq_self]
  induction n generalizing procs prog s with
  | zero => exact hstay
  | succ n ih =>
    cases prog with
    | ret a => exact hstay
    | call op k =>
      unfold Prog.advance
      split
      · exact hstay
      · rename_i r s' hanswer
        have hnext : M.Next Start ⟨procs, s⟩ ⟨Function.update procs p (some (k r)), s'⟩ :=
          Next.act hproc (h s op r s' hanswer)
        have hc' := hc.tail hnext
        have hrest := ih (Function.update_self ..) hc' (by rwa [Function.update_idem])
        rwa [Function.update_idem] at hrest

end Machine

end Autophagy.Effect
