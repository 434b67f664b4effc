/-
# Autophagy.Effect.Concurrent — interleaved programs over one shared world, with crashes.

Any number of processes run `Prog`s over one shared world. A `Machine` says what one operation of one
process does to the world, what the environment may do on its own (`env`), and what is left of a process
that is gone (`halt`: the kernel closing its files, say). A configuration is the programs still running
together with the world; its steps interleave the single operations in every order, start new processes
at any time, and let any process disappear between any two of its operations.

The proof rule is rely–guarantee. A global invariant `I` holds whenever no operation is half done, and
`R p s s'` states what process `p` may rely on while the others run. `Safe` is the obligation of one
program: against every world its rely admits, each of its operations keeps `I` and stays within the rely
of everybody else. `Machine.invariant` then gives `I` in every reachable configuration, with no bound on
the number of processes or of calls.

`Owning` is the rely of a lock: whoever holds it finds the protected part of the world unchanged.
-/
import Autophagy.Effect.Program
import Mathlib.Logic.Function.Basic
import Mathlib.Logic.Relation

namespace Autophagy.Effect

/-! ## §1 — Machines and their configurations -/

/-- What the operations, the environment and the end of a process do to the shared world `σ`. -/
structure Machine {Op : Type} (Res : Op → Type) (Pid σ : Type) where
  step : Pid → StepRel Res σ
  env : σ → σ → Prop
  halt : Pid → σ → σ

/-- The running programs, and the world they share. -/
structure Config {Op : Type} (Res : Op → Type) (Pid σ : Type) where
  procs : Pid → Option (Prog Res Unit)
  state : σ

namespace Prog

variable {Op : Type} {Res : Op → Type} {α : Type}

/-- A program run for its effects only. -/
def void (p : Prog Res α) : Prog Res Unit := p >>= fun _ => .ret ()

end Prog

namespace Machine

variable {Op : Type} {Res : Op → Type} {Pid σ : Type}

section Steps

variable [DecidableEq Pid]

/-- One step of a configuration. `gone` covers the regular end of a program as well as a crash. -/
inductive Next (M : Machine Res Pid σ) (Start : Prog Res Unit → Prop) :
    Config Res Pid σ → Config Res Pid σ → Prop
  | start {c : Config Res Pid σ} (p : Pid) {prog : Prog Res Unit} (hfree : c.procs p = none)
      (hstart : Start prog) : Next M Start c ⟨Function.update c.procs p (some prog), c.state⟩
  | act {c : Config Res Pid σ} {p : Pid} {op : Op} {k : Res op → Prog Res Unit} {r : Res op} {s' : σ}
      (hproc : c.procs p = some (.call op k)) (hstep : M.step p c.state op r s') :
      Next M Start c ⟨Function.update c.procs p (some (k r)), s'⟩
  | gone {c : Config Res Pid σ} {p : Pid} {prog : Prog Res Unit} (hproc : c.procs p = some prog) :
      Next M Start c ⟨Function.update c.procs p none, M.halt p c.state⟩
  | env {c : Config Res Pid σ} {s' : σ} (henv : M.env c.state s') : Next M Start c ⟨c.procs, s'⟩

/-- What can be reached from the world `init` with no process running. -/
def Reachable (M : Machine Res Pid σ) (Start : Prog Res Unit → Prop) (init : σ)
    (c : Config Res Pid σ) : Prop :=
  Relation.ReflTransGen (M.Next Start) ⟨fun _ => none, init⟩ c

end Steps

/-! ## §2 — The rely–guarantee rule -/

section Rule

variable {α β : Type} (M : Machine Res Pid σ) (I : σ → Prop) (R : Pid → σ → σ → Prop)

/-- The obligation of process `p` running a program from `s`, ending in `Q`. -/
def Safe (p : Pid) (Q : α → σ → Prop) : Prog Res α → σ → Prop
  | .ret a, s => Q a s
  | .call op k, s => ∀ s₁, I s₁ → R p s s₁ → ∀ r s₂, M.step p s₁ op r s₂ →
      I s₂ ∧ (∀ q, q ≠ p → R q s₁ s₂) ∧ Safe p Q (k r) s₂

/-- What the rely must be for the rule to apply: a preorder that the end of another process and the
environment respect. -/
structure Contract : Prop where
  refl : ∀ p s, R p s s
  trans : ∀ {p s s₁ s₂}, R p s s₁ → R p s₁ s₂ → R p s s₂
  halt : ∀ p s, I s → I (M.halt p s) ∧ ∀ q, q ≠ p → R q s (M.halt p s)
  env : ∀ {s s'}, I s → M.env s s' → I s' ∧ ∀ q, R q s s'

variable {M I R}

theorem Safe.mono {p : Pid} {Q Q' : α → σ → Prop} {prog : Prog Res α} {s : σ}
    (h : Safe M I R p Q prog s) (hQ : ∀ a s, Q a s → Q' a s) : Safe M I R p Q' prog s := by
  induction prog generalizing s with
  | ret a => exact hQ a s h
  | call op k ih =>
    intro s₁ hI hR r s₂ hs
    obtain ⟨hI₂, hG, hk⟩ := h s₁ hI hR r s₂ hs
    exact ⟨hI₂, hG, ih r hk⟩

theorem Safe.bind {p : Pid} {Q : α → σ → Prop} {Q' : β → σ → Prop} {prog : Prog Res α}
    {f : α → Prog Res β} {s : σ} (h : Safe M I R p Q prog s)
    (hf : ∀ a s, Q a s → Safe M I R p Q' (f a) s) : Safe M I R p Q' (prog >>= f) s := by
  induction prog generalizing s with
  | ret a => exact hf a s h
  | call op k ih =>
    intro s₁ hI hR r s₂ hs
    obtain ⟨hI₂, hG, hk⟩ := h s₁ hI hR r s₂ hs
    exact ⟨hI₂, hG, ih r hk⟩

/-- What a safe program leaves when it runs alone, and what it returns. -/
theorem Safe.ends {p : Pid} {Q : α → σ → Prop} (hrefl : ∀ s, R p s s) {prog : Prog Res α} {s s' : σ}
    {out : Option α} (run : Exec (M.step p) prog s out s') (h : Safe M I R p Q prog s) (hI : I s) :
    I s' ∧ ∀ a, out = some a → Q a s' := by
  induction run with
  | ret a s =>
    refine ⟨hI, ?_⟩
    intro b hb
    obtain rfl := Option.some.inj hb
    exact h
  | stop prog s => exact ⟨hI, nofun⟩
  | call hstep _ ih =>
    obtain ⟨hI₂, -, hk⟩ := h _ hI (hrefl _) _ _ hstep
    exact ih hk hI₂

theorem Safe.sound {p : Pid} {Q : α → σ → Prop} (hrefl : ∀ s, R p s s) {prog : Prog Res α} {s s' : σ}
    {out : Option α} (run : Exec (M.step p) prog s out s') (h : Safe M I R p Q prog s) (hI : I s) : I s' :=
  (Safe.ends hrefl run h hI).1

/-- The invariant of configurations: `I`, and every running program is safe from a world its process
may still rely on. -/
def Fine (M : Machine Res Pid σ) (I : σ → Prop) (R : Pid → σ → σ → Prop)
    (c : Config Res Pid σ) : Prop :=
  I c.state ∧ ∀ p prog, c.procs p = some prog →
    ∃ s, R p s c.state ∧ Safe M I R p (fun _ _ => True) prog s

variable [DecidableEq Pid]

theorem Fine.update (hC : Contract M I R) {c : Config Res Pid σ} (hc : Fine M I R c) {p : Pid}
    {o : Option (Prog Res Unit)} {s' : σ} (hI : I s') (hG : ∀ q, q ≠ p → R q c.state s')
    (hp : ∀ prog, o = some prog → ∃ s, R p s s' ∧ Safe M I R p (fun _ _ => True) prog s) :
    Fine M I R ⟨Function.update c.procs p o, s'⟩ := by
  refine ⟨hI, ?_⟩
  intro q prog hq
  by_cases hqp : q = p
  · subst hqp
    exact hp prog (by simpa using hq)
  · obtain ⟨s, hR, hs⟩ := hc.2 q prog (by simpa [Function.update_of_ne hqp] using hq)
    exact ⟨s, hC.trans hR (hG q hqp), hs⟩

theorem Fine.next {Start : Prog Res Unit → Prop} (hC : Contract M I R) {c c' : Config Res Pid σ}
    (hc : Fine M I R c)
    (hstart : ∀ prog, Start prog → ∀ p, c.procs p = none → Safe M I R p (fun _ _ => True) prog c.state)
    (hnext : M.Next Start c c') : Fine M I R c' := by
  cases hnext with
  | @start p prog hfree hprog =>
    refine hc.update hC hc.1 (fun q _ => hC.refl q _) ?_
    rintro _ ⟨⟩
    exact ⟨c.state, hC.refl p _, hstart prog hprog p hfree⟩
  | @act p op k r s' hproc hstep =>
    obtain ⟨s, hR, hs⟩ := hc.2 p _ hproc
    obtain ⟨hI', hG, hk⟩ := hs c.state hc.1 hR r s' hstep
    refine hc.update hC hI' hG ?_
    rintro _ ⟨⟩
    exact ⟨s', hC.refl p _, hk⟩
  | @gone p prog hproc =>
    obtain ⟨hI', hG⟩ := hC.halt p c.state hc.1
    exact hc.update hC hI' hG (by simp)
  | env henv =>
    obtain ⟨hI', hG⟩ := hC.env hc.1 henv
    refine ⟨hI', ?_⟩
    intro q prog hq
    obtain ⟨s, hR, hs⟩ := hc.2 q prog hq
    exact ⟨s, hC.trans hR (hG q), hs⟩

/-- **The rely–guarantee rule.** If every program that may be started is safe from every world with
the invariant, the invariant holds in every reachable configuration. -/
theorem invariant {Start : Prog Res Unit → Prop} (hC : Contract M I R)
    (hstart : ∀ prog, Start prog → ∀ p s, I s → Safe M I R p (fun _ _ => True) prog s)
    {init : σ} (hinit : I init) {c : Config Res Pid σ} (hc : M.Reachable Start init c) :
    I c.state := by
  have hfine : Fine M I R c := by
    induction hc with
    | refl => exact ⟨hinit, by simp⟩
    | tail _ hnext ih => exact ih.next hC (fun prog hprog p _ => hstart prog hprog p _ ih.1) hnext
  exact hfine.1

/-- What a process that is not running may count on: it holds at the beginning and behind the end of the
process, and nothing the others do takes it away. -/
structure Idle (M : Machine Res Pid σ) (I : σ → Prop) (R : Pid → σ → σ → Prop) (init : σ)
    (Fresh : Pid → σ → Prop) : Prop where
  init : ∀ p, Fresh p init
  halt : ∀ p s, I s → Fresh p (M.halt p s)
  stable : ∀ p s s', Fresh p s → R p s s' → Fresh p s'

theorem Idle.next {Start : Prog Res Unit → Prop} {init : σ} {Fresh : Pid → σ → Prop}
    (hC : Contract M I R) (hidle : Idle M I R init Fresh) {c c' : Config Res Pid σ}
    (hfine : Fine M I R c) (hfresh : ∀ p, c.procs p = none → Fresh p c.state)
    (hnext : M.Next Start c c') : ∀ p, c'.procs p = none → Fresh p c'.state := by
  intro q hq
  cases hnext with
  | @start p prog hfree hprog =>
    by_cases hqp : q = p
    · subst hqp
      simp at hq
    · exact hfresh q (by simpa [Function.update_of_ne hqp] using hq)
  | @act p op k r s' hproc hstep =>
    by_cases hqp : q = p
    · subst hqp
      simp at hq
    · obtain ⟨s, hR, hs⟩ := hfine.2 p _ hproc
      obtain ⟨-, hG, -⟩ := hs c.state hfine.1 hR r s' hstep
      exact hidle.stable q _ _ (hfresh q (by simpa [Function.update_of_ne hqp] using hq)) (hG q hqp)
  | @gone p prog hproc =>
    by_cases hqp : q = p
    · subst hqp
      exact hidle.halt q c.state hfine.1
    · exact hidle.stable q _ _ (hfresh q (by simpa [Function.update_of_ne hqp] using hq))
        ((hC.halt p c.state hfine.1).2 q hqp)
  | env henv => exact hidle.stable q _ _ (hfresh q hq) ((hC.env hfine.1 henv).2 q)

/-- **The rely–guarantee rule, for programs that start afresh.** A program need only be safe from the
worlds its process counts on while it is not running. -/
theorem invariant_of_idle {Start : Prog Res Unit → Prop} {init : σ} {Fresh : Pid → σ → Prop}
    (hC : Contract M I R) (hidle : Idle M I R init Fresh)
    (hstart : ∀ prog, Start prog → ∀ p s, I s → Fresh p s → Safe M I R p (fun _ _ => True) prog s)
    (hinit : I init) {c : Config Res Pid σ} (hc : M.Reachable Start init c) : I c.state := by
  have hall : Fine M I R c ∧ ∀ p, c.procs p = none → Fresh p c.state := by
    induction hc with
    | refl => exact ⟨⟨hinit, by simp⟩, fun p _ => hidle.init p⟩
    | tail _ hnext ih =>
      obtain ⟨hfine, hfresh⟩ := ih
      exact ⟨hfine.next hC (fun prog hprog p hp => hstart prog hprog p _ hfine.1 (hfresh p hp)) hnext,
        hidle.next hC hfine hfresh hnext⟩
  exact hall.1.1

end Rule

/-! ## §3 — Runs of one process at a time -/

section Solo

variable [DecidableEq Pid] {M : Machine Res Pid σ} {Start : Prog Res Unit → Prop} {init : σ}

theorem Reachable.along {p : Pid} {prog : Prog Res Unit} {s s' : σ} {out : Option Unit}
    (run : Exec (M.step p) prog s out s')
    (hc : M.Reachable Start init ⟨Function.update (fun _ => none) p (some prog), s⟩) :
    ∃ prog', M.Reachable Start init ⟨Function.update (fun _ => none) p (some prog'), s'⟩ := by
  induction run with
  | ret a s => exact ⟨_, hc⟩
  | stop prog s => exact ⟨_, hc⟩
  | @call op k r s s₁ s₂ out hstep rest ih =>
    refine ih (hc.tail ?_)
    have hproc : Function.update (fun _ : Pid => none) p (some (Prog.call op k)) p =
        some (.call op k) := Function.update_self ..
    have hnext : M.Next Start ⟨Function.update (fun _ => none) p (some (.call op k)), s⟩ _ :=
      Next.act hproc hstep
    rwa [Function.update_idem] at hnext

theorem Reachable.solo {p : Pid} {prog : Prog Res Unit} {s s' : σ} {out : Option Unit}
    (hc : M.Reachable Start init ⟨fun _ => none, s⟩) (hstart : Start prog)
    (run : Exec (M.step p) prog s out s') :
    M.Reachable Start init ⟨fun _ => none, M.halt p s'⟩ := by
  obtain ⟨prog', hend⟩ := Reachable.along run (hc.tail (Next.start p rfl hstart))
  have hproc : Function.update (fun _ : Pid => none) p (some prog') p = some prog' :=
    Function.update_self ..
  have hnext : M.Next Start ⟨Function.update (fun _ => none) p (some prog'), s'⟩ _ :=
    Next.gone hproc
  rw [Function.update_idem, Function.update_eq_self_iff.mpr rfl] at hnext
  exact hend.tail hnext

end Solo

/-! ## §4 — The rely of a lock -/

section Lock

variable {τ : Type}

/-- The rely of a lock: while `p` holds it, it keeps it and the protected part `shared` of the world
stays as it is. -/
def Owning (holder : σ → Option Pid) (shared : σ → τ) (p : Pid) (s s' : σ) : Prop :=
  holder s = some p → holder s' = some p ∧ shared s' = shared s

variable {holder : σ → Option Pid} {shared : σ → τ} {p : Pid}

theorem owning_refl (s : σ) : Owning holder shared p s s := fun h => ⟨h, rfl⟩

theorem Owning.trans {s s₁ s₂ : σ} (h : Owning holder shared p s s₁)
    (h' : Owning holder shared p s₁ s₂) : Owning holder shared p s s₂ := by
  intro hs
  obtain ⟨h₁, e₁⟩ := h hs
  obtain ⟨h₂, e₂⟩ := h' h₁
  exact ⟨h₂, e₂.trans e₁⟩

theorem owning_of_holder {q : Pid} {s s' : σ} (hs : holder s = some p) (hqp : q ≠ p) : Owning holder shared q s s' := by
  intro hq
  rw [hs] at hq
  exact absurd (Option.some.inj hq).symm hqp

/-- **The critical section.** While `p` holds the lock it reasons sequentially: the world an operation
meets has the invariant, the lock, and the protected part it was left with. -/
theorem Safe.owned {α : Type} {M : Machine Res Pid σ} {I : σ → Prop} {Q : α → σ → Prop} (op : Op)
    {k : Res op → Prog Res α} {s : σ} (hs : holder s = some p)
    (hk : ∀ s₁, I s₁ → holder s₁ = some p → shared s₁ = shared s → ∀ r s₂, M.step p s₁ op r s₂ →
      I s₂ ∧ Safe M I (Owning holder shared) p Q (k r) s₂) :
    Safe M I (Owning holder shared) p Q (.call op k) s := by
  intro s₁ hI hR r s₂ hstep
  obtain ⟨h₁, e₁⟩ := hR hs
  obtain ⟨hI₂, hsafe⟩ := hk s₁ hI h₁ e₁ r s₂ hstep
  exact ⟨hI₂, fun q hqp => owning_of_holder h₁ hqp, hsafe⟩

end Lock

end Machine

end Autophagy.Effect
