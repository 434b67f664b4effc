/-
# Autophagy.Registry.Run — runs whose calls meet a condition in the state that they find.

A run folds its calls over a state. What a good call keeps, a good run keeps (`GoodRun.keeps`), from its start and
from every state that it passes through (`GoodRun.drop`).
-/
import Mathlib.Data.List.Basic

namespace Autophagy.Registry

variable {σ α : Type} {step : σ → α → σ} {good : σ → α → Prop} {s : σ}

/-- Every call is good in the state that the calls before it leave. -/
def GoodRun (step : σ → α → σ) (good : σ → α → Prop) (s : σ) (calls : List α) : Prop :=
  ∀ before call later, calls = before ++ call :: later → good (before.foldl step s) call

theorem GoodRun.head {call : α} {calls : List α} (h : GoodRun step good s (call :: calls)) : good s call :=
  h [] call calls rfl

theorem GoodRun.drop {before calls : List α} (h : GoodRun step good s (before ++ calls)) :
    GoodRun step good (before.foldl step s) calls := by
  intro before' call later hsplit
  have hgood := h (before ++ before') call later (by rw [hsplit, List.append_assoc])
  rwa [List.foldl_append] at hgood

theorem GoodRun.tail {call : α} {calls : List α} (h : GoodRun step good s (call :: calls)) :
    GoodRun step good (step s call) calls :=
  @GoodRun.drop _ _ _ _ _ [call] calls h

theorem GoodRun.keeps {P : σ → Prop} (hstep : ∀ s call, good s call → P s → P (step s call)) {calls : List α}
    (h : GoodRun step good s calls) (hs : P s) : P (calls.foldl step s) := by
  induction calls generalizing s with
  | nil => exact hs
  | cons call calls ih => exact ih h.tail (hstep s call h.head hs)

end Autophagy.Registry
