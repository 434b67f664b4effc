/-
# Autophagy.Effect.Outcome — how a program ends in a world that always gives the same answer.

Over an oracle a program whose operations may fail has one run. `outcome` is where it ends: the world behind it,
and what it returned or raised, or `none` where the oracle does not answer. The rules follow the program's text.
-/
import Autophagy.Effect.Raise

namespace Autophagy.Effect

namespace Prog

variable {Op : Type} {Res : Op → Type} {α β σ : Type}

theorem runOn_bind (oracle : Oracle Res σ) (p : Prog Res α) (f : α → Prog Res β) (s : σ) : (p >>= f).runOn oracle s =
      match (p.runOn oracle s).2 with
      | some a => (f a).runOn oracle (p.runOn oracle s).1
      | none => ((p.runOn oracle s).1, none) := by
  induction p generalizing s with
  | ret a => rfl
  | call op k ih =>
    rw [call_bind, runOn, runOn]
    cases oracle s op with
    | none => rfl
    | some answer => exact ih answer.1 answer.2

end Prog

namespace Fallible

variable {Op : Type} {Res : Op → Type} {ε α β σ : Type} {oracle : Prog.Oracle (RaisingRes Res ε) σ} {s s' : σ}

/-- Where the program ends, and with what. -/
def outcome (oracle : Prog.Oracle (RaisingRes Res ε) σ) (p : Fallible Res ε α) (s : σ) : σ × Option (Except ε α) :=
  (attempt p).runOn oracle s

@[simp] theorem outcome_ret (a : α) : outcome oracle (.ret a : Fallible Res ε α) s = (s, some (.ok a)) := rfl

@[simp] theorem outcome_raise (fault : ε) :
    outcome oracle (raise fault : Fallible Res ε α) s = (s, some (.error fault)) := rfl

@[simp] theorem outcome_get (x : Except ε α) : outcome oracle (get x : Fallible Res ε α) s = (s, some x) := by
  cases x <;> rfl

theorem outcome_act {op : Op} {r : Except ε (Res op)} (h : oracle s (.op op) = some (r, s')) :
    outcome oracle (act op : Fallible Res ε (Res op)) s = (s', some r) := by
  rw [outcome, attempt_act, Prog.runOn, h]
  rfl

theorem outcome_bind_ok {p : Fallible Res ε α} {f : α → Fallible Res ε β} {a : α}
    (h : outcome oracle p s = (s', some (.ok a))) : outcome oracle (p >>= f) s = outcome oracle (f a) s' := by
  rw [outcome, attempt_bind, Prog.runOn_bind]
  rw [outcome] at h
  rw [h]
  rfl

theorem outcome_bind_error {p : Fallible Res ε α} {f : α → Fallible Res ε β} {fault : ε}
    (h : outcome oracle p s = (s', some (.error fault))) :
    outcome oracle (p >>= f) s = (s', some (.error fault)) := by
  rw [outcome, attempt_bind, Prog.runOn_bind]
  rw [outcome] at h
  rw [h]
  rfl

theorem runOn_of_outcome {p : Fallible Res ε α} {a : α} (h : outcome oracle p s = (s', some (.ok a))) :
    p.runOn oracle s = (s', some a) := by
  induction p generalizing s with
  | ret b =>
    obtain ⟨rfl, hb⟩ := Prod.mk.inj h
    obtain rfl := Except.ok.inj (Option.some.inj hb)
    rfl
  | call op k ih =>
    cases op with
    | raise fault => cases h
    | op o =>
      rw [outcome, attempt, Prog.runOn] at h
      rw [Prog.runOn]
      cases hanswer : oracle s (.op o) with
      | none =>
        rw [hanswer] at h
        cases h
      | some answer =>
        rw [hanswer] at h
        exact ih answer.1 h

end Fallible

end Autophagy.Effect
