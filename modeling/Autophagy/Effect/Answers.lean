/-
# Autophagy.Effect.Answers — programs whose operations are run in a state, and may fail there.

A `Prog` knows nothing of faults. `Stateful.answer` runs it by a part for each operation, and the fault of an operation
is raised through the rest of the program. `beside` runs a part next to a state that it does not see; `holding` is a
critical section whose lock is given up however its body ends.

`Returning I p` says that `p` keeps `I` where it returns, whatever is left behind where it raises; `returning_eachItem` is
the rule for a loop without a handler.
-/
import Autophagy.Effect.EachItem

namespace Autophagy.Effect.Stateful

variable {Op : Type} {Res : Op → Type} {σ τ ε α β : Type}

/-! ## §1 — Operations in a state -/

/-- The program, where each operation is run by its part. -/
def answer (run : (op : Op) → Stateful σ ε (Res op)) : Prog Res α → Stateful σ ε α
  | .ret a => pure a
  | .call op k => run op >>= fun r => answer run (k r)

theorem answer_bind (run : (op : Op) → Stateful σ ε (Res op)) (p : Prog Res α) (f : α → Prog Res β) :
    answer run (p >>= f) = answer run p >>= fun a => answer run (f a) := by
  induction p with
  | ret a => rfl
  | call op k ih =>
    show (run op >>= fun r => answer run (k r >>= f)) = (run op >>= fun r => answer run (k r)) >>= _
    rw [bind_assoc]
    congr 1
    funext r
    exact ih r

theorem leaves_answer {view : σ → τ} {run : (op : Op) → Stateful σ ε (Res op)} {P : Op → Prop} {p : Prog Res α}
    (hp : p.Only P) (hrun : ∀ op, P op → Leaves view (run op)) : Leaves view (answer run p) := by
  induction p with
  | ret a => exact leaves_pure a
  | call op k ih => exact (hrun op hp.1).bind fun r => ih r (hp.2 r)

/-- The part, next to a state that it does not see. -/
def beside (p : Stateful σ ε α) : Stateful (τ × σ) ε α := fun s => ((p s.2).1, s.1, (p s.2).2)

theorem leaves_beside (p : Stateful σ ε α) : Leaves Prod.fst (beside p : Stateful (τ × σ) ε α) := fun _ => rfl

/-- A critical section: where the lock is not obtained the body does not run, and it is given up behind the body however
that ends. -/
def holding (hold : Stateful σ ε Bool) (release : Stateful σ ε Unit) (refused : α) (body : Stateful σ ε α) :
    Stateful σ ε α := do
  match ← hold with
  | false => pure refused
  | true => do
    let result ← attempt body
    release
    get result

/-! ## §2 — What is kept by a part that returns -/

/-- Where the part returns, `I` still holds. -/
def Returning (I : σ → Prop) (p : Stateful σ ε α) : Prop := ∀ s a s', p s = (.ok a, s') → I s → I s'

variable {I : σ → Prop} {p : Stateful σ ε α} {f : α → Stateful σ ε β}

theorem returning_pure (a : α) : Returning I (pure a : Stateful σ ε α) := by
  rintro s b s' ⟨⟩ hs
  exact hs

theorem returning_raise (fault : ε) : Returning I (raise fault : Stateful σ ε α) := fun _ _ _ h => nomatch h

theorem Leaves.returning {view : σ → τ} {J : τ → Prop} (h : Leaves view p) : Returning (fun s => J (view s)) p := by
  intro s a s' hrun hs
  have hview := h s
  rw [hrun] at hview
  exact hview.symm ▸ hs

theorem Returning.bind (hp : Returning I p) (hf : ∀ a, Returning I (f a)) : Returning I (p >>= f) := by
  intro s b s' hrun hs
  obtain ⟨a, s₁, hfirst, hnext⟩ := of_bind_ok hrun
  exact hf a s₁ b s' hnext (hp s a s₁ hfirst hs)

theorem Returning.holding {hold : Stateful σ ε Bool} {release : Stateful σ ε Unit} {refused : α} (hhold : Returning I hold)
    (hbody : Returning I p) (hrelease : Returning I release) : Returning I (holding hold release refused p) := by
  refine hhold.bind fun owned => ?_
  cases owned with
  | false => exact returning_pure refused
  | true =>
    intro s a s' hrun hs
    obtain ⟨result, s₁, hattempt, hrun⟩ := of_bind_ok hrun
    obtain ⟨_, s₂, hreleased, hrun⟩ := of_bind_ok hrun
    have hresult : (p s).1 = result := Except.ok.inj (Prod.mk.inj hattempt).1
    have hend : p s = (.ok a, s₁) := Prod.ext (hresult.trans (Prod.mk.inj hrun).1) (Prod.mk.inj hattempt).2
    have hkept := hrelease s₁ _ s₂ hreleased (hbody s a s₁ hend hs)
    exact (Prod.mk.inj hrun).2 ▸ hkept

theorem returning_eachItem {ι : Type} {task : ι → Stateful σ ε Unit} (h : ∀ item, Returning I (task item))
    (items : List ι) : Returning I (eachItem task (fun _ => false) items) := by
  induction items with
  | nil => exact returning_pure ()
  | cons item rest ih =>
    intro s _ s' hrun hs
    cases hitem : (task item s).1 with
    | ok _ =>
      rw [eachItem_cons_of_passes fun fault hfault => nomatch hitem.symm.trans hfault] at hrun
      exact ih _ _ _ hrun (h item s () _ (Prod.ext hitem rfl) hs)
    | error fault =>
      rw [eachItem_cons_of_error hitem rfl] at hrun
      exact nomatch hrun

end Autophagy.Effect.Stateful
