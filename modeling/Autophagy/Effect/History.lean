/-
# Autophagy.Effect.History — histories of programs whose operations may fail.

The history of a program is the state of a machine that only records. There the rules for handlers apply, and
`Ordered G` is the invariant: a part whose operations `G` always allows keeps every fact about the past
(`handles_free`), a guarded operation needs its guard (`handles_recorded`), and what the rules give holds of every
history (`ordered_of_handles`).
-/
import Autophagy.Effect.Ordered
import Autophagy.Effect.Raise

namespace Autophagy.Effect

open Machine

variable {Op : Type} {Res : Op → Type} {ε α : Type}
variable {G : List (Event (RaisingRes Res ε)) → Event (RaisingRes Res ε) → Prop}
variable {Q : α → List (Event (RaisingRes Res ε)) → Prop} {E : ε → List (Event (RaisingRes Res ε)) → Prop}

/-- The obligation of a part of a program, in terms of the history. -/
abbrev Records (G : List (Event (RaisingRes Res ε)) → Event (RaisingRes Res ε) → Prop)
    (Q : α → List (Event (RaisingRes Res ε)) → Prop) (E : ε → List (Event (RaisingRes Res ε)) → Prop)
    (prog : Fallible Res ε α) (h : List (Event (RaisingRes Res ε))) : Prop :=
  Handles (solo recorded) (Ordered G) (fun _ => Eq) () Q E prog h

theorem handles_recorded {op : Op} {Q : Res op → List (Event (RaisingRes Res ε)) → Prop}
    {h : List (Event (RaisingRes Res ε))} (hG : ∀ r, G h ⟨.op op, r⟩)
    (hQ : ∀ r, Either Q E r (h ++ [⟨.op op, r⟩])) : Records G Q E (Fallible.act op) h := by
  refine Handles.act ?_
  rintro _ ho rfl r _ rfl
  exact ⟨ordered_snoc.mpr ⟨ho, hG r⟩, fun _ hq => absurd rfl hq, hQ r⟩

/-- A fact about the past lasts. -/
def Lasts (K : List (Event (RaisingRes Res ε)) → Prop) : Prop := ∀ h e, K h → K (h ++ [e])

theorem handles_free {P : Op → Prop} {K : List (Event (RaisingRes Res ε)) → Prop} {prog : Fallible Res ε α}
    (hfree : ∀ op, P op → ∀ h r, G h ⟨.op op, r⟩) (hp : Fallible.Performs P prog) (hK : Lasts K)
    {h : List (Event (RaisingRes Res ε))} (hh : K h) : Records G (fun _ => K) (fun _ => K) prog h := by
  refine Handles.of_performs hp (fun _ _ hs heq => heq ▸ hs) ?_ hh
  rintro op hop s r _ ho hs rfl
  exact ⟨ordered_snoc.mpr ⟨ho, hfree op hop s r⟩, fun _ hq => absurd rfl hq, hK s _ hs⟩

theorem ordered_of_handles {prog : Fallible Res ε α} (h : Records G Q E prog [])
    {trace : List (Event (RaisingRes Res ε))} {out : Option α} (run : Runs prog trace out) : Ordered G trace :=
  Safe.sound (M := solo recorded) (p := ()) (fun _ => rfl) (run.exec []) h.safe ordered_nil

end Autophagy.Effect
