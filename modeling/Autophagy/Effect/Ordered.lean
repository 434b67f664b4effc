/-
# Autophagy.Effect.Ordered — rules for histories in which few operations are guarded.

`Ordered G` asks of every event of a history that `G` allowed it. Where `G` speaks only about a few
operations, the rest of a program passes through it: `Free G P` says that `G` always allows the operations
that satisfy `P`, and the rules below follow a program from one guarded operation to the next.
-/
import Autophagy.Effect.Handler

namespace Autophagy.Effect

variable {Op : Type} {Res : Op → Type} {α β : Type}

/-- `G` always allows the operations that satisfy `P`. -/
def Free (G : List (Event Res) → Event Res → Prop) (P : Op → Prop) : Prop :=
  ∀ op, P op → ∀ h r, G h ⟨op, r⟩

namespace Free

variable {G : List (Event Res) → Event Res → Prop} {P : Op → Prop} {h : List (Event Res)}
  {Q : β → List (Event Res) → Prop}

theorem part (hfree : Free G P) {p : Prog Res α} {f : α → Prog Res β} (hp : p.Only P) (ho : Ordered G h)
    (hf : ∀ a h', Ordered G h' → h <+: h' → Always recorded (Ordered G) Q (f a) h') :
    Always recorded (Ordered G) Q (p >>= f) h :=
  (Always.of_only hp hfree ho).bind hf

theorem rest (hfree : Free G P) {p : Prog Res α} (hp : p.Only P) (ho : Ordered G h) :
    Always recorded (Ordered G) (fun _ _ => True) p h :=
  (Always.of_only hp hfree ho).mono (fun _ hI => hI) fun _ _ _ _ => trivial

theorem perform (hfree : Free G P) {op : Op} {f : Res op → Prog Res β} (hop : P op) (ho : Ordered G h)
    (hf : ∀ r, Ordered G (h ++ [⟨op, r⟩]) → Always recorded (Ordered G) Q (f r) (h ++ [⟨op, r⟩])) :
    Always recorded (Ordered G) Q (Prog.perform op >>= f) h :=
  Always.guarded op ho (hfree op hop h) hf

theorem stuck (hfree : Free G P) {op : Op} {k : Res op → Prog Res β} (hop : P op) (ho : Ordered G h)
    (hnone : Res op → False) : Always recorded (Ordered G) Q (.call op k) h :=
  Always.guarded op ho (hfree op hop h) fun r => (hnone r).elim

end Free

theorem mem_recorded (h : List (Event Res)) (e : Event Res) : e ∈ h ++ [e] :=
  List.mem_append_right h (List.mem_singleton_self e)

end Autophagy.Effect
