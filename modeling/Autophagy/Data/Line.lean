/-
# Autophagy.Data.Line — a waiting line whose entries are groups.

What a first-in-first-out queue with merging is for, over arbitrary items. An item that arrives either joins the
group that stands last or makes a group of its own; an item can be put back in front of everything that waits;
and the group in front is taken.

`Line.conserved` says that nothing is lost or doubled: what was taken and what waits are the items that came in.
`Line.arranged` says that those which did not come in at the front stand in the order in which they came.
-/
import Mathlib.Data.List.Induction
import Mathlib.Data.List.Perm.Basic

namespace Autophagy.Data

variable {α : Type}

/-- What is asked of a line. -/
inductive Request (α : Type)
  | join (a : α)
  | append (a : α)
  | putFront (a : α)
  | take
  deriving DecidableEq

/-- The item a request brings. -/
def Request.item : Request α → Option α
  | .join a => some a
  | .append a => some a
  | .putFront a => some a
  | .take => none

/-- The item a request brings to the end of the line. -/
def Request.arrival : Request α → Option α
  | .join a => some a
  | .append a => some a
  | .putFront _ => none
  | .take => none

/-- The groups that were taken, in order, and those that wait. -/
structure Line (α : Type) where
  taken : List (List α)
  waiting : List (List α)
  deriving DecidableEq

namespace Line

/-- The groups with the item in the last one; in an empty line it makes one. -/
def joinLast (a : α) : List (List α) → List (List α)
  | [] => [[a]]
  | [group] => [group ++ [a]]
  | group :: next :: groups => group :: joinLast a (next :: groups)

/-- The line behind a request. -/
def step (line : Line α) : Request α → Line α
  | .join a => { line with waiting := joinLast a line.waiting }
  | .append a => { line with waiting := line.waiting ++ [[a]] }
  | .putFront a => { line with waiting := [a] :: line.waiting }
  | .take => ⟨line.taken ++ line.waiting.take 1, line.waiting.drop 1⟩

/-- The line behind a list of requests. -/
def run (line : Line α) (requests : List (Request α)) : Line α := requests.foldl step line

/-- Every item that came in, from the one taken first to the one that stands last. -/
def items (line : Line α) : List α := (line.taken ++ line.waiting).flatten

def empty : Line α := ⟨[], []⟩

@[simp] theorem run_nil (line : Line α) : line.run [] = line := rfl

@[simp] theorem run_cons (line : Line α) (request : Request α) (requests : List (Request α)) :
    line.run (request :: requests) = (line.step request).run requests := rfl

theorem run_append (line : Line α) (requests more : List (Request α)) :
    line.run (requests ++ more) = (line.run requests).run more :=
  List.foldl_append

theorem run_snoc (line : Line α) (requests : List (Request α)) (request : Request α) :
    line.run (requests ++ [request]) = (line.run requests).step request := by
  rw [run_append]
  rfl

theorem joinLast_snoc (a : α) (groups : List (List α)) (group : List α) :
    joinLast a (groups ++ [group]) = groups ++ [group ++ [a]] := by
  induction groups with
  | nil => rfl
  | cons first groups ih =>
    cases groups with
    | nil => rfl
    | cons next groups =>
      show first :: joinLast a (next :: groups ++ [group]) = _
      rw [ih]
      rfl

theorem flatten_joinLast (a : α) (groups : List (List α)) : (joinLast a groups).flatten = groups.flatten ++ [a] := by
  rcases List.eq_nil_or_concat groups with rfl | ⟨front, group, rfl⟩
  · rfl
  · rw [List.concat_eq_append, joinLast_snoc]
    simp

theorem items_step (line : Line α) (request : Request α) : (line.step request).items =
      match request with
      | .join a => line.items ++ [a]
      | .append a => line.items ++ [a]
      | .putFront a => line.taken.flatten ++ a :: line.waiting.flatten
      | .take => line.items := by
  cases request with
  | join a => simp [step, items, flatten_joinLast]
  | append a => simp [step, items]
  | putFront a => simp [step, items]
  | take =>
    simp only [step, items]
    rw [List.append_assoc, List.take_append_drop]

/-- **Nothing is lost or doubled.** -/
theorem conserved (requests : List (Request α)) :
    ((empty : Line α).run requests).items.Perm (requests.filterMap Request.item) := by
  induction requests using List.reverseRecOn with
  | nil => exact List.Perm.refl []
  | append_singleton requests request ih =>
    rw [run_snoc, items_step, List.filterMap_append]
    cases request with
    | join a => exact ih.append_right [a]
    | append a => exact ih.append_right [a]
    | putFront a =>
      refine List.perm_middle.trans ?_
      rw [← List.flatten_append]
      exact (List.Perm.cons a ih).trans (List.perm_append_singleton a _).symm
    | take =>
      rw [List.filterMap_cons_none rfl, List.filterMap_nil, List.append_nil]
      exact ih

/-- **What comes in at the end stays in order.** -/
theorem arranged (requests : List (Request α)) :
    (requests.filterMap Request.arrival).Sublist ((empty : Line α).run requests).items := by
  induction requests using List.reverseRecOn with
  | nil => exact List.Sublist.refl []
  | append_singleton requests request ih =>
    rw [run_snoc, items_step, List.filterMap_append]
    cases request with
    | join a => exact ih.append (List.Sublist.refl [a])
    | append a => exact ih.append (List.Sublist.refl [a])
    | putFront a =>
      rw [List.filterMap_cons_none rfl, List.filterMap_nil, List.append_nil]
      refine ih.trans ?_
      rw [items, List.flatten_append]
      exact List.Sublist.append (List.Sublist.refl _) (List.sublist_cons_self a _)
    | take =>
      rw [List.filterMap_cons_none rfl, List.filterMap_nil, List.append_nil]
      exact ih

end Line

end Autophagy.Data
