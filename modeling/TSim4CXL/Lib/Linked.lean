/-
  Doubly linked lists in a heap: nodes of any type, two link fields, and the list of nodes they
  connect.

  `Linked.neighbours` reads both links of a node off the list, wherever it is cut; `Linked.push`
  puts a fresh node in front.
-/
import Mathlib.Data.List.Basic

variable {α : Type*}

/-- The links connect the nodes of the list in its order; the link back from the first one is `p`,
    and nothing follows the last one. -/
def Linked (next prev : α → Option α) : Option α → List α → Prop
  | _, [] => True
  | p, x :: xs => prev x = p ∧ next x = xs.head? ∧ Linked next prev (some x) xs

namespace Linked

variable {next prev next' prev' : α → Option α}

/-- The links of a node lead to its neighbours. -/
theorem neighbours {p : Option α} {xs : List α} {x : α} {ys : List α}
    (h : Linked next prev p (xs ++ x :: ys)) :
    prev x = xs.getLast?.or p ∧ next x = ys.head? := by
  induction xs generalizing p with
  | nil => exact ⟨h.1, h.2.1⟩
  | cons y xs ih =>
      obtain ⟨hprev, hnext⟩ := ih h.2.2
      refine ⟨hprev.trans ?_, hnext⟩
      cases hx : xs.getLast? <;> simp [List.getLast?_cons, hx]

/-- Only the links of its nodes matter to a list. -/
theorem congr {p : Option α} {xs : List α} (h : Linked next prev p xs)
    (hnext : ∀ x ∈ xs, next' x = next x) (hprev : ∀ x ∈ xs, prev' x = prev x) :
    Linked next' prev' p xs := by
  induction xs generalizing p with
  | nil => exact h
  | cons x xs ih =>
      exact ⟨(hprev x (.head _)).trans h.1, (hnext x (.head _)).trans h.2.1,
        ih h.2.2 (fun y hy => hnext y (.tail _ hy)) fun y hy => hprev y (.tail _ hy)⟩

/-- A node linked in front of the others. -/
theorem push {e : α} {xs : List α} (h : Linked next prev none xs) (hnodup : xs.Nodup)
    (he : next' e = xs.head? ∧ prev' e = none) (hnext : ∀ x ∈ xs, next' x = next x)
    (hfront : ∀ x, xs.head? = some x → prev' x = some e)
    (hprev : ∀ x ∈ xs, xs.head? ≠ some x → prev' x = prev x) :
      Linked next' prev' none (e :: xs) := by
  refine ⟨he.2, he.1, ?_⟩
  cases xs with
  | nil => trivial
  | cons x xs =>
      refine ⟨hfront x rfl, (hnext x (.head _)).trans h.2.1, h.2.2.congr
        (fun y hy => hnext y (.tail _ hy)) fun y hy => hprev y (.tail _ hy) fun heq => ?_⟩
      cases heq
      exact (List.nodup_cons.mp hnodup).1 hy

end Linked
