import Mathlib.Data.List.Basic

/-!
# Queues that are served from the front

What arrived, what was served and what still waits: served and waiting together are a part of
what arrived, in its order.  Some of what waits may be dropped.
-/

namespace TokenQueue

variable {α : Type*} {arrived served waiting waiting' : List α}

/-- Served and waiting are a part of what arrived, in its order. -/
def InOrder (arrived served waiting : List α) : Prop := (served ++ waiting).Sublist arrived

theorem InOrder.start : InOrder ([] : List α) [] [] := List.Sublist.refl _

theorem InOrder.arrive (h : InOrder arrived served waiting) (x : α) :
    InOrder (arrived ++ [x]) served (waiting ++ [x]) := by
  unfold InOrder
  rw [← List.append_assoc]
  exact h.append (List.Sublist.refl _)

theorem InOrder.serve {x : α} (h : InOrder arrived served (x :: waiting)) :
    InOrder arrived (served ++ [x]) waiting := by
  unfold InOrder
  rw [List.append_assoc]
  exact h

theorem InOrder.drop (h : InOrder arrived served waiting) (hsub : waiting'.Sublist waiting) :
    InOrder arrived served waiting' :=
  ((List.Sublist.refl served).append hsub).trans h

/-- What is served is served in the order of arrival. -/
theorem InOrder.served_sublist (h : InOrder arrived served waiting) : served.Sublist arrived :=
  (List.sublist_append_left served waiting).trans h

/-- Nothing is served twice, when nothing arrives twice. -/
theorem InOrder.served_nodup (h : InOrder arrived served waiting) (hnodup : arrived.Nodup) :
    (served ++ waiting).Nodup :=
  hnodup.sublist h

end TokenQueue
