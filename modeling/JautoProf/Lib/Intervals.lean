import Mathlib.Algebra.BigOperators.Group.List.Basic
import Mathlib.Algebra.Group.Basic
import Mathlib.Order.Lattice
import Mathlib.Tactic.Common

/-!
# The intervals of a series

The intervals of a list are its neighbours. What a quantity changes by over the intervals adds up
to what it changes by over the whole list, and a series that rises is split at each of its
elements by two windows that share it.

Results:
1. `sum_intervals`: the changes over the intervals add up.
2. `filter_le_split`, `filter_ge_split`: the two windows.
-/

namespace JautoProf

variable {α β : Type}

/-- The elements of a list with their successors. -/
def intervals (l : List α) : List (α × α) := l.zip l.tail

@[simp] theorem intervals_cons_cons (a b : α) (l : List α) :
    intervals (a :: b :: l) = (a, b) :: intervals (b :: l) := rfl

theorem intervals_append (a b : List α) (x : α) :
    intervals (a ++ x :: b) = intervals (a ++ [x]) ++ intervals (x :: b) := by
  induction a with
  | nil => rfl
  | cons y a ih =>
    cases a with
    | nil => rfl
    | cons z a =>
      rw [List.cons_append, List.cons_append, intervals_cons_cons, ← List.cons_append, ih]
      rfl

theorem sum_intervals [AddCommGroup β] (f : α → β) (a : α) (l : List α) :
    ((intervals (a :: l)).map fun p => f p.2 - f p.1).sum =
      f ((a :: l).getLast (List.cons_ne_nil a l)) - f a := by
  induction l generalizing a with
  | nil => exact (sub_self (f a)).symm
  | cons b l ih =>
    rw [intervals_cons_cons, List.map_cons, List.sum_cons, ih, List.getLast_cons_cons, add_comm]
    exact sub_add_sub_cancel _ _ _

/-- What holds of every two elements in order holds of an interval. -/
theorem rel_of_mem_intervals {R : α → α → Prop} {l : List α} (h : l.Pairwise R) {p : α × α}
    (hp : p ∈ intervals l) : R p.1 p.2 := by
  induction l with
  | nil => cases hp
  | cons a l ih =>
    cases l with
    | nil => cases hp
    | cons b l =>
      rw [intervals_cons_cons] at hp
      rcases List.mem_cons.mp hp with rfl | hp
      · exact List.rel_of_pairwise_cons h List.mem_cons_self
      · exact ih (List.Pairwise.of_cons h) hp

section Split

variable [LinearOrder β] {f : α → β} {a b : List α} {x : α}

theorem filter_le_split (h : (a ++ x :: b).Pairwise fun y z => f y < f z) :
    (a ++ x :: b).filter (fun y => f y ≤ f x) = a ++ [x] := by
  obtain ⟨-, hxb, hax⟩ := List.pairwise_append.mp h
  have ha : a.filter (fun y => f y ≤ f x) = a :=
    List.filter_eq_self.mpr fun y hy => decide_eq_true (le_of_lt (hax y hy x List.mem_cons_self))
  have hb : b.filter (fun y => f y ≤ f x) = [] :=
    List.filter_eq_nil_iff.mpr fun y hy => by
      simpa using List.rel_of_pairwise_cons hxb hy
  rw [List.filter_append, ha, List.filter_cons_of_pos (by simp), hb]

theorem filter_ge_split (h : (a ++ x :: b).Pairwise fun y z => f y < f z) :
    (a ++ x :: b).filter (fun y => f x ≤ f y) = x :: b := by
  obtain ⟨-, hxb, hax⟩ := List.pairwise_append.mp h
  have ha : a.filter (fun y => f x ≤ f y) = [] :=
    List.filter_eq_nil_iff.mpr fun y hy => by
      simpa using hax y hy x List.mem_cons_self
  have hb : b.filter (fun y => f x ≤ f y) = b :=
    List.filter_eq_self.mpr fun y hy =>
      decide_eq_true (le_of_lt (List.rel_of_pairwise_cons hxb hy))
  rw [List.filter_append, ha, List.filter_cons_of_pos (by simp), hb, List.nil_append]

end Split

end JautoProf
