import Mathlib.Data.List.Induction
import Mathlib.Tactic.Common

/-!
# Nested sequences

Sequences of openings and closings, each with a value, such as the calls and returns of a
thread. `Nested n l ps` says that the sequence `l` is properly nested, that `n` openings in
it are not closed, and that `ps` are its outermost pairs, those that stand in no other pair
and behind no unclosed opening.

Results:
1. `Closed.append`: closed sequences one behind the other are closed.
2. `nested_of_balanced`: a sequence is nested when no prefix has more closings than openings.
-/

namespace JautoProf.Nesting

variable {α : Type}

inductive Event (α : Type)
  | opens (a : α)
  | closes (a : α)

def Event.isOpening : Event α → Bool
  | opens _ => true
  | closes _ => false

/-- Every opening is closed and every closing closes one; with the outermost pairs in order. -/
inductive Closed : List (Event α) → List (α × α) → Prop
  | nil : Closed [] []
  | pair {l l' : List (Event α)} {ps ps' : List (α × α)} (a b : α) (h : Closed l ps)
      (h' : Closed l' ps') : Closed (.opens a :: (l ++ .closes b :: l')) ((a, b) :: ps')

/-- A closed sequence, and behind it openings that are not closed, with what is in them. -/
inductive Nested : Nat → List (Event α) → List (α × α) → Prop
  | closed {l : List (Event α)} {ps : List (α × α)} (h : Closed l ps) : Nested 0 l ps
  | inside {n : Nat} {l l' : List (Event α)} {ps ps' : List (α × α)} (a : α) (h : Closed l ps)
      (h' : Nested n l' ps') : Nested (n + 1) (l ++ .opens a :: l') ps

variable {n : Nat} {l l' : List (Event α)} {ps ps' : List (α × α)}

theorem Closed.append (h : Closed l ps) (h' : Closed l' ps') : Closed (l ++ l') (ps ++ ps') := by
  induction h with
  | nil => exact h'
  | pair a b h _ _ ih =>
    rw [List.cons_append, List.append_assoc, List.cons_append]
    exact .pair a b h ih

theorem Nested.opens (h : Nested n l ps) (a : α) : Nested (n + 1) (l ++ [.opens a]) ps := by
  induction h with
  | closed h => exact .inside a h (.closed .nil)
  | inside a' h _ ih =>
    rw [List.append_assoc, List.cons_append]
    exact .inside a' h ih

theorem Nested.closes (h : Nested (n + 1) l ps) (b : α) :
    ∃ ps', Nested n (l ++ [.closes b]) ps' := by
  generalize hm : n + 1 = m at h
  induction h generalizing n with
  | closed => cases hm
  | @inside m l l' ps ps' a h h' ih =>
    obtain rfl := Nat.succ.inj hm
    rw [List.append_assoc, List.cons_append]
    cases n with
    | zero =>
      cases h' with
      | closed h' => exact ⟨ps ++ [(a, b)], .closed (h.append (.pair a b h' .nil))⟩
    | succ n =>
      obtain ⟨ps'', hrest⟩ := ih rfl
      exact ⟨ps, .inside a h hrest⟩

/-! ## Counting -/

def openings (l : List (Event α)) : Nat := l.countP Event.isOpening

def closings (l : List (Event α)) : Nat := l.countP fun e => !e.isOpening

@[simp] theorem openings_nil : openings ([] : List (Event α)) = 0 := rfl

@[simp] theorem closings_nil : closings ([] : List (Event α)) = 0 := rfl

@[simp] theorem openings_opens (a : α) (l : List (Event α)) :
    openings (.opens a :: l) = openings l + 1 := List.countP_cons_of_pos rfl

@[simp] theorem openings_closes (a : α) (l : List (Event α)) :
    openings (.closes a :: l) = openings l := List.countP_cons_of_neg Bool.false_ne_true

@[simp] theorem closings_opens (a : α) (l : List (Event α)) :
    closings (.opens a :: l) = closings l := List.countP_cons_of_neg Bool.false_ne_true

@[simp] theorem closings_closes (a : α) (l : List (Event α)) :
    closings (.closes a :: l) = closings l + 1 := List.countP_cons_of_pos rfl

@[simp] theorem openings_append (l l' : List (Event α)) :
    openings (l ++ l') = openings l + openings l' := List.countP_append

@[simp] theorem closings_append (l l' : List (Event α)) :
    closings (l ++ l') = closings l + closings l' := List.countP_append

/-- No prefix has more closings than openings. -/
def Balanced (l : List (Event α)) : Prop := ∀ pre, pre <+: l → closings pre ≤ openings pre

theorem Closed.count (h : Closed l ps) : openings l = closings l := by
  induction h with
  | nil => rfl
  | pair a b _ _ ih ih' =>
    simp only [openings_opens, openings_append, openings_closes, closings_opens, closings_append,
      closings_closes]
    omega

theorem Nested.count (h : Nested n l ps) : openings l = closings l + n := by
  induction h with
  | closed h => exact h.count
  | inside a h _ ih =>
    have := h.count
    simp only [openings_opens, openings_append, closings_opens, closings_append]
    omega

/-- A sequence none of whose prefixes has more closings than openings is nested. -/
theorem nested_of_balanced (h : Balanced l) : ∃ n ps, Nested n l ps := by
  induction l using List.reverseRecOn with
  | nil => exact ⟨0, [], .closed .nil⟩
  | append_singleton l e ih =>
    obtain ⟨n, ps, hl⟩ := ih fun pre hpre => h pre (hpre.trans (List.prefix_append l [e]))
    cases e with
    | opens a => exact ⟨n + 1, ps, hl.opens a⟩
    | closes b =>
      have hle := h _ (List.prefix_refl _)
      have hcount := hl.count
      simp only [openings_append, closings_append, openings_closes, closings_closes, openings_nil,
        closings_nil] at hle
      cases n with
      | zero => omega
      | succ n =>
        obtain ⟨ps', hl'⟩ := hl.closes b
        exact ⟨n, ps', hl'⟩

end JautoProf.Nesting
