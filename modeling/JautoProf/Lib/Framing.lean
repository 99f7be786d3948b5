import Mathlib.Tactic.Common
import Mathlib.Data.List.Basic

/-!
# Prefix-free encodings

An encoding that can be split off the front of any longer string makes a stream of encoded
items unambiguous: there is one way to cut it.

Results:
1. `PrefixFree.flatMap`: two ways to cut a stream agree as far as both go.
-/

namespace JautoProf

variable {α β : Type}

/-- The encodings of the items with `P` can be split off the front. -/
def PrefixFree (P : α → Prop) (enc : α → List β) : Prop :=
  ∀ a b, P a → P b → ∀ s t, enc a ++ s = enc b ++ t → a = b ∧ s = t

variable {P : α → Prop} {enc : α → List β}

/-- Of two ways to cut a stream, one goes on where the other one stops. -/
theorem PrefixFree.flatMap (h : PrefixFree P enc) {xs ys : List α} {s t : List β}
    (hxs : ∀ a ∈ xs, P a) (hys : ∀ a ∈ ys, P a)
    (heq : xs.flatMap enc ++ s = ys.flatMap enc ++ t) :
    (∃ zs, ys = xs ++ zs ∧ s = zs.flatMap enc ++ t) ∨
      ∃ zs, xs = ys ++ zs ∧ t = zs.flatMap enc ++ s := by
  induction xs generalizing ys with
  | nil => exact .inl ⟨ys, rfl, heq⟩
  | cons x xs ih =>
    cases ys with
    | nil => exact .inr ⟨x :: xs, rfl, heq.symm⟩
    | cons y ys =>
      rw [List.forall_mem_cons] at hxs hys
      rw [List.flatMap_cons, List.flatMap_cons, List.append_assoc, List.append_assoc] at heq
      obtain ⟨rfl, htail⟩ := h x y hxs.1 hys.1 _ _ heq
      rcases ih hxs.2 hys.2 htail with ⟨zs, rfl, hs⟩ | ⟨zs, rfl, ht⟩
      · exact .inl ⟨zs, rfl, hs⟩
      · exact .inr ⟨zs, rfl, ht⟩

end JautoProf
