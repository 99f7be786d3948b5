import Mathlib.Tactic.Common

/-!
# Singly linked lists that share their cells

`next` is the link field of the cells, over any type of pointers. Several lists can use the
same field, each entered at a pointer of its own.

Results:
1. `Chain.cons`, `Chain.snoc`: a cell before the first, and one after the last.
2. `Chain.congr`: a chain depends on the links of its own cells only.
3. `Chain.follow`: what is reached after a number of links.
-/

namespace JautoProf

variable {P : Type}

/-- The cells of `l` are linked in order: the first is entered at `s`, the last leads to `t`. -/
def Chain (next : P → Option P) : Option P → List P → Option P → Prop
  | s, [], t => s = t
  | s, i :: l, t => s = some i ∧ Chain next (next i) l t

/-- What is reached after a number of links. -/
def follow (next : P → Option P) : Nat → Option P → Option P
  | 0, s => s
  | n + 1, s => follow next n (s.bind next)

/-- No cell is reached twice from `s`. -/
def ReachedOnce (next : P → Option P) (s : Option P) : Prop :=
  ∀ m n i, follow next m s = some i → follow next n s = some i → m = n

/-- No cell is reached from both. -/
def Apart (next : P → Option P) (s t : Option P) : Prop :=
  ∀ m n i, follow next m s = some i → follow next n t ≠ some i

variable {next next' : P → Option P} {s t : Option P} {l l' : List P} {i j : P}

theorem chain_append :
    Chain next s (l ++ l') t ↔ ∃ u, Chain next s l u ∧ Chain next u l' t := by
  induction l generalizing s with
  | nil => simp [Chain]
  | cons i l ih =>
    rw [List.cons_append, Chain, ih]
    constructor
    · rintro ⟨hs, u, hl, hl'⟩
      exact ⟨u, ⟨hs, hl⟩, hl'⟩
    · rintro ⟨u, ⟨hs, hl⟩, hl'⟩
      exact ⟨hs, u, hl, hl'⟩

theorem Chain.congr (h : Chain next s l t) (hnext : ∀ i ∈ l, next' i = next i) :
    Chain next' s l t := by
  induction l generalizing s with
  | nil => exact h
  | cons i l ih =>
    refine ⟨h.1, ?_⟩
    rw [hnext i List.mem_cons_self]
    exact ih h.2 fun j hj => hnext j (List.mem_cons_of_mem i hj)

theorem Chain.cons (h : Chain next s l t) (hi : next' i = s)
    (hnext : ∀ j ∈ l, next' j = next j) : Chain next' (some i) (i :: l) t :=
  ⟨rfl, hi ▸ h.congr hnext⟩

/-- The last cell gets a cell after it. -/
theorem Chain.snoc (h : Chain next s (l ++ [j]) t) (hj : next' j = some i) (hi : next' i = t)
    (hnext : ∀ k ∈ l, next' k = next k) : Chain next' s (l ++ [j] ++ [i]) t := by
  obtain ⟨u, hl, hu, -⟩ := chain_append.mp h
  rw [List.append_assoc]
  exact chain_append.mpr ⟨u, hl.congr hnext, hu, hj, hi⟩

/-! ## What is reached -/

theorem follow_none (n : Nat) : follow next n none = none := by
  induction n with
  | zero => rfl
  | succ n ih => exact ih

theorem Chain.follow (h : Chain next s l none) (n : Nat) : follow next n s = l[n]? := by
  induction l generalizing s n with
  | nil =>
    rw [show s = none from h, follow_none, List.getElem?_nil]
  | cons i l ih =>
    obtain ⟨rfl, hl⟩ := h
    cases n with
    | zero => rfl
    | succ n => exact ih hl n

theorem Chain.reachedOnce (h : Chain next s l none) (hnd : l.Nodup) : ReachedOnce next s := by
  intro m n i hm hn
  rw [h.follow] at hm hn
  obtain ⟨hlt, -⟩ := List.getElem?_eq_some_iff.mp hm
  exact (List.getElem?_inj hlt hnd).mp (hm.trans hn.symm)

theorem Chain.apart (h : Chain next s l none) (h' : Chain next t l' none)
    (hdisj : List.Disjoint l l') : Apart next s t := by
  intro m n i hm hn
  rw [h.follow] at hm
  rw [h'.follow] at hn
  exact hdisj (List.mem_of_getElem? hm) (List.mem_of_getElem? hn)

end JautoProf
