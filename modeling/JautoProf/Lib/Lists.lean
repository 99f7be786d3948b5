import Mathlib.Tactic.Common

/-!
# Erasing and counting matches

Facts about `List.eraseP` and `List.find?` beside a filter: a list of records of several
owners, read one owner at a time. How many elements match one of several predicates, or lie in
one of two parts of the list, is bounded by the counts of each.

Results:
1. `filter_eraseP`: erasing the first match erases it in its owner's part only.
2. `find?_filter`: the first match of the list is the first match of its owner's part.
3. `eraseP_append_self_iff`, `eraseP_eraseP_append_iff`: what was appended is what erasing
   takes back exactly when nothing before it matches.
4. `eraseP_eq_filter_iff`, `eraseP_eraseP_eq_filter_iff`: the elements of one owner are what
   erasing takes exactly when each first match is the owner's.
5. `countP_slices`, `countP_any_range_le`: counts of two parts, and of several predicates.
-/

namespace JautoProf.Lists

variable {α : Type} {p r : α → Bool}

/-- The first match of the list, when the filter keeps it, is the first match of the rest. -/
theorem find?_filter {l : List α} {x : α} (h : l.find? p = some x) (hr : r x = true) :
    (l.filter r).find? p = some x := by
  induction l with
  | nil => cases h
  | cons a l ih =>
    rw [List.find?_cons] at h
    cases hpa : p a with
    | true =>
      rw [hpa] at h
      cases h
      rw [List.filter_cons_of_pos hr, List.find?_cons, hpa]
    | false =>
      rw [hpa] at h
      by_cases hra : r a = true
      · rw [List.filter_cons_of_pos hra, List.find?_cons, hpa]
        exact ih h
      · rw [List.filter_cons_of_neg hra]
        exact ih h

/-- Erasing the first match changes what the filter keeps only when it keeps that match. -/
theorem filter_eraseP {l : List α} {x : α} (h : l.find? p = some x) :
    (l.eraseP p).filter r = if r x then (l.filter r).eraseP p else l.filter r := by
  induction l with
  | nil => cases h
  | cons a l ih =>
    rw [List.find?_cons] at h
    cases hpa : p a with
    | true =>
      rw [hpa] at h
      cases h
      rw [List.eraseP_cons_of_pos hpa]
      by_cases hra : r x = true
      · rw [if_pos hra, List.filter_cons_of_pos hra, List.eraseP_cons_of_pos hpa]
      · rw [if_neg hra, List.filter_cons_of_neg hra]
    | false =>
      rw [hpa] at h
      rw [List.eraseP_cons_of_neg (by simp [hpa])]
      by_cases hra : r a = true
      · rw [List.filter_cons_of_pos hra, List.filter_cons_of_pos hra, ih h]
        split
        · rw [List.eraseP_cons_of_neg (by simp [hpa])]
        · rfl
      · rw [List.filter_cons_of_neg hra, List.filter_cons_of_neg hra, ih h]

/-- When the filter keeps every match, erasing the first one commutes with it. -/
theorem filter_eraseP_of_imp {l : List α} (h : ∀ a, p a = true → r a = true) :
    (l.eraseP p).filter r = (l.filter r).eraseP p := by
  induction l with
  | nil => rfl
  | cons a l ih =>
    cases hpa : p a with
    | true =>
      rw [List.eraseP_cons_of_pos hpa, List.filter_cons_of_pos (h a hpa), List.eraseP_cons_of_pos hpa]
    | false =>
      rw [List.eraseP_cons_of_neg (by simp [hpa])]
      by_cases hra : r a = true
      · rw [List.filter_cons_of_pos hra, List.filter_cons_of_pos hra, ih,
          List.eraseP_cons_of_neg (by simp [hpa])]
      · rw [List.filter_cons_of_neg hra, List.filter_cons_of_neg hra, ih]

/-- When the filter keeps no match, erasing the first one does not show. -/
theorem filter_eraseP_of_disjoint {l : List α} (h : ∀ a, p a = true → r a = false) :
    (l.eraseP p).filter r = l.filter r := by
  cases hf : l.find? p with
  | none =>
    rw [List.eraseP_of_forall_not fun a ha => by simpa using List.find?_eq_none.mp hf a ha]
  | some x => rw [filter_eraseP hf, if_neg (by simp [h x (List.find?_some hf)])]

theorem eraseP_congr {q : α → Bool} {l : List α} (h : ∀ a ∈ l, p a = q a) :
    l.eraseP p = l.eraseP q := by
  induction l with
  | nil => rfl
  | cons a l ih =>
    rw [List.eraseP_cons, List.eraseP_cons, h a List.mem_cons_self,
      ih fun b hb => h b (List.mem_cons_of_mem a hb)]

/-- What is not the first match stays. -/
theorem mem_eraseP_of_ne {l : List α} {x y : α} (h : l.find? p = some x) (hy : y ∈ l) (hne : y ≠ x) :
    y ∈ l.eraseP p := by
  induction l with
  | nil => cases hy
  | cons a l ih =>
    rw [List.find?_cons] at h
    cases hpa : p a with
    | true =>
      rw [hpa] at h
      cases h
      rw [List.eraseP_cons_of_pos hpa]
      exact (List.mem_cons.mp hy).resolve_left hne
    | false =>
      rw [hpa] at h
      rw [List.eraseP_cons_of_neg (by simp [hpa])]
      rcases List.mem_cons.mp hy with rfl | hy
      · exact List.mem_cons_self
      · exact List.mem_cons_of_mem a (ih h hy)

theorem eraseP_of_find?_eq_none {l : List α} (h : l.find? p = none) : l.eraseP p = l :=
  List.eraseP_of_forall_not fun a ha => by simpa using List.find?_eq_none.mp h a ha

/-- Erasing at the index that a search returned erases the first match. -/
theorem eraseIdx_of_findIdx? {l : List α} {i : Nat} (h : l.findIdx? p = some i) :
    l.eraseIdx i = l.eraseP p := by
  rw [List.eraseP_eq_eraseIdx, h]

/-- The element at the index that a search returned is the first match. -/
theorem getElem?_of_findIdx? {l : List α} {i : Nat} (h : l.findIdx? p = some i) :
    l[i]? = l.find? p := by
  induction l generalizing i with
  | nil => cases h
  | cons a l ih =>
    rw [List.findIdx?_cons] at h
    rw [List.find?_cons]
    cases hpa : p a with
    | true =>
      rw [hpa] at h
      cases h
      rfl
    | false =>
      rw [hpa] at h
      simp only [Bool.false_eq_true, ↓reduceIte, Option.map_eq_some_iff] at h
      obtain ⟨j, hj, rfl⟩ := h
      exact ih hj

theorem findIdx?_eq_none {l : List α} : l.findIdx? p = none ↔ l.find? p = none := by
  rw [List.findIdx?_eq_none_iff, List.find?_eq_none]
  simp

/-- What a search returned splits the list, and is what erasing leaves out. -/
theorem eraseP_split {l : List α} {x : α} (h : l.find? p = some x) :
    ∃ l₁ l₂, l = l₁ ++ x :: l₂ ∧ l.eraseP p = l₁ ++ l₂ ∧ ∀ a ∈ l₁, p a = false := by
  obtain ⟨hx, l₁, l₂, rfl, hl₁⟩ := List.find?_eq_some_iff_append.mp h
  refine ⟨l₁, l₂, rfl, ?_, fun a ha => by simpa using hl₁ a ha⟩
  rw [List.eraseP_append_right _ fun a ha => by simpa using hl₁ a ha, List.eraseP_cons_of_pos hx]

/-- The matches are the first one and those that are left when it is erased. -/
theorem filter_of_find? {l : List α} {x : α} (h : l.find? p = some x) :
    l.filter p = x :: (l.eraseP p).filter p := by
  have hx := List.find?_some h
  obtain ⟨l₁, l₂, rfl, herase, hl₁⟩ := eraseP_split h
  have hnil : l₁.filter p = [] := List.filter_eq_nil_iff.mpr fun a ha => by simp [hl₁ a ha]
  rw [herase, List.filter_append, List.filter_append, hnil, List.filter_cons_of_pos hx]
  rfl

/-! ## Taking back what was appended -/

theorem eraseP_append_self_iff {l : List α} {a : α} (ha : p a = true) (hnew : a ∉ l) :
    (l ++ [a]).eraseP p = l ↔ ∀ x ∈ l, p x = false := by
  refine ⟨fun h => ?_, fun h => ?_⟩
  · by_contra hex
    obtain ⟨x, hx, hpx⟩ : ∃ x ∈ l, p x = true := by simpa using hex
    rw [List.eraseP_append_left hpx _ hx] at h
    exact hnew (h ▸ List.mem_append_right _ (List.mem_singleton_self a))
  · rw [List.eraseP_append_right _ fun x hx => by simp [h x hx], List.eraseP_cons_of_pos ha,
      List.append_nil]

theorem eraseP_eraseP_append_iff {q : α → Bool} {l : List α} {a b : α} (ha : p a = true)
    (hb : q b = true) (hne : a ≠ b) (hna : a ∉ l) (hnb : b ∉ l) :
    ((l ++ [a] ++ [b]).eraseP p).eraseP q = l ↔
      (∀ x ∈ l, p x = false) ∧ ∀ x ∈ l, q x = false := by
  by_cases hex : ∃ x ∈ l, p x = true
  · -- both stay behind the first match, and only one is erased after it
    obtain ⟨x, hx, hpx⟩ := hex
    rw [List.append_assoc, List.eraseP_append_left hpx _ hx]
    refine ⟨fun h => ?_, fun h => by simp [h.1 x hx] at hpx⟩
    cases hf : (l.eraseP p ++ ([a] ++ [b])).find? q with
    | none =>
      rw [eraseP_of_find?_eq_none hf] at h
      exact absurd (h ▸ by simp) hna
    | some y =>
      by_cases hay : a = y
      · exact absurd (h ▸ mem_eraseP_of_ne hf (by simp) fun hby => hne (hay.trans hby.symm)) hnb
      · exact absurd (h ▸ mem_eraseP_of_ne hf (by simp) hay) hna
  · have hp : ∀ x ∈ l, p x = false := by simpa using hex
    rw [List.append_assoc, List.eraseP_append_right _ fun x hx => by simp [hp x hx],
      List.singleton_append, List.eraseP_cons_of_pos ha, eraseP_append_self_iff hb hnb]
    exact (and_iff_right hp).symm

/-! ## Taking out the elements of one owner -/

theorem length_filter_eraseP_le (l : List α) (p r : α → Bool) :
    ((l.eraseP p).filter r).length ≤ (l.filter r).length :=
  (List.eraseP_sublist.filter r).length_le

/-- Erasing a first match that the filter keeps shortens what it keeps. -/
theorem length_filter_eraseP_lt {l : List α} {x : α} (h : l.find? p = some x) (hx : r x = true) :
    ((l.eraseP p).filter r).length < (l.filter r).length := by
  rw [filter_eraseP h, if_pos hx, List.length_eraseP_of_mem
    (List.mem_filter.mpr ⟨List.mem_of_find?_eq_some h, hx⟩) (List.find?_some h)]
  exact Nat.sub_lt (List.length_pos_of_mem
    (List.mem_filter.mpr ⟨List.mem_of_find?_eq_some h, hx⟩)) Nat.one_pos

theorem eraseP_eq_filter_iff {l : List α} {y : α} (hl : l.filter r = [y]) (hy : p y = true) :
    l.eraseP p = l.filter (fun a => !r a) ↔ ∃ x, l.find? p = some x ∧ r x = true := by
  have hmem : y ∈ l := (List.mem_filter.mp (hl ▸ List.mem_singleton_self y)).1
  obtain ⟨x, hx⟩ : ∃ x, l.find? p = some x := by
    cases hf : l.find? p with
    | some x => exact ⟨x, rfl⟩
    | none => exact absurd hy (List.find?_eq_none.mp hf y hmem)
  refine ⟨fun h => ⟨x, hx, ?_⟩, fun ⟨x', hx', hr⟩ => ?_⟩
  · by_contra hne
    have hlt := length_filter_eraseP_lt (r := fun a => !r a) hx (by simpa using hne)
    rw [h, List.filter_filter] at hlt
    simp at hlt
  · cases hx.symm.trans hx'
    have hown : (l.eraseP p).filter r = [] := by
      rw [filter_eraseP hx, if_pos hr, hl, List.eraseP_cons_of_pos hy]
    have hrest : (l.eraseP p).filter (fun a => !r a) = l.eraseP p :=
      List.filter_eq_self.mpr fun a ha => by simpa using List.filter_eq_nil_iff.mp hown a ha
    rw [← hrest, filter_eraseP hx, if_neg (by simp [hr])]

theorem eraseP_eraseP_eq_filter_iff {q : α → Bool} {l : List α} {y z : α}
    (hl : l.filter r = [y, z]) (hy : p y = true) (hz : q z = true) :
    (l.eraseP p).eraseP q = l.filter (fun a => !r a) ↔
      (∃ x, l.find? p = some x ∧ r x = true) ∧
        ∃ x, (l.eraseP p).find? q = some x ∧ r x = true := by
  have hmem : y ∈ l := (List.mem_filter.mp (hl ▸ List.mem_cons_self : y ∈ l.filter r)).1
  obtain ⟨x, hx⟩ : ∃ x, l.find? p = some x := by
    cases hf : l.find? p with
    | some x => exact ⟨x, rfl⟩
    | none => exact absurd hy (List.find?_eq_none.mp hf y hmem)
  cases hr : r x with
  | true =>
    -- the other element of the owner is left for the second erasure
    have hone : (l.eraseP p).filter r = [z] := by
      rw [filter_eraseP hx, if_pos hr, hl, List.eraseP_cons_of_pos hy]
    have hrest : (l.eraseP p).filter (fun a => !r a) = l.filter fun a => !r a := by
      rw [filter_eraseP hx, if_neg (by simp [hr])]
    rw [← hrest, eraseP_eq_filter_iff hone hz]
    exact (and_iff_right ⟨x, hx, hr⟩).symm
  | false =>
    refine ⟨fun h => ?_, fun ⟨⟨x', hx', hr'⟩, _⟩ => ?_⟩
    · have hlt := length_filter_eraseP_lt (r := fun a => !r a) hx (by simp [hr])
      have hle := length_filter_eraseP_le (l.eraseP p) q fun a => !r a
      rw [h, List.filter_filter] at hle
      simp only [Bool.and_self] at hle
      omega
    · cases hx.symm.trans hx'
      exact absurd hr' (by simp [hr])

/-! ## Counting the matches -/

/-- Of two slices of a list one of which stands before the other. -/
theorem countP_slices (p : α → Bool) (l : List α) {s n s' : Nat} (n' : Nat) (h : s + n ≤ s') :
    ((l.drop s).take n).countP p + ((l.drop s').take n').countP p ≤ l.countP p := by
  have hfirst : ((l.drop s).take n).Sublist (l.take s') := by
    rw [List.take_drop]
    exact (List.drop_sublist _ _).trans (List.take_prefix_take_left h).sublist
  calc _ ≤ (l.take s').countP p + (l.drop s').countP p :=
        Nat.add_le_add hfirst.countP_le (List.take_sublist _ _).countP_le
    _ = l.countP p := by rw [← List.countP_append, List.take_append_drop]

theorem countP_or_le (p q : α → Bool) (l : List α) :
    l.countP (fun x => p x || q x) ≤ l.countP p + l.countP q := by
  induction l with
  | nil => exact Nat.zero_le _
  | cons x l ih =>
    simp only [List.countP_cons]
    cases p x <;> cases q x <;> simp <;> omega

/-- Where each predicate has one match at most. -/
theorem countP_any_range_le {p : Nat → α → Bool} {l : List α} (hone : ∀ j, l.countP (p j) ≤ 1)
    (m : Nat) : l.countP (fun x => (List.range m).any fun j => p j x) ≤ m := by
  induction m with
  | zero => exact Nat.le_of_eq (List.countP_eq_zero.mpr fun x _ hx => absurd hx Bool.false_ne_true)
  | succ m ih =>
    have hor : (fun x => (List.range (m + 1)).any fun j => p j x) =
        fun x => ((List.range m).any fun j => p j x) || p m x := by
      funext x
      rw [List.range_succ, List.any_append, List.any_cons, List.any_nil, Bool.or_false]
    rw [hor]
    exact Nat.le_trans (countP_or_le _ _ l) (Nat.add_le_add ih (hone m))

end JautoProf.Lists
