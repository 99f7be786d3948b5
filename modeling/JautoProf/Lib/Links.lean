import Mathlib.Tactic.Common
import Mathlib.Logic.Function.Basic

/-!
# Doubly linked lists in place

`Links P` is a head pointer and the `next` and `prev` fields of the cells, over any type of
pointers. Cells that are not in the list keep stale fields.

Results:
1. `threads_push`: the insertion at the head.
2. `threads_unlink`: the removal of a cell, wherever it is in the list.
3. `walk_threads`: following `next` from the head yields the list.

Both operations return `none` where their assertion about the neighbour fails; the results
say that it never does on a list that is threaded.
-/

namespace JautoProf

/-- The head and the link fields. -/
structure Links (P : Type) where
  head : Option P
  next : P → Option P
  prev : P → Option P

namespace Links

variable {P : Type}

/-- The cells of `l` form a segment: it is entered at `s`, where the cell before is `p`, and
left at `t`, where the cell before is `q`. -/
def Seg (c : Links P) : Option P → Option P → List P → Option P → Option P → Prop
  | p, s, [], q, t => p = q ∧ s = t
  | p, s, i :: l, q, t => s = some i ∧ c.prev i = p ∧ Seg c (some i) (c.next i) l q t

/-- The cells of the list are `l`, head first. -/
def Threads (c : Links P) (l : List P) : Prop := ∃ q, c.Seg none c.head l q none

/-- No cells. -/
def empty : Links P := ⟨none, fun _ => none, fun _ => none⟩

/-- Following `next`; `none` when the fuel does not suffice. -/
def walk (c : Links P) : Nat → Option P → Option (List P)
  | _, none => some []
  | 0, some _ => none
  | n + 1, some i => (walk c n (c.next i)).map (i :: ·)

section

variable [DecidableEq P]

/-- The insertion at the head. -/
def push (c : Links P) (i : P) : Option (Links P) :=
  let prev := Function.update c.prev i none
  let next := Function.update c.next i c.head
  match c.head with
  | none => some ⟨some i, next, prev⟩
  | some h => if prev h = none then some ⟨some i, next, Function.update prev h (some i)⟩ else none

/-- The removal of a cell. -/
def unlink (c : Links P) (i : P) : Option (Links P) :=
  if c.head = some i then
    match c.next i with
    | none => some { c with head := none }
    | some j => some { c with head := some j, prev := Function.update c.prev j none }
  else
    match c.prev i with
    | none => none
    | some p =>
      let next := Function.update c.next p (c.next i)
      match c.next i with
      | none => some { c with next := next }
      | some j => some { c with next := next, prev := Function.update c.prev j (some p) }

end

/-! ## Segments -/

theorem threads_empty : (empty : Links P).Threads [] := ⟨none, rfl, rfl⟩

theorem seg_append {c : Links P} {a b : List P} {p s q t : Option P} :
    c.Seg p s (a ++ b) q t ↔ ∃ m u, c.Seg p s a m u ∧ c.Seg m u b q t := by
  induction a generalizing p s with
  | nil => simp [Seg]
  | cons i a ih =>
    simp only [List.cons_append, Seg, ih]
    constructor
    · rintro ⟨hs, hp, m, u, ha, hb⟩
      exact ⟨m, u, ⟨hs, hp, ha⟩, hb⟩
    · rintro ⟨m, u, ⟨hs, hp, ha⟩, hb⟩
      exact ⟨hs, hp, m, u, ha, hb⟩

/-- A segment depends on the fields of its own cells only. -/
theorem Seg.congr {c c' : Links P} {l : List P} {p s q t : Option P} (h : c.Seg p s l q t)
    (hnext : ∀ i ∈ l, c'.next i = c.next i) (hprev : ∀ i ∈ l, c'.prev i = c.prev i) :
    c'.Seg p s l q t := by
  induction l generalizing p s with
  | nil => exact h
  | cons i l ih =>
    obtain ⟨hs, hp, hl⟩ := h
    refine ⟨hs, (hprev i List.mem_cons_self).trans hp, ?_⟩
    rw [hnext i List.mem_cons_self]
    exact ih hl (fun j hj => hnext j (List.mem_cons_of_mem i hj))
      (fun j hj => hprev j (List.mem_cons_of_mem i hj))

theorem walk_seg {c : Links P} {l : List P} {p s q : Option P} (h : c.Seg p s l q none)
    {fuel : Nat} (hf : l.length ≤ fuel) : c.walk fuel s = some l := by
  induction l generalizing p s fuel with
  | nil =>
    rw [h.2]
    cases fuel <;> rfl
  | cons i l ih =>
    obtain ⟨rfl, -, hl⟩ := h
    cases fuel with
    | zero => cases hf
    | succ n =>
      rw [walk, ih hl (Nat.le_of_succ_le_succ hf)]
      rfl

theorem walk_threads {c : Links P} {l : List P} (h : c.Threads l) {fuel : Nat}
    (hf : l.length ≤ fuel) : c.walk fuel c.head = some l := by
  obtain ⟨q, hq⟩ := h
  exact walk_seg hq hf

/-- A segment whose first cell gets another cell before it. -/
theorem Seg.relink {c : Links P} {l : List P} {p s q t : Option P} (h : c.Seg p s l q t)
    (hnd : l.Nodup) (c' : Links P) (p' : Option P) (hp : ∀ j, s = some j → j ∈ l → c'.prev j = p')
    (hnext : ∀ i ∈ l, c'.next i = c.next i)
    (hprev : ∀ i ∈ l, s ≠ some i → c'.prev i = c.prev i) :
    ∃ q', c'.Seg p' s l q' t := by
  cases l with
  | nil => exact ⟨p', rfl, h.2⟩
  | cons i l =>
    obtain ⟨rfl, -, hl⟩ := h
    rw [List.nodup_cons] at hnd
    refine ⟨q, rfl, hp i rfl List.mem_cons_self, ?_⟩
    rw [hnext i List.mem_cons_self]
    refine hl.congr (fun j hj => hnext j (List.mem_cons_of_mem i hj)) fun j hj => ?_
    refine hprev j (List.mem_cons_of_mem i hj) fun hij => ?_
    cases hij
    exact hnd.1 hj

/-! ## The operations -/

variable [DecidableEq P]

theorem threads_push {c : Links P} {l : List P} (h : c.Threads l) (hnd : l.Nodup) {i : P}
    (hi : i ∉ l) : ∃ c', c.push i = some c' ∧ c'.Threads (i :: l) := by
  obtain ⟨q, hq⟩ := h
  have hne : ∀ j ∈ l, j ≠ i := fun j hj hji => hi (hji ▸ hj)
  cases l with
  | nil =>
    obtain ⟨-, hhead⟩ := hq
    refine ⟨_, by rw [push, hhead], some i, rfl, ?_, rfl, ?_⟩ <;> simp
  | cons h l =>
    have hhi := hne h List.mem_cons_self
    have hhead := hq.1
    have hprev := hq.2.1
    have hpush : c.push i = some ⟨some i, Function.update c.next i (some h),
        Function.update (Function.update c.prev i none) h (some i)⟩ := by
      simp only [push, hhead, Function.update_of_ne hhi, hprev, if_true]
    obtain ⟨q', hq'⟩ : ∃ q', Seg ⟨some i, Function.update c.next i (some h),
        Function.update (Function.update c.prev i none) h (some i)⟩ (some i) c.head (h :: l)
          q' none := by
      refine hq.relink hnd _ _ (fun j hj _ => ?_) (fun j hj => ?_) fun j hj hjh => ?_
      · rw [hhead] at hj
        cases hj
        simp
      · simp [hne j hj]
      · have : j ≠ h := fun e => hjh (by rw [hhead, e])
        simp [this, hne j hj]
    refine ⟨_, hpush, q', rfl, ?_, ?_⟩
    · simp [Function.update_of_ne hhi.symm]
    · simpa [hhead] using hq'

theorem threads_unlink {c : Links P} {a b : List P} {i : P} (h : c.Threads (a ++ i :: b))
    (hnd : (a ++ i :: b).Nodup) : ∃ c', c.unlink i = some c' ∧ c'.Threads (a ++ b) := by
  obtain ⟨q, hq⟩ := h
  obtain ⟨m, u, ha, rfl, hprev, hb⟩ := seg_append.mp hq
  obtain ⟨hnda, hndb, hdisj⟩ := List.nodup_append.mp hnd
  rw [List.nodup_cons] at hndb
  -- the first cell of the rest, if there is one
  have hfirst : ∀ j, c.next i = some j → j ∈ b := by
    intro j hj
    cases b with
    | nil =>
      rw [hb.2] at hj
      cases hj
    | cons k b =>
      have hk := hb.1
      rw [hj] at hk
      cases hk
      exact List.mem_cons_self
  rcases List.eq_nil_or_concat a with rfl | ⟨a, p, rfl⟩
  · -- the cell is the head
    obtain ⟨rfl, hhead⟩ := ha
    rw [unlink, if_pos hhead]
    cases hn : c.next i with
    | none =>
      refine ⟨_, rfl, ?_⟩
      rw [hn] at hb
      obtain ⟨q', hq'⟩ := hb.relink hndb.2 { c with head := none } none (by simp)
        (fun _ _ => rfl) fun _ _ _ => rfl
      exact ⟨q', hq'⟩
    | some j =>
      refine ⟨_, rfl, ?_⟩
      rw [hn] at hb
      refine hb.relink hndb.2 ⟨some j, c.next, Function.update c.prev j none⟩ none ?_
        (fun _ _ => rfl) ?_
      · rintro k ⟨⟩ -
        simp
      · intro k _ hk
        have : k ≠ j := fun e => hk (by rw [e])
        simp [this]
  · -- the cell follows `p`
    rw [List.concat_eq_append] at ha hnd hnda hdisj hq ⊢
    obtain ⟨m', u', ha', rfl, hpp, rfl, hpi⟩ := seg_append.mp ha
    have hpa : p ∉ a := by
      intro hp
      exact (List.nodup_append.mp hnda).2.2 p hp p List.mem_cons_self rfl
    have hmem : ∀ k, k ∈ a ++ [p] → k ∉ i :: b := fun k hk hkb => hdisj k hk k hkb rfl
    have hpb : p ∉ i :: b := hmem p (by simp)
    have hhead : c.head ≠ some i := by
      intro hh
      cases a with
      | nil =>
        rw [hh] at ha'
        cases ha'.2
        exact hpb List.mem_cons_self
      | cons k a =>
        rw [hh] at ha'
        cases ha'.1
        exact hmem i List.mem_cons_self List.mem_cons_self
    rw [unlink, if_neg hhead, hprev]
    have hjoin : ∀ c' : Links P, c'.head = c.head →
        c'.next = Function.update c.next p (c.next i) →
        (∀ k, c.next i ≠ some k → c'.prev k = c.prev k) →
        (∀ j, c.next i = some j → c'.prev j = some p) → c'.Threads (a ++ [p] ++ b) := by
      intro c' h1 h2 h3 h4
      have hnot : ∀ k, k ∈ a ++ [p] → c'.prev k = c.prev k := by
        intro k hk
        exact h3 k fun hkn => hmem k hk (List.mem_cons_of_mem i (hfirst k hkn))
      obtain ⟨q', hq'⟩ := hb.relink hndb.2 c' (some p) (fun j hj _ => h4 j hj)
        (fun k hk => by
          have : k ≠ p := fun e => hpb (List.mem_cons_of_mem i (e ▸ hk))
          rw [h2, Function.update_of_ne this])
        fun k _ hk => h3 k hk
      refine ⟨q', seg_append.mpr ⟨some p, c.next i, ?_, hq'⟩⟩
      refine seg_append.mpr ⟨m', some p, ?_, rfl, ?_, rfl, ?_⟩
      · rw [h1]
        refine ha'.congr (fun k hk => ?_) fun k hk => hnot k (List.mem_append_left _ hk)
        have : k ≠ p := fun e => hpa (e ▸ hk)
        rw [h2, Function.update_of_ne this]
      · rw [hnot p (by simp), hpp]
      · rw [h2, Function.update_self]
    cases hn : c.next i with
    | none => exact ⟨_, rfl, hjoin _ rfl (by rw [hn]) (fun _ _ => rfl) (by simp [hn])⟩
    | some j =>
      refine ⟨_, rfl, hjoin _ rfl (by rw [hn]) (fun k hk => ?_) (fun k hk => ?_)⟩
      · have : k ≠ j := fun e => hk (by rw [hn, e])
        simp [this]
      · rw [hn] at hk
        cases hk
        simp

end Links

end JautoProf
