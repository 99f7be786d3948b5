import Mathlib.Tactic.Common
import Mathlib.Data.List.Induction
import Mathlib.Logic.Function.Basic

/-!
# Ring buffers

A ring of `cap` slots that overwrites its oldest item, with the index of the next write and
the number of items as its only other fields.

Results:
1. `Holds.push`: a push appends an item, and drops the oldest one of a full ring.
2. `pushes_eq_drop`: after any number of pushes the last `cap` items are left.
3. `Turned.write`, `Turned.latest`, `Turned.perm`: the same for an array that is written around,
   with no count of its items.
-/

namespace JautoProf

/-- The slots, the index of the next write and the number of items. -/
structure Ring (α : Type) where
  slots : Nat → Option α
  next : Nat
  count : Nat

namespace Ring

variable {α : Type}

/-- No items. -/
def empty : Ring α := ⟨fun _ => none, 0, 0⟩

/-- The index of the oldest item. -/
def start (cap : Nat) (r : Ring α) : Nat := (r.next + cap - r.count) % cap

/-- The item number `i`, the oldest first. -/
def item (cap : Nat) (r : Ring α) (i : Nat) : Option α := r.slots ((r.start cap + i) % cap)

/-- Write the next slot. -/
def push (cap : Nat) (r : Ring α) (x : α) : Ring α where
  slots := Function.update r.slots r.next (some x)
  next := (r.next + 1) % cap
  count := if r.count < cap then r.count + 1 else r.count

/-- What a push does to the list of the items. -/
def pushed (cap : Nat) (l : List α) (x : α) : List α :=
  if l.length < cap then l ++ [x] else l.tail ++ [x]

/-- The items are `l`, oldest first. -/
structure Holds (cap : Nat) (r : Ring α) (l : List α) : Prop where
  next_lt : r.next < cap
  count : r.count = l.length
  count_le : r.count ≤ cap
  item : ∀ i (h : i < l.length), r.item cap i = some l[i]

theorem holds_empty {cap : Nat} (h : 0 < cap) : Holds cap (empty : Ring α) [] where
  next_lt := h
  count := rfl
  count_le := Nat.zero_le _
  item := by simp

/-- The slot of an item, counted back from the next write. -/
theorem start_add {cap n c i : Nat} (hn : n < cap) (hc : c ≤ cap) (hi : i ≤ c) :
    ((n + cap - c) % cap + i) % cap = if c ≤ n + i then n + i - c else n + i + cap - c := by
  rw [Nat.mod_add_mod]
  split
  · rw [show n + cap - c + i = n + i - c + cap by omega, Nat.add_mod_right]
    exact Nat.mod_eq_of_lt (by omega)
  · rw [show n + cap - c + i = n + i + cap - c by omega]
    exact Nat.mod_eq_of_lt (by omega)

theorem Holds.push {cap : Nat} {r : Ring α} {l : List α} (h : Holds cap r l) (x : α) :
    Holds cap (r.push cap x) (pushed cap l x) := by
  have hcap : 0 < cap := Nat.zero_lt_of_lt h.next_lt
  have hcount := h.count
  have hle := h.count_le
  have hnext := h.next_lt
  have hnext' : (r.next + 1) % cap = if r.next + 1 < cap then r.next + 1 else 0 := by
    split
    · next hlt => exact Nat.mod_eq_of_lt hlt
    · next hge => rw [show r.next + 1 = cap by omega, Nat.mod_self]
  -- the new item and the items that stay, by their slots
  have hslot : ∀ j, (r.push cap x).slots j = if j = r.next then some x else r.slots j := fun j =>
    Function.update_apply _ _ _ _
  have hold : ∀ i (hi : i < l.length), r.slots
      (if l.length ≤ r.next + i then r.next + i - l.length else r.next + i + cap - l.length) =
        some l[i] := by
    intro i hi
    rw [← h.item i hi, Ring.item, start, hcount,
      start_add hnext (hcount ▸ hle) (Nat.le_of_lt hi)]
  by_cases hfull : l.length < cap
  · have hpushed : pushed cap l x = l ++ [x] := if_pos hfull
    rw [hpushed]
    have hc : (r.push cap x).count = l.length + 1 := by
      rw [Ring.push, hcount, if_pos hfull]
    refine ⟨Nat.mod_lt _ hcap, by simp [hc], by rw [hc]; exact hfull, fun i hi => ?_⟩
    rw [List.length_append, List.length_singleton] at hi
    rw [Ring.item, start, hc, hslot, show (r.push cap x).next = (r.next + 1) % cap from rfl,
      start_add (Nat.mod_lt _ hcap) hfull (Nat.le_of_lt hi), hnext']
    by_cases hlast : i = l.length
    · subst hlast
      rw [if_pos]
      · simp
      · split <;> split <;> omega
    · rw [if_neg, List.getElem_append_left (by omega), ← hold i (by omega)]
      · congr 1
        split <;> split <;> split <;> omega
      · split <;> split <;> omega
  · have hpushed : pushed cap l x = l.tail ++ [x] := if_neg hfull
    rw [hpushed]
    have hlen : l.length = cap := by omega
    have hc : (r.push cap x).count = cap := by
      rw [Ring.push, hcount, if_neg hfull, hlen]
    refine ⟨Nat.mod_lt _ hcap, by simp [hc]; omega, Nat.le_of_eq hc, fun i hi => ?_⟩
    rw [List.length_append, List.length_tail, List.length_singleton] at hi
    rw [Ring.item, start, hc, hslot, show (r.push cap x).next = (r.next + 1) % cap from rfl,
      start_add (Nat.mod_lt _ hcap) (Nat.le_refl _) (by omega), hnext']
    by_cases hlast : i = cap - 1
    · subst hlast
      rw [if_pos]
      · rw [List.getElem_append_right (by simp; omega)]
        simp
      · split <;> split <;> omega
    · rw [if_neg, List.getElem_append_left (by simp; omega), List.getElem_tail,
        ← hold (i + 1) (by omega)]
      · congr 1
        split <;> split <;> split <;> omega
      · split <;> split <;> omega

/-- After any number of pushes the last `cap` items are left. -/
theorem pushes_eq_drop {cap : Nat} (h : 0 < cap) (l : List α) :
    l.foldl (pushed cap) [] = l.drop (l.length - cap) := by
  induction l using List.reverseRecOn with
  | nil => simp
  | append_singleton l x ih =>
    rw [List.foldl_append, List.foldl_cons, List.foldl_nil, ih, pushed, List.length_drop,
      List.length_append, List.length_singleton]
    by_cases hl : l.length < cap
    · rw [if_pos (by omega), Nat.sub_eq_zero_of_le (Nat.le_of_lt hl),
        Nat.sub_eq_zero_of_le (by omega)]
      simp
    · rw [if_neg (by omega), List.tail_drop, List.drop_append_of_le_length (by omega)]
      congr 2
      omega

/-- The ring after the pushes of a list. -/
def pushes (cap : Nat) (r : Ring α) (l : List α) : Ring α := l.foldl (push cap) r

theorem Holds.pushes {cap : Nat} {r : Ring α} {l : List α} (h : Holds cap r l) (xs : List α) :
    Holds cap (r.pushes cap xs) (xs.foldl (pushed cap) l) := by
  induction xs generalizing r l with
  | nil => exact h
  | cons x xs ih => exact ih (h.push x)

/-! ## Without a count -/

/-- The array has the items of `l`, oldest first from the slot `head` on and around its end. -/
inductive Turned : List (Option α) → Nat → List α → Prop
  /-- The slots from `head` on were never written. -/
  | filling (new : List α) (k : Nat) :
      Turned (new.map some ++ List.replicate (k + 1) none) new.length new
  | full (old new : List α) (h : old ≠ []) :
      Turned (new.map some ++ old.map some) new.length (old ++ new)

variable {buffer : List (Option α)} {head : Nat} {l : List α}

theorem turned_empty (k : Nat) : Turned (List.replicate (k + 1) none) 0 ([] : List α) :=
  .filling [] k

theorem Turned.head_lt (h : Turned buffer head l) : head < buffer.length := by
  cases h with
  | filling new k => simp
  | full old new hne => simpa using List.length_pos_iff.mpr hne

theorem set_front (new : List α) (rest : List (Option α)) (y : Option α) (x : α) :
    (new.map some ++ y :: rest).set new.length (some x) = (new ++ [x]).map some ++ rest := by
  rw [List.set_append_right _ _ (Nat.le_of_eq (List.length_map _)), List.length_map, Nat.sub_self,
    List.set_cons_zero, List.map_append, List.append_assoc]
  rfl

/-- A write of the slot `head`, and the next one. -/
theorem Turned.write (h : Turned buffer head l) (x : α) :
    Turned (buffer.set head (some x)) ((head + 1) % buffer.length)
      (pushed buffer.length l x) := by
  cases h with
  | filling _ k =>
    have hlen : (l.map some ++ List.replicate (k + 1) (none : Option α)).length =
        l.length + 1 + k := by simp; omega
    rw [hlen, List.replicate_succ, set_front, pushed, if_pos (by omega)]
    cases k with
    | zero =>
      rw [Nat.add_zero, Nat.mod_self]
      -- the last free slot is written, and the buffer is full from here on
      have hfull := Turned.full (l ++ [x]) [] (by simp)
      rw [List.append_nil] at hfull
      rwa [List.replicate_zero, List.append_nil]
    | succ k =>
      rw [Nat.mod_eq_of_lt (by omega)]
      have hfilling := Turned.filling (l ++ [x]) k
      rwa [List.length_append] at hfilling
  | full old new hne =>
    -- the oldest element is overwritten
    obtain ⟨o, old, rfl⟩ := List.exists_cons_of_ne_nil hne
    have hlen : (new.map some ++ (o :: old).map some).length = new.length + 1 + old.length := by
      simp; omega
    rw [hlen, List.map_cons, set_front, pushed, if_neg (by simp; omega), List.cons_append,
      List.tail_cons, List.append_assoc]
    cases old with
    | nil =>
      rw [List.length_nil, Nat.add_zero, Nat.mod_self]
      have hfull := Turned.full (new ++ [x]) [] (by simp)
      rw [List.append_nil] at hfull
      rwa [List.map_nil, List.append_nil]
    | cons o old =>
      rw [Nat.mod_eq_of_lt (by simp)]
      have hfull := Turned.full (o :: old) (new ++ [x]) (by simp)
      rwa [List.length_append] at hfull

theorem before_front (new : List α) (y : α) (rest : List (Option α)) :
    (((new ++ [y]).map some ++ rest)[((new ++ [y]).length +
      (((new ++ [y]).map some ++ rest).length - 1)) %
        ((new ++ [y]).map some ++ rest).length]?).join = some y := by
  have hlen : ((new ++ [y]).map some ++ rest).length = new.length + 1 + rest.length := by
    simp; omega
  rw [hlen, List.length_append, List.length_singleton,
    show new.length + 1 + (new.length + 1 + rest.length - 1) =
      new.length + (new.length + 1 + rest.length) by omega,
    Nat.add_mod_right, Nat.mod_eq_of_lt (by omega), List.map_append, List.append_assoc,
    List.getElem?_append_right (Nat.le_of_eq (List.length_map _)), List.length_map, Nat.sub_self]
  rfl

/-- The slot before `head` has the latest item. -/
theorem Turned.latest (h : Turned buffer head l) :
    (buffer[(head + (buffer.length - 1)) % buffer.length]?).join = l.getLast? := by
  cases h with
  | filling _ k =>
    rcases List.eq_nil_or_concat l with rfl | ⟨new, y, rfl⟩
    · simp
    · rw [List.concat_eq_append, before_front, List.getLast?_concat]
  | full old new hne =>
    rcases List.eq_nil_or_concat new with rfl | ⟨new, y, rfl⟩
    · obtain ⟨old, y, rfl⟩ := (List.eq_nil_or_concat old).resolve_left hne
      simp
    · rw [List.concat_eq_append, before_front, ← List.append_assoc, List.getLast?_concat]

/-- The items, in another order. -/
theorem Turned.perm (h : Turned buffer head l) : (buffer.filterMap id).Perm l := by
  cases h with
  | filling new k => simp
  | full old new hne => simpa using List.perm_append_comm

end Ring

end JautoProf
