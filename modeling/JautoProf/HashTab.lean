import JautoProf.Lib.Probing
import JautoProf.Lib.Single
import Mathlib.Data.List.Perm.Subperm

/-!
# The hash table (`util/hash-tab.c`)

`HashTab` is `struct hash_tab`: the slot array, the doubly linked list that threads the
occupied slots (here the list of their indices, head first) and the entry count. The
operations are the ones of the source; `Probing` supplies the facts about the slots.

`Table` carries the invariant of the structure as a field, so an invalid table cannot
be built. Its operations behave as those of a finite map:
1. `Table.lookup_add`, `Table.add_prev`: an add that does not fail updates one key.
2. `Table.add_err`: an add that fails changes nothing.
3. `Table.lookup_remove`, `Table.remove_fst`: a removal removes one key.
4. `Table.mem_entries`, `Table.entries_nodup`: the iteration yields each entry once.
-/

namespace JautoProf

open Probing

/-- `rehash_thresh` as an exact fraction between 0 and 1. -/
structure Thresh where
  num : Nat
  den : Nat
  pos : 0 < num
  lt : num < den

/-- `struct hash_tab_opts`. -/
structure HashTabOpts (K : Type) where
  capInit : Nat
  rehashThresh : Thresh
  hashFunc : K → UInt32
  cap_pos : 0 < capInit

/-- The hash of a key as the probe start. -/
def HashTabOpts.hash {K : Type} (o : HashTabOpts K) (k : K) : Nat := (o.hashFunc k).toNat

/-- `HASHTAB_CAP_DEFAULT`. -/
def hashtabCapDefault : Nat := 32

theorem hashtabCapDefault_pos : 0 < hashtabCapDefault := by decide

/-- `HASHTAB_THRESH_DEFAULT`, the value of the float literal `0.66f`. -/
def hashtabThreshDefault : Thresh := ⟨11072963, 16777216, by decide, by decide⟩

/-- `struct hash_tab`; `order` is the list that `head`, `next` and `prev` thread. -/
structure HashTab (K V : Type) where
  tab : Slots K V
  order : List Nat
  count : Nat

/-- `struct hash_add_result`. -/
structure HashAddResult (V : Type) where
  err : Bool
  prev : Option V

variable {K V : Type}

/-! ## The operations -/

def HashTab.capacity (t : HashTab K V) : Nat := t.tab.length

/-- A table of `cap` empty slots. -/
def HashTab.blank (cap : Nat) : HashTab K V := ⟨List.replicate cap none, [], 0⟩

/-- What `hash_tab_iterate` yields, in order. -/
def HashTab.entries (t : HashTab K V) : List (K × V) := t.order.filterMap (slotAt t.tab)

/-- `ent_unlink`, for the entry in the slot `i`. -/
def entUnlink (t : HashTab K V) (i : Nat) : HashTab K V :=
  ⟨t.tab.set i none, t.order.erase i, t.count - 1⟩

/-- `need_rehash`: the load is a quotient of two `float`s, the threshold a `double`. -/
def needRehash (o : HashTabOpts K) (t : HashTab K V) : Bool :=
  ((Single.ofNat (t.count + 1)).div (Single.ofNat t.capacity)).ge
    o.rehashThresh.num o.rehashThresh.den

variable [DecidableEq K]

/-- `hash_insert`; the first branch is the failing `assert(i < tab->capacity)`. -/
def hashInsert (o : HashTabOpts K) (t : HashTab K V) (k : K) (v : V) : Option V × HashTab K V :=
  match find o.hash t.tab k with
  | none => (none, t)
  | some i =>
    match slotAt t.tab i with
    | none => (none, ⟨t.tab.set i (some (k, v)), i :: t.order, t.count + 1⟩)
    | some e => (some e.2, { t with tab := t.tab.set i (some (k, v)) })

/-- `rehash`, when the allocation of the new array succeeds. -/
def rehash (o : HashTabOpts K) (t : HashTab K V) : HashTab K V :=
  t.entries.foldl (fun t' e => (hashInsert o t' e.1 e.2).2) (.blank (t.capacity * 2))

/-- The loop of `hash_tab_remove` that puts the orphaned entries in again. -/
def reinsertFrom (o : HashTabOpts K) : Nat → HashTab K V → Nat → HashTab K V
  | 0, t, _ => t
  | fuel + 1, t, idx =>
    match slotAt t.tab idx with
    | none => t
    | some e => reinsertFrom o fuel (hashInsert o (entUnlink t idx) e.1 e.2).2
        ((idx + 1) % t.capacity)

def hashTabLookup (o : HashTabOpts K) (t : HashTab K V) (k : K) : Option V :=
  lookup o.hash t.tab k

def hashTabRemove (o : HashTabOpts K) (t : HashTab K V) (k : K) : Option V × HashTab K V :=
  match find o.hash t.tab k with
  | none => (none, t)
  | some i =>
    match slotAt t.tab i with
    | none => (none, t)
    | some e => (some e.2, reinsertFrom o t.capacity (entUnlink t i) ((i + 1) % t.capacity))

/-- `hash_tab_add`; `keyOk` and `tabOk` say whether the allocations of the copy of the key
and of the array of a rehash succeed. -/
def hashTabAdd (o : HashTabOpts K) (t : HashTab K V) (k : K) (v : V) (keyOk tabOk : Bool) :
    HashAddResult V × HashTab K V :=
  if !keyOk then (⟨true, none⟩, t)
  else if needRehash o t then
    if tabOk then
      let r := hashInsert o (rehash o t) k v
      (⟨false, r.1⟩, r.2)
    else (⟨true, none⟩, t)
  else
    let r := hashInsert o t k v
    (⟨false, r.1⟩, r.2)

/-- `hash_tab_add`, given what `need_rehash` says. -/
def hashTabAddIf (o : HashTabOpts K) (t : HashTab K V) (need : Bool) (k : K) (v : V)
    (keyOk tabOk : Bool) : HashAddResult V × HashTab K V :=
  if !keyOk then (⟨true, none⟩, t)
  else if need then
    if tabOk then
      let r := hashInsert o (rehash o t) k v
      (⟨false, r.1⟩, r.2)
    else (⟨true, none⟩, t)
  else
    let r := hashInsert o t k v
    (⟨false, r.1⟩, r.2)

theorem hashTabAdd_eq (o : HashTabOpts K) (t : HashTab K V) :
    hashTabAdd o t = hashTabAddIf o t (needRehash o t) := rfl

/-- A write through the pointer that `hash_tab_lookup` returned. -/
def hashTabModify (o : HashTabOpts K) (t : HashTab K V) (k : K) (f : V → V) : HashTab K V :=
  match find o.hash t.tab k with
  | none => t
  | some i =>
    match slotAt t.tab i with
    | none => t
    | some e => { t with tab := t.tab.set i (some (e.1, f e.2)) }

/-! ## The linked list -/

/-- The linked list threads every occupied slot once, and `count` is its length. -/
structure Linked (t : HashTab K V) : Prop where
  nodup : t.order.Nodup
  mem : ∀ i, i ∈ t.order ↔ ∃ e, slotAt t.tab i = some e
  count_eq : t.count = t.order.length

omit [DecidableEq K] in
theorem linked_blank (cap : Nat) : Linked (.blank cap : HashTab K V) where
  nodup := List.nodup_nil
  mem := by intro i; simp [HashTab.blank, slotAt_replicate]
  count_eq := rfl

omit [DecidableEq K] in
theorem Linked.entUnlink {t : HashTab K V} (h : Linked t) {i : Nat} {e : K × V}
    (hi : slotAt t.tab i = some e) : Linked (entUnlink t i) where
  nodup := h.nodup.erase i
  mem := by
    intro j
    unfold JautoProf.entUnlink
    rw [h.nodup.mem_erase_iff, h.mem, slotAt_set (slotAt_lt hi)]
    by_cases hj : j = i <;> simp [hj]
  count_eq := by
    have hmem : i ∈ t.order := (h.mem i).mpr ⟨e, hi⟩
    simp [JautoProf.entUnlink, List.length_erase_of_mem hmem, h.count_eq]

omit [DecidableEq K] in
/-- Overwriting an occupied slot keeps the list. -/
theorem Linked.overwrite {t : HashTab K V} (h : Linked t) {i : Nat} {e e' : K × V}
    (hi : slotAt t.tab i = some e) : Linked { t with tab := t.tab.set i (some e') } where
  nodup := h.nodup
  mem := by
    intro j
    rw [h.mem, slotAt_set (slotAt_lt hi)]
    by_cases hj : j = i
    · subst hj; simp [hi]
    · simp [hj]
  count_eq := h.count_eq

theorem hashInsert_tab (o : HashTabOpts K) (t : HashTab K V) (k : K) (v : V) :
    (hashInsert o t k v).2.tab = put o.hash t.tab k v := by
  unfold hashInsert put
  cases hf : find o.hash t.tab k with
  | none => rfl
  | some i =>
    cases hi : slotAt t.tab i with
    | none => simp only [hi]
    | some e => simp only [hi]

theorem find_lt {hash : K → Nat} {s : Slots K V} {k : K} {i : Nat} (h : find hash s k = some i) :
    i < s.length := by
  obtain ⟨d, hd, rfl, _⟩ := scan_eq_some h
  exact Nat.mod_lt _ (by omega)

theorem Linked.hashInsert {t : HashTab K V} (h : Linked t) (o : HashTabOpts K) (k : K) (v : V) :
    Linked (hashInsert o t k v).2 := by
  unfold JautoProf.hashInsert
  split
  · exact h
  · next i hf =>
    split
    · next hnone =>
      have hi : i ∉ t.order := by
        rw [h.mem]
        rintro ⟨e, he⟩
        rw [hnone] at he
        cases he
      refine ⟨List.nodup_cons.mpr ⟨hi, h.nodup⟩, fun j => ?_, by simp [h.count_eq]⟩
      rw [List.mem_cons, h.mem, slotAt_set (find_lt hf)]
      by_cases hj : j = i <;> simp [hj]
    · next e he => exact h.overwrite he

theorem hashInsert_count_le (o : HashTabOpts K) (t : HashTab K V) (k : K) (v : V) :
    (hashInsert o t k v).2.count ≤ t.count + 1 := by
  unfold hashInsert
  split
  · exact Nat.le_succ _
  · split
    · exact Nat.le_refl _
    · exact Nat.le_succ _

theorem hashInsert_capacity (o : HashTabOpts K) (t : HashTab K V) (k : K) (v : V) :
    (hashInsert o t k v).2.capacity = t.capacity := by
  unfold HashTab.capacity
  rw [hashInsert_tab, put_length]

theorem reinsertFrom_linked (o : HashTabOpts K) : ∀ (fuel : Nat) {t : HashTab K V} (idx : Nat),
    Linked t → Linked (reinsertFrom o fuel t idx) ∧ (reinsertFrom o fuel t idx).count ≤ t.count
  | 0, _, _, h => ⟨h, Nat.le_refl _⟩
  | fuel + 1, t, idx, h => by
    unfold reinsertFrom
    split
    · exact ⟨h, Nat.le_refl _⟩
    · next e he =>
      have hun := h.entUnlink he
      have ih := reinsertFrom_linked o fuel ((idx + 1) % t.capacity) (hun.hashInsert o e.1 e.2)
      refine ⟨ih.1, Nat.le_trans ih.2 ?_⟩
      have hle := hashInsert_count_le o (entUnlink t idx) e.1 e.2
      have hpos : 0 < t.count := by
        rw [h.count_eq]
        exact List.length_pos_of_mem ((h.mem idx).mpr ⟨e, he⟩)
      have hcount : (entUnlink t idx).count = t.count - 1 := rfl
      omega

theorem reinsertFrom_tab (o : HashTabOpts K) : ∀ (fuel : Nat) (t : HashTab K V) (idx : Nat),
    (reinsertFrom o fuel t idx).tab = relocate o.hash fuel t.tab idx
  | 0, _, _ => rfl
  | fuel + 1, t, idx => by
    unfold reinsertFrom relocate
    cases he : slotAt t.tab idx with
    | none => simp only
    | some e =>
      simp only
      rw [reinsertFrom_tab o fuel, hashInsert_tab]
      rfl

/-! ## The invariant -/

/-- A valid table: every entry is reached by its probe, the list threads the entries, and at
least one slot is empty. -/
structure HashTab.Valid (o : HashTabOpts K) (t : HashTab K V) : Prop where
  probed : Probed o.hash t.tab
  linked : Linked t
  count_lt : t.count < t.capacity

omit [DecidableEq K] in
theorem Linked.hasHole {t : HashTab K V} (h : Linked t) (hlt : t.count < t.capacity) :
    HasHole t.tab := by
  by_contra hno
  have hsub : List.range t.capacity ⊆ t.order := by
    intro i hi
    rw [h.mem]
    cases hs : slotAt t.tab i with
    | none => exact absurd ⟨i, List.mem_range.mp hi, hs⟩ hno
    | some e => exact ⟨e, rfl⟩
  have hle := (List.nodup_range.subperm hsub).length_le
  rw [List.length_range, ← h.count_eq] at hle
  exact absurd hlt (by omega)

omit [DecidableEq K] in
theorem HashTab.Valid.hasHole {o : HashTabOpts K} {t : HashTab K V} (h : t.Valid o) :
    HasHole t.tab :=
  h.linked.hasHole h.count_lt

omit [DecidableEq K] in
theorem HashTab.valid_blank (o : HashTabOpts K) (cap : Nat) (h : 0 < cap) :
    (HashTab.blank cap : HashTab K V).Valid o where
  probed := probed_replicate o.hash cap
  linked := linked_blank cap
  count_lt := by simpa [HashTab.capacity, HashTab.blank] using h

theorem HashTab.Valid.hashInsert {o : HashTabOpts K} {t : HashTab K V} (h : t.Valid o)
    (hroom : t.count + 1 < t.capacity) (k : K) (v : V) : (hashInsert o t k v).2.Valid o where
  probed := by rw [hashInsert_tab]; exact put_probed h.probed h.hasHole k v
  linked := h.linked.hashInsert o k v
  count_lt := by
    rw [hashInsert_capacity]
    exact Nat.lt_of_le_of_lt (hashInsert_count_le o t k v) hroom

theorem hashTabLookup_blank (o : HashTabOpts K) (cap : Nat) (k : K) :
    hashTabLookup o (HashTab.blank cap : HashTab K V) k = none := by
  refine (lookup_eq_none (probed_replicate o.hash cap)).mpr ?_
  rintro v ⟨i, hi⟩
  rw [slotAt_replicate] at hi
  cases hi

theorem hashInsert_lookup {o : HashTabOpts K} {t : HashTab K V} (h : t.Valid o) (k k' : K) (v : V) :
    hashTabLookup o (hashInsert o t k v).2 k' = if k' = k then some v else hashTabLookup o t k' := by
  unfold hashTabLookup
  have hput := put_probed h.probed h.hasHole k v
  rw [hashInsert_tab]
  apply Option.ext
  intro w
  rw [lookup_eq_some hput, has_put h.probed h.hasHole]
  by_cases hk : k' = k
  · simp [hk, eq_comm]
  · simp [hk, lookup_eq_some h.probed]

theorem hashInsert_prev {o : HashTabOpts K} {t : HashTab K V} (h : t.Valid o) (k : K) (v : V) :
    (hashInsert o t k v).1 = hashTabLookup o t k := by
  obtain ⟨i, hf, _⟩ := put_eq_set h.probed h.hasHole k v
  unfold hashInsert hashTabLookup lookup
  cases hi : slotAt t.tab i with
  | none => simp only [hf, hi, Option.bind_some, Option.map_none]
  | some e => simp only [hf, hi, Option.bind_some, Option.map_some]

/-! ## Rehashing -/

omit [DecidableEq K] in
theorem mem_entries {t : HashTab K V} (h : Linked t) {k : K} {v : V} :
    (k, v) ∈ t.entries ↔ Has t.tab k v := by
  unfold HashTab.entries Has
  rw [List.mem_filterMap]
  constructor
  · rintro ⟨i, _, hi⟩
    exact ⟨i, hi⟩
  · rintro ⟨i, hi⟩
    exact ⟨i, (h.mem i).mpr ⟨_, hi⟩, hi⟩

omit [DecidableEq K] in
theorem entries_length {t : HashTab K V} (h : Linked t) : t.entries.length = t.count := by
  rw [h.count_eq, HashTab.entries]
  have hall : ∀ l : List Nat, (∀ i ∈ l, ∃ e, slotAt t.tab i = some e) →
      (l.filterMap (slotAt t.tab)).length = l.length := by
    intro l hl
    induction l with
    | nil => rfl
    | cons i l ih =>
      obtain ⟨e, he⟩ := hl i List.mem_cons_self
      rw [List.filterMap_cons, he, List.length_cons, List.length_cons,
        ih fun j hj => hl j (List.mem_cons_of_mem i hj)]
  exact hall t.order fun i hi => (h.mem i).mp hi

omit [DecidableEq K] in
theorem entries_nodup {t : HashTab K V} (h : Linked t) (hd : Distinct t.tab) :
    (t.entries.map Prod.fst).Nodup := by
  unfold HashTab.entries
  have hall : ∀ l : List Nat, l.Nodup → ((l.filterMap (slotAt t.tab)).map Prod.fst).Nodup := by
    intro l hl
    induction l with
    | nil => exact List.nodup_nil
    | cons i l ih =>
      rw [List.nodup_cons] at hl
      rw [List.filterMap_cons]
      cases hi : slotAt t.tab i with
      | none => exact ih hl.2
      | some e =>
        obtain ⟨k, v⟩ := e
        rw [List.map_cons, List.nodup_cons]
        refine ⟨fun hmem => ?_, ih hl.2⟩
        obtain ⟨⟨k', w⟩, hw, rfl⟩ := List.mem_map.mp hmem
        obtain ⟨j, hj, hjw⟩ := List.mem_filterMap.mp hw
        exact hl.1 (hd i j _ v w hi hjw ▸ hj)
  exact hall t.order h.nodup

/-- The insertions of a rehash, into a table with room for all of them. -/
theorem foldl_insert_spec {o : HashTabOpts K} : ∀ (l : List (K × V)) {t : HashTab K V}, t.Valid o →
    t.count + l.length < t.capacity → (l.map Prod.fst).Nodup →
    (∀ e ∈ l, hashTabLookup o t e.1 = none) →
    let t' := l.foldl (fun t e => (hashInsert o t e.1 e.2).2) t
    t'.Valid o ∧ t'.capacity = t.capacity ∧ t'.count ≤ t.count + l.length ∧
      ∀ k v, hashTabLookup o t' k = some v ↔ (k, v) ∈ l ∨ hashTabLookup o t k = some v
  | [], t, h, _, _, _ => ⟨h, rfl, Nat.le_refl _, fun _ _ => by simp⟩
  | e :: l, t, h, hroom, hnd, hnew => by
    rw [List.length_cons] at hroom
    rw [List.map_cons, List.nodup_cons] at hnd
    have hv := h.hashInsert (by omega) e.1 e.2
    have hcap := hashInsert_capacity o t e.1 e.2
    have hcount := hashInsert_count_le o t e.1 e.2
    have hnew' : ∀ e' ∈ l, hashTabLookup o (hashInsert o t e.1 e.2).2 e'.1 = none := by
      intro e' he'
      rw [hashInsert_lookup h, if_neg]
      · exact hnew e' (List.mem_cons_of_mem e he')
      · intro heq
        exact hnd.1 (heq ▸ List.mem_map_of_mem he')
    have ih := foldl_insert_spec l hv (by omega) hnd.2 hnew'
    refine ⟨ih.1, ih.2.1.trans hcap, ?_, fun k v => ?_⟩
    · have := ih.2.2.1
      rw [List.length_cons, List.foldl_cons]
      omega
    · rw [List.foldl_cons, ih.2.2.2 k v, hashInsert_lookup h, List.mem_cons]
      by_cases hk : k = e.1
      · subst hk
        have hnone := hnew e List.mem_cons_self
        have hl : (e.1, v) ∉ l := fun hm => hnd.1 (List.mem_map.mpr ⟨_, hm, rfl⟩)
        simp [hl, hnone, Prod.ext_iff, eq_comm]
      · simp [hk, Prod.ext_iff]

theorem rehash_spec {o : HashTabOpts K} {t : HashTab K V} (h : t.Valid o) :
    (rehash o t).Valid o ∧ (rehash o t).capacity = t.capacity * 2 ∧ (rehash o t).count ≤ t.count ∧
      ∀ k, hashTabLookup o (rehash o t) k = hashTabLookup o t k := by
  have hlt := h.count_lt
  have hblank : (HashTab.blank (t.capacity * 2) : HashTab K V).capacity = t.capacity * 2 := by
    simp [HashTab.capacity, HashTab.blank]
  have hempty : ∀ k, hashTabLookup o (HashTab.blank (t.capacity * 2) : HashTab K V) k = none := by
    exact hashTabLookup_blank o _
  have hlen := entries_length h.linked
  have hspec := foldl_insert_spec (o := o) t.entries
    (HashTab.valid_blank o (t.capacity * 2) (by omega))
    (by rw [hblank, hlen]; simp only [HashTab.blank]; omega)
    (entries_nodup h.linked h.probed.distinct) (fun e _ => hempty e.1)
  refine ⟨hspec.1, hspec.2.1.trans hblank, ?_, fun k => ?_⟩
  · have := hspec.2.2.1
    rw [hlen, show (HashTab.blank (t.capacity * 2) : HashTab K V).count = 0 from rfl] at this
    rw [rehash]
    omega
  · apply Option.ext
    intro v
    have := hspec.2.2.2 k v
    rw [hempty k, mem_entries h.linked] at this
    rw [rehash, this, hashTabLookup, lookup_eq_some h.probed]
    simp

/-! ## Removal, addition and update -/

/-- A removal leaves the capacity and adds no entry. -/
theorem hashTabRemove_load {o : HashTabOpts K} {t : HashTab K V} (h : Linked t) (k : K) :
    (hashTabRemove o t k).2.capacity = t.capacity ∧ (hashTabRemove o t k).2.count ≤ t.count := by
  unfold hashTabRemove
  split
  · exact ⟨rfl, Nat.le_refl _⟩
  · next i _ =>
    split
    · exact ⟨rfl, Nat.le_refl _⟩
    · next e he =>
      have hcount := (reinsertFrom_linked o t.capacity ((i + 1) % t.capacity) (h.entUnlink he)).2
      refine ⟨?_, Nat.le_trans hcount (Nat.sub_le _ _)⟩
      unfold HashTab.capacity
      rw [reinsertFrom_tab, relocate_length]
      exact List.length_set

theorem HashTab.Valid.remove {o : HashTabOpts K} {t : HashTab K V} (h : t.Valid o) (k : K) :
    (hashTabRemove o t k).2.Valid o ∧ (hashTabRemove o t k).1 = hashTabLookup o t k ∧
      ∀ k', hashTabLookup o (hashTabRemove o t k).2 k' =
        if k' = k then none else hashTabLookup o t k' := by
  by_cases hk : ∃ v, Has t.tab k v
  · obtain ⟨v, i, hi⟩ := hk
    have hf := find_of_slotAt h.probed hi
    have hrem : hashTabRemove o t k =
        (some v, reinsertFrom o t.capacity (entUnlink t i) ((i + 1) % t.capacity)) := by
      unfold hashTabRemove
      simp only [hf, hi]
    -- the run behind the freed slot is inserted again
    have htab : (hashTabRemove o t k).2.tab = delete o.hash t.tab i := by
      rw [hrem]
      exact reinsertFrom_tab o _ _ _
    obtain ⟨hprobed, hhas⟩ := delete_spec h.probed h.hasHole hi
    obtain ⟨hlinked, hcount⟩ :=
      reinsertFrom_linked o t.capacity ((i + 1) % t.capacity) (h.linked.entUnlink hi)
    refine ⟨⟨htab ▸ hprobed, by rw [hrem]; exact hlinked, ?_⟩, ?_, fun k' => ?_⟩
    · have hcap : (hashTabRemove o t k).2.capacity = t.capacity := by
        rw [HashTab.capacity, htab, delete, relocate_length, List.length_set]
        rfl
      have hlt := h.count_lt
      have hun : (entUnlink t i).count = t.count - 1 := rfl
      rw [hcap, hrem]
      exact Nat.lt_of_le_of_lt hcount (by omega)
    · rw [hrem]
      exact ((lookup_eq_some h.probed).mpr ⟨i, hi⟩).symm
    · apply Option.ext
      intro w
      rw [hashTabLookup, htab, lookup_eq_some hprobed, hhas]
      by_cases hkk : k' = k
      · simp [hkk]
      · simp [hkk, hashTabLookup, lookup_eq_some h.probed]
  · -- the probe for a key that is not in the table ends at a free slot
    have hno : ∀ v, ¬ Has t.tab k v := fun v hv => hk ⟨v, hv⟩
    obtain ⟨d, _, hf, hcell, _⟩ := find_of_not_has o.hash h.hasHole hno
    have hnone : hashTabLookup o t k = none := (lookup_eq_none h.probed).mpr hno
    have hrem : hashTabRemove o t k = (none, t) := by
      have hslot : slotAt t.tab ((o.hash k + d) % t.tab.length) = none := hcell
      unfold hashTabRemove
      simp only [hf, hslot]
    rw [hrem]
    refine ⟨h, hnone.symm, fun k' => ?_⟩
    by_cases hkk : k' = k
    · simp [hkk, hnone]
    · simp [hkk]

omit [DecidableEq K] in
/-- Below the threshold there is room for one more entry. -/
theorem HashTab.Valid.room {o : HashTabOpts K} {t : HashTab K V} (hv : t.Valid o)
    (h : needRehash o t = false) : t.count + 1 < t.capacity := by
  have hlt := hv.count_lt
  refine Nat.lt_of_le_of_ne hlt fun hfull => ?_
  -- the load would be one, whatever the rounding
  have hge := Single.ge_ofNat_div_self (n := t.capacity) (by omega)
    (Nat.le_of_lt o.rehashThresh.lt)
  have hfull' : t.count + 1 = t.capacity := hfull
  rw [needRehash, hfull', hge] at h
  cases h

/-- An addition fails and changes nothing, or is an update of one key, as long as there is
room for an entry wherever no rehash is needed. -/
theorem HashTab.Valid.addIf {o : HashTabOpts K} {t : HashTab K V} (h : t.Valid o) {need : Bool}
    (hroom : need = false → t.count + 1 < t.capacity) (k : K) (v : V) (keyOk tabOk : Bool) :
    (hashTabAddIf o t need k v keyOk tabOk = (⟨true, none⟩, t)) ∨
      ((hashTabAddIf o t need k v keyOk tabOk).1 = ⟨false, hashTabLookup o t k⟩ ∧
        (hashTabAddIf o t need k v keyOk tabOk).2.Valid o ∧
        ∀ k', hashTabLookup o (hashTabAddIf o t need k v keyOk tabOk).2 k' =
          if k' = k then some v else hashTabLookup o t k') := by
  have hlt := h.count_lt
  unfold hashTabAddIf
  cases keyOk with
  | false => exact .inl rfl
  | true =>
    cases need with
    | false =>
      refine .inr ⟨?_, h.hashInsert (hroom rfl) k v, fun k' => ?_⟩
      · exact congrArg (HashAddResult.mk false) (hashInsert_prev h k v)
      · exact hashInsert_lookup h k k' v
    | true =>
      cases tabOk with
      | false => exact .inl rfl
      | true =>
        obtain ⟨hv, hcap, hcount, hsame⟩ := rehash_spec h
        refine .inr ⟨?_, hv.hashInsert (by omega) k v, fun k' => ?_⟩
        · exact congrArg (HashAddResult.mk false) ((hashInsert_prev hv k v).trans (hsame k))
        · exact (hashInsert_lookup hv k k' v).trans (by rw [hsame])

/-- `HashTab.Valid.addIf`, with the load as the source computes it. -/
theorem HashTab.Valid.add {o : HashTabOpts K} {t : HashTab K V} (h : t.Valid o) (k : K) (v : V)
    (keyOk tabOk : Bool) :
    (hashTabAdd o t k v keyOk tabOk = (⟨true, none⟩, t)) ∨
      ((hashTabAdd o t k v keyOk tabOk).1 = ⟨false, hashTabLookup o t k⟩ ∧
        (hashTabAdd o t k v keyOk tabOk).2.Valid o ∧
        ∀ k', hashTabLookup o (hashTabAdd o t k v keyOk tabOk).2 k' =
          if k' = k then some v else hashTabLookup o t k') := by
  rw [hashTabAdd_eq]
  exact h.addIf h.room k v keyOk tabOk

/-- With both allocations an addition does not fail. -/
theorem hashTabAdd_err (o : HashTabOpts K) (t : HashTab K V) (k : K) (v : V) :
    (hashTabAdd o t k v true true).1.err = false := by
  unfold hashTabAdd
  cases needRehash o t <;> rfl

theorem HashTab.Valid.modify {o : HashTabOpts K} {t : HashTab K V} (h : t.Valid o) (k : K)
    (f : V → V) :
    (hashTabModify o t k f).Valid o ∧
      ∀ k', hashTabLookup o (hashTabModify o t k f) k' =
        if k' = k then (hashTabLookup o t k).map f else hashTabLookup o t k' := by
  by_cases hk : ∃ v, Has t.tab k v
  · obtain ⟨v, i, hi⟩ := hk
    have hf := find_of_slotAt h.probed hi
    -- the entry keeps its slot, and so its place in the order
    have hput : put o.hash t.tab k (f v) = t.tab.set i (some (k, f v)) := by rw [put, hf]
    have hmod : hashTabModify o t k f = { t with tab := put o.hash t.tab k (f v) } := by
      unfold hashTabModify
      simp only [hf, hi, hput]
    have hprobed := put_probed h.probed h.hasHole k (f v)
    rw [hmod]
    refine ⟨⟨hprobed, ?_, ?_⟩, fun k' => ?_⟩
    · rw [hput]
      exact h.linked.overwrite hi
    · rw [HashTab.capacity, put_length]
      exact h.count_lt
    · have hl : hashTabLookup o t k = some v := (lookup_eq_some h.probed).mpr ⟨i, hi⟩
      apply Option.ext
      intro w
      rw [hashTabLookup, lookup_eq_some hprobed, has_put h.probed h.hasHole, hl]
      by_cases hkk : k' = k
      · simp [hkk, eq_comm]
      · simp [hkk, hashTabLookup, lookup_eq_some h.probed]
  · have hno : ∀ v, ¬ Has t.tab k v := fun v hv => hk ⟨v, hv⟩
    obtain ⟨d, _, hf, hcell, _⟩ := find_of_not_has o.hash h.hasHole hno
    have hnone : hashTabLookup o t k = none := (lookup_eq_none h.probed).mpr hno
    have hmod : hashTabModify o t k f = t := by
      have hslot : slotAt t.tab ((o.hash k + d) % t.tab.length) = none := hcell
      unfold hashTabModify
      simp only [hf, hslot]
    rw [hmod]
    refine ⟨h, fun k' => ?_⟩
    by_cases hkk : k' = k
    · simp [hkk, hnone]
    · simp [hkk]

/-! ## Renamed keys -/

section Renamed

variable {K' : Type} [DecidableEq K']

/-- The table with its keys renamed. -/
def HashTab.mapKeys (f : K → K') (t : HashTab K V) : HashTab K' V :=
  ⟨Probing.mapKeys f t.tab, t.order, t.count⟩

/-- The renaming keeps keys apart and has their hashes; the tables grow alike. -/
structure Renames (f : K → K') (o : HashTabOpts K) (o' : HashTabOpts K') : Prop where
  injective : Function.Injective f
  hash : ∀ k, o'.hashFunc (f k) = o.hashFunc k
  thresh : o'.rehashThresh = o.rehashThresh

variable {f : K → K'} {o : HashTabOpts K} {o' : HashTabOpts K'} {t : HashTab K V}

omit [DecidableEq K] [DecidableEq K'] in
@[simp] theorem HashTab.mapKeys_tab : (t.mapKeys f).tab = Probing.mapKeys f t.tab := rfl

omit [DecidableEq K] [DecidableEq K'] in
@[simp] theorem HashTab.mapKeys_capacity : (t.mapKeys f).capacity = t.capacity := mapKeys_length

omit [DecidableEq K] [DecidableEq K'] in
theorem HashTab.mapKeys_blank (cap : Nat) :
    (HashTab.blank cap : HashTab K V).mapKeys f = .blank cap := by
  unfold HashTab.mapKeys HashTab.blank Probing.mapKeys
  rw [List.map_replicate]
  rfl

omit [DecidableEq K] [DecidableEq K'] in
theorem HashTab.mapKeys_entries : (t.mapKeys f).entries = t.entries.map (Prod.map f id) := by
  unfold HashTab.entries HashTab.mapKeys
  rw [List.map_filterMap]
  exact List.filterMap_congr fun i _ => slotAt_mapKeys i

omit [DecidableEq K] [DecidableEq K'] in
theorem Linked.mapKeys (h : Linked t) : Linked (t.mapKeys f) where
  nodup := h.nodup
  mem i := by
    refine (h.mem i).trans ?_
    rw [HashTab.mapKeys_tab, slotAt_mapKeys, ← Option.isSome_iff_exists, ← Option.isSome_iff_exists,
      Option.isSome_map]
  count_eq := h.count_eq

namespace Renames

omit [DecidableEq K] [DecidableEq K'] in
theorem probe (h : Renames f o o') (k : K) : o'.hash (f k) = o.hash k :=
  congrArg UInt32.toNat (h.hash k)

omit [DecidableEq K] [DecidableEq K'] in
theorem valid (h : Renames f o o') (hv : t.Valid o) : (t.mapKeys f).Valid o' where
  probed := hv.probed.mapKeys h.injective h.probe
  linked := hv.linked.mapKeys
  count_lt := by
    rw [HashTab.mapKeys_capacity]
    exact hv.count_lt

theorem hashInsert (h : Renames f o o') (t : HashTab K V) (k : K) (v : V) :
    hashInsert o' (t.mapKeys f) (f k) v =
      ((hashInsert o t k v).1, (hashInsert o t k v).2.mapKeys f) := by
  unfold JautoProf.hashInsert HashTab.mapKeys
  rw [find_mapKeys h.injective h.probe]
  cases find o.hash t.tab k with
  | none => rfl
  | some i =>
    simp only [slotAt_mapKeys]
    cases slotAt t.tab i with
    | none =>
      simp only [Option.map_none]
      rw [← mapKeys_set]
      rfl
    | some e =>
      simp only [Option.map_some]
      rw [← mapKeys_set]
      rfl

theorem rehash (h : Renames f o o') (t : HashTab K V) :
    rehash o' (t.mapKeys f) = (rehash o t).mapKeys f := by
  unfold JautoProf.rehash
  rw [HashTab.mapKeys_entries, HashTab.mapKeys_capacity, ← HashTab.mapKeys_blank (f := f)]
  generalize (HashTab.blank (t.capacity * 2) : HashTab K V) = t'
  induction t.entries generalizing t' with
  | nil => rfl
  | cons e l ih =>
    rw [List.map_cons, List.foldl_cons, List.foldl_cons, ← ih]
    exact congrArg (List.foldl _ · _) (congrArg Prod.snd (h.hashInsert t' e.1 e.2))

theorem hashTabAdd (h : Renames f o o') (t : HashTab K V) (k : K) (v : V) (keyOk tabOk : Bool) :
    hashTabAdd o' (t.mapKeys f) (f k) v keyOk tabOk =
      ((hashTabAdd o t k v keyOk tabOk).1, (hashTabAdd o t k v keyOk tabOk).2.mapKeys f) := by
  have hneed : needRehash o' (t.mapKeys f) = needRehash o t := by
    unfold needRehash
    rw [HashTab.mapKeys_capacity, h.thresh]
    rfl
  unfold JautoProf.hashTabAdd
  rw [hneed, h.rehash, h.hashInsert, h.hashInsert]
  split
  · rfl
  · split
    · split <;> rfl
    · rfl

theorem hashTabModify (h : Renames f o o') (t : HashTab K V) (k : K) (g : V → V) :
    hashTabModify o' (t.mapKeys f) (f k) g = (hashTabModify o t k g).mapKeys f := by
  unfold JautoProf.hashTabModify
  rw [HashTab.mapKeys_tab, find_mapKeys h.injective h.probe]
  cases find o.hash t.tab k with
  | none => rfl
  | some i =>
    simp only [slotAt_mapKeys]
    cases slotAt t.tab i with
    | none => rfl
    | some e =>
      simp only [Option.map_some]
      unfold HashTab.mapKeys
      rw [← mapKeys_set]
      rfl

end Renames

end Renamed

/-! ## Tables that carry their invariant -/

/-- A hash table made with `hash_tab_init` and changed by its operations only. -/
structure Table (o : HashTabOpts K) (V : Type) where
  raw : HashTab K V
  valid : raw.Valid o

namespace Table

variable {o : HashTabOpts K}

/-- `hash_tab_init`. -/
def init (o : HashTabOpts K) : Table o V := ⟨.blank o.capInit, HashTab.valid_blank o _ o.cap_pos⟩

def lookup (t : Table o V) (k : K) : Option V := hashTabLookup o t.raw k

def entries (t : Table o V) : List (K × V) := t.raw.entries

def remove (t : Table o V) (k : K) : Table o V := ⟨(hashTabRemove o t.raw k).2, (t.valid.remove k).1⟩

/-- What `hash_tab_add` returns. -/
def addResult (t : Table o V) (k : K) (v : V) (keyOk tabOk : Bool) : HashAddResult V :=
  (hashTabAdd o t.raw k v keyOk tabOk).1

/-- The table after `hash_tab_add`. -/
def add (t : Table o V) (k : K) (v : V) (keyOk tabOk : Bool) : Table o V :=
  ⟨(hashTabAdd o t.raw k v keyOk tabOk).2, by
    rcases t.valid.add k v keyOk tabOk with h | h
    · rw [h]; exact t.valid
    · exact h.2.1⟩

def modify (t : Table o V) (k : K) (f : V → V) : Table o V :=
  ⟨hashTabModify o t.raw k f, (t.valid.modify k f).1⟩

@[simp] theorem lookup_init (k : K) : (init o : Table o V).lookup k = none :=
  hashTabLookup_blank o _ k

@[simp] theorem lookup_remove (t : Table o V) (k k' : K) :
    (t.remove k).lookup k' = if k' = k then none else t.lookup k' :=
  (t.valid.remove k).2.2 k'

/-- `hash_tab_remove` returns the value it takes out. -/
theorem remove_result (t : Table o V) (k : K) : (hashTabRemove o t.raw k).1 = t.lookup k :=
  (t.valid.remove k).2.1

theorem add_of_err {t : Table o V} {k : K} {v : V} {keyOk tabOk : Bool}
    (h : (t.addResult k v keyOk tabOk).err = true) : t.add k v keyOk tabOk = t := by
  rcases t.valid.add k v keyOk tabOk with hfail | ⟨hok, _⟩
  · unfold add
    congr 1
    rw [hfail]
  · rw [addResult, hok] at h
    cases h

theorem lookup_add {t : Table o V} {k : K} {v : V} {keyOk tabOk : Bool}
    (h : (t.addResult k v keyOk tabOk).err = false) (k' : K) :
    (t.add k v keyOk tabOk).lookup k' = if k' = k then some v else t.lookup k' := by
  rcases t.valid.add k v keyOk tabOk with hfail | ⟨_, _, hl⟩
  · rw [addResult, hfail] at h
    cases h
  · exact hl k'

theorem add_prev {t : Table o V} {k : K} {v : V} {keyOk tabOk : Bool}
    (h : (t.addResult k v keyOk tabOk).err = false) :
    (t.addResult k v keyOk tabOk).prev = t.lookup k := by
  rcases t.valid.add k v keyOk tabOk with hfail | ⟨hok, _⟩
  · rw [addResult, hfail] at h
    cases h
  · rw [addResult, hok]
    rfl

@[simp] theorem addResult_err (t : Table o V) (k : K) (v : V) :
    (t.addResult k v true true).err = false := by
  rw [addResult, hashTabAdd_err]

@[simp] theorem lookup_modify (t : Table o V) (k k' : K) (f : V → V) :
    (t.modify k f).lookup k' = if k' = k then (t.lookup k).map f else t.lookup k' :=
  (t.valid.modify k f).2 k'

/-- The iteration yields the entries of the table. -/
theorem mem_entries {t : Table o V} {k : K} {v : V} : (k, v) ∈ t.entries ↔ t.lookup k = some v :=
  (JautoProf.mem_entries t.valid.linked).trans (lookup_eq_some t.valid.probed).symm

omit [DecidableEq K] in
/-- The iteration yields no key twice. -/
theorem entries_nodup (t : Table o V) : (t.entries.map Prod.fst).Nodup :=
  JautoProf.entries_nodup t.valid.linked t.valid.probed.distinct

end Table

end JautoProf
