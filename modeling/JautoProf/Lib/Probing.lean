import Mathlib.Tactic.Common
import Mathlib.Data.List.Basic
import Mathlib.Data.Nat.ModEq

/-!
# Linear probing with deletion by relocation

An open-addressing table is a list of slots. A key starts at its hash modulo the
number of slots and moves one slot on, cyclically, until it meets its own entry or
an empty slot. A deletion empties one slot and puts the entries of the run behind
it in again, one by one, until the run ends at an empty slot; no tombstones are kept.

Results:
1. `lookup_eq_some`: in a probed table a lookup finds exactly the stored entries.
2. `put_probed`, `has_put`: inserting keeps the table probed and adds one entry.
3. `delete_probed`, `has_delete`: deleting keeps the table probed and removes one entry.
4. `find_mapKeys`: renaming the keys moves no entry.

Positions are natural numbers taken modulo the number of slots, so that a run which
wraps around the end of the table is an ordinary interval of positions.
-/

namespace JautoProf.Probing

variable {K V : Type}

/-- The slots of the table; `none` is an empty slot. -/
abbrev Slots (K V : Type) := List (Option (K × V))

/-- What the slot `i` holds. -/
def slotAt (s : Slots K V) (i : Nat) : Option (K × V) := (s[i]?).join

/-- What the slot at the position `x`, taken modulo the number of slots, holds. -/
def cell (s : Slots K V) (x : Nat) : Option (K × V) := slotAt s (x % s.length)

/-- The entry `(k, v)` is stored in some slot. -/
def Has (s : Slots K V) (k : K) (v : V) : Prop := ∃ i, slotAt s i = some (k, v)

/-- The table has an empty slot. -/
def HasHole (s : Slots K V) : Prop := ∃ i, i < s.length ∧ slotAt s i = none

/-- A key is stored once. -/
def Distinct (s : Slots K V) : Prop :=
  ∀ i j k v w, slotAt s i = some (k, v) → slotAt s j = some (k, w) → i = j

/-- Every entry is reached by its own probe: no slot before it is empty. -/
structure Probed (hash : K → Nat) (s : Slots K V) : Prop where
  distinct : Distinct s
  path : ∀ i k v, slotAt s i = some (k, v) →
    ∃ d, d < s.length ∧ (hash k + d) % s.length = i ∧ ∀ e, e < d → cell s (hash k + e) ≠ none

/-! ## Slots -/

theorem slotAt_lt {s : Slots K V} {i : Nat} {e : K × V} (h : slotAt s i = some e) :
    i < s.length := by
  by_contra hge
  simp [slotAt, List.getElem?_eq_none (Nat.le_of_not_lt hge)] at h

theorem slotAt_set {s : Slots K V} {i : Nat} (hi : i < s.length) (x : Option (K × V)) (j : Nat) :
    slotAt (s.set i x) j = if j = i then x else slotAt s j := by
  unfold slotAt
  rw [List.getElem?_set]
  by_cases hij : i = j
  · subst hij; simp [hi]
  · simp [hij, Ne.symm hij]

theorem slotAt_replicate (n i : Nat) : slotAt (List.replicate n (none : Option (K × V))) i = none := by
  unfold slotAt
  rw [List.getElem?_replicate]
  split <;> rfl

theorem cell_set {s : Slots K V} {i : Nat} (hi : i < s.length) (x : Option (K × V)) (y : Nat) :
    cell (s.set i x) y = if y % s.length = i then x else cell s y := by
  unfold cell
  rw [List.length_set, slotAt_set hi]

theorem probed_replicate (hash : K → Nat) (n : Nat) :
    Probed hash (List.replicate n (none : Option (K × V))) where
  distinct := by
    intro i j k v w h
    rw [slotAt_replicate] at h
    cases h
  path := by
    intro i k v h
    rw [slotAt_replicate] at h
    cases h

/-- Two positions less than one turn apart are different slots. -/
theorem mod_ne_of_lt {n x y : Nat} (hxy : x < y) (hyn : y < x + n) : y % n ≠ x % n := by
  intro h
  have hdvd : n ∣ y - x := (Nat.modEq_iff_dvd' (Nat.le_of_lt hxy)).mp h.symm
  have hle := Nat.le_of_dvd (by omega) hdvd
  omega

/-- A slot has a position in every turn. -/
theorem exists_pos_mod {n i : Nat} (hi : i < n) (a : Nat) :
    ∃ x, a ≤ x ∧ x < a + n ∧ x % n = i := by
  have hn : 0 < n := by omega
  have hlt := Nat.mod_lt a hn
  have hdiv := Nat.div_add_mod a n
  by_cases h : a % n ≤ i
  · refine ⟨n * (a / n) + i, by omega, by omega, ?_⟩
    rw [Nat.mul_add_mod, Nat.mod_eq_of_lt hi]
  · refine ⟨n * (a / n + 1) + i, ?_, ?_, ?_⟩
    · rw [Nat.mul_add]; omega
    · rw [Nat.mul_add]; omega
    · rw [Nat.mul_add_mod, Nat.mod_eq_of_lt hi]

variable [DecidableEq K]

/-! ## The table operations -/

/-- The probe loop: from the index `i`, the first slot that is empty or holds `k`. -/
def scan (s : Slots K V) (k : K) : Nat → Nat → Option Nat
  | 0, _ => none
  | fuel + 1, i =>
    match slotAt s i with
    | none => some i
    | some e => if e.1 = k then some i else scan s k fuel ((i + 1) % s.length)

/-- The slot where a probe for `k` ends; `none` when every slot holds another key. -/
def find (hash : K → Nat) (s : Slots K V) (k : K) : Option Nat :=
  scan s k s.length (hash k % s.length)

def lookup (hash : K → Nat) (s : Slots K V) (k : K) : Option V :=
  (find hash s k).bind fun i => (slotAt s i).map Prod.snd

/-- Put `(k, v)` where the probe for `k` ends. -/
def put (hash : K → Nat) (s : Slots K V) (k : K) (v : V) : Slots K V :=
  match find hash s k with
  | none => s
  | some i => s.set i (some (k, v))

/-- Put the entries of the run that starts at the index `i` in again. -/
def relocate (hash : K → Nat) : Nat → Slots K V → Nat → Slots K V
  | 0, s, _ => s
  | fuel + 1, s, i =>
    match slotAt s i with
    | none => s
    | some e => relocate hash fuel (put hash (s.set i none) e.1 e.2) ((i + 1) % s.length)

/-- Empty the slot `i` and put the run behind it in again. -/
def delete (hash : K → Nat) (s : Slots K V) (i : Nat) : Slots K V :=
  relocate hash s.length (s.set i none) ((i + 1) % s.length)

/-! ## The probe loop -/

theorem scan_eq_some {s : Slots K V} {k : K} : ∀ {fuel x i : Nat},
    scan s k fuel (x % s.length) = some i →
    ∃ d, d < fuel ∧ i = (x + d) % s.length ∧
      (∀ e, e < d → ∃ k' v', cell s (x + e) = some (k', v') ∧ k' ≠ k) ∧
      (cell s (x + d) = none ∨ ∃ v, cell s (x + d) = some (k, v))
  | 0, _, _, h => nomatch h
  | fuel + 1, x, i, h => by
    unfold scan at h
    cases hc : slotAt s (x % s.length) with
    | none =>
      rw [hc] at h
      cases h
      exact ⟨0, Nat.succ_pos _, rfl, fun e he => absurd he (Nat.not_lt_zero e), .inl hc⟩
    | some e =>
      obtain ⟨k', v'⟩ := e
      rw [hc] at h
      by_cases hk : k' = k
      · subst hk
        simp only [↓reduceIte, Option.some.injEq] at h
        exact ⟨0, Nat.succ_pos _, h.symm, fun e he => absurd he (Nat.not_lt_zero e), .inr ⟨v', hc⟩⟩
      · simp only [hk, ↓reduceIte] at h
        rw [Nat.mod_add_mod] at h
        obtain ⟨d, hd, hi, hbefore, hend⟩ := scan_eq_some h
        refine ⟨d + 1, by omega, by rw [hi]; congr 1; omega, ?_, ?_⟩
        · intro e he
          cases e with
          | zero => exact ⟨k', v', hc, hk⟩
          | succ e =>
            have := hbefore e (by omega)
            rwa [show x + 1 + e = x + (e + 1) by omega] at this
        · rwa [show x + 1 + d = x + (d + 1) by omega] at hend

theorem scan_eq_none {s : Slots K V} {k : K} : ∀ {fuel x : Nat},
    scan s k fuel (x % s.length) = none →
    ∀ e, e < fuel → ∃ k' v', cell s (x + e) = some (k', v') ∧ k' ≠ k
  | 0, _, _, e, he => absurd he (Nat.not_lt_zero e)
  | fuel + 1, x, h, e, he => by
    unfold scan at h
    cases hc : slotAt s (x % s.length) with
    | none => rw [hc] at h; cases h
    | some p =>
      obtain ⟨k', v'⟩ := p
      rw [hc] at h
      by_cases hk : k' = k
      · simp [hk] at h
      · simp only [hk, ↓reduceIte] at h
        rw [Nat.mod_add_mod] at h
        cases e with
        | zero => exact ⟨k', v', hc, hk⟩
        | succ e =>
          have := scan_eq_none h e (by omega)
          rwa [show x + 1 + e = x + (e + 1) by omega] at this

/-- The probe for a stored key ends at its entry. -/
theorem find_of_slotAt {hash : K → Nat} {s : Slots K V} (hp : Probed hash s) {i : Nat} {k : K}
    {v : V} (h : slotAt s i = some (k, v)) : find hash s k = some i := by
  obtain ⟨d, hd, hi, hpath⟩ := hp.path i k v h
  have hcell : cell s (hash k + d) = some (k, v) := by unfold cell; rw [hi]; exact h
  unfold find
  cases hs : scan s k s.length (hash k % s.length) with
  | none =>
    obtain ⟨k', v', hc, hne⟩ := scan_eq_none hs d hd
    rw [hcell] at hc
    cases hc
    exact absurd rfl hne
  | some j =>
    obtain ⟨d', _, hj, hbefore, hend⟩ := scan_eq_some hs
    rcases Nat.lt_trichotomy d d' with hlt | rfl | hlt
    · obtain ⟨k', v', hc, hne⟩ := hbefore d hlt
      rw [hcell] at hc
      cases hc
      exact absurd rfl hne
    · rw [hj, hi]
    · rcases hend with hnone | ⟨w, hw⟩
      · exact absurd hnone (hpath d' hlt)
      · rw [hj]
        exact congrArg some (hp.distinct _ _ k w v hw h)

/-- The probe for a key that is not stored ends at an empty slot. -/
theorem find_of_not_has (hash : K → Nat) {s : Slots K V} (hh : HasHole s) {k : K}
    (hk : ∀ v, ¬ Has s k v) :
    ∃ d, d < s.length ∧ find hash s k = some ((hash k + d) % s.length) ∧
      cell s (hash k + d) = none ∧ ∀ e, e < d → cell s (hash k + e) ≠ none := by
  obtain ⟨z, hz, hempty⟩ := hh
  unfold find
  cases hs : scan s k s.length (hash k % s.length) with
  | none =>
    obtain ⟨x, hx, hxn, hmod⟩ := exists_pos_mod hz (hash k)
    obtain ⟨k', v', hc, _⟩ := scan_eq_none hs (x - hash k) (by omega)
    rw [show hash k + (x - hash k) = x by omega, cell, hmod, hempty] at hc
    cases hc
  | some i =>
    obtain ⟨d, hd, hi, hbefore, hend⟩ := scan_eq_some hs
    refine ⟨d, hd, by rw [hi], ?_, ?_⟩
    · rcases hend with hnone | ⟨v, hv⟩
      · exact hnone
      · exact absurd ⟨_, hv⟩ (hk v)
    · intro e he hnone
      obtain ⟨k', v', hc, _⟩ := hbefore e he
      rw [hnone] at hc
      cases hc

/-! ## Lookup -/

theorem lookup_eq_some {hash : K → Nat} {s : Slots K V} (hp : Probed hash s) {k : K} {v : V} :
    lookup hash s k = some v ↔ Has s k v := by
  constructor
  · intro h
    unfold lookup find at h
    cases hs : scan s k s.length (hash k % s.length) with
    | none => rw [hs] at h; cases h
    | some i =>
      rw [hs] at h
      obtain ⟨d, _, hi, _, hend⟩ := scan_eq_some hs
      have hsi : slotAt s i = cell s (hash k + d) := by rw [hi]; rfl
      rcases hend with hnone | ⟨w, hw⟩
      · simp [hsi, hnone] at h
      · simp only [Option.bind_some, hsi, hw, Option.map_some, Option.some.injEq] at h
        exact ⟨i, by rw [hsi, hw, h]⟩
  · rintro ⟨i, hi⟩
    simp [lookup, find_of_slotAt hp hi, hi]

theorem lookup_eq_none {hash : K → Nat} {s : Slots K V} (hp : Probed hash s) {k : K} :
    lookup hash s k = none ↔ ∀ v, ¬ Has s k v := by
  rw [Option.eq_none_iff_forall_ne_some]
  exact forall_congr' fun v => not_congr (lookup_eq_some hp)

/-! ## Insertion -/

/-- Where `put` writes: over the entry of `k`, or in an empty slot that the probe for `k` reaches. -/
theorem put_eq_set {hash : K → Nat} {s : Slots K V} (hp : Probed hash s) (hh : HasHole s)
    (k : K) (v : V) :
    ∃ i, find hash s k = some i ∧ i < s.length ∧ put hash s k v = s.set i (some (k, v)) ∧
      ((∃ w, slotAt s i = some (k, w)) ∨ (slotAt s i = none ∧ ∀ w, ¬ Has s k w)) ∧
      ∃ d, d < s.length ∧ (hash k + d) % s.length = i ∧ ∀ e, e < d → cell s (hash k + e) ≠ none := by
  by_cases hk : ∃ w, Has s k w
  · obtain ⟨w, i, hi⟩ := hk
    have hf := find_of_slotAt hp hi
    exact ⟨i, hf, slotAt_lt hi, by rw [put, hf], .inl ⟨w, hi⟩, hp.path i k w hi⟩
  · have hk' : ∀ w, ¬ Has s k w := fun w hw => hk ⟨w, hw⟩
    obtain ⟨d, hd, hf, hnone, hpath⟩ := find_of_not_has hash hh hk'
    have hlt : (hash k + d) % s.length < s.length := Nat.mod_lt _ (by omega)
    exact ⟨_, hf, hlt, by rw [put, hf], .inr ⟨hnone, hk'⟩, d, hd, rfl, hpath⟩

theorem put_length (hash : K → Nat) (s : Slots K V) (k : K) (v : V) :
    (put hash s k v).length = s.length := by
  unfold put
  split
  · rfl
  · exact List.length_set

theorem has_put {hash : K → Nat} {s : Slots K V} (hp : Probed hash s) (hh : HasHole s)
    {k k' : K} {v v' : V} :
    Has (put hash s k v) k' v' ↔ (k' = k ∧ v' = v) ∨ (k' ≠ k ∧ Has s k' v') := by
  obtain ⟨i, _, hi, hput, hold, _⟩ := put_eq_set hp hh k v
  rw [hput]
  constructor
  · rintro ⟨j, hj⟩
    rw [slotAt_set hi] at hj
    split at hj
    · cases hj
      exact .inl ⟨rfl, rfl⟩
    · next hne =>
      refine .inr ⟨?_, j, hj⟩
      rintro rfl
      rcases hold with ⟨w, hw⟩ | ⟨_, hno⟩
      · exact hne (hp.distinct j i _ _ _ hj hw)
      · exact hno v' ⟨j, hj⟩
  · rintro (⟨rfl, rfl⟩ | ⟨hne, j, hj⟩)
    · exact ⟨i, by rw [slotAt_set hi, if_pos rfl]⟩
    · refine ⟨j, ?_⟩
      rw [slotAt_set hi, if_neg, hj]
      rintro rfl
      rcases hold with ⟨w, hw⟩ | ⟨hnone, _⟩
      · rw [hw] at hj
        cases hj
        exact hne rfl
      · rw [hnone] at hj
        cases hj

theorem put_probed {hash : K → Nat} {s : Slots K V} (hp : Probed hash s) (hh : HasHole s)
    (k : K) (v : V) : Probed hash (put hash s k v) := by
  obtain ⟨i, _, hi, hput, hold, d, hd, hdi, hpath⟩ := put_eq_set hp hh k v
  rw [hput]
  have hkeep : ∀ y, cell s y ≠ none → cell (s.set i (some (k, v))) y ≠ none := by
    intro y hy
    rw [cell_set hi]
    split
    · exact Option.some_ne_none _
    · exact hy
  -- an entry of `k` in another slot would be a second one, or would contradict `hold`
  have hother : ∀ j w, slotAt s j = some (k, w) → j = i := by
    intro j w hj
    rcases hold with ⟨w', hw'⟩ | ⟨_, hno⟩
    · exact hp.distinct j i k w w' hj hw'
    · exact absurd ⟨j, hj⟩ (hno w)
  constructor
  · intro a b k' v' w' ha hb
    rw [slotAt_set hi] at ha hb
    split at ha <;> split at hb
    · next h1 h2 => rw [h1, h2]
    · next h1 h2 =>
      simp only [Option.some.injEq, Prod.mk.injEq] at ha
      rw [← ha.1] at hb
      exact absurd (hother b w' hb) h2
    · next h1 h2 =>
      simp only [Option.some.injEq, Prod.mk.injEq] at hb
      rw [← hb.1] at ha
      exact absurd (hother a v' ha) h1
    · exact hp.distinct a b k' v' w' ha hb
  · intro j k' v' hj
    rw [List.length_set]
    rw [slotAt_set hi] at hj
    split at hj
    · next h =>
      simp only [Option.some.injEq, Prod.mk.injEq] at hj
      obtain ⟨rfl, rfl⟩ := hj
      exact ⟨d, hd, by rw [hdi, h], fun e he => hkeep _ (hpath e he)⟩
    · obtain ⟨d', hd', hj', hpath'⟩ := hp.path j k' v' hj
      exact ⟨d', hd', hj', fun e he => hkeep _ (hpath' e he)⟩

/-! ## Deletion -/

/-- A table in the middle of a deletion. The deleted slot is at the position `a`, the run has
been put in again up to the position `b`, and the slot at the position `z` is the end of the
run. An entry may have an empty slot on its path only if that slot lies in `[a, b)` and the
entry lies in the run that is still to be put in again. -/
structure Gapped (hash : K → Nat) (s : Slots K V) (a b z : Nat) : Prop where
  distinct : Distinct s
  order : a < b ∧ b ≤ z ∧ z < a + s.length
  last : cell s z = none
  path : ∀ i k v, slotAt s i = some (k, v) →
    ∃ d, d < s.length ∧ (hash k + d) % s.length = i ∧
      ∀ e, e < d → cell s (hash k + e) = none →
        (∃ y, a ≤ y ∧ y < b ∧ y % s.length = (hash k + e) % s.length) ∧
        ∃ x, b ≤ x ∧ x < z ∧ x % s.length = i ∧ ∀ y, b ≤ y → y < x → cell s y ≠ none

omit [DecidableEq K] in
/-- At the end of the run nothing is left to be put in again. -/
theorem Gapped.probed {hash : K → Nat} {s : Slots K V} {a b z : Nat} (h : Gapped hash s a b z)
    (hb : cell s b = none) : Probed hash s where
  distinct := h.distinct
  path := by
    intro i k v hi
    obtain ⟨d, hd, hdi, hgap⟩ := h.path i k v hi
    refine ⟨d, hd, hdi, fun e he hnone => ?_⟩
    obtain ⟨_, x, hbx, _, hxi, hrun⟩ := hgap e he hnone
    rcases Nat.eq_or_lt_of_le hbx with rfl | hlt
    · rw [cell, hxi, hi] at hb
      cases hb
    · exact hrun b (Nat.le_refl b) hlt hb

omit [DecidableEq K] in
/-- Emptying one slot of a probed table starts the relocation. -/
theorem gapped_start {hash : K → Nat} {s : Slots K V} (hp : Probed hash s) (hh : HasHole s)
    {i : Nat} (hi : i < s.length) (hocc : slotAt s i ≠ none) :
    ∃ z, Gapped hash (s.set i none) i (i + 1) z := by
  obtain ⟨j, hj, hempty⟩ := hh
  obtain ⟨z, hz, hzn, hzj⟩ := exists_pos_mod hj i
  have hji : j ≠ i := fun h => hocc (h ▸ hempty)
  have hzi : z ≠ i := by
    rintro rfl
    rw [Nat.mod_eq_of_lt hi] at hzj
    exact hji hzj.symm
  have hzcell : cell s z = none := by rw [cell, hzj]; exact hempty
  refine ⟨z, ?_, by rw [List.length_set]; omega, ?_, ?_⟩
  · intro a b k v w ha hb
    rw [slotAt_set hi] at ha hb
    split at ha
    · cases ha
    split at hb
    · cases hb
    exact hp.distinct a b k v w ha hb
  · rw [cell_set hi, hzj, if_neg hji]
    exact hzcell
  · intro m k v hm
    rw [slotAt_set hi] at hm
    split at hm
    · cases hm
    obtain ⟨d, hd, hdm, hpath⟩ := hp.path m k v hm
    rw [List.length_set]
    refine ⟨d, hd, hdm, fun e he hnone => ?_⟩
    rw [cell_set hi] at hnone
    split at hnone
    · next hei =>
      -- the run from the emptied slot to the entry is the rest of the entry's path
      have hrun : ∀ y, i < y → y < i + (d - e) → cell s y ≠ none := by
        intro y hy hlt
        have hmod : y % s.length = (hash k + (e + (y - i))) % s.length := by
          rw [show hash k + (e + (y - i)) = (hash k + e) + (y - i) by omega, ← Nat.mod_add_mod, hei]
          congr 1
          omega
        have := hpath (e + (y - i)) (by omega)
        rwa [cell, ← hmod] at this
      have hend : cell s (i + (d - e)) = some (k, v) := by
        have hmod : (i + (d - e)) % s.length = m := by
          rw [← hdm, show hash k + d = (hash k + e) + (d - e) by omega,
            ← Nat.mod_add_mod (hash k + e), hei]
        rw [cell, hmod]
        exact hm
      have hlast : i + (d - e) < z := by
        rcases Nat.lt_trichotomy z (i + (d - e)) with hlt | heq | hgt
        · exact absurd hzcell (hrun z (by omega) hlt)
        · rw [heq, hend] at hzcell
          cases hzcell
        · exact hgt
      refine ⟨⟨i, Nat.le_refl i, Nat.lt_succ_self i, by rw [hei, Nat.mod_eq_of_lt hi]⟩,
        i + (d - e), by omega, hlast, ?_, ?_⟩
      · rw [← hdm, show hash k + d = (hash k + e) + (d - e) by omega,
          ← Nat.mod_add_mod (hash k + e), hei]
      · intro y hy hlt
        rw [cell_set hi, if_neg]
        · exact hrun y (by omega) hlt
        · have := mod_ne_of_lt (n := s.length) (x := i) (y := y) (by omega) (by omega)
          rwa [Nat.mod_eq_of_lt hi] at this
    · exact absurd hnone (hpath e he)

/-- One round of the relocation: the entry at `b` goes to an empty slot on its own path. -/
theorem gapped_step {hash : K → Nat} {s : Slots K V} {a b z : Nat} (h : Gapped hash s a b z)
    {k : K} {v : V} (hb : slotAt s (b % s.length) = some (k, v)) :
    ∃ q, q < s.length ∧ slotAt (s.set (b % s.length) none) q = none ∧
      find hash (s.set (b % s.length) none) k = some q ∧
      Gapped hash ((s.set (b % s.length) none).set q (some (k, v))) a (b + 1) z := by
  obtain ⟨hab, hbz, hzn⟩ := h.order
  have hbi := slotAt_lt hb
  have hbcell : cell s b = some (k, v) := hb
  have hzb : z ≠ b := by
    rintro rfl
    rw [h.last] at hbcell
    cases hbcell
  set s1 := s.set (b % s.length) none with hs1
  have hlen1 : s1.length = s.length := List.length_set
  have hcell1 : ∀ y, cell s1 y = if y % s.length = b % s.length then none else cell s y :=
    fun y => cell_set hbi none y
  have hno : ∀ w, ¬ Has s1 k w := by
    rintro w ⟨j, hj⟩
    rw [hs1, slotAt_set hbi] at hj
    split at hj
    · cases hj
    · next hne => exact hne (h.distinct _ _ k w v hj hb)
  have hhole : HasHole s1 :=
    ⟨b % s.length, by rw [hlen1]; exact hbi, by rw [hs1, slotAt_set hbi, if_pos rfl]⟩
  obtain ⟨d1, hd1, hfind, hnone1, hpath1⟩ := find_of_not_has hash hhole hno
  rw [hlen1] at hd1 hfind
  obtain ⟨d0, hd0, hd0b, hgap0⟩ := h.path _ k v hb
  -- the probe stops no later than at the old slot, which is empty now
  have hle : d1 ≤ d0 := by
    by_contra hgt
    refine hpath1 d0 (by omega) ?_
    rw [hcell1, if_pos hd0b]
  set q := (hash k + d1) % s.length with hq
  have hqi : q < s.length := Nat.mod_lt _ (by omega)
  have hq1 : slotAt s1 q = none := by
    have := hnone1
    rwa [cell, hlen1] at this
  -- the new slot lies between the deleted slot and the old one
  have hqpos : ∃ y, a ≤ y ∧ y < b + 1 ∧ y % s.length = q := by
    rcases Nat.eq_or_lt_of_le hle with heq | hlt
    · exact ⟨b, by omega, by omega, by rw [hq, heq, hd0b]⟩
    · have hne : (hash k + d1) % s.length ≠ b % s.length := by
        rw [← hd0b]
        exact (mod_ne_of_lt (by omega) (by omega)).symm
      have hnone := hnone1
      rw [hcell1, if_neg hne] at hnone
      obtain ⟨⟨y, hay, hyb, hy⟩, _⟩ := hgap0 d1 hlt hnone
      exact ⟨y, hay, by omega, hy⟩
  have hzq : z % s.length ≠ q := by
    obtain ⟨y, hay, hyb, hy⟩ := hqpos
    rw [← hy]
    exact mod_ne_of_lt (by omega) (by omega)
  have hq' : q < s1.length := by rw [hlen1]; exact hqi
  have hcell2 : ∀ y, cell (s1.set q (some (k, v))) y =
      if y % s.length = q then some (k, v) else cell s1 y := by
    intro y
    rw [cell_set hq', hlen1]
  -- a slot of the run behind `b` stays occupied
  have hkeep : ∀ y, b < y → y < z → cell s y ≠ none → cell (s1.set q (some (k, v))) y ≠ none := by
    intro y hy hyz hocc
    rw [hcell2]
    split
    · exact Option.some_ne_none _
    · rw [hcell1, if_neg (mod_ne_of_lt hy (by omega))]
      exact hocc
  refine ⟨q, hqi, hq1, hfind, ?_, ?_, ?_, ?_⟩
  · intro i j k' v' w' hi hj
    rw [slotAt_set hq'] at hi hj
    split at hi <;> split at hj
    · next h1 h2 => rw [h1, h2]
    · simp only [Option.some.injEq, Prod.mk.injEq] at hi
      exact absurd ⟨j, hi.1 ▸ hj⟩ (hno w')
    · simp only [Option.some.injEq, Prod.mk.injEq] at hj
      exact absurd ⟨i, hj.1 ▸ hi⟩ (hno v')
    · rw [hs1, slotAt_set hbi] at hi hj
      split at hi
      · cases hi
      split at hj
      · cases hj
      exact h.distinct i j k' v' w' hi hj
  · rw [List.length_set, hlen1]
    omega
  · rw [hcell2, if_neg hzq, hcell1, if_neg (mod_ne_of_lt (by omega) (by omega))]
    exact h.last
  · intro i k' v' hi
    rw [List.length_set, hlen1]
    rw [slotAt_set hq'] at hi
    split at hi
    · next hiq =>
      -- the entry that was moved has no empty slot on its path
      simp only [Option.some.injEq, Prod.mk.injEq] at hi
      obtain ⟨rfl, rfl⟩ := hi
      refine ⟨d1, hd1, by rw [hiq], fun e he hnone => ?_⟩
      rw [hcell2] at hnone
      split at hnone
      · cases hnone
      · exact absurd hnone (hpath1 e he)
    · next hiq =>
      rw [hs1, slotAt_set hbi] at hi
      split at hi
      · cases hi
      next hib =>
      obtain ⟨d, hd, hdi, hgap⟩ := h.path i k' v' hi
      refine ⟨d, hd, hdi, fun e he hnone => ?_⟩
      rw [hcell2] at hnone
      split at hnone
      · cases hnone
      -- the run from `b` on, when it reaches the entry, also does from `b + 1` on
      have hshift : (∃ x, b ≤ x ∧ x < z ∧ x % s.length = i ∧ ∀ y, b ≤ y → y < x → cell s y ≠ none) →
          ∃ x, b + 1 ≤ x ∧ x < z ∧ x % s.length = i ∧
            ∀ y, b + 1 ≤ y → y < x → cell (s1.set q (some (k, v))) y ≠ none := by
        rintro ⟨x, hbx, hxz, hxi, hrun⟩
        have hxb : x ≠ b := by
          rintro rfl
          exact hib hxi.symm
        exact ⟨x, by omega, hxz, hxi, fun y hy hlt =>
          hkeep y (by omega) (by omega) (hrun y (by omega) hlt)⟩
      rw [hcell1] at hnone
      split at hnone
      · next heb =>
        -- the empty slot is the one at `b`
        refine ⟨⟨b, by omega, Nat.lt_succ_self b, heb.symm⟩, ?_⟩
        by_cases hex : ∃ e', e < e' ∧ e' < d ∧ cell s (hash k' + e') = none
        · obtain ⟨e', _, he', hnone'⟩ := hex
          exact hshift (hgap e' he' hnone').2
        · have hpos : ∀ t, (b + t) % s.length = (hash k' + (e + t)) % s.length := by
            intro t
            rw [← Nat.add_assoc, ← Nat.mod_add_mod b, ← Nat.mod_add_mod (hash k' + e), heb]
          have hrun : ∀ y, b < y → y < b + (d - e) → cell s y ≠ none := by
            intro y hy hlt hyn
            refine hex ⟨e + (y - b), by omega, by omega, ?_⟩
            rw [cell, ← hpos (y - b), show b + (y - b) = y by omega]
            exact hyn
          have hend : cell s (b + (d - e)) = some (k', v') := by
            rw [cell, hpos (d - e), show e + (d - e) = d by omega, hdi]
            exact hi
          have hlast : b + (d - e) < z := by
            rcases Nat.lt_trichotomy z (b + (d - e)) with hlt | heq | hgt
            · exact absurd h.last (hrun z (by omega) hlt)
            · have := h.last
              rw [heq, hend] at this
              cases this
            · exact hgt
          refine ⟨b + (d - e), by omega, hlast, ?_, ?_⟩
          · rw [hpos (d - e), show e + (d - e) = d by omega, hdi]
          · intro y hy hlt
            exact hkeep y (by omega) (by omega) (hrun y (by omega) hlt)
      · obtain ⟨⟨y, hay, hyb, hy⟩, hx⟩ := hgap e he hnone
        exact ⟨⟨y, hay, by omega, hy⟩, hshift hx⟩

theorem relocate_length (hash : K → Nat) : ∀ (fuel : Nat) (s : Slots K V) (i : Nat),
    (relocate hash fuel s i).length = s.length
  | 0, _, _ => rfl
  | fuel + 1, s, i => by
    unfold relocate
    split
    · rfl
    · rw [relocate_length hash fuel, put_length, List.length_set]

omit [DecidableEq K] in
/-- Taking an entry out of its slot and putting it in an empty slot stores the same entries. -/
theorem has_move {s : Slots K V} {i q : Nat} {e : K × V} (hi : slotAt s i = some e)
    (hq : q < s.length) (hnone : slotAt (s.set i none) q = none) {k : K} {v : V} :
    Has ((s.set i none).set q (some e)) k v ↔ Has s k v := by
  have hil := slotAt_lt hi
  have hq' : q < (s.set i none).length := by rw [List.length_set]; exact hq
  constructor
  · rintro ⟨j, hj⟩
    rw [slotAt_set hq'] at hj
    split at hj
    · exact ⟨i, by rw [hi, hj]⟩
    · rw [slotAt_set hil] at hj
      split at hj
      · cases hj
      · exact ⟨j, hj⟩
  · rintro ⟨j, hj⟩
    by_cases hji : j = i
    · subst hji
      exact ⟨q, by rw [slotAt_set hq', if_pos rfl, ← hi, hj]⟩
    · refine ⟨j, ?_⟩
      rw [slotAt_set hq', if_neg, slotAt_set hil, if_neg hji, hj]
      rintro rfl
      rw [slotAt_set hil, if_neg hji, hj] at hnone
      cases hnone

/-- The whole relocation, by induction on the fuel: it ends at `z` at the latest. -/
theorem relocate_spec {hash : K → Nat} : ∀ (fuel : Nat) {s : Slots K V} {a b z : Nat},
    Gapped hash s a b z → z < b + fuel →
    Probed hash (relocate hash fuel s (b % s.length)) ∧
      ∀ k v, Has (relocate hash fuel s (b % s.length)) k v ↔ Has s k v
  | 0, _, _, _, _, h, hf => absurd h.order.2.1 (by omega)
  | fuel + 1, s, a, b, z, h, hf => by
    unfold relocate
    cases hb : slotAt s (b % s.length) with
    | none => exact ⟨h.probed hb, fun _ _ => Iff.rfl⟩
    | some e =>
      obtain ⟨q, hq, hnone, hfind, hgap⟩ := gapped_step h hb
      have hput : put hash (s.set (b % s.length) none) e.1 e.2 =
          (s.set (b % s.length) none).set q (some e) := by
        rw [put, hfind]
      have hlen : ((s.set (b % s.length) none).set q (some e)).length = s.length := by
        rw [List.length_set, List.length_set]
      have ih := relocate_spec fuel hgap (by omega)
      rw [hlen] at ih
      simp only [hput, Nat.mod_add_mod]
      exact ⟨ih.1, fun k v => (ih.2 k v).trans (has_move hb hq hnone)⟩

theorem delete_spec {hash : K → Nat} {s : Slots K V} (hp : Probed hash s) (hh : HasHole s) {i : Nat}
    {k : K} {v : V} (hi : slotAt s i = some (k, v)) :
    Probed hash (delete hash s i) ∧
      ∀ k' v', Has (delete hash s i) k' v' ↔ k' ≠ k ∧ Has s k' v' := by
  have hil := slotAt_lt hi
  obtain ⟨z, hgap⟩ := gapped_start hp hh hil (by rw [hi]; exact Option.some_ne_none _)
  have hlen : (s.set i none).length = s.length := List.length_set
  have hord := hgap.order
  rw [hlen] at hord
  have hspec := relocate_spec s.length hgap (by omega)
  rw [hlen] at hspec
  refine ⟨hspec.1, fun k' v' => (hspec.2 k' v').trans ?_⟩
  constructor
  · rintro ⟨j, hj⟩
    rw [slotAt_set hil] at hj
    split at hj
    · cases hj
    · next hne =>
      refine ⟨?_, j, hj⟩
      rintro rfl
      exact hne (hp.distinct j i _ _ _ hj hi)
  · rintro ⟨hne, j, hj⟩
    refine ⟨j, ?_⟩
    rw [slotAt_set hil, if_neg, hj]
    rintro rfl
    rw [hi] at hj
    cases hj
    exact hne rfl

/-! ## Renamed keys -/

section MapKeys

variable {K' : Type} [DecidableEq K']

/-- The table with its keys renamed. -/
def mapKeys (f : K → K') (s : Slots K V) : Slots K' V := s.map (Option.map (Prod.map f id))

variable {f : K → K'} {s : Slots K V}

omit [DecidableEq K] [DecidableEq K'] in
@[simp] theorem mapKeys_length : (mapKeys f s).length = s.length := List.length_map _

omit [DecidableEq K] [DecidableEq K'] in
theorem slotAt_mapKeys (i : Nat) :
    slotAt (mapKeys f s) i = (slotAt s i).map (Prod.map f id) := by
  unfold slotAt mapKeys
  rw [List.getElem?_map]
  rcases s[i]? with _ | _ | e <;> rfl

omit [DecidableEq K] [DecidableEq K'] in
theorem mapKeys_set (i : Nat) (x : Option (K × V)) :
    (mapKeys f s).set i (x.map (Prod.map f id)) = mapKeys f (s.set i x) := by
  unfold mapKeys
  rw [List.map_set]

omit [DecidableEq K] [DecidableEq K'] in
theorem slotAt_mapKeys_eq_some {i : Nat} {k' : K'} {v : V} :
    slotAt (mapKeys f s) i = some (k', v) ↔ ∃ k, slotAt s i = some (k, v) ∧ f k = k' := by
  rw [slotAt_mapKeys, Option.map_eq_some_iff]
  constructor
  · rintro ⟨⟨k, w⟩, hi, he⟩
    cases he
    exact ⟨k, hi, rfl⟩
  · rintro ⟨k, hi, rfl⟩
    exact ⟨(k, v), hi, rfl⟩

omit [DecidableEq K] [DecidableEq K'] in
theorem Probed.mapKeys (hf : Function.Injective f) {hash : K → Nat} {hash' : K' → Nat}
    (hhash : ∀ k, hash' (f k) = hash k) (h : Probed hash s) : Probed hash' (mapKeys f s) where
  distinct := by
    intro i j k v w hi hj
    obtain ⟨a, ha, rfl⟩ := slotAt_mapKeys_eq_some.mp hi
    obtain ⟨b, hb, hba⟩ := slotAt_mapKeys_eq_some.mp hj
    rw [hf hba] at hb
    exact h.distinct i j a v w ha hb
  path := by
    intro i k v hi
    obtain ⟨a, ha, rfl⟩ := slotAt_mapKeys_eq_some.mp hi
    obtain ⟨d, hd, hmod, hbefore⟩ := h.path i a v ha
    refine ⟨d, by rwa [mapKeys_length], by rwa [hhash, mapKeys_length], fun e he => ?_⟩
    unfold cell at hbefore ⊢
    rw [hhash, mapKeys_length, slotAt_mapKeys, ne_eq, Option.map_eq_none_iff]
    exact hbefore e he

theorem scan_mapKeys (hf : Function.Injective f) (k : K) : ∀ fuel i : Nat,
    scan (mapKeys f s) (f k) fuel i = scan s k fuel i
  | 0, _ => rfl
  | fuel + 1, i => by
    unfold scan
    rw [slotAt_mapKeys]
    cases slotAt s i with
    | none => rfl
    | some e =>
      simp only [Option.map_some, Prod.map_fst, hf.eq_iff, mapKeys_length]
      rw [scan_mapKeys hf k fuel]

/-- Keys that are renamed apart, and keep their hashes, keep their places. -/
theorem find_mapKeys (hf : Function.Injective f) {hash : K → Nat} {hash' : K' → Nat}
    (hhash : ∀ k, hash' (f k) = hash k) (k : K) :
    find hash' (mapKeys f s) (f k) = find hash s k := by
  unfold find
  rw [mapKeys_length, hhash, scan_mapKeys hf]

end MapKeys

end JautoProf.Probing
