import JautoProf.HashTabMap

/-!
# The load of the hash table (`util/hash-tab.c`)

With the load taken as an exact quotient, an addition grows the table when one more entry
would bring it to the threshold.

Results:
1. `Light.add`, `Light.remove`: a load below the threshold stays below it, once the initial
   capacity is large enough for one entry.
2. `exact_load`: over every sequence of calls no assertion fails, a slot stays empty, every
   probe ends, and the load after an addition is below the threshold.
-/

namespace JautoProf

open Probing

variable {K V : Type}

/-! ## The exact load -/

/-- `need_rehash`, with the quotient of the entries and the slots. -/
def LinkedTab.needRehashExact (o : HashTabOpts K) (t : LinkedTab K V) : Bool :=
  decide (o.rehashThresh.num * t.capacity ≤ (t.count + 1) * o.rehashThresh.den)

/-- The same on the table that keeps the list as a list. -/
def needRehashExact (o : HashTabOpts K) (t : HashTab K V) : Bool :=
  decide (o.rehashThresh.num * t.capacity ≤ (t.count + 1) * o.rehashThresh.den)

/-- The load is below the threshold. -/
def BelowThresh (o : HashTabOpts K) (count capacity : Nat) : Prop :=
  count * o.rehashThresh.den < o.rehashThresh.num * capacity

/-- And the initial capacity times the threshold is at least one. -/
structure Light (o : HashTabOpts K) (t : HashTab K V) : Prop where
  below : BelowThresh o t.count t.capacity
  large : o.rehashThresh.den ≤ o.rehashThresh.num * t.capacity

variable {o : HashTabOpts K} {t : HashTab K V} {c : LinkedTab K V}

theorem light_blank (h : o.rehashThresh.den ≤ o.rehashThresh.num * o.capInit) :
    Light o (.blank o.capInit : HashTab K V) := by
  have hcap : (HashTab.blank o.capInit : HashTab K V).capacity = o.capInit := List.length_replicate
  refine ⟨?_, by rwa [hcap]⟩
  show 0 * o.rehashThresh.den < o.rehashThresh.num * _
  rw [Nat.zero_mul, hcap]
  exact Nat.mul_pos o.rehashThresh.pos o.cap_pos

/-- Below the threshold there is room for one more entry. -/
theorem room_exact (h : needRehashExact o t = false) : t.count + 1 < t.capacity := by
  have hlt := o.rehashThresh.lt
  have hbelow := Nat.lt_of_not_le (of_decide_eq_false h)
  refine Nat.lt_of_not_le fun hle => ?_
  have hmul : o.rehashThresh.num * t.capacity ≤ (t.count + 1) * o.rehashThresh.den :=
    calc o.rehashThresh.num * t.capacity
        ≤ o.rehashThresh.den * (t.count + 1) := Nat.mul_le_mul (Nat.le_of_lt hlt) hle
      _ = (t.count + 1) * o.rehashThresh.den := Nat.mul_comm _ _
  exact Nat.not_lt.mpr hmul hbelow

theorem Refines.needRehashExact (h : Refines c t) :
    c.needRehashExact o = JautoProf.needRehashExact o t := by
  unfold LinkedTab.needRehashExact JautoProf.needRehashExact
  rw [h.capacity, h.count]

variable [DecidableEq K]

/-- An insertion leaves the capacity, and adds at most one entry. -/
theorem BelowThresh.hashInsert (h : BelowThresh o (t.count + 1) t.capacity) (k : K) (v : V) :
    BelowThresh o (hashInsert o t k v).2.count (hashInsert o t k v).2.capacity := by
  rw [hashInsert_capacity]
  exact Nat.lt_of_le_of_lt (Nat.mul_le_mul_right _ (hashInsert_count_le o t k v)) h

/-- An addition that succeeds ends below the threshold. -/
theorem Light.add (h : Light o t) (hv : t.Valid o) (k : K) (v : V) (keyOk tabOk : Bool) :
    Light o (hashTabAddIf o t (needRehashExact o t) k v keyOk tabOk).2 := by
  unfold hashTabAddIf
  cases keyOk with
  | false => exact h
  | true =>
    cases hneed : needRehashExact o t with
    | false =>
      have hbelow : BelowThresh o (t.count + 1) t.capacity :=
        Nat.lt_of_not_le (of_decide_eq_false hneed)
      refine ⟨hbelow.hashInsert k v, ?_⟩
      show _ ≤ _ * (hashInsert o t k v).2.capacity
      rw [hashInsert_capacity]
      exact h.large
    | true =>
      cases tabOk with
      | false => exact h
      | true =>
        obtain ⟨-, hcap, hcount, -⟩ := rehash_spec hv
        have hbelow : BelowThresh o ((rehash o t).count + 1) (rehash o t).capacity := by
          -- one entry more costs no more than the slots that were there
          have hsum := Nat.add_lt_add_of_lt_of_le h.below h.large
          have hle := Nat.mul_le_mul_right o.rehashThresh.den hcount
          unfold BelowThresh
          rw [hcap, Nat.mul_two, Nat.mul_add, Nat.add_mul, Nat.one_mul]
          exact Nat.lt_of_le_of_lt (Nat.add_le_add_right hle _) hsum
        refine ⟨hbelow.hashInsert k v, ?_⟩
        show _ ≤ _ * (hashInsert o (rehash o t) k v).2.capacity
        rw [hashInsert_capacity, hcap]
        exact Nat.le_trans h.large (Nat.mul_le_mul_left _ (Nat.le_mul_of_pos_right _ Nat.two_pos))

theorem Light.remove (h : Light o t) (hv : t.Valid o) (k : K) :
    Light o (hashTabRemove o t k).2 := by
  obtain ⟨hcap, hcount⟩ := hashTabRemove_load (o := o) hv.linked k
  refine ⟨?_, by rw [hcap]; exact h.large⟩
  rw [hcap]
  exact Nat.lt_of_le_of_lt (Nat.mul_le_mul_right _ hcount) h.below

/-! ## Sequences of calls -/

namespace LinkedTab

/-- `hash_tab_add`, with the exact quotient. -/
def hashTabAddExact (o : HashTabOpts K) (t : LinkedTab K V) (k : K) (v : V) (keyOk tabOk : Bool) :
    Option (HashAddResult V × LinkedTab K V) :=
  t.hashTabAddIf o (t.needRehashExact o) k v keyOk tabOk

/-- The table after a call. -/
def callExact (o : HashTabOpts K) (t : LinkedTab K V) : TabOp K V → Option (LinkedTab K V)
  | .add k v keyOk tabOk => (t.hashTabAddExact o k v keyOk tabOk).map Prod.snd
  | .remove k => (t.hashTabRemove o k).map Prod.snd

end LinkedTab

/-- The fields of the table are those of a valid one, which is light if the initial one was. -/
structure Loaded (o : HashTabOpts K) (c : LinkedTab K V) (t : HashTab K V) : Prop where
  refines : Refines c t
  valid : t.Valid o
  light : o.rehashThresh.den ≤ o.rehashThresh.num * o.capInit → Light o t

omit [DecidableEq K] in
theorem loaded_init (o : HashTabOpts K) :
    Loaded o (.hashTabInit o : LinkedTab K V) (.blank o.capInit) where
  refines := .blank o.capInit
  valid := HashTab.valid_blank o o.capInit o.cap_pos
  light := light_blank

theorem Loaded.add (h : Loaded o c t) (k : K) (v : V) (keyOk tabOk : Bool) :
    ∃ r c' t', c.hashTabAddExact o k v keyOk tabOk = some (r, c') ∧ Loaded o c' t' := by
  obtain ⟨c', hc', hrefines⟩ :=
    h.refines.addIf h.valid (c.needRehashExact o) k v keyOk tabOk
  rw [h.refines.needRehashExact] at hc' hrefines
  refine ⟨(hashTabAddIf o t (needRehashExact o t) k v keyOk tabOk).1, c', _, ?_, hrefines, ?_,
    fun hlarge => (h.light hlarge).add h.valid k v keyOk tabOk⟩
  · unfold LinkedTab.hashTabAddExact
    rw [h.refines.needRehashExact]
    exact hc'
  · rcases h.valid.addIf room_exact k v keyOk tabOk with hfail | ⟨-, hvalid, -⟩
    · rw [hfail]
      exact h.valid
    · exact hvalid

theorem Loaded.call (h : Loaded o c t) (op : TabOp K V) :
    ∃ c' t', c.callExact o op = some c' ∧ Loaded o c' t' := by
  cases op with
  | add k v keyOk tabOk =>
    obtain ⟨r, c', t', hc', hloaded⟩ := h.add k v keyOk tabOk
    exact ⟨c', t', by rw [LinkedTab.callExact, hc']; rfl, hloaded⟩
  | remove k =>
    obtain ⟨c', hc', hrefines⟩ := h.refines.remove h.valid k
    exact ⟨c', _, by rw [LinkedTab.callExact, hc']; rfl, hrefines, (h.valid.remove k).1,
      fun hlarge => (h.light hlarge).remove h.valid k⟩

theorem Loaded.calls (h : Loaded o c t) (ops : List (TabOp K V)) :
    ∃ c' t', ops.foldlM (LinkedTab.callExact o) c = some c' ∧ Loaded o c' t' := by
  induction ops generalizing c t with
  | nil => exact ⟨c, t, rfl, h⟩
  | cons op ops ih =>
    obtain ⟨c₁, t₁, hc₁, h₁⟩ := h.call op
    obtain ⟨c', t', hc', h'⟩ := ih h₁
    refine ⟨c', t', ?_, h'⟩
    rw [List.foldlM_cons, hc₁]
    exact hc'

/-- The slot where a probe for `k` ends is empty or holds `k`. -/
def ProbeEnds (o : HashTabOpts K) (c : LinkedTab K V) (k : K) : Prop :=
  ∃ i, find o.hash c.tab k = some i ∧ ∀ e, slotAt c.tab i = some e → e.1 = k

omit [DecidableEq K] in
theorem Loaded.hasHole (h : Loaded o c t) : HasHole c.tab := h.refines.tab ▸ h.valid.hasHole

theorem Loaded.probeEnds (h : Loaded o c t) (k : K) : ProbeEnds o c k := by
  obtain ⟨i, hfind⟩ := Refines.exists_find (o := o) h.valid.hasHole k
  obtain ⟨d, -, hi, -, hend⟩ := scan_eq_some hfind
  refine ⟨i, by rw [h.refines.tab, hfind], fun e he => ?_⟩
  rw [h.refines.tab, hi] at he
  rcases hend with hnone | ⟨w, hw⟩
  · cases hnone.symm.trans he
  · cases hw.symm.trans he
    rfl

/-- Over every sequence of additions and removals, whatever the allocator answers: no assertion
fails, and then a slot is empty and every probe ends at a match or an empty slot. If the initial
capacity times the threshold is at least one, the load after an addition that succeeds is below
the threshold. -/
theorem exact_load (o : HashTabOpts K) (ops : List (TabOp K V)) :
    ∃ c, ops.foldlM (LinkedTab.callExact o) (.hashTabInit o) = some c ∧ HasHole c.tab ∧
      (∀ k, ProbeEnds o c k) ∧
      ∀ k v keyOk tabOk, ∃ r c', c.hashTabAddExact o k v keyOk tabOk = some (r, c') ∧
        (o.rehashThresh.den ≤ o.rehashThresh.num * o.capInit →
          BelowThresh o c'.hashTabSize c'.capacity) := by
  obtain ⟨c, t, hc, hloaded⟩ := (loaded_init o).calls ops
  refine ⟨c, hc, hloaded.hasHole, hloaded.probeEnds, fun k v keyOk tabOk => ?_⟩
  obtain ⟨r, c', t', hc', hloaded'⟩ := hloaded.add k v keyOk tabOk
  refine ⟨r, c', hc', fun hlarge => ?_⟩
  have hbelow := (hloaded'.light hlarge).below
  rwa [← hloaded'.refines.count, ← hloaded'.refines.capacity] at hbelow

end JautoProf
