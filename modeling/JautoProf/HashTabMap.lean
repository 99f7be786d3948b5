import JautoProf.HashTab
import JautoProf.Lib.Links

/-!
# The hash table as a finite map (`util/hash-tab.c`)

`LinkedTab` is `struct hash_tab` with the `next` and `prev` fields of its entries as the
source has them; a slot is named by its index. Its operations write the fields one by one,
as the source does, and are `none` where an assertion of the source fails or a list never
ends. They refine the operations of `HashTab`, which keeps the list as a list.

The source computes slot indices in an `int`; here they are naturals, the same below
`2 ^ 31` slots.

Results:
1. `Refines.add`, `Refines.remove`, `Refines.iterate`: the operations on the fields do what
   those of `HashTab` do, and no assertion fails.
2. `hash_tab_map`: over every sequence of additions and removals the table behaves as a
   finite map.
-/

namespace JautoProf

open Probing

variable {K V : Type}

/-! ## The table with its links -/

/-- `struct hash_tab`, with the links of its entries. -/
structure LinkedTab (K V : Type) where
  tab : Slots K V
  links : Links Nat
  count : Nat

namespace LinkedTab

def capacity (t : LinkedTab K V) : Nat := t.tab.length

/-- The table that `calloc` gives. -/
def blank (cap : Nat) : LinkedTab K V := ⟨List.replicate cap none, .empty, 0⟩

/-- `hash_tab_init`. -/
def hashTabInit (o : HashTabOpts K) : LinkedTab K V := blank o.capInit

/-- `hash_tab_size`. -/
def hashTabSize (t : LinkedTab K V) : Nat := t.count

/-- The calls of `hash_tab_iterate` from `hash_tab_itr_init` until it returns `NULL`. -/
def hashTabIterate (t : LinkedTab K V) : Option (List (K × V)) :=
  (t.links.walk t.capacity t.links.head).bind fun l => l.mapM (slotAt t.tab)

/-- `ent_unlink`. -/
def entUnlink (t : LinkedTab K V) (i : Nat) : Option (LinkedTab K V) :=
  (t.links.unlink i).map fun links => ⟨t.tab.set i none, links, t.count - 1⟩

/-- `need_rehash`. -/
def needRehash (o : HashTabOpts K) (t : LinkedTab K V) : Bool :=
  ((Single.ofNat (t.count + 1)).div (Single.ofNat t.capacity)).ge
    o.rehashThresh.num o.rehashThresh.den

variable [DecidableEq K]

/-- `hash_insert`. -/
def hashInsert (o : HashTabOpts K) (t : LinkedTab K V) (k : K) (v : V) :
    Option (Option V × LinkedTab K V) :=
  match find o.hash t.tab k with
  | none => none
  | some i =>
    match slotAt t.tab i with
    | none => (t.links.push i).map fun links =>
        (none, ⟨t.tab.set i (some (k, v)), links, t.count + 1⟩)
    | some e => some (some e.2, { t with tab := t.tab.set i (some (k, v)) })

/-- `rehash`, when the allocation of the new array succeeds. The loop visits the entries of
the old array as an iteration does, and writes the new array only. -/
def rehash (o : HashTabOpts K) (t : LinkedTab K V) : Option (LinkedTab K V) :=
  t.hashTabIterate.bind fun l =>
    l.foldlM (fun t' e => (t'.hashInsert o e.1 e.2).map Prod.snd) (blank (t.capacity * 2))

/-- The loop of `hash_tab_remove` over the orphaned entries. -/
def reinsertFrom (o : HashTabOpts K) : Nat → LinkedTab K V → Nat → Option (LinkedTab K V)
  | 0, t, _ => some t
  | fuel + 1, t, idx =>
    match slotAt t.tab idx with
    | none => some t
    | some e => (t.entUnlink idx).bind fun t => (t.hashInsert o e.1 e.2).bind fun r =>
        reinsertFrom o fuel r.2 ((idx + 1) % t.capacity)

/-- `hash_tab_lookup`. -/
def hashTabLookup (o : HashTabOpts K) (t : LinkedTab K V) (k : K) : Option V :=
  lookup o.hash t.tab k

/-- `hash_tab_remove`. -/
def hashTabRemove (o : HashTabOpts K) (t : LinkedTab K V) (k : K) :
    Option (Option V × LinkedTab K V) :=
  match find o.hash t.tab k with
  | none => some (none, t)
  | some i =>
    match slotAt t.tab i with
    | none => some (none, t)
    | some e => (t.entUnlink i).bind fun t =>
        (reinsertFrom o t.capacity t ((i + 1) % t.capacity)).map fun t => (some e.2, t)

/-- `hash_tab_add`. -/
def hashTabAdd (o : HashTabOpts K) (t : LinkedTab K V) (k : K) (v : V) (keyOk tabOk : Bool) :
    Option (HashAddResult V × LinkedTab K V) :=
  if !keyOk then some (⟨true, none⟩, t)
  else if needRehash o t then
    if tabOk then
      (rehash o t).bind fun t => (t.hashInsert o k v).map fun r => (⟨false, r.1⟩, r.2)
    else some (⟨true, none⟩, t)
  else (t.hashInsert o k v).map fun r => (⟨false, r.1⟩, r.2)

/-- `hash_tab_add`, given what `need_rehash` says. -/
def hashTabAddIf (o : HashTabOpts K) (t : LinkedTab K V) (need : Bool) (k : K) (v : V)
    (keyOk tabOk : Bool) : Option (HashAddResult V × LinkedTab K V) :=
  if !keyOk then some (⟨true, none⟩, t)
  else if need then
    if tabOk then
      (rehash o t).bind fun t => (t.hashInsert o k v).map fun r => (⟨false, r.1⟩, r.2)
    else some (⟨true, none⟩, t)
  else (t.hashInsert o k v).map fun r => (⟨false, r.1⟩, r.2)

theorem hashTabAdd_eq (o : HashTabOpts K) (t : LinkedTab K V) :
    t.hashTabAdd o = t.hashTabAddIf o (t.needRehash o) := rfl

/-- A write to what the value of a key points to. -/
def hashTabModify (o : HashTabOpts K) (t : LinkedTab K V) (k : K) (f : V → V) : LinkedTab K V :=
  match find o.hash t.tab k with
  | none => t
  | some i =>
    match slotAt t.tab i with
    | none => t
    | some e => { t with tab := t.tab.set i (some (e.1, f e.2)) }

end LinkedTab

/-! ## Refinement -/

/-- The links thread the slots in the order that `t` keeps. -/
structure Refines (c : LinkedTab K V) (t : HashTab K V) : Prop where
  tab : c.tab = t.tab
  threads : c.links.Threads t.order
  count : c.count = t.count

namespace Refines

variable {o : HashTabOpts K} {c : LinkedTab K V} {t : HashTab K V}

theorem capacity (h : Refines c t) : c.capacity = t.capacity := by
  rw [LinkedTab.capacity, HashTab.capacity, h.tab]

theorem blank (cap : Nat) : Refines (.blank cap : LinkedTab K V) (.blank cap) :=
  ⟨rfl, Links.threads_empty, rfl⟩

theorem needRehash (h : Refines c t) : c.needRehash o = JautoProf.needRehash o t := by
  rw [LinkedTab.needRehash, JautoProf.needRehash, h.count, h.capacity]

theorem order_length (hl : Linked t) (hlt : t.count < t.capacity) : t.order.length ≤ t.capacity := by
  rw [← hl.count_eq]
  exact Nat.le_of_lt hlt

/-- The iteration ends, and yields the entries in the order of the list. -/
theorem iterate (h : Refines c t) (hl : Linked t) (hlt : t.count < t.capacity) :
    c.hashTabIterate = some t.entries := by
  have hmap : ∀ l : List Nat, (∀ i ∈ l, ∃ e, slotAt t.tab i = some e) →
      l.mapM (slotAt t.tab) = some (l.filterMap (slotAt t.tab)) := by
    intro l hmem
    induction l with
    | nil => rfl
    | cons i l ih =>
      obtain ⟨e, he⟩ := hmem i List.mem_cons_self
      simp [List.mapM_cons, he, ih fun j hj => hmem j (List.mem_cons_of_mem i hj)]
  rw [LinkedTab.hashTabIterate, h.capacity, h.tab,
    Links.walk_threads h.threads (order_length hl hlt)]
  exact hmap t.order fun i hi => (hl.mem i).mp hi

theorem entUnlink (h : Refines c t) (hl : Linked t) {i : Nat} {e : K × V}
    (hi : slotAt t.tab i = some e) :
    ∃ c', c.entUnlink i = some c' ∧ Refines c' (JautoProf.entUnlink t i) := by
  obtain ⟨a, b, hab⟩ := List.append_of_mem ((hl.mem i).mpr ⟨e, hi⟩)
  have hnd := hl.nodup
  rw [hab] at hnd
  have hia : i ∉ a := fun hia => (List.nodup_append.mp hnd).2.2 i hia i List.mem_cons_self rfl
  obtain ⟨links, hun, hth⟩ := Links.threads_unlink (hab ▸ h.threads) hnd
  refine ⟨_, by rw [LinkedTab.entUnlink, hun]; rfl, by rw [h.tab]; rfl, ?_, by rw [h.count]; rfl⟩
  rw [JautoProf.entUnlink, hab, List.erase_append_right _ hia, List.erase_cons_head]
  exact hth

variable [DecidableEq K]

theorem exists_find (hh : HasHole t.tab) (k : K) :
    ∃ i, find o.hash t.tab k = some i := by
  obtain ⟨z, hz, hempty⟩ := hh
  cases hs : find o.hash t.tab k with
  | some i => exact ⟨i, rfl⟩
  | none =>
    obtain ⟨x, hx, hxn, hmod⟩ := exists_pos_mod hz (o.hash k)
    obtain ⟨k', v', hc, _⟩ := scan_eq_none hs (x - o.hash k) (by omega)
    rw [show o.hash k + (x - o.hash k) = x by omega, cell, hmod, hempty] at hc
    cases hc

theorem insert (h : Refines c t) (hl : Linked t) (hlt : t.count < t.capacity) (k : K) (v : V) :
    ∃ c', c.hashInsert o k v = some ((JautoProf.hashInsert o t k v).1, c') ∧
      Refines c' (JautoProf.hashInsert o t k v).2 := by
  obtain ⟨i, hf⟩ := exists_find (o := o) (hl.hasHole hlt) k
  unfold LinkedTab.hashInsert JautoProf.hashInsert
  rw [h.tab, hf]
  simp only
  cases hs : slotAt t.tab i with
  | none =>
    have hi : i ∉ t.order := by
      rw [hl.mem]
      rintro ⟨e, he⟩
      rw [hs] at he
      cases he
    obtain ⟨links, hpush, hth⟩ := Links.threads_push h.threads hl.nodup hi
    exact ⟨_, by rw [hpush]; rfl, rfl, hth, congrArg (· + 1) h.count⟩
  | some e => exact ⟨_, rfl, rfl, h.threads, h.count⟩

/-- The insertions of a rehash, into a table with room for all of them. -/
theorem foldl_insert (l : List (K × V)) (h : Refines c t) (hl : Linked t)
    (hroom : t.count + l.length < t.capacity) :
    ∃ c', l.foldlM (fun c e => (c.hashInsert o e.1 e.2).map Prod.snd) c = some c' ∧
      Refines c' (l.foldl (fun t e => (JautoProf.hashInsert o t e.1 e.2).2) t) := by
  induction l generalizing c t with
  | nil => exact ⟨c, rfl, h⟩
  | cons e l ih =>
    rw [List.length_cons] at hroom
    obtain ⟨c₁, hc₁, h₁⟩ := h.insert (o := o) hl (by omega) e.1 e.2
    have hcount := hashInsert_count_le o t e.1 e.2
    obtain ⟨c', hc', h'⟩ := ih h₁ (hl.hashInsert o e.1 e.2)
      (by rw [hashInsert_capacity]; omega)
    refine ⟨c', ?_, h'⟩
    rw [List.foldlM_cons, hc₁]
    exact hc'

theorem rehash (h : Refines c t) (hv : t.Valid o) :
    ∃ c', c.rehash o = some c' ∧ Refines c' (JautoProf.rehash o t) := by
  have hlt := hv.count_lt
  rw [LinkedTab.rehash, h.iterate hv.linked hlt, h.capacity]
  refine foldl_insert t.entries (blank _) (linked_blank _) ?_
  rw [entries_length hv.linked]
  simp only [HashTab.blank, HashTab.capacity, List.length_replicate, Nat.zero_add]
  unfold HashTab.capacity at hlt
  omega

theorem reinsertFrom (fuel : Nat) (idx : Nat) (h : Refines c t) (hl : Linked t)
    (hlt : t.count < t.capacity) :
    ∃ c', c.reinsertFrom o fuel idx = some c' ∧
      Refines c' (JautoProf.reinsertFrom o fuel t idx) := by
  induction fuel generalizing c t idx with
  | zero => exact ⟨c, rfl, h⟩
  | succ fuel ih =>
    unfold LinkedTab.reinsertFrom JautoProf.reinsertFrom
    rw [h.tab]
    cases hs : slotAt t.tab idx with
    | none => exact ⟨c, rfl, h⟩
    | some e =>
      obtain ⟨c₁, hc₁, h₁⟩ := h.entUnlink hl hs
      have hl₁ := hl.entUnlink hs
      have hpos : 0 < t.count := by
        rw [hl.count_eq]
        exact List.length_pos_of_mem ((hl.mem idx).mpr ⟨e, hs⟩)
      have hcap₁ : (JautoProf.entUnlink t idx).capacity = t.capacity := List.length_set
      have hcount₁ : (JautoProf.entUnlink t idx).count = t.count - 1 := rfl
      obtain ⟨c₂, hc₂, h₂⟩ := h₁.insert (o := o) hl₁ (by omega) e.1 e.2
      have hcount₂ := hashInsert_count_le o (JautoProf.entUnlink t idx) e.1 e.2
      obtain ⟨c', hc', h'⟩ := ih ((idx + 1) % t.capacity) h₂ (hl₁.hashInsert o e.1 e.2)
        (by rw [hashInsert_capacity]; omega)
      refine ⟨c', ?_, h'⟩
      simp only [hc₁, Option.bind_some, hc₂, h₁.capacity, hcap₁]
      exact hc'

theorem remove (h : Refines c t) (hv : t.Valid o) (k : K) :
    ∃ c', c.hashTabRemove o k = some ((JautoProf.hashTabRemove o t k).1, c') ∧
      Refines c' (JautoProf.hashTabRemove o t k).2 := by
  unfold LinkedTab.hashTabRemove JautoProf.hashTabRemove
  rw [h.tab]
  cases hf : find o.hash t.tab k with
  | none => exact ⟨c, rfl, h⟩
  | some i =>
    simp only
    cases hs : slotAt t.tab i with
    | none => exact ⟨c, rfl, h⟩
    | some e =>
      obtain ⟨c₁, hc₁, h₁⟩ := h.entUnlink hv.linked hs
      have hlt := hv.count_lt
      have hcap₁ : (JautoProf.entUnlink t i).capacity = t.capacity := List.length_set
      have hcount₁ : (JautoProf.entUnlink t i).count = t.count - 1 := rfl
      obtain ⟨c', hc', h'⟩ := h₁.reinsertFrom (o := o) t.capacity ((i + 1) % t.capacity)
        (hv.linked.entUnlink hs) (by omega)
      refine ⟨c', ?_, h'⟩
      simp only [hc₁, Option.bind_some, h₁.capacity, hcap₁, hc', Option.map_some]

theorem addIf (h : Refines c t) (hv : t.Valid o) (need : Bool) (k : K) (v : V)
    (keyOk tabOk : Bool) :
    ∃ c', c.hashTabAddIf o need k v keyOk tabOk =
        some ((JautoProf.hashTabAddIf o t need k v keyOk tabOk).1, c') ∧
      Refines c' (JautoProf.hashTabAddIf o t need k v keyOk tabOk).2 := by
  have hlt := hv.count_lt
  unfold LinkedTab.hashTabAddIf JautoProf.hashTabAddIf
  cases keyOk with
  | false => exact ⟨c, rfl, h⟩
  | true =>
    cases need with
    | false =>
      obtain ⟨c', hc', h'⟩ := h.insert (o := o) hv.linked hlt k v
      exact ⟨c', by simp [hc'], h'⟩
    | true =>
      cases tabOk with
      | false => exact ⟨c, rfl, h⟩
      | true =>
        obtain ⟨hv₁, hcap, hcount, -⟩ := rehash_spec hv
        obtain ⟨c₁, hc₁, h₁⟩ := h.rehash hv
        obtain ⟨c', hc', h'⟩ := h₁.insert (o := o) hv₁.linked (by omega) k v
        exact ⟨c', by simp [hc₁, hc'], h'⟩

theorem add (h : Refines c t) (hv : t.Valid o) (k : K) (v : V) (keyOk tabOk : Bool) :
    ∃ c', c.hashTabAdd o k v keyOk tabOk = some ((JautoProf.hashTabAdd o t k v keyOk tabOk).1, c') ∧
      Refines c' (JautoProf.hashTabAdd o t k v keyOk tabOk).2 := by
  rw [LinkedTab.hashTabAdd_eq, h.needRehash, JautoProf.hashTabAdd_eq]
  exact h.addIf hv _ k v keyOk tabOk

theorem modify (h : Refines c t) (k : K) (f : V → V) :
    Refines (c.hashTabModify o k f) (JautoProf.hashTabModify o t k f) := by
  unfold LinkedTab.hashTabModify JautoProf.hashTabModify
  rw [h.tab]
  cases find o.hash t.tab k with
  | none => exact h
  | some i =>
    simp only
    cases slotAt t.tab i with
    | none => exact h
    | some e => exact ⟨rfl, h.threads, h.count⟩

end Refines

/-! ## Sequences of additions and removals -/

/-- A call that may change the table; the allocator answers an addition with `keyOk` and
`tabOk`. -/
inductive TabOp (K V : Type)
  | add (k : K) (v : V) (keyOk tabOk : Bool)
  | remove (k : K)

/-- What a call returns. -/
inductive TabRet (V : Type)
  | added (r : HashAddResult V)
  | removed (prev : Option V)

/-- What one call does to a finite map, given what it returned: an addition that did not
fail returns the value it replaces, a removal the value it takes out; an addition fails
only when the allocator does, and changes nothing. -/
inductive MapStep [DecidableEq K] : (K → Option V) → TabOp K V × TabRet V → (K → Option V) → Prop
  | added (m : K → Option V) (k : K) (v : V) (keyOk tabOk : Bool) :
      MapStep m (.add k v keyOk tabOk, .added ⟨false, m k⟩) (Function.update m k (some v))
  | failed (m : K → Option V) (k : K) (v : V) {keyOk tabOk : Bool}
      (h : keyOk = false ∨ tabOk = false) :
      MapStep m (.add k v keyOk tabOk, .added ⟨true, none⟩) m
  | removed (m : K → Option V) (k : K) :
      MapStep m (.remove k, .removed (m k)) (Function.update m k none)

/-- What a sequence of calls does to a finite map. -/
inductive MapSteps [DecidableEq K] :
    (K → Option V) → List (TabOp K V × TabRet V) → (K → Option V) → Prop
  | nil (m : K → Option V) : MapSteps m [] m
  | cons {m m' m'' : K → Option V} {r : TabOp K V × TabRet V} {l : List (TabOp K V × TabRet V)} :
      MapStep m r m' → MapSteps m' l m'' → MapSteps m (r :: l) m''

variable [DecidableEq K]

namespace LinkedTab

/-- One call. -/
def call (o : HashTabOpts K) (t : LinkedTab K V) :
    TabOp K V → Option (TabRet V × LinkedTab K V)
  | .add k v keyOk tabOk => (t.hashTabAdd o k v keyOk tabOk).map fun r => (.added r.1, r.2)
  | .remove k => (t.hashTabRemove o k).map fun r => (.removed r.1, r.2)

/-- A sequence of calls, each with what it returned. -/
def calls (o : HashTabOpts K) (t : LinkedTab K V) :
    List (TabOp K V) → Option (List (TabOp K V × TabRet V) × LinkedTab K V)
  | [] => some ([], t)
  | op :: ops => (t.call o op).bind fun r => (r.2.calls o ops).map fun rs => ((op, r.1) :: rs.1, rs.2)

/-- The table holds the finite map `m`: the lookups are those of the map, and the iteration
ends, yields no key twice and yields the pairs of the map, `hash_tab_size` many. -/
structure Holds (o : HashTabOpts K) (t : LinkedTab K V) (m : K → Option V) : Prop where
  lookup : ∀ k, t.hashTabLookup o k = m k
  iterate : ∃ l, t.hashTabIterate = some l ∧ (l.map Prod.fst).Nodup ∧
    (∀ k v, (k, v) ∈ l ↔ m k = some v) ∧ l.length = t.hashTabSize

/-- An addition that fails leaves every field as it was. -/
theorem add_err {o : HashTabOpts K} {t t' : LinkedTab K V} {k : K} {v : V} {keyOk tabOk : Bool}
    {r : HashAddResult V} (hadd : t.hashTabAdd o k v keyOk tabOk = some (r, t'))
    (herr : r.err = true) : t' = t := by
  unfold hashTabAdd at hadd
  cases keyOk with
  | false =>
    cases hadd
    rfl
  | true =>
    simp only [Bool.not_true, Bool.false_eq_true, if_false] at hadd
    split at hadd
    · split at hadd
      · obtain ⟨c₁, -, h₁⟩ := Option.bind_eq_some_iff.mp hadd
        obtain ⟨p, -, hp⟩ := Option.map_eq_some_iff.mp h₁
        cases hp
        cases herr
      · cases hadd
        rfl
    · obtain ⟨p, -, hp⟩ := Option.map_eq_some_iff.mp hadd
      cases hp
      cases herr

end LinkedTab

namespace Refines

variable {o : HashTabOpts K} {c : LinkedTab K V} {t : HashTab K V}

theorem lookup (h : Refines c t) (k : K) : c.hashTabLookup o k = JautoProf.hashTabLookup o t k := by
  rw [LinkedTab.hashTabLookup, h.tab, JautoProf.hashTabLookup]

theorem holds (h : Refines c t) (hv : t.Valid o) {m : K → Option V}
    (hm : ∀ k, JautoProf.hashTabLookup o t k = m k) : c.Holds o m where
  lookup k := (h.lookup k).trans (hm k)
  iterate := by
    refine ⟨t.entries, h.iterate hv.linked hv.count_lt,
      entries_nodup hv.linked hv.probed.distinct, fun k v => ?_, ?_⟩
    · rw [mem_entries hv.linked, ← hm k]
      exact (lookup_eq_some hv.probed).symm
    · rw [entries_length hv.linked, LinkedTab.hashTabSize, h.count]

/-- One call is a step of the map. -/
theorem call (h : Refines c t) (hv : t.Valid o) (op : TabOp K V) :
    ∃ r c' t', c.call o op = some (r, c') ∧ Refines c' t' ∧ t'.Valid o ∧
      MapStep (JautoProf.hashTabLookup o t) (op, r) (JautoProf.hashTabLookup o t') := by
  cases op with
  | add k v keyOk tabOk =>
    obtain ⟨c', hc', h'⟩ := h.add hv k v keyOk tabOk
    refine ⟨_, c', _, by rw [LinkedTab.call, hc']; rfl, h', ?_⟩
    rcases hv.add k v keyOk tabOk with hfail | ⟨hok, hv', hl⟩
    · rw [hfail]
      refine ⟨hv, .failed _ k v ?_⟩
      cases keyOk with
      | false => exact .inl rfl
      | true =>
        cases tabOk with
        | false => exact .inr rfl
        | true =>
          -- with memory for the key and the table an addition does not fail
          have := hashTabAdd_err o t k v
          rw [hfail] at this
          cases this
    · refine ⟨hv', ?_⟩
      have hupd : JautoProf.hashTabLookup o (JautoProf.hashTabAdd o t k v keyOk tabOk).2 =
          Function.update (JautoProf.hashTabLookup o t) k (some v) := by
        funext k'
        rw [hl, Function.update_apply]
      rw [hok, hupd]
      exact .added _ k v keyOk tabOk
  | remove k =>
    obtain ⟨c', hc', h'⟩ := h.remove hv k
    obtain ⟨hv', hprev, hl⟩ := hv.remove k
    refine ⟨_, c', _, by rw [LinkedTab.call, hc']; rfl, h', hv', ?_⟩
    have hupd : JautoProf.hashTabLookup o (JautoProf.hashTabRemove o t k).2 =
        Function.update (JautoProf.hashTabLookup o t) k none := by
      funext k'
      rw [hl, Function.update_apply]
    rw [hprev, hupd]
    exact .removed _ k

theorem calls (h : Refines c t) (hv : t.Valid o) (ops : List (TabOp K V)) :
    ∃ rs c' t', c.calls o ops = some (rs, c') ∧ rs.map Prod.fst = ops ∧ Refines c' t' ∧
      t'.Valid o ∧ MapSteps (JautoProf.hashTabLookup o t) rs (JautoProf.hashTabLookup o t') := by
  induction ops generalizing c t with
  | nil => exact ⟨[], c, t, rfl, rfl, h, hv, .nil _⟩
  | cons op ops ih =>
    obtain ⟨r, c₁, t₁, hc₁, h₁, hv₁, hstep⟩ := h.call hv op
    obtain ⟨rs, c', t', hc', hops, h', hv', hsteps⟩ := ih h₁ hv₁
    refine ⟨(op, r) :: rs, c', t', ?_, by rw [List.map_cons, hops], h', hv', .cons hstep hsteps⟩
    simp only [LinkedTab.calls, hc₁, Option.bind_some, hc', Option.map_some]

end Refines

/-- Over every sequence of additions and removals the hash table is a finite map: no
assertion fails and no call runs for ever, every call returns what it does on the map, the
table that is left holds the map that is left, and an addition that fails leaves the table,
and so its iteration, unchanged. -/
theorem hash_tab_map (o : HashTabOpts K) (ops : List (TabOp K V)) :
    ∃ rs t m, (LinkedTab.hashTabInit o).calls o ops = some (rs, t) ∧ rs.map Prod.fst = ops ∧
      MapSteps (fun _ => none) rs m ∧ t.Holds o m ∧
      ∀ k v keyOk tabOk r t', t.hashTabAdd o k v keyOk tabOk = some (r, t') → r.err = true →
        t' = t := by
  obtain ⟨rs, c', t', hc', hops, h', hv', hsteps⟩ :=
    (Refines.blank o.capInit).calls (HashTab.valid_blank o o.capInit o.cap_pos) ops
  have hempty : hashTabLookup o (HashTab.blank o.capInit : HashTab K V) = fun _ => none := by
    funext k
    exact hashTabLookup_blank o _ k
  rw [hempty] at hsteps
  exact ⟨rs, c', _, hc', hops, hsteps, h'.holds hv' fun _ => rfl,
    fun k v keyOk tabOk r t' => LinkedTab.add_err⟩

end JautoProf
