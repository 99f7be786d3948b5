import Mathlib.Data.List.Induction
import Mathlib.Data.List.Nodup
import Mathlib.Logic.Function.Basic

/-!
# Requests that wait for what decides them

Items are asked for under a key, and at some time the data of the key is revealed, which
says which of its items are any good. An item whose key is revealed is accepted or refused
at once; before that it is kept, and looked at again when its key is revealed.

Results:
1. `run_kept`: what is kept in the end are the items that were asked for, in the order in
   which they were first asked for, without those that the revealed data refuses.
2. `run_congr`: two orders of the same requests and reveals keep the same items.
-/

namespace JautoProf.Deferral

variable {K S D : Type} [DecidableEq K] [DecidableEq S]

/-! ## First occurrences -/

/-- The elements that satisfy `p`, each where it occurs first. -/
def firsts {α : Type} [DecidableEq α] (p : α → Bool) (l : List α) : List α :=
  l.foldl (fun acc x => if x ∈ acc ∨ p x = false then acc else acc ++ [x]) []

section

variable {α : Type} [DecidableEq α] {p q : α → Bool}

theorem firsts_append (l : List α) (x : α) :
    firsts p (l ++ [x]) = if x ∈ firsts p l ∨ p x = false then firsts p l else firsts p l ++ [x] := by
  rw [firsts, List.foldl_append]
  rfl

theorem mem_firsts {l : List α} {x : α} : x ∈ firsts p l ↔ x ∈ l ∧ p x = true := by
  induction l using List.reverseRecOn with
  | nil => simp [firsts]
  | append_singleton l y ih =>
    rw [firsts_append, List.mem_append, List.mem_singleton]
    by_cases hy : y ∈ firsts p l ∨ p y = false
    · rw [if_pos hy, ih]
      refine ⟨fun h => ⟨.inl h.1, h.2⟩, ?_⟩
      rintro ⟨hl | rfl, hp⟩
      · exact ⟨hl, hp⟩
      · exact ih.mp (hy.resolve_right (by simp [hp]))
    · rw [if_neg hy, List.mem_append, List.mem_singleton, ih]
      have hpy : p y = true := by simpa using fun h => hy (.inr h)
      exact ⟨fun h => h.elim (fun h => ⟨.inl h.1, h.2⟩) fun h => ⟨.inr h, h ▸ hpy⟩,
        fun ⟨h, hp⟩ => h.imp_left fun hl => ⟨hl, hp⟩⟩

theorem firsts_nodup (l : List α) : (firsts p l).Nodup := by
  induction l using List.reverseRecOn with
  | nil => exact List.nodup_nil
  | append_singleton l y ih =>
    rw [firsts_append]
    split
    · exact ih
    · next hy =>
      refine List.nodup_append.mpr ⟨ih, List.nodup_singleton y, fun a ha b hb hab => hy (.inl ?_)⟩
      rw [← List.mem_singleton.mp hb, ← hab]
      exact ha

/-- To refuse more afterwards is to refuse it from the start. -/
theorem filter_firsts (h : ∀ x, q x = true → p x = true) (l : List α) :
    (firsts p l).filter q = firsts q l := by
  induction l using List.reverseRecOn with
  | nil => rfl
  | append_singleton l y ih =>
    have hiff : q y = true → ((y ∈ firsts p l ∨ p y = false) ↔ (y ∈ firsts q l ∨ q y = false)) := by
      intro hq
      simp [mem_firsts, h y hq, hq]
    rw [firsts_append]
    by_cases hq : q y = true
    · by_cases hy : y ∈ firsts p l ∨ p y = false
      · rw [if_pos hy, ih, firsts_append, if_pos ((hiff hq).mp hy)]
      · rw [if_neg hy, List.filter_append, ih, firsts_append, if_neg fun h' => hy ((hiff hq).mpr h')]
        simp [hq]
    · have hrhs : firsts q (l ++ [y]) = firsts q l := by
        rw [firsts_append, if_pos (.inr (by simpa using hq))]
      rw [hrhs]
      split
      · exact ih
      · rw [List.filter_append, ih]
        simp [hq]

end

/-! ## The two kinds of event -/

inductive Op (K S D : Type)
  | ask (k : K) (s : S)
  | reveal (k : K) (d : D)

structure State (K S D : Type) where
  known : K → Option D
  kept : List (K × S)

variable (has : D → S → Bool)

/-- Nothing that is known refuses the item. -/
def ok (known : K → Option D) (x : K × S) : Bool := (known x.1).all fun d => has d x.2

def init : State K S D := ⟨fun _ => none, []⟩

def step (a : State K S D) : Op K S D → State K S D
  | .ask k s =>
    if (k, s) ∈ a.kept ∨ ok has a.known (k, s) = false then a
    else { a with kept := a.kept ++ [(k, s)] }
  | .reveal k d =>
    let known := Function.update a.known k (some d)
    ⟨known, a.kept.filter (ok has known)⟩

def run (ops : List (Op K S D)) : State K S D := ops.foldl (step has) init

/-- The items asked for, in order. -/
def asked (ops : List (Op K S D)) : List (K × S) :=
  ops.filterMap fun
    | .ask k s => some (k, s)
    | .reveal .. => none

/-- The data revealed, in order. -/
def revealed (ops : List (Op K S D)) : List (K × D) :=
  ops.filterMap fun
    | .ask .. => none
    | .reveal k d => some (k, d)

variable {has}

theorem run_append (ops : List (Op K S D)) (op : Op K S D) :
    run has (ops ++ [op]) = step has (run has ops) op := by
  rw [run, List.foldl_append]
  rfl

omit [DecidableEq K] [DecidableEq S] in
theorem revealed_append (ops ops' : List (Op K S D)) :
    revealed (ops ++ ops') = revealed ops ++ revealed ops' :=
  List.filterMap_append

omit [DecidableEq K] [DecidableEq S] in
theorem asked_append (ops ops' : List (Op K S D)) : asked (ops ++ ops') = asked ops ++ asked ops' :=
  List.filterMap_append

/-- A key that is revealed once is known by what was revealed. -/
theorem run_known {ops : List (Op K S D)} (h : ((revealed ops).map Prod.fst).Nodup) (k : K) (d : D) :
    (run has ops).known k = some d ↔ (k, d) ∈ revealed ops := by
  induction ops using List.reverseRecOn with
  | nil => simp [run, init, revealed]
  | append_singleton ops op ih =>
    rw [revealed_append, List.map_append] at h
    have ih := ih (List.nodup_append.mp h).1
    rw [run_append, revealed_append, List.mem_append]
    cases op with
    | ask k' s =>
      have hknown : (step has (run has ops) (.ask k' s)).known = (run has ops).known := by
        unfold step
        simp only
        split <;> rfl
      rw [hknown, ih]
      simp [revealed]
    | reveal k' d' =>
      show Function.update (run has ops).known k' (some d') k = some d ↔ _
      have hnew : (k', d) ∉ revealed ops := fun hmem =>
        (List.nodup_append.mp h).2.2 k' (List.mem_map_of_mem hmem) k' (by simp [revealed]) rfl
      rw [Function.update_apply]
      split
      · next hk =>
        subst hk
        have hlast : (k, d) ∈ revealed [(.reveal k d' : Op K S D)] ↔ d = d' := by simp [revealed]
        rw [hlast, or_iff_right hnew, Option.some_inj, eq_comm]
      · next hk =>
        rw [ih]
        simp [revealed, hk]

/-- What is kept are the first requests for each item that is not refused in the end. -/
theorem run_kept {ops : List (Op K S D)} (h : ((revealed ops).map Prod.fst).Nodup) :
    (run has ops).kept = firsts (ok has (run has ops).known) (asked ops) := by
  induction ops using List.reverseRecOn with
  | nil => rfl
  | append_singleton ops op ih =>
    have hnodup := h
    rw [revealed_append, List.map_append] at h
    have ih := ih (List.nodup_append.mp h).1
    rw [run_append, asked_append]
    cases op with
    | ask k s =>
      have hasked : asked [(.ask k s : Op K S D)] = [(k, s)] := rfl
      rw [hasked, step]
      split
      · next hno =>
        rw [firsts_append, ← ih, if_pos hno]
      · next hno =>
        rw [firsts_append, ← ih, if_neg hno]
    | reveal k d =>
      have hasked : asked [(.reveal k d : Op K S D)] = [] := rfl
      rw [hasked, List.append_nil, step, ih]
      refine filter_firsts (fun x hx => ?_) _
      -- the key was not known before
      have hnew : (run has ops).known k = none := by
        by_contra hne
        obtain ⟨d', hd'⟩ := Option.ne_none_iff_exists'.mp hne
        have hmem := (run_known (List.nodup_append.mp h).1 k d').mp hd'
        exact (List.nodup_append.mp h).2.2 k (List.mem_map_of_mem hmem) k (by simp [revealed]) rfl
      unfold ok at hx ⊢
      rw [Function.update_apply] at hx
      split at hx
      · next hk => rw [hk, hnew, Option.all_none]
      · exact hx

theorem run_kept_nodup {ops : List (Op K S D)} (h : ((revealed ops).map Prod.fst).Nodup) :
    (run has ops).kept.Nodup :=
  run_kept h ▸ firsts_nodup _

theorem run_kept_ok {ops : List (Op K S D)} (h : ((revealed ops).map Prod.fst).Nodup) {x : K × S}
    (hx : x ∈ (run has ops).kept) : ok has (run has ops).known x = true := by
  rw [run_kept h] at hx
  exact (mem_firsts.mp hx).2

/-- The order of requests and reveals among each other does not matter. -/
theorem run_congr {ops ops' : List (Op K S D)} (hasked : asked ops = asked ops')
    (hrev : (revealed ops).Perm (revealed ops')) (h : ((revealed ops).map Prod.fst).Nodup) :
    run has ops = run has ops' := by
  have h' : ((revealed ops').map Prod.fst).Nodup := (hrev.map Prod.fst).nodup_iff.mp h
  have hknown : (run has ops).known = (run has ops').known := funext fun k => Option.ext fun d => by
    rw [run_known h, run_known h', hrev.mem_iff]
  have hkept : (run has ops).kept = (run has ops').kept := by
    rw [run_kept h, run_kept h', hknown, hasked]
  exact congrArg₂ State.mk hknown hkept

end JautoProf.Deferral
