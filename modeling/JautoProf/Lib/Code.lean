import Mathlib.Data.List.Basic
import Mathlib.Tactic.Common

/-!
# Labelled code with an exception table

Code is a list of items. A position in it is a suffix, the items that are still to come, so an
entry of the exception table covers a position when its start is behind it and its end is still
to come. Of the entries that cover a position the first one that catches an exception handles
it. What an instruction does is a relation, so a run may have several results.

Results:
1. `Exec.skip_iff`, `Exec.next_iff`: runs through items that do one thing.
2. `target_expand`: where a label leads in code each of whose items was replaced by several.
-/

namespace JautoProf.Code

/-! ## Code -/

inductive Item (L T C : Type)
  | label (l : L)
  | tryCatch (start finish handler : L) (type : Option T)
  /-- Something between instructions that nothing refers to. -/
  | note
  | instr (c : C)

/-- An entry of the exception table; without a type it catches everything. -/
structure Entry (L T : Type) where
  start : L
  finish : L
  handler : L
  type : Option T

variable {L T C V S E α : Type}

def Item.IsInstr : Item L T C → Prop
  | instr _ => True
  | _ => False

def labels : List (Item L T C) → List L
  | [] => []
  | .label l :: rest => l :: labels rest
  | _ :: rest => labels rest

/-- The exception table, in order of priority. -/
def table : List (Item L T C) → List (Entry L T)
  | [] => []
  | .tryCatch start finish handler type :: rest => ⟨start, finish, handler, type⟩ :: table rest
  | _ :: rest => table rest

/-- The position behind a label. -/
def target [DecidableEq L] (l : L) : List (Item L T C) → Option (List (Item L T C))
  | [] => none
  | .label l' :: rest => if l' = l then some rest else target l rest
  | _ :: rest => target l rest

/-! ## Execution -/

structure Frame (V S : Type) where
  state : S
  stack : List V

inductive Outcome (L V S : Type)
  | next (f : Frame V S)
  | jump (l : L) (f : Frame V S)
  | throw (v : V) (s : S)
  | ret (v : Option V) (s : S)

/-- How a run leaves the code. -/
inductive Final (V S : Type)
  | returned (v : Option V) (s : S)
  | threw (v : V) (s : S)

/-- What instructions may do, what the types of exceptions catch, and what is observed of an
instruction that is executed. -/
structure Machine (L T C V S E : Type) where
  exec : C → Frame V S → Outcome L V S → Prop
  catches : T → V → Bool
  event : C → Frame V S → List E

variable [DecidableEq L]

/-- The entry covers the position `rest` of the code. -/
def Entry.covers (code rest : List (Item L T C)) (e : Entry L T) : Bool :=
  e.start ∈ labels code && !(e.start ∈ labels rest : Bool) && e.finish ∈ labels rest

theorem Entry.covers_iff {code rest : List (Item L T C)} {e : Entry L T} :
    e.covers code rest = true ↔
      e.start ∈ labels code ∧ e.start ∉ labels rest ∧ e.finish ∈ labels rest := by
  simp [Entry.covers, and_assoc]

def Entry.catches (M : Machine L T C V S E) (v : V) (e : Entry L T) : Bool :=
  e.type.all (M.catches · v)

/-- The label of the handler for an exception at a position. -/
def handler (M : Machine L T C V S E) (code rest : List (Item L T C)) (v : V) : Option L :=
  ((table code).find? fun e => e.covers code rest && e.catches M v).map Entry.handler

theorem handler_mem {M : Machine L T C V S E} {code rest : List (Item L T C)}
    {v : V} {l : L} (h : handler M code rest v = some l) : ∃ e ∈ table code, e.handler = l := by
  obtain ⟨e, he, rfl⟩ := Option.map_eq_some_iff.mp h
  exact ⟨e, List.mem_of_find?_eq_some he, rfl⟩

/-- From a position and a frame, a run of `n` items has a trace and leaves the code. -/
inductive Exec (M : Machine L T C V S E) (code : List (Item L T C)) :
    Nat → List (Item L T C) → Frame V S → List E → Final V S → Prop
  | skip {n : Nat} {item : Item L T C} {rest : List (Item L T C)} {f : Frame V S} {tr : List E}
      {fin : Final V S} (hitem : ¬ item.IsInstr) (hrest : Exec M code n rest f tr fin) :
      Exec M code (n + 1) (item :: rest) f tr fin
  | next {n : Nat} {c : C} {rest : List (Item L T C)} {f f' : Frame V S} {tr : List E}
      {fin : Final V S} (hexec : M.exec c f (.next f')) (hrest : Exec M code n rest f' tr fin) :
      Exec M code (n + 1) (.instr c :: rest) f (M.event c f ++ tr) fin
  | jump {n : Nat} {c : C} {rest rest' : List (Item L T C)} {f f' : Frame V S} {l : L}
      {tr : List E} {fin : Final V S} (hexec : M.exec c f (.jump l f'))
      (htarget : target l code = some rest') (hrest : Exec M code n rest' f' tr fin) :
      Exec M code (n + 1) (.instr c :: rest) f (M.event c f ++ tr) fin
  | caught {n : Nat} {c : C} {rest rest' : List (Item L T C)} {f : Frame V S} {v : V} {s : S}
      {l : L} {tr : List E} {fin : Final V S} (hexec : M.exec c f (.throw v s))
      (hhandler : handler M code (.instr c :: rest) v = some l)
      (htarget : target l code = some rest') (hrest : Exec M code n rest' ⟨s, [v]⟩ tr fin) :
      Exec M code (n + 1) (.instr c :: rest) f (M.event c f ++ tr) fin
  | escapes {n : Nat} {c : C} {rest : List (Item L T C)} {f : Frame V S} {v : V} {s : S}
      (hexec : M.exec c f (.throw v s))
      (hhandler : handler M code (.instr c :: rest) v = none) :
      Exec M code (n + 1) (.instr c :: rest) f (M.event c f) (.threw v s)
  | returns {n : Nat} {c : C} {rest : List (Item L T C)} {f : Frame V S} {v : Option V} {s : S}
      (hexec : M.exec c f (.ret v s)) :
      Exec M code (n + 1) (.instr c :: rest) f (M.event c f) (.returned v s)

/-- A run from the start of the code. -/
def Runs (M : Machine L T C V S E) (code : List (Item L T C)) (f : Frame V S) (tr : List E)
    (fin : Final V S) : Prop :=
  ∃ n, Exec M code n code f tr fin

section

variable {M : Machine L T C V S E} {code rest : List (Item L T C)} {f : Frame V S} {tr : List E}
  {fin : Final V S} {n : Nat}

namespace Exec

/-- A run through an item that is no instruction. -/
theorem skip_iff {item : Item L T C} (hitem : ¬ item.IsInstr) :
    Exec M code n (item :: rest) f tr fin ↔ ∃ m, n = m + 1 ∧ Exec M code m rest f tr fin := by
  constructor
  · intro h
    cases h with
    | skip _ hrest => exact ⟨_, rfl, hrest⟩
    | _ => exact (hitem trivial).elim
  · rintro ⟨m, rfl, hrest⟩
    exact .skip hitem hrest

/-- A run through an instruction that does one thing and goes on. -/
theorem next_iff {c : C} {f' : Frame V S} (hdet : ∀ o, M.exec c f o ↔ o = .next f') :
    Exec M code n (.instr c :: rest) f tr fin ↔
      ∃ m tr', n = m + 1 ∧ tr = M.event c f ++ tr' ∧ Exec M code m rest f' tr' fin := by
  constructor
  · intro h
    cases h with
    | skip hitem _ => exact (hitem trivial).elim
    | next hexec hrest =>
      cases (hdet _).mp hexec
      exact ⟨_, _, rfl, rfl, hrest⟩
    | jump hexec _ _ => cases (hdet _).mp hexec
    | caught hexec _ _ _ => cases (hdet _).mp hexec
    | escapes hexec _ => cases (hdet _).mp hexec
    | returns hexec => cases (hdet _).mp hexec
  · rintro ⟨m, tr', rfl, rfl, hrest⟩
    exact .next ((hdet _).mpr rfl) hrest

/-- A run through an instruction that throws where nothing handles it. -/
theorem throw_iff {c : C} {v : V} {s : S} (hdet : ∀ o, M.exec c f o ↔ o = .throw v s)
    (hhandler : handler M code (.instr c :: rest) v = none) :
    Exec M code n (.instr c :: rest) f tr fin ↔
      (∃ m, n = m + 1) ∧ tr = M.event c f ∧ fin = .threw v s := by
  constructor
  · intro h
    cases h with
    | skip hitem _ => exact (hitem trivial).elim
    | next hexec _ => cases (hdet _).mp hexec
    | jump hexec _ _ => cases (hdet _).mp hexec
    | caught hexec hfound _ _ =>
      cases (hdet _).mp hexec
      rw [hhandler] at hfound
      cases hfound
    | escapes hexec _ =>
      cases (hdet _).mp hexec
      exact ⟨⟨_, rfl⟩, rfl, rfl⟩
    | returns hexec => cases (hdet _).mp hexec
  · rintro ⟨⟨m, rfl⟩, rfl, rfl⟩
    exact .escapes ((hdet _).mpr rfl) hhandler

end Exec

end

/-! ## Labels and tables of code that is put together -/

omit [DecidableEq L] in
@[simp] theorem labels_append (a b : List (Item L T C)) : labels (a ++ b) = labels a ++ labels b := by
  induction a with
  | nil => rfl
  | cons item a ih => cases item <;> simp [labels, ih]

omit [DecidableEq L] in
@[simp] theorem table_append (a b : List (Item L T C)) : table (a ++ b) = table a ++ table b := by
  induction a with
  | nil => rfl
  | cons item a ih => cases item <;> simp [table, ih]

theorem target_append {l : L} {a : List (Item L T C)} (h : l ∉ labels a)
    (b : List (Item L T C)) : target l (a ++ b) = target l b := by
  induction a with
  | nil => rfl
  | cons item a ih =>
    cases item with
    | label l' =>
      rw [labels, List.mem_cons, not_or] at h
      exact (if_neg (Ne.symm h.1)).trans (ih h.2)
    | _ => exact ih h

theorem target_eq_none {l : L} {a : List (Item L T C)} (h : l ∉ labels a) : target l a = none := by
  have := target_append h []
  rwa [List.append_nil] at this

/-- Where items are replaced by several, those with labels keep them as they are: a label leads
to the same place as before. -/
theorem target_expand {item : α → Item L T C} {expand : α → List (Item L T C)}
    (hexpand : ∀ a, (∃ l, item a = .label l ∧ expand a = [.label l]) ∨
      (labels [item a] = [] ∧ labels (expand a) = []))
    {l : L} {post : List (Item L T C)} (hpost : l ∉ labels post) (as : List α) :
    (target l (as.map item) = none ∧ target l (as.flatMap expand ++ post) = none) ∨
      ∃ rest, rest <:+ as ∧ target l (as.map item) = some (rest.map item) ∧
        target l (as.flatMap expand ++ post) = some (rest.flatMap expand ++ post) := by
  induction as with
  | nil => exact .inl ⟨rfl, target_eq_none hpost⟩
  | cons a as ih =>
    rw [List.map_cons, List.flatMap_cons, List.append_assoc]
    rcases hexpand a with ⟨l', hitem, hexp⟩ | ⟨hitem, hexp⟩
    · rw [hitem, hexp]
      by_cases hl : l' = l
      · exact .inr ⟨as, List.suffix_cons a as, if_pos hl, if_pos hl⟩
      · have h₁ : target l (Item.label l' :: as.map item) = target l (as.map item) := if_neg hl
        have h₂ : target l ([Item.label l'] ++ (as.flatMap expand ++ post)) =
            target l (as.flatMap expand ++ post) := if_neg hl
        rw [h₁, h₂]
        rcases ih with hnone | ⟨rest, hrest, h⟩
        · exact .inl hnone
        · exact .inr ⟨rest, hrest.trans (List.suffix_cons a as), h⟩
    · have h₁ : target l (item a :: as.map item) = target l (as.map item) :=
        target_append (a := [item a]) (by rw [hitem]; exact List.not_mem_nil) (as.map item)
      rw [h₁, target_append (by rw [hexp]; exact List.not_mem_nil)]
      rcases ih with hnone | ⟨rest, hrest, h⟩
      · exact .inl hnone
      · exact .inr ⟨rest, hrest.trans (List.suffix_cons a as), h⟩

end JautoProf.Code
