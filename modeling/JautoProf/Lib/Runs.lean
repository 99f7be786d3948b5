import Mathlib.Tactic.Common

/-!
# Runs of a step function

A run applies a step function to the events of a list, one after the other. `Along` says
that every step of the run meets a condition on the state before it and its event.

Results:
1. `inv_run`: what one step preserves, a run preserves.
2. `run_append`, `along_append`: runs compose.
3. `Reaches`: some run leads from one state to another, all of whose steps meet a
   condition; it is reflexive, transitive and monotone in the condition.
-/

namespace JautoProf.Runs

variable {S E : Type}

/-- The state after the events. -/
def run (step : S → E → S) (s : S) (es : List E) : S := es.foldl step s

/-- Every step of the run meets the condition. -/
def Along (step : S → E → S) (ok : S → E → Prop) : S → List E → Prop
  | _, [] => True
  | s, e :: es => ok s e ∧ Along step ok (step s e) es

variable {step : S → E → S} {ok ok' : S → E → Prop}

@[simp] theorem run_nil (s : S) : run step s [] = s := rfl

@[simp] theorem run_cons (s : S) (e : E) (es : List E) :
    run step s (e :: es) = run step (step s e) es := rfl

theorem run_append (s : S) (es fs : List E) :
    run step s (es ++ fs) = run step (run step s es) fs :=
  List.foldl_append

theorem along_append {s : S} {es fs : List E} :
    Along step ok s (es ++ fs) ↔ Along step ok s es ∧ Along step ok (run step s es) fs := by
  induction es generalizing s with
  | nil => simp [Along]
  | cons e es ih => simp [Along, ih, and_assoc]

theorem Along.mono {s : S} {es : List E} (h : Along step ok s es)
    (himp : ∀ s e, ok s e → ok' s e) : Along step ok' s es := by
  induction es generalizing s with
  | nil => trivial
  | cons e es ih => exact ⟨himp _ _ h.1, ih h.2⟩

theorem Along.of_true (s : S) (es : List E) : Along step (fun _ _ => True) s es := by
  induction es generalizing s with
  | nil => trivial
  | cons e es ih => exact ⟨trivial, ih _⟩

/-- `Along.mono`, with an invariant of the run. -/
theorem Along.mono_inv (Inv : S → Prop) (hstep : ∀ s e, Inv s → ok s e → Inv (step s e))
    (himp : ∀ s e, Inv s → ok s e → ok' s e) {s : S} {es : List E} (hs : Inv s)
    (h : Along step ok s es) : Along step ok' s es := by
  induction es generalizing s with
  | nil => trivial
  | cons e es ih => exact ⟨himp _ _ hs h.1, ih (hstep _ _ hs h.1) h.2⟩

theorem along_congr {s : S} {es : List E} (h : ∀ s e, ok s e ↔ ok' s e) :
    Along step ok s es ↔ Along step ok' s es :=
  ⟨fun hok => hok.mono fun s e => (h s e).mp, fun hok => hok.mono fun s e => (h s e).mpr⟩

/-- An invariant that every step meeting the condition preserves holds at the end. -/
theorem inv_run (Inv : S → Prop) (hstep : ∀ s e, Inv s → ok s e → Inv (step s e)) {s : S}
    {es : List E} (hs : Inv s) (h : Along step ok s es) : Inv (run step s es) := by
  induction es generalizing s with
  | nil => exact hs
  | cons e es ih => exact ih (hstep s e hs h.1) h.2

/-- A relation between the states of a run that is reflexive and transitive. -/
theorem rel_run (Inv : S → Prop) {T : S → S → Prop} (hrefl : ∀ s, T s s)
    (htrans : ∀ a b c, T a b → T b c → T a c)
    (hstep : ∀ s e, Inv s → ok s e → Inv (step s e) ∧ T s (step s e)) {s : S} {es : List E}
    (hs : Inv s) (h : Along step ok s es) : T s (run step s es) := by
  induction es generalizing s with
  | nil => exact hrefl s
  | cons e es ih =>
    have h1 := hstep s e hs h.1
    exact htrans _ _ _ h1.2 (ih h1.1 h.2)

/-! ## Reachability -/

/-- Some run leads from `s` to `t`, and every step of it meets the condition. -/
def Reaches (step : S → E → S) (ok : S → E → Prop) (s t : S) : Prop :=
  ∃ es, run step s es = t ∧ Along step ok s es

theorem Reaches.refl (s : S) : Reaches step ok s s := ⟨[], rfl, trivial⟩

theorem Reaches.one {s : S} {e : E} (h : ok s e) : Reaches step ok s (step s e) :=
  ⟨[e], rfl, h, trivial⟩

theorem Reaches.trans {s t u : S} (h : Reaches step ok s t) (h' : Reaches step ok t u) :
    Reaches step ok s u := by
  obtain ⟨es, rfl, hes⟩ := h
  obtain ⟨fs, rfl, hfs⟩ := h'
  exact ⟨es ++ fs, run_append s es fs, along_append.mpr ⟨hes, hfs⟩⟩

theorem Reaches.mono {s t : S} (h : Reaches step ok s t) (himp : ∀ s e, ok s e → ok' s e) :
    Reaches step ok' s t := by
  obtain ⟨es, hes, hok⟩ := h
  exact ⟨es, hes, hok.mono himp⟩

theorem Reaches.inv (Inv : S → Prop) (hstep : ∀ s e, Inv s → ok s e → Inv (step s e)) {s t : S}
    (h : Reaches step ok s t) (hs : Inv s) : Inv t := by
  obtain ⟨es, rfl, hok⟩ := h
  exact inv_run Inv hstep hs hok

end JautoProf.Runs
