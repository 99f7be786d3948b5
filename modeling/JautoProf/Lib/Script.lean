import Mathlib.Data.List.Basic
import Mathlib.Logic.Function.Basic
import Mathlib.Tactic.Common

/-!
# Programs of calls against an environment

A `Script F α` makes calls of the interface `F`, where a call in `F R` is answered with an `R`,
and returns an `α`. The environment is a state and two relations: `legal a s` says what a call
needs, and `may a s r t` that in the state `s` it may be answered with `r`, which leads to `t`.

Results:
1. `wp_bind`, `wp_call`, `Wp.mono`: the rules for what holds however the calls are answered.
2. `meets_iff`: `Wp` says that every call that is made is legal, and that every execution ends as
   it should.
3. `Wp.exec`: where every legal call has an answer there is an execution.
4. `upto_bind`, `Upto.cleanup`: the rules for a function that ends in a clean-up, wherever it gives
   up.
5. `wp_releaseAll`, `perm_filterMap_update`: what the variables hold, as one list.
-/

namespace JautoProf

/-- A program that makes calls of `F`. -/
inductive Script (F : Type → Type) (α : Type) : Type 1
  | done (x : α)
  | act {R : Type} (a : F R) (k : R → Script F α)

/-- The environment of a program. -/
structure Environment (F : Type → Type) (S : Type) where
  legal : {R : Type} → F R → S → Prop
  may : {R : Type} → F R → S → R → S → Prop

namespace Script

variable {F : Type → Type} {S α β : Type}

def bind : Script F α → (α → Script F β) → Script F β
  | done x, f => f x
  | act a k, f => act a fun r => bind (k r) f

instance : Monad (Script F) where
  pure := done
  bind := Script.bind

/-- One call. -/
def call {R : Type} (a : F R) : Script F R := act a done

/-! ## Executions -/

/-- The program makes a call in the state `t`. -/
inductive Makes (E : Environment F S) : S → Script F α → {R : Type} → F R → S → Prop
  | here {s : S} {R : Type} {a : F R} {k : R → Script F α} : Makes E s (act a k) a s
  | later {s s' t : S} {R T : Type} {a : F R} {k : R → Script F α} {r : R} {b : F T}
      (h : E.may a s r s') (hb : Makes E s' (k r) b t) : Makes E s (act a k) b t

/-- The program ends with a result in the state `t`. -/
inductive Exec (E : Environment F S) : S → Script F α → α → S → Prop
  | done {s : S} {x : α} : Exec E s (done x) x s
  | act {s s' t : S} {R : Type} {a : F R} {k : R → Script F α} {r : R} {x : α}
      (h : E.may a s r s') (hx : Exec E s' (k r) x t) : Exec E s (act a k) x t

/-- Every call is legal, and the program ends with `Q` whatever the answers are. -/
structure Meets (E : Environment F S) (s : S) (p : Script F α) (Q : α → S → Prop) : Prop where
  legal : ∀ {R : Type} (a : F R) (t : S), Makes E s p a t → E.legal a t
  ends : ∀ x t, Exec E s p x t → Q x t

/-! ## The rules -/

/-- What `Meets` says, call by call. -/
def Wp (E : Environment F S) : S → Script F α → (α → S → Prop) → Prop
  | s, done x, Q => Q x s
  | s, act a k, Q => E.legal a s ∧ ∀ r t, E.may a s r t → Wp E t (k r) Q

variable {E : Environment F S} {s : S} {Q : α → S → Prop}

@[simp] theorem wp_pure {x : α} : Wp E s (pure x) Q ↔ Q x s := Iff.rfl

@[simp] theorem wp_bind {p : Script F β} {f : β → Script F α} :
    Wp E s (p >>= f) Q ↔ Wp E s p fun x t => Wp E t (f x) Q := by
  induction p generalizing s with
  | done x => exact Iff.rfl
  | act a k ih =>
    show (E.legal a s ∧ ∀ r t, E.may a s r t → Wp E t (k r >>= f) Q) ↔
      (E.legal a s ∧ ∀ r t, E.may a s r t → Wp E t (k r) _)
    exact and_congr_right fun _ => forall_congr' fun r => forall_congr' fun t =>
      imp_congr_right fun _ => ih r

theorem wp_call {R : Type} {a : F R} {Q : R → S → Prop} :
    Wp E s (call a) Q ↔ E.legal a s ∧ ∀ r t, E.may a s r t → Q r t := Iff.rfl

theorem Wp.mono {p : Script F α} {Q' : α → S → Prop} (h : Wp E s p Q)
    (hQ : ∀ x t, Q x t → Q' x t) : Wp E s p Q' := by
  induction p generalizing s with
  | done x => exact hQ x s h
  | act a k ih => exact ⟨h.1, fun r t hmay => ih r (h.2 r t hmay)⟩

/-- A program in front of another. -/
theorem Wp.bind {p : Script F β} {f : β → Script F α} {P : β → S → Prop} (h : Wp E s p P)
    (hf : ∀ x t, P x t → Wp E t (f x) Q) : Wp E s (p >>= f) Q :=
  wp_bind.mpr (h.mono hf)

theorem wp_ite {c : Prop} [Decidable c] {p q : Script F α} (hp : c → Wp E s p Q)
    (hq : ¬c → Wp E s q Q) : Wp E s (if c then p else q) Q := by
  split
  · exact hp ‹_›
  · exact hq ‹_›

theorem wp_iff {p : Script F α} : Wp E s p Q ↔
    (∀ {R : Type} (a : F R) (t : S), Makes E s p a t → E.legal a t) ∧
      ∀ x t, Exec E s p x t → Q x t := by
  induction p generalizing s with
  | done x =>
    constructor
    · intro h
      refine ⟨fun a t hmakes => ?_, fun y t hexec => ?_⟩
      · cases hmakes
      · cases hexec
        exact h
    · intro h
      exact h.2 x s .done
  | act a k ih =>
    constructor
    · rintro ⟨hlegal, hk⟩
      refine ⟨fun b t hmakes => ?_, fun x t hexec => ?_⟩
      · cases hmakes with
        | here => exact hlegal
        | later h hb => exact (ih _).mp (hk _ _ h) |>.1 _ _ hb
      · cases hexec with
        | act h hx => exact (ih _).mp (hk _ _ h) |>.2 _ _ hx
    · rintro ⟨hlegal, hends⟩
      exact ⟨hlegal a s .here, fun r t h => (ih r).mpr
        ⟨fun b u hb => hlegal b u (.later h hb), fun x u hx => hends x u (.act h hx)⟩⟩

theorem meets_iff {p : Script F α} : Meets E s p Q ↔ Wp E s p Q :=
  ⟨fun h => wp_iff.mpr ⟨h.legal, h.ends⟩, fun h => ⟨(wp_iff.mp h).1, (wp_iff.mp h).2⟩⟩

/-- Where legal calls have answers, a program whose calls are legal has an execution. -/
theorem Wp.exec (hanswers : ∀ {R : Type} (a : F R) (s : S), E.legal a s → ∃ r t, E.may a s r t)
    {p : Script F α} (h : Wp E s p Q) : ∃ x t, Exec E s p x t ∧ Q x t := by
  induction p generalizing s with
  | done x => exact ⟨x, s, .done, h⟩
  | act a k ih =>
    obtain ⟨r, s', hmay⟩ := hanswers a s h.1
    obtain ⟨x, t, hexec, hQ⟩ := ih r (h.2 r s' hmay)
    exact ⟨x, t, .act hmay hexec, hQ⟩

end Script

/-! ## Functions with a clean-up -/

/-- The body of a function with the local variables `V`. Where it has no result it gave up, and its
clean-up is next. -/
def Body (F : Type → Type) (V α : Type) : Type 1 := V → Script F (Option α × V)

namespace Body

open Script

variable {F : Type → Type} {S V α β : Type}

def bind (m : Body F V α) (f : α → Body F V β) : Body F V β := fun v =>
  m v >>= fun r =>
    match r.1 with
    | some x => f x r.2
    | none => pure (none, r.2)

instance : Monad (Body F V) where
  pure x := fun v => pure (some x, v)
  bind := Body.bind

/-- Calls that leave the variables as they are. -/
def lift (p : Script F α) : Body F V α := fun v => p >>= fun x => pure (some x, v)

def giveUp : Body F V α := fun v => pure (none, v)

def get : Body F V V := fun v => pure (some v, v)

def modify (f : V → V) : Body F V Unit := fun v => pure (some (), f v)

/-- The body ends with `Q`, or it gives up with `I`. -/
def Upto (E : Environment F S) (I : V → S → Prop) (v : V) (s : S) (m : Body F V α)
    (Q : α → V → S → Prop) : Prop :=
  Wp E s (m v) fun r t =>
    match r.1 with
    | some x => Q x r.2 t
    | none => I r.2 t

variable {E : Environment F S} {I : V → S → Prop} {v : V} {s : S} {Q : α → V → S → Prop}

@[simp] theorem upto_pure {x : α} : Upto E I v s (pure x) Q ↔ Q x v s := Iff.rfl

@[simp] theorem upto_giveUp : Upto E I v s (giveUp : Body F V α) Q ↔ I v s := Iff.rfl

@[simp] theorem upto_get {Q : V → V → S → Prop} : Upto E I v s get Q ↔ Q v v s := Iff.rfl

@[simp] theorem upto_modify {f : V → V} {Q : Unit → V → S → Prop} :
    Upto E I v s (modify f) Q ↔ Q () (f v) s := Iff.rfl

@[simp] theorem upto_lift {p : Script F α} :
    Upto E I v s (lift p) Q ↔ Wp E s p fun x t => Q x v t := by
  unfold Upto lift
  rw [wp_bind]
  rfl

@[simp] theorem upto_bind {m : Body F V β} {f : β → Body F V α} :
    Upto E I v s (m >>= f) Q ↔
      Upto E I v s m fun x v t => Upto E I v t (f x) Q := by
  show Wp E s (m v >>= fun r => _) _ ↔ _
  rw [wp_bind]
  constructor
  · intro h
    refine h.mono fun r t hr => ?_
    cases hx : r.1 with
    | some x =>
      rw [hx] at hr
      exact hr
    | none =>
      rw [hx] at hr
      exact hr
  · intro h
    refine h.mono fun r t hr => ?_
    cases hx : r.1 with
    | some x =>
      rw [hx] at hr
      exact hr
    | none =>
      rw [hx] at hr
      exact hr

theorem Upto.mono {m : Body F V α} {Q' : α → V → S → Prop} (h : Upto E I v s m Q)
    (hQ : ∀ x v t, Q x v t → Q' x v t) : Upto E I v s m Q' := by
  refine Wp.mono h fun r t hr => ?_
  cases hx : r.1 with
  | some x =>
    rw [hx] at hr
    exact hQ x r.2 t hr
  | none =>
    rw [hx] at hr
    exact hr

/-- A piece of a body in front of another. -/
theorem Upto.bind {m : Body F V β} {f : β → Body F V α} {P : β → V → S → Prop}
    (h : Upto E I v s m P) (hf : ∀ x v t, P x v t → Upto E I v t (f x) Q) :
    Upto E I v s (m >>= f) Q :=
  upto_bind.mpr (h.mono hf)

/-- The body, and what follows it in either case. -/
theorem Upto.cleanup {m : Body F V α} {f : Option α → V → Script F β} {R : β → S → Prop}
    (h : Upto E I v s m Q) (hsome : ∀ x v t, Q x v t → Wp E t (f (some x) v) R)
    (hnone : ∀ v t, I v t → Wp E t (f none v) R) :
    Wp E s (m v >>= fun r => f r.1 r.2) R := by
  refine wp_bind.mpr (Wp.mono h fun r t hr => ?_)
  cases hx : r.1 with
  | some x =>
    rw [hx] at hr
    exact hsome x r.2 t hr
  | none =>
    rw [hx] at hr
    exact hnone r.2 t hr

end Body

/-! ## Variables that hold something -/

section

variable {X A : Type}

/-- Setting a variable that was not set adds to what is held. -/
theorem perm_filterMap_update [DecidableEq X] {f : X → Option A} {x : X} {a : A}
    (hnone : f x = none) {xs : List X} (hnodup : xs.Nodup) (hx : x ∈ xs) :
    (xs.filterMap (Function.update f x (some a))).Perm (a :: xs.filterMap f) := by
  induction xs with
  | nil => exact absurd hx List.not_mem_nil
  | cons y xs ih =>
    obtain ⟨hy, hxs⟩ := List.nodup_cons.mp hnodup
    by_cases hyx : y = x
    · subst hyx
      have hsame : xs.filterMap (Function.update f y (some a)) = xs.filterMap f :=
        List.filterMap_congr fun z hz => Function.update_of_ne (ne_of_mem_of_not_mem hz hy) _ _
      rw [List.filterMap_cons_some (Function.update_self _ _ _), hsame,
        List.filterMap_cons_none hnone]
    · have ih := ih hxs ((List.mem_cons.mp hx).resolve_left fun h => hyx h.symm)
      have hfy := Function.update_of_ne hyx (some a) f
      cases hfy' : f y with
      | none => rwa [List.filterMap_cons_none (hfy.trans hfy'), List.filterMap_cons_none hfy']
      | some b =>
        rw [List.filterMap_cons_some (hfy.trans hfy'), List.filterMap_cons_some hfy']
        exact (ih.cons b).trans (List.Perm.swap a b _)

namespace Script

variable {F : Type → Type} {S : Type}

/-- Releases what a variable holds, if it is set. -/
def releaseIf (release : A → Script F Unit) : Option A → Script F Unit
  | some a => release a
  | none => pure ()

/-- Releases what the variables hold, in their order. -/
def releaseAll (release : A → Script F Unit) (f : X → Option A) : List X → Script F Unit
  | [] => pure ()
  | x :: xs => do
    releaseIf release (f x)
    releaseAll release f xs

/-- `P` is said of what is held. -/
theorem wp_releaseAll {E : Environment F S} {release : A → Script F Unit} {P : List A → S → Prop}
    (hrelease : ∀ a as s, P (a :: as) s → Wp E s (release a) fun _ t => P as t) {f : X → Option A}
    {xs : List X} {s : S} (h : P (xs.filterMap f) s) :
    Wp E s (releaseAll release f xs) fun _ t => P [] t := by
  induction xs generalizing s with
  | nil => exact h
  | cons x xs ih =>
    refine wp_bind.mpr ?_
    cases hx : f x with
    | none =>
      rw [List.filterMap_cons_none hx] at h
      exact ih h
    | some a =>
      rw [List.filterMap_cons_some hx] at h
      exact (hrelease a _ s h).mono fun _ t ht => ih ht

end Script

end

end JautoProf
