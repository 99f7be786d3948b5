import Mathlib.Tactic.Common

/-!
# Loops that try until they succeed

A round of the loop ends it with a result or with an exit, or leaves a state for the next round.
The loop is run for a number of rounds; it has no result where they do not suffice. Programs
made of such loops are in `ExceptT E Option`, and `Meets` is what is promised of one.

Results:
1. `Meets.bind`: a program made of pieces keeps what its pieces promise.
2. `Meets.loop`: a loop, by an invariant and a variant of its rounds.
-/

namespace JautoProf.Retry

variable {S A B E : Type}

inductive Round (S A E : Type)
  | done (a : A)
  | again (s : S)
  | exit (e : E)

/-- What is left of a round meets the conditions. -/
def Round.Leaves (again : S → Prop) (post : A → Prop) (exit : E → Prop) : Round S A E → Prop
  | .done a => post a
  | .again s => again s
  | .exit e => exit e

/-- The loop, for at most `fuel` rounds. -/
def loop (round : S → Round S A E) : Nat → S → ExceptT E Option A
  | 0, _ => none
  | fuel + 1, s =>
    match round s with
    | .done a => pure a
    | .again s => loop round fuel s
    | .exit e => throw e

/-- The program returns. -/
def Returns (x : ExceptT E Option A) (a : A) : Prop := x = some (.ok a)

/-- The program ends by an exit. -/
def Exits (x : ExceptT E Option A) (e : E) : Prop := x = some (.error e)

/-- The program ends if the rounds are enough, and however it ends, its end meets a condition. -/
structure Meets (x : ExceptT E Option A) (enough : Prop) (post : A → Prop) (exit : E → Prop) :
    Prop where
  ends : enough → (∃ a, Returns x a) ∨ ∃ e, Exits x e
  returns : ∀ a, Returns x a → post a
  exits : ∀ e, Exits x e → exit e

variable {x : ExceptT E Option A} {f : A → ExceptT E Option B} {enough : Prop} {post mid : A → Prop}
  {exit : E → Prop}

namespace Meets

theorem pure {a : A} (h : post a) : Meets (pure a : ExceptT E Option A) enough post exit :=
  ⟨fun _ => .inl ⟨a, rfl⟩, fun _ ha => by cases ha; exact h, nofun⟩

theorem throw {e : E} (h : exit e) : Meets (throw e : ExceptT E Option A) enough post exit :=
  ⟨fun _ => .inr ⟨e, rfl⟩, nofun, fun _ he => by cases he; exact h⟩

theorem mono {enough' : Prop} {post' : A → Prop} {exit' : E → Prop} (h : Meets x enough post exit)
    (henough : enough' → enough) (hpost : ∀ a, post a → post' a) (hexit : ∀ e, exit e → exit' e) :
    Meets x enough' post' exit' :=
  ⟨fun h' => h.ends (henough h'), fun a ha => hpost a (h.returns a ha),
    fun e he => hexit e (h.exits e he)⟩

theorem bind {post : B → Prop} (hx : Meets x enough mid exit)
    (hf : ∀ a, mid a → Meets (f a) enough post exit) : Meets (x >>= f) enough post exit := by
  cases x with
  | none =>
    refine ⟨fun h => ?_, nofun, nofun⟩
    rcases hx.ends h with ⟨_, ha⟩ | ⟨_, he⟩
    · cases ha
    · cases he
  | some r =>
    cases r with
    | ok a => exact hf a (hx.returns a rfl)
    | error e => exact Meets.throw (hx.exits e rfl)

/-- Each round keeps the invariant and lowers the variant, or ends as it should. -/
theorem loop {round : S → Round S A E} (Inv : S → Prop) (variant : S → Nat)
    (hround : ∀ s, Inv s → (round s).Leaves (fun t => Inv t ∧ variant t < variant s) post exit)
    (fuel : Nat) {s : S} (hs : Inv s) :
    Meets (Retry.loop round fuel s) (variant s < fuel) post exit := by
  induction fuel generalizing s with
  | zero => exact ⟨fun h => (Nat.not_lt_zero _ h).elim, nofun, nofun⟩
  | succ fuel ih =>
    have hleaves := hround s hs
    unfold Retry.loop
    cases hr : round s with
    | done a =>
      rw [hr] at hleaves
      exact .pure hleaves
    | again t =>
      rw [hr] at hleaves
      obtain ⟨ht, hlt⟩ := hleaves
      exact (ih ht).mono (fun h => Nat.lt_of_lt_of_le hlt (Nat.le_of_lt_succ h)) (fun _ h => h)
        fun _ h => h
    | exit e =>
      rw [hr] at hleaves
      exact .throw hleaves

end Meets

end JautoProf.Retry
