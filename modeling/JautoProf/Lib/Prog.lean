import Mathlib.Tactic.Common

/-!
# Programs over an explicit state

A program over the state `σ` maps a state to a result and a next state. `result` and
`final` read the two apart; on the operations of the monad they compute by `simp`.

Results:
1. `Lockstep.bind`, `Lockstep.ite`: two programs built alike from pieces that keep a
   relation between their states keep it too, and return the same.
2. `bind_eq`: a run of a program takes apart into runs of its pieces.
3. `Keeps.bind`: a program built from pieces that keep an observation of the state keeps it.
4. `Lowers.bind`, `Lowers.foldlM`: the same for a relation that the pieces only take away from.
-/

namespace JautoProf

/-- A program over the state `σ` that returns an `α`. -/
def Prog (σ α : Type) := σ → α × σ

namespace Prog

variable {σ α β O : Type}

def result (x : Prog σ α) (s : σ) : α := (x s).1

def final (x : Prog σ α) (s : σ) : σ := (x s).2

instance : Monad (Prog σ) where
  pure a := fun s => (a, s)
  bind x f := fun s => f (x.result s) (x.final s)

/-- Read the state. -/
def read (f : σ → α) : Prog σ α := fun s => (f s, s)

/-- Change the state. -/
def update (f : σ → σ) : Prog σ Unit := fun s => ((), f s)

@[simp] theorem result_pure (a : α) (s : σ) : (pure a : Prog σ α).result s = a := rfl

@[simp] theorem final_pure (a : α) (s : σ) : (pure a : Prog σ α).final s = s := rfl

@[simp] theorem result_bind (x : Prog σ α) (f : α → Prog σ β) (s : σ) :
    (x >>= f).result s = (f (x.result s)).result (x.final s) := rfl

@[simp] theorem final_bind (x : Prog σ α) (f : α → Prog σ β) (s : σ) :
    (x >>= f).final s = (f (x.result s)).final (x.final s) := rfl

@[simp] theorem result_read (f : σ → α) (s : σ) : (read f).result s = f s := rfl

@[simp] theorem final_read (f : σ → α) (s : σ) : (read f).final s = s := rfl

@[simp] theorem final_update (f : σ → σ) (s : σ) : (update f).final s = f s := rfl

@[simp] theorem result_ite (c : Prop) [Decidable c] (x y : Prog σ α) (s : σ) :
    (if c then x else y).result s = if c then x.result s else y.result s := by
  split <;> rfl

@[simp] theorem final_ite (c : Prop) [Decidable c] (x y : Prog σ α) (s : σ) :
    (if c then x else y).final s = if c then x.final s else y.final s := by
  split <;> rfl

/-! ## Programs over a part of the state -/

/-- Run a program over a part of the state: `get` is the part, and `set` puts it back. -/
def zoom {τ : Type} (get : σ → τ) (set : τ → σ → σ) (x : Prog τ α) : Prog σ α :=
  fun s => (x.result (get s), set (x.final (get s)) s)

@[simp] theorem result_zoom {τ : Type} (get : σ → τ) (set : τ → σ → σ) (x : Prog τ α) (s : σ) :
    (zoom get set x).result s = x.result (get s) := rfl

@[simp] theorem final_zoom {τ : Type} (get : σ → τ) (set : τ → σ → σ) (x : Prog τ α) (s : σ) :
    (zoom get set x).final s = set (x.final (get s)) s := rfl

/-! ## Taking a run apart -/

theorem bind_eq {x : Prog σ α} {f : α → Prog σ β} {s t : σ} {b : β} :
    (x >>= f) s = (b, t) ↔ ∃ a s₁, x s = (a, s₁) ∧ f a s₁ = (b, t) :=
  ⟨fun h => ⟨_, _, rfl, h⟩, fun ⟨_, _, hx, h⟩ => by
    show f (x s).1 (x s).2 = (b, t)
    rw [hx]
    exact h⟩

theorem read_bind (f : σ → α) (g : α → Prog σ β) (s : σ) : (read f >>= g) s = g (f s) s := rfl

theorem bind_congr_left {x y : Prog σ α} {s : σ} (h : x s = y s) (f : α → Prog σ β) :
    (x >>= f) s = (y >>= f) s := by
  show f (x s).1 (x s).2 = f (y s).1 (y s).2
  rw [h]

theorem pure_eq {s t : σ} {a b : α} : (pure a : Prog σ α) s = (b, t) ↔ a = b ∧ s = t :=
  Prod.mk.injEq .. ▸ Iff.rfl

theorem read_eq {f : σ → α} {s t : σ} {a : α} : read f s = (a, t) ↔ f s = a ∧ s = t :=
  Prod.mk.injEq .. ▸ Iff.rfl

theorem update_eq {f : σ → σ} {s t : σ} {u : Unit} : update f s = (u, t) ↔ f s = t := by
  simp [update]

/-! ## Two runs in lockstep -/

/-- From states related by `R`, `x` and `y` return the same and end in related states. -/
def Lockstep (R : σ → σ → Prop) (x y : Prog σ α) : Prop :=
  ∀ s t, R s t → x.result s = y.result t ∧ R (x.final s) (y.final t)

variable {R : σ → σ → Prop}

theorem Lockstep.pure (a : α) : Lockstep R (pure a : Prog σ α) (pure a) :=
  fun _ _ h => ⟨rfl, h⟩

theorem Lockstep.bind {x y : Prog σ α} {f g : α → Prog σ β} (hx : Lockstep R x y)
    (hf : ∀ a, Lockstep R (f a) (g a)) : Lockstep R (x >>= f) (y >>= g) := by
  intro s t h
  obtain ⟨hr, hR⟩ := hx s t h
  rw [result_bind, result_bind, final_bind, final_bind, ← hr]
  exact hf _ _ _ hR

/-- `Lockstep.bind`, with what is known of the result in between. -/
theorem Lockstep.bind_of {P : α → Prop} {x y : Prog σ α} {f g : α → Prog σ β} (hx : Lockstep R x y)
    (hP : ∀ s t, R s t → P (x.result s)) (hf : ∀ a, P a → Lockstep R (f a) (g a)) :
    Lockstep R (x >>= f) (y >>= g) := by
  intro s t h
  obtain ⟨hr, hR⟩ := hx s t h
  rw [result_bind, result_bind, final_bind, final_bind, ← hr]
  exact hf _ (hP s t h) _ _ hR

theorem Lockstep.ite {c : Prop} [Decidable c] {x x' y y' : Prog σ α} (hx : Lockstep R x x')
    (hy : Lockstep R y y') : Lockstep R (if c then x else y) (if c then x' else y') := by
  split
  · exact hx
  · exact hy

theorem Lockstep.read {f : σ → α} (h : ∀ s t, R s t → f s = f t) : Lockstep R (read f) (read f) :=
  fun s t hR => ⟨h s t hR, hR⟩

theorem Lockstep.update {f : σ → σ} (h : ∀ s t, R s t → R (f s) (f t)) :
    Lockstep R (update f) (update f) :=
  fun s t hR => ⟨rfl, h s t hR⟩

/-! ## Frames -/

/-- The program leaves the observation `o` of the state as it was. -/
def Keeps (o : σ → O) (x : Prog σ α) : Prop := ∀ s, o (x.final s) = o s

variable {o : σ → O}

theorem Keeps.run {x : Prog σ α} {s t : σ} {a : α} (hx : Keeps o x) (h : x s = (a, t)) : o t = o s :=
  (congrArg (o ·.2) h).symm.trans (hx s)

theorem Keeps.pure (a : α) : Keeps o (pure a : Prog σ α) := fun _ => rfl

theorem Keeps.bind {x : Prog σ α} {f : α → Prog σ β} (hx : Keeps o x) (hf : ∀ a, Keeps o (f a)) :
    Keeps o (x >>= f) :=
  fun s => (hf _ _).trans (hx s)

theorem Keeps.ite {c : Prop} [Decidable c] {x y : Prog σ α} (hx : Keeps o x) (hy : Keeps o y) :
    Keeps o (if c then x else y) := by
  split
  · exact hx
  · exact hy

theorem Keeps.read (f : σ → α) : Keeps o (read f) := fun _ => rfl

/-- What is computed from an observation that is kept is kept. -/
theorem Keeps.comp {O' : Type} {x : Prog σ α} (hx : Keeps o x) (g : O → O') :
    Keeps (fun s => g (o s)) x :=
  fun s => congrArg g (hx s)

theorem Keeps.foldlM {f : β → α → Prog σ β} (hf : ∀ b a, Keeps o (f b a)) (l : List α) (b : β) :
    Keeps o (l.foldlM f b) := by
  induction l generalizing b with
  | nil => exact .pure b
  | cons a l ih => exact .bind (hf b a) ih

/-! ## Programs that only take away -/

/-- What `h` relates to the state after the program, it related to the state before. -/
def Lowers {T : Type} (h : σ → T → Prop) (x : Prog σ α) : Prop := ∀ s t, h (x.final s) t → h s t

section Lowers

variable {T : Type} {h : σ → T → Prop}

theorem Lowers.run {x : Prog σ α} (hx : Lowers h x) {s s' : σ} {a : α} {t : T} (heq : x s = (a, s'))
    (ht : h s' t) : h s t :=
  hx s t (show h (x s).2 t from heq ▸ ht)

theorem Lowers.pure (a : α) : Lowers h (pure a : Prog σ α) := fun _ _ hs => hs

theorem Lowers.bind {x : Prog σ α} {f : α → Prog σ β} (hx : Lowers h x) (hf : ∀ a, Lowers h (f a)) :
    Lowers h (x >>= f) :=
  fun s t hs => hx s t (hf _ _ t hs)

theorem Lowers.ite {c : Prop} [Decidable c] {x y : Prog σ α} (hx : Lowers h x) (hy : Lowers h y) :
    Lowers h (if c then x else y) := by
  split
  · exact hx
  · exact hy

/-- A program that keeps what the relation is about. -/
theorem Lowers.of_keeps {O : Type} {o : σ → O} {x : Prog σ α} (hx : Keeps o x)
    (ho : ∀ s s' t, o s = o s' → h s t → h s' t) : Lowers h x :=
  fun s t hs => ho _ _ t (hx s) hs

theorem Lowers.read (f : σ → α) : Lowers h (read f) := fun _ _ hs => hs

theorem Lowers.foldlM {f : β → α → Prog σ β} (hf : ∀ b a, Lowers h (f b a)) (l : List α) (b : β) :
    Lowers h (l.foldlM f b) := by
  induction l generalizing b with
  | nil => exact .pure b
  | cons a l ih => exact .bind (hf b a) ih

end Lowers

end Prog

end JautoProf
