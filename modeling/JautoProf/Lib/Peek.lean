import JautoProf.Lib.Wire

/-!
# Programs that read a buffer

A `Peek` program reads bytes of a buffer one at a time and then returns a value; which byte
it reads next may depend on the bytes before. The buffer is a function, so it has no end:
that a program stays within a bound is a statement about the offsets it reads.

Results:
1. `run_congr`: the result depends on the bytes that are read only.
2. `Below.bind`, `below_bytes`: where a program reads.
3. `prefix_append_iff`: what a buffer starts with.
-/

namespace JautoProf

/-- A program that reads a buffer. -/
inductive Peek (α : Type) : Type
  | done (a : α)
  | read (off : Nat) (k : UInt8 → Peek α)

namespace Peek

variable {α β : Type}

def bind : Peek α → (α → Peek β) → Peek β
  | done a, f => f a
  | read off k, f => read off fun b => bind (k b) f

instance : Monad Peek where
  pure := done
  bind := Peek.bind

/-- The result on a buffer. -/
def run (mem : Nat → UInt8) : Peek α → α
  | done a => a
  | read off k => run mem (k (mem off))

/-- The offsets that are read, in order. -/
def reads (mem : Nat → UInt8) : Peek α → List Nat
  | done _ => []
  | read off k => off :: reads mem (k (mem off))

/-- The bytes of a buffer from an offset on. -/
def bytesAt (mem : Nat → UInt8) : Nat → Nat → List UInt8
  | _, 0 => []
  | off, n + 1 => mem off :: bytesAt mem (off + 1) n

/-- Read `n` bytes. -/
def bytes : Nat → Nat → Peek (List UInt8)
  | _, 0 => done []
  | off, n + 1 => read off fun b => (bytes (off + 1) n).bind fun bs => done (b :: bs)

/-- Read a number of `n` bytes. -/
def number (off n : Nat) : Peek Nat := do
  let bs ← bytes off n
  return Wire.ofLe bs

/-! ## Results -/

@[simp] theorem run_pure (mem : Nat → UInt8) (a : α) : run mem (pure a) = a := rfl

@[simp] theorem run_bind (mem : Nat → UInt8) (p : Peek α) (f : α → Peek β) :
    run mem (p >>= f) = run mem (f (run mem p)) := by
  induction p with
  | done a => rfl
  | read off k ih => exact ih (mem off)

@[simp] theorem run_ite (mem : Nat → UInt8) (c : Prop) [Decidable c] (p q : Peek α) :
    run mem (if c then p else q) = if c then run mem p else run mem q := apply_ite _ _ _ _

@[simp] theorem run_bytes (mem : Nat → UInt8) (off n : Nat) :
    run mem (bytes off n) = bytesAt mem off n := by
  induction n generalizing off with
  | zero => rfl
  | succ n ih =>
    have := run_bind mem (bytes (off + 1) n) fun bs => done (mem off :: bs)
    rw [ih] at this
    exact this

@[simp] theorem run_number (mem : Nat → UInt8) (off n : Nat) :
    run mem (number off n) = Wire.ofLe (bytesAt mem off n) := by
  simp [number]

/-- The result depends on the bytes that are read only. -/
theorem run_congr {mem mem' : Nat → UInt8} {p : Peek α} (h : ∀ o ∈ p.reads mem, mem' o = mem o) :
    run mem' p = run mem p := by
  induction p with
  | done a => rfl
  | read off k ih =>
    have hoff : mem' off = mem off := h off List.mem_cons_self
    rw [run, run, hoff]
    exact ih (mem off) fun o ho => h o (List.mem_cons_of_mem off ho)

/-! ## Offsets -/

/-- Every offset that the program reads is below the bound. -/
def Below (mem : Nat → UInt8) (s : Nat) (p : Peek α) : Prop := ∀ o ∈ p.reads mem, o < s

variable {mem : Nat → UInt8} {s : Nat}

theorem below_pure (a : α) : Below mem s (pure a) := by
  intro o ho
  cases ho

theorem Below.bind {p : Peek α} {f : α → Peek β} (hp : Below mem s p)
    (hf : Below mem s (f (run mem p))) : Below mem s (p >>= f) := by
  induction p with
  | done a => exact hf
  | read off k ih =>
    intro o ho
    rcases List.mem_cons.mp ho with rfl | ho
    · exact hp o List.mem_cons_self
    · exact ih (mem off) (fun o ho => hp o (List.mem_cons_of_mem off ho)) hf o ho

theorem Below.ite {c : Prop} [Decidable c] {p q : Peek α} (hp : c → Below mem s p)
    (hq : ¬ c → Below mem s q) : Below mem s (if c then p else q) := by
  split
  · exact hp ‹c›
  · exact hq ‹¬ c›

theorem below_bytes {off n : Nat} (h : off + n ≤ s) : Below mem s (bytes off n) := by
  induction n generalizing off with
  | zero => exact below_pure []
  | succ n ih =>
    intro o ho
    rcases List.mem_cons.mp ho with rfl | ho
    · omega
    · have hrest : Below mem s (bytes (off + 1) n) := ih (by omega)
      exact hrest.bind (below_pure (mem off :: _)) o ho

theorem below_number {off n : Nat} (h : off + n ≤ s) : Below mem s (number off n) :=
  (below_bytes h).bind (below_pure _)

/-! ## Prefixes -/

@[simp] theorem bytesAt_length (mem : Nat → UInt8) (off n : Nat) : (bytesAt mem off n).length = n := by
  induction n generalizing off with
  | zero => rfl
  | succ n ih => rw [bytesAt, List.length_cons, ih]

theorem bytesAt_add (mem : Nat → UInt8) (off m n : Nat) :
    bytesAt mem off (m + n) = bytesAt mem off m ++ bytesAt mem (off + m) n := by
  induction m generalizing off with
  | zero => rw [Nat.zero_add]; rfl
  | succ m ih =>
    rw [Nat.succ_add, bytesAt, ih, bytesAt, List.cons_append, Nat.add_assoc, Nat.add_comm 1 m]

/-- A buffer that starts with the bytes. -/
theorem bytesAt_of_getElem {bs : List UInt8} (h : ∀ off, (hlt : off < bs.length) → mem off = bs[off]) :
    bytesAt mem 0 bs.length = bs := by
  suffices hrest : ∀ off, bytesAt mem off (bs.length - off) = bs.drop off from hrest 0
  intro off
  induction hn : bs.length - off generalizing off with
  | zero =>
    rw [List.drop_of_length_le (Nat.sub_eq_zero_iff_le.mp hn)]
    rfl
  | succ n ih =>
    have hlt : off < bs.length := Nat.lt_of_sub_eq_succ hn
    have hnext : bs.length - (off + 1) = n := by rw [Nat.sub_add_eq, hn, Nat.add_sub_cancel]
    rw [bytesAt, ih (off + 1) hnext, List.drop_eq_getElem_cons hlt, h off hlt]

/-- What the bytes from an offset on start with. -/
theorem prefix_iff {l : List UInt8} {off n : Nat} :
    l <+: bytesAt mem off n ↔ l.length ≤ n ∧ bytesAt mem off l.length = l := by
  constructor
  · intro h
    have hle : l.length ≤ n := by simpa using h.length_le
    refine ⟨hle, ?_⟩
    have hsplit : bytesAt mem off n =
        bytesAt mem off l.length ++ bytesAt mem (off + l.length) (n - l.length) := by
      rw [← bytesAt_add, Nat.add_sub_cancel' hle]
    rw [hsplit, List.prefix_iff_eq_take, List.take_left' (bytesAt_length ..)] at h
    exact h.symm
  · rintro ⟨hle, heq⟩
    rw [← Nat.add_sub_cancel' hle, bytesAt_add, heq]
    exact List.prefix_append _ _

theorem prefix_append_iff {a rest : List UInt8} {off n : Nat} :
    a ++ rest <+: bytesAt mem off n ↔ bytesAt mem off a.length = a ∧ a.length ≤ n ∧
      rest <+: bytesAt mem (off + a.length) (n - a.length) := by
  rw [prefix_iff, prefix_iff, List.length_append, bytesAt_add]
  constructor
  · rintro ⟨hle, heq⟩
    obtain ⟨ha, hrest⟩ := List.append_inj heq (by simp)
    exact ⟨ha, by omega, by omega, hrest⟩
  · rintro ⟨ha, hle, hle', hrest⟩
    refine ⟨by omega, ?_⟩
    rw [ha, hrest]

end Peek

end JautoProf
