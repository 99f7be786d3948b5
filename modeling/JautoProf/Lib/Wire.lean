import Mathlib.Algebra.Ring.Int.Defs
import Mathlib.Algebra.Ring.Nat
import Mathlib.Tactic.Common
import Mathlib.Data.List.Basic
import Mathlib.Tactic.Zify

/-!
# Little-endian wire formats

The bytes of fixed-width integers, and readers that walk a buffer by offset. A reader is
given the whole buffer and an offset, and returns a value and the offset after it.
`Reads r bs a` says that `r`, wherever the bytes `bs` stand in a buffer, reads them as `a`
and stops right after them; the rules below follow the constructors of readers.

Results:
1. `ofLe_le`, `toSigned_le`: an integer in range is read back from its bytes.
2. `Reads.bind`, `Reads.times`: readers in sequence read bytes in sequence; `Reads.look`:
   one that looks ahead.
3. `Yields.bind`, `Yields.times`: what holds of every value that a reader returns.
-/

namespace JautoProf.Wire

/-! ## Integers -/

/-- The `n` low bytes of `x`, least significant first. -/
def le : Nat → Nat → List UInt8
  | 0, _ => []
  | n + 1, x => UInt8.ofNat x :: le n (x / 256)

/-- The number whose bytes these are, least significant first. -/
def ofLe : List UInt8 → Nat
  | [] => 0
  | b :: bs => b.toNat + 256 * ofLe bs

/-- The two's complement of `n` bytes. -/
def leInt (n : Nat) (x : Int) : List UInt8 := le n (x % 256 ^ n).toNat

/-- A number of `n` bytes read as a two's complement. -/
def toSigned (n : Nat) (x : Nat) : Int := if 2 * x < 256 ^ n then x else (x : Int) - 256 ^ n

@[simp] theorem le_length (n x : Nat) : (le n x).length = n := by
  induction n generalizing x with
  | zero => rfl
  | succ n ih => simp [le, ih]

@[simp] theorem leInt_length (n : Nat) (x : Int) : (leInt n x).length = n := le_length n _

theorem ofLe_le {n x : Nat} (h : x < 256 ^ n) : ofLe (le n x) = x := by
  induction n generalizing x with
  | zero => simp at h; simp [le, ofLe, h]
  | succ n ih =>
    have hdiv : x / 256 < 256 ^ n := by
      rw [Nat.div_lt_iff_lt_mul (by decide)]
      rwa [Nat.pow_succ] at h
    rw [le, ofLe, ih hdiv, UInt8.toNat_ofNat']
    exact Nat.mod_add_div x 256

/-- Only the low bytes of a number are written. -/
theorem le_mod (n x : Nat) : le n (x % 256 ^ n) = le n x := by
  induction n generalizing x with
  | zero => rfl
  | succ n ih =>
    have hdiv : x % 256 ^ (n + 1) / 256 = x / 256 % 256 ^ n := by
      rw [Nat.pow_succ, Nat.mul_comm, Nat.mod_mul_right_div_self]
    have hmod : UInt8.ofNat (x % 256 ^ (n + 1)) = UInt8.ofNat x := by
      apply UInt8.toNat_inj.mp
      rw [UInt8.toNat_ofNat', UInt8.toNat_ofNat', Nat.pow_succ, Nat.mul_comm]
      exact Nat.mod_mul_right_mod x 256 _
    rw [le, le, hdiv, ih, hmod]

theorem le_ofLe (bs : List UInt8) : le bs.length (ofLe bs) = bs := by
  induction bs with
  | nil => rfl
  | cons b bs ih =>
    have hb := b.toNat_lt
    have hdiv : (b.toNat + 256 * ofLe bs) / 256 = ofLe bs := by omega
    rw [List.length_cons, le, ofLe, hdiv, ih]
    congr 1
    apply UInt8.toNat_inj.mp
    rw [UInt8.toNat_ofNat']
    omega

theorem ofLe_lt (bs : List UInt8) : ofLe bs < 256 ^ bs.length := by
  induction bs with
  | nil => simp [ofLe]
  | cons b bs ih =>
    have hb := b.toNat_lt
    rw [ofLe, List.length_cons, Nat.pow_succ]
    omega

theorem toSigned_le {n : Nat} {x : Int} (hlo : -(256 ^ n : Int) ≤ 2 * x) (hhi : 2 * x < 256 ^ n) :
    toSigned n (ofLe (leInt n x)) = x := by
  have hpos : (0 : Int) < 256 ^ n := Int.pow_pos (by decide)
  have hnn : 0 ≤ x % 256 ^ n := Int.emod_nonneg x (Int.ne_of_gt hpos)
  have hlt : (x % 256 ^ n).toNat < 256 ^ n := by
    zify
    rw [Int.toNat_of_nonneg hnn]
    exact Int.emod_lt_of_pos x hpos
  rw [leInt, ofLe_le hlt, toSigned]
  have hcast : ((x % 256 ^ n).toNat : Int) = x % 256 ^ n := Int.toNat_of_nonneg hnn
  by_cases hx : 0 ≤ x
  · have hmod : x % 256 ^ n = x := Int.emod_eq_of_lt hx (by omega)
    rw [if_pos, hcast, hmod]
    zify
    rw [hcast, hmod]
    exact hhi
  · have hmod : x % 256 ^ n = x + 256 ^ n := by
      rw [← Int.add_emod_right]
      exact Int.emod_eq_of_lt (by omega) (by omega)
    rw [if_neg, hcast, hmod]
    · omega
    · zify
      rw [hcast, hmod]
      omega

/-- The `n` low bytes of `x`, most significant first. -/
def be (n x : Nat) : List UInt8 := (le n x).reverse

/-- The number whose bytes these are, most significant first. -/
def ofBe (bs : List UInt8) : Nat := ofLe bs.reverse

@[simp] theorem be_length (n x : Nat) : (be n x).length = n := by
  rw [be, List.length_reverse, le_length]

theorem ofBe_be {n x : Nat} (h : x < 256 ^ n) : ofBe (be n x) = x := by
  rw [ofBe, be, List.reverse_reverse, ofLe_le h]

/-! ## Readers -/

/-- A reader of `α` that fails with `ε`. -/
def Reader (ε α : Type) : Type := List UInt8 → Nat → Except ε (α × Nat)

namespace Reader

variable {ε α β : Type}

def pure (a : α) : Reader ε α := fun _ off => .ok (a, off)

def bind (r : Reader ε α) (f : α → Reader ε β) : Reader ε β := fun buf off =>
  match r buf off with
  | .error e => .error e
  | .ok (a, off') => f a buf off'

instance : Monad (Reader ε) where
  pure := Reader.pure
  bind := Reader.bind

theorem bind_apply (r : Reader ε α) (f : α → Reader ε β) (buf : List UInt8) (off : Nat) :
    (r >>= f) buf off =
      match r buf off with
      | .error e => .error e
      | .ok (a, off') => f a buf off' := rfl

/-- The next `n` bytes, or an error where the buffer ends before. -/
def bytes (n : Nat) (e : ε) : Reader ε (List UInt8) := fun buf off =>
  if off + n ≤ buf.length then .ok ((buf.drop off).take n, off + n) else .error e

/-- The `n` bytes at a distance from the position, which stays where it is. -/
def ahead (dist n : Nat) (e : ε) : Reader ε (List UInt8) := fun buf off =>
  if off + dist + n ≤ buf.length then .ok ((buf.drop (off + dist)).take n, off) else .error e

/-- Stop where fewer than `n` bytes are left. -/
def need (n : Nat) (e : ε) : Reader ε Unit := fun buf off =>
  if off + n ≤ buf.length then .ok ((), off) else .error e

/-- Move the position; it may come to lie behind the buffer. -/
def advance (n : Nat) : Reader ε Unit := fun _ off => .ok ((), off + n)

def position : Reader ε Nat := fun _ off => .ok (off, off)

def fail (e : ε) : Reader ε α := fun _ _ => .error e

/-- An unsigned integer of `n` bytes. -/
def unsigned (n : Nat) (e : ε) : Reader ε Nat := do
  let bs ← bytes n e
  return ofLe bs

/-- A signed integer of `n` bytes. -/
def signed (n : Nat) (e : ε) : Reader ε Int := do
  let bs ← bytes n e
  return toSigned n (ofLe bs)

/-- A reader run `n` times. -/
def times (r : Reader ε α) : Nat → Reader ε (List α)
  | 0 => return []
  | n + 1 => do
    let a ← r
    let as ← times r n
    return a :: as

/-- The reader on a whole buffer. -/
def run (r : Reader ε α) (buf : List UInt8) : Except ε α := (r buf 0).map Prod.fst

end Reader

variable {ε α β γ : Type}

/-- Wherever the bytes stand in a buffer, the reader reads them as `a`. -/
def Reads (r : Reader ε α) (bs : List UInt8) (a : α) : Prop :=
  ∀ pre post, r (pre ++ bs ++ post) pre.length = .ok (a, pre.length + bs.length)

/-- Wherever the bytes stand in a buffer, the reader returns `a` and stays in front of
them. -/
def Sees (r : Reader ε α) (bs : List UInt8) (a : α) : Prop :=
  ∀ pre post, r (pre ++ bs ++ post) pre.length = .ok (a, pre.length)

namespace Sees

/-- What a reader sees does not depend on the bytes that follow. -/
theorem append {r : Reader ε α} {bs : List UInt8} {a : α} (h : Sees r bs a) (cs : List UInt8) :
    Sees r (bs ++ cs) a := by
  intro pre post
  simpa only [List.append_assoc] using h pre (cs ++ post)

theorem pure (a : α) (bs : List UInt8) : Sees (Pure.pure a : Reader ε α) bs a := fun _ _ => rfl

theorem bind {r : Reader ε α} {f : α → Reader ε β} {bs : List UInt8} {a : α} {b : β}
    (hr : Sees r bs a) (hf : Sees (f a) bs b) : Sees (r >>= f) bs b := by
  intro pre post
  rw [Reader.bind_apply, hr]
  exact hf pre post

theorem position {f : Nat → Reader ε β} {bs : List UInt8} {b : β} (hf : ∀ p, Sees (f p) bs b) :
    Sees (Reader.position >>= f) bs b :=
  fun pre post => hf pre.length pre post

theorem need {bs : List UInt8} {n : Nat} (h : n ≤ bs.length) (e : ε) :
    Sees (Reader.need n e) bs () := by
  intro pre post
  refine if_pos ?_
  rw [List.length_append, List.length_append]
  omega

theorem ahead (pre : List UInt8) {bs : List UInt8} {n : Nat} (h : bs.length = n) (e : ε) :
    Sees (Reader.ahead pre.length n e) (pre ++ bs) bs := by
  intro front back
  subst h
  simp [Reader.ahead, Nat.add_assoc]

/-- The last step of a reader that stays where it is. -/
theorem map {r : Reader ε α} {bs : List UInt8} {a : α} (h : Sees r bs a) (g : α → β) :
    Sees (r >>= fun x => Pure.pure (g x)) bs (g a) :=
  h.bind (pure (g a) bs)

end Sees

namespace Reads

theorem pure (a : α) : Reads (Pure.pure a : Reader ε α) [] a := fun _ _ => rfl

theorem bind {r : Reader ε α} {f : α → Reader ε β} {bs cs : List UInt8} {a : α} {b : β}
    (hr : Reads r bs a) (hf : Reads (f a) cs b) : Reads (r >>= f) (bs ++ cs) b := by
  intro pre post
  have hbs : r (pre ++ (bs ++ cs) ++ post) pre.length = .ok (a, pre.length + bs.length) := by
    simpa only [List.append_assoc] using hr pre (cs ++ post)
  have hcs : f a (pre ++ (bs ++ cs) ++ post) (pre.length + bs.length) =
      .ok (b, pre.length + (bs ++ cs).length) := by
    simpa only [List.append_assoc, List.length_append, Nat.add_assoc] using hf (pre ++ bs) post
  rw [Reader.bind_apply, hbs]
  exact hcs

/-- What is done after the last byte. -/
theorem bind_nil {r : Reader ε α} {f : α → Reader ε β} {bs : List UInt8} {a : α} {b : β}
    (hr : Reads r bs a) (hf : Reads (f a) [] b) : Reads (r >>= f) bs b := by
  have := hr.bind hf
  rwa [List.append_nil] at this

/-- The last step of a reader. -/
theorem map {r : Reader ε α} {bs : List UInt8} {a : α} (hr : Reads r bs a) (g : α → β) :
    Reads (r >>= fun x => Pure.pure (g x)) bs (g a) :=
  hr.bind_nil (pure (g a))

theorem bytes {n : Nat} {bs : List UInt8} (h : bs.length = n) (e : ε) :
    Reads (Reader.bytes n e) bs bs := by
  intro pre post
  subst h
  simp [Reader.bytes]

theorem unsigned {n x : Nat} (h : x < 256 ^ n) (e : ε) :
    Reads (Reader.unsigned n e) (le n x) x := by
  have := (bytes (le_length n x) e).map ofLe
  rwa [ofLe_le h] at this

theorem signed {n : Nat} {x : Int} (hlo : -(256 ^ n : Int) ≤ 2 * x) (hhi : 2 * x < 256 ^ n)
    (e : ε) : Reads (Reader.signed n e) (leInt n x) x := by
  have := (bytes (leInt_length n x) e).map fun bs => toSigned n (ofLe bs)
  rwa [toSigned_le hlo hhi] at this

/-- A reader that first looks at the bytes that it goes on with. -/
theorem look {r : Reader ε α} {f : α → Reader ε β} {bs : List UInt8} {a : α} {b : β}
    (hr : Sees r bs a) (hf : Reads (f a) bs b) : Reads (r >>= f) bs b := by
  intro pre post
  rw [Reader.bind_apply, hr]
  exact hf pre post

theorem of_sees {r : Reader ε α} {a : α} (h : Sees r [] a) : Reads r [] a := h

theorem advance {n : Nat} {bs : List UInt8} (h : bs.length = n) :
    Reads (Reader.advance n : Reader ε Unit) bs () := by
  intro pre post
  rw [h]
  rfl

theorem position {f : Nat → Reader ε β} {bs : List UInt8} {b : β} (hf : ∀ p, Reads (f p) bs b) :
    Reads (Reader.position >>= f) bs b :=
  fun pre post => hf pre.length pre post

/-- A list of items, each read from its own bytes. -/
theorem times {r : Reader ε α} {enc : γ → List UInt8} {val : γ → α} {l : List γ}
    (h : ∀ x ∈ l, Reads r (enc x) (val x)) :
    Reads (r.times l.length) (l.flatMap enc) (l.map val) := by
  induction l with
  | nil => exact pure []
  | cons x l ih =>
    refine bind (h x List.mem_cons_self) ?_
    exact (ih fun y hy => h y (List.mem_cons_of_mem x hy)).map _

/-- A reader of a whole message. -/
theorem run {r : Reader ε α} {bs : List UInt8} {a : α} (h : Reads r bs a) (post : List UInt8) :
    r.run (bs ++ post) = .ok a := by
  have := h [] post
  rw [List.nil_append, List.length_nil] at this
  rw [Reader.run, this]
  rfl

end Reads

/-! ## What a reader returns -/

/-- Every value that the reader returns, on any buffer, satisfies `P`. -/
def Yields (r : Reader ε α) (P : α → Prop) : Prop :=
  ∀ buf off a off', r buf off = .ok (a, off') → P a

namespace Yields

variable {P : α → Prop} {Q : β → Prop}

theorem pure {a : α} (h : P a) : Yields (Pure.pure a : Reader ε α) P := by
  intro buf off b off' hb
  cases hb
  exact h

theorem bind {r : Reader ε α} {f : α → Reader ε β} (hr : Yields r P)
    (hf : ∀ a, P a → Yields (f a) Q) : Yields (r >>= f) Q := by
  intro buf off b off' hb
  rw [Reader.bind_apply] at hb
  split at hb
  · cases hb
  · next a o ha => exact hf a (hr buf off a o ha) buf o b off' hb

theorem bytes (n : Nat) (e : ε) : Yields (Reader.bytes n e) (·.length = n) := by
  intro buf off bs off' h
  unfold Reader.bytes at h
  split at h
  · next hle =>
    cases h
    rw [List.length_take, List.length_drop]
    omega
  · cases h

theorem unsigned (n : Nat) (e : ε) : Yields (Reader.unsigned n e) (· < 256 ^ n) :=
  bind (bytes n e) fun bs hbs => pure (hbs ▸ ofLe_lt bs)

theorem any (r : Reader ε α) : Yields r fun _ => True := fun _ _ _ _ _ => trivial

theorem times {r : Reader ε α} (h : Yields r P) (n : Nat) : Yields (r.times n) (∀ x ∈ ·, P x) := by
  induction n with
  | zero => exact pure (by simp)
  | succ n ih =>
    exact bind h fun a ha => bind ih fun as has => pure (List.forall_mem_cons.mpr ⟨ha, has⟩)

theorem run {r : Reader ε α} (h : Yields r P) {buf : List UInt8} {a : α} (ha : r.run buf = .ok a) :
    P a := by
  unfold Reader.run at ha
  cases hr : r buf 0 with
  | error e =>
    rw [hr] at ha
    cases ha
  | ok p =>
    rw [hr] at ha
    cases ha
    exact h buf 0 p.1 p.2 hr

end Yields

end JautoProf.Wire
