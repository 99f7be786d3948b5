import JautoProf.Lib.Wire

/-!
# Readers by position

What a reader does on one buffer at one position. Items of a size that only their bytes
tell, one behind the other, are `Rows` of the positions at which they start.

Results:
1. `Reader.bind_ok`: two readers succeed in sequence when each succeeds where it starts.
2. `Rows.next`: where the end of an item follows from its start, a row that starts at the
   same position goes on in the same way.
3. `Avoids.bind`: an error that no part of a reader stops with.
-/

namespace JautoProf.Wire

variable {ε α β : Type} {buf : List UInt8} {off off' : Nat}

/-! ## Success -/

namespace Reader

theorem bind_ok {r : Reader ε α} {f : α → Reader ε β} {b : β} :
    (r >>= f) buf off = .ok (b, off') ↔
      ∃ a mid, r buf off = .ok (a, mid) ∧ f a buf mid = .ok (b, off') := by
  rw [bind_apply]
  cases h : r buf off with
  | error e => simp
  | ok p =>
    obtain ⟨a, mid⟩ := p
    simp

theorem pure_ok {a b : α} :
    (Pure.pure a : Reader ε α) buf off = .ok (b, off') ↔ a = b ∧ off = off' := by
  show (Except.ok (a, off) : Except ε (α × Nat)) = .ok (b, off') ↔ _
  simp

theorem need_ok {n : Nat} {e : ε} {u : Unit} :
    need n e buf off = .ok (u, off') ↔ off + n ≤ buf.length ∧ off = off' := by
  unfold need
  split <;> simp [*]

theorem advance_ok {n : Nat} {u : Unit} :
    (advance n : Reader ε Unit) buf off = .ok (u, off') ↔ off + n = off' := by
  unfold advance
  simp

theorem position_ok {p : Nat} :
    (position : Reader ε Nat) buf off = .ok (p, off') ↔ off = p ∧ off = off' := by
  unfold position
  simp

theorem ahead_ok {dist n : Nat} {e : ε} {bs : List UInt8} :
    ahead dist n e buf off = .ok (bs, off') ↔
      off + dist + n ≤ buf.length ∧ (buf.drop (off + dist)).take n = bs ∧ off = off' := by
  unfold ahead
  split <;> simp [*]

/-- A value is read where it stands, and the reader stays where it was. -/
theorem peek_ok {dist n : Nat} {e : ε} {g : List UInt8 → α} {x : α} :
    (ahead dist n e >>= fun p => Pure.pure (g p)) buf off = .ok (x, off') ↔
      off + dist + n ≤ buf.length ∧ g ((buf.drop (off + dist)).take n) = x ∧ off = off' := by
  simp only [bind_ok, ahead_ok, pure_ok]
  constructor
  · rintro ⟨p, mid, ⟨hle, rfl, rfl⟩, rfl, rfl⟩
    exact ⟨hle, rfl, rfl⟩
  · rintro ⟨hle, rfl, rfl⟩
    exact ⟨_, _, ⟨hle, rfl, rfl⟩, rfl, rfl⟩

theorem fail_ok {e : ε} {a : α} : (fail e : Reader ε α) buf off = .ok (a, off') ↔ False := by
  simp [fail]

theorem run_ok {r : Reader ε α} {a : α} : r.run buf = .ok a ↔ ∃ off', r buf 0 = .ok (a, off') := by
  unfold run
  cases h : r buf 0 with
  | error e => simp [Except.map]
  | ok p =>
    obtain ⟨x, q⟩ := p
    simp [Except.map]

end Reader

/-! ## Rows of items -/

/-- Items that start at the given positions, each where the one before ends; `item` relates
the start of an item to its end. -/
inductive Rows (item : Nat → Nat → Prop) : List Nat → Nat → Nat → Prop
  | nil (off : Nat) : Rows item [] off off
  | cons {offs : List Nat} {off mid off' : Nat} (h : item off mid) (hs : Rows item offs mid off') :
    Rows item (off :: offs) off off'

namespace Rows

variable {item item' : Nat → Nat → Prop} {offs : List Nat}

theorem mono (h : Rows item offs off off') (himp : ∀ p q, item p q → item' p q) :
    Rows item' offs off off' := by
  induction h with
  | nil off => exact .nil off
  | cons hi _ ih => exact .cons (himp _ _ hi) ih

theorem le (h : Rows item offs off off') (hle : ∀ p q, item p q → p ≤ q) : off ≤ off' := by
  induction h with
  | nil off => exact Nat.le_refl off
  | cons hi _ ih => exact Nat.le_trans (hle _ _ hi) ih

/-- After fewer items than there are, another one follows. -/
theorem next {start p : Nat} {front : List Nat} (h : Rows item offs start off')
    (hfront : Rows item front start p) (hlt : front.length < offs.length)
    (hfun : ∀ p q q', item p q → item p q' → q = q') : ∃ q, item p q := by
  induction hfront generalizing offs with
  | nil start =>
    cases h with
    | nil => exact absurd hlt (Nat.lt_irrefl 0)
    | cons hi _ => exact ⟨_, hi⟩
  | cons hf _ ih =>
    cases h with
    | nil => exact absurd hlt (Nat.not_lt_zero _)
    | cons hi hs =>
      rw [hfun _ _ _ hi hf] at hs
      exact ih hs (Nat.lt_of_succ_lt_succ hlt)

/-- As many items from the same start end at the same position. -/
theorem unique {start p : Nat} {offs' : List Nat} (h : Rows item offs start off')
    (h' : Rows item offs' start p) (hlen : offs.length = offs'.length)
    (hfun : ∀ p q q', item p q → item p q' → q = q') : offs = offs' ∧ off' = p := by
  induction h generalizing offs' with
  | nil start =>
    cases h' with
    | nil => exact ⟨rfl, rfl⟩
    | cons => cases hlen
  | cons hi _ ih =>
    cases h' with
    | nil => cases hlen
    | cons hi' hs' =>
      rw [hfun _ _ _ hi' hi] at hs'
      obtain ⟨rfl, rfl⟩ := ih hs' (Nat.succ.inj hlen)
      exact ⟨rfl, rfl⟩

end Rows

/-- A reader run several times succeeds on a row of items. -/
theorem Reader.times_ok {r : Reader ε Unit} {n : Nat} :
    (∃ us, r.times n buf off = .ok (us, off')) ↔
      ∃ offs, offs.length = n ∧ Rows (fun p q => r buf p = .ok ((), q)) offs off off' := by
  induction n generalizing off with
  | zero =>
    constructor
    · rintro ⟨us, h⟩
      obtain ⟨-, rfl⟩ := pure_ok.mp h
      exact ⟨[], rfl, .nil off⟩
    · rintro ⟨offs, hlen, hrows⟩
      rw [List.length_eq_zero_iff.mp hlen] at hrows
      cases hrows
      exact ⟨[], rfl⟩
  | succ n ih =>
    constructor
    · rintro ⟨us, h⟩
      obtain ⟨u, mid, hr, h⟩ := bind_ok.mp h
      obtain ⟨us', q, hs, h⟩ := bind_ok.mp h
      obtain ⟨-, rfl⟩ := pure_ok.mp h
      obtain ⟨offs, rfl, hrows⟩ := ih.mp ⟨us', hs⟩
      exact ⟨off :: offs, rfl, .cons hr hrows⟩
    · rintro ⟨offs, hlen, hrows⟩
      cases hrows with
      | nil => cases hlen
      | cons hr hrows =>
        obtain ⟨us, hs⟩ := ih.mpr ⟨_, Nat.succ.inj hlen, hrows⟩
        exact ⟨() :: us, bind_ok.mpr ⟨(), _, hr, bind_ok.mpr ⟨us, off', hs, rfl⟩⟩⟩

/-! ## Errors -/

/-- On the buffer, from the position on, the reader does not stop with `e`, and what it
returns satisfies `Q`. -/
structure Avoids (e : ε) (r : Reader ε α) (buf : List UInt8) (off : Nat) (Q : α → Nat → Prop) :
    Prop where
  ne : r buf off ≠ .error e
  post : ∀ a off', r buf off = .ok (a, off') → Q a off'

namespace Avoids

variable {e e' : ε} {r : Reader ε α} {Q : α → Nat → Prop} {R : β → Nat → Prop}

theorem bind {f : α → Reader ε β} (hr : Avoids e r buf off Q)
    (hf : ∀ a mid, Q a mid → Avoids e (f a) buf mid R) : Avoids e (r >>= f) buf off R := by
  constructor
  · rw [Reader.bind_apply]
    cases h : r buf off with
    | error e' => exact fun heq => hr.ne (by rw [h, Except.error.inj heq])
    | ok p => exact (hf p.1 p.2 (hr.post _ _ h)).ne
  · intro b off' h
    obtain ⟨a, mid, ha, hb⟩ := Reader.bind_ok.mp h
    exact (hf a mid (hr.post a mid ha)).post b off' hb

theorem pure {a : α} (h : Q a off) : Avoids e (Pure.pure a) buf off Q := by
  constructor
  · intro heq
    cases heq
  · intro b off' hb
    obtain ⟨rfl, rfl⟩ := Reader.pure_ok.mp hb
    exact h

theorem fail (h : e' ≠ e) : Avoids e (Reader.fail e') buf off Q := by
  constructor
  · exact fun heq => h (Except.error.inj heq)
  · exact fun _ _ hb => (Reader.fail_ok.mp hb).elim

theorem need {n : Nat} {Q : Unit → Nat → Prop} (he : e' ≠ e)
    (h : off + n ≤ buf.length → Q () off) : Avoids e (Reader.need n e') buf off Q := by
  constructor
  · unfold Reader.need
    split
    · exact fun heq => by cases heq
    · exact fun heq => he (Except.error.inj heq)
  · intro _ _ hb
    obtain ⟨hle, rfl⟩ := Reader.need_ok.mp hb
    exact h hle

theorem ahead {dist n : Nat} {Q : List UInt8 → Nat → Prop} (hle : off + dist + n ≤ buf.length)
    (h : Q ((buf.drop (off + dist)).take n) off) : Avoids e (Reader.ahead dist n e') buf off Q := by
  unfold Reader.ahead
  constructor
  · rw [if_pos hle]
    exact fun heq => by cases heq
  · intro bs off' hb
    obtain ⟨-, rfl, rfl⟩ := Reader.ahead_ok.mp hb
    exact h

theorem advance {n : Nat} {Q : Unit → Nat → Prop} (h : Q () (off + n)) :
    Avoids e (Reader.advance n) buf off Q := by
  constructor
  · exact fun heq => by cases heq
  · intro _ _ hb
    obtain rfl := Reader.advance_ok.mp hb
    exact h

theorem position {Q : Nat → Nat → Prop} (h : Q off off) : Avoids e Reader.position buf off Q := by
  constructor
  · exact fun heq => by cases heq
  · intro _ _ hb
    obtain ⟨rfl, rfl⟩ := Reader.position_ok.mp hb
    exact h

theorem mono {Q' : α → Nat → Prop} (h : Avoids e r buf off Q) (himp : ∀ a p, Q a p → Q' a p) :
    Avoids e r buf off Q' :=
  ⟨h.ne, fun a p ha => himp a p (h.post a p ha)⟩

/-- Repetition, with what holds of the positions between the items. -/
theorem times {P : Nat → Prop} (h : ∀ p, P p → Avoids e r buf p fun _ q => P q) (n : Nat)
    (hoff : P off) : Avoids e (r.times n) buf off fun _ q => P q := by
  induction n generalizing off with
  | zero => exact .pure hoff
  | succ n ih => exact (h off hoff).bind fun _ _ hmid => (ih hmid).bind fun _ _ hq => .pure hq

end Avoids

end JautoProf.Wire
