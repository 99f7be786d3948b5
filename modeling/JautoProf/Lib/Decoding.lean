import JautoProf.Lib.Utf8

/-!
# Decoding with replacement

`decode` is `bytes.decode("utf-8", errors="replace")` of Python: a byte that no character starts
with is replaced by U+FFFD, and so is a part of a character that the bytes do not go on from.

Results:
1. `decode_encode`: what was encoded is decoded to the string it was.
2. `encode_decode_iff`: what is decoded is encoded to the same bytes exactly if they are an
   encoding of some string.
3. `encode_modified`, `plain_of_encode`: a modified encoding is a standard one if no unit is zero
   or a surrogate, and only then.
-/

namespace JautoProf.Utf8

/-- U+FFFD. -/
def replacement : Fin 0x110000 := 0xFFFD

/-- Where the decoder stands: between characters, or in one that goes on with a byte between `low`
and `high` and with `more` after it; `value` is what it has read of the character. -/
inductive Decoder
  | start
  | within (more value low high : Nat)
deriving DecidableEq

namespace Decoder

/-- The first byte of a character. -/
def first (b : Nat) : Str × Decoder :=
  if b < 0x80 then ([Fin.ofNat _ b], start)
  else if b < 0xC2 then ([replacement], start)
  else if b < 0xE0 then ([], within 0 (b - 0xC0) 0x80 0xBF)
  else if b = 0xE0 then ([], within 1 0 0xA0 0xBF)
  else if b = 0xED then ([], within 1 0xD 0x80 0x9F)
  else if b < 0xF0 then ([], within 1 (b - 0xE0) 0x80 0xBF)
  else if b = 0xF0 then ([], within 2 0 0x90 0xBF)
  else if b < 0xF4 then ([], within 2 (b - 0xF0) 0x80 0xBF)
  else if b = 0xF4 then ([], within 2 4 0x80 0x8F)
  else ([replacement], start)

/-- A byte: the code points that are decoded with it. -/
def step : Decoder → Nat → Str × Decoder
  | start, b => first b
  | within more value low high, b =>
    if low ≤ b ∧ b ≤ high then
      let value := value * 0x40 + (b - 0x80)
      match more with
      | 0 => ([Fin.ofNat _ value], start)
      | more + 1 => ([], within more value 0x80 0xBF)
    else (replacement :: (first b).1, (first b).2)

def run : Decoder → List UInt8 → Str
  | start, [] => []
  | within .., [] => [replacement]
  | d, b :: bs => (d.step b.toNat).1 ++ run (d.step b.toNat).2 bs

end Decoder

/-- `bytes.decode("utf-8", errors="replace")`. -/
def decode (bs : List UInt8) : Str := Decoder.start.run bs

/-! ## Decoding what was encoded -/

namespace Decoder

variable {b : Nat} {bs : List UInt8}

theorem run_first (h : b < 256) :
    start.run (UInt8.ofNat b :: bs) = (first b).1 ++ (first b).2.run bs := by
  rw [run, UInt8.toNat_ofNat_of_lt' h]
  rfl

theorem run_last {value low high : Nat} (h : low ≤ b ∧ b ≤ high) (hb : b < 256) :
    (within 0 value low high).run (UInt8.ofNat b :: bs) =
      Fin.ofNat _ (value * 0x40 + (b - 0x80)) :: start.run bs := by
  rw [run, UInt8.toNat_ofNat_of_lt' hb, step, if_pos h]
  rfl

theorem run_more {more value low high : Nat} (h : low ≤ b ∧ b ≤ high) (hb : b < 256) :
    (within (more + 1) value low high).run (UInt8.ofNat b :: bs) =
      (within more (value * 0x40 + (b - 0x80)) 0x80 0xBF).run bs := by
  rw [run, UInt8.toNat_ofNat_of_lt' hb, step, if_pos h]
  rfl

theorem first_two : ∀ n < 32, 2 ≤ n → first (0xC0 + n) = ([], within 0 n 0x80 0xBF) := by
  decide

theorem first_three : ∀ n < 16, first (0xE0 + n) =
    ([], within 1 n (if n = 0 then 0xA0 else 0x80) (if n = 0xD then 0x9F else 0xBF)) := by
  decide

theorem first_four : ∀ n < 5, first (0xF0 + n) =
    ([], within 2 n (if n = 0 then 0x90 else 0x80) (if n = 4 then 0x8F else 0xBF)) := by
  decide

end Decoder

open Decoder

/-- The bytes of a character are decoded to it. -/
theorem decode_encodePoint {c : Fin 0x110000} (h : isSurrogate c.val = false) (bs : List UInt8) :
    decode (encodePoint c.val ++ bs) = c :: decode bs := by
  obtain ⟨c, hc⟩ := c
  have hvalue : ∀ n, n = c → Fin.ofNat 0x110000 n = ⟨c, hc⟩ :=
    fun n hn => Fin.ext ((Nat.mod_eq_of_lt (hn ▸ hc)).trans hn)
  have hplain : c < 0xD800 ∨ 0xE000 ≤ c := by
    unfold isSurrogate at h
    simp only [Bool.and_eq_false_iff, decide_eq_false_iff_not] at h
    omega
  unfold decode encodePoint
  dsimp only
  split_ifs with h1 h2 h3
  · rw [List.cons_append, run_first (by omega), first, if_pos h1, hvalue c rfl]
    rfl
  · rw [List.cons_append, run_first (by omega), first_two _ (by omega) (by omega)]
    show (within _ _ _ _).run _ = _
    rw [List.cons_append, run_last (by omega) (by omega), hvalue _ (by omega)]
    rfl
  · rw [List.cons_append, run_first (by omega), first_three _ (by omega)]
    show (within _ _ _ _).run _ = _
    rw [List.cons_append, run_more (by split <;> split <;> omega) (by omega), List.cons_append,
      run_last (by omega) (by omega), hvalue _ (by omega)]
    rfl
  · rw [List.cons_append, run_first (by omega), first_four _ (by omega)]
    show (within _ _ _ _).run _ = _
    rw [List.cons_append, run_more (by split <;> split <;> omega) (by omega), List.cons_append,
      run_more (by omega) (by omega), List.cons_append, run_last (by omega) (by omega),
      hvalue _ (by omega)]
    rfl

/-- What was encoded is decoded to the string it was. -/
theorem decode_encode {s : Str} {bs : List UInt8} (h : encode s = some bs) : decode bs = s := by
  unfold encode at h
  split at h
  · cases h
  · next hs =>
    obtain rfl := Option.some.inj h
    have hplain : ∀ c ∈ s, isSurrogate c.val = false := by simpa using hs
    clear h hs
    induction s with
    | nil => rfl
    | cons c s ih =>
      rw [List.flatMap_cons, decode_encodePoint (hplain c List.mem_cons_self),
        ih fun d hd => hplain d (List.mem_cons_of_mem c hd)]

theorem encode_decode_iff {bs : List UInt8} :
    encode (decode bs) = some bs ↔ ∃ s, encode s = some bs := by
  refine ⟨fun h => ⟨_, h⟩, ?_⟩
  rintro ⟨s, hs⟩
  rw [decode_encode hs, hs]

/-! ## Modified encodings -/

theorem toNat_lt_points (u : UInt16) : u.toNat < 0x110000 :=
  Nat.lt_trans u.toNat_lt (by decide)

/-- The code point of a unit. -/
def pointOf (u : UInt16) : Fin 0x110000 := ⟨u.toNat, toNat_lt_points u⟩

/-- A unit by itself; U+0000 has no zero byte. -/
def modifiedUnit (u : UInt16) : List UInt8 := if u = 0 then [0xC0, 0x80] else encodePoint u.toNat

/-- The modified UTF-8 encoding of a string of the JVM. -/
def modified (s : List UInt16) : List UInt8 := s.flatMap modifiedUnit

/-- The standard encoding has the unit as the modified one. -/
def IsPlain (u : UInt16) : Prop := u ≠ 0 ∧ isSurrogate u.toNat = false

instance (u : UInt16) : Decidable (IsPlain u) := inferInstanceAs (Decidable (_ ∧ _))

theorem modifiedUnit_plain {u : UInt16} (h : IsPlain u) : modifiedUnit u = encodePoint u.toNat :=
  if_neg h.1

theorem modifiedUnit_ne_nil (u : UInt16) : modifiedUnit u ≠ [] := by
  unfold modifiedUnit encodePoint
  split_ifs <;> simp

/-- No byte of a modified encoding is zero. -/
theorem modified_ne_zero {s : List UInt16} : ∀ b ∈ modified s, b ≠ 0 := by
  intro b hb
  obtain ⟨u, -, hb⟩ := List.mem_flatMap.mp hb
  unfold modifiedUnit at hb
  split at hb
  · rcases List.mem_pair.mp hb with rfl | rfl <;> decide
  · next hu =>
    exact encodePoint_ne_zero (toNat_lt_points u) (fun hz => hu (UInt16.toNat_inj.mp hz)) b hb

/-- The bytes of a surrogate. -/
theorem encodePoint_surrogate {c : Nat} (h : isSurrogate c = true) :
    ∃ b c', 0xA0 ≤ b ∧ b < 256 ∧ encodePoint c = [0xED, UInt8.ofNat b, c'] := by
  unfold isSurrogate at h
  simp only [Bool.and_eq_true, decide_eq_true_eq] at h
  refine ⟨0x80 + c / 0x40 % 0x40, UInt8.ofNat (0x80 + c % 0x40), by omega, by omega, ?_⟩
  rw [encodePoint, if_neg (by omega), if_neg (by omega), if_pos (by omega)]
  have hfirst : 0xE0 + c / 0x1000 = 0xED := by omega
  rw [hfirst]
  rfl

/-- A unit that is not plain is decoded with replacements, and is not what U+FFFD is encoded to. -/
theorem decode_modifiedUnit {u : UInt16} (h : ¬ IsPlain u) (bs : List UInt8) :
    (∃ s, decode (modifiedUnit u ++ bs) = replacement :: s) ∧
      ∀ bs', modifiedUnit u ++ bs ≠ encodePoint replacement ++ bs' := by
  unfold modifiedUnit
  split
  · refine ⟨⟨_, rfl⟩, fun bs' heq => ?_⟩
    exact absurd (List.cons.inj heq).1 (by decide)
  · next hu =>
    have hsurrogate : isSurrogate u.toNat = true := by
      by_contra hs
      exact h ⟨hu, Bool.eq_false_iff.mpr hs⟩
    obtain ⟨b, c', hlo, hb, hbytes⟩ := encodePoint_surrogate hsurrogate
    rw [hbytes]
    -- after 0xED no byte from 0xA0 on
    have hrun : (within 1 0xD 0x80 0x9F).run (UInt8.ofNat b :: ([c'] ++ bs)) =
        replacement :: ((first b).1 ++ (first b).2.run ([c'] ++ bs)) := by
      rw [run, UInt8.toNat_ofNat_of_lt' hb, step, if_neg (by omega)]
      rfl
    exact ⟨⟨_, hrun⟩, fun bs' heq => absurd (List.cons.inj heq).1 (by decide)⟩

theorem encode_cons {c : Fin 0x110000} {s : Str} {bs : List UInt8}
    (h : encode (c :: s) = some bs) :
    isSurrogate c.val = false ∧ ∃ bs', encode s = some bs' ∧ bs = encodePoint c.val ++ bs' := by
  unfold encode at h ⊢
  rw [List.any_cons] at h
  cases hc : isSurrogate c.val with
  | true =>
    rw [hc, Bool.true_or] at h
    cases h
  | false =>
    rw [hc, Bool.false_or] at h
    split at h
    · cases h
    · next hs => exact ⟨rfl, _, if_neg hs, (Option.some.inj h).symm⟩

/-- Bytes that a modified encoding stands in front of are an encoding only if its units are
plain. -/
theorem plain_of_encode {s : List UInt16} {t : Str} {rest : List UInt8}
    (h : encode t = some (modified s ++ rest)) : ∀ u ∈ s, IsPlain u := by
  induction s generalizing t with
  | nil => exact fun u hu => absurd hu List.not_mem_nil
  | cons u s ih =>
    have hbytes : modified (u :: s) ++ rest = modifiedUnit u ++ (modified s ++ rest) :=
      List.append_assoc _ _ _
    rw [hbytes] at h
    cases t with
    | nil =>
      have hnil := List.append_eq_nil_iff.mp (Option.some.inj h).symm
      exact absurd hnil.1 (modifiedUnit_ne_nil u)
    | cons c t =>
      obtain ⟨hc, bs', ht, heq⟩ := encode_cons h
      have hdecode := decode_encodePoint hc bs'
      rw [← heq] at hdecode
      by_cases hu : IsPlain u
      · -- both start with the same character
        rw [modifiedUnit_plain hu] at hdecode heq
        have hunit : decode (encodePoint u.toNat ++ (modified s ++ rest)) =
            pointOf u :: decode (modified s ++ rest) := decode_encodePoint (c := pointOf u) hu.2 _
        rw [hunit] at hdecode
        obtain rfl := (List.cons.inj hdecode).1
        rw [← List.append_cancel_left heq] at ht
        exact List.forall_mem_cons.mpr ⟨hu, ih ht⟩
      · obtain ⟨⟨r, hr⟩, hne⟩ := decode_modifiedUnit hu (modified s ++ rest)
        rw [hr] at hdecode
        obtain rfl := (List.cons.inj hdecode).1
        exact absurd heq (hne bs')

theorem encode_modified {s : List UInt16} (h : ∀ u ∈ s, IsPlain u) :
    encode (s.map pointOf) = some (modified s) := by
  have hany : (s.map pointOf).any (fun c => isSurrogate c.val) = false := by
    rw [List.any_map, List.any_eq_false]
    exact fun u hu => Bool.eq_false_iff.mp (h u hu).2
  rw [encode, hany, List.flatMap_map]
  exact congrArg some (List.flatMap_congr fun u hu => (modifiedUnit_plain (h u hu)).symm)

end JautoProf.Utf8
