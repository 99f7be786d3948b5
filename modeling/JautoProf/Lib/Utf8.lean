import Mathlib.Tactic.Common
import Mathlib.Data.List.Basic

/-!
# Encodings of strings

A string of the JVM is a list of UTF-16 code units. Its standard UTF-8 encoding joins the
surrogate pairs to code points; its modified UTF-8 encoding takes every unit by itself.

A string of Python is a list of code points, and surrogates are among them.

Results:
1. `toUtf8_ascii`: an ASCII string is encoded byte by byte.
2. `encode_ne_zero`: only U+0000 is encoded with a zero byte.
-/

namespace JautoProf.Utf8

/-- The UTF-8 encoding of a code point; a surrogate gets three bytes like its neighbours. -/
def encodePoint (c : Nat) : List UInt8 :=
  if c < 0x80 then [UInt8.ofNat c]
  else if c < 0x800 then [UInt8.ofNat (0xC0 + c / 0x40), UInt8.ofNat (0x80 + c % 0x40)]
  else if c < 0x10000 then
    [UInt8.ofNat (0xE0 + c / 0x1000), UInt8.ofNat (0x80 + c / 0x40 % 0x40),
      UInt8.ofNat (0x80 + c % 0x40)]
  else
    [UInt8.ofNat (0xF0 + c / 0x40000), UInt8.ofNat (0x80 + c / 0x1000 % 0x40),
      UInt8.ofNat (0x80 + c / 0x40 % 0x40), UInt8.ofNat (0x80 + c % 0x40)]

def isHigh (u : UInt16) : Bool := 0xD800 ≤ u && u < 0xDC00

def isLow (u : UInt16) : Bool := 0xDC00 ≤ u && u < 0xE000

/-- The code points that `String.getBytes` encodes; it puts a question mark in the place of
a surrogate without its other half. -/
def points : List UInt16 → List Nat
  | [] => []
  | [u] => if isHigh u || isLow u then [0x3F] else [u.toNat]
  | u :: v :: s =>
    if isHigh u && isLow v then
      (0x10000 + (u.toNat - 0xD800) * 0x400 + (v.toNat - 0xDC00)) :: points s
    else if isHigh u || isLow u then 0x3F :: points (v :: s)
    else u.toNat :: points (v :: s)

/-- `String.getBytes(StandardCharsets.UTF_8)`. -/
def toUtf8 (s : List UInt16) : List UInt8 := (points s).flatMap encodePoint

theorem points_ascii {s : List UInt16} (h : ∀ u ∈ s, u < 0x80) : points s = s.map UInt16.toNat := by
  have hu : ∀ u : UInt16, u < 0x80 → isHigh u = false ∧ isLow u = false := by
    intro u hu
    unfold isHigh isLow
    constructor <;> simp only [Bool.and_eq_false_iff, decide_eq_false_iff_not] <;> left <;>
      simp only [UInt16.not_le] <;> exact UInt16.lt_trans hu (by decide)
  fun_induction points s with
  | case1 => rfl
  | case2 u hs => simp_all
  | case3 u hs => rfl
  | case4 u v s hs ih => simp_all
  | case5 u v s hs hs' ih => simp_all
  | case6 u v s hs hs' ih => rw [ih fun w hw => h w (List.mem_cons_of_mem u hw)]; rfl

theorem toUtf8_ascii {s : List UInt16} (h : ∀ u ∈ s, u < 0x80) :
    toUtf8 s = s.map fun u => UInt8.ofNat u.toNat := by
  rw [toUtf8, points_ascii h, List.flatMap_map]
  induction s with
  | nil => rfl
  | cons u s ih =>
    have hu : u.toNat < 0x80 := UInt16.lt_iff_toNat_lt.mp (h u List.mem_cons_self)
    rw [List.flatMap_cons, List.map_cons, ih fun v hv => h v (List.mem_cons_of_mem u hv),
      encodePoint, if_pos hu]
    rfl

/-! ## Strings of Python -/

/-- A string of Python. -/
abbrev Str : Type := List (Fin 0x110000)

def isSurrogate (c : Nat) : Bool := 0xD800 ≤ c && c < 0xE000

/-- `str.encode("utf-8")`; a surrogate raises. -/
def encode (s : Str) : Option (List UInt8) :=
  if s.any fun c => isSurrogate c.val then none else some (s.flatMap fun c => encodePoint c.val)

/-- A byte other than the zero byte. -/
theorem ofNat_ne_zero {n : Nat} (h0 : 0 < n) (h : n < 256) : UInt8.ofNat n ≠ 0 := by
  intro heq
  have : n % 256 = 0 := by
    rw [← UInt8.toNat_ofNat', heq]
    rfl
  omega

theorem encodePoint_ne_zero {c : Nat} (hc : c < 0x110000) (h0 : c ≠ 0) :
    ∀ b ∈ encodePoint c, b ≠ 0 := by
  unfold encodePoint
  split_ifs <;> simp only [List.mem_cons, List.not_mem_nil, or_false, forall_eq_or_imp, forall_eq]
  · exact ofNat_ne_zero (by omega) (by omega)
  · exact ⟨ofNat_ne_zero (by omega) (by omega), ofNat_ne_zero (by omega) (by omega)⟩
  · exact ⟨ofNat_ne_zero (by omega) (by omega), ofNat_ne_zero (by omega) (by omega),
      ofNat_ne_zero (by omega) (by omega)⟩
  · exact ⟨ofNat_ne_zero (by omega) (by omega), ofNat_ne_zero (by omega) (by omega),
      ofNat_ne_zero (by omega) (by omega), ofNat_ne_zero (by omega) (by omega)⟩

theorem encode_ne_zero {s : Str} {bs : List UInt8} (h : encode s = some bs)
    (h0 : ∀ c ∈ s, c ≠ 0) : ∀ b ∈ bs, b ≠ 0 := by
  intro b hb
  unfold encode at h
  split at h
  · cases h
  · rw [← Option.some.inj h] at hb
    obtain ⟨c, hc, hbc⟩ := List.mem_flatMap.mp hb
    exact encodePoint_ne_zero c.isLt (fun hz => h0 c hc (Fin.ext hz)) b hbc

end JautoProf.Utf8
