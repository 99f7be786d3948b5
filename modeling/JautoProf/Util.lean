import Mathlib.Tactic.Common
import Mathlib.Data.List.TakeWhile

/-!
# Strings and the default hash (`util/pstring.c`, `util/murmur3.c`)

A `CStr` is what a `char *` points to, without the terminator; a `Pstring` carries its
length, so it may hold a NUL, and its 16-bit size is part of its type. Code that passes
`(char *)p->str` on reads `Pstring.cstr`.
-/

namespace JautoProf

/-- The bytes of a C string, without the terminating NUL. -/
def CStr := {s : List UInt8 // (0 : UInt8) ∉ s}

instance : DecidableEq CStr := inferInstanceAs (DecidableEq {s : List UInt8 // (0 : UInt8) ∉ s})

instance : Inhabited CStr := ⟨⟨[], by simp⟩⟩

/-- `PSTR_MAX`. -/
def pstrMax : Nat := 65535

/-- `struct pstring`. -/
structure Pstring where
  str : List UInt8
  size_le : str.length ≤ pstrMax
deriving DecidableEq

instance : Inhabited Pstring := ⟨⟨[], Nat.zero_le _⟩⟩

/-- The C string at `(char *)p->str`. -/
def Pstring.cstr (p : Pstring) : CStr :=
  ⟨p.str.takeWhile (· ≠ 0), fun h => by simpa using List.mem_takeWhile_imp h⟩

/-- The C string in a buffer that is terminated after the bytes. -/
def terminated (bs : List UInt8) : CStr :=
  ⟨bs.takeWhile (· ≠ 0), fun h => by simpa using List.mem_takeWhile_imp h⟩

/-- `pstring_from_cstr`; `ok` says whether the allocation succeeds. -/
def pstringFromCstr (s : CStr) (ok : Bool) : Option Pstring :=
  if h : s.val.length ≤ pstrMax then
    if ok then some ⟨s.val, h⟩ else none
  else none

/-- `pstring_dup`. -/
def pstringDup (p : Pstring) (ok : Bool) : Option Pstring := if ok then some p else none

/-- `pstring_vsprintf`, given the expansion of the format. -/
def pstringVsprintf (text : List UInt8) (ok : Bool) : Option Pstring :=
  if ok then some ⟨text.take pstrMax, List.length_take_le _ _⟩ else none

/-- The bytes of an ASCII literal. -/
def ascii (s : String) : List UInt8 := s.toList.map fun c => UInt8.ofNat c.toNat

theorem pstringFromCstr_cstr {s : CStr} {ok : Bool} {p : Pstring}
    (h : pstringFromCstr s ok = some p) : p.cstr = s := by
  unfold pstringFromCstr at h
  split at h
  · split at h
    · cases h
      apply Subtype.ext
      simp only [Pstring.cstr, List.takeWhile_eq_self_iff]
      intro b hb
      simpa using fun h0 : b = 0 => s.property (h0 ▸ hb)
    · cases h
  · cases h

theorem pstringDup_eq {p q : Pstring} {ok : Bool} (h : pstringDup p ok = some q) : q = p := by
  unfold pstringDup at h
  split at h
  · exact (Option.some.inj h).symm
  · cases h

/-! ## Murmur3 -/

def rotl32 (x r : UInt32) : UInt32 := (x <<< r) ||| (x >>> (32 - r))

/-- The little-endian load of a block. -/
def getblock32 (b0 b1 b2 b3 : UInt8) : UInt32 :=
  b0.toUInt32 ||| (b1.toUInt32 <<< 8) ||| (b2.toUInt32 <<< 16) ||| (b3.toUInt32 <<< 24)

def fmix32 (h0 : UInt32) : UInt32 :=
  let h1 := (h0 ^^^ (h0 >>> 16)) * 0x85ebca6b
  let h2 := (h1 ^^^ (h1 >>> 13)) * 0xc2b2ae35
  h2 ^^^ (h2 >>> 16)

def mixK1 (k1 : UInt32) : UInt32 := rotl32 (k1 * 0xcc9e2d51) 15 * 0x1b873593

/-- The loop over the blocks; it returns the rest of the key, the tail. -/
def murmur3Body : UInt32 → List UInt8 → UInt32 × List UInt8
  | h1, b0 :: b1 :: b2 :: b3 :: rest =>
    murmur3Body (rotl32 (h1 ^^^ mixK1 (getblock32 b0 b1 b2 b3)) 13 * 5 + 0xe6546b64) rest
  | h1, tail => (h1, tail)

/-- The switch over the length of the tail. -/
def murmur3Tail (h1 : UInt32) : List UInt8 → UInt32
  | [t0] => h1 ^^^ mixK1 (getblock32 t0 0 0 0)
  | [t0, t1] => h1 ^^^ mixK1 (getblock32 t0 t1 0 0)
  | [t0, t1, t2] => h1 ^^^ mixK1 (getblock32 t0 t1 t2 0)
  | _ => h1

/-- `murmur3_hash_x86_32`. -/
def murmur3HashX8632 (key : List UInt8) (seed : UInt32) : UInt32 :=
  let body := murmur3Body seed key
  fmix32 (murmur3Tail body.1 body.2 ^^^ UInt32.ofNat key.length)

/-- `hashtab_default_hash`, with `HASHTAB_SEED_DEFAULT`. -/
def hashtabDefaultHash (key : CStr) : UInt32 := murmur3HashX8632 key.val 560392091

end JautoProf
