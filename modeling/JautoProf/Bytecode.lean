import JautoProf.Lib.Wire
import JautoProf.Util

/-!
# The methods of a class file (`bytecode.c`)

`bcExtractMethods` walks the bytes of a class file by position. Every check of the source is
a `need`, and a read or an index that no check covers would stop with `outOfBounds`.
-/

namespace JautoProf

open Wire
open Wire.Reader (need ahead advance position fail)

/-! ## The bytes -/

/-- Where the function goes when it gives up: it returns -1 before it has seen a method, or
goes to `fail_methods`. `outOfBounds` is an access outside the array or the pool. -/
inductive Stop
  | fail
  | failMethods
  | outOfBounds
deriving DecidableEq

/-- Whether the allocations succeed, each by the position at which it is made. -/
structure BcHeap where
  utf8Pool : Bool
  utf8 (pos : Nat) : Bool
  pstring (pos : Nat) : Bool
  methodListAdd (pos : Nat) : Bool

/-- The byte at a distance from the position. -/
def readU1 (dist : Nat) : Reader Stop UInt8 := do
  let p ← ahead dist 1 .outOfBounds
  return UInt8.ofNat (ofBe p)

/-- `read_u2`, at a distance from the position. -/
def readU2 (dist : Nat) : Reader Stop Nat := do
  let p ← ahead dist 2 .outOfBounds
  return ofBe p

/-- `read_u4`. -/
def readU4 (dist : Nat) : Reader Stop Nat := do
  let p ← ahead dist 4 .outOfBounds
  return ofBe p

/-! ## The constant pool -/

/-- The tags of the constant pool. -/
inductive CpTag
  | utf8 | integer | float | long | double | cls | string | fieldref | methodref | ifaceMref
  | nameAndType | methodHandle | methodType | dynamic | invokeDynamic | module | package
deriving DecidableEq

/-- The values of the tags. -/
def CpTag.code : CpTag → UInt8
  | utf8 => 1
  | integer => 3
  | float => 4
  | long => 5
  | double => 6
  | .cls => 7
  | string => 8
  | fieldref => 9
  | methodref => 10
  | ifaceMref => 11
  | nameAndType => 12
  | methodHandle => 15
  | methodType => 16
  | dynamic => 17
  | invokeDynamic => 18
  | module => 19
  | package => 20

/-- The case of the `switch` that a tag takes, if there is one. -/
def CpTag.ofCode (code : UInt8) : Option CpTag :=
  [utf8, integer, float, long, double, .cls, string, fieldref, methodref, ifaceMref,
    nameAndType, methodHandle, methodType, dynamic, invokeDynamic, module, package].find?
    (·.code = code)

theorem CpTag.ofCode_code (tag : CpTag) : ofCode tag.code = some tag := by
  cases tag <;> rfl

/-- The cases of `parse_cp_body` that do not look at the body. -/
def parseCpFixed (size : Nat) : Reader Stop (Nat × Option CStr) := do
  need size .fail
  return (size, none)

/-- `parse_cp_body`: the bytes consumed, and the copy of a string. -/
def parseCpBody (heap : BcHeap) (tag : UInt8) : Reader Stop (Nat × Option CStr) :=
  match CpTag.ofCode tag with
  | some .utf8 => do
    need 2 .fail
    let len ← readU2 0
    need (2 + len) .fail
    let pos ← position
    if !heap.utf8 pos then fail .fail
    else do
      let s ← ahead 2 len .outOfBounds
      return (2 + len, some (terminated s))
  | some .integer | some .float => parseCpFixed 4
  | some .long | some .double => parseCpFixed 8
  | some .cls | some .string | some .methodType | some .module | some .package => parseCpFixed 2
  | some .fieldref | some .methodref | some .ifaceMref | some .nameAndType | some .dynamic
  | some .invokeDynamic => parseCpFixed 4
  | some .methodHandle => parseCpFixed 3
  | none => fail .fail

/-- Store at an index of the pool. -/
def poolSet (pool : List (Option CStr)) (i : Nat) (s : Option CStr) :
    Reader Stop (List (Option CStr)) :=
  if i < pool.length then return pool.set i s else fail .outOfBounds

/-- Load from an index of the pool. -/
def poolGet (pool : List (Option CStr)) (i : Nat) : Reader Stop (Option CStr) :=
  match pool[i]? with
  | some s => return s
  | none => fail .outOfBounds

/-- Only a string is stored: `utf8_out` is null for the other tags. -/
def storeUtf8 (pool : List (Option CStr)) (i : Nat) (tag : UInt8) (s : Option CStr) :
    Reader Stop (List (Option CStr)) :=
  if tag = CpTag.utf8.code then poolSet pool i s else pure pool

/-- The loop over the constant pool, from the index `i` on. -/
def cpEntries (heap : BcHeap) (cpCount i : Nat) (utf8Pool : List (Option CStr)) :
    Reader Stop (List (Option CStr)) :=
  if i < cpCount then do
    need 1 .fail
    let tag ← readU1 0
    advance 1
    let (consumed, s) ← parseCpBody heap tag
    let utf8Pool ← storeUtf8 utf8Pool i tag s
    advance consumed
    -- Long and Double occupy two constant pool slots
    if tag = CpTag.long.code ∨ tag = CpTag.double.code then cpEntries heap cpCount (i + 2) utf8Pool
    else cpEntries heap cpCount (i + 1) utf8Pool
  else return utf8Pool
termination_by cpCount - i

/-! ## Attributes and members -/

/-- The body of the loop of `skip_attributes`. The sum is one of 32-bit numbers. -/
def skipAttribute (e : Stop) : Reader Stop Unit := do
  need 6 e
  let attrLen ← readU4 2
  advance ((6 + attrLen) % 4294967296)
  need 0 e

/-- `skip_attributes`, with where its caller goes when it fails. -/
def skipAttributes (e : Stop) : Reader Stop Unit := do
  need 2 e
  let attrCount ← readU2 0
  advance 2
  let _ ← (skipAttribute e).times attrCount
  return ()

/-- The body of the loop over the fields. -/
def skipField : Reader Stop Unit := do
  need 6 .fail
  advance 6
  skipAttributes .fail

/-- A `struct pstring` as its parts are written; `size` need not be the number of the bytes. -/
structure RawPstring where
  size : UInt16
  str : List UInt8
deriving DecidableEq

/-- The body of the loop over the methods: the string to add to the list, if any. -/
def extractMethod (heap : BcHeap) (cpCount : Nat) (utf8Pool : List (Option CStr)) :
    Reader Stop (Option RawPstring) := do
  need 6 .failMethods
  advance 2
  let nameIdx ← readU2 0
  advance 2
  let descIdx ← readU2 0
  advance 2
  skipAttributes .failMethods
  if cpCount ≤ nameIdx ∨ cpCount ≤ descIdx then return none
  else do
    let name ← poolGet utf8Pool nameIdx
    let desc ← poolGet utf8Pool descIdx
    match name, desc with
    | some name, some desc => do
      let strLen := name.val.length + 1 + desc.val.length
      let pos ← position
      if !heap.pstring pos then fail .failMethods
      else if !heap.methodListAdd pos then fail .failMethods
      else return some ⟨UInt16.ofNat strLen, name.val ++ 58 :: desc.val⟩
    | _, _ => return none

/-- The loop over the methods, with the number that is left. -/
def extractMethods (heap : BcHeap) (cpCount : Nat) (utf8Pool : List (Option CStr)) :
    Nat → List RawPstring → Reader Stop (List RawPstring)
  | 0, methods => return methods
  | n + 1, methods => do
    let ps ← extractMethod heap cpCount utf8Pool
    extractMethods heap cpCount utf8Pool n (methods ++ ps.toList)

/-- `bc_extract_methods` up to its return. -/
def bcExtract (heap : BcHeap) (methods : List RawPstring) : Reader Stop (List RawPstring) := do
  need 8 .fail
  advance 8
  need 2 .fail
  let cpCount ← readU2 0
  advance 2
  if cpCount < 1 then fail .fail
  else if !heap.utf8Pool then fail .fail
  else do
    let utf8Pool ← cpEntries heap cpCount 1 (List.replicate cpCount none)
    need 6 .fail
    advance 6
    need 2 .fail
    let ifaceCount ← readU2 0
    advance 2
    need (2 * ifaceCount) .fail
    advance (2 * ifaceCount)
    need 2 .fail
    let fieldCount ← readU2 0
    advance 2
    let _ ← skipField.times fieldCount
    need 2 .fail
    let methodCount ← readU2 0
    advance 2
    extractMethods heap cpCount utf8Pool methodCount methods

/-- `bc_extract_methods`: what it returns, and the list after it. It is `none` where the
code reads outside the array or the pool. -/
def bcExtractMethods (heap : BcHeap) (data : List UInt8) (methods : List RawPstring) :
    Option (Int × List RawPstring) :=
  match (bcExtract heap methods).run data with
  | .ok methods => some (0, methods)
  | .error .fail => some (-1, methods)
  | .error .failMethods => some (-1, [])
  | .error .outOfBounds => none

end JautoProf
