import JautoProf.ClassFile
import JautoProf.Lib.Positions

/-!
# The layout of a class file in an array

`bc_extract_methods` accepts arrays that are no class files: it looks at the sizes only. A
`Layout` says where the constants, fields and methods of an array start. How far an attribute
reaches is a parameter: with the sizes that the attributes declare, the layout is that of the
class-file format, and with their 32-bit sums it is that of the code.

Results:
1. `bcExtract_layout`: the strings that `bc_extract_methods` lists are those of a layout.
2. `bcExtract_of_layout`: with memory it succeeds on every array that has one.
-/

namespace JautoProf

open Wire
open Wire.Reader (bind_ok pure_ok need_ok advance_ok ahead_ok peek_ok position_ok fail_ok)

/-! ## What stands at a position -/

/-- The big-endian number of `n` bytes at a position. -/
def beAt (data : List UInt8) (off n : Nat) : Nat := ofBe ((data.drop off).take n)

def u1At (data : List UInt8) (off : Nat) : UInt8 := UInt8.ofNat (beAt data off 1)

/-- The bytes of a constant after its tag, which they follow. -/
def CpTag.bodySize (data : List UInt8) (off : Nat) : CpTag → Nat
  | utf8 => 2 + beAt data off 2
  | long | double => 8
  | integer | float | fieldref | methodref | ifaceMref | nameAndType | dynamic | invokeDynamic => 4
  | methodHandle => 3
  | .cls | string | methodType | module | package => 2

/-- The indices that a constant takes. -/
def CpTag.width : CpTag → Nat
  | long | double => 2
  | _ => 1

/-- A constant lies inside the array, between the positions. -/
structure ConstantIn (data : List UInt8) (tag : CpTag) (off off' : Nat) : Prop where
  inside : off < data.length
  code : u1At data off = tag.code
  ends : off' = off + 1 + tag.bodySize data (off + 1)
  le : off' ≤ data.length

/-- The constants from an index on, with the index and the position of each. -/
inductive Constants (data : List UInt8) (cpCount : Nat) : Nat → Nat → List (Nat × Nat) → Nat → Prop
  | nil {i : Nat} (off : Nat) (h : cpCount ≤ i) : Constants data cpCount i off [] off
  | cons {i off mid off' : Nat} {tag : CpTag} {rows : List (Nat × Nat)} (hi : i < cpCount)
      (h : ConstantIn data tag off mid) (hs : Constants data cpCount (i + tag.width) mid rows off') :
    Constants data cpCount i off ((i, off) :: rows) off'

/-- The string of a constant. -/
def stringAt (data : List UInt8) (off : Nat) : CStr :=
  terminated ((data.drop (off + 1 + 2)).take (beAt data (off + 1) 2))

def storeConstant (data : List UInt8) (pool : List (Option CStr)) (row : Nat × Nat) :
    List (Option CStr) :=
  if u1At data row.2 = CpTag.utf8.code then pool.set row.1 (some (stringAt data row.2)) else pool

/-- The string at each index of the constant pool. -/
def poolOf (data : List UInt8) (cpCount : Nat) (rows : List (Nat × Nat)) : List (Option CStr) :=
  rows.foldl (storeConstant data) (List.replicate cpCount none)

/-- An attribute lies inside the array, where one that declares `n` bytes takes `size n`. -/
structure AttributeIn (size : Nat → Nat) (data : List UInt8) (off off' : Nat) : Prop where
  header : off + 6 ≤ data.length
  ends : off' = off + size (beAt data (off + 2) 4)
  le : off' ≤ data.length

/-- A count and as many attributes lie inside the array. -/
def AttributesIn (attr : Nat → Nat → Prop) (data : List UInt8) (off off' : Nat) : Prop :=
  off + 2 ≤ data.length ∧ ∃ offs, offs.length = beAt data off 2 ∧ Rows attr offs (off + 2) off'

/-- A field or a method lies inside the array. -/
def MemberIn (attr : Nat → Nat → Prop) (data : List UInt8) (off off' : Nat) : Prop :=
  off + 6 ≤ data.length ∧ AttributesIn attr data (off + 6) off'

/-- Where the parts of a class file stand. -/
structure Layout where
  constants : List (Nat × Nat)
  poolEnd : Nat
  interfacesEnd : Nat
  fields : List Nat
  fieldsEnd : Nat
  methods : List Nat
  methodsEnd : Nat

/-- The array starts with the parts, all of which lie inside it. -/
structure Layout.Lies (attr : Nat → Nat → Prop) (data : List UInt8) (l : Layout) : Prop where
  header : 10 ≤ data.length
  count : 1 ≤ beAt data 8 2
  constants : Constants data (beAt data 8 2) 1 10 l.constants l.poolEnd
  flags : l.poolEnd + 8 ≤ data.length
  interfaces : l.interfacesEnd = l.poolEnd + 8 + 2 * beAt data (l.poolEnd + 6) 2
  interfaces_le : l.interfacesEnd ≤ data.length
  fieldCount : l.interfacesEnd + 2 ≤ data.length
  fields_length : l.fields.length = beAt data l.interfacesEnd 2
  fields : Rows (MemberIn attr data) l.fields (l.interfacesEnd + 2) l.fieldsEnd
  methodCount : l.fieldsEnd + 2 ≤ data.length
  methods_length : l.methods.length = beAt data l.fieldsEnd 2
  methods : Rows (MemberIn attr data) l.methods (l.fieldsEnd + 2) l.methodsEnd

/-- What an attribute takes as it declares. -/
def declaredSize (n : Nat) : Nat := 6 + n

/-- The 32-bit sum by which `skip_attributes` moves on. -/
def wrappedSize (n : Nat) : Nat := (6 + n) % 4294967296

/-- The pool of a layout. -/
def Layout.pool (l : Layout) (data : List UInt8) : List (Option CStr) :=
  poolOf data (beAt data 8 2) l.constants

/-- The method at a position has a name and a descriptor in the pool. -/
def Named (pool : List (Option CStr)) (data : List UInt8) (off : Nat) (name desc : CStr) : Prop :=
  pool[beAt data (off + 2) 2]? = some (some name) ∧ pool[beAt data (off + 4) 2]? = some (some desc)

/-- The string that is listed for a name and a descriptor. -/
def rawSignature (name desc : CStr) : RawPstring :=
  ⟨UInt16.ofNat (name.val.length + 1 + desc.val.length), name.val ++ 58 :: desc.val⟩

/-- The string that is listed for the method at a position. -/
def listedAt (pool : List (Option CStr)) (data : List UInt8) (off : Nat) : Option RawPstring :=
  match (pool[beAt data (off + 2) 2]?).join, (pool[beAt data (off + 4) 2]?).join with
  | some name, some desc => some (rawSignature name desc)
  | _, _ => none

theorem listedAt_eq_some {pool : List (Option CStr)} {data : List UInt8} {off : Nat}
    {ps : RawPstring} :
    listedAt pool data off = some ps ↔
      ∃ name desc, Named pool data off name desc ∧ rawSignature name desc = ps := by
  unfold listedAt Named
  constructor
  · intro h
    split at h
    · next name desc hname hdesc =>
      exact ⟨name, desc, ⟨Option.join_eq_some_iff.mp hname, Option.join_eq_some_iff.mp hdesc⟩,
        Option.some.inj h⟩
    · cases h
  · rintro ⟨name, desc, ⟨hname, hdesc⟩, rfl⟩
    rw [hname, hdesc]
    rfl

/-! ## Numbers -/

variable {data : List UInt8} {off off' : Nat}

theorem readU1_ok {dist : Nat} {x : UInt8} :
    readU1 dist data off = .ok (x, off') ↔
      off + dist + 1 ≤ data.length ∧ u1At data (off + dist) = x ∧ off = off' :=
  peek_ok

theorem readU2_ok {dist x : Nat} :
    readU2 dist data off = .ok (x, off') ↔
      off + dist + 2 ≤ data.length ∧ beAt data (off + dist) 2 = x ∧ off = off' :=
  peek_ok

theorem readU4_ok {dist x : Nat} :
    readU4 dist data off = .ok (x, off') ↔
      off + dist + 4 ≤ data.length ∧ beAt data (off + dist) 4 = x ∧ off = off' :=
  peek_ok

/-! ## Attributes and members -/

theorem skipAttribute_ok {e : Stop} {u : Unit} :
    skipAttribute e data off = .ok (u, off') ↔ AttributeIn wrappedSize data off off' := by
  simp only [skipAttribute, bind_ok, need_ok, readU4_ok, advance_ok]
  constructor
  · rintro ⟨_, _, ⟨hle, rfl⟩, _, _, ⟨-, rfl, rfl⟩, _, _, rfl, hend, rfl⟩
    exact ⟨hle, rfl, hend⟩
  · rintro ⟨hle, rfl, hend⟩
    exact ⟨(), _, ⟨hle, rfl⟩, _, _, ⟨by omega, rfl, rfl⟩, (), _, rfl, hend, rfl⟩

theorem skipAttributes_ok {e : Stop} {u : Unit} :
    skipAttributes e data off = .ok (u, off') ↔
      AttributesIn (AttributeIn wrappedSize data) data off off' := by
  have hrows : (fun p q => skipAttribute e data p = .ok ((), q)) =
      AttributeIn wrappedSize data := by
    funext p q
    exact propext skipAttribute_ok
  have htimes : ∀ p n, (∃ us, (skipAttribute e).times n data p = .ok (us, off')) ↔
      ∃ offs, offs.length = n ∧ Rows (AttributeIn wrappedSize data) offs p off' := by
    intro p n
    rw [Reader.times_ok, hrows]
  simp only [skipAttributes, bind_ok, need_ok, readU2_ok, advance_ok, pure_ok]
  constructor
  · rintro ⟨_, _, ⟨hle, rfl⟩, _, _, ⟨-, rfl, rfl⟩, _, _, rfl, us, _, hus, -, rfl⟩
    exact ⟨hle, (htimes _ _).mp ⟨us, hus⟩⟩
  · rintro ⟨hle, hoffs⟩
    obtain ⟨us, hus⟩ := (htimes _ _).mpr hoffs
    exact ⟨(), _, ⟨hle, rfl⟩, _, _, ⟨hle, rfl, rfl⟩, (), _, rfl, us, _, hus, trivial, rfl⟩

theorem skipField_ok {u : Unit} :
    skipField data off = .ok (u, off') ↔ MemberIn (AttributeIn wrappedSize data) data off off' := by
  simp only [skipField, bind_ok, need_ok, advance_ok, skipAttributes_ok]
  constructor
  · rintro ⟨_, _, ⟨hle, rfl⟩, _, _, rfl, h⟩
    exact ⟨hle, h⟩
  · rintro ⟨hle, h⟩
    exact ⟨(), _, ⟨hle, rfl⟩, (), _, rfl, h⟩

/-! ## The constant pool -/

theorem parseCpFixed_ok {size n : Nat} {s : Option CStr} :
    parseCpFixed size data off = .ok ((n, s), off') ↔
      n = size ∧ off + n ≤ data.length ∧ off = off' ∧ s = none := by
  simp only [parseCpFixed, bind_ok, need_ok, pure_ok, Prod.mk.injEq]
  constructor
  · rintro ⟨_, _, ⟨hle, rfl⟩, ⟨rfl, rfl⟩, rfl⟩
    exact ⟨rfl, hle, rfl, rfl⟩
  · rintro ⟨rfl, hle, rfl, rfl⟩
    exact ⟨(), _, ⟨hle, rfl⟩, ⟨rfl, rfl⟩, rfl⟩

/-- What `parse_cp_body` finds after a tag. -/
structure CpBody (heap : BcHeap) (data : List UInt8) (off : Nat) (t : CpTag) (n : Nat)
    (s : Option CStr) : Prop where
  size : n = t.bodySize data off
  inside : off + n ≤ data.length
  memory : t = .utf8 → heap.utf8 off = true
  str : s = if t = .utf8 then some (terminated ((data.drop (off + 2)).take (beAt data off 2)))
    else none

theorem parseCpUtf8_ok {heap : BcHeap} {n : Nat} {s : Option CStr} :
    parseCpBody heap CpTag.utf8.code data off = .ok ((n, s), off') ↔
      CpBody heap data off .utf8 n s ∧ off = off' := by
  have hunfold : parseCpBody heap CpTag.utf8.code = (do
    Reader.need 2 .fail
    let len ← readU2 0
    Reader.need (2 + len) .fail
    let pos ← Reader.position
    if !heap.utf8 pos then Reader.fail .fail
    else do
      let s ← Reader.ahead 2 len .outOfBounds
      return (2 + len, some (terminated s))) := rfl
  rw [hunfold]
  simp only [bind_ok, need_ok, readU2_ok, position_ok]
  constructor
  · rintro ⟨_, _, ⟨-, rfl⟩, len, _, ⟨-, rfl, rfl⟩, _, _, ⟨hle, rfl⟩, _, _, ⟨rfl, rfl⟩, h⟩
    cases hheap : heap.utf8 off with
    | false => simp [hheap, fail_ok] at h
    | true =>
      simp only [hheap, Bool.not_true, Bool.false_eq_true, if_false, bind_ok, ahead_ok, pure_ok,
        Prod.mk.injEq] at h
      obtain ⟨bs, _, ⟨-, rfl, rfl⟩, ⟨rfl, rfl⟩, rfl⟩ := h
      exact ⟨⟨rfl, hle, fun _ => hheap, rfl⟩, rfl⟩
  · rintro ⟨⟨rfl, hle, hheap, rfl⟩, rfl⟩
    have hle' : off + 2 + beAt data off 2 ≤ data.length := Nat.add_assoc off 2 _ ▸ hle
    refine ⟨(), off, ⟨by omega, rfl⟩, _, off, ⟨by omega, rfl, rfl⟩, (), off, ⟨hle, rfl⟩, off, off,
      ⟨rfl, rfl⟩, ?_⟩
    simp only [hheap rfl, Bool.not_true, Bool.false_eq_true, if_false, bind_ok, ahead_ok, pure_ok,
      Prod.mk.injEq]
    exact ⟨_, off, ⟨hle', rfl, rfl⟩, ⟨rfl, rfl⟩, rfl⟩

theorem parseCpBody_code_ok {heap : BcHeap} {t : CpTag} {n : Nat} {s : Option CStr} :
    parseCpBody heap t.code data off = .ok ((n, s), off') ↔
      CpBody heap data off t n s ∧ off = off' := by
  by_cases ht : t = .utf8
  · rw [ht]
    exact parseCpUtf8_ok
  · have hfixed : parseCpBody heap t.code = parseCpFixed (t.bodySize data off) := by
      cases t <;> first | rfl | exact absurd rfl ht
    rw [hfixed, parseCpFixed_ok]
    constructor
    · rintro ⟨rfl, hle, rfl, rfl⟩
      exact ⟨⟨rfl, hle, fun h => absurd h ht, (if_neg ht).symm⟩, rfl⟩
    · rintro ⟨⟨rfl, hle, -, rfl⟩, rfl⟩
      exact ⟨rfl, hle, rfl, if_neg ht⟩

theorem CpTag.ofCode_eq {tag : UInt8} {t : CpTag} (h : CpTag.ofCode tag = some t) :
    t.code = tag := by
  unfold CpTag.ofCode at h
  simpa using List.find?_some h

theorem parseCpBody_ok {heap : BcHeap} {tag : UInt8} {n : Nat} {s : Option CStr} :
    parseCpBody heap tag data off = .ok ((n, s), off') ↔
      ∃ t : CpTag, t.code = tag ∧ CpBody heap data off t n s ∧ off = off' := by
  constructor
  · intro h
    cases ht : CpTag.ofCode tag with
    | none =>
      unfold parseCpBody at h
      rw [ht] at h
      exact (fail_ok.mp h).elim
    | some t =>
      obtain rfl := CpTag.ofCode_eq ht
      exact ⟨t, rfl, parseCpBody_code_ok.mp h⟩
  · rintro ⟨t, rfl, h⟩
    exact parseCpBody_code_ok.mpr h

theorem storeUtf8_ok {pool pool' : List (Option CStr)} {i : Nat} {tag : UInt8} {s : Option CStr}
    (hi : i < pool.length) :
    storeUtf8 pool i tag s data off = .ok (pool', off') ↔
      (if tag = CpTag.utf8.code then pool.set i s else pool) = pool' ∧ off = off' := by
  unfold storeUtf8 poolSet
  rw [if_pos hi]
  split <;> exact pure_ok

/-- One round of the loop over the constant pool. -/
theorem cpEntries_eq (heap : BcHeap) {cpCount i : Nat} (hi : i < cpCount)
    (pool : List (Option CStr)) : cpEntries heap cpCount i pool = (do
      Reader.need 1 .fail
      let tag ← readU1 0
      Reader.advance 1
      let (consumed, s) ← parseCpBody heap tag
      let pool ← storeUtf8 pool i tag s
      Reader.advance consumed
      cpEntries heap cpCount
        (i + if tag = CpTag.long.code ∨ tag = CpTag.double.code then 2 else 1) pool) := by
  rw [cpEntries, if_pos hi]
  congr 1
  funext _
  congr 1
  funext tag
  split <;> rfl

theorem CpTag.width_eq (t : CpTag) :
    (if t.code = CpTag.long.code ∨ t.code = CpTag.double.code then 2 else 1) = t.width := by
  cases t <;> rfl

theorem CpTag.code_eq_utf8 {t : CpTag} : t.code = CpTag.utf8.code ↔ t = .utf8 := by
  cases t <;> decide

/-- What the loop stores for a constant. -/
theorem storeConstant_eq {heap : BcHeap} {t : CpTag} {n i : Nat} {s : Option CStr}
    (hbody : CpBody heap data (off + 1) t n s) (htag : u1At data off = t.code)
    (pool : List (Option CStr)) :
    (if t.code = CpTag.utf8.code then pool.set i s else pool) = storeConstant data pool (i, off) := by
  unfold storeConstant
  simp only [htag, CpTag.code_eq_utf8]
  by_cases ht : t = .utf8
  · rw [if_pos ht, if_pos ht, hbody.str, if_pos ht]
    rfl
  · rw [if_neg ht, if_neg ht]

theorem storeConstant_length (pool : List (Option CStr)) (row : Nat × Nat) :
    (storeConstant data pool row).length = pool.length := by
  unfold storeConstant
  split
  · exact List.length_set
  · rfl

/-- One round of the loop succeeds on a constant. -/
theorem cpEntries_step {heap : BcHeap} {cpCount i : Nat} {pool pool' : List (Option CStr)}
    (hi : i < cpCount) (hpool : pool.length = cpCount) :
    cpEntries heap cpCount i pool data off = .ok (pool', off') ↔
      ∃ t mid, ConstantIn data t off mid ∧ (t = .utf8 → heap.utf8 (off + 1) = true) ∧
        cpEntries heap cpCount (i + t.width) (storeConstant data pool (i, off)) data mid =
          .ok (pool', off') := by
  rw [cpEntries_eq heap hi]
  simp only [bind_ok, need_ok, readU1_ok, advance_ok, parseCpBody_ok, Prod.exists,
    storeUtf8_ok (hpool ▸ hi)]
  constructor
  · rintro ⟨_, _, ⟨-, rfl⟩, tag, _, ⟨hle, htag, rfl⟩, _, _, rfl, n, s, _, ⟨t, rfl, hbody, rfl⟩, _, _,
      ⟨rfl, rfl⟩, _, _, rfl, hrest⟩
    rw [CpTag.width_eq, storeConstant_eq hbody htag] at hrest
    have hsize := hbody.size
    have hinside := hbody.inside
    exact ⟨t, _, ⟨hle, htag, by omega, by omega⟩, hbody.memory, hrest⟩
  · rintro ⟨t, mid, hc, hmem, hrest⟩
    have hle := hc.le
    have hends := hc.ends
    have hinside := hc.inside
    have hbody : CpBody heap data (off + 1) t (t.bodySize data (off + 1)) _ :=
      ⟨rfl, by omega, hmem, rfl⟩
    rw [← storeConstant_eq hbody hc.code, ← CpTag.width_eq] at hrest
    refine ⟨(), off, ⟨by omega, rfl⟩, t.code, off, ⟨by omega, hc.code, rfl⟩, (), off + 1, rfl, _, _,
      off + 1, ⟨t, rfl, hbody, rfl⟩, _, off + 1, ⟨rfl, rfl⟩, (), mid, hends.symm, hrest⟩

theorem CpTag.width_pos (t : CpTag) : 0 < t.width := by
  cases t <;> decide

theorem cpEntries_constants {heap : BcHeap} {cpCount i : Nat} {pool pool' : List (Option CStr)}
    (hpool : pool.length = cpCount) (h : cpEntries heap cpCount i pool data off = .ok (pool', off')) :
    ∃ rows, Constants data cpCount i off rows off' ∧
      rows.foldl (storeConstant data) pool = pool' := by
  induction hk : cpCount - i using Nat.strong_induction_on generalizing i pool off with
  | _ k ih =>
    subst hk
    by_cases hi : i < cpCount
    · obtain ⟨t, mid, hc, -, hrest⟩ := (cpEntries_step hi hpool).mp h
      have hpos := t.width_pos
      obtain ⟨rows, hrows, hfold⟩ :=
        ih (cpCount - (i + t.width)) (by omega) ((storeConstant_length pool _).trans hpool) hrest rfl
      exact ⟨(i, off) :: rows, .cons hi hc hrows, hfold⟩
    · rw [cpEntries, if_neg hi] at h
      obtain ⟨rfl, rfl⟩ := pure_ok.mp h
      exact ⟨[], .nil off (Nat.le_of_not_lt hi), rfl⟩

theorem cpEntries_of_constants {heap : BcHeap} (hheap : heap.Ample) {cpCount i : Nat}
    {rows : List (Nat × Nat)} (h : Constants data cpCount i off rows off')
    {pool : List (Option CStr)} (hpool : pool.length = cpCount) :
    cpEntries heap cpCount i pool data off =
      .ok (rows.foldl (storeConstant data) pool, off') := by
  induction h generalizing pool with
  | nil off hi =>
    rw [cpEntries, if_neg (Nat.not_lt.mpr hi)]
    rfl
  | cons hi hc _ ih =>
    exact (cpEntries_step hi hpool).mpr ⟨_, _, hc, fun _ => hheap.utf8 _,
      ih ((storeConstant_length pool _).trans hpool)⟩

/-! ## The methods -/

theorem poolGet_ok {pool : List (Option CStr)} {i : Nat} {s : Option CStr} :
    poolGet pool i data off = .ok (s, off') ↔ pool[i]? = some s ∧ off = off' := by
  unfold poolGet
  cases h : pool[i]? with
  | none => simp [fail_ok]
  | some s' =>
    rw [Option.some.injEq]
    exact pure_ok

/-- The two allocations of the loop, at a position. -/
def BcHeap.adds (heap : BcHeap) (pos : Nat) : Prop :=
  heap.pstring pos = true ∧ heap.methodListAdd pos = true

theorem adds_ok {heap : BcHeap} {ps : RawPstring} {r : Option RawPstring} :
    (Reader.position >>= fun pos =>
      if !heap.pstring pos then Reader.fail .failMethods
      else if !heap.methodListAdd pos then Reader.fail .failMethods
      else pure (some ps) : Reader Stop (Option RawPstring)) data off = .ok (r, off') ↔
      some ps = r ∧ off = off' ∧ heap.adds off := by
  show (if !heap.pstring off then Reader.fail Stop.failMethods
    else if !heap.methodListAdd off then Reader.fail Stop.failMethods
    else pure (some ps)) data off = .ok (r, off') ↔ _
  unfold BcHeap.adds
  cases hp : heap.pstring off with
  | false => simp [fail_ok]
  | true =>
    cases hm : heap.methodListAdd off with
    | false => simp [fail_ok]
    | true => simp [pure_ok]

theorem listedAt_eq_none {pool : List (Option CStr)}
    (h : pool.length ≤ beAt data (off + 2) 2 ∨ pool.length ≤ beAt data (off + 4) 2) :
    listedAt pool data off = none := by
  rw [Option.eq_none_iff_forall_not_mem]
  intro ps hps
  obtain ⟨name, desc, ⟨hname, hdesc⟩, -⟩ := listedAt_eq_some.mp hps
  rcases h with h | h
  · rw [List.getElem?_eq_none h] at hname
    cases hname
  · rw [List.getElem?_eq_none h] at hdesc
    cases hdesc

theorem extractMethod_ok {heap : BcHeap} {pool : List (Option CStr)} {ps : Option RawPstring} :
    extractMethod heap pool.length pool data off = .ok (ps, off') ↔
      MemberIn (AttributeIn wrappedSize data) data off off' ∧ listedAt pool data off = ps ∧
        (ps.isSome → heap.adds off') := by
  have hmember : MemberIn (AttributeIn wrappedSize data) data off off' ↔ off + 6 ≤ data.length ∧
      off + 2 + 0 + 2 ≤ data.length ∧ off + 2 + 2 + 0 + 2 ≤ data.length ∧
      AttributesIn (AttributeIn wrappedSize data) data (off + 2 + 2 + 2) off' := by
    constructor
    · exact fun ⟨hle, h⟩ => ⟨hle, by omega, by omega, h⟩
    · exact fun ⟨hle, _, _, h⟩ => ⟨hle, h⟩
  simp only [extractMethod, bind_ok, need_ok, advance_ok, readU2_ok, skipAttributes_ok,
    exists_and_left, and_assoc, exists_eq_left', exists_const, hmember]
  refine and_congr_right fun _ => and_congr_right fun _ => and_congr_right fun _ => ?_
  have hnone : (∃ mid, AttributesIn (AttributeIn wrappedSize data) data (off + 2 + 2 + 2) mid ∧
      (pure none : Reader Stop (Option RawPstring)) data mid = .ok (ps, off')) ↔
        AttributesIn (AttributeIn wrappedSize data) data (off + 2 + 2 + 2) off' ∧ none = ps ∧
          (ps.isSome → heap.adds off') := by
    simp only [pure_ok]
    constructor
    · rintro ⟨mid, h, rfl, rfl⟩
      exact ⟨h, rfl, fun hsome => by cases hsome⟩
    · rintro ⟨h, rfl, -⟩
      exact ⟨off', h, rfl, rfl⟩
  simp only [Nat.add_zero]
  by_cases hout : pool.length ≤ beAt data (off + 2) 2 ∨ pool.length ≤ beAt data (off + 2 + 2) 2
  · -- `continue`, for an index outside the pool
    rw [listedAt_eq_none hout]
    simp only [if_pos hout]
    exact hnone
  · obtain ⟨hname, hdesc⟩ := not_or.mp hout
    unfold listedAt
    rw [List.getElem?_eq_getElem (Nat.lt_of_not_le hname),
      List.getElem?_eq_getElem (Nat.lt_of_not_le hdesc), Option.join_some, Option.join_some]
    simp only [if_neg hout, bind_ok, poolGet_ok, List.getElem?_eq_getElem (Nat.lt_of_not_le hname),
      List.getElem?_eq_getElem (Nat.lt_of_not_le hdesc), Option.some.injEq, and_assoc,
      exists_and_left, exists_eq_left']
    generalize pool[beAt data (off + 2) 2] = name
    generalize pool[beAt data (off + 2 + 2) 2] = desc
    cases name with
    | none => exact hnone
    | some name =>
      cases desc with
      | none => exact hnone
      | some desc =>
        refine (exists_congr fun mid => and_congr_right fun _ => adds_ok).trans ?_
        constructor
        · rintro ⟨mid, h, rfl, rfl, hadds⟩
          exact ⟨h, rfl, fun _ => hadds⟩
        · rintro ⟨h, rfl, hadds⟩
          exact ⟨off', h, rfl, rfl, hadds rfl⟩

theorem extractMethods_rows {heap : BcHeap} {pool : List (Option CStr)} {n : Nat}
    {methods listed : List RawPstring}
    (h : extractMethods heap pool.length pool n methods data off = .ok (listed, off')) :
    ∃ offs, offs.length = n ∧ Rows (MemberIn (AttributeIn wrappedSize data) data) offs off off' ∧
      listed = methods ++ offs.filterMap (listedAt pool data) := by
  induction n generalizing methods off with
  | zero =>
    obtain ⟨rfl, rfl⟩ := pure_ok.mp h
    exact ⟨[], rfl, .nil off, (List.append_nil methods).symm⟩
  | succ n ih =>
    obtain ⟨ps, mid, hps, h⟩ := bind_ok.mp h
    obtain ⟨hmember, rfl, -⟩ := extractMethod_ok.mp hps
    obtain ⟨offs, rfl, hrows, rfl⟩ := ih h
    refine ⟨off :: offs, rfl, .cons hmember hrows, ?_⟩
    rw [List.filterMap_cons, List.append_assoc]
    cases listedAt pool data off <;> rfl

theorem extractMethods_of_rows {heap : BcHeap} (hheap : heap.Ample) {pool : List (Option CStr)}
    {offs : List Nat} (h : Rows (MemberIn (AttributeIn wrappedSize data) data) offs off off')
    (methods : List RawPstring) :
    extractMethods heap pool.length pool offs.length methods data off =
      .ok (methods ++ offs.filterMap (listedAt pool data), off') := by
  induction h generalizing methods with
  | nil off =>
    rw [List.filterMap_nil, List.append_nil]
    rfl
  | @cons offs off mid off' hmember _ ih =>
    have hadds : ∀ pos, heap.adds pos := fun pos => ⟨hheap.pstring pos, hheap.methodListAdd pos⟩
    have hps : extractMethod heap pool.length pool data off = .ok (listedAt pool data off, mid) :=
      extractMethod_ok.mpr ⟨hmember, rfl, fun _ => hadds mid⟩
    refine bind_ok.mpr ⟨_, mid, hps, (ih _).trans ?_⟩
    rw [List.filterMap_cons, List.append_assoc]
    cases listedAt pool data off <;> rfl

/-! ## The whole array -/

theorem poolOf_length (cpCount : Nat) (rows : List (Nat × Nat)) :
    (poolOf data cpCount rows).length = cpCount := by
  have hfold : ∀ pool : List (Option CStr),
      (rows.foldl (storeConstant data) pool).length = pool.length := by
    induction rows with
    | nil => exact fun _ => rfl
    | cons row rows ih => exact fun pool => (ih _).trans (storeConstant_length pool row)
  exact (hfold _).trans List.length_replicate

theorem Layout.pool_length (l : Layout) : (l.pool data).length = beAt data 8 2 :=
  poolOf_length _ _

theorem skipFields_ok {n : Nat} :
    (∃ us, skipField.times n data off = .ok (us, off')) ↔
      ∃ offs, offs.length = n ∧
        Rows (MemberIn (AttributeIn wrappedSize data) data) offs off off' := by
  have hrows : (fun p q => skipField data p = .ok ((), q)) =
      MemberIn (AttributeIn wrappedSize data) data := by
    funext p q
    exact propext skipField_ok
  rw [Reader.times_ok, hrows]

/-- A part that starts with the number of its items. -/
theorem count_ok {β : Type} {e : Stop} {f : Nat → Reader Stop β} {b : β} :
    (Reader.need 2 e >>= fun _ => readU2 0 >>= fun n => Reader.advance 2 >>= fun _ => f n) data off =
        .ok (b, off') ↔
      off + 2 ≤ data.length ∧ f (beAt data off 2) data (off + 2) = .ok (b, off') := by
  simp only [bind_ok, need_ok, readU2_ok, advance_ok, Nat.add_zero, exists_and_left, and_assoc,
    exists_eq_left', exists_const]
  exact ⟨fun ⟨hle, _, h⟩ => ⟨hle, h⟩, fun ⟨hle, h⟩ => ⟨hle, hle, h⟩⟩

/-- A part of a size that is known before. -/
theorem block_ok {β : Type} {e : Stop} {n : Nat} {p : Reader Stop β} {b : β} :
    (Reader.need n e >>= fun _ => Reader.advance n >>= fun _ => p) data off = .ok (b, off') ↔
      off + n ≤ data.length ∧ p data (off + n) = .ok (b, off') := by
  simp only [bind_ok, need_ok, advance_ok, exists_and_left, and_assoc, exists_eq_left', exists_const]

/-- When the function returns 0, in terms of its loops. -/
theorem bcExtract_ok {heap : BcHeap} {methods listed : List RawPstring} :
    bcExtract heap methods data 0 = .ok (listed, off') ↔
      0 + 8 ≤ data.length ∧ 0 + 8 + 2 ≤ data.length ∧ 1 ≤ beAt data 8 2 ∧ heap.utf8Pool = true ∧
      ∃ pool poolEnd, cpEntries heap (beAt data 8 2) 1 (List.replicate (beAt data 8 2) none) data 10 =
        .ok (pool, poolEnd) ∧ poolEnd + 6 ≤ data.length ∧ poolEnd + 6 + 2 ≤ data.length ∧
      ∃ ifacesEnd, ifacesEnd = poolEnd + 6 + 2 + 2 * beAt data (poolEnd + 6) 2 ∧
        ifacesEnd ≤ data.length ∧ ifacesEnd + 2 ≤ data.length ∧
      ∃ us fieldsEnd, skipField.times (beAt data ifacesEnd 2) data (ifacesEnd + 2) =
        .ok (us, fieldsEnd) ∧ fieldsEnd + 2 ≤ data.length ∧
        extractMethods heap (beAt data 8 2) pool (beAt data fieldsEnd 2) methods data (fieldsEnd + 2) =
          .ok (listed, off') := by
  unfold bcExtract
  rw [block_ok, count_ok]
  refine and_congr_right fun _ => and_congr_right fun _ => ?_
  by_cases hcount : beAt data (0 + 8) 2 < 1
  · rw [if_pos hcount, fail_ok]
    exact ⟨False.elim, fun h => Nat.not_le.mpr hcount h.1⟩
  rw [if_neg hcount]
  cases hpool : heap.utf8Pool with
  | false => simp [fail_ok]
  | true =>
    rw [if_neg (by decide), bind_ok]
    simp only [block_ok, count_ok, exists_eq_left, true_and]
    constructor
    · rintro ⟨pool, poolEnd, hpool, h₁, h₂, h₃, h₄, h⟩
      obtain ⟨us, fieldsEnd, hfields, h⟩ := bind_ok.mp h
      exact ⟨Nat.le_of_not_lt hcount, pool, poolEnd, hpool, h₁, h₂, h₃, h₄, us, fieldsEnd, hfields,
        count_ok.mp h⟩
    · rintro ⟨-, pool, poolEnd, hpool, h₁, h₂, h₃, h₄, us, fieldsEnd, hfields, h⟩
      exact ⟨pool, poolEnd, hpool, h₁, h₂, h₃, h₄, bind_ok.mpr ⟨us, fieldsEnd, hfields,
        count_ok.mpr h⟩⟩

/-- The strings that `bc_extract_methods` lists are those of the methods of a layout. -/
theorem bcExtract_layout {heap : BcHeap} {methods listed : List RawPstring}
    (h : bcExtract heap methods data 0 = .ok (listed, off')) :
    ∃ l : Layout, l.Lies (AttributeIn wrappedSize data) data ∧
      listed = methods ++ l.methods.filterMap (listedAt (l.pool data) data) := by
  obtain ⟨-, hheader, hcount, -, pool, poolEnd, hpool, -, hflags, ifacesEnd, hifaces, hifacesLe,
    hfieldCount, us, fieldsEnd, hfields, hmethodCount, hmethods⟩ := bcExtract_ok.mp h
  obtain ⟨rows, hrows, rfl⟩ := cpEntries_constants List.length_replicate hpool
  obtain ⟨fields, hflen, hfrows⟩ := skipFields_ok.mp ⟨us, hfields⟩
  have hlen : (poolOf data (beAt data 8 2) rows).length = beAt data 8 2 := poolOf_length _ _
  have hmethods' : extractMethods heap (poolOf data (beAt data 8 2) rows).length
      (poolOf data (beAt data 8 2) rows) (beAt data fieldsEnd 2) methods data (fieldsEnd + 2) =
        .ok (listed, off') := by
    rw [hlen]
    exact hmethods
  obtain ⟨offs, hmlen, hmrows, hlisted⟩ := extractMethods_rows hmethods'
  exact ⟨⟨rows, poolEnd, ifacesEnd, fields, fieldsEnd, offs, off'⟩, ⟨hheader, hcount, hrows, hflags,
    hifaces, hifacesLe, hfieldCount, hflen, hfrows, hmethodCount, hmlen, hmrows⟩, hlisted⟩

/-- With memory, `bc_extract_methods` succeeds on every array that has a layout. -/
theorem bcExtract_of_layout {heap : BcHeap} (hheap : heap.Ample) {l : Layout}
    (h : l.Lies (AttributeIn wrappedSize data) data) (methods : List RawPstring) :
    bcExtract heap methods data 0 =
      .ok (methods ++ l.methods.filterMap (listedAt (l.pool data) data), l.methodsEnd) := by
  obtain ⟨us, hus⟩ := skipFields_ok.mpr ⟨l.fields, h.fields_length, h.fields⟩
  have hheader := h.header
  have hflags := h.flags
  have hmethods : extractMethods heap (l.pool data).length (l.pool data) l.methods.length methods data
      (l.fieldsEnd + 2) = _ := extractMethods_of_rows hheap h.methods methods
  rw [l.pool_length, h.methods_length] at hmethods
  exact bcExtract_ok.mpr ⟨by omega, hheader, h.count, hheap.utf8Pool, l.pool data, l.poolEnd,
    cpEntries_of_constants hheap h.constants List.length_replicate, by omega, hflags,
    l.interfacesEnd, h.interfaces, h.interfaces_le, h.fieldCount, us, l.fieldsEnd, hus,
    h.methodCount, hmethods⟩

theorem bcExtractMethods_zero {heap : BcHeap} {methods listed : List RawPstring} :
    bcExtractMethods heap data methods = some (0, listed) ↔
      ∃ off', bcExtract heap methods data 0 = .ok (listed, off') := by
  rw [← Reader.run_ok]
  unfold bcExtractMethods
  constructor
  · intro h
    split at h
    · next ms hrun =>
      rw [hrun, (Prod.mk.inj (Option.some.inj h)).2]
    all_goals simp at h
  · intro h
    rw [h]

end JautoProf
