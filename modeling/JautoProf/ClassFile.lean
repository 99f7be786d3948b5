import JautoProf.Bytecode

/-!
# Class files

A `ClassFile` is what a class file says, with its constants, members and attributes in
order, and `encode` is its bytes.

Results:
1. `methods_extracted`: `bc_extract_methods` on the bytes of a class file lists the name and
   descriptor of each method, in order.
-/

namespace JautoProf

open Wire

/-! ## What a class file says -/

/-- An entry of the constant pool. Floating-point numbers are given by their bits, and an
index may refer to anything. -/
inductive Constant
  | utf8 (str : CStr) (length_lt : str.val.length < 65536)
  | integer (bits : UInt32)
  | float (bits : UInt32)
  | long (bits : UInt64)
  | double (bits : UInt64)
  | cls (name : UInt16)
  | string (str : UInt16)
  | fieldref (classIndex nameType : UInt16)
  | methodref (classIndex nameType : UInt16)
  | ifaceMref (classIndex nameType : UInt16)
  | nameAndType (name desc : UInt16)
  | methodHandle (kind : UInt8) (reference : UInt16)
  | methodType (desc : UInt16)
  | dynamic (bootstrap nameType : UInt16)
  | invokeDynamic (bootstrap nameType : UInt16)
  | module (name : UInt16)
  | package (name : UInt16)

/-- The indices that an entry takes, with the string at each. -/
def Constant.slots : Constant → List (Option CStr)
  | utf8 str _ => [some str]
  | long _ | double _ => [none, none]
  | _ => [none]

structure Attribute where
  name : UInt16
  info : List UInt8
  length_lt : info.length < 4294967296

/-- A field or a method. -/
structure Member where
  access : UInt16
  name : UInt16
  desc : UInt16
  attributes : List Attribute
  count_lt : attributes.length < 65536

structure ClassFile where
  magic : UInt32
  minor : UInt16
  major : UInt16
  constants : List Constant
  access : UInt16
  thisClass : UInt16
  superClass : UInt16
  interfaces : List UInt16
  fields : List Member
  methods : List Member
  slots_lt : 1 + (constants.flatMap Constant.slots).length < 65536
  interfaces_lt : interfaces.length < 65536
  fields_lt : fields.length < 65536
  methods_lt : methods.length < 65536

/-- The string at each index of the constant pool. -/
def ClassFile.pool (c : ClassFile) : List (Option CStr) :=
  none :: c.constants.flatMap Constant.slots

/-- The string that an index refers to. -/
def ClassFile.utf8At (c : ClassFile) (i : UInt16) : Option CStr := (c.pool[i.toNat]?).join

/-- The name and descriptor of a method, where its indices refer to strings. -/
def ClassFile.signature (c : ClassFile) (m : Member) : Option (List UInt8) :=
  match c.utf8At m.name, c.utf8At m.desc with
  | some name, some desc => some (name.val ++ ascii ":" ++ desc.val)
  | _, _ => none

def ClassFile.signatures (c : ClassFile) : List (List UInt8) := c.methods.filterMap c.signature

/-! ## The bytes -/

def u1 (x : UInt8) : List UInt8 := [x]

def u2 (x : UInt16) : List UInt8 := be 2 x.toNat

def u4 (x : UInt32) : List UInt8 := be 4 x.toNat

def u8 (x : UInt64) : List UInt8 := be 8 x.toNat

def Constant.encode : Constant → List UInt8
  | utf8 str _ => u1 1 ++ (be 2 str.val.length ++ str.val)
  | integer bits => u1 3 ++ u4 bits
  | float bits => u1 4 ++ u4 bits
  | long bits => u1 5 ++ u8 bits
  | double bits => u1 6 ++ u8 bits
  | .cls name => u1 7 ++ u2 name
  | string str => u1 8 ++ u2 str
  | fieldref classIndex nameType => u1 9 ++ (u2 classIndex ++ u2 nameType)
  | methodref classIndex nameType => u1 10 ++ (u2 classIndex ++ u2 nameType)
  | ifaceMref classIndex nameType => u1 11 ++ (u2 classIndex ++ u2 nameType)
  | nameAndType name desc => u1 12 ++ (u2 name ++ u2 desc)
  | methodHandle kind reference => u1 15 ++ (u1 kind ++ u2 reference)
  | methodType desc => u1 16 ++ u2 desc
  | dynamic bootstrap nameType => u1 17 ++ (u2 bootstrap ++ u2 nameType)
  | invokeDynamic bootstrap nameType => u1 18 ++ (u2 bootstrap ++ u2 nameType)
  | module name => u1 19 ++ u2 name
  | package name => u1 20 ++ u2 name

def Attribute.encode (a : Attribute) : List UInt8 :=
  u2 a.name ++ (be 4 a.info.length ++ a.info)

def encodeAttributes (l : List Attribute) : List UInt8 :=
  be 2 l.length ++ l.flatMap Attribute.encode

def Member.encode (m : Member) : List UInt8 :=
  u2 m.access ++ (u2 m.name ++ (u2 m.desc ++ encodeAttributes m.attributes))

def ClassFile.encode (c : ClassFile) : List UInt8 :=
  (u4 c.magic ++ u2 c.minor ++ u2 c.major) ++
    (be 2 (1 + (c.constants.flatMap Constant.slots).length) ++
      (c.constants.flatMap Constant.encode ++ ((u2 c.access ++ u2 c.thisClass ++ u2 c.superClass) ++
        (be 2 c.interfaces.length ++ (c.interfaces.flatMap u2 ++
          (be 2 c.fields.length ++ (c.fields.flatMap Member.encode ++
            (be 2 c.methods.length ++ c.methods.flatMap Member.encode))))))))

/-- Every allocation succeeds. -/
structure BcHeap.Ample (heap : BcHeap) : Prop where
  utf8Pool : heap.utf8Pool = true
  utf8 : ∀ pos, heap.utf8 pos = true
  pstring : ∀ pos, heap.pstring pos = true
  methodListAdd : ∀ pos, heap.methodListAdd pos = true

/-! ## Integers -/

theorem sees_readU2 {x : Nat} (hx : x < 65536) : Sees (readU2 0) (be 2 x) x := by
  have h := (Sees.ahead [] (be_length 2 x) Stop.outOfBounds).map ofBe
  rwa [ofBe_be hx] at h

theorem sees_readU1 (x : UInt8) : Sees (readU1 0) (u1 x) x := by
  have h := (Sees.ahead [] (Eq.refl (u1 x).length) Stop.outOfBounds).map
    fun p => UInt8.ofNat (ofBe p)
  have hx : UInt8.ofNat (ofBe (u1 x)) = x := by simp [u1, ofBe, ofLe]
  rwa [hx] at h

/-- An integer at the position, which then moves behind it. -/
theorem reads_readU2 {β : Type} {f : Nat → Reader Stop β} {x : Nat} {bs : List UInt8} {b : β}
    (hx : x < 65536) (hf : Reads (f x) bs b) :
    Reads (readU2 0 >>= fun x => Reader.advance 2 >>= fun _ => f x) (be 2 x ++ bs) b :=
  .look ((sees_readU2 hx).append bs) (.bind (.advance (be_length 2 x)) hf)

/-! ## The constant pool -/

def Constant.tag : Constant → CpTag
  | utf8 _ _ => .utf8
  | integer _ => .integer
  | float _ => .float
  | long _ => .long
  | double _ => .double
  | .cls _ => .cls
  | string _ => .string
  | fieldref _ _ => .fieldref
  | methodref _ _ => .methodref
  | ifaceMref _ _ => .ifaceMref
  | nameAndType _ _ => .nameAndType
  | methodHandle _ _ => .methodHandle
  | methodType _ => .methodType
  | dynamic _ _ => .dynamic
  | invokeDynamic _ _ => .invokeDynamic
  | module _ => .module
  | package _ => .package

/-- The string of an entry. -/
def Constant.str : Constant → Option CStr
  | utf8 str _ => some str
  | _ => none

/-- The bytes after the tag. -/
def Constant.body (c : Constant) : List UInt8 := c.encode.tail

theorem Constant.encode_eq (c : Constant) : c.encode = u1 c.tag.code ++ c.body := by
  cases c <;> rfl

theorem sees_parseCpFixed {size : Nat} {bs : List UInt8} (h : bs.length = size) :
    Sees (parseCpFixed size) bs (bs.length, none) := by
  rw [h]
  exact .bind (.need (Nat.le_of_eq h.symm) Stop.fail) (.pure _ _)

theorem terminated_cstr (s : CStr) : terminated s.val = s := by
  apply Subtype.ext
  simp only [terminated, List.takeWhile_eq_self_iff]
  intro b hb
  simpa using fun h0 : b = 0 => s.property (h0 ▸ hb)

theorem sees_parseCpBody {heap : BcHeap} (hheap : heap.Ample) (c : Constant) :
    Sees (parseCpBody heap c.tag.code) c.body (c.body.length, c.str) := by
  unfold parseCpBody
  rw [CpTag.ofCode_code]
  cases c with
  | utf8 str hlt =>
    have hbody : (Constant.utf8 str hlt).body = be 2 str.val.length ++ str.val := rfl
    have hlen : (Constant.utf8 str hlt).body.length = 2 + str.val.length := by
      rw [hbody, List.length_append, be_length]
    have hbytes := Sees.ahead (be 2 str.val.length) (Eq.refl str.val.length) Stop.outOfBounds
    rw [be_length] at hbytes
    refine .bind (.need (by omega) Stop.fail) (.bind ((sees_readU2 hlt).append _) ?_)
    refine .bind (.need (Nat.le_of_eq hlen.symm) Stop.fail) (.position fun pos => ?_)
    rw [hheap.utf8 pos, hlen]
    have hdone := hbytes.map fun s => (2 + str.val.length, some (terminated s))
    rw [terminated_cstr] at hdone
    exact hdone
  | _ => exact sees_parseCpFixed (by simp [Constant.body, Constant.encode, u1, u2, u4, u8])

theorem cpEntries_next (heap : BcHeap) (cpCount i : Nat) (pool : List (Option CStr))
    (c : Constant) :
    (if c.tag.code = CpTag.long.code ∨ c.tag.code = CpTag.double.code then
      cpEntries heap cpCount (i + 2) pool else cpEntries heap cpCount (i + 1) pool) =
      cpEntries heap cpCount (i + c.slots.length) pool := by
  cases c <;> rfl

theorem replicate_set_zero (pool : List (Option CStr)) (n : Nat) (s : Option CStr) :
    (pool ++ List.replicate (n + 1) none).set pool.length s = pool ++ s :: List.replicate n none := by
  rw [List.set_append_right _ _ (Nat.le_refl _), Nat.sub_self]
  rfl

/-- What the loop stores for an entry at the first index that is still empty. -/
theorem sees_storeUtf8 (c : Constant) (pool : List (Option CStr)) (n : Nat) (bs : List UInt8) :
    Sees (storeUtf8 (pool ++ List.replicate (c.slots.length + n) none) pool.length c.tag.code
      c.str) bs (pool ++ c.slots ++ List.replicate n none) := by
  rw [List.append_assoc]
  cases c with
  | utf8 str hlt =>
    have hset : poolSet (pool ++ List.replicate (1 + n) none) pool.length (some str) =
        pure (pool ++ some str :: List.replicate n none) := by
      unfold poolSet
      rw [if_pos (by rw [List.length_append, List.length_replicate]; omega), Nat.add_comm 1 n,
        replicate_set_zero]
    show Sees (poolSet (pool ++ List.replicate (1 + n) none) pool.length (some str)) bs _
    rw [hset]
    exact .pure _ bs
  | long _ | double _ =>
    have htwo : List.replicate (2 + n) (none : Option CStr) =
        [none, none] ++ List.replicate n none := by
      rw [Nat.add_comm 2 n]
      rfl
    exact htwo ▸ Sees.pure _ bs
  | _ =>
    have hone : List.replicate (1 + n) (none : Option CStr) = [none] ++ List.replicate n none := by
      rw [Nat.add_comm 1 n]
      rfl
    exact hone ▸ Sees.pure _ bs

theorem Constant.slots_pos (c : Constant) : 0 < c.slots.length := by
  cases c <;> simp [Constant.slots]

/-- The loop fills the pool, entry by entry. -/
theorem reads_cpEntries {heap : BcHeap} (hheap : heap.Ample) (cs : List Constant)
    (pool : List (Option CStr)) :
    Reads (cpEntries heap (pool.length + (cs.flatMap Constant.slots).length) pool.length
        (pool ++ List.replicate (cs.flatMap Constant.slots).length none))
      (cs.flatMap Constant.encode) (pool ++ cs.flatMap Constant.slots) := by
  induction cs generalizing pool with
  | nil =>
    rw [cpEntries, if_neg (by simp)]
    exact .pure _
  | cons c cs ih =>
    have hpos := c.slots_pos
    rw [cpEntries, if_pos (by simp; omega), List.flatMap_cons, List.flatMap_cons, c.encode_eq,
      List.append_assoc, List.length_append]
    refine .look ((Sees.need (by simp [u1]) Stop.fail)) ?_
    refine .look ((sees_readU1 c.tag.code).append _) (.bind (.advance rfl) ?_)
    refine .look ((sees_parseCpBody hheap c).append _) (.look (sees_storeUtf8 c pool _ _) ?_)
    refine .bind (.advance rfl) ?_
    rw [cpEntries_next, ← List.append_assoc pool]
    have hrest := ih (pool ++ c.slots)
    rwa [List.length_append, Nat.add_assoc] at hrest

/-! ## Attributes and members -/

theorem reads_skipAttribute (e : Stop) {a : Attribute} (h : a.info.length < 2147483648) :
    Reads (skipAttribute e) a.encode () := by
  have hlen : Sees (readU4 2) a.encode a.info.length := by
    have hread := (Sees.ahead (u2 a.name) (be_length 4 a.info.length)
      Stop.outOfBounds).map ofBe
    rw [ofBe_be (by omega)] at hread
    have := hread.append a.info
    rwa [List.append_assoc] at this
  have hsize : a.encode.length = (6 + a.info.length) % 4294967296 := by
    rw [Nat.mod_eq_of_lt (by omega)]
    simp only [Attribute.encode, u2, List.length_append, be_length]
    omega
  refine .look (.need ?_ e) (.look hlen ?_)
  · simp only [Attribute.encode, u2, List.length_append, be_length]
    omega
  · exact .bind_nil (.advance hsize) (.of_sees (Sees.need (Nat.le_refl 0) e))

theorem reads_skipAttributes (e : Stop) {l : List Attribute} (hcount : l.length < 65536)
    (h : ∀ a ∈ l, a.info.length < 2147483648) :
    Reads (skipAttributes e) (encodeAttributes l) () := by
  refine .look (.need ?_ e) (reads_readU2 hcount ?_)
  · simp only [encodeAttributes, List.length_append, be_length]
    omega
  · exact (Reads.times fun a ha => reads_skipAttribute e (h a ha)).map fun _ => ()

theorem reads_skipField {m : Member} (h : ∀ a ∈ m.attributes, a.info.length < 2147483648) :
    Reads skipField m.encode () := by
  have hencode : m.encode =
      (u2 m.access ++ u2 m.name ++ u2 m.desc) ++ encodeAttributes m.attributes := by
    simp only [Member.encode, List.append_assoc]
  rw [hencode]
  refine .look (.need ?_ Stop.fail) (.bind (.advance ?_) (reads_skipAttributes .fail m.count_lt h))
  · simp only [u2, List.length_append, be_length]
    omega
  · simp only [u2, List.length_append, be_length]

/-! ## The methods -/

/-- The string as the function stores it. -/
def RawPstring.ofBytes (s : List UInt8) : RawPstring := ⟨UInt16.ofNat s.length, s⟩

theorem sees_poolGet {pool : List (Option CStr)} {i : Nat} (h : i < pool.length)
    (bs : List UInt8) : Sees (poolGet pool i) bs (pool[i]?).join := by
  unfold poolGet
  rw [List.getElem?_eq_getElem h]
  exact .pure _ bs

theorem ClassFile.signature_eq_none {c : ClassFile} {m : Member}
    (h : c.pool.length ≤ m.name.toNat ∨ c.pool.length ≤ m.desc.toNat) : c.signature m = none := by
  unfold signature utf8At
  rcases h with h | h
  · rw [List.getElem?_eq_none h]
    rfl
  · rw [List.getElem?_eq_none h]
    split
    · next hdesc => cases hdesc
    · rfl

theorem reads_extractMethod {heap : BcHeap} (hheap : heap.Ample) (c : ClassFile) {m : Member}
    (h : ∀ a ∈ m.attributes, a.info.length < 2147483648) :
    Reads (extractMethod heap c.pool.length c.pool) m.encode
      ((c.signature m).map RawPstring.ofBytes) := by
  refine .look (Sees.need ?_ Stop.failMethods) (.bind (.advance (be_length 2 _)) ?_)
  · simp only [Member.encode, u2, encodeAttributes, List.length_append, be_length]
    omega
  refine reads_readU2 m.name.toNat_lt (reads_readU2 m.desc.toNat_lt ?_)
  refine .bind_nil (reads_skipAttributes _ m.count_lt h) ?_
  by_cases hout : c.pool.length ≤ m.name.toNat ∨ c.pool.length ≤ m.desc.toNat
  · rw [if_pos hout, c.signature_eq_none hout]
    exact .pure none
  · obtain ⟨hname, hdesc⟩ := not_or.mp hout
    rw [if_neg hout]
    refine .look (sees_poolGet (Nat.lt_of_not_le hname) []) ?_
    refine .look (sees_poolGet (Nat.lt_of_not_le hdesc) []) ?_
    unfold ClassFile.signature ClassFile.utf8At
    cases (c.pool[m.name.toNat]?).join with
    | none => exact .pure none
    | some name =>
      cases (c.pool[m.desc.toNat]?).join with
      | none => exact .pure none
      | some desc =>
        refine .of_sees (.position fun pos => ?_)
        rw [hheap.pstring pos, hheap.methodListAdd pos]
        have hraw : RawPstring.ofBytes (name.val ++ ascii ":" ++ desc.val) =
            ⟨UInt16.ofNat (name.val.length + 1 + desc.val.length), name.val ++ 58 :: desc.val⟩ := by
          have hcolon : ascii ":" = [58] := by decide
          rw [RawPstring.ofBytes, hcolon, List.length_append, List.length_append, List.append_assoc]
          rfl
        rw [Option.map_some, hraw]
        exact .pure _ []

theorem reads_extractMethods {heap : BcHeap} (hheap : heap.Ample) (c : ClassFile)
    {ms : List Member} (h : ∀ m ∈ ms, ∀ a ∈ m.attributes, a.info.length < 2147483648)
    (methods : List RawPstring) :
    Reads (extractMethods heap c.pool.length c.pool ms.length methods) (ms.flatMap Member.encode)
      (methods ++ (ms.filterMap c.signature).map RawPstring.ofBytes) := by
  induction ms generalizing methods with
  | nil =>
    rw [List.filterMap_nil, List.map_nil, List.append_nil]
    exact .pure methods
  | cons m ms ih =>
    have hm := reads_extractMethod hheap c (h m List.mem_cons_self)
    refine .bind hm ?_
    have hrest := ih (fun m' hm' => h m' (List.mem_cons_of_mem m hm'))
      (methods ++ ((c.signature m).map RawPstring.ofBytes).toList)
    cases hsig : c.signature m with
    | none =>
      rw [hsig, Option.map_none, Option.toList_none, List.append_nil] at hrest
      rw [List.filterMap_cons_none hsig, Option.map_none, Option.toList_none, List.append_nil]
      exact hrest
    | some s =>
      rw [List.filterMap_cons_some hsig, List.map_cons, List.append_cons]
      rw [hsig] at hrest
      exact hrest

theorem length_le_flatMap {α : Type} (f : α → List UInt8) {l : List α} {a : α} (h : a ∈ l) :
    (f a).length ≤ (l.flatMap f).length :=
  (List.sublist_flatten_of_mem (List.mem_map_of_mem h)).length_le

theorem Member.info_le {m : Member} {a : Attribute} (h : a ∈ m.attributes) :
    a.info.length ≤ m.encode.length := by
  have ha := length_le_flatMap Attribute.encode h
  simp only [Attribute.encode, Member.encode, encodeAttributes, List.length_append] at ha ⊢
  omega

/-- In a class file of less than 2^31 bytes every attribute is shorter than that. -/
theorem ClassFile.info_lt {c : ClassFile} (h : c.encode.length < 2147483648) {m : Member}
    (hm : m ∈ c.fields ∨ m ∈ c.methods) {a : Attribute} (ha : a ∈ m.attributes) :
    a.info.length < 2147483648 := by
  have hinfo := Member.info_le ha
  have hle : m.encode.length ≤ c.encode.length := by
    simp only [ClassFile.encode, List.length_append]
    rcases hm with hm | hm
    · have := length_le_flatMap Member.encode hm
      omega
    · have := length_le_flatMap Member.encode hm
      omega
  omega

/-- The section of a class file that starts with its number of items. -/
theorem reads_count {β : Type} {f : Nat → Reader Stop β} {n : Nat} {bs : List UInt8} {b : β}
    (hn : n < 65536) (hf : Reads (f n) bs b) :
    Reads (Reader.need 2 Stop.fail >>= fun _ => readU2 0 >>= fun x => Reader.advance 2 >>= fun _ =>
      f x) (be 2 n ++ bs) b := by
  refine .look (Sees.need ?_ Stop.fail) (reads_readU2 hn hf)
  rw [List.length_append, be_length]
  omega

theorem length_flatMap_u2 (l : List UInt16) : (l.flatMap u2).length = 2 * l.length := by
  induction l with
  | nil => rfl
  | cons i l ih =>
    rw [List.flatMap_cons, List.length_append, ih, u2, be_length, List.length_cons]
    omega

theorem reads_bcExtract {heap : BcHeap} (hheap : heap.Ample) {c : ClassFile}
    (h : c.encode.length < 2147483648) (methods : List RawPstring) :
    Reads (bcExtract heap methods) c.encode (methods ++ c.signatures.map RawPstring.ofBytes) := by
  have hlen : (u4 c.magic ++ u2 c.minor ++ u2 c.major).length = 8 := by
    simp only [u4, u2, List.length_append, be_length]
  have hlen' : (u2 c.access ++ u2 c.thisClass ++ u2 c.superClass).length = 6 := by
    simp only [u2, List.length_append, be_length]
  have hentries : Reads (cpEntries heap (1 + (c.constants.flatMap Constant.slots).length) 1
      (List.replicate (1 + (c.constants.flatMap Constant.slots).length) none))
      (c.constants.flatMap Constant.encode) c.pool := by
    have hall := reads_cpEntries hheap c.constants [none]
    rw [List.length_singleton, Nat.add_comm] at hall
    rw [Nat.add_comm]
    exact hall
  have hsize : 1 + (c.constants.flatMap Constant.slots).length = c.pool.length := Nat.add_comm _ _
  have hfields : ∀ m ∈ c.fields, Reads skipField m.encode () := fun m hm =>
    reads_skipField fun a ha => ClassFile.info_lt h (.inl hm) ha
  have hmethods := reads_extractMethods hheap c
    (fun m hm a ha => ClassFile.info_lt h (.inr hm) ha) methods
  unfold bcExtract ClassFile.encode
  refine .look (Sees.need (by rw [List.length_append]; omega) Stop.fail) (.bind (.advance hlen) ?_)
  refine reads_count c.slots_lt ?_
  rw [if_neg (by omega), hheap.utf8Pool]
  refine .bind hentries ?_
  refine .look (Sees.need (by rw [List.length_append]; omega) Stop.fail) (.bind (.advance hlen') ?_)
  refine reads_count c.interfaces_lt ?_
  have hifaces := length_flatMap_u2 c.interfaces
  refine .look (Sees.need (by rw [List.length_append]; omega) Stop.fail)
    (.bind (.advance hifaces) ?_)
  refine reads_count c.fields_lt (.bind (.times hfields) ?_)
  refine reads_count c.methods_lt ?_
  rw [hsize]
  exact hmethods

theorem bcExtractMethods_encode {heap : BcHeap} (hheap : heap.Ample) {c : ClassFile}
    (h : c.encode.length < 2147483648) (trailing : List UInt8) :
    bcExtractMethods heap (c.encode ++ trailing) [] =
      some (0, c.signatures.map RawPstring.ofBytes) := by
  unfold bcExtractMethods
  rw [(reads_bcExtract hheap h []).run trailing]
  rfl

/-- For every class file of less than 2^31 bytes, with anything behind it, and where memory
suffices: `bc_extract_methods` returns 0 and has listed the name and descriptor of each method
that has them, in order. A string of at most 65535 bytes carries its length. -/
theorem methods_extracted {heap : BcHeap} (hheap : heap.Ample) (c : ClassFile)
    (trailing : List UInt8) (h : (c.encode ++ trailing).length < 2147483648)
    (hlen : ∀ s ∈ c.signatures, s.length ≤ 65535) :
    ∃ listed, bcExtractMethods heap (c.encode ++ trailing) [] = some (0, listed) ∧
      listed.map RawPstring.str = c.signatures ∧ ∀ ps ∈ listed, ps.size.toNat = ps.str.length := by
  have hbytes : c.encode.length < 2147483648 := by
    rw [List.length_append] at h
    omega
  refine ⟨c.signatures.map RawPstring.ofBytes, bcExtractMethods_encode hheap hbytes trailing, ?_, ?_⟩
  · rw [List.map_map]
    exact List.map_id _
  · intro ps hmem
    obtain ⟨s, hs, rfl⟩ := List.mem_map.mp hmem
    have := hlen s hs
    exact UInt16.toNat_ofNat_of_lt' (Nat.lt_of_le_of_lt this (by decide))

/-- A class with a field and two methods, `f:()V` and one whose descriptor is the second index
of a long constant. -/
def smallClass : ClassFile where
  magic := 0xcafebabe
  minor := 0
  major := 61
  constants := [.utf8 ⟨ascii "f", by decide⟩ (by decide), .long 7,
    .utf8 ⟨ascii "()V", by decide⟩ (by decide), .methodHandle 6 2, .cls 1]
  access := 0x21
  thisClass := 6
  superClass := 0
  interfaces := [6]
  fields := [⟨0, 1, 4, [⟨1, [9, 9, 9], by decide⟩], by decide⟩]
  methods := [⟨1, 1, 4, [⟨1, [], by decide⟩, ⟨4, [8], by decide⟩], by decide⟩,
    ⟨1, 1, 3, [], by decide⟩]
  slots_lt := by decide
  interfaces_lt := by decide
  fields_lt := by decide
  methods_lt := by decide

theorem methods_extracted_small :
    ∃ listed, bcExtractMethods ⟨true, fun _ => true, fun _ => true, fun _ => true⟩
        (smallClass.encode ++ [0, 0]) [] = some (0, listed) ∧
      listed.map RawPstring.str = smallClass.signatures ∧
        ∀ ps ∈ listed, ps.size.toNat = ps.str.length :=
  methods_extracted ⟨rfl, fun _ => rfl, fun _ => rfl, fun _ => rfl⟩ smallClass [0, 0] (by decide)
    (by decide)

example : smallClass.signatures = [ascii "f:()V"] := by decide

end JautoProf
