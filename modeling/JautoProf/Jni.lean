import JautoProf.Lib.Script
import JautoProf.Util
import Mathlib.Algebra.Order.Group.Multiset

/-!
# Calls into the JVM and of the allocator

What the code of `jni/` calls. The state keeps what this code holds (its local and global
references and its allocations) and what they refer to. Of the rules for JNI functions, `legal`
has those that the JVM does not check: references are live, regions are inside their array,
arguments fit the method, and with an exception pending only the calls are made that are safe
then. `may` leaves the JVM free: every request may fail, and a method may throw, return null and
change the arrays that it is given. Which bytes are modified UTF-8 is not asked.

Results:
1. `jvm_answers`: every legal call may be answered.
2. `wp_make`, `wp_write`, ..: one rule for each kind of call.
-/

namespace JautoProf.Jni

open Script

/-! ## Objects and methods -/

/-- A reference, local or global. -/
abbrev Ref : Type := Nat

/-- What `malloc` returns. -/
structure Block where
  addr : Nat
  size : Nat
deriving DecidableEq

/-- An object, or the elements that are stored in an allocation. -/
inductive Value
  | cls (name : List UInt8)
  | string (utf : List UInt8)
  | bytes (elems : List UInt8)
  | ints (elems : List Int32)
  | strings (elems : List (Option (List UInt8)))
  | other
deriving DecidableEq

/-- `jmethodID` of a static method. -/
structure MethodId where
  cls : List UInt8
  name : List UInt8
  signature : List UInt8
deriving DecidableEq

/-- A `jvalue`. -/
inductive Arg
  | int (i : Int32)
  | long (l : UInt64)
  | object (r : Ref)

/-- What a method is given. -/
inductive Given
  | int (i : Int32)
  | long (l : UInt64)
  | object (v : Value)
deriving DecidableEq

/-- How a call of a method ends. -/
inductive Outcome
  | threw
  | void
  | int (i : Int32)
  | null
  | object (v : Value)
deriving DecidableEq

structure Invocation where
  method : MethodId
  given : List Given
  outcome : Outcome
deriving DecidableEq

namespace Value

def descriptor : Value → List UInt8
  | cls _ => ascii "Ljava/lang/Class;"
  | string _ => ascii "Ljava/lang/String;"
  | bytes _ => ascii "[B"
  | ints _ => ascii "[I"
  | strings _ => ascii "[Ljava/lang/String;"
  | other => ascii "Ljava/lang/Object;"

/-- The length of an array. -/
def length : Value → Option Nat
  | bytes elems => some elems.length
  | ints elems => some elems.length
  | strings elems => some elems.length
  | _ => none

/-- The bytes that it takes in an allocation; a string is a pointer there. -/
def size : Value → Nat
  | bytes elems => elems.length
  | ints elems => 4 * elems.length
  | strings elems => 8 * elems.length
  | _ => 0

/-- Java code may change the elements of an array, and no more than that. -/
def Like : Value → Value → Prop
  | bytes xs, bytes ys => xs.length = ys.length
  | ints xs, ints ys => xs.length = ys.length
  | strings xs, strings ys => xs.length = ys.length
  | v, w => v = w

theorem Like.refl (v : Value) : v.Like v := by
  cases v with
  | bytes _ => exact rfl
  | ints _ => exact rfl
  | strings _ => exact rfl
  | cls _ => exact rfl
  | string _ => exact rfl
  | other => exact rfl

theorem Like.cls {v : Value} {name : List UInt8} (h : v.Like (.cls name)) : v = .cls name := by
  cases v with
  | bytes _ => exact h
  | ints _ => exact h
  | strings _ => exact h
  | cls _ => exact h
  | string _ => exact h
  | other => exact h

theorem bytes_of_descriptor {v : Value} (h : v.descriptor = ascii "[B") : ∃ bs, v = .bytes bs := by
  cases v with
  | bytes bs => exact ⟨bs, rfl⟩
  | ints _ => exact absurd h (by decide : ascii "[I" ≠ ascii "[B")
  | strings _ => exact absurd h (by decide : ascii "[Ljava/lang/String;" ≠ ascii "[B")
  | cls _ => exact absurd h (by decide : ascii "Ljava/lang/Class;" ≠ ascii "[B")
  | string _ => exact absurd h (by decide : ascii "Ljava/lang/String;" ≠ ascii "[B")
  | other => exact absurd h (by decide : ascii "Ljava/lang/Object;" ≠ ascii "[B")

end Value

def Given.descriptor : Given → List UInt8
  | int _ => ascii "I"
  | long _ => ascii "J"
  | object v => v.descriptor

/-- The descriptor of a method of these arguments that returns a `ret`. -/
def methodDescriptor (given : List Given) (ret : List UInt8) : List UInt8 :=
  ascii "(" ++ given.flatMap Given.descriptor ++ ascii ")" ++ ret

/-! ## The state -/

structure State where
  locals : Multiset Ref
  globals : Multiset Ref
  value : Ref → Value
  blocks : Multiset Block
  stored : Block → Value
  /-- an exception is pending -/
  pending : Bool
  /-- some request was refused, or a method threw or returned null -/
  failed : Bool
  /-- some request was refused -/
  refused : Bool
  invocations : List Invocation

namespace State

def Live (s : State) (r : Ref) : Prop := r ∈ s.locals ∨ r ∈ s.globals

instance (s : State) (r : Ref) : Decidable (s.Live r) := inferInstanceAs (Decidable (_ ∨ _))

variable (s : State)

@[simps] def fail (pending : Bool) : State := { s with pending, failed := true, refused := true }

@[simps] def addLocal (r : Ref) (v : Value) : State :=
  { s with locals := r ::ₘ s.locals, value := Function.update s.value r v }

@[simps] def addGlobal (r : Ref) (v : Value) : State :=
  { s with globals := r ::ₘ s.globals, value := Function.update s.value r v }

@[simps] def dropLocal (r : Ref) : State := { s with locals := s.locals.erase r }

@[simps] def dropGlobal (r : Ref) : State := { s with globals := s.globals.erase r }

@[simps] def setValue (r : Ref) (v : Value) : State :=
  { s with value := Function.update s.value r v }

@[simps] def addBlock (b : Block) : State :=
  { s with blocks := b ::ₘ s.blocks, stored := Function.update s.stored b .other }

@[simps] def dropBlock (b : Block) : State := { s with blocks := s.blocks.erase b }

@[simps] def setStored (b : Block) (v : Value) : State :=
  { s with stored := Function.update s.stored b v }

@[simps] def clear : State := { s with pending := false }

variable {s} {r x : Ref} {v : Value}

theorem clear_eq_self (h : s.pending = false) : s.clear = s := by
  cases s
  cases h
  rfl

theorem Live.ne (hr : s.Live r) (hx : ¬s.Live x) : r ≠ x := fun h => hx (h ▸ hr)

theorem Live.addLocal (h : s.Live r) : (s.addLocal x v).Live r :=
  h.imp_left Multiset.mem_cons_of_mem

theorem Live.addGlobal (h : s.Live r) : (s.addGlobal x v).Live r :=
  h.imp_right Multiset.mem_cons_of_mem

theorem live_addLocal : (s.addLocal x v).Live x := .inl (Multiset.mem_cons_self x _)

/-- A new reference does not change what the others refer to. -/
theorem value_addLocal_of_live (hx : ¬s.Live x) (hr : s.Live r) :
    (s.addLocal x v).value r = s.value r :=
  Function.update_of_ne (hr.ne hx) _ _

theorem value_addGlobal_of_live (hx : ¬s.Live x) (hr : s.Live r) :
    (s.addGlobal x v).value r = s.value r :=
  Function.update_of_ne (hr.ne hx) _ _

@[simp] theorem value_addLocal_self : (s.addLocal x v).value x = v := Function.update_self _ _ _

@[simp] theorem value_addGlobal_self : (s.addGlobal x v).value x = v := Function.update_self _ _ _

end State

def Arg.given (s : State) : Arg → Given
  | int i => .int i
  | long l => .long l
  | object r => .object (s.value r)

def Arg.Live (s : State) : Arg → Prop
  | object r => s.Live r
  | _ => True

/-! ## The calls -/

/-- The functions that make a local reference. -/
inductive Make
  | findClass (name : List UInt8)
  | newStringUTF (bytes : CStr)
  | newByteArray (len : Nat)
  | newIntArray (len : Nat)
  | newObjectArray (len : Nat) (elementClass : Ref)

/-- The functions that write to an array. -/
inductive Write
  | setByteArrayRegion (start len : Nat) (buf : List UInt8)
  | setIntArrayRegion (start len : Nat) (buf : Block)
  | setObjectArrayElement (index : Nat) (elem : Ref)

/-- The calls, by the type of what they return. A length is legal only if it is a `jsize`. -/
inductive Fn : Type → Type
  | make (what : Make) : Fn (Option Ref)
  | write (arr : Ref) (what : Write) : Fn Unit
  | newGlobalRef (obj : Ref) : Fn (Option Ref)
  | deleteLocalRef (obj : Ref) : Fn Unit
  | deleteGlobalRef (obj : Ref) : Fn Unit
  | getStaticMethodID (cls : Ref) (name signature : List UInt8) : Fn (Option MethodId)
  | callStaticVoidMethod (cls : Ref) (method : MethodId) (args : List Arg) : Fn Unit
  | callStaticIntMethod (cls : Ref) (method : MethodId) (args : List Arg) : Fn Int32
  | callStaticObjectMethod (cls : Ref) (method : MethodId) (args : List Arg) : Fn (Option Ref)
  | getArrayLength (arr : Ref) : Fn Nat
  | getByteArrayRegion (arr : Ref) (start len : Nat) (buf : Block) : Fn Unit
  | exceptionCheck : Fn Bool
  | exceptionDescribe : Fn Unit
  | exceptionClear : Fn Unit
  | malloc (size : Nat) : Fn (Option Block)
  | free (b : Block) : Fn Unit
  /-- a loop, or `memcpy`, that stores elements from the start of an allocation -/
  | fill (b : Block) (contents : Value) : Fn Unit

namespace Make

/-- The object. -/
def value : Make → Value
  | findClass name => .cls name
  | newStringUTF bytes => .string bytes.val
  | newByteArray len => .bytes (List.replicate len 0)
  | newIntArray len => .ints (List.replicate len 0)
  | newObjectArray len _ => .strings (List.replicate len none)

/-- Arrays of objects are made of strings only. -/
def Legal (s : State) : Make → Prop
  | findClass _ => True
  | newStringUTF _ => True
  | newByteArray len => len < 2 ^ 31
  | newIntArray len => len < 2 ^ 31
  | newObjectArray len elementClass =>
    len < 2 ^ 31 ∧ s.Live elementClass ∧ s.value elementClass = .cls (ascii "java/lang/String")

end Make

/-- The array after it is written to; `none` is outside of it, or of the wrong type. -/
def Write.after (s : State) : Write → Value → Option Value
  | setByteArrayRegion start len buf, .bytes elems =>
    if start + len ≤ elems.length ∧ len ≤ buf.length then
      some (.bytes (elems.take start ++ buf.take len ++ elems.drop (start + len)))
    else none
  | setIntArrayRegion start len buf, .ints elems =>
    match s.stored buf with
    | .ints xs =>
      if buf ∈ s.blocks ∧ start + len ≤ elems.length ∧ len ≤ xs.length then
        some (.ints (elems.take start ++ xs.take len ++ elems.drop (start + len)))
      else none
    | _ => none
  | setObjectArrayElement index elem, .strings elems =>
    match s.value elem with
    | .string utf =>
      if s.Live elem ∧ index < elems.length then some (.strings (elems.set index (some utf)))
      else none
    | _ => none
  | _, _ => none

theorem Write.after_setIntArrayRegion {s : State} {start len : Nat} {buf : Block}
    {elems xs : List Int32} (hstored : s.stored buf = .ints xs) (hbuf : buf ∈ s.blocks)
    (hle : start + len ≤ elems.length) (hlen : len ≤ xs.length) :
    (setIntArrayRegion start len buf).after s (.ints elems) =
      some (.ints (elems.take start ++ xs.take len ++ elems.drop (start + len))) := by
  simp only [Write.after, hstored]
  exact if_pos ⟨hbuf, hle, hlen⟩

theorem Write.after_setObjectArrayElement {s : State} {index : Nat} {elem : Ref}
    {elems : List (Option (List UInt8))} {utf : List UInt8} (hvalue : s.value elem = .string utf)
    (hlive : s.Live elem) (hlt : index < elems.length) :
    (setObjectArrayElement index elem).after s (.strings elems) =
      some (.strings (elems.set index (some utf))) := by
  simp only [Write.after, hvalue]
  exact if_pos ⟨hlive, hlt⟩

/-- A call of a method that returns a `ret`. -/
structure Invokes (s : State) (cls : Ref) (method : MethodId) (args : List Arg)
    (ret : List UInt8) : Prop where
  live : s.Live cls
  cls : s.value cls = .cls method.cls
  liveArgs : ∀ a ∈ args, a.Live s
  signature : method.signature = methodDescriptor (args.map (Arg.given s)) ret

/-- The state after a method returned or threw. -/
structure Called (s : State) (method : MethodId) (args : List Arg) (outcome : Outcome)
    (t : State) : Prop where
  locals : t.locals = s.locals
  globals : t.globals = s.globals
  value : ∀ r, (t.value r).Like (s.value r)
  blocks : t.blocks = s.blocks
  stored : t.stored = s.stored
  pending : t.pending = decide (outcome = .threw)
  failed : t.failed = (s.failed || decide (outcome = .threw) || decide (outcome = .null))
  refused : t.refused = s.refused
  invocations : t.invocations = s.invocations ++ [⟨method, args.map (Arg.given s), outcome⟩]

def legal : {R : Type} → Fn R → State → Prop
  | _, .make what, s => s.pending = false ∧ what.Legal s
  | _, .write arr what, s =>
    s.pending = false ∧ s.Live arr ∧ (what.after s (s.value arr)).isSome
  | _, .newGlobalRef obj, s => s.pending = false ∧ s.Live obj
  | _, .deleteLocalRef obj, s => obj ∈ s.locals
  | _, .deleteGlobalRef obj, s => obj ∈ s.globals
  | _, .getStaticMethodID cls _ _, s =>
    s.pending = false ∧ s.Live cls ∧ ∃ name, s.value cls = .cls name
  | _, .callStaticVoidMethod cls method args, s =>
    s.pending = false ∧ Invokes s cls method args (ascii "V")
  | _, .callStaticIntMethod cls method args, s =>
    s.pending = false ∧ Invokes s cls method args (ascii "I")
  | _, .callStaticObjectMethod cls method args, s =>
    s.pending = false ∧ ∃ v : Value, Invokes s cls method args v.descriptor
  | _, .getArrayLength arr, s => s.pending = false ∧ s.Live arr ∧ (s.value arr).length.isSome
  | _, .getByteArrayRegion arr start len buf, s =>
    s.pending = false ∧ s.Live arr ∧ buf ∈ s.blocks ∧ len ≤ buf.size ∧
      ∃ elems, s.value arr = .bytes elems ∧ start + len ≤ elems.length
  | _, .exceptionCheck, _ => True
  | _, .exceptionDescribe, _ => True
  | _, .exceptionClear, _ => True
  | _, .malloc _, _ => True
  | _, .free b, s => b ∈ s.blocks
  | _, .fill b contents, s => b ∈ s.blocks ∧ contents.size ≤ b.size

/-- A request that makes something may fail, and mostly leaves an exception then. -/
def may : {R : Type} → Fn R → State → R → State → Prop
  | _, .make what, s, r, t =>
    match r with
    | none => ∃ p, t = s.fail p
    | some r => ¬s.Live r ∧ t = s.addLocal r what.value
  | _, .write arr what, s, _, t =>
    ∃ v, what.after s (s.value arr) = some v ∧ t = s.setValue arr v
  | _, .newGlobalRef obj, s, r, t =>
    match r with
    | none => ∃ p, t = s.fail p
    | some r => ¬s.Live r ∧ t = s.addGlobal r (s.value obj)
  | _, .deleteLocalRef obj, s, _, t => t = s.dropLocal obj
  | _, .deleteGlobalRef obj, s, _, t => t = s.dropGlobal obj
  | _, .getStaticMethodID cls name signature, s, m, t =>
    match m with
    | none => ∃ p, t = s.fail p
    | some m => s.value cls = .cls m.cls ∧ m.name = name ∧ m.signature = signature ∧ t = s
  | _, .callStaticVoidMethod _ method args, s, _, t =>
    Called s method args .threw t ∨ Called s method args .void t
  | _, .callStaticIntMethod _ method args, s, i, t =>
    Called s method args .threw t ∨ Called s method args (.int i) t
  | _, .callStaticObjectMethod _ method args, s, r, t =>
    match r with
    | none => Called s method args .threw t ∨ Called s method args .null t
    | some r => ¬s.Live r ∧ ∃ v t', Called s method args (.object v) t' ∧
        method.signature = methodDescriptor (args.map (Arg.given s)) v.descriptor ∧
        t = t'.addLocal r v
  | _, .getArrayLength arr, s, n, t => (s.value arr).length = some n ∧ t = s
  | _, .getByteArrayRegion arr start len buf, s, _, t =>
    ∃ elems, s.value arr = .bytes elems ∧ t = s.setStored buf (.bytes ((elems.drop start).take len))
  | _, .exceptionCheck, s, b, t => b = s.pending ∧ t = s
  | _, .exceptionDescribe, s, _, t => t = s ∨ t = s.clear
  | _, .exceptionClear, s, _, t => t = s.clear
  | _, .malloc size, s, b, t =>
    match b with
    | none => t = s.fail s.pending
    | some b => b.size = size ∧ (∀ c ∈ s.blocks, c.addr ≠ b.addr) ∧ t = s.addBlock b
  | _, .free b, s, _, t => t = s.dropBlock b
  | _, .fill b contents, s, _, t => t = s.setStored b contents

def jvm : Environment Fn State := ⟨legal, may⟩

/-- A method may always throw. -/
theorem exists_threw (s : State) (method : MethodId) (args : List Arg) :
    ∃ t, Called s method args .threw t := by
  refine ⟨{ s with pending := true, failed := true, invocations := _ }, rfl, rfl,
    fun r => Value.Like.refl _, rfl, rfl, rfl, ?_, rfl, rfl⟩
  rw [decide_eq_true rfl, Bool.or_true, Bool.true_or]

theorem jvm_answers {R : Type} (a : Fn R) (s : State) (h : jvm.legal a s) :
    ∃ r t, jvm.may a s r t := by
  cases a with
  | make what => exact ⟨none, _, false, rfl⟩
  | write arr what =>
    obtain ⟨v, hv⟩ := Option.isSome_iff_exists.mp h.2.2
    exact ⟨(), _, v, hv, rfl⟩
  | newGlobalRef obj => exact ⟨none, _, false, rfl⟩
  | deleteLocalRef obj => exact ⟨(), _, rfl⟩
  | deleteGlobalRef obj => exact ⟨(), _, rfl⟩
  | getStaticMethodID cls name signature => exact ⟨none, _, false, rfl⟩
  | callStaticVoidMethod cls method args =>
    obtain ⟨t, ht⟩ := exists_threw s method args
    exact ⟨(), t, .inl ht⟩
  | callStaticIntMethod cls method args =>
    obtain ⟨t, ht⟩ := exists_threw s method args
    exact ⟨0, t, .inl ht⟩
  | callStaticObjectMethod cls method args =>
    obtain ⟨t, ht⟩ := exists_threw s method args
    exact ⟨none, t, .inl ht⟩
  | getArrayLength arr =>
    obtain ⟨n, hn⟩ := Option.isSome_iff_exists.mp h.2.2
    exact ⟨n, _, hn, rfl⟩
  | getByteArrayRegion arr start len buf =>
    obtain ⟨_, _, _, _, elems, harr, _⟩ := h
    exact ⟨(), _, elems, harr, rfl⟩
  | exceptionCheck => exact ⟨_, _, rfl, rfl⟩
  | exceptionDescribe => exact ⟨(), _, .inl rfl⟩
  | exceptionClear => exact ⟨(), _, rfl⟩
  | malloc size => exact ⟨none, _, rfl⟩
  | free b => exact ⟨(), _, rfl⟩
  | fill b contents => exact ⟨(), _, rfl⟩

/-! ## The rules -/

theorem methodDescriptor_inj {given : List Given} {ret ret' : List UInt8}
    (h : methodDescriptor given ret = methodDescriptor given ret') : ret = ret' :=
  List.append_cancel_left h

section

variable {s : State}

theorem wp_make {what : Make} {Q : Option Ref → State → Prop} (hpending : s.pending = false)
    (hlegal : what.Legal s) (hfail : ∀ p, Q none (s.fail p))
    (hmade : ∀ r, ¬s.Live r → Q (some r) (s.addLocal r what.value)) :
    Wp jvm s (call (.make what)) Q := by
  refine wp_call.mpr ⟨⟨hpending, hlegal⟩, fun r t hmay => ?_⟩
  cases r with
  | none =>
    obtain ⟨p, rfl⟩ := hmay
    exact hfail p
  | some r =>
    obtain ⟨hfresh, rfl⟩ := hmay
    exact hmade r hfresh

theorem wp_write {arr : Ref} {what : Write} {v : Value} {Q : Unit → State → Prop}
    (hpending : s.pending = false) (hlive : s.Live arr)
    (hafter : what.after s (s.value arr) = some v) (h : Q () (s.setValue arr v)) :
    Wp jvm s (call (.write arr what)) Q := by
  refine wp_call.mpr ⟨⟨hpending, hlive, hafter ▸ rfl⟩, fun _ t hmay => ?_⟩
  obtain ⟨w, hw, rfl⟩ := hmay
  rw [hafter] at hw
  cases hw
  exact h

theorem wp_newGlobalRef {obj : Ref} {Q : Option Ref → State → Prop}
    (hpending : s.pending = false) (hlive : s.Live obj) (hfail : ∀ p, Q none (s.fail p))
    (hmade : ∀ r, ¬s.Live r → Q (some r) (s.addGlobal r (s.value obj))) :
    Wp jvm s (call (.newGlobalRef obj)) Q := by
  refine wp_call.mpr ⟨⟨hpending, hlive⟩, fun r t hmay => ?_⟩
  cases r with
  | none =>
    obtain ⟨p, rfl⟩ := hmay
    exact hfail p
  | some r =>
    obtain ⟨hfresh, rfl⟩ := hmay
    exact hmade r hfresh

theorem wp_deleteLocalRef {obj : Ref} {Q : Unit → State → Prop} (hmem : obj ∈ s.locals)
    (h : Q () (s.dropLocal obj)) : Wp jvm s (call (.deleteLocalRef obj)) Q :=
  wp_call.mpr ⟨hmem, fun _ _ hmay => hmay ▸ h⟩

theorem wp_deleteGlobalRef {obj : Ref} {Q : Unit → State → Prop} (hmem : obj ∈ s.globals)
    (h : Q () (s.dropGlobal obj)) : Wp jvm s (call (.deleteGlobalRef obj)) Q :=
  wp_call.mpr ⟨hmem, fun _ _ hmay => hmay ▸ h⟩

theorem wp_getStaticMethodID {cls : Ref} {clsName name signature : List UInt8}
    {Q : Option MethodId → State → Prop} (hpending : s.pending = false) (hlive : s.Live cls)
    (hcls : s.value cls = .cls clsName) (hfail : ∀ p, Q none (s.fail p))
    (hfound : Q (some ⟨clsName, name, signature⟩) s) :
    Wp jvm s (call (.getStaticMethodID cls name signature)) Q := by
  refine wp_call.mpr ⟨⟨hpending, hlive, clsName, hcls⟩, fun m t hmay => ?_⟩
  cases m with
  | none =>
    obtain ⟨p, rfl⟩ := hmay
    exact hfail p
  | some m =>
    obtain ⟨hname, rfl, rfl, rfl⟩ := hmay
    rw [hcls] at hname
    cases hname
    exact hfound

theorem wp_callStaticVoidMethod {cls : Ref} {method : MethodId} {args : List Arg}
    {Q : Unit → State → Prop} (hpending : s.pending = false)
    (hinvokes : Invokes s cls method args (ascii "V"))
    (hthrew : ∀ t, Called s method args .threw t → Q () t)
    (hreturned : ∀ t, Called s method args .void t → Q () t) :
    Wp jvm s (call (.callStaticVoidMethod cls method args)) Q := by
  refine wp_call.mpr ⟨⟨hpending, hinvokes⟩, fun _ t hmay => ?_⟩
  rcases hmay with hcalled | hcalled
  · exact hthrew t hcalled
  · exact hreturned t hcalled

theorem wp_callStaticIntMethod {cls : Ref} {method : MethodId} {args : List Arg}
    {Q : Int32 → State → Prop} (hpending : s.pending = false)
    (hinvokes : Invokes s cls method args (ascii "I"))
    (hthrew : ∀ i t, Called s method args .threw t → Q i t)
    (hreturned : ∀ i t, Called s method args (.int i) t → Q i t) :
    Wp jvm s (call (.callStaticIntMethod cls method args)) Q := by
  refine wp_call.mpr ⟨⟨hpending, hinvokes⟩, fun i t hmay => ?_⟩
  rcases hmay with hcalled | hcalled
  · exact hthrew i t hcalled
  · exact hreturned i t hcalled

/-- A method that returns a byte array. -/
theorem wp_callStaticObjectMethod {cls : Ref} {method : MethodId} {args : List Arg}
    {Q : Option Ref → State → Prop} (hpending : s.pending = false)
    (hinvokes : Invokes s cls method args (ascii "[B"))
    (hnone : ∀ outcome t, outcome = .threw ∨ outcome = .null → Called s method args outcome t →
      Q none t)
    (hreturned : ∀ r bs t, ¬s.Live r → Called s method args (.object (.bytes bs)) t →
      Q (some r) (t.addLocal r (.bytes bs))) :
    Wp jvm s (call (.callStaticObjectMethod cls method args)) Q := by
  refine wp_call.mpr ⟨⟨hpending, .bytes [], hinvokes⟩, fun r t hmay => ?_⟩
  cases r with
  | none =>
    rcases hmay with hcalled | hcalled
    · exact hnone _ t (.inl rfl) hcalled
    · exact hnone _ t (.inr rfl) hcalled
  | some r =>
    obtain ⟨hfresh, v, t', hcalled, hsignature, rfl⟩ := hmay
    have hdescriptor := methodDescriptor_inj (hsignature.symm.trans hinvokes.signature)
    obtain ⟨bs, rfl⟩ := Value.bytes_of_descriptor hdescriptor
    exact hreturned r bs t' hfresh hcalled

theorem wp_getArrayLength {arr : Ref} {bs : List UInt8} {Q : Nat → State → Prop}
    (hpending : s.pending = false) (hlive : s.Live arr) (harr : s.value arr = .bytes bs)
    (h : Q bs.length s) : Wp jvm s (call (.getArrayLength arr)) Q := by
  have hlength : (s.value arr).length = some bs.length := by rw [harr]; rfl
  refine wp_call.mpr ⟨⟨hpending, hlive, hlength ▸ rfl⟩, fun n t hmay => ?_⟩
  obtain ⟨hn, rfl⟩ := hmay
  rw [hlength] at hn
  cases hn
  exact h

theorem wp_getByteArrayRegion {arr : Ref} {bs : List UInt8} {buf : Block} {Q : Unit → State → Prop}
    (hpending : s.pending = false) (hlive : s.Live arr) (harr : s.value arr = .bytes bs)
    (hbuf : buf ∈ s.blocks) (hsize : buf.size = bs.length)
    (h : Q () (s.setStored buf (.bytes bs))) :
    Wp jvm s (call (.getByteArrayRegion arr 0 bs.length buf)) Q := by
  refine wp_call.mpr ⟨⟨hpending, hlive, hbuf, hsize.ge, bs, harr, (Nat.zero_add _).le⟩,
    fun _ t hmay => ?_⟩
  obtain ⟨elems, helems, rfl⟩ := hmay
  rw [harr] at helems
  cases helems
  rw [List.drop_zero, List.take_length]
  exact h

theorem wp_exceptionCheck {Q : Bool → State → Prop} (h : Q s.pending s) :
    Wp jvm s (call .exceptionCheck) Q := by
  refine wp_call.mpr ⟨trivial, fun b t hmay => ?_⟩
  obtain ⟨rfl, rfl⟩ := hmay
  exact h

theorem wp_exceptionClear {Q : Unit → State → Prop} (h : Q () s.clear) :
    Wp jvm s (call .exceptionClear) Q :=
  wp_call.mpr ⟨trivial, fun _ _ hmay => hmay ▸ h⟩

theorem wp_exceptionDescribe {Q : Unit → State → Prop} (h : Q () s) (hclear : Q () s.clear) :
    Wp jvm s (call .exceptionDescribe) Q := by
  refine wp_call.mpr ⟨trivial, fun _ t hmay => ?_⟩
  rcases hmay with rfl | rfl
  · exact h
  · exact hclear

theorem wp_malloc {size : Nat} {Q : Option Block → State → Prop}
    (hfail : Q none (s.fail s.pending))
    (hmade : ∀ b, b.size = size → (∀ c ∈ s.blocks, c.addr ≠ b.addr) → Q (some b) (s.addBlock b)) :
    Wp jvm s (call (.malloc size)) Q := by
  refine wp_call.mpr ⟨trivial, fun b t hmay => ?_⟩
  cases b with
  | none => exact hmay ▸ hfail
  | some b =>
    obtain ⟨hsize, hfresh, rfl⟩ := hmay
    exact hmade b hsize hfresh

theorem wp_free {b : Block} {Q : Unit → State → Prop} (hmem : b ∈ s.blocks)
    (h : Q () (s.dropBlock b)) : Wp jvm s (call (.free b)) Q :=
  wp_call.mpr ⟨hmem, fun _ _ hmay => hmay ▸ h⟩

theorem wp_fill {b : Block} {contents : Value} {Q : Unit → State → Prop} (hmem : b ∈ s.blocks)
    (hsize : contents.size ≤ b.size) (h : Q () (s.setStored b contents)) :
    Wp jvm s (call (.fill b contents)) Q :=
  wp_call.mpr ⟨⟨hmem, hsize⟩, fun _ _ hmay => hmay ▸ h⟩

end

/-! ## Static variables -/

/-- A function that makes and releases nothing but the global references of static variables. -/
structure Refreshed (s : State) (before after : Multiset Ref) (t : State) : Prop where
  locals : t.locals = s.locals
  globals : ∃ others, s.globals = before + others ∧ t.globals = after + others
  value : ∀ r, s.Live r → t.value r = s.value r
  blocks : t.blocks = s.blocks
  stored : t.stored = s.stored
  invocations : t.invocations = s.invocations

namespace Refreshed

variable {s t : State} {before after : Multiset Ref} {g : Ref}

theorem refl (h : before ≤ s.globals) : Refreshed s before before s := by
  obtain ⟨others, hothers⟩ := Multiset.le_iff_exists_add.mp h
  exact ⟨rfl, ⟨others, hothers, hothers⟩, fun _ _ => rfl, rfl, rfl, rfl⟩

theorem mem (h : Refreshed s before {g} t) : g ∈ t.globals := by
  obtain ⟨others, -, hafter⟩ := h.globals
  rw [hafter]
  exact Multiset.mem_add.mpr (.inl (Multiset.mem_singleton_self g))

theorem dropGlobal (h : Refreshed s before {g} t) : Refreshed s before 0 (t.dropGlobal g) := by
  obtain ⟨others, hbefore, hafter⟩ := h.globals
  refine ⟨h.locals, ⟨others, hbefore, ?_⟩, h.value, h.blocks, h.stored, h.invocations⟩
  rw [State.dropGlobal_globals, hafter, Multiset.singleton_add, Multiset.erase_cons_head, zero_add]

theorem fail (h : Refreshed s before after t) (pending : Bool) :
    Refreshed s before after (t.fail pending) :=
  ⟨h.locals, h.globals, h.value, h.blocks, h.stored, h.invocations⟩

theorem clear (h : Refreshed s before after t) : Refreshed s before after t.clear :=
  ⟨h.locals, h.globals, h.value, h.blocks, h.stored, h.invocations⟩

end Refreshed

/-- What a function leaves: the references of its caller, the global references of static
variables, and what it made. -/
structure Leaves (s : State) (before after : Multiset Ref) (made : Multiset Block) (t : State) :
    Prop where
  locals : t.locals = s.locals
  globals : ∃ others, s.globals = before + others ∧ t.globals = after + others ∧
    ∀ r ∈ others, ∀ name, s.value r = .cls name → t.value r = .cls name
  blocks : t.blocks = made + s.blocks
  pending : t.pending = true → t.refused = true

theorem Refreshed.leaves {s t : State} {before after : Multiset Ref}
    (h : Refreshed s before after t) (hpending : t.pending = true → t.refused = true) :
    Leaves s before after 0 t := by
  obtain ⟨others, hbefore, hafter⟩ := h.globals
  refine ⟨h.locals, ⟨others, hbefore, hafter, fun r hr name hname => ?_⟩,
    h.blocks.trans (zero_add _).symm, hpending⟩
  have hlive : s.Live r := .inr (hbefore ▸ Multiset.mem_add.mpr (.inr hr))
  exact (h.value r hlive).trans hname

/-- `if (ExceptionCheck) ExceptionClear`. -/
def clearException : Script Fn Unit := do
  if ← call .exceptionCheck then call .exceptionClear else pure ()

/-- A global reference in place of a local one. -/
def newGlobalClass (localClass : Ref) : Script Fn (Option Ref) := do
  let made ← call (.newGlobalRef localClass)
  call (.deleteLocalRef localClass)
  pure made

section

variable {s : State}

theorem wp_clearException {Q : Unit → State → Prop} (h : Q () s.clear) :
    Wp jvm s clearException Q := by
  refine wp_bind.mpr (wp_exceptionCheck (wp_ite (fun _ => wp_exceptionClear h) fun hpending => ?_))
  rw [wp_pure]
  rwa [State.clear_eq_self (Bool.eq_false_iff.mpr hpending)] at h

theorem wp_newGlobalClass {localClass : Ref} {name : List UInt8} {Q : Option Ref → State → Prop}
    (hpending : s.pending = false) (hnew : ¬s.Live localClass)
    (hfail : ∀ t, Refreshed s 0 0 t → t.failed = true → t.refused = true → Q none t)
    (hmade : ∀ g t, Refreshed s 0 {g} t → t.pending = false → t.value g = .cls name →
      Q (some g) t) :
    Wp jvm (s.addLocal localClass (.cls name)) (newGlobalClass localClass) Q := by
  have hlocals : (localClass ::ₘ s.locals).erase localClass = s.locals :=
    Multiset.erase_cons_head _ _
  have hvalue {r : Ref} (hr : s.Live r) : (s.addLocal localClass (.cls name)).value r = s.value r :=
    State.value_addLocal_of_live hnew hr
  refine wp_bind.mpr (wp_newGlobalRef hpending State.live_addLocal (fun p => ?_) fun g hg => ?_)
  · refine wp_bind.mpr (wp_deleteLocalRef (Multiset.mem_cons_self _ _) (hfail _ ?_ rfl rfl))
    exact ⟨hlocals, ⟨s.globals, (zero_add _).symm, (zero_add _).symm⟩, fun r hr => hvalue hr,
      rfl, rfl, rfl⟩
  · refine wp_bind.mpr (wp_deleteLocalRef (Multiset.mem_cons_self _ _) (hmade g _ ?_ hpending ?_))
    · exact ⟨hlocals, ⟨s.globals, (zero_add _).symm, rfl⟩,
        fun r hr => (State.value_addGlobal_of_live hg hr.addLocal).trans (hvalue hr), rfl, rfl, rfl⟩
    · exact State.value_addGlobal_self.trans State.value_addLocal_self

end

end JautoProf.Jni
