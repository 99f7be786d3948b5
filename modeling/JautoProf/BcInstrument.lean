import JautoProf.Jni

/-!
# Instrumenting the bytecode of a class (`jni/bc-instrument.c`)

`bc_instrument_method` hands a class and its instruments to the transformer in Java, in arrays that
it makes for the call, and copies what comes back. Its local references and its buffer are
variables, and each failure goes to the clean-up, which releases those that are set.

Results:
1. `wp_bcInstrumentInitRefs`: its calls are legal, and the references to the transformer are set
   together or not at all.
-/

namespace JautoProf.Jni

open Script Body

/-! ## The references to the transformer -/

/-- `TRANSFORMER_CLASS`. -/
def transformerClassName : List UInt8 := ascii "app/autoprofiler/transform/BytecodeTransformer"

/-- `TRANSFORM_SIG`. -/
def transformSig : List UInt8 := ascii "([B[Ljava/lang/String;[I[I[I[I)[B"

/-- `transformer_class` and `transform_method`; between calls either both are set or none. -/
structure TransformerRefs where
  transformerClass : Ref
  transformMethod : MethodId

/-- `bc_instrument_init_refs`; it succeeds if the references are set after it. -/
def bcInstrumentInitRefs : Option TransformerRefs → Script Fn (Option TransformerRefs)
  | some refs => pure (some refs)
  | none => do
    match ← call (.make (.findClass transformerClassName)) with
    | none => do
      clearException
      pure none
    | some localClass => do
      match ← newGlobalClass localClass with
      | none => pure none
      | some transformerClass => do
        match ← call (.getStaticMethodID transformerClass (ascii "transform") transformSig) with
        | some transformMethod => pure (some ⟨transformerClass, transformMethod⟩)
        | none => do
          clearException
          call (.deleteGlobalRef transformerClass)
          pure none

/-! ## The variables -/

/-- The local references, in the order in which the clean-up deletes them. -/
inductive Var
  | stringClass
  | inputArr
  | jSigs
  | jIds
  | jLineNums
  | jLineTypes
  | jLineIds
  | resultArr
deriving DecidableEq

def Var.all : List Var :=
  [.stringClass, .inputArr, .jSigs, .jIds, .jLineNums, .jLineTypes, .jLineIds, .resultArr]

structure Locals where
  ref : Var → Option Ref
  idsBuf : Option Block
  /-- `out`, with the length that goes to `new_len_out` -/
  out : Option (Block × Nat)

namespace Locals

variable (v : Locals)

@[simps] def assign (x : Var) (r : Ref) : Locals :=
  { v with ref := Function.update v.ref x (some r) }

@[simps] def setIdsBuf (b : Option Block) : Locals := { v with idsBuf := b }

@[simps] def setOut (b : Block) (len : Nat) : Locals := { v with out := some (b, len) }

end Locals

/-! ## The body -/

/-- `struct class_instrument_params`, as far as it is passed on. The arrays of the methods have
`count` elements, those of the lines `line_count`. -/
structure ClassInstrumentParams where
  classData : List UInt8
  methodSigs : List CStr
  profilerIds : List Int32
  lineNumbers : List Int32
  lineTypes : List Int32
  lineProfilerIds : List Int32
  length_profilerIds : profilerIds.length = methodSigs.length
  length_lineTypes : lineTypes.length = lineNumbers.length
  length_lineProfilerIds : lineProfilerIds.length = lineNumbers.length

namespace ClassInstrumentParams

variable (p : ClassInstrumentParams)

def count : Nat := p.methodSigs.length

def lineCount : Nat := p.lineNumbers.length

/-- What the transformer is given. -/
def given : List Given :=
  [.object (.bytes p.classData), .object (.strings (p.methodSigs.map fun sig => some sig.val)),
    .object (.ints p.profilerIds), .object (.ints p.lineNumbers), .object (.ints p.lineTypes),
    .object (.ints p.lineProfilerIds)]

end ClassInstrumentParams

/-- A new reference for a variable, or the clean-up. -/
def makeVar (x : Var) (what : Make) : Body Fn Locals Ref := do
  match ← lift (call (.make what)) with
  | none => giveUp
  | some r => do
    modify (·.assign x r)
    pure r

/-- The loop that stores the signatures, from the index. -/
def storeSigs (jSigs : Ref) : Nat → List CStr → Body Fn Locals Unit
  | _, [] => pure ()
  | i, sig :: sigs => do
    match ← lift (call (.make (.newStringUTF sig))) with
    | none => giveUp
    | some s => do
      lift (call (.write jSigs (.setObjectArrayElement i s)))
      lift (call (.deleteLocalRef s))
      storeSigs jSigs (i + 1) sigs

/-- `ids_buf = malloc(count * sizeof(jint))`. -/
def allocIdsBuf (count : Nat) : Body Fn Locals Block := do
  match ← lift (call (.malloc (count * 4))) with
  | none => giveUp
  | some b => do
    modify (·.setIdsBuf (some b))
    pure b

def freeIdsBuf (b : Block) : Body Fn Locals Unit := do
  lift (call (.free b))
  modify (·.setIdsBuf none)

/-- The loop that fills `ids_buf`, and `SetIntArrayRegion`. -/
def storeInts (arr : Ref) (b : Block) (xs : List Int32) : Body Fn Locals Unit := do
  lift (call (.fill b (.ints xs)))
  lift (call (.write arr (.setIntArrayRegion 0 xs.length b)))

section

variable (p : ClassInstrumentParams)

def passClassData : Body Fn Locals Ref := do
  let inputArr ← makeVar .inputArr (.newByteArray p.classData.length)
  lift (call (.write inputArr (.setByteArrayRegion 0 p.classData.length p.classData)))
  pure inputArr

/-- `j_sigs` and `j_ids`. -/
def passMethods (stringClass : Ref) : Body Fn Locals (Ref × Ref) := do
  let jSigs ← makeVar .jSigs (.newObjectArray p.count stringClass)
  storeSigs jSigs 0 p.methodSigs
  let jIds ← makeVar .jIds (.newIntArray p.count)
  let idsBuf ← allocIdsBuf p.count
  storeInts jIds idsBuf p.profilerIds
  freeIdsBuf idsBuf
  pure (jSigs, jIds)

def storeLines (jLineNums jLineTypes jLineIds : Ref) : Body Fn Locals Unit :=
  if 0 < p.lineCount then do
    let idsBuf ← allocIdsBuf p.lineCount
    storeInts jLineNums idsBuf p.lineNumbers
    storeInts jLineTypes idsBuf p.lineTypes
    storeInts jLineIds idsBuf p.lineProfilerIds
    freeIdsBuf idsBuf
  else pure ()

/-- `j_line_nums`, `j_line_types` and `j_line_ids`. -/
def passLines : Body Fn Locals (Ref × Ref × Ref) := do
  let jLineNums ← makeVar .jLineNums (.newIntArray p.lineCount)
  let jLineTypes ← makeVar .jLineTypes (.newIntArray p.lineCount)
  let jLineIds ← makeVar .jLineIds (.newIntArray p.lineCount)
  storeLines p jLineNums jLineTypes jLineIds
  pure (jLineNums, jLineTypes, jLineIds)

/-- The checks of what the transformer returned; an exception is printed and cleared. -/
def checkResult (result : Option Ref) : Body Fn Locals Ref := do
  if ← lift (call .exceptionCheck) then do
    lift (call .exceptionDescribe)
    lift (call .exceptionClear)
    giveUp
  else
    match result with
    | none => giveUp
    | some r => pure r

/-- `result_arr`. -/
def transform (refs : TransformerRefs) (args : List Ref) : Body Fn Locals Ref := do
  let result ← lift (call (.callStaticObjectMethod refs.transformerClass refs.transformMethod
    (args.map .object)))
  modify fun v => { v with ref := Function.update v.ref .resultArr result }
  checkResult result

def copyResult (resultArr : Ref) : Body Fn Locals Unit := do
  let resultLen ← lift (call (.getArrayLength resultArr))
  match ← lift (call (.malloc resultLen)) with
  | none => giveUp
  | some out => do
    lift (call (.getByteArrayRegion resultArr 0 resultLen out))
    modify (·.setOut out resultLen)

def instrumentBody (refs : TransformerRefs) (stringClass : Ref) : Body Fn Locals Unit := do
  let inputArr ← passClassData p
  let methods ← passMethods p stringClass
  let lines ← passLines p
  let resultArr ← transform refs [inputArr, methods.1, methods.2, lines.1, lines.2.1, lines.2.2]
  copyResult resultArr

end

/-! ## The function -/

/-- `DeleteLocalRef` of those that are set, and `free`. -/
def cleanup (v : Locals) : Script Fn Unit := do
  releaseIf (fun b => call (.free b)) v.idsBuf
  releaseAll (fun r => call (.deleteLocalRef r)) v.ref Var.all

/-- The variables once `string_class` is set. -/
def Locals.init (stringClass : Ref) : Locals :=
  ⟨Function.update (fun _ => none) .stringClass (some stringClass), none, none⟩

/-- `bc_instrument_method`: the bytes and their number, and the references after it. -/
def bcInstrumentMethod (refs : Option TransformerRefs) (p : ClassInstrumentParams) :
    Script Fn (Option (Block × Nat) × Option TransformerRefs) :=
  if p.count = 0 ∧ p.lineCount = 0 then do
    match ← call (.malloc p.classData.length) with
    | none => pure (none, refs)
    | some copy => do
      call (.fill copy (.bytes p.classData))
      pure (some (copy, p.classData.length), refs)
  else do
    match ← bcInstrumentInitRefs refs with
    | none => pure (none, none)
    | some refs => do
      match ← call (.make (.findClass (ascii "java/lang/String"))) with
      | none => pure (none, some refs)
      | some stringClass => do
        let left ← instrumentBody p refs stringClass (.init stringClass)
        cleanup left.2
        pure (left.2.out, some refs)

/-! ## The references, proved -/

/-- The references are those of the class and the method that they are named after. -/
structure TransformerRefs.Valid (refs : TransformerRefs) (s : State) : Prop where
  mem : refs.transformerClass ∈ s.globals
  cls : s.value refs.transformerClass = .cls transformerClassName
  method : refs.transformMethod = ⟨transformerClassName, ascii "transform", transformSig⟩

theorem TransformerRefs.Valid.congr {refs : TransformerRefs} {s t : State} (h : refs.Valid s)
    (hglobals : t.globals = s.globals) (hvalue : t.value = s.value) : refs.Valid t :=
  ⟨hglobals ▸ h.mem, hvalue ▸ h.cls, h.method⟩

/-- The global references that the variables hold. -/
def TransformerRefs.held : Option TransformerRefs → Multiset Ref
  | some refs => {refs.transformerClass}
  | none => 0

/-- What `bc_instrument_init_refs` does to the state. -/
structure TransformerRefs.Set (s : State) (before after : Option TransformerRefs) (t : State) :
    Prop extends Refreshed s (held before) (held after) t where
  valid : ∀ refs ∈ after, refs.Valid t
  pending : after.isSome → t.pending = false
  failed : after = none → t.failed = true ∧ t.refused = true

variable {s t : State}

theorem TransformerRefs.held_le {refs : Option TransformerRefs} (h : ∀ r ∈ refs, r.Valid s) :
    held refs ≤ s.globals := by
  cases refs with
  | none => exact Multiset.zero_le _
  | some refs => exact Multiset.singleton_le.mpr (h refs rfl).mem

theorem TransformerRefs.set_none (h : Refreshed s 0 0 t) (hfailed : t.failed = true)
    (hrefused : t.refused = true) :
    TransformerRefs.Set s none none t :=
  { h with
    valid := fun _ h => absurd h (Option.not_mem_none _)
    pending := fun h => absurd h (by decide)
    failed := fun _ => ⟨hfailed, hrefused⟩ }

theorem wp_bcInstrumentInitRefs {refs : Option TransformerRefs} (hpending : s.pending = false)
    (hvalid : ∀ r ∈ refs, r.Valid s) :
    Wp jvm s (bcInstrumentInitRefs refs) (TransformerRefs.Set s refs) := by
  cases refs with
  | some refs =>
    have hrefl := Refreshed.refl (TransformerRefs.held_le hvalid)
    exact ⟨hrefl, hvalid, fun _ => hpending, fun h => absurd h (Option.some_ne_none _)⟩
  | none =>
    have hsame : Refreshed s 0 0 s := Refreshed.refl (Multiset.zero_le _)
    refine wp_bind.mpr (wp_make hpending trivial (fun p => ?_) fun l hl => ?_)
    · exact wp_bind.mpr (wp_clearException (TransformerRefs.set_none (hsame.fail p).clear rfl rfl))
    · refine wp_bind.mpr (wp_newGlobalClass hpending hl (fun t ht hfailed hrefused => ?_)
        fun g t ht hpending hcls => ?_)
      · exact TransformerRefs.set_none ht hfailed hrefused
      · refine wp_bind.mpr (wp_getStaticMethodID hpending (.inr ht.mem) hcls (fun p => ?_) ?_)
        · refine wp_bind.mpr (wp_clearException (wp_bind.mpr (wp_deleteGlobalRef ht.mem ?_)))
          exact TransformerRefs.set_none (ht.fail p).clear.dropGlobal rfl rfl
        · refine ⟨ht, fun refs hrefs => ?_, fun _ => hpending,
            fun h => absurd h (Option.some_ne_none _)⟩
          obtain rfl := Option.mem_some_iff.mp hrefs
          exact ⟨ht.mem, hcls, rfl⟩

end JautoProf.Jni
