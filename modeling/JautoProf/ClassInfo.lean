import JautoProf.HashTab
import JautoProf.Util

/-!
# The loaded classes (`class-info.c`, `class-info-list.c`)

`ClassInfo` is `struct class_info`: the bytecode of the class as it was loaded, and the
instruments that the next transformation puts in it. The list of the loaded classes is a
hash table over the class name; it keeps one class per name.

Results:
1. `ciListAdd_cases`: an addition fails and changes nothing, or adds a class with no
   instruments, or replaces one and takes its instruments over.
-/

namespace JautoProf

/-- `struct instrumented_method`. -/
structure InstrumentedMethod where
  methodSig : Option Pstring
  profilerId : Int
  instrumentId : Nat
deriving DecidableEq

/-- `enum instrument_type`. -/
inductive InstrumentType
  | enter
  | exit
deriving DecidableEq

/-- `struct instrumented_line`. -/
structure InstrumentedLine where
  lineNumber : UInt32
  profilerId : Int
  instrumentId : Nat
  type : InstrumentType
deriving DecidableEq

/-- `struct class_info`; a loader is a name for the object, `none` the bootstrap loader. -/
structure ClassInfo where
  name : Pstring
  bytecode : List UInt8
  loader : Option Nat
  methods : List Pstring
  instrumented : List InstrumentedMethod
  lines : List InstrumentedLine
deriving DecidableEq

def InstrumentedMethod.hasSig (s : CStr) (m : InstrumentedMethod) : Bool :=
  decide (m.methodSig.map Pstring.cstr = some s)

def InstrumentedLine.hasLine (l : UInt32) (r : InstrumentedLine) : Bool := decide (r.lineNumber = l)

/-- The class info that `ci_alloc` makes. -/
def ciAlloc (name : Pstring) (bytecode : List UInt8) (methods : List Pstring)
    (loader : Option Nat) : ClassInfo :=
  ⟨name, bytecode, loader, methods, [], []⟩

/-- The profiler id that `ci_remove_instrumented_by_sig` returns. -/
def ciInstrumentedBySig (ci : ClassInfo) (s : CStr) : Int :=
  match ci.instrumented.find? (·.hasSig s) with
  | some m => m.profilerId
  | none => -1

/-- `ci_remove_instrumented_by_sig`. -/
def ciRemoveInstrumentedBySig (s : CStr) (ci : ClassInfo) : ClassInfo :=
  { ci with instrumented := ci.instrumented.eraseP (·.hasSig s) }

/-- `ci_add_instrumented_line`. -/
def ciAddInstrumentedLine (r : InstrumentedLine) (ci : ClassInfo) : ClassInfo :=
  { ci with lines := ci.lines ++ [r] }

/-- `instrumented_method_list_add_and_init`, and the id that its caller sets. -/
def ciAddInstrumentedMethod (m : InstrumentedMethod) (ci : ClassInfo) : ClassInfo :=
  { ci with instrumented := ci.instrumented ++ [m] }

/-- `ci->instrumented.len--`. -/
def ciDropInstrumentedMethod (ci : ClassInfo) : ClassInfo :=
  { ci with instrumented := ci.instrumented.dropLast }

/-- The profiler id that `ci_remove_instrumented_line` returns: that of the first record
with the line number, whatever its instrument and type. -/
def ciInstrumentedLine (ci : ClassInfo) (l : UInt32) : Int :=
  match ci.lines.find? (·.hasLine l) with
  | some r => r.profilerId
  | none => -1

/-- `ci_remove_instrumented_line`. -/
def ciRemoveInstrumentedLine (l : UInt32) (ci : ClassInfo) : ClassInfo :=
  { ci with lines := ci.lines.eraseP (·.hasLine l) }

/-- `ci_steal_instruments`. -/
def ciStealInstruments (dst src : ClassInfo) : ClassInfo :=
  { dst with instrumented := src.instrumented, lines := src.lines }

/-- `ci_clear_instruments`. -/
def ciClearInstruments (ci : ClassInfo) : ClassInfo := { ci with instrumented := [], lines := [] }

/-! ## The list of the loaded classes -/

/-- The options of `hash_tab_init(NULL)`. -/
def classTabOpts : HashTabOpts CStr where
  capInit := hashtabCapDefault
  rehashThresh := hashtabThreshDefault
  hashFunc := hashtabDefaultHash
  cap_pos := hashtabCapDefault_pos

/-- `struct class_info_list`. -/
abbrev ClassInfoList := Table classTabOpts ClassInfo

/-- `CI_LIST_ADD_OK`, `CI_LIST_ADD_DUPLICATE` and `CI_LIST_ADD_ERR`. -/
inductive CiListAdd
  | ok
  | duplicate
  | err
deriving DecidableEq

/-- What `ci_list_add` returns. -/
def ciListAddResult (l : ClassInfoList) (ci : ClassInfo) (keyOk tabOk : Bool) : CiListAdd :=
  let r := l.addResult ci.name.cstr ci keyOk tabOk
  match r.prev with
  | some _ => .duplicate
  | none => if r.err then .err else .ok

/-- The list after `ci_list_add`. -/
def ciListAdd (l : ClassInfoList) (ci : ClassInfo) (keyOk tabOk : Bool) : ClassInfoList :=
  let r := l.addResult ci.name.cstr ci keyOk tabOk
  let l' := l.add ci.name.cstr ci keyOk tabOk
  match r.prev with
  | some old => l'.modify ci.name.cstr (ciStealInstruments · old)
  | none => l'

/-- `ci_list_find_by_name`. -/
def ciListFindByName (l : ClassInfoList) (name : CStr) : Option ClassInfo := l.lookup name

theorem ciListAdd_cases (l : ClassInfoList) (ci : ClassInfo) (keyOk tabOk : Bool) :
    (ciListAddResult l ci keyOk tabOk = .err ∧ ciListAdd l ci keyOk tabOk = l) ∨
      (ciListAddResult l ci keyOk tabOk = .ok ∧ l.lookup ci.name.cstr = none ∧
        ∀ c, (ciListAdd l ci keyOk tabOk).lookup c = if c = ci.name.cstr then some ci else l.lookup c) ∨
      (∃ old, ciListAddResult l ci keyOk tabOk = .duplicate ∧ l.lookup ci.name.cstr = some old ∧
        ∀ c, (ciListAdd l ci keyOk tabOk).lookup c =
          if c = ci.name.cstr then some (ciStealInstruments ci old) else l.lookup c) := by
  rcases l.valid.add ci.name.cstr ci keyOk tabOk with hfail | ⟨hok, -, -⟩
  · have hr : l.addResult ci.name.cstr ci keyOk tabOk = ⟨true, none⟩ := congrArg Prod.fst hfail
    have hl : l.add ci.name.cstr ci keyOk tabOk = l := Table.add_of_err (by rw [hr])
    exact .inl ⟨by simp [ciListAddResult, hr], by simp [ciListAdd, hr, hl]⟩
  · have hr : l.addResult ci.name.cstr ci keyOk tabOk = ⟨false, l.lookup ci.name.cstr⟩ := hok
    have hl : ∀ c, (l.add ci.name.cstr ci keyOk tabOk).lookup c =
        if c = ci.name.cstr then some ci else l.lookup c := Table.lookup_add (by rw [hr])
    cases hold : l.lookup ci.name.cstr with
    | none =>
      refine .inr (.inl ⟨by simp [ciListAddResult, hr, hold], rfl, fun c => ?_⟩)
      simp only [ciListAdd, hr, hold]
      exact hl c
    | some old =>
      refine .inr (.inr ⟨old, by simp [ciListAddResult, hr, hold], rfl, fun c => ?_⟩)
      simp only [ciListAdd, hr, hold, Table.lookup_modify, hl]
      split <;> rfl

theorem ciListAddResult_ne_err (l : ClassInfoList) (ci : ClassInfo) :
    ciListAddResult l ci true true ≠ .err := by
  unfold ciListAddResult
  simp only [Table.addResult_err]
  split <;> simp

end JautoProf
