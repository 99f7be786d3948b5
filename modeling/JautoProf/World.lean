import JautoProf.ClassInfo
import JautoProf.Lib.Prog
import JautoProf.MasterInstruments
import JautoProf.QueuedInstrument

/-!
# The state of the server and of the JVM under it

`World` is `struct instr_ctx` and the error log of the server, the slots of the Java
`ProfilerRegistry`, and the class versions of the JVM with the profiler calls deployed in
each. `Env` answers the calls whose outcome the server does not decide: allocations and
calls into the JVM, each numbered in the order the server makes them.

A `struct mi_entry *` is read through `deref`. A read after the entry left the master table
is counted in `staleReads` and yields an arbitrary entry. `staleReads`, `reports` and
`outdated` record what a run did, for the statements about it; no function reads them.
-/

namespace JautoProf

/-- The name that `ProfilerRegistry.create` gives a profiler. -/
inductive ProfilerName
  | method (className methodSig : CStr)
  | line (entryClass : CStr) (entryLine : UInt32)
deriving DecidableEq

/-- A `ProfilerEntry` of the registry; its profiler id is its index. -/
structure Slot where
  active : Bool
  instrumentId : Nat
  name : ProfilerName
deriving DecidableEq

/-- What the inserted call reports: `enter` and `exit` of a method, or one of `enterLine`
and `exitLine`. -/
inductive CallSite
  | method (methodSig : Option Pstring)
  | line (lineNumber : UInt32) (type : InstrumentType)
deriving DecidableEq

/-- A call into the registry that a transformation inserts. The registry is passed the
profiler id only; the instrument is recorded for the statements about it. -/
structure Call where
  site : CallSite
  profilerId : Int
  instrumentId : Nat
deriving DecidableEq

/-- Bytecode as a transformation makes it: the class file and the calls inserted in it. -/
structure Bytecode where
  base : List UInt8
  calls : List Call
deriving DecidableEq

/-- A loaded class version, with the calls in the code that is installed in it. -/
structure Version where
  name : CStr
  loader : Option Nat
  calls : List Call
deriving DecidableEq

/-- The calls into the JVM that may fail. -/
inductive JvmCall
  | createProfiler (instrumentId : Nat)
  | removeProfiler (profilerId : Int)
  | transform (classData : List UInt8) (instrumented : List InstrumentedMethod)
      (lines : List InstrumentedLine)
  | retransform (className : CStr) (loader : Option Nat) (newBc : Option Bytecode)
  | allocate

/-- The outcomes that the server does not decide, by the number of the call. -/
structure Env where
  alloc : Nat → Bool
  tabAlloc : Nat → Bool
  jvm : Nat → JvmCall → Bool
  time : Nat → Int
  extractMethods : List UInt8 → List Pstring
  garbage : Nat → MiEntry

/-- `struct pending_instrument`. -/
structure PendingInstrument where
  className : Option CStr
  methodSig : Option CStr
  bytecode : Option Bytecode
  profilerId : Int
deriving DecidableEq

/-- The value `retransform_pending` leaves behind. -/
def PendingInstrument.cleared : PendingInstrument := ⟨none, none, none, -1⟩

/-- `struct prof_err_entry`. -/
structure ProfErrEntry where
  timestamp : Int
  msg : Pstring
deriving DecidableEq

/-- `PROF_ERR_LOG_CAP`. -/
def profErrLogCap : Nat := 4096

/-- `do_push`, on the entries of the ring in order, oldest first. -/
def profErrLogPush (log : List ProfErrEntry) (e : ProfErrEntry) : List ProfErrEntry :=
  if log.length < profErrLogCap then log ++ [e] else log.tail ++ [e]

/-- A message about a deferred instrument that failed, recorded with the id of the
instrument for the statements about the log. -/
structure Report where
  instrumentId : Nat
  text : List UInt8
deriving DecidableEq

/-- `struct instr_ctx`, `struct prof_err_log` and the JVM. -/
structure World where
  loadedClasses : ClassInfoList
  queuedInstruments : List QueuedInstr
  masterInstruments : MasterInstruments
  pending : PendingInstrument
  errLog : List ProfErrEntry
  slots : List Slot
  versions : List Version
  allocs : Nat
  tabAllocs : Nat
  jvmCalls : Nat
  timeCalls : Nat
  staleReads : Nat
  reports : List Report
  /-- The classes that lost an installed record and were not installed again since. -/
  outdated : List CStr

/-- `ih_ctx_init`, with an empty registry and no class loaded. -/
def ihCtxInit : World where
  loadedClasses := .init classTabOpts
  queuedInstruments := []
  masterInstruments := miAlloc
  pending := .cleared
  errLog := []
  slots := []
  versions := []
  allocs := 0
  tabAllocs := 0
  jvmCalls := 0
  timeCalls := 0
  staleReads := 0
  reports := []
  outdated := []

/-- The programs of the server. -/
abbrev M := Prog World

/-- The entry under an id. -/
def World.entry (w : World) (id : Nat) : Option MiEntry := miFind w.masterInstruments id

/-- The class of a name. -/
def World.cls (w : World) (c : CStr) : Option ClassInfo := ciListFindByName w.loadedClasses c

variable (env : Env)

/-! ## Allocation and calls into the JVM -/

def malloc : M Bool := fun w => (env.alloc w.allocs, { w with allocs := w.allocs + 1 })

/-- The `calloc` of a larger hash table. -/
def tabCalloc : M Bool := fun w => (env.tabAlloc w.tabAllocs, { w with tabAllocs := w.tabAllocs + 1 })

def jvmCall (c : JvmCall) : M Bool :=
  fun w => (env.jvm w.jvmCalls c, { w with jvmCalls := w.jvmCalls + 1 })

def newPstring (s : CStr) : M (Option Pstring) := do
  let ok ← malloc env
  pure (pstringFromCstr s ok)

def dupPstring (p : Pstring) : M (Option Pstring) := do
  let ok ← malloc env
  pure (pstringDup p ok)

/-! ## The master table -/

/-- A read through a `struct mi_entry *`. -/
def deref (p : MiPtr) : M MiEntry := fun w =>
  match w.entry p with
  | some e => (e, w)
  | none => (env.garbage w.staleReads, { w with staleReads := w.staleReads + 1 })

/-- `mi_find`. -/
def findEntry (id : Nat) : M (Option MiPtr) :=
  .read fun w => if (w.entry id).isSome then some id else none

/-- `mi_remove`. -/
def removeEntry (id : Nat) : M Unit :=
  .update fun w => { w with masterInstruments := miRemove w.masterInstruments id }

/-- A write to an entry of the table. -/
def modifyEntry (id : Nat) (f : MiEntry → MiEntry) : M Unit :=
  .update fun w => { w with masterInstruments := miModify w.masterInstruments id f }

/-- `mi_insert`. -/
def insertEntry (e : MiEntry) : M MiVal := do
  let keyOk ← malloc env
  let tabOk ← tabCalloc env
  fun w => (miInsertVal w.masterInstruments e keyOk tabOk,
    { w with masterInstruments := miInsert w.masterInstruments e keyOk tabOk })

/-- `mi_add_method`. -/
def miAddMethod (entryClass methodName : CStr) : M MiVal := do
  let eOk ← malloc env
  if eOk then
    let c ← newPstring env entryClass
    let m ← newPstring env methodName
    match c, m with
    | some c, some m => insertEntry env ⟨c, .method m true⟩
    | _, _ => pure ⟨0, none⟩
  else pure ⟨0, none⟩

/-- `mi_add_linep`. -/
def miAddLinep (entryClass exitClass : Pstring) (entryLine exitLine : UInt32) : M MiVal := do
  let eOk ← malloc env
  if eOk then
    let c ← dupPstring env entryClass
    let x ← dupPstring env exitClass
    match c, x with
    | some c, some x => insertEntry env ⟨c, .line x entryLine exitLine true true⟩
    | _, _ => pure ⟨0, none⟩
  else pure ⟨0, none⟩

/-- `mi_add_var_bind`. -/
def miAddVarBind (className varName : CStr) (lineNumber : UInt32) : M MiVal := do
  let eOk ← malloc env
  if eOk then
    let c ← newPstring env className
    let v ← newPstring env varName
    match c, v with
    | some c, some v => insertEntry env ⟨c, .varBind v lineNumber true⟩
    | _, _ => pure ⟨0, none⟩
  else pure ⟨0, none⟩

/-! ## The loaded classes and the queue -/

/-- A write through a `struct class_info *`. -/
def modifyClass (c : CStr) (f : ClassInfo → ClassInfo) : M Unit :=
  .update fun w => { w with loadedClasses := w.loadedClasses.modify c f }

/-- `ci_list_add`. -/
def addClass (ci : ClassInfo) : M CiListAdd := do
  let keyOk ← malloc env
  let tabOk ← tabCalloc env
  fun w => (ciListAddResult w.loadedClasses ci keyOk tabOk,
    { w with
      loadedClasses := ciListAdd w.loadedClasses ci keyOk tabOk
      outdated :=
        if ciListAddResult w.loadedClasses ci keyOk tabOk = .err then w.outdated
        else w.outdated.filter (· ≠ ci.name.cstr) })

/-- Record that the class lost a record that may be installed. -/
def markOutdated (c : CStr) : M Unit := .update fun w => { w with outdated := c :: w.outdated }

def modifyQueue (f : List QueuedInstr → List QueuedInstr) : M Unit :=
  .update fun w => { w with queuedInstruments := f w.queuedInstruments }

/-- `queued_instr_method_add`; it returns the record, if the array could grow. -/
def queuedInstrMethodAdd (className methodSig : CStr) (profilerId : Int) (instrumentId : Nat) :
    M (Option QueuedInstr) := do
  let grown ← malloc env
  if grown then
    let c ← newPstring env className
    let m ← newPstring env methodSig
    let qi : QueuedInstr := ⟨instrumentId, profilerId, c, .method m⟩
    modifyQueue (· ++ [qi])
    pure (some qi)
  else pure none

/-- `queued_instr_line_add`. -/
def queuedInstrLineAdd (className : CStr) (profilerId : Int) (instrumentId : Nat) (body : QiBody) :
    M (Option QueuedInstr) := do
  let grown ← malloc env
  if grown then
    let c ← newPstring env className
    let qi : QueuedInstr := ⟨instrumentId, profilerId, c, body⟩
    modifyQueue (· ++ [qi])
    pure (some qi)
  else pure none

/-! ## The registry -/

/-- `ProfilerRegistry.create`: the profiler id, the first slot that is not active. -/
def registryCreateId (slots : List Slot) : Nat :=
  (slots.findIdx? fun s => !s.active).getD slots.length

/-- The slots after `ProfilerRegistry.create`. -/
def registryCreate (slots : List Slot) (s : Slot) : List Slot :=
  match slots.findIdx? fun s => !s.active with
  | some i => slots.set i s
  | none => slots ++ [s]

/-- The slots after `ProfilerRegistry.remove`; an id out of range throws and changes nothing. -/
def registryRemove (slots : List Slot) : Int → List Slot
  | .ofNat i => slots.modify i fun s => { s with active := false }
  | .negSucc _ => slots

/-- `jni_create_profiler` and `jni_create_line_profiler`. -/
def jniCreate (instrumentId : Nat) (name : ProfilerName) : M Int := do
  let ok ← jvmCall env (.createProfiler instrumentId)
  if ok then
    fun w => (registryCreateId w.slots,
      { w with slots := registryCreate w.slots ⟨true, instrumentId, name⟩ })
  else pure (-1)

/-- `jni_remove_profiler`. -/
def jniRemoveProfiler (profilerId : Int) : M Unit := do
  let ok ← jvmCall env (.removeProfiler profilerId)
  if ok then .update fun w => { w with slots := registryRemove w.slots profilerId }
  else pure ()

/-! ## Transformation and retransformation -/

/-- The calls that the transformation of the class inserts. -/
def instrumentCalls (ci : ClassInfo) : List Call :=
  ci.instrumented.map (fun m => ⟨.method m.methodSig, m.profilerId, m.instrumentId⟩) ++
    ci.lines.map fun r => ⟨.line r.lineNumber r.type, r.profilerId, r.instrumentId⟩

/-- `bc_instrument_method`; with nothing to insert it copies the class file itself. -/
def bcInstrumentMethod (ci : ClassInfo) : M (Option Bytecode) := do
  if ci.instrumented = [] ∧ ci.lines = [] then
    let ok ← malloc env
    pure (if ok then some ⟨ci.bytecode, []⟩ else none)
  else
    let ok ← jvmCall env (.transform ci.bytecode ci.instrumented ci.lines)
    pure (if ok then some ⟨ci.bytecode, instrumentCalls ci⟩ else none)

/-- `ps_handle_retransform`: the bytes the hook hands to the JVM, if any. -/
def psHandleRetransform (name : CStr) : M (Option Bytecode) := do
  let pending ← .read World.pending
  if pending.className = some name then
    let ok ← jvmCall env .allocate
    pure (if ok then pending.bytecode else none)
  else pure none

/-- The class that `jni_retransform_class` settles on: the first whose loader matches, else
the first of the name. -/
def retransformTarget (versions : List Version) (c : CStr) (loader : Option Nat) : Option Nat :=
  (versions.findIdx? fun v => decide (v.name = c ∧ v.loader = loader)).or
    (versions.findIdx? fun v => decide (v.name = c))

/-- The JVM installs what the hook returned, or else the original class file. -/
def installCode (versions : List Version) (i : Nat) (bc : Option Bytecode) : List Version :=
  versions.modify i fun v => { v with calls := (bc.map Bytecode.calls).getD [] }

/-- `jni_retransform_class`. -/
def jniRetransformClass (c : CStr) (loader : Option Nat) : M Bool := do
  let target ← .read fun w => retransformTarget w.versions c loader
  match target with
  | none => pure false
  | some i =>
    let pending ← .read World.pending
    let ok ← jvmCall env (.retransform c loader pending.bytecode)
    if ok then
      let bc ← psHandleRetransform env c
      .update fun w =>
        { w with
          versions := installCode w.versions i bc
          outdated := w.outdated.filter (· ≠ c) }
      pure true
    else pure false

/-- The JVM defines the class `name` in `loader`. -/
def defineVersion (versions : List Version) (name : CStr) (loader : Option Nat) : List Version :=
  versions.filter (fun v => !decide (v.name = name ∧ v.loader = loader)) ++ [⟨name, loader, []⟩]

/-! ## The error log -/

/-- `prof_err_log_printf`, given the expansion of the format. -/
def profErrLogPrintf (text : List UInt8) : M Unit := do
  let ok ← malloc env
  match pstringVsprintf text ok with
  | none => pure ()
  | some msg => .update fun w =>
    { w with
      errLog := profErrLogPush w.errLog ⟨env.time w.timeCalls, msg⟩
      timeCalls := w.timeCalls + 1 }

/-- `prof_err_log_printf` about a deferred instrument. -/
def reportFailure (instrumentId : Nat) (text : List UInt8) : M Unit := do
  profErrLogPrintf env text
  .update fun w => { w with reports := w.reports ++ [⟨instrumentId, text⟩] }

end JautoProf
