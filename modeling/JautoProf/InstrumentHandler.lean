import JautoProf.World

/-!
# The instrument handler (`instrument-handler.c`)

The functions of the source, in its order. A `struct class_info *` is the name of the
class, a `struct mi_entry *` the id it was inserted under; both are read when the source
reads through the pointer. Debug logging is left out.
-/

namespace JautoProf

/-- `enum instrument_resp_status` and `enum instrument_line_resp_status`. -/
inductive InstrumentRespStatus
  | ok
  | deferred
  | doubleInstrument
  | error
deriving DecidableEq

/-- `enum deinstrument_resp_status`. -/
inductive DeinstrumentRespStatus
  | ok
  | fail
deriving DecidableEq

variable (env : Env)

/-! ## Transforming a class -/

def doInstrumentation (ci : CStr) : M (Option Bytecode) := do
  let info ← .read (·.cls ci)
  match info with
  | none => pure none
  | some info =>
    let params ← malloc env
    if params then bcInstrumentMethod env info else pure none

def retransformPending (className : CStr) (loader : Option Nat) (methodSig : Option CStr)
    (newBc : Bytecode) (profilerId : Int) : M Bool := do
  .update fun w => { w with pending := ⟨some className, methodSig, some newBc, profilerId⟩ }
  let ret ← jniRetransformClass env className loader
  .update fun w => { w with pending := .cleared }
  pure ret

/-- `ci->loader`. -/
def classLoader (ci : CStr) : M (Option Nat) := .read fun w => (w.cls ci).bind ClassInfo.loader

/-! ## Adding the records of an instrument -/

def instrumentLater (className methodSig : CStr) (instrumentId : Nat) (profilerId : Int) :
    M InstrumentRespStatus := do
  let qi ← queuedInstrMethodAdd env className methodSig profilerId instrumentId
  match qi with
  | some ⟨_, _, some _, .method (some _)⟩ => pure .deferred
  | some _ =>
    modifyQueue fun queue => queuedInstrListRemoveAndDestroy queue (queue.length - 1)
    removeEntry instrumentId
    pure .error
  | none =>
    removeEntry instrumentId
    pure .error

def createProfilerForMethod (entry : MiPtr) (instrumentId : Nat) : M Int := do
  let c ← deref env entry
  let m ← deref env entry
  jniCreate env instrumentId (.method c.entryClassName.cstr m.methodName.cstr)

/-- The result says whether the record was added. -/
def populateClassInfo (ci : CStr) (entry : MiPtr) (profilerId : Int) (instrumentId : Nat) :
    M Bool := do
  let e ← deref env entry
  let grown ← malloc env
  if grown then
    let sig ← newPstring env e.methodName.cstr
    modifyClass ci (ciAddInstrumentedMethod ⟨sig, profilerId, instrumentId⟩)
    match sig with
    | some _ => pure true
    | none =>
      modifyClass ci ciDropInstrumentedMethod
      pure false
  else pure false

def populateClassInfoLine (ciEntry ciExit : CStr) (entry : MiPtr) (profilerId : Int)
    (instrumentId : Nat) : M Bool := do
  let e ← deref env entry
  let grown ← malloc env
  if grown then
    modifyClass ciEntry (ciAddInstrumentedLine ⟨e.entryLineNumber, profilerId, instrumentId, .enter⟩)
    let e ← deref env entry
    let grown ← malloc env
    if grown then
      modifyClass ciExit (ciAddInstrumentedLine ⟨e.exitLineNumber, profilerId, instrumentId, .exit⟩)
      pure true
    else
      let e ← deref env entry
      modifyClass ciEntry (ciRemoveInstrumentedLine e.entryLineNumber)
      pure false
  else pure false

/-! ## Performing an instrumentation -/

def performInstrumentation (ci : CStr) (entry : MiPtr) (profilerId : Int) (instrumentId : Nat) :
    M Bool := do
  let e ← deref env entry
  let newBc ← doInstrumentation env ci
  match newBc with
  | none => pure false
  | some newBc =>
    let loader ← classLoader ci
    let sig := if e.isMethod then some e.methodName.cstr else none
    let ret ← retransformPending env ci loader sig newBc profilerId
    if ret then
      let e ← deref env entry
      (if e.isMethod then modifyEntry instrumentId .methodApplied else pure ())
      pure true
    else pure false

/-- The `fail` exit of `perform_instrumentation_line`. -/
def undoLine (ciEntry ciExit : CStr) (entry : MiPtr) (profilerId : Int) (instrumentId : Nat) :
    M Unit := do
  let e ← deref env entry
  modifyClass ciEntry (ciRemoveInstrumentedLine e.entryLineNumber)
  let e ← deref env entry
  modifyClass ciExit (ciRemoveInstrumentedLine e.exitLineNumber)
  jniRemoveProfiler env profilerId
  removeEntry instrumentId

def performInstrumentationLine (ciEntry ciExit : CStr) (entry : MiPtr) (profilerId : Int)
    (instrumentId : Nat) : M Bool := do
  let entryOk ← performInstrumentation env ciEntry entry profilerId instrumentId
  let exitOk ← (
    if entryOk ∧ ciExit ≠ ciEntry then
      performInstrumentation env ciExit entry profilerId instrumentId
    else pure entryOk)
  if exitOk then
    modifyEntry instrumentId .lineEntryApplied
    modifyEntry instrumentId .lineExitApplied
    pure true
  else
    (if entryOk then markOutdated ciEntry else pure ())
    undoLine env ciEntry ciExit entry profilerId instrumentId
    pure false

def undoCiAndMi (entry : MiPtr) (ci : CStr) (instrumentId : Nat) : M Unit := do
  let e ← deref env entry
  modifyClass ci (ciRemoveInstrumentedBySig e.methodName.cstr)
  removeEntry instrumentId

def instrumentNow (ci : CStr) (instrumentId : Nat) (profilerId : Int) : M InstrumentRespStatus := do
  -- `mi_find`; the callers hold the entry of this id in the table
  let entry := instrumentId
  let populated ← populateClassInfo env ci entry profilerId instrumentId
  if populated then
    let ret ← performInstrumentation env ci entry profilerId instrumentId
    if ret then pure .ok
    else
      undoCiAndMi env entry ci instrumentId
      jniRemoveProfiler env profilerId
      pure .error
  else
    jniRemoveProfiler env profilerId
    removeEntry instrumentId
    pure .error

/-! ## Deferred instruments -/

/-- The message of `do_deferred_method_instrumentation`. -/
def deferredMethodText (className methodSig : CStr) : List UInt8 :=
  ascii "deferred instrumentation failed: " ++ className.val ++ ascii " " ++ methodSig.val

/-- The message of `do_deferred_line_instrumentation`. -/
def deferredLineText (entryClass exitClass : CStr) : List UInt8 :=
  ascii "deferred line instrumentation failed: " ++ entryClass.val ++ ascii " " ++ exitClass.val

/-- The C string of a string of a queue record. -/
def cstrOf (p : Option Pstring) : CStr := (p.getD default).cstr

def doDeferredMethodInstrumentation (ci : CStr) (qi : QueuedInstr) (methodSig : Option Pstring) :
    M Unit := do
  let status ← instrumentNow env ci qi.instrumentId qi.profilerId
  if status = .ok then pure ()
  else reportFailure env qi.instrumentId (deferredMethodText ci (cstrOf methodSig))

/-- The message with the class names that `entry` yields. -/
def reportLineFailure (entry : MiPtr) : M Unit := do
  let c ← deref env entry
  let x ← deref env entry
  reportFailure env entry (deferredLineText c.entryClassName.cstr x.exitClassName.cstr)

/-- `do_deferred_line_instrumentation` from where the instrument is ready and both classes
are found. -/
def applyDeferredLine (ciEntry ciExit : CStr) (instrumentId : Nat) (profilerId : Int) : M Unit := do
  let entry := instrumentId
  let populated ← populateClassInfoLine env ciEntry ciExit entry profilerId instrumentId
  if populated then
    let ret ← performInstrumentationLine env ciEntry ciExit entry profilerId instrumentId
    if ret then pure () else reportLineFailure env entry
  else
    reportLineFailure env entry
    jniRemoveProfiler env profilerId
    removeEntry instrumentId

def doDeferredLineInstrumentation (qi : QueuedInstr) (enter : Bool) : M Unit := do
  let instrumentId := qi.instrumentId
  let profilerId := qi.profilerId
  (if enter then modifyEntry instrumentId .lineEntryApplied
    else modifyEntry instrumentId .lineExitApplied)
  let found ← findEntry instrumentId
  match found with
  | none => pure ()
  | some entry =>
    let e ← deref env entry
    if e.lineIsReady then
      let ciEntry := e.entryClassName.cstr
      let ciExit := e.exitClassName.cstr
      let entryInfo ← .read (·.cls ciEntry)
      let exitInfo ← .read (·.cls ciExit)
      if entryInfo.isSome ∧ exitInfo.isSome then
        applyDeferredLine env ciEntry ciExit instrumentId profilerId
      else
        profErrLogPrintf env (ascii "deferred line instrumentation: class not found")
        jniRemoveProfiler env profilerId
        removeEntry instrumentId
    else pure ()

/-- The switch in the loop of `do_deferred_instrumentations`. -/
def doDeferredInstrument (ci : CStr) (qi : QueuedInstr) : M Unit :=
  match qi.body with
  | .method sig => doDeferredMethodInstrumentation env ci qi sig
  | .lineEnter _ => doDeferredLineInstrumentation env qi true
  | .lineExit _ => doDeferredLineInstrumentation env qi false
  | .varBind .. => pure ()

/-- One round of the loop of `do_deferred_instrumentations`. -/
def deferredRound (ci : CStr) (idx : Nat) (qi : QueuedInstr) : M Unit := do
  doDeferredInstrument env ci qi
  modifyQueue (queuedInstrListRemoveAndDestroy · idx)

/-- The loop of `do_deferred_instrumentations`; a round takes one record out of the queue,
so the length of the queue bounds the rounds. -/
def deferredLoop (ci : CStr) : Nat → M Unit
  | 0 => pure ()
  | rounds + 1 => do
    let queue ← .read World.queuedInstruments
    match queuedInstrListFindByClass queue ci with
    | none => pure ()
    | some idx =>
      match queue[idx]? with
      | none => pure ()
      | some qi =>
        deferredRound env ci idx qi
        deferredLoop ci rounds

def doDeferredInstrumentations (ci : CStr) : M Unit := do
  let queue ← .read World.queuedInstruments
  deferredLoop env ci queue.length

/-! ## Deinstrumenting -/

/-- `remove_queued_instr_by_id` on the queue of the server. -/
def takeQueuedInstrById (iid : Nat) : M Int := do
  let queue ← .read World.queuedInstruments
  modifyQueue (removeQueuedInstrById · iid)
  pure (removeQueuedInstrByIdResult queue iid)

/-- `jni_remove_profiler` under `if (profiler_id >= 0)`. -/
def removeProfilerIfAny (profilerId : Int) : M Unit :=
  if 0 ≤ profilerId then jniRemoveProfiler env profilerId else pure ()

/-- `ci_remove_instrumented_line`. -/
def takeLine (ci : CStr) (line : UInt32) : M Int := do
  let info ← .read (·.cls ci)
  modifyClass ci (ciRemoveInstrumentedLine line)
  markOutdated ci
  pure (match info with
    | some info => ciInstrumentedLine info line
    | none => -1)

/-- `ci_remove_instrumented_by_sig`. -/
def takeMethod (ci methodSig : CStr) : M Int := do
  let info ← .read (·.cls ci)
  modifyClass ci (ciRemoveInstrumentedBySig methodSig)
  markOutdated ci
  pure (match info with
    | some info => ciInstrumentedBySig info methodSig
    | none => -1)

/-- Transform a class and install the result, after records were taken out of its lists.
The first result says whether there was bytecode, the second whether it was installed. -/
def restoreClass (ci className : CStr) : M (Bool × Bool) := do
  let newBc ← doInstrumentation env ci
  match newBc with
  | none => pure (false, false)
  | some newBc =>
    let loader ← classLoader ci
    let ret ← retransformPending env className loader none newBc (-1)
    pure (true, ret)

/-- What an instrument that is not applied yet leaves behind. -/
def deinstrumentDeferred (instrumentId : Nat) : M DeinstrumentRespStatus := do
  let profilerId ← takeQueuedInstrById instrumentId
  removeProfilerIfAny env profilerId
  removeEntry instrumentId
  pure .ok

/-- `deinstrument_line_by_id` from the removal of the records on; of the results of the
retransformations only that there was bytecode counts. -/
def deinstrumentReadyLine (ciEntry ciExit : CStr) (entry : MiPtr) (instrumentId : Nat) :
    M DeinstrumentRespStatus := do
  let e ← deref env entry
  let profilerId ← takeLine ciEntry e.entryLineNumber
  let e ← deref env entry
  let _ ← takeLine ciExit e.exitLineNumber
  let entryRestored ← restoreClass env ciEntry ciEntry
  let exitRestored ← (
    if entryRestored.1 ∧ ciExit ≠ ciEntry then restoreClass env ciExit ciExit else pure (true, true))
  removeEntry instrumentId
  removeProfilerIfAny env profilerId
  pure (if entryRestored.1 && exitRestored.1 then .ok else .fail)

def deinstrumentLineById (entry : MiPtr) (instrumentId : Nat) : M DeinstrumentRespStatus := do
  let e ← deref env entry
  if e.lineIsReady then
    let ciEntry := e.entryClassName.cstr
    let ciExit := e.exitClassName.cstr
    let entryInfo ← .read (·.cls ciEntry)
    let exitInfo ← .read (·.cls ciExit)
    if entryInfo.isSome ∧ exitInfo.isSome then
      deinstrumentReadyLine env ciEntry ciExit entry instrumentId
    else pure .fail
  else deinstrumentDeferred env instrumentId

def deinstrumentMethodById (entry : MiPtr) (instrumentId : Nat) : M DeinstrumentRespStatus := do
  let e ← deref env entry
  match e.body with
  | .method _ true => deinstrumentDeferred env instrumentId
  | _ =>
    let ci := e.entryClassName.cstr
    let info ← .read (·.cls ci)
    match info with
    | none => pure .fail
    | some _ =>
      let profilerId ← takeMethod ci e.methodName.cstr
      if profilerId = -1 then pure .fail
      else
        let e ← deref env entry
        let restored ← restoreClass env ci e.entryClassName.cstr
        removeEntry instrumentId
        jniRemoveProfiler env profilerId
        pure (if restored.2 then .ok else .fail)

/-! ## Instrumenting -/

def addMasterMethod (className methodSig : CStr) : M (InstrumentRespStatus × MiVal) := do
  let found ← .read fun w => miFindMethodByName w.masterInstruments className methodSig
  match found.entry with
  | some _ => pure (.doubleInstrument, found)
  | none =>
    let miv ← miAddMethod env className methodSig
    pure (if miv.id = 0 then .error else .ok, miv)

/-- `ih_instrument_method` from where the entry is in the master table. -/
def instrumentAdded (className methodSig : CStr) (entry : MiPtr) (instrumentId : Nat) :
    M InstrumentRespStatus := do
  let profilerId ← createProfilerForMethod env entry instrumentId
  if profilerId < 0 then
    removeEntry instrumentId
    pure .error
  else
    let info ← .read (·.cls className)
    match info with
    | none =>
      let status ← instrumentLater env className methodSig instrumentId profilerId
      (if status = .error then jniRemoveProfiler env profilerId else pure ())
      pure status
    | some _ => instrumentNow env className instrumentId profilerId

/-- The status and `instrument_id_out`. -/
def ihInstrumentMethod (className methodSig : CStr) : M (InstrumentRespStatus × Nat) := do
  let added ← addMasterMethod env className methodSig
  if added.1 = .ok then
    let status ← instrumentAdded env className methodSig (added.2.entry.getD 0) added.2.id
    pure (status, added.2.id)
  else pure (added.1, added.2.id)

/-- A half of `instrument_later_line`: queue it, or note that its class is loaded. -/
def queueHalf (queue : Bool) (className : CStr) (profilerId : Int) (instrumentId : Nat)
    (body : QiBody) (applied : MiEntry → MiEntry) : M Bool := do
  if queue then
    let qi ← queuedInstrLineAdd env className profilerId instrumentId body
    pure ((qi.bind QueuedInstr.className).isSome)
  else
    modifyEntry instrumentId applied
    pure true

def instrumentLaterLine (entry : MiPtr) (profilerId : Int) (instrumentId : Nat)
    (entryLoaded exitLoaded : Bool) : M InstrumentRespStatus := do
  let e ← deref env entry
  let sameClass := decide (e.entryClassName.cstr = e.exitClassName.cstr)
  let entryOk ← queueHalf env (!entryLoaded) e.entryClassName.cstr profilerId instrumentId
    (.lineEnter e.entryLineNumber) .lineEntryApplied
  let e ← deref env entry
  let exitOk ← (
    if entryOk then
      queueHalf env (!exitLoaded && !sameClass) e.exitClassName.cstr profilerId instrumentId
        (.lineExit e.exitLineNumber) .lineExitApplied
    else pure false)
  if exitOk then pure .deferred
  else
    modifyQueue (removeQueuedInstrById · instrumentId)
    removeEntry instrumentId
    pure .error

/-- `ih_instrument_line` from where both classes are found. -/
def instrumentLineNow (ciEntry ciExit : CStr) (entry : MiPtr) (profilerId : Int)
    (instrumentId : Nat) : M InstrumentRespStatus := do
  let populated ← populateClassInfoLine env ciEntry ciExit entry profilerId instrumentId
  if populated then
    let ret ← performInstrumentationLine env ciEntry ciExit entry profilerId instrumentId
    pure (if ret then .ok else .error)
  else
    jniRemoveProfiler env profilerId
    removeEntry instrumentId
    pure .error

/-- `ih_instrument_line` from where the profiler is created. -/
def instrumentLineCreated (entryClass exitClass : CStr) (entry : MiPtr) (profilerId : Int)
    (instrumentId : Nat) : M InstrumentRespStatus := do
  let entryInfo ← .read (·.cls entryClass)
  let exitInfo ← .read (·.cls exitClass)
  if entryInfo.isSome ∧ exitInfo.isSome then
    instrumentLineNow env entryClass exitClass entry profilerId instrumentId
  else
    let stat ← instrumentLaterLine env entry profilerId instrumentId entryInfo.isSome exitInfo.isSome
    (if stat = .error then jniRemoveProfiler env profilerId else pure ())
    pure stat

/-- The status and `instrument_id_out`. -/
def ihInstrumentLine (entryClass exitClass : Pstring) (entryLine exitLine : UInt32) :
    M (InstrumentRespStatus × Nat) := do
  let miv ← miAddLinep env entryClass exitClass entryLine exitLine
  if miv.id = 0 then pure (.error, miv.id)
  else
    let profilerId ← jniCreate env miv.id (.line entryClass.cstr entryLine)
    if profilerId < 0 then
      removeEntry miv.id
      pure (.error, miv.id)
    else
      let status ← instrumentLineCreated env entryClass.cstr exitClass.cstr (miv.entry.getD 0)
        profilerId miv.id
      pure (status, miv.id)

def ihDeinstrumentMethod (className methodSig : CStr) : M DeinstrumentRespStatus := do
  let found ← .read fun w => miFindMethodByName w.masterInstruments className methodSig
  match found.entry with
  | none => pure .fail
  | some entry => deinstrumentMethodById env entry found.id

def ihDeinstrumentById (instrumentId : Nat) : M DeinstrumentRespStatus := do
  let found ← findEntry instrumentId
  match found with
  | none => pure .fail
  | some entry =>
    let e ← deref env entry
    match e.body with
    | .method .. => deinstrumentMethodById env entry instrumentId
    | .line .. => deinstrumentLineById env entry instrumentId
    | .varBind .. => pure .fail

/-! ## Reapplying the instruments of a reloaded class -/

def cleanupDangling (entry : MiPtr) (otherType : InstrumentType) : M Unit := do
  let e ← deref env entry
  let (otherClass, otherLine) := match otherType with
    | .exit => (e.exitClassName.cstr, e.exitLineNumber)
    | .enter => (e.entryClassName.cstr, e.entryLineNumber)
  let info ← .read (·.cls otherClass)
  match info with
  | none => pure ()
  | some _ =>
    let _ ← takeLine otherClass otherLine
    let _ ← restoreClass env otherClass otherClass
    pure ()

def cleanupFailedLine (line : InstrumentedLine) : M Unit := do
  let found ← findEntry line.instrumentId
  let crossClass ← (
    match found with
    | none => pure false
    | some entry => do
      let e ← deref env entry
      pure (decide (e.entryClassName.cstr ≠ e.exitClassName.cstr)))
  (if crossClass then
    cleanupDangling env line.instrumentId (if line.type = .enter then .exit else .enter)
  else pure ())
  if line.type = .enter ∨ crossClass then
    removeEntry line.instrumentId
    jniRemoveProfiler env line.profilerId
  else pure ()

/-- The loop over `ci->instrumented` of `ih_reapply_instruments`. -/
def removeMethods : List InstrumentedMethod → M Unit
  | [] => pure ()
  | m :: rest => do
    removeEntry m.instrumentId
    jniRemoveProfiler env m.profilerId
    removeMethods rest

/-- The loop over `ci->lines` of `ih_reapply_instruments`, from the index `i` on. -/
def cleanupLinesFrom (ci : CStr) : Nat → Nat → M Unit
  | 0, _ => pure ()
  | rounds + 1, i => do
    let info ← .read (·.cls ci)
    match (info.map ClassInfo.lines).bind (·[i]?) with
    | none => pure ()
    | some line =>
      cleanupFailedLine env line
      cleanupLinesFrom ci rounds (i + 1)

/-- The message of `ih_reapply_instruments`. -/
def reapplyText (className : CStr) : List UInt8 :=
  ascii "reapply instruments failed for '" ++ className.val ++ ascii "': all instruments removed"

/-- The `fail` exit of `ih_reapply_instruments`. -/
def reapplyFailed (ci : CStr) : M Unit := do
  profErrLogPrintf env (reapplyText ci)
  let info ← .read (·.cls ci)
  removeMethods env ((info.map ClassInfo.instrumented).getD [])
  let info ← .read (·.cls ci)
  cleanupLinesFrom env ci ((info.map ClassInfo.lines).getD []).length 0
  modifyClass ci ciClearInstruments

def ihReapplyInstruments (ci : CStr) : M Unit := do
  let info ← .read (·.cls ci)
  match info with
  | none => pure ()
  | some info =>
    if info.instrumented = [] ∧ info.lines = [] then pure ()
    else
      let restored ← restoreClass env ci ci
      if restored.2 then pure () else reapplyFailed env ci

/-! ## The class load event (`handle_class_loaded`) -/

/-- `handle_class_loaded` from `ci_list_add` on. -/
def classAllocated (ci : ClassInfo) : M Unit := do
  let added ← addClass env ci
  if added = .err then pure ()
  else
    (if added = .duplicate then ihReapplyInstruments env ci.name.cstr else pure ())
    doDeferredInstrumentations env ci.name.cstr

/-- `ci_alloc`, with the list of the methods that its caller makes. -/
def allocClassInfo (name : CStr) (bytecode : List UInt8) (loader : Option Nat) :
    M (Option ClassInfo) := do
  let methodsOk ← malloc env
  let ciOk ← malloc env
  let name ← newPstring env name
  let bytecodeOk ← malloc env
  let listsOk ← malloc env
  match name with
  | some name =>
    pure (if methodsOk && ciOk && bytecodeOk && listsOk then
      some (ciAlloc name bytecode (env.extractMethods bytecode) loader) else none)
  | none => pure none

/-- The JVM defines the class and the server handles the event. -/
def handleClassLoaded (name : CStr) (bytecode : List UInt8) (loader : Option Nat) : M Unit := do
  .update fun w => { w with versions := defineVersion w.versions name loader }
  let ci ← allocClassInfo env name bytecode loader
  match ci with
  | some ci => classAllocated env ci
  | none => pure ()

end JautoProf
