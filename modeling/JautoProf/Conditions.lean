import JautoProf.Ledger
import JautoProf.Server

/-!
# Conditions on the steps of a run

`ci_remove_instrumented_line` removes the first record of a class at a line number, whatever
its instrument. `stepOwn` says of a state and an event that each such removal of the step
finds a record of the instrument it is made for. `stepLive` says that no class load makes a
deferred line instrument ready whose attempt then fails. Both follow the branches of the
handlers to the states in which a removal or an attempt begins.
-/

namespace JautoProf

/-- The instrument whose record is the first one at the line of the class. -/
def World.firstLine (w : World) (c : CStr) (l : UInt32) : Option Nat :=
  (w.cls c).bind fun ci => (ci.lines.find? (·.hasLine l)).map (·.instrumentId)

/-- The removals of the two records of a line instrument, one after the other, find its own. -/
def World.takesOwn (w : World) (id : Nat) (e : MiEntry) : Bool :=
  let entryClass := e.entryClassName.cstr
  let w' := (modifyClass entryClass (ciRemoveInstrumentedLine e.entryLineNumber)).final w
  decide (w.firstLine entryClass e.entryLineNumber = some id) &&
    decide (w'.firstLine e.exitClassName.cstr e.exitLineNumber = some id)

variable (env : Env)

/-! ## One attempt at a line instrument -/

/-- What an attempt that fails takes back is its own: all of it when the transformation or
the retransformation fails, the first record when there is no memory for the second. -/
def attemptOwn (w : World) (e : MiEntry) (id : Nat) (profilerId : Int) : Bool :=
  let entryClass := e.entryClassName.cstr
  let exitClass := e.exitClassName.cstr
  let populate := populateClassInfoLine env entryClass exitClass id profilerId id
  let w' := populate.final w
  if populate.result w then
    (performInstrumentationLine env entryClass exitClass id profilerId id).result w' || w'.takesOwn id e
  else !env.alloc w.allocs || decide (w.firstLine entryClass e.entryLineNumber = none)

/-- An attempt whose records were added succeeds. -/
def attemptLive (w : World) (e : MiEntry) (id : Nat) (profilerId : Int) : Bool :=
  let entryClass := e.entryClassName.cstr
  let exitClass := e.exitClassName.cstr
  let populate := populateClassInfoLine env entryClass exitClass id profilerId id
  !populate.result w ||
    (performInstrumentationLine env entryClass exitClass id profilerId id).result (populate.final w)

/-! ## A class load -/

/-- The attempt that the queue record leads to, if any, meets the condition. -/
def roundMeets (attempt : World → MiEntry → Nat → Int → Bool) (w : World) (q : QueuedInstr) : Bool :=
  let w' := (modifyEntry q.instrumentId q.markHalf).final w
  !q.isLine || (w'.entry q.instrumentId).all fun e =>
    !e.lineIsReady || attempt w' e q.instrumentId q.profilerId

/-- Every round of the loop of `do_deferred_instrumentations` meets the condition. -/
def deferredMeets (attempt : World → MiEntry → Nat → Int → Bool) (ci : CStr) : Nat → World → Bool
  | 0, _ => true
  | rounds + 1, w =>
    match queuedInstrListFindByClass w.queuedInstruments ci with
    | none => true
    | some idx =>
      match w.queuedInstruments[idx]? with
      | none => true
      | some q => roundMeets attempt w q &&
        deferredMeets attempt ci rounds ((deferredRound env ci idx q).final w)

/-- What `cleanup_dangling` takes from the other class is the instrument's own. -/
def cleanupOwn (w : World) (line : InstrumentedLine) : Bool :=
  (w.entry line.instrumentId).all fun e =>
    let first := match line.type with
      | .enter => w.firstLine e.exitClassName.cstr e.exitLineNumber
      | .exit => w.firstLine e.entryClassName.cstr e.entryLineNumber
    decide (e.entryClassName.cstr = e.exitClassName.cstr) || decide (first = some line.instrumentId)

/-- Every round of the loop over `ci->lines` of `ih_reapply_instruments` meets `cleanupOwn`. -/
def cleanupsOwn (ci : CStr) : Nat → Nat → World → Bool
  | 0, _, _ => true
  | rounds + 1, i, w =>
    match ((w.cls ci).map ClassInfo.lines).bind (·[i]?) with
    | none => true
    | some line => cleanupOwn w line &&
      cleanupsOwn ci rounds (i + 1) ((cleanupFailedLine env line).final w)

/-- A reapply that fails takes only the records of the instruments that it removes. -/
def reapplyOwn (ci : CStr) (w : World) : Bool :=
  (w.cls ci).all fun info =>
    decide (info.instrumented = [] ∧ info.lines = []) || ((restoreClass env ci ci).result w).2 ||
      let w₁ := (profErrLogPrintf env (reapplyText ci)).final ((restoreClass env ci ci).final w)
      let w₂ := (removeMethods env (((w₁.cls ci).map ClassInfo.instrumented).getD [])).final w₁
      cleanupsOwn env ci (((w₂.cls ci).map ClassInfo.lines).getD []).length 0 w₂

/-- `handle_class_loaded` from `ci_list_add` on meets the two conditions. -/
def classAllocatedMeets (reapply : CStr → World → Bool)
    (attempt : World → MiEntry → Nat → Int → Bool) (ci : ClassInfo) (w : World) : Bool :=
  let c := ci.name.cstr
  let added := (addClass env ci).result w
  let w₁ := (addClass env ci).final w
  let w₂ := if added = .duplicate then (ihReapplyInstruments env c).final w₁ else w₁
  decide (added = .err) ||
    ((!decide (added = .duplicate) || reapply c w₁) &&
      deferredMeets env attempt c w₂.queuedInstruments.length w₂)

def loadMeets (reapply : CStr → World → Bool) (attempt : World → MiEntry → Nat → Int → Bool)
    (name : CStr) (bytecode : List UInt8) (loader : Option Nat) (w : World) : Bool :=
  let w₁ := { w with versions := defineVersion w.versions name loader }
  let alloc := allocClassInfo env name bytecode loader
  (alloc.result w₁).all fun ci => classAllocatedMeets env reapply attempt ci (alloc.final w₁)

/-! ## A step -/

/-- The attempt that a line request makes at once, if any, takes back its own. -/
def lineRequestOwn (entryClass exitClass : Pstring) (entryLine exitLine : UInt32) (w : World) : Bool :=
  let add := miAddLinep env entryClass exitClass entryLine exitLine
  let id := (add.result w).id
  let create := jniCreate env id (.line entryClass.cstr entryLine)
  let w₁ := create.final (add.final w)
  decide (id = 0) || decide (create.result (add.final w) < 0) ||
    !((w₁.cls entryClass.cstr).isSome && (w₁.cls exitClass.cstr).isSome) ||
      (w₁.entry id).all fun e => attemptOwn env w₁ e id (create.result (add.final w))

/-- Every removal by line number of the step finds a record of its instrument. -/
def stepOwn (w : World) : Event → Bool
  | .classLoaded name bytecode loader =>
    loadMeets env (reapplyOwn env) (attemptOwn env) name bytecode loader w
  | .instrumentLine entryClass exitClass entryLine exitLine =>
    lineRequestOwn env entryClass exitClass entryLine exitLine w
  | .deinstrumentById id => (w.entry id).all fun e =>
    !(e.lineIsReady && (w.cls e.entryClassName.cstr).isSome && (w.cls e.exitClassName.cstr).isSome) ||
      w.takesOwn id e
  | _ => true

/-- No class load makes a deferred line instrument ready whose attempt fails after its
records were added. -/
def stepLive (w : World) : Event → Bool
  | .classLoaded name bytecode loader =>
    loadMeets env (fun _ _ => true) (attemptLive env) name bytecode loader w
  | _ => true

end JautoProf
