import JautoProf.InstrumentHandler
import JautoProf.Lib.Runs

/-!
# The instrument events of the server

The events that the event loop handles one after the other, and the answer to each. A
`World` is reachable when a run of events leads to it from `ihCtxInit`.
-/

namespace JautoProf

/-- A class load, a user request, or a call of `mi_add_var_bind`. -/
inductive Event
  | classLoaded (name : CStr) (bytecode : List UInt8) (loader : Option Nat)
  | instrumentMethod (className methodSig : CStr)
  | instrumentLine (entryClass exitClass : Pstring) (entryLine exitLine : UInt32)
  | deinstrumentMethod (className methodSig : CStr)
  | deinstrumentById (instrumentId : Nat)
  | listInstruments
  | addVarBind (className varName : CStr) (lineNumber : UInt32)

/-- The event adds an entry to the master table, which takes an id. -/
def Event.takesId : Event → Bool
  | .instrumentMethod .. | .instrumentLine .. | .addVarBind .. => true
  | _ => false

/-- The event is the load of a class. -/
def Event.loadsClass : Event → Bool
  | .classLoaded .. => true
  | _ => false

theorem Event.not_takesId {ev : Event} (h : ev.loadsClass = true) : ¬ ev.takesId = true := by
  cases ev with
  | classLoaded => exact Bool.noConfusion
  | instrumentMethod | instrumentLine | deinstrumentMethod | deinstrumentById | listInstruments
  | addVarBind => cases h

/-- What the client is answered. -/
inductive Reply
  | none
  | instrument (status : InstrumentRespStatus) (instrumentId : Nat)
  | deinstrument (status : DeinstrumentRespStatus)
  | instruments (entries : List (Nat × MiEntry))

variable (env : Env)

/-- The entries that `uif_respond_list_instruments` encodes, in its order. -/
def listInstruments (mi : MasterInstruments) : List (Nat × MiEntry) :=
  mi.tab.entries.filter fun kv => kv.2.isUserVisible

/-- The handler of an event. -/
def handle : Event → M Reply
  | .classLoaded name bytecode loader => do
    handleClassLoaded env name bytecode loader
    pure .none
  | .instrumentMethod className methodSig => do
    let r ← ihInstrumentMethod env className methodSig
    pure (.instrument r.1 r.2)
  | .instrumentLine entryClass exitClass entryLine exitLine => do
    let r ← ihInstrumentLine env entryClass exitClass entryLine exitLine
    pure (.instrument r.1 r.2)
  | .deinstrumentMethod className methodSig => do
    let r ← ihDeinstrumentMethod env className methodSig
    pure (.deinstrument r)
  | .deinstrumentById instrumentId => do
    let r ← ihDeinstrumentById env instrumentId
    pure (.deinstrument r)
  | .listInstruments => .read fun w => .instruments (listInstruments w.masterInstruments)
  | .addVarBind className varName lineNumber => do
    let _ ← miAddVarBind env className varName lineNumber
    pure .none

/-- The state after an event. -/
def step (w : World) (ev : Event) : World := (handle env ev).final w

/-- The answer to an event. -/
def answer (w : World) (ev : Event) : Reply := (handle env ev).result w

/-- The state after a run of events from the start. -/
def serve (evs : List Event) : World := Runs.run (step env) ihCtxInit evs

/-! ## Runs to look at -/

/-- Every allocation and every call into the JVM succeeds. -/
def Env.smooth : Env where
  alloc _ := true
  tabAlloc _ := true
  jvm _ _ := true
  time _ := 0
  extractMethods _ := []
  garbage _ := default

/-- The call into the JVM of this number fails. -/
def Env.failing (n : Nat) : Env := { Env.smooth with jvm := fun i _ => i ≠ n }

/-- The class `A`. -/
def classA : Pstring := ⟨[65], by decide⟩

/-- The class `B`. -/
def classB : Pstring := ⟨[66], by decide⟩

end JautoProf
