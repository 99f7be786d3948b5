import JautoProf.Lib.Lists
import JautoProf.Util

/-!
# The queue of deferred instruments (`queued-instrument.c`)

`QueuedInstr` is `struct queued_instr`; the queue is a dynamic array, here a list. A record
whose strings could not be allocated is in the queue until its caller takes it out.
-/

namespace JautoProf

/-- The union of `struct queued_instr`, tagged with `enum qi_type`. -/
inductive QiBody
  | method (methodSig : Option Pstring)
  | lineEnter (lineNumber : UInt32)
  | lineExit (lineNumber : UInt32)
  | varBind (varName : Option Pstring) (lineNumber : UInt32)
deriving DecidableEq

/-- `struct queued_instr`. -/
structure QueuedInstr where
  instrumentId : Nat
  profilerId : Int
  className : Option Pstring
  body : QiBody
deriving DecidableEq

def QueuedInstr.hasClass (c : CStr) (q : QueuedInstr) : Bool :=
  decide (q.className.map Pstring.cstr = some c)

def QueuedInstr.hasId (id : Nat) (q : QueuedInstr) : Bool := decide (q.instrumentId = id)

/-- `QI_LINE_ENTER` or `QI_LINE_EXIT`. -/
def QueuedInstr.isLine (q : QueuedInstr) : Bool :=
  match q.body with
  | .lineEnter _ | .lineExit _ => true
  | _ => false

/-- `queued_instr_list_find_by_class`. -/
def queuedInstrListFindByClass (queue : List QueuedInstr) (c : CStr) : Option Nat :=
  queue.findIdx? (·.hasClass c)

/-- `queued_instr_list_find_by_instrument_id`. -/
def queuedInstrListFindByInstrumentId (queue : List QueuedInstr) (id : Nat) : Option Nat :=
  queue.findIdx? (·.hasId id)

/-- `queued_instr_list_remove_and_destroy`. -/
def queuedInstrListRemoveAndDestroy (queue : List QueuedInstr) (idx : Nat) : List QueuedInstr :=
  queue.eraseIdx idx

/-- The profiler id that `remove_queued_instr_by_id` returns. -/
def removeQueuedInstrByIdResult (queue : List QueuedInstr) (iid : Nat) : Int :=
  match queuedInstrListFindByInstrumentId queue iid with
  | none => -1
  | some idx => match queue[idx]? with
    | some q => q.profilerId
    | none => -1

/-- `remove_queued_instr_by_id`: one record, and for a line instrument a second one. -/
def removeQueuedInstrById (queue : List QueuedInstr) (iid : Nat) : List QueuedInstr :=
  match queuedInstrListFindByInstrumentId queue iid with
  | none => queue
  | some idx =>
    let rest := queuedInstrListRemoveAndDestroy queue idx
    if (queue[idx]?).any QueuedInstr.isLine then
      match queuedInstrListFindByInstrumentId rest iid with
      | none => rest
      | some idx' => queuedInstrListRemoveAndDestroy rest idx'
    else rest

/-- The queue loses its first record of the instrument and, of a line, the second one. -/
theorem removeQueuedInstrById_eq (queue : List QueuedInstr) (iid : Nat) :
    removeQueuedInstrById queue iid =
      match queue.find? (·.hasId iid) with
      | none => queue
      | some q =>
        if q.isLine then (queue.eraseP (·.hasId iid)).eraseP (·.hasId iid)
        else queue.eraseP (·.hasId iid) := by
  unfold removeQueuedInstrById queuedInstrListFindByInstrumentId queuedInstrListRemoveAndDestroy
  cases hi : queue.findIdx? (·.hasId iid) with
  | none => rw [Lists.findIdx?_eq_none.mp hi]
  | some idx =>
    have hget := Lists.getElem?_of_findIdx? hi
    have herase := Lists.eraseIdx_of_findIdx? hi
    cases hq : queue.find? (·.hasId iid) with
    | none => exact absurd (Lists.findIdx?_eq_none.mpr hq) (by simp [hi])
    | some q =>
      simp only [hget, hq, herase, Option.any_some]
      split
      · cases hj : (queue.eraseP (·.hasId iid)).findIdx? (·.hasId iid) with
        | none => exact (Lists.eraseP_of_find?_eq_none (Lists.findIdx?_eq_none.mp hj)).symm
        | some idx' => exact Lists.eraseIdx_of_findIdx? hj
      · rfl

theorem removeQueuedInstrByIdResult_eq (queue : List QueuedInstr) (iid : Nat) :
    removeQueuedInstrByIdResult queue iid =
      match queue.find? (·.hasId iid) with
      | none => -1
      | some q => q.profilerId := by
  unfold removeQueuedInstrByIdResult queuedInstrListFindByInstrumentId
  cases hi : queue.findIdx? (·.hasId iid) with
  | none => rw [Lists.findIdx?_eq_none.mp hi]
  | some idx =>
    rw [← Lists.getElem?_of_findIdx? hi]
    simp only
    cases queue[idx]? <;> rfl

end JautoProf
