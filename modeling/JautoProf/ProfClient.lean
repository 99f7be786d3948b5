import JautoProf.Lib.Utf8
import JautoProf.UserMsg

/-!
# The Python client's side of the wire (`prof_client.py`)

The methods of `ProfClient` that take a response apart, on the message that `_recv_msg`
returned; strings are kept as the bytes that the client passes to `decode`. Then the
bodies that its methods pack.

Results:
1. `reads_pstring`: a string is read back from the bytes of a `struct pstring`.
-/

namespace JautoProf.ProfClient

open Wire Utf8

/-- The exceptions: a `ValueError` with its text, a `struct.error` or a
`UnicodeEncodeError`. -/
inductive PyError
  | valueError (text : String)
  | structError
  | unicodeEncodeError
deriving DecidableEq

/-- `pstring.__init__`. -/
def pstring : Reader PyError (List UInt8) := do
  let length ← Reader.unsigned 2 (.valueError "truncated pstring length")
  Reader.bytes length (.valueError "truncated pstring data")

/-- The check of the type that every method makes. -/
def expect (type : UserMsgType) (resp : UserMsg) : Except PyError (List UInt8) :=
  if resp.type = type.code then .ok resp.body else .error (.valueError "Unexpected response")

/-- A count of items, and then as many items. -/
def counted {α : Type} (item : Reader PyError α) : Reader PyError (List α) := do
  let count ← Reader.unsigned 4 (.valueError "response body too short")
  item.times count

/-- A response whose body is a counted list. -/
def listed {α : Type} (type : UserMsgType) (item : Reader PyError α) (resp : UserMsg) :
    Except PyError (List α) :=
  (expect type resp).bind (counted item).run

/-- `get_loaded_classes`, with `_parse_string_list`. -/
def getLoadedClasses (resp : UserMsg) : Except PyError (List (List UInt8)) :=
  listed .responseLoadedClasses pstring resp

/-- An item of the list that `get_async_errors` returns. -/
structure AsyncError where
  timestamp : Int
  message : List UInt8
deriving DecidableEq

/-- The body of the loop of `get_async_errors`. -/
def asyncError : Reader PyError AsyncError := do
  let timestamp ← Reader.signed 8 (.valueError "truncated timestamp")
  let message ← pstring
  return ⟨timestamp, message⟩

def getAsyncErrors (resp : UserMsg) : Except PyError (List AsyncError) :=
  listed .responseGetAsyncErrors asyncError resp

/-- The `status` of a listed instrument. -/
inductive ListedStatus
  | active
  | deferred
deriving DecidableEq

/-- An item of the list that `get_instruments` returns. -/
inductive Instrument
  | method (className methodSig : List UInt8) (instrumentId : Nat) (status : ListedStatus)
  | line (entryClass : List UInt8) (entryLine : Nat) (exitClass : List UInt8) (exitLine : Nat)
      (instrumentId : Nat) (status : ListedStatus)
deriving DecidableEq

/-- The body of the loop of `get_instruments`. -/
def instrument : Reader PyError Instrument := do
  let instrType ← Reader.unsigned 1 (.valueError "truncated entry header")
  let status ← Reader.unsigned 4 (.valueError "truncated entry header")
  let instrumentId ← Reader.unsigned 8 (.valueError "truncated entry header")
  let statusStr := if status = 1 then ListedStatus.deferred else .active
  if instrType = 0 then do
    let className ← pstring
    let methodSig ← pstring
    return .method className methodSig instrumentId statusStr
  else do
    let entryLine ← Reader.unsigned 4 (.valueError "truncated line entry")
    let exitLine ← Reader.unsigned 4 (.valueError "truncated line entry")
    let entryClass ← pstring
    let exitClass ← pstring
    return .line entryClass entryLine exitClass exitLine instrumentId statusStr

def getInstruments (resp : UserMsg) : Except PyError (List Instrument) :=
  listed .responseListInstrumented instrument resp

/-! ## Requests -/

/-- `struct.pack` of an unsigned integer of `n` bytes. -/
def packUnsigned (n : Nat) (x : Int) : Except PyError (List UInt8) :=
  if 0 ≤ x ∧ x < 256 ^ n then .ok (le n x.toNat) else .error .structError

/-- `pstring.pack`. -/
def pstringPack (s : Str) : Except PyError (List UInt8) := do
  match encode s with
  | none => .error .unicodeEncodeError
  | some encoded => return (← packUnsigned 2 encoded.length) ++ encoded

/-- A method that sends a request, with its arguments. -/
inductive Call
  | getLoadedClasses
  | getClassMethods (className : Str)
  | instrumentMethod (className methodSig : Str)
  | getStats
  | deinstrumentMethod (className methodSig : Str)
  | shutdown
  | resume
  | pauseThreads
  | getInstruments
  | getAsyncErrors
  | deinstrumentById (instrumentId : Int)
  | instrumentLine (entryClass exitClass : Str) (entryLine exitLine : Int)
  | getStatus
deriving DecidableEq

namespace Call

/-- The type in the header. -/
def type : Call → UserMsgType
  | getLoadedClasses => .requestLoadedClasses
  | getClassMethods _ => .requestClassMethods
  | instrumentMethod .. => .requestInstrumentMethod
  | getStats => .requestGetStats
  | deinstrumentMethod .. => .requestDeinstrumentMethod
  | shutdown => .requestShutdown
  | resume => .requestResume
  | pauseThreads => .requestPauseThreads
  | getInstruments => .requestListInstrumented
  | getAsyncErrors => .requestGetAsyncErrors
  | deinstrumentById _ => .requestDeinstrumentById
  | instrumentLine .. => .requestInstrumentLine
  | getStatus => .requestGetStatus

/-- The body, or the exception that is raised before anything is sent. -/
def pack : Call → Except PyError (List UInt8)
  | getClassMethods className => pstringPack className
  | instrumentMethod className methodSig => do
    return (← pstringPack className) ++ (← pstringPack methodSig)
  | deinstrumentMethod className methodSig => do
    return (← pstringPack className) ++ (← pstringPack methodSig)
  | deinstrumentById instrumentId => packUnsigned 8 instrumentId
  | instrumentLine entryClass exitClass entryLine exitLine => do
    let lines := (← packUnsigned 4 entryLine) ++ (← packUnsigned 4 exitLine)
    return lines ++ (← pstringPack entryClass) ++ (← pstringPack exitClass)
  | _ => .ok []

end Call

/-! ## Reading back -/

theorem reads_pstring (p : Pstring) : Reads pstring p.bytes p.str := by
  have hlt : p.str.length < 256 ^ 2 := Nat.lt_of_le_of_lt p.size_le (by decide)
  exact (Reads.unsigned hlt _).bind (Reads.bytes rfl _)

theorem listed_of_type {α : Type} (type : UserMsgType) (item : Reader PyError α) (size : UInt32)
    (body : List UInt8) : listed type item ⟨type.code, size, body⟩ = (counted item).run body := by
  rw [listed, expect, if_pos rfl]
  rfl

/-- A count and the items are read back. -/
theorem counted_run {α γ : Type} {item : Reader PyError α} {enc : γ → List UInt8} {val : γ → α}
    {l : List γ} (h : ∀ x ∈ l, Reads item (enc x) (val x)) (hl : l.length < 256 ^ 4) :
    (counted item).run (le 4 l.length ++ l.flatMap enc) = .ok (l.map val) := by
  have hread := ((Reads.unsigned hl (PyError.valueError "response body too short")).bind
    (Reads.times h)).run []
  rw [List.append_nil] at hread
  exact hread

theorem listed_eq {α γ : Type} {item : Reader PyError α} {enc : γ → List UInt8} {val : γ → α}
    {l : List γ} (h : ∀ x ∈ l, Reads item (enc x) (val x)) (hl : l.length < 256 ^ 4)
    (type : UserMsgType) (size : UInt32) :
    listed type item ⟨type.code, size, le 4 l.length ++ l.flatMap enc⟩ = .ok (l.map val) := by
  rw [listed_of_type]
  exact counted_run h hl

end JautoProf.ProfClient
