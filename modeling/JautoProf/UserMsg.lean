import JautoProf.Lib.Wire
import JautoProf.Util

/-!
# Messages (`user-if.h`, `util/pstring.h`)

`UserMsg` is `struct user_msg`, and the `RawMsg` of the Python client: a type, the size
that its header announces, and the body.
-/

namespace JautoProf

/-- `enum user_msg_type`. -/
inductive UserMsgType
  | requestLoadedClasses
  | responseLoadedClasses
  | requestClassMethods
  | responseClassMethods
  | requestInstrumentMethod
  | responseInstrumentMethod
  | requestGetStats
  | responseGetStats
  | requestDeinstrumentMethod
  | responseDeinstrumentMethod
  | requestShutdown
  | requestResume
  | responseResume
  | requestPauseThreads
  | responsePauseThreads
  | requestListInstrumented
  | responseListInstrumented
  | requestGetAsyncErrors
  | responseGetAsyncErrors
  | requestDeinstrumentById
  | responseDeinstrumentById
  | requestInstrumentLine
  | responseInstrumentLine
  | requestGetStatus
  | responseGetStatus
deriving DecidableEq

/-- The number of a message type on the wire. -/
def UserMsgType.code : UserMsgType → UInt32
  | requestLoadedClasses => 0
  | responseLoadedClasses => 1
  | requestClassMethods => 2
  | responseClassMethods => 3
  | requestInstrumentMethod => 4
  | responseInstrumentMethod => 5
  | requestGetStats => 6
  | responseGetStats => 7
  | requestDeinstrumentMethod => 8
  | responseDeinstrumentMethod => 9
  | requestShutdown => 10
  | requestResume => 11
  | responseResume => 12
  | requestPauseThreads => 13
  | responsePauseThreads => 14
  | requestListInstrumented => 15
  | responseListInstrumented => 16
  | requestGetAsyncErrors => 17
  | responseGetAsyncErrors => 18
  | requestDeinstrumentById => 19
  | responseDeinstrumentById => 20
  | requestInstrumentLine => 21
  | responseInstrumentLine => 22
  | requestGetStatus => 23
  | responseGetStatus => 24

theorem UserMsgType.code_injective : Function.Injective UserMsgType.code := by
  intro a b
  cases a <;> cases b <;> decide

/-- `struct user_msg`. -/
structure UserMsg where
  type : UInt32
  size : UInt32
  body : List UInt8
deriving DecidableEq

/-- `UIF_MSG_HDR_SIZE`. -/
def uifMsgHdrSize : Nat := 8

/-- The bytes of a message on a connection. -/
def UserMsg.wire (m : UserMsg) : List UInt8 :=
  Wire.le 4 m.type.toNat ++ (Wire.le 4 m.size.toNat ++ m.body)

/-- The bytes of a `struct pstring`. -/
def Pstring.bytes (p : Pstring) : List UInt8 := Wire.le 2 p.str.length ++ p.str

/-- `pstring_total_size`. -/
def Pstring.totalSize (p : Pstring) : Nat := 2 + p.str.length

@[simp] theorem Pstring.bytes_length (p : Pstring) : p.bytes.length = p.totalSize := by
  simp [Pstring.bytes, Pstring.totalSize]

theorem Pstring.totalSize_le (p : Pstring) : p.totalSize ≤ 65537 := by
  have := p.size_le
  unfold Pstring.totalSize
  unfold pstrMax at this
  omega

end JautoProf
