import JautoProf.UserMsg

/-!
# The events of the server (`prof-server-msg.h`)

`PsMsg C` is `struct ps_msg`; `C` stands for `struct user_if_client *`.
-/

namespace JautoProf

/-- The requests of a client, with what they carry. -/
inductive UsrRq
  | loadedClasses
  | classMethods (className : CStr)
  | instrumentMethod (className methodSig : CStr)
  | getStats
  | deinstrumentMethod (className methodSig : CStr)
  | resume
  | pauseThreads
  | listInstrumented
  | getAsyncErrors
  | deinstrumentById (instrumentId : Nat)
  | instrumentLine (entryClass exitClass : Pstring) (entryLine exitLine : UInt32)
  | getStatus
deriving DecidableEq

/-- `struct ps_msg`. -/
inductive PsMsg (C : Type)
  | classLoaded (name : CStr) (bytecode : List UInt8) (loader : Option Nat)
  | usrRq (client : C) (rq : UsrRq)
  | shutdown
  | shutdownRequest (exitCode : Int) (msg : List UInt8)
  | shutdownStarting
deriving DecidableEq

/-- The client that a message names. -/
def PsMsg.client {C : Type} : PsMsg C → Option C
  | .usrRq c _ => some c
  | _ => none

/-- The type of the response to a request. -/
def UsrRq.responseType : UsrRq → UserMsgType
  | .loadedClasses => .responseLoadedClasses
  | .classMethods _ => .responseClassMethods
  | .instrumentMethod .. => .responseInstrumentMethod
  | .getStats => .responseGetStats
  | .deinstrumentMethod .. => .responseDeinstrumentMethod
  | .resume => .responseResume
  | .pauseThreads => .responsePauseThreads
  | .listInstrumented => .responseListInstrumented
  | .getAsyncErrors => .responseGetAsyncErrors
  | .deinstrumentById _ => .responseDeinstrumentById
  | .instrumentLine .. => .responseInstrumentLine
  | .getStatus => .responseGetStatus

end JautoProf
