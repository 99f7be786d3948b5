import JautoProf.ClientActs
import JautoProf.PsUifHandler

/-!
# The listener and the event thread (`user-if.c`, `prof-server-ev.c`, `prof-server.c`)

What the two threads do to clients, as programs of atomic actions, and the system that
they make together: the listener handles one event after the other, the event thread one
message of the queue after the other, and their actions are interleaved in any order.
-/

namespace JautoProf.Threads

abbrev Thread (α : Type) : Type := Proc Act Answer α

/-- An action that is followed by a test of its outcome. -/
def ask (a : Act) : Thread Bool := do return (← Proc.call a).isSome

/-- A branch that clients have no part in. -/
def choose : Thread Bool := ask .choose

/-- A number of allocations, up to the first one that fails. -/
def mallocs : Nat → Thread Bool
  | 0 => pure true
  | n + 1 => do if ← choose then mallocs n else pure false

/-! ## Requests that are enqueued (`prof-server-ev.c`) -/

/-- What the functions have in common that enqueue a request, after their allocations. -/
def psSendUsrRq (allocs : Nat) (client : ClientId) (rq : UsrRq) : Thread Unit := do
  if ← mallocs allocs then do
    let _ ← Proc.call (.acquire client)
    if ← ask (.push (.usrRq client rq)) then pure ()
    else do
      let _ ← Proc.call (.release client)
  else pure ()

def psSendUsrRqClassMethods (client : ClientId) (className : CStr) : Thread Unit :=
  psSendUsrRq 2 client (.classMethods className)

def psSendUsrRqInstrumentMethod (client : ClientId) (className methodSig : CStr) : Thread Unit :=
  psSendUsrRq 3 client (.instrumentMethod className methodSig)

def psSendUsrRqLoadedClasses (client : ClientId) : Thread Unit :=
  psSendUsrRq 1 client .loadedClasses

def psSendUsrRqDeinstrumentMethod (client : ClientId) (className methodSig : CStr) : Thread Unit :=
  psSendUsrRq 3 client (.deinstrumentMethod className methodSig)

def psSendUsrRqGetStats (client : ClientId) : Thread Unit := psSendUsrRq 1 client .getStats

def psSendUsrRqPauseThreads (client : ClientId) : Thread Unit := psSendUsrRq 1 client .pauseThreads

def psSendUsrRqListInstrumented (client : ClientId) : Thread Unit :=
  psSendUsrRq 1 client .listInstrumented

def psSendUsrRqGetAsyncErrors (client : ClientId) : Thread Unit :=
  psSendUsrRq 1 client .getAsyncErrors

def psSendUsrRqDeinstrumentById (client : ClientId) (instrumentId : Nat) : Thread Unit :=
  psSendUsrRq 1 client (.deinstrumentById instrumentId)

def psSendUsrRqInstrumentLine (client : ClientId) (entryClass exitClass : Pstring)
    (entryLine exitLine : UInt32) : Thread Unit :=
  psSendUsrRq 3 client (.instrumentLine entryClass exitClass entryLine exitLine)

def psSendUsrRqGetStatus (client : ClientId) : Thread Unit := psSendUsrRq 1 client .getStatus

def psSendUsrRqResume (client : ClientId) : Thread Unit := psSendUsrRq 1 client .resume

/-- `ps_send_shutdown_request`, which names no client. -/
def psSendShutdownRequest (exitCode : Int) (msg : List UInt8) : Thread Unit := do
  if ← mallocs 1 then do
    let _ ← Proc.call (.push (.shutdownRequest exitCode msg))
  else pure ()

/-- `ps_uif_handler` on a well-formed request; the strings of three requests are copied
first. -/
def psUifHandler (client : ClientId) : Request → Thread Unit
  | .loadedClasses => psSendUsrRqLoadedClasses client
  | .classMethods className => do
    if ← mallocs 1 then psSendUsrRqClassMethods client className.cstr else pure ()
  | .instrumentMethod className methodSig => do
    if ← mallocs 2 then psSendUsrRqInstrumentMethod client className.cstr methodSig.cstr
    else pure ()
  | .getStats => psSendUsrRqGetStats client
  | .deinstrumentMethod className methodSig => do
    if ← mallocs 2 then psSendUsrRqDeinstrumentMethod client className.cstr methodSig.cstr
    else pure ()
  | .shutdown => psSendShutdownRequest 0 usrShutdownMsg
  | .resume => psSendUsrRqResume client
  | .pauseThreads => psSendUsrRqPauseThreads client
  | .listInstrumented => psSendUsrRqListInstrumented client
  | .getAsyncErrors => psSendUsrRqGetAsyncErrors client
  | .deinstrumentById instrumentId => psSendUsrRqDeinstrumentById client instrumentId.toNat
  | .instrumentLine entryLine exitLine entryClass exitClass =>
    psSendUsrRqInstrumentLine client entryClass exitClass entryLine exitLine
  | .getStatus => psSendUsrRqGetStatus client

/-! ## The listener (`user-if.c`) -/

/-- `accept_client`; a client whose set-up fails is freed before anyone else knows of it, so
that only its descriptor is left to be closed. -/
def acceptClient (clients : List ClientId) : Thread (List ClientId) := do
  if ← choose then
    match ← Proc.call .accept with
    | none => pure clients
    | some fd =>
      if ← choose then
        match ← Proc.call (.newClient fd) with
        | none => pure clients
        | some client => pure (clients ++ [client])
      else do
        let _ ← Proc.call (.closeFd fd)
        pure clients
  else pure clients

/-- What `close_client` and `close_all_clients` do to a client. -/
def closeOne (client : ClientId) : Thread Unit := do
  let _ ← Proc.call (.setClosed client)
  let _ ← Proc.call (.closeClient client)
  let _ ← Proc.call (.release client)

/-- `close_client`. -/
def closeClient (clients : List ClientId) (client : ClientId) : Thread (List ClientId) := do
  closeOne client
  pure (clients.erase client)

/-- `handle_client_data` where a request is complete. -/
def handleRequest (clients : List ClientId) (client : ClientId) (r : Request) :
    Thread (List ClientId) := do
  psUifHandler client r
  pure clients

/-! ## The event thread (`prof-server.c`, `uif-response.c`) -/

/-- `uif_send`; the loop of `write_exact` is one action. -/
def uifSend (client : ClientId) : Thread Unit := do
  if ← ask (.isClosed client) then pure ()
  else do
    let _ ← Proc.call (.write client)

/-- A response that is allocated; it may be too long or memory may be short. -/
def uifRespondSized (client : ClientId) : Thread Unit := do
  if ← choose then uifSend client else pure ()

/-- A handler that ends with a response of fixed size. -/
def respondShort (client : ClientId) : Thread Unit := do
  uifSend client
  let _ ← Proc.call (.release client)

/-- A handler that ends with a response that is allocated. -/
def respondSized (client : ClientId) : Thread Unit := do
  uifRespondSized client
  let _ ← Proc.call (.release client)

def handleUsrRqLoadedClasses (client : ClientId) : Thread Unit := respondSized client

def handleUsrRqClassMethods (client : ClientId) : Thread Unit := respondSized client

def handleUsrRqInstrumentMethod (client : ClientId) : Thread Unit := respondShort client

/-- `handle_usr_rq_get_stats`, which does not respond when the JVM has no statistics. -/
def handleUsrRqGetStats (client : ClientId) : Thread Unit := do
  if ← choose then respondSized client
  else do
    let _ ← Proc.call (.release client)

def handleUsrRqDeinstrumentMethod (client : ClientId) : Thread Unit := respondShort client

def handleUsrRqDeinstrumentById (client : ClientId) : Thread Unit := respondShort client

def handleUsrRqGetAsyncErrors (client : ClientId) : Thread Unit := respondSized client

def handleUsrRqListInstrumented (client : ClientId) : Thread Unit := respondSized client

def handleUsrRqPauseThreads (client : ClientId) : Thread Unit := respondShort client

def handleUsrRqInstrumentLine (client : ClientId) : Thread Unit := respondShort client

def handleUsrRqResume (client : ClientId) : Thread Unit := respondShort client

def handleUsrRqGetStatus (client : ClientId) : Thread Unit := respondShort client

def handleUsrRq (client : ClientId) : UsrRq → Thread Unit
  | .loadedClasses => handleUsrRqLoadedClasses client
  | .classMethods _ => handleUsrRqClassMethods client
  | .instrumentMethod .. => handleUsrRqInstrumentMethod client
  | .getStats => handleUsrRqGetStats client
  | .deinstrumentMethod .. => handleUsrRqDeinstrumentMethod client
  | .resume => handleUsrRqResume client
  | .pauseThreads => handleUsrRqPauseThreads client
  | .listInstrumented => handleUsrRqListInstrumented client
  | .getAsyncErrors => handleUsrRqGetAsyncErrors client
  | .deinstrumentById _ => handleUsrRqDeinstrumentById client
  | .instrumentLine .. => handleUsrRqInstrumentLine client
  | .getStatus => handleUsrRqGetStatus client

/-- `dispatch`; false ends the loop. -/
def dispatch : PsMsg ClientId → Thread Bool
  | .classLoaded .. => pure true
  | .usrRq client rq => do
    handleUsrRq client rq
    pure true
  | .shutdown => pure false
  | .shutdownRequest .. => pure false
  | .shutdownStarting => pure true

/-! ## The system -/

/-- What the listener is doing; `closing` is the loop of `close_all_clients`. -/
inductive Listener
  | idle
  | busy (p : Thread (List ClientId))
  | closing
  | closingOne (client : ClientId) (p : Thread Unit)
  | stopped

/-- What the event thread is doing. -/
inductive Loop
  | idle
  | handling (m : PsMsg ClientId) (p : Thread Bool)
  | ended

structure Sys where
  shared : Shared
  /-- `uif->clients`. -/
  clients : List ClientId
  listener : Listener
  loop : Loop

def Sys.init : Sys := ⟨Shared.init, [], .idle, .idle⟩

/-- A step of the system: the listener turns to an event, the event thread takes a message,
one of them performs its next action, or another thread of the JVM enqueues a message. -/
inductive Step
  | acceptReady
  | clientRequest (client : ClientId) (r : Request)
  | clientGone (client : ClientId)
  | closeAll
  | closeNext
  | listener (o : Answer)
  | take
  | loop (o : Answer)
  | produce (m : { m : PsMsg ClientId // m.client = none })

/-- The listener with a program; a finished program leaves the list of clients. -/
def Sys.listen (s : Sys) : Thread (List ClientId) → Sys
  | .done clients => { s with clients, listener := .idle }
  | .act a k => { s with listener := .busy (.act a k) }

/-- The listener in `close_all_clients`. -/
def Sys.listenClosing (s : Sys) (client : ClientId) : Thread Unit → Sys
  | .done _ => { s with clients := s.clients.erase client, listener := .closing }
  | .act a k => { s with listener := .closingOne client (.act a k) }

/-- The event thread with a program; a finished program has handled the message. -/
def Sys.handle (s : Sys) (m : PsMsg ClientId) : Thread Bool → Sys
  | .done true => { s with loop := .idle }
  | .done false => { s with loop := .ended }
  | .act a k => { s with loop := .handling m (.act a k) }

def step (s : Sys) : Step → Sys
  | .acceptReady =>
    match s.listener with
    | .idle => s.listen (acceptClient s.clients)
    | _ => s
  | .clientRequest client r =>
    match s.listener with
    | .idle => if client ∈ s.clients then s.listen (handleRequest s.clients client r) else s
    | _ => s
  | .clientGone client =>
    match s.listener with
    | .idle => if client ∈ s.clients then s.listen (closeClient s.clients client) else s
    | _ => s
  | .closeAll =>
    match s.listener with
    | .idle => { s with listener := .closing }
    | _ => s
  | .closeNext =>
    match s.listener, s.clients with
    | .closing, client :: _ => s.listenClosing client (closeOne client)
    | .closing, [] => { s with listener := .stopped }
    | _, _ => s
  | .listener o =>
    match s.listener with
    | .busy (.act a k) =>
      let (r, shared) := s.shared.exec a o
      { s with shared }.listen (k r)
    | .closingOne client (.act a k) =>
      let (r, shared) := s.shared.exec a o
      { s with shared }.listenClosing client (k r)
    | _ => s
  | .take =>
    match s.loop, s.shared.queue with
    | .idle, m :: queue => { s with shared := { s.shared with queue } }.handle m (dispatch m)
    | _, _ => s
  | .loop o =>
    match s.loop with
    | .handling m (.act a k) =>
      let (r, shared) := s.shared.exec a o
      { s with shared }.handle m (k r)
    | _ => s
  | .produce m => { s with shared := { s.shared with queue := s.shared.queue ++ [m.val] } }

/-- The steps that accept a client on a descriptor. -/
def acceptSteps (fd : Nat) : List Step :=
  [.acceptReady, .listener (some 0), .listener (some fd), .listener (some 0), .listener none]

/-- The steps that enqueue a request whose only allocation is the message. -/
def requestSteps (client : ClientId) (r : Request) : List Step :=
  [.clientRequest client r, .listener (some 0), .listener none, .listener (some 0)]

end JautoProf.Threads
