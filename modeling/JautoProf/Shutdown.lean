import JautoProf.Lib.Runs
import JautoProf.PsMsg

/-!
# The end of the profiled JVM (`prof-server.c`, `jvm-shutdown.c`, `jni-shutdown.c`)

The threads that have a part in it: the main thread in `vm_init`, the agent thread in
`event_loop`, the listener, the shutdown hook, the thread that `jniSafeExit` starts, and the
thread that ends the JVM and calls `Agent_OnUnload`. A step of a thread ends with one action
that another thread can observe: a post or a wait of a semaphore, a critical section, a
message that is put in the queue or taken from it. The flag of a step says whether the calls
in it succeed.

Of the JVM: the first `System.exit` runs the hook if it is registered and waits for it, then
calls `Agent_OnUnload`; no class is loaded any more when it does, and a second `System.exit`
waits for ever.
-/

namespace JautoProf.Shutdown

/-- Where the main thread is: in `ps_start`, in `ps_wait_for_resume`, or past `vm_init`, where
`started` says whether `ps_start` succeeded. -/
inductive MainPc
  | registerHook
  | addLogCallback
  | registerBlocker
  | runAgentThread
  | setRunning
  | lockResume
  | waitResume
  | done (started : Bool)
deriving DecidableEq

/-- Whom `jvm_prepare_shutdown` is called for: a request to shut down, or the hook. -/
inductive Origin
  | request (exitCode : Int)
  | starting
deriving DecidableEq

/-- Why the agent thread leaves `event_loop`: a class it refers to was not found, the message
of `ps_destroy`, or a request to shut down. -/
inductive LoopEnd
  | noRefs
  | shutdown
  | request
deriving DecidableEq

/-- Where the agent thread is. -/
inductive EventPc (C : Type)
  | notStarted
  | initRefs
  | evqWait
  | dispatch (msg : PsMsg C)
  | stopCollector (origin : Origin)
  | postStarted (origin : Origin)
  | postSem (exitCode : Int)
  | systemExit (exitCode : Int)
  | releaseResources (why : LoopEnd)
  | postShutdown (why : LoopEnd)
  | ended (why : LoopEnd)
deriving DecidableEq

/-- Where the shutdown hook is. `sent` says whether its message was put in the queue. -/
inductive HookPc
  | invokeCallbacks
  | sendStarting
  | postStarted
  | waitStarted (sent : Bool)
  | waitSem (sent : Bool)
  | done
deriving DecidableEq

/-- Where the thread is that ends the JVM. `sent` says whether the message of `ps_destroy` was
put in the queue. -/
inductive ExitPc
  | hooks (hook : HookPc)
  | sendShutdown
  | waitShutdown (sent : Bool)
  | stopListener
  | joinListener
  | freeServer
  | unloaded
deriving DecidableEq

/-- The JVM runs, a thread ends it, or the process is gone. -/
inductive Jvm
  | running
  | exiting (exitCode : Int) (pc : ExitPc)
  | halted (exitCode : Int)
deriving DecidableEq

/-- The fields of `struct prof_server` and of its blocker that the threads share, and where the
threads are. -/
structure State (C : Type) where
  evQ : List (PsMsg C)
  shutdownSem : Nat
  startedSem : Nat
  sem : Nat
  pauseOnExit : Bool
  paused : Bool
  shuttingDown : Bool
  main : MainPc
  event : EventPc C
  jvm : Jvm
  /-- The thread of `jniSafeExit`, until it calls `System.exit`. -/
  exitThread : Option Int
  listening : Bool
  shutdownFd : Bool
  hookRegistered : Bool
  blockerAdded : Bool
  /-- `jni_stop_profiler_collector` was called. -/
  stopCalled : Bool
  /-- The hook did not run `shutdown_wait_callback`. -/
  waitSkipped : Bool
  /-- A request to pause threads was dispatched while a thread ended the JVM, so that the
  threads that end it may be suspended. -/
  pausedAtExit : Bool
  /-- `ps_destroy` has freed the server. -/
  freed : Bool

/-- The server after `ps_init`, at the start of `vm_init`. -/
def init (C : Type) (pauseOnStart pauseOnExit : Bool) : State C where
  evQ := []
  shutdownSem := 0
  startedSem := 0
  sem := 0
  pauseOnExit := pauseOnExit
  paused := pauseOnStart
  shuttingDown := false
  main := .registerHook
  event := .notStarted
  jvm := .running
  exitThread := none
  listening := true
  shutdownFd := false
  hookRegistered := false
  blockerAdded := false
  stopCalled := false
  waitSkipped := false
  pausedAtExit := false
  freed := false

variable {C : Type}

/-- `thread_running`, which the main thread sets once the agent thread is started. -/
def MainPc.threadRunning : MainPc → Bool
  | .lockResume => true
  | .waitResume => true
  | .done started => started
  | _ => false

/-- `evq_push`; a push that fails leaves the queue as it is. -/
def State.evqPush (s : State C) (ok : Bool) (msg : PsMsg C) : State C :=
  { s with evQ := if ok then s.evQ ++ [msg] else s.evQ }

/-! ## The threads -/

/-- `vm_init`: `ps_start`, which gives up at the first failure, and `ps_wait_for_resume`. -/
def mainStep (s : State C) (ok : Bool) : Option (State C) :=
  match s.main with
  | .registerHook =>
    if ok then some { s with hookRegistered := true, main := .addLogCallback }
    else some { s with main := .done false }
  | .addLogCallback =>
    if ok then some { s with main := if s.pauseOnExit then .registerBlocker else .runAgentThread }
    else some { s with main := .done false }
  | .registerBlocker =>
    if ok then
      some { s with startedSem := 0, sem := 0, blockerAdded := true, main := .runAgentThread }
    else some { s with main := .done false }
  | .runAgentThread =>
    if ok then some { s with event := .initRefs, main := .setRunning }
    else some { s with main := .done false }
  | .setRunning => some { s with main := .lockResume }
  | .lockResume => some { s with main := if s.paused then .waitResume else .done true }
  | .waitResume => none
  | .done _ => none

/-- `resume_vm`; the signal wakes the main thread up if it waits. -/
def resumeVm (s : State C) : State C :=
  if s.paused then
    { s with paused := false, main := if s.main = .waitResume then .lockResume else s.main }
  else s

/-- `handle_shutdown_request` up to its branch: `_exit` while the startup pause lasts. -/
def handleShutdownRequest (s : State C) (exitCode : Int) : State C :=
  if s.paused then { s with jvm := .halted exitCode }
  else if s.pauseOnExit then { s with event := .stopCollector (.request exitCode) }
  else { s with event := .systemExit exitCode }

/-- `handle_shutdown_starting` up to its call of `jvm_prepare_shutdown`. -/
def handleShutdownStarting (s : State C) : State C :=
  { s with shuttingDown := true, event := .stopCollector .starting }

/-- `dispatch`; the other requests do not act on what is modelled here. -/
def dispatch (s : State C) : PsMsg C → State C
  | .usrRq _ .resume => { resumeVm s with event := .evqWait }
  | .usrRq _ .pauseThreads =>
    { s with pausedAtExit := s.pausedAtExit || decide (s.jvm ≠ .running), event := .evqWait }
  | .usrRq _ _ => { s with event := .evqWait }
  | .classLoaded .. => { s with event := .evqWait }
  | .shutdown => { s with event := .releaseResources .shutdown }
  | .shutdownRequest exitCode _ => handleShutdownRequest s exitCode
  | .shutdownStarting => handleShutdownStarting s

/-- `event_loop`. -/
def eventStep (s : State C) (ok : Bool) : Option (State C) :=
  match s.event with
  | .notStarted => none
  | .initRefs => some { s with event := if ok then .evqWait else .postShutdown .noRefs }
  | .evqWait =>
    match s.evQ with
    | [] => none
    | msg :: evQ => some { s with evQ, event := .dispatch msg }
  | .dispatch msg => some (dispatch s msg)
  | .stopCollector origin => some { s with stopCalled := true, event := .postStarted origin }
  | .postStarted (.request exitCode) =>
    some { s with startedSem := s.startedSem + 1, event := .postSem exitCode }
  | .postStarted .starting => some { s with startedSem := s.startedSem + 1, event := .evqWait }
  | .postSem exitCode => some { s with sem := s.sem + 1, event := .systemExit exitCode }
  | .systemExit exitCode =>
    some { s with
      exitThread := if ok then some exitCode else s.exitThread
      event := .releaseResources .request }
  | .releaseResources why => some { s with event := .postShutdown why }
  | .postShutdown why => some { s with shutdownSem := s.shutdownSem + 1, event := .ended why }
  | .ended _ => none

/-- `invoke_callbacks`, which runs `shutdown_wait_callback` if it was added. -/
def hookStep (s : State C) (ok : Bool) : Option (State C) :=
  match s.jvm with
  | .exiting exitCode (.hooks .invokeCallbacks) =>
    if ok && s.blockerAdded then some { s with jvm := .exiting exitCode (.hooks .sendStarting) }
    else some { s with waitSkipped := true, jvm := .exiting exitCode (.hooks .done) }
  | .exiting exitCode (.hooks .sendStarting) =>
    some { s.evqPush ok .shutdownStarting with
      jvm := .exiting exitCode (.hooks (if ok then .waitStarted true else .postStarted)) }
  | .exiting exitCode (.hooks .postStarted) =>
    some { s with
      startedSem := s.startedSem + 1
      jvm := .exiting exitCode (.hooks (.waitStarted false)) }
  | .exiting exitCode (.hooks (.waitStarted sent)) =>
    if 0 < s.startedSem then
      some { s with
        startedSem := s.startedSem - 1
        jvm := .exiting exitCode (.hooks (.waitSem sent)) }
    else none
  | .exiting exitCode (.hooks (.waitSem _)) =>
    if 0 < s.sem then some { s with sem := s.sem - 1, jvm := .exiting exitCode (.hooks .done) }
    else none
  | _ => none

/-- `System.exit`: the first call runs the hook. -/
def beginExit (s : State C) (exitCode : Int) : State C :=
  match s.jvm with
  | .running =>
    if s.hookRegistered then { s with jvm := .exiting exitCode (.hooks .invokeCallbacks) }
    else { s with waitSkipped := true, jvm := .exiting exitCode (.hooks .done) }
  | _ => s

/-- The thread of `jniSafeExit`. -/
def exitThreadStep (s : State C) : Option (State C) :=
  s.exitThread.map fun exitCode => beginExit { s with exitThread := none } exitCode

/-- The thread that ends the JVM: it joins the hook, `Agent_OnUnload` calls `ps_destroy`, and the
other threads go on until the process ends. -/
def exitStep (s : State C) (ok : Bool) : Option (State C) :=
  match s.jvm with
  | .exiting exitCode (.hooks .done) => some { s with jvm := .exiting exitCode .sendShutdown }
  | .exiting exitCode .sendShutdown =>
    if s.main.threadRunning then
      some { s.evqPush ok .shutdown with jvm := .exiting exitCode (.waitShutdown ok) }
    else some { s with jvm := .exiting exitCode .stopListener }
  | .exiting exitCode (.waitShutdown _) =>
    if 0 < s.shutdownSem then
      some { s with shutdownSem := s.shutdownSem - 1, jvm := .exiting exitCode .stopListener }
    else none
  | .exiting exitCode .stopListener =>
    some { s with shutdownFd := true, jvm := .exiting exitCode .joinListener }
  | .exiting exitCode .joinListener =>
    if s.listening then none else some { s with jvm := .exiting exitCode .freeServer }
  | .exiting exitCode .freeServer =>
    some { s with freed := true, jvm := .exiting exitCode .unloaded }
  | .exiting exitCode .unloaded => some { s with jvm := .halted exitCode }
  | _ => none

/-- A message that the listener sends for a client. -/
def fromClient : PsMsg C → Bool
  | .usrRq .. => true
  | .shutdownRequest .. => true
  | _ => false

/-- A thread makes its next step; the main thread wakes up without a signal; a thread of the
program calls `System.exit` or is the last one to end; the listener puts a message of a client
in the queue, or ends, on the descriptor of `uif_destroy` or an error of `epoll_wait`; a
class is loaded. -/
inductive Act (C : Type)
  | main (ok : Bool)
  | event (ok : Bool)
  | hook (ok : Bool)
  | exiting (ok : Bool)
  | exitThread
  | wake
  | exit (exitCode : Int)
  | receive (msg : PsMsg C)
  | listenerStops (error : Bool)
  | loadClass (name : CStr) (bytecode : List UInt8) (loader : Option Nat)

/-- Whether a class can be loaded. -/
def Jvm.loadsClasses : Jvm → Bool
  | .running => true
  | .exiting _ (.hooks _) => true
  | _ => false

/-- The step of a process that is not gone. -/
def liveStep (s : State C) : Act C → Option (State C)
  | .main ok => mainStep s ok
  | .event ok => eventStep s ok
  | .hook ok => hookStep s ok
  | .exiting ok => exitStep s ok
  | .exitThread => exitThreadStep s
  | .wake => if s.main = .waitResume then some { s with main := .lockResume } else none
  | .exit exitCode => if s.jvm = .running then some (beginExit s exitCode) else none
  | .receive msg => if s.listening && fromClient msg then some (s.evqPush true msg) else none
  | .listenerStops error =>
    if s.listening && (error || s.shutdownFd) then some { s with listening := false } else none
  | .loadClass name bytecode loader =>
    if s.jvm.loadsClasses then some (s.evqPush true (.classLoaded name bytecode loader)) else none

/-- Whether the process is gone. -/
def Jvm.isHalted : Jvm → Bool
  | .halted _ => true
  | _ => false

/-- The step of an action, if it can be taken. -/
def tryStep (s : State C) (a : Act C) : Option (State C) :=
  if s.jvm.isHalted then none else liveStep s a

/-- An action that cannot be taken leaves the state as it is. -/
def step (s : State C) (a : Act C) : State C := (tryStep s a).getD s

/-- The program ends only once `vm_init` has returned, so not during the startup pause, and
`Agent_OnUnload` is not called between the start of the agent thread and the end of `ps_start`,
which sets `thread_running`. -/
def Orderly (s : State C) : Act C → Prop
  | .exit _ => ∃ started, s.main = .done started
  | .exiting _ => (∃ exitCode, s.jvm = .exiting exitCode .sendShutdown) → s.main ≠ .setRunning
  | _ => True

end JautoProf.Shutdown
