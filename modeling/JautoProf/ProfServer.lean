import JautoProf.PsMsg
import JautoProf.ThreadState
import JautoProf.UifResponse

/-!
# The handlers of the event loop (`prof-server.c`)

`ProfServer` is `struct prof_server`, with the client interface as the handlers see it: the
clients that were closed, and what was sent. `C` stands for `struct user_if_client *`. The
messages to the log, the condition that the main thread waits on and the blocker of the
shutdown are left out.

Results:
1. `handleUsrRq_uif`: a handler sends the response to its request and nothing else.
2. `response_type`: a response has the type that belongs to its request.
3. `response_isSome_iff`: which requests are responded to when the allocations succeed.
-/

namespace JautoProf

/-- The client interface: the closed clients, and the messages sent, in order. -/
structure UserIf (C : Type) where
  closed : List C
  sent : List (C × UserMsg)

/-- `struct prof_server`. -/
structure ProfServer (J C : Type) where
  instrCtx : World
  paused : Bool
  shuttingDown : Bool
  threadPause : ThreadPause J
  agentThread : Option JThread
  uif : UserIf C

/-- `ps_init`; `pauseOnStart` is what `prof_pause_on_start` returns. -/
def psInit {J : Type} (C : Type) (pauseOnStart : Bool) (agentThread : Option JThread) (j : J) :
    ProfServer J C where
  instrCtx := ihCtxInit
  paused := pauseOnStart
  shuttingDown := false
  threadPause := ⟨[], j⟩
  agentThread := agentThread
  uif := ⟨[], []⟩

/-- The programs of the event thread. -/
abbrev ServerM (J C : Type) := Prog (ProfServer J C)

variable {J C : Type}

namespace ProfServer

/-- Run a program of the instruments. -/
def onCtx {α : Type} (x : M α) : ServerM J C α :=
  .zoom ProfServer.instrCtx (fun w s => { s with instrCtx := w }) x

/-- Run a program of the thread pause. -/
def onPause {α : Type} (x : Prog (ThreadPause J) α) : ServerM J C α :=
  .zoom ProfServer.threadPause (fun t s => { s with threadPause := t }) x

end ProfServer

open ProfServer

variable [DecidableEq C]

/-- `uif_send`: nothing is sent to a client that was closed. -/
def uifSend (client : C) (msg : UserMsg) : ServerM J C Unit :=
  .update fun s =>
    if client ∈ s.uif.closed then s
    else { s with uif := { s.uif with sent := s.uif.sent ++ [(client, msg)] } }

/-- Send what a function of `uif-response.c` sends. -/
def respond (client : C) : Option UserMsg → ServerM J C Unit
  | none => pure ()
  | some msg => uifSend client msg

variable (env : Env) (jvm : Jvm J)

/-! ## The handlers -/

def handleUsrRqLoadedClasses (client : C) : ServerM J C Unit := do
  let ctx ← .read ProfServer.instrCtx
  let ok ← onCtx (malloc env)
  respond client (uifRespondLoadedClasses ctx.loadedClasses ok)

def handleUsrRqClassMethods (client : C) (className : CStr) : ServerM J C Unit := do
  let ctx ← .read ProfServer.instrCtx
  let ok ← onCtx (malloc env)
  respond client (uifRespondClassMethods (ctx.cls className) ok)

def handleUsrRqInstrumentMethod (client : C) (className methodSig : CStr) : ServerM J C Unit := do
  let r ← onCtx (ihInstrumentMethod env className methodSig)
  respond client (uifRespondInstrument r.1 r.2)

/-- `jni_get_profiler_stats`; the class of the registry was found before the event loop
started. -/
def jniGetProfilerStats : ServerM J C (Option (List UInt8)) := do
  let result ← onPause (ThreadPause.call jvm.getStats)
  match result with
  | none => pure none
  | some stats => do
    let buf ← onPause (ThreadPause.call (jvm.malloc stats.length))
    pure (if buf then some stats else none)

def handleUsrRqGetStats (client : C) : ServerM J C Unit := do
  let stats ← jniGetProfilerStats jvm
  match stats with
  | none => pure ()
  | some stats => do
    let ok ← onCtx (malloc env)
    respond client (uifRespondGetStats stats ok)

def handleUsrRqDeinstrumentMethod (client : C) (className methodSig : CStr) : ServerM J C Unit := do
  let status ← onCtx (ihDeinstrumentMethod env className methodSig)
  respond client (uifRespondDeinstrument status)

def handleUsrRqDeinstrumentById (client : C) (instrumentId : Nat) : ServerM J C Unit := do
  let status ← onCtx (ihDeinstrumentById env instrumentId)
  respond client (uifRespondDeinstrumentById status)

/-- The ring of the error log. -/
def errLogRing (entries : List ProfErrEntry) : ProfErrLog :=
  entries.foldl (fun log e => log.push profErrLogCap e) ErrLog.profErrLogInit

def handleUsrRqGetAsyncErrors (client : C) : ServerM J C Unit := do
  let ctx ← .read ProfServer.instrCtx
  let ok ← onCtx (malloc env)
  respond client (uifRespondGetAsyncErrors (errLogRing ctx.errLog) ok)

def handleUsrRqListInstrumented (client : C) : ServerM J C Unit := do
  let ctx ← .read ProfServer.instrCtx
  let ok ← onCtx (malloc env)
  respond client (uifRespondListInstrumented ctx.masterInstruments ok)

def handleUsrRqPauseThreads (client : C) : ServerM J C Unit := do
  let agentThread ← .read ProfServer.agentThread
  let r ← onPause (psThreadPauseSuspend jvm agentThread)
  let status := match r with
    | .ok => PauseThreadsRespStatus.ok
    | .race => .raceFailure
    | .error => .error
  respond client (uifRespondPauseThreads status)

def handleUsrRqInstrumentLine (client : C) (entryClass exitClass : Pstring)
    (entryLine exitLine : UInt32) : ServerM J C Unit := do
  let r ← onCtx (ihInstrumentLine env entryClass exitClass entryLine exitLine)
  respond client (uifRespondInstrumentLine r.1 r.2)

/-- `resume_vm`. -/
def resumeVm : ServerM J C Bool := do
  let wasPaused ← .read ProfServer.paused
  .update fun s => { s with paused := false }
  pure wasPaused

def handleUsrRqResume (client : C) : ServerM J C Unit := do
  let wasPaused ← resumeVm
  if wasPaused then respond client (uifRespondResume .unblocked)
  else do
    let threadPause ← .read ProfServer.threadPause
    if 0 < threadPause.suspended.length then do
      let ret ← onPause (psThreadPauseResume jvm)
      respond client (uifRespondResume (if ret = 0 then .unblocked else .error))
    else respond client (uifRespondResume .nochange)

def handleUsrRqGetStatus (client : C) : ServerM J C Unit := do
  let ps ← .read id
  let paused := ps.paused || decide (0 < ps.threadPause.suspended.length)
  respond client (uifRespondGetStatus ps.shuttingDown paused)

def handleUsrRq (client : C) : UsrRq → ServerM J C Unit
  | .loadedClasses => handleUsrRqLoadedClasses env client
  | .classMethods className => handleUsrRqClassMethods env client className
  | .instrumentMethod className methodSig =>
    handleUsrRqInstrumentMethod env client className methodSig
  | .getStats => handleUsrRqGetStats env jvm client
  | .deinstrumentMethod className methodSig =>
    handleUsrRqDeinstrumentMethod env client className methodSig
  | .resume => handleUsrRqResume jvm client
  | .pauseThreads => handleUsrRqPauseThreads jvm client
  | .listInstrumented => handleUsrRqListInstrumented env client
  | .getAsyncErrors => handleUsrRqGetAsyncErrors env client
  | .deinstrumentById instrumentId => handleUsrRqDeinstrumentById env client instrumentId
  | .instrumentLine entryClass exitClass entryLine exitLine =>
    handleUsrRqInstrumentLine env client entryClass exitClass entryLine exitLine
  | .getStatus => handleUsrRqGetStatus client

/-- `dispatch`; the event loop ends when it returns `false`. -/
def dispatch : PsMsg C → ServerM J C Bool
  | .classLoaded name bytecode loader => do
    onCtx (handleClassLoaded env name bytecode loader)
    pure true
  | .usrRq client rq => do
    handleUsrRq env jvm client rq
    pure true
  | .shutdown => pure false
  | .shutdownRequest _ _ => pure false
  | .shutdownStarting => do
    .update fun s => { s with shuttingDown := true }
    pure true

/-! ## The responses -/

/-- What `uif_send` makes of a message, if there is one. -/
def UserIf.add (uif : UserIf C) (client : C) : Option UserMsg → UserIf C
  | none => uif
  | some msg =>
    if client ∈ uif.closed then uif else { uif with sent := uif.sent ++ [(client, msg)] }

theorem UserIf.closed_add (uif : UserIf C) (client : C) (r : Option UserMsg) :
    (uif.add client r).closed = uif.closed := by
  unfold UserIf.add
  split
  · rfl
  · split <;> rfl

theorem respond_final (client : C) (r : Option UserMsg) (s : ProfServer J C) :
    (respond client r).final s = { s with uif := s.uif.add client r } := by
  cases r with
  | none => rfl
  | some msg =>
    unfold respond uifSend UserIf.add
    rw [Prog.final_update]
    split <;> rfl

theorem uif_respond (client : C) (r : Option UserMsg) (s : ProfServer J C) :
    ((respond client r).final s).uif = s.uif.add client r :=
  congrArg ProfServer.uif (respond_final client r s)

/-- The stats that `jni_get_profiler_stats` yields. -/
def ProfServer.stats (s : ProfServer J C) : Option (List UInt8) := (jniGetProfilerStats jvm).result s

/-- The message that the handler of a request sends. -/
def response (s : ProfServer J C) : UsrRq → Option UserMsg
  | .loadedClasses =>
    uifRespondLoadedClasses s.instrCtx.loadedClasses ((malloc env).result s.instrCtx)
  | .classMethods className =>
    uifRespondClassMethods (s.instrCtx.cls className) ((malloc env).result s.instrCtx)
  | .instrumentMethod className methodSig =>
    let r := (ihInstrumentMethod env className methodSig).result s.instrCtx
    uifRespondInstrument r.1 r.2
  | .getStats => (s.stats jvm).bind fun stats =>
    uifRespondGetStats stats ((malloc env).result ((jniGetProfilerStats jvm).final s).instrCtx)
  | .deinstrumentMethod className methodSig =>
    uifRespondDeinstrument ((ihDeinstrumentMethod env className methodSig).result s.instrCtx)
  | .resume => uifRespondResume
    (if s.paused ∨ 0 < s.threadPause.suspended.length then .unblocked else .nochange)
  | .pauseThreads => uifRespondPauseThreads
    (match (psThreadPauseSuspend jvm s.agentThread).result s.threadPause with
      | .ok => .ok
      | .race => .raceFailure
      | .error => .error)
  | .listInstrumented =>
    uifRespondListInstrumented s.instrCtx.masterInstruments ((malloc env).result s.instrCtx)
  | .getAsyncErrors =>
    uifRespondGetAsyncErrors (errLogRing s.instrCtx.errLog) ((malloc env).result s.instrCtx)
  | .deinstrumentById instrumentId =>
    uifRespondDeinstrumentById ((ihDeinstrumentById env instrumentId).result s.instrCtx)
  | .instrumentLine entryClass exitClass entryLine exitLine =>
    let r := (ihInstrumentLine env entryClass exitClass entryLine exitLine).result s.instrCtx
    uifRespondInstrumentLine r.1 r.2
  | .getStatus => uifRespondGetStatus s.shuttingDown
    (s.paused || decide (0 < s.threadPause.suspended.length))

omit [DecidableEq C] in
theorem jniGetProfilerStats_uif (s : ProfServer J C) :
    ((jniGetProfilerStats jvm).final s).uif = s.uif := by
  unfold jniGetProfilerStats
  rw [Prog.final_bind]
  split <;> rfl

theorem handleUsrRqGetStats_uif (client : C) (s : ProfServer J C) :
    ((handleUsrRqGetStats env jvm client).final s).uif =
      s.uif.add client (response env jvm s .getStats) := by
  have huif := jniGetProfilerStats_uif jvm s
  simp only [handleUsrRqGetStats, response, ProfServer.stats, Prog.final_bind]
  cases hstats : (jniGetProfilerStats jvm).result s with
  | none => exact huif
  | some stats =>
    rw [← huif]
    exact uif_respond client _ _

theorem psThreadPauseResume_result (s : ThreadPause J) : (psThreadPauseResume jvm).result s = 0 := by
  unfold psThreadPauseResume
  simp only [Prog.result_bind, Prog.result_ite]
  split <;> rfl

/-- What a resume leaves behind: the startup pause is released, and the recorded threads are
resumed when it was not in effect. -/
theorem handleUsrRqResume_final (client : C) (s : ProfServer J C) :
    (handleUsrRqResume jvm client).final s = (respond client (response env jvm s .resume)).final
      (if s.paused then { s with paused := false }
        else if 0 < s.threadPause.suspended.length then
          { s with threadPause := (psThreadPauseResume jvm).final s.threadPause, paused := false }
        else { s with paused := false }) := by
  simp only [handleUsrRqResume, response, Prog.final_bind, Prog.final_ite]
  cases hpaused : s.paused with
  | true =>
    have hr : (resumeVm : ServerM J C Bool).result s = true := hpaused
    rw [if_pos hr, if_pos rfl, if_pos (Or.inl rfl)]
    rfl
  | false =>
    have hr : ¬ (resumeVm : ServerM J C Bool).result s = true := by
      show ¬ s.paused = true
      rw [hpaused]
      exact Bool.false_ne_true
    rw [if_neg hr, if_neg Bool.false_ne_true]
    by_cases hsus : 0 < s.threadPause.suspended.length
    · rw [if_pos hsus, if_pos (Or.inr hsus)]
      refine (if_pos hsus).trans ?_
      have h0 := psThreadPauseResume_result jvm s.threadPause
      show (respond client (uifRespondResume
        (if (psThreadPauseResume jvm).result s.threadPause = 0 then .unblocked
          else .error))).final _ = _
      rw [h0, if_pos rfl]
      rfl
    · rw [if_neg hsus, if_neg (not_or.mpr ⟨Bool.false_ne_true, hsus⟩)]
      exact if_neg hsus

theorem handleUsrRqResume_uif (client : C) (s : ProfServer J C) :
    ((handleUsrRqResume jvm client).final s).uif =
      s.uif.add client (response env jvm s .resume) := by
  rw [handleUsrRqResume_final env, uif_respond]
  split
  · rfl
  · split <;> rfl

/-- A handler sends the response to its request, once, and nothing else. -/
theorem handleUsrRq_uif (client : C) (rq : UsrRq) (s : ProfServer J C) :
    ((handleUsrRq env jvm client rq).final s).uif = s.uif.add client (response env jvm s rq) := by
  cases rq with
  | getStats => exact handleUsrRqGetStats_uif env jvm client s
  | resume => exact handleUsrRqResume_uif env jvm client s
  | pauseThreads => exact uif_respond client _ _
  | loadedClasses => exact uif_respond client _ _
  | classMethods => exact uif_respond client _ _
  | instrumentMethod => exact uif_respond client _ _
  | deinstrumentMethod => exact uif_respond client _ _
  | listInstrumented => exact uif_respond client _ _
  | getAsyncErrors => exact uif_respond client _ _
  | deinstrumentById => exact uif_respond client _ _
  | instrumentLine => exact uif_respond client _ _
  | getStatus => exact uif_respond client _ _

/-! ## Which requests are responded to -/

theorem uifSendShortResponse_eq_some {type : UserMsgType} {body : List UInt8} {msg : UserMsg}
    (h : uifSendShortResponse type body = some msg) : msg.type = type.code := by
  unfold uifSendShortResponse at h
  split at h
  · cases h
  · cases h
    rfl

theorem sizedResponse_type {type : UserMsgType} {bodySize : Nat} {body : List UInt8} {ok : Bool}
    {msg : UserMsg} (h : sizedResponse type bodySize body ok = some msg) : msg.type = type.code := by
  unfold sizedResponse at h
  split at h
  · cases h
  · split at h
    · cases h
      rfl
    · cases h

omit [DecidableEq C] in
/-- A response has the type that belongs to its request. -/
theorem response_type {s : ProfServer J C} {rq : UsrRq} {msg : UserMsg}
    (h : response env jvm s rq = some msg) : msg.type = rq.responseType.code := by
  cases rq with
  | loadedClasses | classMethods | listInstrumented => exact sizedResponse_type h
  | instrumentMethod | deinstrumentMethod | resume | pauseThreads | deinstrumentById
  | instrumentLine | getStatus =>
    unfold response at h
    exact uifSendShortResponse_eq_some h
  | getStats =>
    obtain ⟨stats, -, h⟩ := Option.bind_eq_some_iff.mp h
    unfold uifRespondGetStats at h
    split at h
    · cases h
      rfl
    · cases h
  | getAsyncErrors =>
    obtain ⟨size, -, h⟩ := Option.bind_eq_some_iff.mp h
    obtain ⟨entries, -, h⟩ := Option.bind_eq_some_iff.mp h
    split at h
    · cases h
      rfl
    · cases h

/-- Heap allocation succeeds. -/
structure HeapOk (env : Env) (jvm : Jvm J) : Prop where
  alloc : ∀ n, env.alloc n = true
  tabAlloc : ∀ n, env.tabAlloc n = true
  malloc : ∀ size j, (jvm.malloc size).result j = true

/-- The body of the response fits in 32 bits, and the JVM returns the stats. -/
def Answerable (s : ProfServer J C) : UsrRq → Prop
  | .loadedClasses =>
    4 + stringsSize (loadedClassNames s.instrCtx.loadedClasses) ≤ uint32Max
  | .classMethods className =>
    8 + stringsSize (((s.instrCtx.cls className).map ClassInfo.methods).getD []) ≤ uint32Max
  | .listInstrumented => (sizeListed s.instrCtx.masterInstruments.tab.entries).1 ≤ uint32Max
  | .getStats => (jvm.getStats.result s.threadPause.jvm).isSome
  | _ => True

theorem sizedResponse_isSome (type : UserMsgType) (bodySize : Nat) (body : List UInt8) :
    (sizedResponse type bodySize body true).isSome ↔ bodySize ≤ uint32Max := by
  unfold sizedResponse
  split
  · next hlt => simpa using hlt
  · next hge => simpa using hge

theorem errLogRing_holds (l : List ProfErrEntry) : ∃ l', ErrLog.Holds (errLogRing l) l' := by
  have hmain : ∀ (l : List ProfErrEntry) (log : ProfErrLog) (l' : List ProfErrEntry),
      ErrLog.Holds log l' →
        ∃ l'', ErrLog.Holds (l.foldl (fun log e => log.push profErrLogCap e) log) l'' := by
    intro l
    induction l with
    | nil => exact fun log l' h => ⟨l', h⟩
    | cons e l ih => exact fun log l' h => ih _ _ (Ring.Holds.push h e)
  exact hmain l _ [] ErrLog.holds_init

theorem getAsyncErrors_isSome (l : List ProfErrEntry) :
    (uifRespondGetAsyncErrors (errLogRing l) true).isSome := by
  obtain ⟨l', h⟩ := errLogRing_holds l
  obtain ⟨size, hsize, -, -⟩ := ErrLog.profErrLogSize_eq h
  rw [uifRespondGetAsyncErrors, hsize, ErrLog.profErrLogEntries_eq h]
  rfl

omit [DecidableEq C] in
theorem stats_eq {env : Env} {jvm : Jvm J} (h : HeapOk env jvm) (s : ProfServer J C) :
    s.stats jvm = jvm.getStats.result s.threadPause.jvm := by
  have hresult : (onPause (ThreadPause.call jvm.getStats) : ServerM J C _).result s =
      jvm.getStats.result s.threadPause.jvm := rfl
  unfold ProfServer.stats jniGetProfilerStats
  rw [Prog.result_bind, hresult]
  cases jvm.getStats.result s.threadPause.jvm with
  | none => rfl
  | some stats => exact if_pos (h.malloc _ _)

omit [DecidableEq C] in
/-- When the allocations succeed, the answerable requests are responded to, and no others. -/
theorem response_isSome_iff (h : HeapOk env jvm) (s : ProfServer J C) (rq : UsrRq) :
    (response env jvm s rq).isSome ↔ Answerable jvm s rq := by
  have halloc : ∀ w : World, (malloc env).result w = true := fun w => h.alloc w.allocs
  cases rq with
  | loadedClasses | classMethods | listInstrumented =>
    simp only [response, halloc]
    exact sizedResponse_isSome _ _ _
  | instrumentMethod | deinstrumentMethod | resume | pauseThreads | deinstrumentById
  | instrumentLine | getStatus => exact iff_of_true rfl trivial
  | getAsyncErrors =>
    simp only [response, halloc]
    exact iff_of_true (getAsyncErrors_isSome _) trivial
  | getStats =>
    rw [response, stats_eq h]
    show _ ↔ (jvm.getStats.result s.threadPause.jvm).isSome
    cases jvm.getStats.result s.threadPause.jvm with
    | none => rfl
    | some stats =>
      rw [Option.bind_some, halloc]
      rfl

end JautoProf
