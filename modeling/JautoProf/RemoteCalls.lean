import JautoProf.ClientReads
import JautoProf.EventLoop
import JautoProf.ListedStrings
import JautoProf.ProfilerRegistry
import JautoProf.UserIf

/-!
# Remote calls (`prof_client.py`, `prof-server.c`)

Each method of `ProfClient` packs its arguments, and takes the response apart that belongs to
them. `Call.unpack` is the second half of a method, on the message that `_recv_msg` returned.
`Served` is what the event thread had before it when it took a request: the request and the
server.

Results:
1. `unpack_response`: what a method returns, or the exception that it raises, is what the
   operation came to on the server.
2. `response_framed`: a response has the size that its header announces.
-/

namespace JautoProf

open Wire Utf8 Peek ProfClient

/-! ## What the methods return -/

namespace ProfClient

/-- The `status` of an instrument that was just made. -/
inductive MadeStatus
  | ok
  | deferred
deriving DecidableEq

/-- What `resume` and `pause_threads` say of the threads. -/
inductive ThreadsStatus
  | unblocked
  | nochange
  | paused
  | alreadyPaused
deriving DecidableEq

/-- What a method returns. -/
inductive Returned
  | none
  | strings (l : List (List UInt8))
  | stats (s : Stats)
  | made (status : MadeStatus) (instrumentId : Nat)
  | threads (status : ThreadsStatus)
  | instruments (l : List Instrument)
  | asyncErrors (l : List AsyncError)
  | status (shuttingDown paused : Bool)
deriving DecidableEq

/-- The exceptions of a method: those of its reads, and a `RuntimeError` with its text. -/
abbrev CallError := ClassMethodsError

/-- The result of a method. -/
abbrev CallResult := Except CallError Returned

/-- `raise RuntimeError`. -/
def runtimeError (text : String) : CallResult := .error (.runtimeError (literal text))

/-- A method that returns what its reads yield. -/
def returning {α : Type} (f : α → Returned) (x : Except PyError α) : CallResult :=
  (x.map f).mapError .read

/-- `struct.unpack("<I", ...)`. -/
def unpackI (body : List UInt8) : Except PyError Nat :=
  if body.length = 4 then .ok (ofLe body) else .error .structError

/-- `struct.unpack` of two unsigned integers of `m` and `n` bytes. -/
def unpackTwo (m n : Nat) (body : List UInt8) : Except PyError (Nat × Nat) :=
  if body.length = m + n then .ok (ofLe (body.take m), ofLe (body.drop m)) else .error .structError

/-- The status in a response of one word. -/
def statusOf (type : UserMsgType) (resp : UserMsg) : Except CallError Nat :=
  ((expect type resp).bind unpackI).mapError .read

/-- The words in a response of two. -/
def wordsOf (type : UserMsgType) (m n : Nat) (resp : UserMsg) : Except CallError (Nat × Nat) :=
  ((expect type resp).bind (unpackTwo m n)).mapError .read

def getStats (resp : UserMsg) : CallResult :=
  returning .stats ((expect .responseGetStats resp).bind parseStats)

def instrumentMethod (className methodSig : Str) (resp : UserMsg) : CallResult := do
  let (status, instrumentId) ← wordsOf .responseInstrumentMethod 4 8 resp
  if status = 1 then
    .error (.runtimeError (className ++ literal " " ++ methodSig ++
      literal s!" is already instrumented (instrument_id={instrumentId})"))
  else if status = 3 then .ok (.made .deferred instrumentId)
  else if status ≠ 0 then runtimeError "instrument_method failed"
  else .ok (.made .ok instrumentId)

def deinstrumentMethod (resp : UserMsg) : CallResult := do
  let status ← statusOf .responseDeinstrumentMethod resp
  if status ≠ 0 then runtimeError "deinstrument_method failed" else .ok .none

def resume (resp : UserMsg) : CallResult := do
  let status ← statusOf .responseResume resp
  if status = 2 then runtimeError "resume failed with error status"
  else .ok (.threads (if status = 0 then .unblocked else .nochange))

def pauseThreads (resp : UserMsg) : CallResult := do
  let status ← statusOf .responsePauseThreads resp
  if status = 2 then runtimeError "pause_threads failed"
  else if status = 3 then
    runtimeError "pause_threads failed: concurrent thread creation prevented a stable pause"
  else .ok (.threads (if status = 0 then .paused else .alreadyPaused))

def instrumentLine (resp : UserMsg) : CallResult := do
  let (status, instrumentId) ← wordsOf .responseInstrumentLine 4 8 resp
  if status = 2 then .ok (.made .deferred instrumentId)
  else if status ≠ 0 then runtimeError "instrument_line failed"
  else .ok (.made .ok instrumentId)

def getStatus (resp : UserMsg) : CallResult := do
  let (shuttingDown, paused) ← wordsOf .responseGetStatus 4 4 resp
  .ok (.status (shuttingDown ≠ 0) (paused ≠ 0))

def deinstrumentById (resp : UserMsg) : CallResult := do
  let status ← statusOf .responseDeinstrumentById resp
  if status ≠ 0 then runtimeError "deinstrument_by_id failed" else .ok .none

/-- What a method makes of the response; `shutdown` reads none. -/
def Call.unpack : Call → UserMsg → CallResult
  | .getLoadedClasses, resp => returning .strings (ProfClient.getLoadedClasses resp)
  | .getClassMethods className, resp => (ProfClient.getClassMethods className resp).map .strings
  | .instrumentMethod className methodSig, resp =>
    ProfClient.instrumentMethod className methodSig resp
  | .getStats, resp => ProfClient.getStats resp
  | .deinstrumentMethod _ _, resp => ProfClient.deinstrumentMethod resp
  | .shutdown, _ => .ok .none
  | .resume, resp => ProfClient.resume resp
  | .pauseThreads, resp => ProfClient.pauseThreads resp
  | .getInstruments, resp => returning .instruments (ProfClient.getInstruments resp)
  | .getAsyncErrors, resp => returning .asyncErrors (ProfClient.getAsyncErrors resp)
  | .deinstrumentById _, resp => ProfClient.deinstrumentById resp
  | .instrumentLine _ _ _ _, resp => ProfClient.instrumentLine resp
  | .getStatus, resp => ProfClient.getStatus resp

end ProfClient

/-! ## What the operations come to -/

variable {J C : Type}

/-- What the event thread had before it: the server, and the request that it took. -/
structure Served (J C : Type) where
  ps : ProfServer J C
  rq : UsrRq

/-- The id as a `uint64_t`. -/
def wireId (instrumentId : Nat) : Nat := (UInt64.ofNat instrumentId).toNat

/-- The item for an entry of the error log, whose time is an `int64_t`. -/
def loggedError (e : ProfErrEntry) : AsyncError :=
  ⟨toSigned 8 (e.timestamp % 256 ^ 8).toNat, e.msg.str⟩

/-- The operation, in terms of the client: what its method returns, or the exception that it
raises. There is no result where the JVM does not return the stats. -/
def Served.result (env : Env) (jvm : Jvm J) (v : Served J C) : Option CallResult :=
  match v.rq with
  | .loadedClasses =>
    some (.ok (.strings ((loadedClassNames v.ps.instrCtx.loadedClasses).map Pstring.str)))
  | .classMethods className => some <|
    match v.ps.instrCtx.cls className with
    | none => .error (.runtimeError (literal "no such class loaded: " ++ decode className.val))
    | some ci => .ok (.strings (ci.methods.map Pstring.str))
  | .instrumentMethod className methodSig => some <|
    let r := (ihInstrumentMethod env className methodSig).result v.ps.instrCtx
    match r.1 with
    | .ok => .ok (.made .ok (wireId r.2))
    | .deferred => .ok (.made .deferred (wireId r.2))
    | .doubleInstrument =>
      .error (.runtimeError (decode className.val ++ literal " " ++ decode methodSig.val ++
        literal s!" is already instrumented (instrument_id={wireId r.2})"))
    | .error => runtimeError "instrument_method failed"
  | .getStats => (jvm.getStats.result v.ps.threadPause.jvm).map fun stats =>
    returning .stats (parseStats stats)
  | .deinstrumentMethod className methodSig => some <|
    match (ihDeinstrumentMethod env className methodSig).result v.ps.instrCtx with
    | .ok => .ok .none
    | .fail => runtimeError "deinstrument_method failed"
  | .resume => some <| .ok <| .threads <|
    if v.ps.paused ∨ 0 < v.ps.threadPause.suspended.length then .unblocked else .nochange
  | .pauseThreads => some <|
    match (psThreadPauseSuspend jvm v.ps.agentThread).result v.ps.threadPause with
    | .ok => .ok (.threads .paused)
    | .race =>
      runtimeError "pause_threads failed: concurrent thread creation prevented a stable pause"
    | .error => runtimeError "pause_threads failed"
  | .listInstrumented => some <| .ok <| .instruments <|
    (listInstruments v.ps.instrCtx.masterInstruments).map fun r => listedInstrument r.1 r.2
  | .getAsyncErrors => some <| .ok <| .asyncErrors <|
    (v.ps.instrCtx.errLog.drop (v.ps.instrCtx.errLog.length - profErrLogCap)).map loggedError
  | .deinstrumentById instrumentId => some <|
    match (ihDeinstrumentById env instrumentId).result v.ps.instrCtx with
    | .ok => .ok .none
    | .fail => runtimeError "deinstrument_by_id failed"
  | .instrumentLine entryClass exitClass entryLine exitLine => some <|
    let r := (ihInstrumentLine env entryClass exitClass entryLine exitLine).result v.ps.instrCtx
    match r.1 with
    | .ok => .ok (.made .ok (wireId r.2))
    | .deferred => .ok (.made .deferred (wireId r.2))
    | .error | .doubleInstrument => runtimeError "instrument_line failed"
  | .getStatus => some <| .ok <| .status v.ps.shuttingDown
    (v.ps.paused || decide (0 < v.ps.threadPause.suspended.length))

/-- The byte array that the JVM returns has the length of one. -/
def StatsFit (jvm : Jvm J) : Prop :=
  ∀ (j : J) (stats : List UInt8), jvm.getStats.result j = some stats → stats.length < 2 ^ 31

/-! ## Reading a response -/

section Responses

theorem expect_of_type (type : UserMsgType) (size : UInt32) (body : List UInt8) :
    expect type ⟨type.code, size, body⟩ = .ok body := if_pos rfl

theorem statusOf_word (type : UserMsgType) (size : UInt32) {status : Nat} (h : status < 256 ^ 4) :
    statusOf type ⟨type.code, size, le 4 status⟩ = .ok status := by
  rw [statusOf, expect_of_type]
  show (unpackI (le 4 status)).mapError _ = _
  rw [unpackI, if_pos (le_length 4 status), ofLe_le h]
  rfl

theorem wordsOf_words (type : UserMsgType) (size : UInt32) {m n x y : Nat} (hx : x < 256 ^ m)
    (hy : y < 256 ^ n) :
    wordsOf type m n ⟨type.code, size, le m x ++ le n y⟩ = .ok (x, y) := by
  rw [wordsOf, expect_of_type]
  show (unpackTwo m n (le m x ++ le n y)).mapError _ = _
  rw [unpackTwo, if_pos (by simp), List.take_left' (le_length m x), List.drop_left' (le_length m x),
    ofLe_le hx, ofLe_le hy]
  rfl

theorem uifSendShortResponse_short {type : UserMsgType} {body : List UInt8} {msg : UserMsg}
    (h : uifSendShortResponse type body = some msg) :
    msg = ⟨type.code, UInt32.ofNat body.length, body⟩ := by
  unfold uifSendShortResponse at h
  split at h
  · cases h
  · exact (Option.some.inj h).symm

theorem wireId_lt (instrumentId : Nat) : wireId instrumentId < 256 ^ 8 :=
  (UInt64.ofNat instrumentId).toNat_lt

theorem le_wireId (instrumentId : Nat) : le 8 instrumentId = le 8 (wireId instrumentId) :=
  (le_mod 8 instrumentId).symm

end Responses

theorem reads_loggedError (e : ProfErrEntry) :
    Reads asyncError (asyncErrorBytes e) (loggedError e) := by
  have hlt : (e.timestamp % 256 ^ 8).toNat < 256 ^ 8 := by omega
  have htime : Reads (Reader.signed 8 (PyError.valueError "truncated timestamp"))
      (leInt 8 e.timestamp) (toSigned 8 (e.timestamp % 256 ^ 8).toNat) := by
    have hread := (Reads.bytes (leInt_length 8 e.timestamp)
      (PyError.valueError "truncated timestamp")).map fun bs => toSigned 8 (ofLe bs)
    rwa [leInt, ofLe_le hlt] at hread
  exact htime.bind ((reads_pstring _).map _)

/-- The last messages of the log are read back, oldest first. -/
theorem logged_errors_read (l : List ProfErrEntry) {ok : Bool} {msg : UserMsg}
    (h : uifRespondGetAsyncErrors (errLogRing l) ok = some msg) :
    getAsyncErrors msg = .ok ((l.drop (l.length - profErrLogCap)).map loggedError) := by
  have hholds : ErrLog.Holds (errLogRing l) (l.drop (l.length - profErrLogCap)) := by
    rw [← Ring.pushes_eq_drop ErrLog.profErrLogCap_pos]
    exact Ring.Holds.pushes ErrLog.holds_init l
  generalize l.drop (l.length - profErrLogCap) = last at hholds
  obtain ⟨size, hsize, hcount, -⟩ := ErrLog.profErrLogSize_eq hholds
  have hlt : last.length < 256 ^ 4 :=
    Nat.lt_of_le_of_lt (hholds.count ▸ hholds.count_le) (by decide)
  rw [uifRespondGetAsyncErrors, hsize, ErrLog.profErrLogEntries_eq hholds] at h
  cases ok with
  | false => cases h
  | true =>
    obtain rfl := Option.some.inj h
    rw [getAsyncErrors, hcount]
    exact listed_eq (fun e _ => reads_loggedError e) hlt _ _

/-- The visible entries of the master table are read back. -/
theorem listed_instruments_read (mi : MasterInstruments) {ok : Bool} {msg : UserMsg}
    (h : uifRespondListInstrumented mi ok = some msg) :
    ProfClient.getInstruments msg =
      .ok ((listInstruments mi).map fun r => listedInstrument r.1 r.2) := by
  obtain ⟨hfits, rfl⟩ := bodySize_le h
  have hsize := sizeListed_eq mi.tab.entries
  have hcount : (sizeListed mi.tab.entries).2 = (listInstruments mi).length := congrArg Prod.snd hsize
  have hlt : (listInstruments mi).length < 256 ^ 4 := by
    have hle := length_le_listedSize (listInstruments mi)
    have hsum : (sizeListed mi.tab.entries).1 =
        4 + ((listInstruments mi).map fun r => listedSize r.2).sum := congrArg Prod.fst hsize
    have hfits : (sizeListed mi.tab.entries).1 ≤ uint32Max := hfits
    unfold uint32Max at hfits
    omega
  rw [hcount, writeListed_eq, ProfClient.getInstruments]
  exact listed_eq (fun r _ => reads_instrument r.1 r.2) hlt _ _

/-- `get_class_methods` where the class is not loaded. -/
theorem class_not_loaded_read (className : Str) {ok : Bool} {msg : UserMsg}
    (h : uifRespondClassMethods none ok = some msg) :
    ProfClient.getClassMethods className msg =
      .error (.runtimeError (literal "no such class loaded: " ++ className)) := by
  obtain ⟨-, rfl⟩ := bodySize_le h
  rw [ProfClient.getClassMethods, expect_of_type]
  rfl

theorem InstrumentRespStatus.code_lt (status : InstrumentRespStatus) : status.code < 256 ^ 4 := by
  cases status <;> decide

theorem InstrumentRespStatus.lineCode_lt (status : InstrumentRespStatus) :
    status.lineCode < 256 ^ 4 := by
  cases status <;> decide

/-- What a method makes of the response to its request is the result of the operation. -/
theorem unpack_response {env : Env} {jvm : Jvm J} (h : HeapOk env jvm) {v : Served J C} {client : C}
    {call : ProfClient.Call} (hcall : PsMsg.Carries client (.usrRq client v.rq) call) {msg : UserMsg}
    (hmsg : response env jvm v.ps v.rq = some msg) : v.result env jvm = some (call.unpack msg) := by
  obtain ⟨ps, rq⟩ := v
  have hword : ∀ {type : UserMsgType} {status : Nat},
      uifSendShortResponse type (le 4 status) = some msg → status < 256 ^ 4 →
        statusOf type msg = .ok status := by
    intro type status hsend hlt
    obtain rfl := uifSendShortResponse_short hsend
    exact statusOf_word type _ hlt
  have hwords : ∀ {type : UserMsgType} {n status x : Nat},
      uifSendShortResponse type (le 4 status ++ le n x) = some msg → status < 256 ^ 4 →
        x < 256 ^ n → wordsOf type 4 n msg = .ok (status, x) := by
    intro type n status x hsend hlt hx
    obtain rfl := uifSendShortResponse_short hsend
    exact wordsOf_words type _ hlt hx
  cases hcall with
  | getLoadedClasses =>
    simp only [Served.result, ProfClient.Call.unpack, loaded_classes_read_back hmsg]
    rfl
  | getClassMethods hs =>
    rename_i c s
    have hmsg : uifRespondClassMethods (ps.instrCtx.cls c) _ = some msg := hmsg
    simp only [Served.result, ProfClient.Call.unpack]
    cases hci : ps.instrCtx.cls c with
    | none =>
      rw [hci] at hmsg
      rw [class_not_loaded_read s hmsg, decode_encode hs]
      rfl
    | some ci =>
      rw [hci] at hmsg
      rw [class_methods_read_back s hmsg]
      rfl
  | instrumentMethod hs ht =>
    rename_i c m s t
    simp only [response, uifRespondInstrument] at hmsg
    simp only [Served.result, ProfClient.Call.unpack, ProfClient.instrumentMethod]
    generalize (ihInstrumentMethod env c m).result ps.instrCtx = r at *
    obtain ⟨status, id⟩ := r
    cases status with
    | ok | deferred =>
      rw [if_pos (by simp), le_wireId] at hmsg
      rw [hwords hmsg (InstrumentRespStatus.code_lt _) (wireId_lt id)]
      rfl
    | doubleInstrument =>
      rw [if_pos (by simp), le_wireId] at hmsg
      rw [hwords hmsg (InstrumentRespStatus.code_lt _) (wireId_lt id), decode_encode hs,
          decode_encode ht]
      rfl
    | error =>
      rw [if_neg (by simp)] at hmsg
      rw [hwords hmsg (InstrumentRespStatus.code_lt _) (by decide)]
      rfl
  | getStats =>
    simp only [response, stats_eq h] at hmsg
    obtain ⟨stats, hstats, hmsg⟩ := Option.bind_eq_some_iff.mp hmsg
    have halloc : ∀ w : World, (malloc env).result w = true := fun w => h.alloc w.allocs
    rw [uifRespondGetStats, if_pos (halloc _)] at hmsg
    obtain rfl := Option.some.inj hmsg
    simp only [Served.result, ProfClient.Call.unpack, ProfClient.getStats, expect_of_type, hstats]
    rfl
  | deinstrumentMethod hs ht =>
    rename_i c m s t
    simp only [response, uifRespondDeinstrument] at hmsg
    simp only [Served.result, ProfClient.Call.unpack, ProfClient.deinstrumentMethod]
    cases hr : (ihDeinstrumentMethod env c m).result ps.instrCtx <;> rw [hr] at hmsg <;>
      rw [hword hmsg (by decide)] <;> rfl
  | resume =>
    simp only [response, uifRespondResume] at hmsg
    simp only [Served.result, ProfClient.Call.unpack, ProfClient.resume]
    split <;> rename_i hp <;> simp only [hp, if_true, if_false] at hmsg <;>
      rw [hword hmsg (by decide)] <;> rfl
  | pauseThreads =>
    simp only [response, uifRespondPauseThreads] at hmsg
    simp only [Served.result, ProfClient.Call.unpack, ProfClient.pauseThreads]
    cases hr : (psThreadPauseSuspend jvm ps.agentThread).result ps.threadPause <;>
      rw [hr] at hmsg <;> rw [hword hmsg (by decide)] <;> rfl
  | getInstruments =>
    simp only [Served.result, ProfClient.Call.unpack, listed_instruments_read _ hmsg]
    rfl
  | getAsyncErrors =>
    simp only [Served.result, ProfClient.Call.unpack, logged_errors_read _ hmsg]
    rfl
  | deinstrumentById i =>
    simp only [response, uifRespondDeinstrumentById] at hmsg
    simp only [Served.result, ProfClient.Call.unpack, ProfClient.deinstrumentById]
    cases hr : (ihDeinstrumentById env i).result ps.instrCtx <;> rw [hr] at hmsg <;>
      rw [hword hmsg (by decide)] <;> rfl
  | instrumentLine hs ht entryLine exitLine =>
    rename_i c d s t
    simp only [response, uifRespondInstrumentLine] at hmsg
    simp only [Served.result, ProfClient.Call.unpack, ProfClient.instrumentLine]
    generalize (ihInstrumentLine env c d entryLine exitLine).result ps.instrCtx = r at *
    obtain ⟨status, id⟩ := r
    rw [le_wireId] at hmsg
    rw [hwords hmsg (InstrumentRespStatus.lineCode_lt _) (wireId_lt id)]
    cases status <;> rfl
  | getStatus =>
    simp only [response, uifRespondGetStatus] at hmsg
    simp only [Served.result, ProfClient.Call.unpack, ProfClient.getStatus]
    generalize (ps.paused || decide (0 < ps.threadPause.suspended.length)) = paused at *
    cases hsd : ps.shuttingDown <;> cases paused <;> rw [hsd] at hmsg <;>
      rw [hwords hmsg (by decide) (by decide)] <;> rfl

/-! ## The size of a response -/

theorem uifRespondGetAsyncErrors_framed (l : List ProfErrEntry) {ok : Bool} {msg : UserMsg}
    (h : uifRespondGetAsyncErrors (errLogRing l) ok = some msg) : msg.Framed := by
  obtain ⟨last, hholds⟩ := errLogRing_holds l
  obtain ⟨size, hsize, -, hover⟩ := ErrLog.profErrLogSize_eq hholds
  have hlen : last.length ≤ profErrLogCap := hholds.count ▸ hholds.count_le
  have hle := overhead_le last
  unfold profErrLogCap at hlen
  rw [uifRespondGetAsyncErrors, hsize, ErrLog.profErrLogEntries_eq hholds] at h
  cases ok with
  | false => cases h
  | true =>
    obtain rfl := Option.some.inj h
    show (le 4 size.count ++ last.flatMap asyncErrorBytes).length =
      (4 + UInt32.ofNat size.overheadSize).toNat
    rw [List.length_append, le_length, writeAsyncErrors_length, hover, toNat_bodySize (by omega)]

theorem sizedResponse_framed {type : UserMsgType} {bodySize : Nat} {body : List UInt8} {ok : Bool}
    {msg : UserMsg} (h : sizedResponse type bodySize body ok = some msg)
    (hbody : body.length = bodySize) : msg.Framed := by
  obtain ⟨hsize, rfl⟩ := bodySize_le h
  show body.length = (UInt32.ofNat bodySize).toNat
  rw [hbody]
  exact (UInt32.toNat_ofNat_of_lt' (Nat.lt_of_le_of_lt hsize (by decide))).symm

theorem uifSendShortResponse_framed {type : UserMsgType} {body : List UInt8} {msg : UserMsg}
    (h : uifSendShortResponse type body = some msg) : msg.Framed := by
  unfold uifSendShortResponse at h
  split_ifs at h with hle
  obtain rfl := Option.some.inj h
  have hlt : body.length < 2 ^ 32 := by
    unfold uifShortRespMaxBody at hle
    omega
  exact (UInt32.toNat_ofNat_of_lt' hlt).symm

/-- A response has the size that its header announces. -/
theorem response_framed {env : Env} {jvm : Jvm J} (hok : HeapOk env jvm) (hfit : StatsFit jvm)
    {ps : ProfServer J C} {rq : UsrRq} {msg : UserMsg} (h : response env jvm ps rq = some msg) :
    msg.Framed := by
  cases rq with
  | loadedClasses =>
    refine sizedResponse_framed h ?_
    rw [List.length_append, le_length, writeStrings_length]
  | classMethods className =>
    refine sizedResponse_framed h ?_
    rw [List.length_append, List.length_append, le_length, le_length, writeStrings_length]
    omega
  | listInstrumented =>
    refine sizedResponse_framed h ?_
    rw [List.length_append, le_length, writeListed_length]
  | getStats =>
    simp only [response, stats_eq hok] at h
    obtain ⟨stats, hstats, h⟩ := Option.bind_eq_some_iff.mp h
    have hlt := hfit _ _ hstats
    unfold uifRespondGetStats at h
    split at h
    · obtain rfl := Option.some.inj h
      exact (UInt32.toNat_ofNat_of_lt' (Nat.lt_trans hlt (by decide))).symm
    · cases h
  | getAsyncErrors => exact uifRespondGetAsyncErrors_framed _ h
  | instrumentMethod | deinstrumentMethod | resume | pauseThreads | deinstrumentById
  | instrumentLine | getStatus =>
    unfold response at h
    exact uifSendShortResponse_framed h

end JautoProf
