import JautoProf.ProfErrLog
import JautoProf.Server

/-!
# Responses (`uif-response.c`)

Each function returns the message that it passes to `uif_send`, or `none` where it returns
without sending one. A body that is built in two passes has the size that the first pass
computes and the bytes that the second one writes.

Results:
1. `writeStrings_length`, `writeListed_length`, `writeAsyncErrors_length`: a writing pass
   writes as many bytes as its sizing pass counts.
-/

namespace JautoProf

/-- `UINT32_MAX`. -/
def uint32Max : Nat := 4294967295

/-- `UIF_SHORT_RESP_MAX_BODY`. -/
def uifShortRespMaxBody : Nat := 2048

/-- `uif_send_short_response`. -/
def uifSendShortResponse (type : UserMsgType) (body : List UInt8) : Option UserMsg :=
  if uifShortRespMaxBody < body.length then none
  else some ⟨type.code, UInt32.ofNat body.length, body⟩

/-- A response whose body is sized first and then written; `ok` says whether the allocation
of the message succeeds. -/
def sizedResponse (type : UserMsgType) (bodySize : Nat) (body : List UInt8) (ok : Bool) :
    Option UserMsg :=
  if uint32Max < bodySize then none
  else if ok then some ⟨type.code, UInt32.ofNat bodySize, body⟩
  else none

theorem sizedResponse_eq {bodySize : Nat} (h : bodySize ≤ uint32Max) (type : UserMsgType)
    (body : List UInt8) :
    sizedResponse type bodySize body true = some ⟨type.code, UInt32.ofNat bodySize, body⟩ := by
  rw [sizedResponse, if_neg (Nat.not_lt.mpr h)]
  rfl

theorem sizedResponse_body {type : UserMsgType} {bodySize : Nat} {body : List UInt8} {ok : Bool}
    {msg : UserMsg} (h : sizedResponse type bodySize body ok = some msg) : msg.body = body := by
  unfold sizedResponse at h
  split_ifs at h
  rw [← Option.some.inj h]

/-! ## Short responses -/

/-- `enum instrument_resp_status`. -/
def InstrumentRespStatus.code : InstrumentRespStatus → Nat
  | ok => 0
  | doubleInstrument => 1
  | error => 2
  | deferred => 3

/-- `enum instrument_line_resp_status`, which has no number for `doubleInstrument`. -/
def InstrumentRespStatus.lineCode : InstrumentRespStatus → Nat
  | ok => 0
  | error | doubleInstrument => 1
  | deferred => 2

def DeinstrumentRespStatus.code : DeinstrumentRespStatus → Nat
  | ok => 0
  | fail => 1

/-- `enum resume_resp_status`. -/
inductive ResumeRespStatus
  | unblocked
  | nochange
  | error
deriving DecidableEq

def ResumeRespStatus.code : ResumeRespStatus → Nat
  | unblocked => 0
  | nochange => 1
  | error => 2

/-- `enum pause_threads_resp_status`. -/
inductive PauseThreadsRespStatus
  | ok
  | alreadyPaused
  | error
  | raceFailure
deriving DecidableEq

def PauseThreadsRespStatus.code : PauseThreadsRespStatus → Nat
  | ok => 0
  | alreadyPaused => 1
  | error => 2
  | raceFailure => 3

/-- `uif_respond_instrument`. -/
def uifRespondInstrument (status : InstrumentRespStatus) (instrumentId : Nat) : Option UserMsg :=
  let hasId := status = .ok ∨ status = .deferred ∨ status = .doubleInstrument
  uifSendShortResponse .responseInstrumentMethod
    (Wire.le 4 status.code ++ Wire.le 8 (if hasId then instrumentId else 0))

/-- `uif_respond_instrument_line`. -/
def uifRespondInstrumentLine (status : InstrumentRespStatus) (instrumentId : Nat) : Option UserMsg :=
  uifSendShortResponse .responseInstrumentLine (Wire.le 4 status.lineCode ++ Wire.le 8 instrumentId)

/-- `uif_respond_deinstrument`. -/
def uifRespondDeinstrument (status : DeinstrumentRespStatus) : Option UserMsg :=
  uifSendShortResponse .responseDeinstrumentMethod (Wire.le 4 status.code)

/-- `uif_respond_deinstrument_by_id`. -/
def uifRespondDeinstrumentById (status : DeinstrumentRespStatus) : Option UserMsg :=
  uifSendShortResponse .responseDeinstrumentById (Wire.le 4 status.code)

/-- `uif_respond_resume`. -/
def uifRespondResume (status : ResumeRespStatus) : Option UserMsg :=
  uifSendShortResponse .responseResume (Wire.le 4 status.code)

/-- `uif_respond_pause_threads`. -/
def uifRespondPauseThreads (status : PauseThreadsRespStatus) : Option UserMsg :=
  uifSendShortResponse .responsePauseThreads (Wire.le 4 status.code)

/-- `uif_respond_get_status`. -/
def uifRespondGetStatus (shuttingDown paused : Bool) : Option UserMsg :=
  uifSendShortResponse .responseGetStatus (Wire.le 4 shuttingDown.toNat ++ Wire.le 4 paused.toNat)

/-- `uif_respond_get_stats`. -/
def uifRespondGetStats (stats : List UInt8) (ok : Bool) : Option UserMsg :=
  if ok then some ⟨UserMsgType.responseGetStats.code, UInt32.ofNat stats.length, stats⟩ else none

/-! ## Lists of strings -/

/-- The sizing pass over strings. -/
def stringsSize (l : List Pstring) : Nat := (l.map Pstring.totalSize).sum

/-- The writing pass over strings. -/
def writeStrings (l : List Pstring) : List UInt8 := l.flatMap Pstring.bytes

theorem writeStrings_length (l : List Pstring) : (writeStrings l).length = stringsSize l := by
  simp [writeStrings, stringsSize, List.length_flatMap]

/-- The names of the loaded classes, in the order of the iteration. -/
def loadedClassNames (classes : ClassInfoList) : List Pstring :=
  classes.entries.map fun kv => kv.2.name

/-- `uif_respond_loaded_classes`. -/
def uifRespondLoadedClasses (classes : ClassInfoList) (ok : Bool) : Option UserMsg :=
  sizedResponse .responseLoadedClasses (4 + stringsSize (loadedClassNames classes))
    (Wire.le 4 classes.raw.count ++ writeStrings (loadedClassNames classes)) ok

/-- `enum class_methods_resp_status`. -/
def classMethodsRpOk : Nat := 0

def classMethodsRpNotLoaded : Nat := 1

/-- `uif_respond_class_methods`. -/
def uifRespondClassMethods (ci : Option ClassInfo) (ok : Bool) : Option UserMsg :=
  let status := if ci.isSome then classMethodsRpOk else classMethodsRpNotLoaded
  let methods := (ci.map ClassInfo.methods).getD []
  sizedResponse .responseClassMethods (8 + stringsSize methods)
    (Wire.le 4 status ++ (Wire.le 4 methods.length ++ writeStrings methods)) ok

/-! ## The instruments -/

/-- `enum listed_instr_type`. -/
def listedInstrTypeMethod : Nat := 0

def listedInstrTypeLine : Nat := 1

/-- `enum listed_instr_status`. -/
def listedInstrActive : Nat := 0

def listedInstrDeferred : Nat := 1

/-- `sizeof(struct user_msg_instr_list_entry)`. -/
def userMsgInstrListEntrySize : Nat := 13

/-- `sizeof(struct user_msg_instr_list_line_data)`. -/
def userMsgInstrListLineDataSize : Nat := 8

/-- What the sizing pass adds to `body_size` for a visible entry. -/
def listedSize (e : MiEntry) : Nat :=
  userMsgInstrListEntrySize +
    if e.isMethod then e.entryClassName.totalSize + e.methodName.totalSize
    else userMsgInstrListLineDataSize + e.entryClassName.totalSize + e.exitClassName.totalSize

/-- The sizing pass: `body_size` and `count`. -/
def sizeListed (l : List (Nat × MiEntry)) : Nat × Nat :=
  l.foldl (fun acc r =>
    if !r.2.isUserVisible then acc else (acc.1 + listedSize r.2, acc.2 + 1)) (4, 0)

/-- The `is_deferred` of a visible entry. -/
def MiEntry.isDeferred (e : MiEntry) : Bool :=
  match e.body with
  | .method _ deferred => deferred
  | .line _ _ _ entryDeferred exitDeferred => entryDeferred || exitDeferred
  | .varBind .. => false

/-- What the writing pass writes for a visible entry. -/
def listedBytes (id : Nat) (e : MiEntry) : List UInt8 :=
  Wire.le 1 (if e.isMethod then listedInstrTypeMethod else listedInstrTypeLine) ++
    (Wire.le 4 (if e.isDeferred then listedInstrDeferred else listedInstrActive) ++
      (Wire.le 8 id ++
        if e.isMethod then e.entryClassName.bytes ++ e.methodName.bytes
        else Wire.le 4 e.entryLineNumber.toNat ++ (Wire.le 4 e.exitLineNumber.toNat ++
          (e.entryClassName.bytes ++ e.exitClassName.bytes))))

/-- The writing pass. -/
def writeListed (l : List (Nat × MiEntry)) : List UInt8 :=
  l.flatMap fun r => if !r.2.isUserVisible then [] else listedBytes r.1 r.2

/-- `uif_respond_list_instrumented`. -/
def uifRespondListInstrumented (mi : MasterInstruments) (ok : Bool) : Option UserMsg :=
  let sizes := sizeListed mi.tab.entries
  sizedResponse .responseListInstrumented sizes.1
    (Wire.le 4 sizes.2 ++ writeListed mi.tab.entries) ok

theorem listedBytes_length (id : Nat) (e : MiEntry) : (listedBytes id e).length = listedSize e := by
  unfold listedBytes listedSize userMsgInstrListEntrySize userMsgInstrListLineDataSize
  split <;> simp <;> omega

theorem sizeListed_eq (l : List (Nat × MiEntry)) :
    sizeListed l = (4 + ((l.filter fun r => r.2.isUserVisible).map fun r => listedSize r.2).sum,
      (l.filter fun r => r.2.isUserVisible).length) := by
  have hmain : ∀ (l : List (Nat × MiEntry)) (acc : Nat × Nat), l.foldl (fun acc r =>
      if !r.2.isUserVisible then acc else (acc.1 + listedSize r.2, acc.2 + 1)) acc =
        (acc.1 + ((l.filter fun r => r.2.isUserVisible).map fun r => listedSize r.2).sum,
          acc.2 + (l.filter fun r => r.2.isUserVisible).length) := by
    intro l
    induction l with
    | nil => simp
    | cons r l ih =>
      intro acc
      rw [List.foldl_cons, ih]
      cases h : r.2.isUserVisible with
      | false => simp [h]
      | true =>
        simp only [Bool.not_true, Bool.false_eq_true, if_false, List.filter_cons, h, if_true,
          List.map_cons, List.sum_cons, List.length_cons]
        congr 1 <;> omega
  simpa [sizeListed] using hmain l (4, 0)

theorem writeListed_eq (l : List (Nat × MiEntry)) :
    writeListed l = (l.filter fun r => r.2.isUserVisible).flatMap fun r => listedBytes r.1 r.2 := by
  induction l with
  | nil => rfl
  | cons r l ih =>
    unfold writeListed at ih ⊢
    rw [List.flatMap_cons, ih]
    cases h : r.2.isUserVisible <;> simp [h]

theorem writeListed_length (l : List (Nat × MiEntry)) :
    4 + (writeListed l).length = (sizeListed l).1 := by
  rw [writeListed_eq, sizeListed_eq]
  simp [List.length_flatMap, listedBytes_length]

/-! ## The error log -/

/-- What the writing pass writes for an entry. -/
def asyncErrorBytes (e : ProfErrEntry) : List UInt8 := Wire.leInt 8 e.timestamp ++ e.msg.bytes

/-- `uif_respond_get_async_errors`; its `body_size` is a `uint32_t`. -/
def uifRespondGetAsyncErrors (log : ProfErrLog) (ok : Bool) : Option UserMsg :=
  (ErrLog.profErrLogSize log).bind fun elogSize =>
    (ErrLog.profErrLogEntries log).bind fun entries =>
      if ok then
        some ⟨UserMsgType.responseGetAsyncErrors.code, 4 + UInt32.ofNat elogSize.overheadSize,
          Wire.le 4 elogSize.count ++ entries.flatMap asyncErrorBytes⟩
      else none

theorem writeAsyncErrors_length (l : List ProfErrEntry) :
    (l.flatMap asyncErrorBytes).length = ErrLog.overhead l := by
  induction l with
  | nil => rfl
  | cons e l ih =>
    rw [List.flatMap_cons, List.length_append, ih]
    simp only [asyncErrorBytes, List.length_append, Wire.leInt_length, Pstring.bytes_length,
      ErrLog.overhead, List.map_cons, List.sum_cons]
    omega

end JautoProf
