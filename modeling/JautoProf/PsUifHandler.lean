import JautoProf.Lib.Peek
import JautoProf.PsMsg

/-!
# The decoders of the requests (`ps-uif-handler.c`)

`psUifHandler` reads the body of a request from the receive buffer, which may hold stale
bytes after the body. It is given the size that the header declares, and yields the event
that is enqueued, or `none` where it returns -1 and enqueues nothing. The allocations
succeed.

Results:
1. `below_psUifHandler`: no byte is read beyond the declared size.
2. `psUifHandler_eq_some`: an event is enqueued exactly when the body starts with the
   fields of a request.
-/

namespace JautoProf

open Wire Peek

/-- `handle_class_methods`. -/
def handleClassMethods (size : Nat) : Peek (Option UsrRq) :=
  if size < 2 then pure none
  else do
    let nameLen ← number 0 2
    if size < 2 + nameLen then pure none
    else do
      let name ← bytes 2 nameLen
      pure (some (.classMethods (terminated name)))

/-- `handle_deinstrument_method` and `handle_instrument_method`, which differ in the
event. -/
def handleMethod (event : CStr → CStr → UsrRq) (size : Nat) : Peek (Option UsrRq) :=
  if size < 2 then pure none
  else do
    let classLen ← number 0 2
    let off := 2 + classLen
    if size < off + 2 then pure none
    else do
      let sigLen ← number off 2
      let off := off + 2
      if size < off + sigLen then pure none
      else do
        let className ← bytes 2 classLen
        let methodSig ← bytes off sigLen
        pure (some (event (terminated className) (terminated methodSig)))

def handleDeinstrumentMethod (size : Nat) : Peek (Option UsrRq) :=
  handleMethod .deinstrumentMethod size

def handleInstrumentMethod (size : Nat) : Peek (Option UsrRq) :=
  handleMethod .instrumentMethod size

/-- `pstring_dup` of the string at an offset; a size of two bytes is at most `pstrMax`. -/
def dupAt (off : Nat) : Peek Pstring := do
  let size ← number off 2
  let str ← bytes (off + 2) size
  pure ⟨str.take pstrMax, List.length_take_le _ _⟩

/-- `handle_instrument_line`. -/
def handleInstrumentLine (msgSize : Nat) : Peek (Option UsrRq) :=
  let clsOff := 8
  if msgSize < clsOff then pure none
  else
    let size := msgSize - clsOff
    if size < 2 then pure none
    else do
      let entSize ← number clsOff 2
      let entTotSize := 2 + entSize
      if size < entTotSize then pure none
      else
        let size := size - entTotSize
        if size < 2 then pure none
        else do
          let exitOff := clsOff + entTotSize
          let exitSize ← number exitOff 2
          let exitTotSize := 2 + exitSize
          if size < exitTotSize then pure none
          else do
            let entryLine ← number 0 4
            let exitLine ← number 4 4
            let entCls ← dupAt clsOff
            let exitCls ← dupAt exitOff
            pure (some (.instrumentLine entCls exitCls (UInt32.ofNat entryLine)
              (UInt32.ofNat exitLine)))

/-- `handle_deinstrument_by_id`. -/
def handleDeinstrumentById (size : Nat) : Peek (Option UsrRq) :=
  if size < 8 then pure none
  else do
    let instrumentId ← number 0 8
    pure (some (.deinstrumentById instrumentId))

/-- `USR_SHUTDOWN_MSG`. -/
def usrShutdownMsg : List UInt8 := ascii "User requested shutdown"

/-- `ps_uif_handler`. -/
def psUifHandler {C : Type} (client : C) (type : UInt32) (size : Nat) : Peek (Option (PsMsg C)) :=
  let usrRq (p : Peek (Option UsrRq)) : Peek (Option (PsMsg C)) := do
    let rq ← p
    pure (rq.map (.usrRq client))
  if type = UserMsgType.requestLoadedClasses.code then usrRq (pure (some .loadedClasses))
  else if type = UserMsgType.requestClassMethods.code then usrRq (handleClassMethods size)
  else if type = UserMsgType.requestInstrumentMethod.code then usrRq (handleInstrumentMethod size)
  else if type = UserMsgType.requestGetStats.code then usrRq (pure (some .getStats))
  else if type = UserMsgType.requestDeinstrumentMethod.code then
    usrRq (handleDeinstrumentMethod size)
  else if type = UserMsgType.requestShutdown.code then pure (some (.shutdownRequest 0 usrShutdownMsg))
  else if type = UserMsgType.requestResume.code then usrRq (pure (some .resume))
  else if type = UserMsgType.requestPauseThreads.code then usrRq (pure (some .pauseThreads))
  else if type = UserMsgType.requestListInstrumented.code then usrRq (pure (some .listInstrumented))
  else if type = UserMsgType.requestGetAsyncErrors.code then usrRq (pure (some .getAsyncErrors))
  else if type = UserMsgType.requestDeinstrumentById.code then usrRq (handleDeinstrumentById size)
  else if type = UserMsgType.requestInstrumentLine.code then usrRq (handleInstrumentLine size)
  else if type = UserMsgType.requestGetStatus.code then usrRq (pure (some .getStatus))
  else pure none

/-! ## What the decoders accept -/

/-- A request, with the fields that its body starts with. -/
inductive Request
  | loadedClasses
  | classMethods (className : Pstring)
  | instrumentMethod (className methodSig : Pstring)
  | getStats
  | deinstrumentMethod (className methodSig : Pstring)
  | shutdown
  | resume
  | pauseThreads
  | listInstrumented
  | getAsyncErrors
  | deinstrumentById (instrumentId : UInt64)
  | instrumentLine (entryLine exitLine : UInt32) (entryClass exitClass : Pstring)
  | getStatus
deriving DecidableEq

namespace Request

def type : Request → UserMsgType
  | loadedClasses => .requestLoadedClasses
  | classMethods _ => .requestClassMethods
  | instrumentMethod .. => .requestInstrumentMethod
  | getStats => .requestGetStats
  | deinstrumentMethod .. => .requestDeinstrumentMethod
  | shutdown => .requestShutdown
  | resume => .requestResume
  | pauseThreads => .requestPauseThreads
  | listInstrumented => .requestListInstrumented
  | getAsyncErrors => .requestGetAsyncErrors
  | deinstrumentById _ => .requestDeinstrumentById
  | instrumentLine .. => .requestInstrumentLine
  | getStatus => .requestGetStatus

/-- The fields, in the order in which they stand in the body. -/
def body : Request → List UInt8
  | classMethods className => className.bytes
  | instrumentMethod className methodSig => className.bytes ++ methodSig.bytes
  | deinstrumentMethod className methodSig => className.bytes ++ methodSig.bytes
  | deinstrumentById instrumentId => le 8 instrumentId.toNat
  | instrumentLine entryLine exitLine entryClass exitClass =>
    le 4 entryLine.toNat ++ (le 4 exitLine.toNat ++ (entryClass.bytes ++ exitClass.bytes))
  | _ => []

/-- The event of a request, without the client. -/
def event {C : Type} (client : C) : Request → PsMsg C
  | loadedClasses => .usrRq client .loadedClasses
  | classMethods className => .usrRq client (.classMethods className.cstr)
  | instrumentMethod className methodSig =>
    .usrRq client (.instrumentMethod className.cstr methodSig.cstr)
  | getStats => .usrRq client .getStats
  | deinstrumentMethod className methodSig =>
    .usrRq client (.deinstrumentMethod className.cstr methodSig.cstr)
  | shutdown => .shutdownRequest 0 usrShutdownMsg
  | resume => .usrRq client .resume
  | pauseThreads => .usrRq client .pauseThreads
  | listInstrumented => .usrRq client .listInstrumented
  | getAsyncErrors => .usrRq client .getAsyncErrors
  | deinstrumentById instrumentId => .usrRq client (.deinstrumentById instrumentId.toNat)
  | instrumentLine entryLine exitLine entryClass exitClass =>
    .usrRq client (.instrumentLine entryClass exitClass entryLine exitLine)
  | getStatus => .usrRq client .getStatus

theorem exists_iff {P : Request → Prop} : (∃ r, P r) ↔
    P .loadedClasses ∨ (∃ className, P (.classMethods className)) ∨
    (∃ className methodSig, P (.instrumentMethod className methodSig)) ∨ P .getStats ∨
    (∃ className methodSig, P (.deinstrumentMethod className methodSig)) ∨ P .shutdown ∨
    P .resume ∨ P .pauseThreads ∨ P .listInstrumented ∨ P .getAsyncErrors ∨
    (∃ instrumentId, P (.deinstrumentById instrumentId)) ∨
    (∃ entryLine exitLine entryClass exitClass,
      P (.instrumentLine entryLine exitLine entryClass exitClass)) ∨ P .getStatus := by
  constructor
  · rintro ⟨r, hr⟩
    cases r <;> grind
  · rintro (h | ⟨_, h⟩ | ⟨_, _, h⟩ | h | ⟨_, _, h⟩ | h | h | h | h | h | ⟨_, h⟩ |
      ⟨_, _, _, _, h⟩ | h) <;> exact ⟨_, h⟩

end Request

variable {mem : Nat → UInt8}

/-- The string at an offset of the buffer. -/
def pstringAt (mem : Nat → UInt8) (off : Nat) : Pstring := run mem (dupAt off)

theorem pstringAt_str (mem : Nat → UInt8) (off : Nat) :
    (pstringAt mem off).str = bytesAt mem (off + 2) (ofLe (bytesAt mem off 2)) := by
  have hlt : ofLe (bytesAt mem off 2) < 256 ^ 2 := by
    simpa using ofLe_lt (bytesAt mem off 2)
  have hle : ofLe (bytesAt mem off 2) ≤ pstrMax := Nat.le_of_lt_succ hlt
  simp [pstringAt, dupAt, List.take_of_length_le, hle]

theorem pstringAt_length (mem : Nat → UInt8) (off : Nat) :
    (pstringAt mem off).str.length = ofLe (bytesAt mem off 2) := by
  rw [pstringAt_str, bytesAt_length]

theorem run_length (mem : Nat → UInt8) (off : Nat) :
    run mem (number off 2) = (pstringAt mem off).str.length := by
  rw [run_number, pstringAt_length]

theorem run_str (mem : Nat → UInt8) (off : Nat) :
    run mem (bytes (off + 2) (pstringAt mem off).str.length) = (pstringAt mem off).str := by
  rw [run_bytes, pstringAt_length, pstringAt_str]

theorem bytesAt_eq_pstring {p : Pstring} {off : Nat} :
    bytesAt mem off p.totalSize = p.bytes ↔ pstringAt mem off = p := by
  have hlt : p.str.length < 256 ^ 2 := Nat.lt_of_le_of_lt p.size_le (by decide)
  rw [Pstring.totalSize, bytesAt_add, Pstring.bytes]
  constructor
  · intro h
    obtain ⟨hlen, hstr⟩ := List.append_inj h (by simp)
    have hat : (pstringAt mem off).str = p.str := by
      rw [pstringAt_str, hlen, ofLe_le hlt, hstr]
    cases hp : pstringAt mem off
    cases p
    simp_all
  · rintro rfl
    have hlen : le 2 (pstringAt mem off).str.length = bytesAt mem off 2 := by
      have := le_ofLe (bytesAt mem off 2)
      rwa [bytesAt_length, ← pstringAt_length] at this
    rw [hlen, pstringAt_str, bytesAt_length]

theorem pstring_prefix_iff {p : Pstring} {rest : List UInt8} {off n : Nat} :
    p.bytes ++ rest <+: bytesAt mem off n ↔ pstringAt mem off = p ∧ p.totalSize ≤ n ∧
      rest <+: bytesAt mem (off + p.totalSize) (n - p.totalSize) := by
  rw [prefix_append_iff, Pstring.bytes_length, bytesAt_eq_pstring]

theorem number_prefix_iff {k x : Nat} {rest : List UInt8} {off n : Nat} (hx : x < 256 ^ k) :
    le k x ++ rest <+: bytesAt mem off n ↔ ofLe (bytesAt mem off k) = x ∧ k ≤ n ∧
      rest <+: bytesAt mem (off + k) (n - k) := by
  rw [prefix_append_iff, le_length]
  refine and_congr_left fun _ => ⟨fun h => by rw [h, ofLe_le hx], fun h => ?_⟩
  have := le_ofLe (bytesAt mem off k)
  rwa [bytesAt_length, h, eq_comm] at this

/-! ## The decoders -/

theorem terminated_pstringAt (mem : Nat → UInt8) (off : Nat) :
    terminated (pstringAt mem off).str = (pstringAt mem off).cstr := rfl

theorem run_handleClassMethods (mem : Nat → UInt8) (size : Nat) :
    run mem (handleClassMethods size) =
      if (pstringAt mem 0).totalSize ≤ size then
        some (.classMethods (pstringAt mem 0).cstr)
      else none := by
  have hstr : run mem (bytes 2 (pstringAt mem 0).str.length) = (pstringAt mem 0).str :=
    run_str mem 0
  unfold Pstring.totalSize
  simp only [handleClassMethods, run_ite, run_bind, run_pure, run_length, hstr,
    terminated_pstringAt]
  split_ifs <;> first | rfl | omega

theorem run_handleMethod (mem : Nat → UInt8) (event : CStr → CStr → UsrRq) (size : Nat) :
    run mem (handleMethod event size) =
      if (pstringAt mem 0).totalSize +
          (pstringAt mem (pstringAt mem 0).totalSize).totalSize ≤ size then
        some (event (pstringAt mem 0).cstr (pstringAt mem (pstringAt mem 0).totalSize).cstr)
      else none := by
  have hstr : run mem (bytes 2 (pstringAt mem 0).str.length) = (pstringAt mem 0).str :=
    run_str mem 0
  unfold Pstring.totalSize
  simp only [handleMethod, run_ite, run_bind, run_pure, run_length, run_str, hstr,
    terminated_pstringAt]
  split_ifs <;> first | rfl | omega

theorem run_dupAt (mem : Nat → UInt8) (off : Nat) : run mem (dupAt off) = pstringAt mem off := rfl

theorem run_handleInstrumentLine (mem : Nat → UInt8) (size : Nat) :
    run mem (handleInstrumentLine size) =
      if 8 + (pstringAt mem 8).totalSize +
          (pstringAt mem (8 + (pstringAt mem 8).totalSize)).totalSize ≤ size then
        some (.instrumentLine (pstringAt mem 8) (pstringAt mem (8 + (pstringAt mem 8).totalSize))
          (UInt32.ofNat (ofLe (bytesAt mem 0 4))) (UInt32.ofNat (ofLe (bytesAt mem 4 4))))
      else none := by
  unfold Pstring.totalSize
  simp only [handleInstrumentLine, run_ite, run_bind, run_pure, run_length, run_dupAt]
  split_ifs <;> first | rfl | omega

theorem run_handleDeinstrumentById (mem : Nat → UInt8) (size : Nat) :
    run mem (handleDeinstrumentById size) =
      if 8 ≤ size then some (.deinstrumentById (ofLe (bytesAt mem 0 8))) else none := by
  simp only [handleDeinstrumentById, run_ite, run_bind, run_pure, run_number]
  split_ifs <;> first | rfl | omega

/-! ## What is accepted -/

theorem handleClassMethods_eq_some {size : Nat} {rq : UsrRq} :
    run mem (handleClassMethods size) = some rq ↔
      ∃ name : Pstring, name.bytes <+: bytesAt mem 0 size ∧ .classMethods name.cstr = rq := by
  rw [run_handleClassMethods]
  constructor
  · intro h
    split at h
    · rename_i hle
      refine ⟨pstringAt mem 0, ?_, Option.some.inj h⟩
      rw [← List.append_nil (pstringAt mem 0).bytes, pstring_prefix_iff]
      exact ⟨rfl, hle, List.nil_prefix⟩
    · cases h
  · rintro ⟨name, hpre, rfl⟩
    rw [← List.append_nil name.bytes, pstring_prefix_iff] at hpre
    obtain ⟨rfl, hle, -⟩ := hpre
    rw [if_pos hle]

theorem handleMethod_eq_some {event : CStr → CStr → UsrRq} {size : Nat} {rq : UsrRq} :
    run mem (handleMethod event size) = some rq ↔
      ∃ className methodSig : Pstring, className.bytes ++ methodSig.bytes <+: bytesAt mem 0 size ∧
        event className.cstr methodSig.cstr = rq := by
  rw [run_handleMethod]
  constructor
  · intro h
    split at h
    · rename_i hle
      refine ⟨pstringAt mem 0, pstringAt mem (pstringAt mem 0).totalSize, ?_, Option.some.inj h⟩
      rw [← List.append_nil (pstringAt mem (pstringAt mem 0).totalSize).bytes, pstring_prefix_iff,
        pstring_prefix_iff, Nat.zero_add]
      exact ⟨rfl, by omega, rfl, by omega, List.nil_prefix⟩
    · cases h
  · rintro ⟨className, methodSig, hpre, rfl⟩
    rw [← List.append_nil methodSig.bytes, pstring_prefix_iff, pstring_prefix_iff,
      Nat.zero_add] at hpre
    obtain ⟨rfl, hle, rfl, hle', -⟩ := hpre
    rw [if_pos (by omega)]

theorem handleInstrumentLine_eq_some {size : Nat} {rq : UsrRq} :
    run mem (handleInstrumentLine size) = some rq ↔
      ∃ (entryLine exitLine : UInt32) (entryClass exitClass : Pstring),
        le 4 entryLine.toNat ++ (le 4 exitLine.toNat ++ (entryClass.bytes ++ exitClass.bytes)) <+:
          bytesAt mem 0 size ∧ .instrumentLine entryClass exitClass entryLine exitLine = rq := by
  have hlt : ∀ off, ofLe (bytesAt mem off 4) < 2 ^ 32 := by
    intro off
    simpa using ofLe_lt (bytesAt mem off 4)
  rw [run_handleInstrumentLine]
  constructor
  · intro h
    split at h
    · rename_i hle
      refine ⟨_, _, _, _, ?_, Option.some.inj h⟩
      rw [← List.append_nil (pstringAt mem (8 + _)).bytes, number_prefix_iff (UInt32.toNat_lt _),
        number_prefix_iff (UInt32.toNat_lt _), pstring_prefix_iff, pstring_prefix_iff,
        UInt32.toNat_ofNat_of_lt' (hlt 0), UInt32.toNat_ofNat_of_lt' (hlt 4)]
      exact ⟨rfl, by omega, rfl, by omega, rfl, by omega, rfl, by omega, List.nil_prefix⟩
    · cases h
  · rintro ⟨entryLine, exitLine, entryClass, exitClass, hpre, rfl⟩
    rw [← List.append_nil exitClass.bytes, number_prefix_iff (UInt32.toNat_lt _),
      number_prefix_iff (UInt32.toNat_lt _), pstring_prefix_iff, pstring_prefix_iff] at hpre
    obtain ⟨hentry, h4, hexit, h8, hent, hle, hex, hle', -⟩ := hpre
    simp only [Nat.zero_add, Nat.reduceAdd] at hexit hent hex
    subst hent
    subst hex
    rw [if_pos (by omega), hentry, hexit, UInt32.ofNat_toNat, UInt32.ofNat_toNat]

theorem handleDeinstrumentById_eq_some {size : Nat} {rq : UsrRq} :
    run mem (handleDeinstrumentById size) = some rq ↔
      ∃ instrumentId : UInt64, le 8 instrumentId.toNat <+: bytesAt mem 0 size ∧
        .deinstrumentById instrumentId.toNat = rq := by
  have hlt : ofLe (bytesAt mem 0 8) < 2 ^ 64 := by
    simpa using ofLe_lt (bytesAt mem 0 8)
  rw [run_handleDeinstrumentById]
  constructor
  · intro h
    split at h
    · rename_i hle
      refine ⟨UInt64.ofNat (ofLe (bytesAt mem 0 8)), ?_, ?_⟩
      · rw [← List.append_nil (le 8 _), number_prefix_iff (UInt64.toNat_lt _),
          UInt64.toNat_ofNat_of_lt' hlt]
        exact ⟨rfl, hle, List.nil_prefix⟩
      · rw [UInt64.toNat_ofNat_of_lt' hlt]
        exact Option.some.inj h
    · cases h
  · rintro ⟨instrumentId, hpre, rfl⟩
    rw [← List.append_nil (le 8 _), number_prefix_iff (UInt64.toNat_lt _)] at hpre
    obtain ⟨heq, hle, -⟩ := hpre
    rw [if_pos hle, heq]

theorem psUifHandler_unknown {C : Type} {client : C} {type : UInt32} {size : Nat}
    (h : ∀ t : UserMsgType, t.code ≠ type) : psUifHandler client type size = pure none := by
  have hne : ∀ t : UserMsgType, type ≠ t.code := fun t => (h t).symm
  unfold psUifHandler
  simp only [hne, if_false]

/-- An event is enqueued exactly when the body starts with the fields of a request of the
type, and then it is the event of that request. -/
theorem psUifHandler_eq_some {C : Type} {client : C} {type : UInt32} {size : Nat} {ev : PsMsg C} :
    run mem (psUifHandler client type size) = some ev ↔ ∃ r : Request,
      r.type.code = type ∧ r.body <+: bytesAt mem 0 size ∧ r.event client = ev := by
  by_cases hknown : ∃ t : UserMsgType, t.code = type
  · obtain ⟨t, rfl⟩ := hknown
    simp only [UserMsgType.code_injective.eq_iff]
    cases t
    all_goals simp [psUifHandler, UserMsgType.code, Request.exists_iff, Request.type,
      Request.body, Request.event, handleInstrumentMethod, handleDeinstrumentMethod,
      handleClassMethods_eq_some, handleMethod_eq_some, handleInstrumentLine_eq_some,
      handleDeinstrumentById_eq_some]
  · rw [not_exists] at hknown
    rw [psUifHandler_unknown hknown]
    constructor
    · intro h
      cases h
    · rintro ⟨r, rfl, -⟩
      exact absurd rfl (hknown r.type)

/-! ## What is read -/

theorem below_handleClassMethods (mem : Nat → UInt8) (size : Nat) :
    Below mem size (handleClassMethods size) := by
  refine .ite (fun _ => below_pure none) fun h2 => (below_number (by omega)).bind ?_
  refine .ite (fun _ => below_pure none) fun hlen => ?_
  exact (below_bytes (by omega)).bind (below_pure _)

theorem below_handleMethod (mem : Nat → UInt8) (event : CStr → CStr → UsrRq) (size : Nat) :
    Below mem size (handleMethod event size) := by
  refine .ite (fun _ => below_pure none) fun h2 => (below_number (by omega)).bind ?_
  refine .ite (fun _ => below_pure none) fun hclass => (below_number (by omega)).bind ?_
  refine .ite (fun _ => below_pure none) fun hsig => ?_
  exact (below_bytes (by omega)).bind ((below_bytes (by omega)).bind (below_pure _))

/-- A copy reads the string and its length again. -/
theorem below_dupAt {off size : Nat} (h : off + (2 + run mem (number off 2)) ≤ size) :
    Below mem size (dupAt off) := by
  refine (below_number (by omega)).bind ((below_bytes ?_).bind (below_pure _))
  omega

theorem below_handleInstrumentLine (mem : Nat → UInt8) (size : Nat) :
    Below mem size (handleInstrumentLine size) := by
  refine .ite (fun _ => below_pure none) fun h8 => ?_
  refine .ite (fun _ => below_pure none) fun hent => (below_number (by omega)).bind ?_
  refine .ite (fun _ => below_pure none) fun hentTot => ?_
  refine .ite (fun _ => below_pure none) fun hexit => (below_number (by omega)).bind ?_
  refine .ite (fun _ => below_pure none) fun hexitTot => ?_
  refine (below_number (by omega)).bind ((below_number (by omega)).bind ?_)
  exact (below_dupAt (by omega)).bind ((below_dupAt (by omega)).bind (below_pure _))

theorem below_handleDeinstrumentById (mem : Nat → UInt8) (size : Nat) :
    Below mem size (handleDeinstrumentById size) := by
  refine .ite (fun _ => below_pure none) fun h8 => ?_
  exact (below_number (by omega)).bind (below_pure _)

/-- No byte beyond the size that the header declares is read. -/
theorem below_psUifHandler {C : Type} (client : C) (mem : Nat → UInt8) (type : UInt32)
    (size : Nat) : Below mem size (psUifHandler client type size) := by
  have husr : ∀ {p : Peek (Option UsrRq)}, Below mem size p →
      Below mem size (p >>= fun rq => pure (rq.map (PsMsg.usrRq client))) :=
    fun hp => hp.bind (below_pure _)
  refine .ite (fun _ => husr (below_pure _)) fun _ => ?_
  refine .ite (fun _ => husr (below_handleClassMethods mem size)) fun _ => ?_
  refine .ite (fun _ => husr (below_handleMethod mem _ size)) fun _ => ?_
  refine .ite (fun _ => husr (below_pure _)) fun _ => ?_
  refine .ite (fun _ => husr (below_handleMethod mem _ size)) fun _ => ?_
  refine .ite (fun _ => below_pure _) fun _ => ?_
  refine .ite (fun _ => husr (below_pure _)) fun _ => ?_
  refine .ite (fun _ => husr (below_pure _)) fun _ => ?_
  refine .ite (fun _ => husr (below_pure _)) fun _ => ?_
  refine .ite (fun _ => husr (below_pure _)) fun _ => ?_
  refine .ite (fun _ => husr (below_handleDeinstrumentById mem size)) fun _ => ?_
  refine .ite (fun _ => husr (below_handleInstrumentLine mem size)) fun _ => ?_
  exact .ite (fun _ => husr (below_pure _)) fun _ => below_pure none

/-- Bytes that an earlier message left behind the body are of no account. -/
theorem psUifHandler_congr {C : Type} (client : C) {mem' : Nat → UInt8} (type : UInt32)
    {size : Nat} (h : ∀ o < size, mem' o = mem o) :
    run mem' (psUifHandler client type size) = run mem (psUifHandler client type size) :=
  run_congr fun o ho => h o (below_psUifHandler client mem type size o ho)

end JautoProf
