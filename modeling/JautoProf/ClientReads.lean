import JautoProf.ProfClient
import JautoProf.UifResponse

/-!
# What the client reads

The responses with a body of items, written by `uif-response.c` and read by
`prof_client.py`.

Results:
1. `instruments_read_back`: `get_instruments` returns the visible entries of the master
   table.
2. `async_errors_read_back`: `get_async_errors` returns the last messages of the log.
   `async_error_lost`: a formatted text whose length is no `int` leaves no message.
-/

namespace JautoProf

open Wire ProfClient

/-! ## The instruments -/

/-- The item of the client's list for a visible entry of the master table; the id is a
`uint64_t`. -/
def listedInstrument (id : Nat) (e : MiEntry) : Instrument :=
  let status := if e.isDeferred then ListedStatus.deferred else .active
  if e.isMethod then
    .method e.entryClassName.str e.methodName.str (UInt64.ofNat id).toNat status
  else
    .line e.entryClassName.str e.entryLineNumber.toNat e.exitClassName.str e.exitLineNumber.toNat
      (UInt64.ofNat id).toNat status

theorem reads_instrument (id : Nat) (e : MiEntry) :
    Reads instrument (listedBytes id e) (listedInstrument id e) := by
  have hid : le 8 id = le 8 (UInt64.ofNat id).toNat := (le_mod 8 id).symm
  have h64 : (UInt64.ofNat id).toNat < 256 ^ 8 := (UInt64.ofNat id).toNat_lt
  have h32 : ∀ l : UInt32, l.toNat < 256 ^ 4 := fun l => l.toNat_lt
  unfold listedBytes listedInstrument
  rw [hid]
  refine Reads.bind (Reads.unsigned (by split <;> decide) _) ?_
  refine Reads.bind (Reads.unsigned (by split <;> decide) _) ?_
  refine Reads.bind (Reads.unsigned h64 _) ?_
  have hstatus : (if (if e.isDeferred then listedInstrDeferred else listedInstrActive) = 1 then
      ListedStatus.deferred else .active) =
        if e.isDeferred then ListedStatus.deferred else .active := by
    cases e.isDeferred <;> rfl
  rw [hstatus]
  cases e.isMethod with
  | true =>
    refine Reads.bind (reads_pstring _) ?_
    exact (reads_pstring _).map _
  | false =>
    refine Reads.bind (Reads.unsigned (h32 _) _) ?_
    refine Reads.bind (Reads.unsigned (h32 _) _) ?_
    refine Reads.bind (reads_pstring _) ?_
    exact (reads_pstring _).map _

theorem length_le_listedSize (l : List (Nat × MiEntry)) :
    l.length ≤ (l.map fun r => listedSize r.2).sum := by
  induction l with
  | nil => exact Nat.le_refl _
  | cons r l ih =>
    rw [List.length_cons, List.map_cons, List.sum_cons]
    unfold listedSize userMsgInstrListEntrySize at *
    omega

/-- For every master table whose encoding fits in 32 bits: the sizing pass counts the bytes
that the writing pass writes, the count is the number of the method and line entries, and
the client reads back exactly these entries, in the order of the iteration, each with its
id, its strings or lines, and whether it is deferred. -/
theorem instruments_read_back (mi : MasterInstruments)
    (h : (sizeListed mi.tab.entries).1 ≤ uint32Max) :
    ∃ msg, uifRespondListInstrumented mi true = some msg ∧ msg.size.toNat = msg.body.length ∧
      ofLe (msg.body.take 4) = (listInstruments mi).length ∧
      getInstruments msg = .ok ((listInstruments mi).map fun r => listedInstrument r.1 r.2) := by
  have hsize := sizeListed_eq mi.tab.entries
  have hlen := writeListed_length mi.tab.entries
  have hcount : (sizeListed mi.tab.entries).2 = (listInstruments mi).length := congrArg Prod.snd hsize
  have hlt : (listInstruments mi).length < 256 ^ 4 := by
    have hle := length_le_listedSize (listInstruments mi)
    have hsum : (sizeListed mi.tab.entries).1 =
        4 + ((listInstruments mi).map fun r => listedSize r.2).sum := congrArg Prod.fst hsize
    unfold uint32Max at h
    omega
  refine ⟨_, sizedResponse_eq h _ _, ?_, ?_, ?_⟩
  · rw [List.length_append, le_length, hlen]
    exact UInt32.toNat_ofNat_of_lt (Nat.lt_of_le_of_lt h (by decide))
  · rw [hcount, List.take_left' (le_length 4 _), ofLe_le hlt]
  · rw [getInstruments, hcount, writeListed_eq]
    exact listed_eq (fun r _ => reads_instrument r.1 r.2) hlt _ _

/-- A table with an instrument of each type. -/
def mixedTable : MasterInstruments :=
  let mi := miInsert miAlloc ⟨classA, .method classB false⟩ true true
  let mi := miInsert mi ⟨classA, .line classB 10 20 false true⟩ true true
  miInsert mi ⟨classA, .varBind classB 30 true⟩ true true

theorem instruments_read_back_mixed :
    ∃ msg, uifRespondListInstrumented mixedTable true = some msg ∧ getInstruments msg =
      .ok [.line [65] 10 [66] 20 2 .deferred, .method [65] [66] 1 .active] := by
  obtain ⟨msg, hmsg, -, -, hread⟩ := instruments_read_back mixedTable (by decide)
  exact ⟨msg, hmsg, hread.trans (by decide)⟩

/-! ## The error log -/

/-- A call on the error log; `now` is what `time` returns. -/
inductive ErrLogCall
  | push (msg : CStr) (now : Int64)
  | printf (text : List UInt8) (now : Int64)
  | read

namespace ErrLogCall

/-- The log after the call, with the allocations succeeding. -/
def run (log : ProfErrLog) : ErrLogCall → ProfErrLog
  | .push msg now => ErrLog.profErrLogPush log msg now
  | .printf text now => ErrLog.profErrLogPrintf log text now
  | .read => log

/-- A pushed text fits in a `struct pstring`, and the length of a formatted text in an
`int`. -/
def InRange : ErrLogCall → Prop
  | .push msg _ => msg.val.length ≤ pstrMax
  | .printf text _ => text.length ≤ ErrLog.intMax
  | .read => True

/-- The message of the call: what was pushed, or the first `PSTR_MAX` bytes of what was
formatted. -/
def message : ErrLogCall → Option AsyncError
  | .push msg now => some ⟨now.toInt, msg.val⟩
  | .printf text now => some ⟨now.toInt, text.take pstrMax⟩
  | .read => none

/-- The log after the calls, from a fresh log. -/
def runs (calls : List ErrLogCall) : ProfErrLog := calls.foldl run ErrLog.profErrLogInit

end ErrLogCall

/-- The item of the client's list for an entry of the log. -/
def asyncErrorOf (e : ProfErrEntry) : AsyncError := ⟨e.timestamp, e.msg.str⟩

theorem reads_asyncError (e : ProfErrEntry) (hlo : -(2 ^ 63) ≤ e.timestamp)
    (hhi : e.timestamp < 2 ^ 63) : Reads asyncError (asyncErrorBytes e) (asyncErrorOf e) := by
  refine Reads.bind (Reads.signed (by omega) (by omega) _) ?_
  exact (reads_pstring _).map _

/-- A call appends its message to the entries of the log, if it has one. -/
theorem ErrLogCall.run_holds {log : ProfErrLog} {l : List ProfErrEntry} (h : ErrLog.Holds log l)
    {c : ErrLogCall} (hc : c.InRange) :
    ∃ es : List ProfErrEntry, ErrLog.Holds (c.run log) (es.foldl profErrLogPush l) ∧
      es.map asyncErrorOf = c.message.toList ∧
      ∀ e ∈ es, -(2 ^ 63) ≤ e.timestamp ∧ e.timestamp < 2 ^ 63 := by
  cases c with
  | push msg now =>
    have hps : pstringFromCstr msg true = some ⟨msg.val, hc⟩ := dif_pos hc
    refine ⟨[⟨now.toInt, ⟨msg.val, hc⟩⟩], ?_, rfl, by simpa using ⟨now.le_toInt, now.toInt_lt⟩⟩
    rw [ErrLogCall.run, ErrLog.profErrLogPush, hps]
    exact h.push _ now
  | printf text now =>
    have hps := ErrLog.pstringVsprintf_eq hc
    refine ⟨[⟨now.toInt, ⟨text.take pstrMax, List.length_take_le _ _⟩⟩], ?_, rfl,
      by simpa using ⟨now.le_toInt, now.toInt_lt⟩⟩
    rw [ErrLogCall.run, ErrLog.profErrLogPrintf, hps]
    exact h.push _ now
  | read => exact ⟨[], h, rfl, by simp⟩

theorem ErrLogCall.runs_holds {calls : List ErrLogCall} (hc : ∀ c ∈ calls, c.InRange)
    {log : ProfErrLog} {l : List ProfErrEntry} (h : ErrLog.Holds log l) :
    ∃ es : List ProfErrEntry,
      ErrLog.Holds (calls.foldl ErrLogCall.run log) (es.foldl profErrLogPush l) ∧
      es.map asyncErrorOf = calls.filterMap message ∧
      ∀ e ∈ es, -(2 ^ 63) ≤ e.timestamp ∧ e.timestamp < 2 ^ 63 := by
  induction calls generalizing log l with
  | nil => exact ⟨[], h, rfl, by simp⟩
  | cons c calls ih =>
    obtain ⟨es, hes, hmap, hrange⟩ := run_holds h (hc c List.mem_cons_self)
    obtain ⟨es', hes', hmap', hrange'⟩ := ih (fun d hd => hc d (List.mem_cons_of_mem c hd)) hes
    refine ⟨es ++ es', by rw [List.foldl_append]; exact hes', ?_, ?_⟩
    · rw [List.map_append, hmap, hmap']
      cases hm : c.message <;> simp [hm]
    · intro e he
      rcases List.mem_append.mp he with he | he
      · exact hrange e he
      · exact hrange' e he

theorem overhead_le (l : List ProfErrEntry) : ErrLog.overhead l ≤ 65545 * l.length := by
  induction l with
  | nil => exact Nat.zero_le _
  | cons e l ih =>
    have := e.msg.totalSize_le
    simp only [ErrLog.overhead, List.map_cons, List.sum_cons, List.length_cons] at ih ⊢
    omega

/-- The `body_size` of the response does not wrap. -/
theorem toNat_bodySize {n : Nat} (h : n < 268472321) : (4 + UInt32.ofNat n).toNat = 4 + n := by
  rw [UInt32.toNat_add, UInt32.toNat_ofNat', Nat.mod_eq_of_lt (show n < 2 ^ 32 by omega)]
  exact Nat.mod_eq_of_lt (by simp only [UInt32.reduceToNat]; omega)

/-- For every sequence of calls on a fresh log, of any length: the response has the size
that was computed up front, and the client reads from it the last `PROF_ERR_LOG_CAP`
messages, in the order of the calls, each with its time and its text. -/
theorem async_errors_read_back (calls : List ErrLogCall) (h : ∀ c ∈ calls, c.InRange) :
    ∃ msg, uifRespondGetAsyncErrors (ErrLogCall.runs calls) true = some msg ∧
      msg.size.toNat = msg.body.length ∧
      getAsyncErrors msg = .ok ((calls.filterMap ErrLogCall.message).drop
        ((calls.filterMap ErrLogCall.message).length - profErrLogCap)) := by
  obtain ⟨es, hholds, hmap, hrange⟩ := ErrLogCall.runs_holds h ErrLog.holds_init
  have hdrop : es.foldl profErrLogPush [] = es.drop (es.length - profErrLogCap) :=
    Ring.pushes_eq_drop ErrLog.profErrLogCap_pos es
  rw [hdrop] at hholds
  generalize hl : es.drop (es.length - profErrLogCap) = l at hholds
  have hlen : l.length ≤ profErrLogCap := hholds.count ▸ hholds.count_le
  obtain ⟨ret, hsize, hcount, hover⟩ := ErrLog.profErrLogSize_eq hholds
  have hle := overhead_le l
  have hbody := writeAsyncErrors_length l
  unfold profErrLogCap at hlen
  refine ⟨_, by rw [uifRespondGetAsyncErrors, ErrLogCall.runs, hsize,
    ErrLog.profErrLogEntries_eq hholds]; rfl, ?_, ?_⟩
  · rw [List.length_append, le_length, hbody, hover]
    exact toNat_bodySize (by omega)
  · rw [getAsyncErrors, hcount]
    have hreads : ∀ e ∈ l, Reads asyncError (asyncErrorBytes e) (asyncErrorOf e) := by
      intro e he
      rw [← hl] at he
      have := hrange e (List.mem_of_mem_drop he)
      exact reads_asyncError e this.1 this.2
    have hlast : l.map asyncErrorOf = (calls.filterMap ErrLogCall.message).drop
        ((calls.filterMap ErrLogCall.message).length - profErrLogCap) := by
      rw [← hl, ← hmap, List.length_map, List.map_drop]
    rw [← hlast]
    exact listed_eq hreads (Nat.lt_of_le_of_lt hlen (by decide)) _ _

theorem async_errors_read_back_two :
    ∃ msg, uifRespondGetAsyncErrors
        (ErrLogCall.runs [.push classA.cstr 5, .read, .printf [66, 10] 7]) true = some msg ∧
      getAsyncErrors msg = .ok [⟨5, [65]⟩, ⟨7, [66, 10]⟩] := by
  obtain ⟨msg, hmsg, -, hread⟩ := async_errors_read_back
    [.push classA.cstr 5, .read, .printf [66, 10] 7] (by simp [ErrLogCall.InRange]; decide)
  exact ⟨msg, hmsg, hread.trans (by decide)⟩

/-- A formatted text whose length is no `int` leaves the log as it was. -/
theorem ErrLogCall.run_printf_long {text : List UInt8} (h : ErrLog.intMax < text.length)
    (log : ProfErrLog) (now : Int64) : run log (.printf text now) = log := by
  rw [ErrLogCall.run, ErrLog.profErrLogPrintf, ErrLog.pstringVsprintf_none h]

theorem no_async_error {text : List UInt8} (h : ErrLog.intMax < text.length) (now : Int64)
    (e : AsyncError) :
    ¬ ∃ msg, uifRespondGetAsyncErrors (ErrLogCall.runs [.printf text now]) true = some msg ∧
      getAsyncErrors msg = .ok [e] := by
  rintro ⟨msg, hmsg, hread⟩
  have hlog : ErrLogCall.runs [.printf text now] = ErrLogCall.runs [] :=
    ErrLogCall.run_printf_long h _ now
  obtain ⟨msg', hmsg', -, hread'⟩ := async_errors_read_back [] (by simp)
  rw [hlog, hmsg'] at hmsg
  cases hmsg
  rw [hread'] at hread
  cases hread

/-- A text of `2 ^ 31` bytes is not cut to its first `PSTR_MAX` bytes but lost. -/
theorem async_error_lost :
    ¬ ∃ msg, uifRespondGetAsyncErrors
        (ErrLogCall.runs [.printf (List.replicate 2147483648 65) 0]) true = some msg ∧
      getAsyncErrors msg = .ok [⟨0, (List.replicate 2147483648 65).take pstrMax⟩] := by
  refine no_async_error ?_ 0 _
  rw [List.length_replicate]
  decide

end JautoProf
