import JautoProf.Lib.Ring
import JautoProf.UserMsg
import JautoProf.World

/-!
# The error log (`prof-err-log.c`)

`ProfErrLog` is `struct prof_err_log`, a ring of `PROF_ERR_LOG_CAP` entries. `World` keeps
the entries of the log as a list, oldest first; the ring refines it.

Results:
1. `ErrLog.pstringVsprintf_eq`: the two buffers of `pstring_vsprintf` keep the first
   `PSTR_MAX` bytes of a text whose length is an `int`.
2. `ErrLog.Holds.push`: the ring holds the entries that `World` keeps.
3. `ErrLog.profErrLogSize_eq`, `ErrLog.profErrLogEntries_eq`: the two passes of a reader.
-/

namespace JautoProf

/-- `struct prof_err_log`. -/
abbrev ProfErrLog := Ring ProfErrEntry

namespace ErrLog

/-! ## Formatted texts -/

/-- `INT_MAX`. -/
def intMax : Nat := 2147483647

/-- `vsnprintf` into a buffer of `cap` bytes, given the expansion of the format: its result,
if that is not negative, and the text in the buffer. -/
def vsnprintf (cap : Nat) (text : List UInt8) : Option (Nat × List UInt8) :=
  if text.length ≤ intMax then some (text.length, text.take (cap - 1)) else none

/-- `PSTRING_SPRINTF_INIT_CAP`. -/
def pstringSprintfInitCap : Nat := 512

/-- The first `size` bytes of a buffer, with the size that a `uint16_t` can hold. -/
def pstringOf (buf : List UInt8) (size : Nat) (h : size ≤ pstrMax) : Pstring :=
  ⟨buf.take size, (List.length_take_le _ _).trans h⟩

/-- `pstring_vsprintf`; `mallocOk` and `reallocOk` say whether its allocations succeed. -/
def pstringVsprintf (text : List UInt8) (mallocOk reallocOk : Bool) : Option Pstring :=
  if !mallocOk then none
  else
    match vsnprintf pstringSprintfInitCap text with
    | none => none
    | some (written, buf) =>
      if pstringSprintfInitCap ≤ written then
        let needed := min written pstrMax
        if !reallocOk then none
        else (vsnprintf (needed + 1) text).map fun r => pstringOf r.2 needed (Nat.min_le_right _ _)
      else some (pstringOf buf (written % (pstrMax + 1)) (Nat.le_of_lt_succ (Nat.mod_lt _ (by decide))))

/-- A text whose length is an `int` is cut to its first `PSTR_MAX` bytes and no shorter. -/
theorem pstringVsprintf_eq {text : List UInt8} (h : text.length ≤ intMax) :
    pstringVsprintf text true true = JautoProf.pstringVsprintf text true := by
  unfold pstringVsprintf JautoProf.pstringVsprintf vsnprintf pstringOf
  simp only [Bool.not_true, Bool.false_eq_true, if_false, if_pos h, if_true, Option.map_some,
    Nat.add_sub_cancel, List.take_take]
  split
  · congr 2
    rw [Nat.min_self, Nat.min_comm, ← List.take_take, List.take_length]
  · next hsmall =>
    unfold pstringSprintfInitCap at *
    congr 2
    rw [Nat.mod_eq_of_lt (by unfold pstrMax; omega), List.take_of_length_le (by omega),
      List.take_of_length_le (by unfold pstrMax; omega)]

/-- Above `INT_MAX` bytes `vsnprintf` fails. -/
theorem pstringVsprintf_none {text : List UInt8} (h : intMax < text.length)
    (mallocOk reallocOk : Bool) : pstringVsprintf text mallocOk reallocOk = none := by
  unfold pstringVsprintf vsnprintf
  rw [if_neg (Nat.not_le.mpr h)]
  split <;> rfl

/-! ## The operations -/

/-- `prof_err_log_init`. -/
def profErrLogInit : ProfErrLog := .empty

/-- `do_push`; `now` is what `time` returns. -/
def doPush (log : ProfErrLog) (msg : Pstring) (now : Int64) : ProfErrLog :=
  log.push profErrLogCap ⟨now.toInt, msg⟩

/-- `prof_err_log_push`, when its allocation succeeds. -/
def profErrLogPush (log : ProfErrLog) (msg : CStr) (now : Int64) : ProfErrLog :=
  match pstringFromCstr msg true with
  | none => log
  | some ps => doPush log ps now

/-- `prof_err_log_printf`, when its allocations succeed. -/
def profErrLogPrintf (log : ProfErrLog) (text : List UInt8) (now : Int64) : ProfErrLog :=
  match pstringVsprintf text true true with
  | none => log
  | some ps => doPush log ps now

/-- `struct prof_err_log_size`. -/
structure ProfErrLogSize where
  stringSize : Nat
  count : Nat
  overheadSize : Nat

/-- What the loop of `prof_err_log_size` adds for an entry. -/
def ProfErrLogSize.add (ret : ProfErrLogSize) (e : ProfErrEntry) : ProfErrLogSize where
  stringSize := ret.stringSize + e.msg.str.length
  count := ret.count + 1
  overheadSize := ret.overheadSize + e.msg.totalSize + 8

/-- `prof_err_log_size`; it fails on a slot that was never written. -/
def profErrLogSize (log : ProfErrLog) : Option ProfErrLogSize :=
  (List.range log.count).foldlM (fun ret i => (log.item profErrLogCap i).map ret.add) ⟨0, 0, 0⟩

/-- The calls of `prof_err_log_iterate` until it returns `NULL`. -/
def profErrLogEntries (log : ProfErrLog) : Option (List ProfErrEntry) :=
  (List.range log.count).mapM (log.item profErrLogCap)

/-! ## The entries of the ring -/

/-- The ring holds the entries, oldest first. -/
abbrev Holds (log : ProfErrLog) (l : List ProfErrEntry) : Prop := Ring.Holds profErrLogCap log l

theorem profErrLogCap_pos : 0 < profErrLogCap := by decide

theorem holds_init : Holds profErrLogInit [] := Ring.holds_empty profErrLogCap_pos

/-- The list that `World` keeps is the list of the items of the ring. -/
theorem profErrLogPush_eq (l : List ProfErrEntry) (e : ProfErrEntry) :
    JautoProf.profErrLogPush l e = Ring.pushed profErrLogCap l e := rfl

theorem Holds.push {log : ProfErrLog} {l : List ProfErrEntry} (h : Holds log l) (msg : Pstring)
    (now : Int64) : Holds (doPush log msg now) (JautoProf.profErrLogPush l ⟨now.toInt, msg⟩) := by
  rw [profErrLogPush_eq]
  exact Ring.Holds.push h _

/-- The overhead of the entries on the wire. -/
def overhead (l : List ProfErrEntry) : Nat := (l.map fun e => e.msg.totalSize + 8).sum

/-- A loop over the items, by their numbers. -/
theorem range_foldlM {β : Type} {log : ProfErrLog} {l : List ProfErrEntry} (h : Holds log l)
    (f : β → ProfErrEntry → β) (b : β) :
    (List.range log.count).foldlM (fun b i => (log.item profErrLogCap i).map (f b)) b =
      some (l.foldl f b) := by
  have hmain : ∀ n, n ≤ l.length →
      (List.range n).foldlM (fun b i => (log.item profErrLogCap i).map (f b)) b =
        some ((l.take n).foldl f b) := by
    intro n hn
    induction n with
    | zero => simp
    | succ n ih =>
      rw [List.range_succ, List.foldlM_append, ih (by omega), List.take_succ_eq_append_getElem hn,
        List.foldl_append]
      simp [h.item n hn]
  rw [h.count, hmain l.length (Nat.le_refl _), List.take_length]

theorem profErrLogEntries_eq {log : ProfErrLog} {l : List ProfErrEntry} (h : Holds log l) :
    profErrLogEntries log = some l := by
  have hmain : ∀ n, n ≤ l.length →
      (List.range n).mapM (log.item profErrLogCap) = some (l.take n) := by
    intro n hn
    induction n with
    | zero => simp
    | succ n ih =>
      rw [List.range_succ, List.mapM_append, ih (by omega), List.take_succ_eq_append_getElem hn]
      simp [h.item n hn]
  rw [profErrLogEntries, h.count, hmain l.length (Nat.le_refl _), List.take_length]

theorem profErrLogSize_eq {log : ProfErrLog} {l : List ProfErrEntry} (h : Holds log l) :
    ∃ ret, profErrLogSize log = some ret ∧ ret.count = l.length ∧ ret.overheadSize = overhead l := by
  refine ⟨_, range_foldlM h ProfErrLogSize.add _, ?_⟩
  have hmain : ∀ (l : List ProfErrEntry) (ret : ProfErrLogSize),
      (l.foldl ProfErrLogSize.add ret).count = ret.count + l.length ∧
        (l.foldl ProfErrLogSize.add ret).overheadSize = ret.overheadSize + overhead l := by
    intro l
    induction l with
    | nil => exact fun ret => ⟨rfl, rfl⟩
    | cons e l ih =>
      intro ret
      obtain ⟨hc, ho⟩ := ih (ret.add e)
      rw [List.foldl_cons, hc, ho]
      simp only [ProfErrLogSize.add, List.length_cons, overhead, List.map_cons, List.sum_cons]
      omega
  simpa using hmain l ⟨0, 0, 0⟩

end ErrLog

end JautoProf
