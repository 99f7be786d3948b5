import JautoProf.CallTotals
import JautoProf.Collector
import Mathlib.Algebra.Order.BigOperators.Group.Finset

/-!
# Recording a profiler while it counts (`Profiler.java`, `ProfilerEntry.java`)

The threads call the methods of one active profiler, and between any two of their steps the
collector records it at its ticks. `record` takes the sum of `callCount` and then that of
`totalNanos`. The sum of a `LongAdder` is not of one moment: what other threads add meanwhile may or
may not be in it.

Results:
1. `InTime.step`: where the clock does not go back, no thread adds a negative time.
2. `Inv.step`, `inv_steps`: the array follows the snapshots that were taken, their ticks follow each
   other, and each lies between the totals of the moments at which it was taken.
-/

namespace JautoProf.Telemetry

open Runs Entry ProfilerRegistry
open Calls (Op ThreadState LineState)
open Calls.Totals (Stage solo Other entryNanos)
open Calls.Collector (tick)

variable {Tid : Type}

/-! ## The clock -/

/-- The thread that acts. -/
def thread : Calls.Totals.Act Tid → Tid
  | .call t _ _ => t
  | .proceed t _ => t

/-- What `System.nanoTime()` returns to it. -/
def reading : Calls.Totals.Act Tid → Int
  | .call _ _ now => now
  | .proceed _ now => now

/-- What a thread will take from a later reading was read no later than `clock`. -/
structure InTime (clock : Int) (s : Calls.Totals.State Tid) (t : Tid) : Prop where
  own : 0 < (s.profiler.threadState t).depth → (s.profiler.threadState t).entryNanos ≤ clock
  line : (s.profiler.lineState t).seen = true → (s.profiler.lineState t).entryNanos ≤ clock
  adding : ∀ op, s.stage t = .adding op → entryNanos op s.profiler t ≤ clock
  counting : ∀ op now, s.stage t = .counting op now → entryNanos op s.profiler t ≤ now

theorem InTime.init (clock : Int) (instrumentId : UInt64) (name : JString) (t : Tid) :
    InTime clock (.init instrumentId name) t where
  own := fun h => absurd h (Int.lt_irrefl 0)
  line := fun h => by cases h
  adding := fun _ h => by cases h
  counting := fun _ _ h => by cases h

section

variable {clock clock' now : Int} {s s' : Calls.Totals.State Tid} {t : Tid}

theorem InTime.later (h : InTime clock s t) (hclock : clock ≤ clock') : InTime clock' s t where
  own := fun hdepth => (h.own hdepth).trans hclock
  line := fun hseen => (h.line hseen).trans hclock
  adding := fun op hstage => (h.adding op hstage).trans hclock
  counting := h.counting

theorem InTime.other (h : InTime clock s t) (hother : Other s s' t) : InTime clock s' t := by
  have hentry : ∀ op, entryNanos op s'.profiler t = entryNanos op s.profiler t := by
    intro op
    unfold entryNanos
    rw [hother.own, hother.line]
  constructor
  · rw [hother.own]
    exact h.own
  · rw [hother.line]
    exact h.line
  · intro op hstage
    rw [hentry]
    exact h.adding op (hother.stage ▸ hstage)
  · intro op now hstage
    rw [hentry]
    exact h.counting op now (hother.stage ▸ hstage)

/-- A thread that is in no call. -/
theorem InTime.idle (hstage : s.stage t = .idle)
    (hown : 0 < (s.profiler.threadState t).depth → (s.profiler.threadState t).entryNanos ≤ clock)
    (hline : (s.profiler.lineState t).seen = true → (s.profiler.lineState t).entryNanos ≤ clock) :
    InTime clock s t where
  own := hown
  line := hline
  adding := fun op h => by rw [hstage] at h; cases h
  counting := fun op now h => by rw [hstage] at h; cases h

variable [DecidableEq Tid]

theorem other_step (s : Calls.Totals.State Tid) (a : Calls.Totals.Act Tid) {u : Tid}
    (hu : u ≠ thread a) : Other s (Calls.Totals.step s a) u := by
  have hsame : Other s s u := ⟨rfl, rfl, rfl, rfl⟩
  cases a with
  | call t op now =>
    have hne : u ≠ t := hu
    unfold Calls.Totals.step
    dsimp only
    split
    · cases op with
      | enter =>
        exact ⟨Function.update_of_ne hne _ _, rfl, Function.update_of_ne hne _ _,
          Function.update_of_ne hne _ _⟩
      | exit =>
        unfold Calls.Totals.State.call
        dsimp only
        split
        · exact ⟨Function.update_of_ne hne _ _, rfl, Function.update_of_ne hne _ _, rfl⟩
        · exact ⟨Function.update_of_ne hne _ _, rfl, Function.update_of_ne hne _ _,
            Function.update_of_ne hne _ _⟩
      | enterLine =>
        exact ⟨rfl, Function.update_of_ne hne _ _, Function.update_of_ne hne _ _,
          Function.update_of_ne hne _ _⟩
      | exitLine =>
        unfold Calls.Totals.State.call
        dsimp only
        split
        · exact ⟨rfl, rfl, Function.update_of_ne hne _ _, rfl⟩
        · exact ⟨rfl, rfl, Function.update_of_ne hne _ _, Function.update_of_ne hne _ _⟩
    · exact hsame
  | proceed t now =>
    have hne : u ≠ t := hu
    unfold Calls.Totals.step
    dsimp only
    split
    · exact hsame
    · exact ⟨rfl, rfl, Function.update_of_ne hne _ _, rfl⟩
    · refine ⟨?_, ?_, Function.update_of_ne hne _ _, Function.update_of_ne hne _ _⟩
      · unfold Calls.Totals.State.increment
        dsimp only
        split <;> rfl
      · unfold Calls.Totals.State.increment
        dsimp only
        split
        · exact Function.update_of_ne hne _ _
        · rfl

theorem InTime.call (h : InTime clock s t) (op : Op) (hnow : clock ≤ now) :
    InTime now (s.call t op now) t := by
  have hlater := h.later hnow
  cases op with
  | enter =>
    refine .idle (Function.update_self _ _ _) ?_ hlater.line
    show 0 < ((s.profiler.enter t now).threadState t).depth →
      ((s.profiler.enter t now).threadState t).entryNanos ≤ now
    unfold Calls.Profiler.enter
    dsimp only
    rw [Function.update_self]
    by_cases hzero : (s.profiler.threadState t).depth = 0
    · rw [if_pos hzero]
      intro _
      exact Int.le_refl now
    · rw [if_neg hzero]
      intro hdepth
      dsimp only at hdepth
      exact hlater.own (by omega)
  | exit =>
    have hown : (Calls.Totals.leave t s.profiler).threadState t =
        ⟨(s.profiler.threadState t).depth - 1, (s.profiler.threadState t).entryNanos⟩ :=
      Function.update_self _ _ _
    have hold : 0 < ((Calls.Totals.leave t s.profiler).threadState t).depth →
        ((Calls.Totals.leave t s.profiler).threadState t).entryNanos ≤ now := by
      rw [hown]
      intro hdepth
      dsimp only at hdepth
      exact hlater.own (by omega)
    unfold Calls.Totals.State.call
    dsimp only
    split
    · next hdepth =>
      have hstage : (({ s with profiler := Calls.Totals.leave t s.profiler } :
          Calls.Totals.State Tid).setStage t (.adding .exit)).stage t = .adding .exit :=
        Function.update_self _ _ _
      refine ⟨hold, hlater.line, ?_, ?_⟩
      · intro op hop
        rw [hstage] at hop
        cases hop
        -- the depth was 1, so the reading of the outermost entry is there
        show ((Calls.Totals.leave t s.profiler).threadState t).entryNanos ≤ now
        rw [hown] at hdepth ⊢
        exact hlater.own (by dsimp only at hdepth; omega)
      · intro op now' hop
        rw [hstage] at hop
        cases hop
    · exact .idle (Function.update_self _ _ _) hold hlater.line
  | enterLine =>
    refine .idle (Function.update_self _ _ _) hlater.own ?_
    show ((s.profiler.enterLine t now).lineState t).seen = true →
      ((s.profiler.enterLine t now).lineState t).entryNanos ≤ now
    unfold Calls.Profiler.enterLine
    dsimp only
    rw [Function.update_self]
    intro _
    exact Int.le_refl now
  | exitLine =>
    unfold Calls.Totals.State.call
    dsimp only
    split
    · next hseen =>
      have hstage : (s.setStage t (.adding .exitLine)).stage t = .adding .exitLine :=
        Function.update_self _ _ _
      refine ⟨hlater.own, hlater.line, ?_, ?_⟩
      · intro op hop
        rw [hstage] at hop
        cases hop
        exact hlater.line hseen
      · intro op now' hop
        rw [hstage] at hop
        cases hop
    · exact .idle (Function.update_self _ _ _) hlater.own hlater.line

theorem InTime.add {op : Op} (h : InTime clock s t) (hadding : s.stage t = .adding op)
    (hnow : clock ≤ now) : InTime now (s.add t op now) t := by
  have hlater := h.later hnow
  have hstage : (s.add t op now).stage t = .counting op now := Function.update_self _ _ _
  refine ⟨hlater.own, hlater.line, ?_, ?_⟩
  · intro op' hop
    rw [hstage] at hop
    cases hop
  · intro op' now' hop
    rw [hstage] at hop
    cases hop
    exact hlater.adding op hadding

theorem InTime.increment {op : Op} {now' : Int} (h : InTime clock s t) (hnow : clock ≤ now) :
    InTime now (s.increment t op now') t := by
  have hlater := h.later hnow
  refine .idle (Function.update_self _ _ _) ?_ ?_
  · unfold Calls.Totals.State.increment
    dsimp only
    split <;> exact hlater.own
  · unfold Calls.Totals.State.increment
    dsimp only
    split
    · show ((Calls.Totals.clear t _).lineState t).seen = true → _
      unfold Calls.Totals.clear
      dsimp only
      rw [Function.update_self]
      intro hfalse
      cases hfalse
    · exact hlater.line

/-- Neither total is less than before. -/
structure Grows (s s' : Calls.Totals.State Tid) : Prop where
  callCount : s.profiler.callCount ≤ s'.profiler.callCount
  totalNanos : s.profiler.totalNanos ≤ s'.profiler.totalNanos

omit [DecidableEq Tid] in
theorem Grows.same (hcount : s'.profiler.callCount = s.profiler.callCount)
    (hnanos : s'.profiler.totalNanos = s.profiler.totalNanos) : Grows s s' :=
  ⟨Int.le_of_eq hcount.symm, Int.le_of_eq hnanos.symm⟩

theorem grows_call (s : Calls.Totals.State Tid) (t : Tid) (op : Op) (now : Int) :
    Grows s (s.call t op now) := by
  cases op with
  | enter => exact .same rfl rfl
  | exit =>
    unfold Calls.Totals.State.call
    dsimp only
    split <;> exact .same rfl rfl
  | enterLine => exact .same rfl rfl
  | exitLine =>
    unfold Calls.Totals.State.call
    dsimp only
    split <;> exact .same rfl rfl

/-- A step of a thread whose clock does not go back. -/
theorem InTime.step {a : Calls.Totals.Act Tid} (h : ∀ t, InTime clock s t)
    (hnow : clock ≤ reading a) :
    (∀ t, InTime (reading a) (Calls.Totals.step s a) t) ∧ Grows s (Calls.Totals.step s a) := by
  suffices hself : InTime (reading a) (Calls.Totals.step s a) (thread a) ∧
      Grows s (Calls.Totals.step s a) by
    refine ⟨fun u => ?_, hself.2⟩
    by_cases hu : u = thread a
    · exact hu ▸ hself.1
    · exact ((h u).later hnow).other (other_step s a hu)
  cases a with
  | call t op now =>
    unfold Calls.Totals.step
    dsimp only
    split
    · exact ⟨(h t).call op hnow, grows_call s t op now⟩
    · exact ⟨(h t).later hnow, .same rfl rfl⟩
  | proceed t now =>
    unfold Calls.Totals.step
    dsimp only
    split
    · exact ⟨(h t).later hnow, .same rfl rfl⟩
    · next op hadding =>
      refine ⟨(h t).add hadding hnow, Int.le_refl _, ?_⟩
      have hentry := ((h t).later hnow).adding op hadding
      show s.profiler.totalNanos ≤ s.profiler.totalNanos + (now - entryNanos op s.profiler t)
      exact Int.le_add_of_nonneg_right (Int.sub_nonneg_of_le hentry)
    · next op now' hcounting =>
      refine ⟨(h t).increment hnow, ?_, ?_⟩
      · unfold Calls.Totals.State.increment
        dsimp only
        split <;> exact Int.le_add_of_nonneg_right Int.one_nonneg
      · unfold Calls.Totals.State.increment
        dsimp only
        split <;> exact Int.le_refl _

end

/-! ## The collector -/

/-- The threads when `record` began, when `getCallCount` had returned, and when `getTotalNanos`
had. -/
structure Moments (Tid : Type) where
  began : Calls.Totals.State Tid
  counted : Calls.Totals.State Tid
  ended : Calls.Totals.State Tid

/-- A snapshot, with the moments at which its counts were taken. -/
structure Sample (Tid : Type) where
  snapshot : ProfilerSnapshot
  moments : Moments Tid

/-- What the collector is doing: nothing, or it is in `getCallCount` or in `getTotalNanos`, or an
index of the array was out of bounds. -/
inductive Collecting (Tid : Type)
  | idle
  | counting (began : Calls.Totals.State Tid)
  | adding (began counted : Calls.Totals.State Tid) (callCount : Int)
  | thrown

/-- The threads with the latest reading of the clock, the collector with the tick it is at, and the
entry of the profiler; with all samples that were taken. -/
structure State (Tid : Type) where
  threads : Calls.Totals.State Tid
  clock : Int
  collecting : Collecting Tid
  nextTick : Int64
  entry : RingEntry
  samples : List (Sample Tid)

/-- A new entry; the collector first sees it at the tick `start`. -/
def State.init (size : RingBufferSize) (instrumentId : UInt64) (name : JString) (clock : Int)
    (start : Int64) : State Tid where
  threads := .init instrumentId name
  clock := clock
  collecting := .idle
  nextTick := start
  entry := Entry.new size ⟨instrumentId, name, true⟩
  samples := []

inductive Act (Tid : Type)
  | thread (a : Calls.Totals.Act Tid)
  /-- `entry.record(nextTick)` begins. -/
  | record
  /-- `callCount.sum()` returns. -/
  | callCount (n : Int)
  /-- `totalNanos.sum()` returns, and the snapshot is stored. -/
  | totalNanos (n : Int)
  | recordZero

/-- The collector calls the entry, which stores the snapshot of the sample, and comes to its next
tick. -/
def State.write (tickMs : TickMs) (s : State Tid) (calls : List Entry.Act) (x : Sample Tid) :
    State Tid :=
  match calls.foldlM Entry.step s.entry with
  | some e =>
    { s with
      collecting := .idle
      nextTick := s.nextTick + tick tickMs
      entry := e
      samples := s.samples ++ [x] }
  | none => { s with collecting := .thrown }

/-- What `recordZero` repeats, with the moments at which it was taken; in an entry without
snapshots it is zero, as the counts were at the start. -/
def State.repeated (s : State Tid) : Sample Tid where
  snapshot := Entry.repeated s.nextTick ((s.samples.map Sample.snapshot).getLast?)
  moments :=
    let new : Calls.Totals.State Tid := .init s.entry.profiler.instrumentId s.entry.profiler.name
    (s.samples.getLast?.map Sample.moments).getD ⟨new, new, new⟩

section

variable [DecidableEq Tid]

/-- A sum is not less than before it began, and not more than when it returns; an action that is
not possible does nothing. -/
def step (tickMs : TickMs) (s : State Tid) : Act Tid → State Tid
  | .thread a => { s with threads := Calls.Totals.step s.threads a, clock := reading a }
  | .record =>
    match s.collecting with
    | .idle => { s with collecting := .counting s.threads }
    | _ => s
  | .callCount n =>
    match s.collecting with
    | .counting began =>
      if began.profiler.callCount ≤ n ∧ n ≤ s.threads.profiler.callCount then
        { s with collecting := .adding began s.threads n }
      else s
    | _ => s
  | .totalNanos n =>
    match s.collecting with
    | .adding began counted callCount =>
      if counted.profiler.totalNanos ≤ n ∧ n ≤ s.threads.profiler.totalNanos then
        let calls := [.count (Int64.ofInt callCount) (Int64.ofInt n), .record s.nextTick]
        s.write tickMs calls ⟨⟨s.nextTick, Int64.ofInt callCount, Int64.ofInt n⟩,
          ⟨began, counted, s.threads⟩⟩
      else s
    | _ => s
  | .recordZero =>
    match s.collecting with
    | .idle => s.write tickMs [.recordZero s.nextTick] s.repeated
    | _ => s

/-- The clock does not go back. -/
def Forward (s : State Tid) : Act Tid → Prop
  | .thread a => s.clock ≤ reading a
  | _ => True

omit [DecidableEq Tid] in
instance (s : State Tid) : (a : Act Tid) → Decidable (Forward s a)
  | .thread _ => inferInstanceAs (Decidable (_ ≤ _))
  | .record | .callCount _ | .totalNanos _ | .recordZero => inferInstanceAs (Decidable True)

end

/-! ## What was taken -/

/-- What the threads have counted: the calls that they completed, each alone. -/
def counted [Fintype Tid] (s : Calls.Totals.State Tid) : Int := ∑ t, (solo (s.made t)).callCount

/-- The time of these calls. -/
def spent [Fintype Tid] (s : Calls.Totals.State Tid) : Int := ∑ t, (solo (s.made t)).totalNanos

variable [Fintype Tid]

/-- What holds of the threads at each moment. -/
structure Fair (s : Calls.Totals.State Tid) : Prop where
  sums : Calls.Totals.Inv s
  inTime : ∃ clock, ∀ t, InTime clock s t
  callCount_nonneg : 0 ≤ s.profiler.callCount
  totalNanos_nonneg : 0 ≤ s.profiler.totalNanos

section

variable {s : Calls.Totals.State Tid}

theorem Fair.init (instrumentId : UInt64) (name : JString) :
    Fair (.init instrumentId name : Calls.Totals.State Tid) where
  sums := .init instrumentId name
  inTime := ⟨0, .init 0 instrumentId name⟩
  callCount_nonneg := Int.le_refl 0
  totalNanos_nonneg := Int.le_refl 0

theorem Fair.counted_eq (h : Fair s) : counted s = s.profiler.callCount := h.sums.callCount.symm

/-- What was added for a call is there before the call is counted. -/
theorem Fair.spent_le (h : Fair s) : spent s ≤ s.profiler.totalNanos := by
  obtain ⟨clock, hin⟩ := h.inTime
  rw [h.sums.totalNanos]
  refine Finset.sum_le_sum fun t _ => Int.le_add_of_nonneg_right ?_
  unfold Stage.pending
  split
  · next op now hstage => exact Int.sub_nonneg_of_le ((hin t).counting op now hstage)
  · exact Int.le_refl 0

end

/-- A sample that was taken before the moment `now`. -/
structure Sample.Taken (x : Sample Tid) (now : Calls.Totals.State Tid) : Prop where
  began : Fair x.moments.began
  counted : Fair x.moments.counted
  ended : Fair x.moments.ended
  counting : Grows x.moments.began x.moments.counted
  adding : Grows x.moments.counted x.moments.ended
  later : Grows x.moments.ended now
  callCount : ∃ n, x.snapshot.callCount = Int64.ofInt n ∧
    x.moments.began.profiler.callCount ≤ n ∧ n ≤ x.moments.counted.profiler.callCount
  totalNanos : ∃ n, x.snapshot.totalNanos = Int64.ofInt n ∧
    x.moments.counted.profiler.totalNanos ≤ n ∧ n ≤ x.moments.ended.profiler.totalNanos

/-- What holds while the collector records. -/
def Collecting.Holds (now : Calls.Totals.State Tid) : Collecting Tid → Prop
  | idle => True
  | counting began => Fair began ∧ Grows began now
  | adding began counted callCount =>
    (Fair began ∧ Fair counted ∧ Grows began counted ∧ Grows counted now) ∧
      began.profiler.callCount ≤ callCount ∧ callCount ≤ counted.profiler.callCount
  | thrown => False

/-- The threads when the record began that is under way. -/
def Collecting.start : Collecting Tid → Option (Calls.Totals.State Tid)
  | counting began => some began
  | adding began _ _ => some began
  | _ => none

/-- The two are one record, of which the later repeats the counts. -/
structure Sample.Same (x y : Sample Tid) : Prop where
  moments : x.moments = y.moments
  callCount : x.snapshot.callCount = y.snapshot.callCount
  totalNanos : x.snapshot.totalNanos = y.snapshot.totalNanos

/-- The one is repeated by the other, or was taken before the other began. -/
def Sample.Before (x y : Sample Tid) : Prop := x.Same y ∨ Grows x.moments.ended y.moments.began

structure Inv (size : RingBufferSize) (tickMs : TickMs) (start : Int64) (p : Profiler)
    (s : State Tid) : Prop where
  fair : Fair s.threads
  inTime : ∀ t, InTime s.clock s.threads t
  collecting : s.collecting.Holds s.threads
  follows : Follows size s.entry
    ⟨s.entry.callCount, s.entry.totalNanos, s.samples.map Sample.snapshot⟩
  profiler : s.entry.profiler = p
  nextTick : s.nextTick = start + Int64.ofNat s.samples.length * tick tickMs
  ticks : s.samples.map (fun x => x.snapshot.timestamp) =
    Calls.Collector.progression tickMs start s.samples.length
  taken : ∀ x ∈ s.samples, x.Taken s.threads
  before : ∀ began, s.collecting.start = some began → ∀ x ∈ s.samples, Grows x.moments.ended began
  ordered : s.samples.Pairwise Sample.Before

/-! ## The steps -/

section

variable {s s' s'' : Calls.Totals.State Tid}

omit [Fintype Tid] in
theorem Grows.trans (h : Grows s s') (h' : Grows s' s'') : Grows s s'' :=
  ⟨h.callCount.trans h'.callCount, h.totalNanos.trans h'.totalNanos⟩

theorem Sample.Taken.mono {x : Sample Tid} (h : x.Taken s) (hgrows : Grows s s') : x.Taken s' :=
  { h with later := h.later.trans hgrows }

theorem Collecting.Holds.mono {c : Collecting Tid} (h : c.Holds s) (hgrows : Grows s s') :
    c.Holds s' := by
  cases c with
  | idle => trivial
  | counting began => exact ⟨h.1, h.2.trans hgrows⟩
  | adding began counted callCount =>
    obtain ⟨⟨hbegan, hcounted, hcounting, hadding⟩, hcalls⟩ := h
    exact ⟨⟨hbegan, hcounted, hcounting, hadding.trans hgrows⟩, hcalls⟩
  | thrown => exact h

end

theorem profiler_of_step {e e' : RingEntry} {a : Entry.Act} (h : Entry.step e a = some e') :
    e'.profiler = e.profiler := by
  have hstore : ∀ {x : ProfilerSnapshot}, Entry.store x e = some e' → e'.profiler = e.profiler := by
    intro x hx
    unfold Entry.store at hx
    split at hx
    · cases hx
      rfl
    · cases hx
  cases a with
  | count callCount totalNanos =>
    cases h
    rfl
  | record timestamp => exact hstore h
  | recordZero timestamp =>
    unfold Entry.step Entry.recordZero at h
    dsimp only at h
    split at h
    · exact hstore h
    · cases h

theorem profiler_of_steps {e e' : RingEntry} {calls : List Entry.Act}
    (h : calls.foldlM Entry.step e = some e') : e'.profiler = e.profiler := by
  induction calls generalizing e with
  | nil =>
    cases h
    rfl
  | cons a calls ih =>
    rw [List.foldlM_cons] at h
    obtain ⟨e₁, he₁, hrest⟩ := Option.bind_eq_some_iff.mp h
    exact (ih hrest).trans (profiler_of_step he₁)

variable {size : RingBufferSize} {tickMs : TickMs} {start : Int64} {p : Profiler} {s : State Tid}

theorem Inv.init (size : RingBufferSize) (tickMs : TickMs) (instrumentId : UInt64) (name : JString)
    (clock : Int) (start : Int64) :
    Inv size tickMs start ⟨instrumentId, name, true⟩
      (.init size instrumentId name clock start : State Tid) where
  fair := .init instrumentId name
  inTime := .init clock instrumentId name
  collecting := trivial
  follows := follows_new size _
  profiler := rfl
  nextTick := by
    show start = start + 0 * tick tickMs
    rw [Int64.zero_mul, Int64.add_zero]
  ticks := rfl
  taken := fun _ h => absurd h List.not_mem_nil
  before := fun _ _ _ h => absurd h List.not_mem_nil
  ordered := .nil

/-- The collector stores the snapshot of a sample, under its tick. -/
theorem Inv.write (h : Inv size tickMs start p s) (hsmall : size.val ≤ 2 ^ 30)
    {calls : List Entry.Act} {x : Sample Tid}
    (hcalls : (calls.foldl Log.step
      ⟨s.entry.callCount, s.entry.totalNanos, s.samples.map Sample.snapshot⟩).snapshots =
        s.samples.map Sample.snapshot ++ [x.snapshot])
    (htick : x.snapshot.timestamp = s.nextTick) (htaken : x.Taken s.threads)
    (hordered : ∀ y ∈ s.samples, y.Before x) :
    Inv size tickMs start p (s.write tickMs calls x) := by
  obtain ⟨e, he, hfollows⟩ := h.follows.run hsmall calls
  unfold State.write
  rw [he]
  refine { h with
    collecting := trivial, follows := ?_, profiler := ?_, nextTick := ?_, ticks := ?_, taken := ?_,
    before := fun _ h => (by cases h), ordered := ?_ }
  · have hturned := hfollows.turned
    rw [hcalls] at hturned
    refine ⟨hfollows.length, hfollows.head_nonneg, ?_, rfl, rfl⟩
    show Ring.Turned _ _ (((s.samples ++ [x]).map Sample.snapshot).foldl _ _)
    rw [List.map_append]
    exact hturned
  · exact (profiler_of_steps he).trans h.profiler
  · show s.nextTick + tick tickMs = start + Int64.ofNat (s.samples ++ [x]).length * tick tickMs
    rw [List.length_append, List.length_singleton, Calls.Collector.progression_next, h.nextTick]
  · show (s.samples ++ [x]).map _ = Calls.Collector.progression tickMs start (s.samples ++ [x]).length
    rw [List.map_append, List.length_append, List.length_singleton,
      Calls.Collector.progression_succ, h.ticks, ← h.nextTick, ← htick]
    rfl
  · intro y hy
    rcases List.mem_append.mp hy with hy | hy
    · exact h.taken y hy
    · exact List.mem_singleton.mp hy ▸ htaken
  · refine List.pairwise_append.mpr ⟨h.ordered, List.pairwise_singleton _ _, fun y hy z hz => ?_⟩
    exact List.mem_singleton.mp hz ▸ hordered y hy

/-- The sample that `recordZero` repeats. -/
theorem Inv.repeated (h : Inv size tickMs start p s) :
    s.repeated.Taken s.threads ∧ ∀ y ∈ s.samples, y.Before s.repeated := by
  unfold State.repeated
  rw [List.getLast?_map]
  cases hlast : s.samples.getLast? with
  | none =>
    have hnew : Fair (.init s.entry.profiler.instrumentId s.entry.profiler.name :
        Calls.Totals.State Tid) := Fair.init _ _
    have hnil : s.samples = [] := List.getLast?_eq_none_iff.mp hlast
    refine ⟨⟨hnew, hnew, hnew, .same rfl rfl, .same rfl rfl,
      ⟨h.fair.callCount_nonneg, h.fair.totalNanos_nonneg⟩,
      ⟨0, rfl, Int.le_refl 0, Int.le_refl 0⟩, ⟨0, rfl, Int.le_refl 0, Int.le_refl 0⟩⟩, ?_⟩
    intro y hy
    rw [hnil] at hy
    exact absurd hy List.not_mem_nil
  | some last =>
    obtain ⟨earlier, heq⟩ := List.getLast?_eq_some_iff.mp hlast
    have hmem : last ∈ s.samples := List.mem_of_getLast? hlast
    refine ⟨{ h.taken last hmem with }, fun y hy => ?_⟩
    have hordered := h.ordered
    rw [heq] at hordered hy
    rcases List.mem_append.mp hy with hy | hy
    · rcases (List.pairwise_append.mp hordered).2.2 y hy last (List.mem_singleton_self _) with h | h
      · exact .inl ⟨h.moments, h.callCount, h.totalNanos⟩
      · exact .inr h
    · rw [List.mem_singleton.mp hy]
      exact .inl ⟨rfl, rfl, rfl⟩

variable [DecidableEq Tid]

theorem Inv.thread (h : Inv size tickMs start p s) {a : Calls.Totals.Act Tid}
    (hnow : s.clock ≤ reading a) : Inv size tickMs start p (step tickMs s (.thread a)) := by
  obtain ⟨hin, hgrows⟩ := InTime.step h.inTime hnow
  have hfair : Fair (Calls.Totals.step s.threads a) :=
    ⟨h.fair.sums.step a, ⟨_, hin⟩, h.fair.callCount_nonneg.trans hgrows.callCount,
      h.fair.totalNanos_nonneg.trans hgrows.totalNanos⟩
  exact { h with
    fair := hfair
    inTime := hin
    collecting := h.collecting.mono hgrows
    taken := fun x hx => (h.taken x hx).mono hgrows }

theorem Inv.step (h : Inv size tickMs start p s) (hsmall : size.val ≤ 2 ^ 30) {a : Act Tid}
    (ha : Forward s a) : Inv size tickMs start p (step tickMs s a) := by
  have hholds := h.collecting
  have hbefore := h.before
  cases a with
  | thread a => exact h.thread ha
  | record =>
    unfold Telemetry.step
    dsimp only
    split
    · refine { h with collecting := ⟨h.fair, .same rfl rfl⟩, before := ?_ }
      rintro _ ⟨⟩ x hx
      exact (h.taken x hx).later
    · exact h
  | callCount n =>
    unfold Telemetry.step
    dsimp only
    split
    · next began hcollecting =>
      rw [hcollecting] at hholds hbefore
      split
      · next hn =>
        refine { h with
          collecting := ⟨⟨hholds.1, h.fair, hholds.2, .same rfl rfl⟩, hn⟩, before := ?_ }
        rintro _ ⟨⟩
        exact hbefore began rfl
      · exact h
    · exact h
  | totalNanos n =>
    unfold Telemetry.step
    dsimp only
    split
    · next began counted callCount hcollecting =>
      rw [hcollecting] at hholds hbefore
      obtain ⟨⟨hbegan, hcounted, hcounting, hadding⟩, hcalls⟩ := hholds
      split
      · next hn =>
        refine h.write hsmall rfl rfl ?_ fun y hy => .inr (hbefore began rfl y hy)
        exact ⟨hbegan, hcounted, h.fair, hcounting, hadding, .same rfl rfl,
          ⟨callCount, rfl, hcalls⟩, ⟨n, rfl, hn⟩⟩
      · exact h
    · exact h
  | recordZero =>
    unfold Telemetry.step
    dsimp only
    split
    · exact h.write hsmall rfl rfl h.repeated.1 h.repeated.2
    · exact h

theorem inv_steps {size : RingBufferSize} (hsmall : size.val ≤ 2 ^ 30) (tickMs : TickMs)
    (instrumentId : UInt64) (name : JString) (clock : Int) (start : Int64) {as : List (Act Tid)}
    (hforward : Along (step tickMs) Forward (.init size instrumentId name clock start) as) :
    Inv size tickMs start ⟨instrumentId, name, true⟩
      (run (step tickMs) (.init size instrumentId name clock start) as) :=
  inv_run (Inv size tickMs start ⟨instrumentId, name, true⟩) (fun _ _ h ha => h.step hsmall ha)
    (.init size tickMs instrumentId name clock start) hforward

end JautoProf.Telemetry
