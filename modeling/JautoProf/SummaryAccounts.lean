import JautoProf.StatSummary
import JautoProf.Telemetry

/-!
# What a summary accounts for (`ProfilerRegistry.java`, `prof_client.py`)

A client reads the statistics at some moment and summarises a window of the snapshots of a profiler
that the array still has.

Results:
1. `Inv.orderedSnapshots`: `getStats` writes the latest samples, in the order they were taken.
2. `summary_accounts`: the runs in the summary are the calls that the threads completed between the
   two records at the ends of the window, but for those completed during one of the two; and the
   time is that of these calls, and no more than what was added.
-/

namespace JautoProf.Telemetry

open Runs Entry ProfilerRegistry ProfClient
open Calls.Collector (tick progression)

variable {Tid : Type}

/-! ## The ticks -/

section

variable {tickMs : TickMs} {start : Int64} {n : Nat}

theorem toInt_tick {k : Nat} (h : start.toInt + k * tickMs.val < 2 ^ 63) :
    (start + Int64.ofNat k * tick tickMs).toInt = start.toInt + k * tickMs.val := by
  have hlo := start.le_toInt
  have hnonneg : 0 ≤ ((k * tickMs.val : Nat) : Int) := Int.natCast_nonneg _
  have hmul : Int64.ofNat k * tick tickMs = Int64.ofNat (k * tickMs.val) := (Int64.ofNat_mul _ _).symm
  rw [← Int.natCast_mul] at h ⊢
  rw [hmul, Int64.toInt_add, Int64.toInt_ofNat']
  have hbits : Int64.size = 2 ^ 64 := rfl
  rw [hbits, Int.add_bmod_bmod]
  exact Int.bmod_eq_of_le (by omega) (by omega)

theorem progression_rising (h : start.toInt + n * tickMs.val < 2 ^ 63) :
    (progression tickMs start n).Pairwise (· < ·) := by
  have hpos := tickMs.property.1
  have hlt : ∀ k < n, start.toInt + k * tickMs.val < 2 ^ 63 := by
    intro k hk
    have hle : (k * tickMs.val : Int) ≤ n * tickMs.val := by
      exact_mod_cast Nat.mul_le_mul_right _ (Nat.le_of_lt hk)
    omega
  unfold progression
  refine List.pairwise_map.mpr (List.pairwise_lt_range.imp_of_mem ?_)
  intro i j hi hj hij
  rw [Int64.lt_iff_toInt_lt, toInt_tick (hlt i (List.mem_range.mp hi)),
    toInt_tick (hlt j (List.mem_range.mp hj))]
  have hmul : (i * tickMs.val : Int) < j * tickMs.val := by
    exact_mod_cast Nat.mul_lt_mul_of_pos_right hij hpos
  omega

end

/-! ## What a sample holds -/

theorem Sample.Taken.grows [Fintype Tid] {x : Sample Tid} {now : Calls.Totals.State Tid}
    (h : x.Taken now) : Grows x.moments.counted now := h.adding.trans h.later

/-- The number of calls in a snapshot, before the counter overflows. -/
theorem Sample.Taken.callCount_bounds [Fintype Tid] {x : Sample Tid} {now : Calls.Totals.State Tid}
    (h : x.Taken now) (hnow : now.profiler.callCount < 2 ^ 63) :
    Telemetry.counted x.moments.began ≤ x.snapshot.callCount.toInt ∧
      x.snapshot.callCount.toInt ≤ Telemetry.counted x.moments.counted := by
  obtain ⟨n, hn, hlo, hhi⟩ := h.callCount
  have hnonneg := h.began.callCount_nonneg
  have hle := h.grows.callCount
  rw [hn, Int64.toInt_ofInt_of_le (by omega) (by omega), h.began.counted_eq, h.counted.counted_eq]
  exact ⟨hlo, hhi⟩

/-- Its time is that of its calls, and no more than was added by the end of the record. -/
theorem Sample.Taken.totalNanos_bounds [Fintype Tid] {x : Sample Tid}
    {now : Calls.Totals.State Tid} (h : x.Taken now) (hnow : now.profiler.totalNanos < 2 ^ 63) :
    spent x.moments.counted ≤ x.snapshot.totalNanos.toInt ∧
      x.snapshot.totalNanos.toInt ≤ x.moments.ended.profiler.totalNanos := by
  obtain ⟨n, hn, hlo, hhi⟩ := h.totalNanos
  have hnonneg := h.counted.totalNanos_nonneg
  have hle := h.later.totalNanos
  rw [hn, Int64.toInt_ofInt_of_le (by omega) (by omega)]
  exact ⟨h.counted.spent_le.trans hlo, hhi⟩

/-! ## What the client reads -/

/-- Where no name is too long the client reads the active profilers. -/
theorem parseStats_getStats (tickMs : TickMs) {entries : List ProfilerEntry}
    (hsize : encodedSize (activeEntries entries) < 2 ^ 31)
    (hnames : ∀ e ∈ activeEntries entries, (nameBytes e).length ≤ pstrMax) :
    ∃ body, getStats tickMs entries = some body ∧
      parseStats body = .ok ⟨tickMs.val, (activeEntries entries).map probeOf⟩ := by
  have hcount := length_le_encodedSize (activeEntries entries)
  have hprobes : Wire.Reads (probe.times (activeEntries entries).length)
      ((activeEntries entries).flatMap entryBytes) ((activeEntries entries).map probeOf) := by
    refine Wire.Reads.times fun e he => reads_probe e (hnames e he) ?_
    have hsnaps := snapshots_le_encodedSize he
    omega
  have hreads := (reads_stats tickMs (by omega) hprobes).run []
  rw [List.append_nil] at hreads
  exact ⟨_, getStats_eq tickMs entries hsize, hreads⟩

/-- The samples that the array still has. -/
def kept (size : RingBufferSize) (s : State Tid) : List (Sample Tid) :=
  s.samples.drop (s.samples.length - size.val)

/-- Those of a window. -/
def window (size : RingBufferSize) (s : State Tid) (startTime endTime : ℚ) : List (Sample Tid) :=
  (kept size s).filter fun x => startTime * 1000 ≤ x.snapshot.timestamp.toInt ∧
    x.snapshot.timestamp.toInt ≤ endTime * 1000

section

variable [Fintype Tid] {size : RingBufferSize} {tickMs : TickMs} {start : Int64} {p : Profiler}
  {s : State Tid}

theorem Inv.orderedSnapshots (h : Inv size tickMs start p s)
    (hticks : start.toInt + s.samples.length * tickMs.val < 2 ^ 63) :
    getOrderedSnapshots s.entry.toProfilerEntry = (kept size s).map Sample.snapshot := by
  have hrising := progression_rising hticks
  rw [← h.ticks, List.pairwise_map] at hrising
  have hpairwise : (s.samples.map Sample.snapshot).Pairwise fun x y => x.timestamp < y.timestamp :=
    List.pairwise_map.mpr hrising
  have hperm := h.follows.turned.perm
  rw [Ring.pushes_eq_drop size.property.1, List.length_map, ← List.map_drop] at hperm
  refine getOrderedSnapshots_of_perm hperm ?_
  exact hpairwise.sublist ((List.drop_sublist _ _).map _)

/-- The window of the client is the window of the samples. -/
theorem Inv.windowSnaps (h : Inv size tickMs start p s)
    (hticks : start.toInt + s.samples.length * tickMs.val < 2 ^ 63) (startTime endTime : ℚ) :
    ProfClient.windowSnaps (startTime * 1000) (endTime * 1000) (probeOf s.entry.toProfilerEntry) =
      (window size s startTime endTime).map fun x => snapshotOf x.snapshot := by
  unfold ProfClient.windowSnaps probeOf window
  dsimp only
  rw [h.orderedSnapshots hticks, List.map_map, List.filter_map]
  rfl

end

/-- The summary of a probe takes the first active entry of the name. -/
theorem summaryEntry_first {pre post : List ProfilerEntry} {e : ProfilerEntry}
    (hactive : e.profiler.active = true)
    (hother : ∀ e' ∈ activeEntries pre, nameBytes e' ≠ nameBytes e) :
    summaryEntry ((activeEntries (pre ++ e :: post)).map probeOf) (nameBytes e) =
      .ok (probeOf e) := by
  have hsplit : activeEntries (pre ++ e :: post) = activeEntries pre ++ e :: activeEntries post := by
    unfold activeEntries
    rw [List.filter_append, List.filter_cons_of_pos (by exact hactive)]
  have hself : decide ((probeOf e).name = nameBytes e) = true := decide_eq_true rfl
  rw [summaryEntry_iff, findEntry_eq, hsplit, List.map_append, List.map_cons, List.find?_append,
    List.find?_cons_of_pos (by exact hself)]
  have hnone : ((activeEntries pre).map probeOf).find? (fun q => q.name = nameBytes e) = none := by
    refine List.find?_eq_none.mpr fun q hq hname => ?_
    obtain ⟨e', he', rfl⟩ := List.mem_map.mp hq
    exact hother e' he' (of_decide_eq_true hname)
  rw [hnone]
  rfl

/-! ## The summary -/

/-- The summary of a window, from the ends of it. -/
theorem summaryOf_ends {entry : Probe} (name : List UInt8) {startTime endTime : ℚ}
    {first second : Snapshot} {rest : List Snapshot}
    (hw : ProfClient.windowSnaps (startTime * 1000) (endTime * 1000) entry =
      first :: second :: rest) :
    let last := (second :: rest).getLast (List.cons_ne_nil _ _)
    ∃ summary, summaryOf entry name startTime endTime = .ok summary ∧
      summary.instrumentId = entry.instrumentId ∧
      summary.totalRuns = last.callCount - first.callCount ∧
      (0 < summary.totalRuns → summary.avgNsPerCall * summary.totalRuns =
        ((last.totalNanos - first.totalNanos : Int) : ℚ)) := by
  intro last
  have hlast : (first :: second :: rest).getLast (List.cons_ne_nil _ _) = last :=
    List.getLast_cons (List.cons_ne_nil _ _)
  unfold summaryOf
  rw [hw]
  refine ⟨_, rfl, rfl, ?_, ?_⟩
  · dsimp only
    rw [hlast]
  · dsimp only
    rw [hlast]
    intro hpos
    have hne : ((last.callCount - first.callCount : Int) : ℚ) ≠ 0 :=
      Int.cast_ne_zero.mpr (Int.ne_of_gt hpos)
    rw [if_pos hpos, div_mul_cancel₀ _ hne]

/-- What the summary says of the calls from the one sample to the other. -/
structure Accounts [Fintype Tid] (first last : Sample Tid) (summary : StatSummary) : Prop where
  runs_nonneg : 0 ≤ summary.totalRuns
  runs_least : counted last.moments.began - counted first.moments.counted ≤ summary.totalRuns
  runs_most : summary.totalRuns ≤ counted last.moments.counted - counted first.moments.began
  nanos_least : 0 < summary.totalRuns →
    ((spent last.moments.counted - first.moments.ended.profiler.totalNanos : Int) : ℚ) ≤
      summary.avgNsPerCall * summary.totalRuns
  nanos_most : 0 < summary.totalRuns → summary.avgNsPerCall * summary.totalRuns ≤
    ((last.moments.ended.profiler.totalNanos - spent first.moments.counted : Int) : ℚ)

section

variable [Fintype Tid] {first last : Sample Tid} {now : Calls.Totals.State Tid}
  {summary : StatSummary}

theorem accounts_of_taken (hfirst : first.Taken now) (hlast : last.Taken now)
    (hbefore : first.Before last) (hcount : now.profiler.callCount < 2 ^ 63)
    (hnanos : now.profiler.totalNanos < 2 ^ 63)
    (hruns : summary.totalRuns =
      last.snapshot.callCount.toInt - first.snapshot.callCount.toInt)
    (havg : 0 < summary.totalRuns → summary.avgNsPerCall * summary.totalRuns =
      ((last.snapshot.totalNanos.toInt - first.snapshot.totalNanos.toInt : Int) : ℚ)) :
    Accounts first last summary := by
  obtain ⟨hfirstLo, hfirstHi⟩ := hfirst.callCount_bounds hcount
  obtain ⟨hlastLo, hlastHi⟩ := hlast.callCount_bounds hcount
  obtain ⟨hfirstNanos, hfirstAdded⟩ := hfirst.totalNanos_bounds hnanos
  obtain ⟨hlastNanos, hlastAdded⟩ := hlast.totalNanos_bounds hnanos
  constructor
  · rw [hruns]
    rcases hbefore with hsame | hgrows
    · rw [hsame.callCount, Int.sub_self]
    · -- the calls of the first record were counted before the last one began
      have hle := hfirst.adding.callCount.trans hgrows.callCount
      rw [← hfirst.counted.counted_eq, ← hlast.began.counted_eq] at hle
      omega
  · omega
  · omega
  · intro hpos
    rw [havg hpos]
    exact_mod_cast Int.sub_le_sub hlastNanos hfirstAdded
  · intro hpos
    rw [havg hpos]
    exact_mod_cast Int.sub_le_sub hlastAdded hfirstNanos

end

variable [Fintype Tid] [DecidableEq Tid]

/-- A client reads the statistics in any state of any run whose clock does not go back and whose
counters have not overflowed. Where a window has two samples that the array still has, its summary
accounts for the calls from the first to the last of them; otherwise it is refused. -/
theorem summary_accounts {size : RingBufferSize} (hsmall : size.val ≤ 2 ^ 30) (tickMs : TickMs)
    (instrumentId : UInt64) (name : JString) (clock : Int) (start : Int64) {as : List (Act Tid)}
    (hforward : Along (step tickMs) Forward (.init size instrumentId name clock start) as)
    {s : State Tid} (hs : run (step tickMs) (.init size instrumentId name clock start) as = s)
    (hticks : start.toInt + s.samples.length * tickMs.val < 2 ^ 63)
    (hcount : s.threads.profiler.callCount < 2 ^ 63)
    (hnanos : s.threads.profiler.totalNanos < 2 ^ 63) {pre post : List ProfilerEntry}
    (hother : ∀ e ∈ activeEntries pre, nameBytes e ≠ Utf8.toUtf8 name)
    (hnames : ∀ e ∈ activeEntries (pre ++ s.entry.toProfilerEntry :: post),
      (nameBytes e).length ≤ pstrMax)
    (hsize : encodedSize (activeEntries (pre ++ s.entry.toProfilerEntry :: post)) < 2 ^ 31)
    (startTime endTime : ℚ) :
    ∃ body stats, getStats tickMs (pre ++ s.entry.toProfilerEntry :: post) = some body ∧
      parseStats body = .ok stats ∧
      match window size s startTime endTime with
      | first :: second :: rest =>
        ∃ summary, computeStatSummary stats.probes (Utf8.toUtf8 name) startTime endTime =
            .ok summary ∧ summary.instrumentId = instrumentId.toNat ∧
          Accounts first ((second :: rest).getLast (List.cons_ne_nil _ _)) summary
      | few => computeStatSummary stats.probes (Utf8.toUtf8 name) startTime endTime =
          .error (.needSnapshots startTime endTime few.length) := by
  have hinv : Inv size tickMs start ⟨instrumentId, name, true⟩ s :=
    hs ▸ inv_steps hsmall tickMs instrumentId name clock start hforward
  have hname : nameBytes s.entry.toProfilerEntry = Utf8.toUtf8 name := by
    unfold nameBytes
    rw [hinv.profiler]
  obtain ⟨body, hbody, hparse⟩ := parseStats_getStats tickMs hsize hnames
  refine ⟨body, _, hbody, hparse, ?_⟩
  have hentry := @summaryEntry_first pre post s.entry.toProfilerEntry
    (congrArg Profiler.active hinv.profiler) (hname.symm ▸ hother)
  rw [hname] at hentry
  have hwindow := hinv.windowSnaps hticks startTime endTime
  have hsub : (window size s startTime endTime).Sublist s.samples :=
    List.filter_sublist.trans (List.drop_sublist _ _)
  simp only [computeStatSummary_eq hentry]
  match hsamples : window size s startTime endTime with
  | [] =>
    unfold summaryOf
    rw [hwindow, hsamples]
    rfl
  | [x] =>
    unfold summaryOf
    rw [hwindow, hsamples]
    rfl
  | first :: second :: rest =>
    rw [hsamples] at hsub hwindow
    have hmem := fun x hx => hinv.taken x (hsub.subset hx)
    have hlast : (second :: rest).getLast (List.cons_ne_nil _ _) ∈ second :: rest :=
      List.getLast_mem _
    obtain ⟨summary, hsummary, hid, hruns, havg⟩ := summaryOf_ends (Utf8.toUtf8 name) hwindow
    have hend : ((second :: rest).map fun x => snapshotOf x.snapshot).getLast
        (List.cons_ne_nil _ _) = snapshotOf ((second :: rest).getLast _).snapshot :=
      List.getLast_map _
    have hruns := hruns.trans (congrArg (fun e : Snapshot => e.callCount - _) hend)
    have havg := fun hpos => (havg hpos).trans
      (congrArg (fun e : Snapshot => ((e.totalNanos - _ : Int) : ℚ)) hend)
    refine ⟨summary, hsummary, ?_, accounts_of_taken (hmem first List.mem_cons_self)
      (hmem _ (List.mem_cons_of_mem _ hlast))
      ((List.pairwise_cons.mp (hinv.ordered.sublist hsub)).1 _ hlast) hcount hnanos hruns havg⟩
    rw [hid]
    show s.entry.profiler.instrumentId.toNat = _
    rw [hinv.profiler]

/-- A call that is counted while the collector records, and a tick that it missed. -/
def observed : List (Act Bool) :=
  [.thread (.call true .enter 5), .record, .thread (.call true .exit 6), .thread (.proceed true 9),
    .callCount 0, .thread (.proceed true 9), .totalNanos 4, .recordZero, .record, .callCount 1,
    .totalNanos 4]

def observedState : State Bool :=
  run (step defaultTickMs) (.init ⟨3, by decide, by decide⟩ 7 [0x41] 0 1000) observed

theorem summary_accounts_observed :
    ∃ body stats summary, ∃ first last : Sample Bool,
      getStats defaultTickMs [observedState.entry.toProfilerEntry] = some body ∧
        parseStats body = .ok stats ∧
        computeStatSummary stats.probes [0x41] 0 4 = .ok summary ∧ summary.instrumentId = 7 ∧
        Accounts first last summary := by
  obtain ⟨body, stats, hbody, hparse, hsummary⟩ := @summary_accounts Bool _ _
    ⟨3, by decide, by decide⟩ (by decide) defaultTickMs 7 [0x41] 0 1000 observed
    ⟨by decide, trivial, by decide, by decide, trivial, by decide, trivial, trivial, trivial,
      trivial, trivial, trivial⟩
    observedState rfl (by decide) (by decide) (by decide) [] [] (by decide) (by decide)
    (by decide) 0 4
  have hlength : 2 ≤ (window ⟨3, by decide, by decide⟩ observedState 0 4).length := by
    decide +kernel
  obtain ⟨first, second, rest, hwindow⟩ : ∃ first second rest,
      window ⟨3, by decide, by decide⟩ observedState 0 4 = first :: second :: rest := by
    match hl : window ⟨3, by decide, by decide⟩ observedState 0 4, hlength with
    | first :: second :: rest, _ => exact ⟨first, second, rest, rfl⟩
  rw [hwindow] at hsummary
  obtain ⟨summary, hok, hid, haccounts⟩ := hsummary
  exact ⟨body, stats, summary, _, _, hbody, hparse, hok, hid, haccounts⟩

end JautoProf.Telemetry
