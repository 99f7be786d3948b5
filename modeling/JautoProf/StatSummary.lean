import JautoProf.Lib.Intervals
import JautoProf.ProfGraph
import Mathlib.Algebra.Order.Field.Rat
import Mathlib.Data.Rat.Cast.Order
import Mathlib.Tactic.FieldSimp

/-!
# A summary and a graph of one window (`prof_client.py`, `prof_graph.py`)

`compute_stat_summary` takes the difference of the last and the first snapshot of a window,
`_rate_series` those of neighbours. The numbers are exact.

Results:
1. `summary_matches_graph`: what the points of the graph make over their intervals is what the
   summary says of the window, and the runs of two windows that share a snapshot add up.
-/

namespace JautoProf.ProfClient

/-! ## The summary -/

/-- The snapshots inside a window, in milliseconds. -/
def windowSnaps (startMs endMs : ℚ) (entry : Probe) : List Snapshot :=
  entry.snapshots.filter fun s => startMs ≤ s.timestamp ∧ s.timestamp ≤ endMs

/-- What `compute_stat_summary` returns. -/
structure StatSummary where
  name : List UInt8
  instrumentId : Nat
  startTime : ℚ
  endTime : ℚ
  totalRuns : Int
  avgNsPerCall : ℚ
deriving DecidableEq

/-- The exceptions: a `ValueError` with its text, and the one whose text gives the bounds of the
window and the number of the snapshots in it. -/
inductive SummaryError
  | valueError (text : List UInt8)
  | needSnapshots (startTime endTime : ℚ) (found : Nat)
deriving DecidableEq

/-- `compute_stat_summary`, for the entry that its loop found. -/
def summaryOf (entry : Probe) (name : List UInt8) (startTime endTime : ℚ) :
    Except SummaryError StatSummary :=
  match windowSnaps (startTime * 1000) (endTime * 1000) entry with
  | first :: second :: rest =>
    let last := (first :: second :: rest).getLast (List.cons_ne_nil _ _)
    let totalRuns := last.callCount - first.callCount
    let totalNanos := last.totalNanos - first.totalNanos
    let avgNs : ℚ := if 0 < totalRuns then totalNanos / totalRuns else 0
    .ok ⟨name, entry.instrumentId, startTime, endTime, totalRuns, avgNs⟩
  | snaps => .error (.needSnapshots startTime endTime snaps.length)

/-- `compute_stat_summary`. -/
def computeStatSummary (probes : List Probe) (name : List UInt8) (startTime endTime : ℚ) :
    Except SummaryError StatSummary := do
  let entry ← (summaryEntry probes name).mapError .valueError
  summaryOf entry name startTime endTime

/-! ## The graph -/

/-- What `_rate_series` returns. -/
structure RateSeries where
  times : List ℚ
  callsPerSec : List ℚ
  nsPerCall : List ℚ
deriving DecidableEq

/-- The body of the loop of `_rate_series`. -/
def ratePoint (series : RateSeries) (p : Snapshot × Snapshot) : RateSeries :=
  let dtMs := p.2.timestamp - p.1.timestamp
  if dtMs ≤ 0 then series
  else
    let dCalls := p.2.callCount - p.1.callCount
    let dNanos := p.2.totalNanos - p.1.totalNanos
    ⟨series.times ++ [(p.2.timestamp / 1000 : ℚ)],
      series.callsPerSec ++ [(dCalls / (dtMs / 1000) : ℚ)],
      series.nsPerCall ++ [(if 0 < dCalls then dNanos / dCalls else 0 : ℚ)]⟩

/-- `_rate_series`. -/
def rateSeries (entry : Probe) (startMs endMs : ℚ) : RateSeries :=
  (intervals (windowSnaps startMs endMs entry)).foldl ratePoint ⟨[], [], []⟩

/-! ## What the two say of a window -/

/-- The length of an interval in seconds. -/
def seconds (p : Snapshot × Snapshot) : ℚ := (p.2.timestamp - p.1.timestamp) / 1000

/-- The calls in an interval. -/
def calls (p : Snapshot × Snapshot) : Int := p.2.callCount - p.1.callCount

/-- The nanoseconds that were spent in an interval. -/
def nanos (p : Snapshot × Snapshot) : Int := p.2.totalNanos - p.1.totalNanos

/-- The timestamps rise, and the counters do not fall. -/
structure Cumulative (l : List Snapshot) : Prop where
  times : l.Pairwise fun s t => s.timestamp < t.timestamp
  counts : l.Pairwise fun s t => s.callCount ≤ t.callCount
  nanos : l.Pairwise fun s t => s.totalNanos ≤ t.totalNanos

theorem Cumulative.sublist {l l' : List Snapshot} (h : Cumulative l) (hl : l'.Sublist l) :
    Cumulative l' :=
  ⟨h.times.sublist hl, h.counts.sublist hl, h.nanos.sublist hl⟩

theorem windowSnaps_sublist (startMs endMs : ℚ) (entry : Probe) :
    (windowSnaps startMs endMs entry).Sublist entry.snapshots :=
  List.filter_sublist

/-- The average in an interval, which is zero where there are no calls. -/
def average (p : Snapshot × Snapshot) : ℚ := if 0 < calls p then nanos p / calls p else 0

/-- The points of the graph, as they stand beside the intervals. -/
def ratesOf (l : List (Snapshot × Snapshot)) : RateSeries :=
  ⟨l.map fun p => p.2.timestamp / 1000, l.map fun p => calls p / seconds p, l.map average⟩

theorem foldl_ratePoint (l : List (Snapshot × Snapshot))
    (h : ∀ p ∈ l, p.1.timestamp < p.2.timestamp) (series : RateSeries) :
    l.foldl ratePoint series = ⟨series.times ++ (ratesOf l).times,
      series.callsPerSec ++ (ratesOf l).callsPerSec,
      series.nsPerCall ++ (ratesOf l).nsPerCall⟩ := by
  induction l generalizing series with
  | nil => simp [ratesOf]
  | cons p l ih =>
    have hp := h p List.mem_cons_self
    rw [List.foldl_cons, ih fun q hq => h q (List.mem_cons_of_mem p hq)]
    have hpoint : ratePoint series p = ⟨series.times ++ (ratesOf [p]).times,
        series.callsPerSec ++ (ratesOf [p]).callsPerSec,
        series.nsPerCall ++ (ratesOf [p]).nsPerCall⟩ := by
      unfold ratePoint
      rw [if_neg (by omega)]
      simp [ratesOf, average, calls, seconds, nanos]
    rw [hpoint]
    simp [ratesOf]

/-- Where the timestamps rise no interval is skipped. -/
theorem rateSeries_eq {startMs endMs : ℚ} {entry : Probe}
    (h : Cumulative (windowSnaps startMs endMs entry)) :
    rateSeries entry startMs endMs = ratesOf (intervals (windowSnaps startMs endMs entry)) := by
  rw [rateSeries, foldl_ratePoint _ (fun p hp => rel_of_mem_intervals h.times hp)]
  rfl

/-! ## Sums over the intervals -/

/-- What the points and the summary of the window have in common. -/
structure GraphAgrees (entry : Probe) (summary : StatSummary) (startMs endMs : ℚ) : Prop where
  points : (rateSeries entry startMs endMs).times.length =
      (intervals (windowSnaps startMs endMs entry)).length ∧
    (rateSeries entry startMs endMs).callsPerSec.length =
      (intervals (windowSnaps startMs endMs entry)).length ∧
    (rateSeries entry startMs endMs).nsPerCall.length =
      (intervals (windowSnaps startMs endMs entry)).length
  runs : (List.zipWith (fun (rate : ℚ) p => rate * seconds p)
      (rateSeries entry startMs endMs).callsPerSec
      (intervals (windowSnaps startMs endMs entry))).sum = summary.totalRuns
  nanos : (∀ p ∈ intervals (windowSnaps startMs endMs entry), calls p = 0 → nanos p = 0) →
    (List.zipWith (fun (avg : ℚ) p => avg * calls p)
      (rateSeries entry startMs endMs).nsPerCall
      (intervals (windowSnaps startMs endMs entry))).sum = summary.totalRuns * summary.avgNsPerCall

theorem seconds_pos {p : Snapshot × Snapshot} (h : p.1.timestamp < p.2.timestamp) :
    0 < seconds p := by
  have hlt : (p.1.timestamp : ℚ) < p.2.timestamp := Int.cast_lt.mpr h
  exact div_pos (sub_pos.mpr hlt) (by norm_num)

theorem average_mul {p : Snapshot × Snapshot} (hcalls : 0 ≤ calls p)
    (h : calls p = 0 → nanos p = 0) : average p * calls p = nanos p := by
  unfold average
  split
  · next hpos =>
    have hne : (calls p : ℚ) ≠ 0 := Int.cast_ne_zero.mpr (Int.ne_of_gt hpos)
    exact div_mul_cancel₀ _ hne
  · next hpos =>
    have hzero : calls p = 0 := Int.le_antisymm (Int.not_lt.mp hpos) hcalls
    rw [h hzero, hzero]
    simp

variable {first second : Snapshot} {rest : List Snapshot}

/-- The runs from the first snapshot to the last one. -/
theorem sum_calls : (((intervals (first :: second :: rest)).map calls).sum : Int) =
    ((first :: second :: rest).getLast (List.cons_ne_nil _ _)).callCount - first.callCount :=
  sum_intervals Snapshot.callCount first (second :: rest)

theorem sum_nanos : (((intervals (first :: second :: rest)).map nanos).sum : Int) =
    ((first :: second :: rest).getLast (List.cons_ne_nil _ _)).totalNanos - first.totalNanos :=
  sum_intervals Snapshot.totalNanos first (second :: rest)

theorem sum_rates {l : List (Snapshot × Snapshot)} (h : ∀ p ∈ l, p.1.timestamp < p.2.timestamp) :
    (List.zipWith (fun (rate : ℚ) p => rate * seconds p) (ratesOf l).callsPerSec l).sum =
      ((l.map calls).sum : Int) := by
  have hmap : List.zipWith (fun (rate : ℚ) p => rate * seconds p) (ratesOf l).callsPerSec l =
      (l.map calls).map Int.cast := by
    rw [ratesOf, List.zipWith_map_left, List.zipWith_self, List.map_map]
    exact List.map_congr_left fun p hp => div_mul_cancel₀ _ (ne_of_gt (seconds_pos (h p hp)))
  rw [hmap]
  exact (map_list_sum (Int.castAddHom ℚ) (l.map calls)).symm

theorem sum_averages {l : List (Snapshot × Snapshot)} (hcalls : ∀ p ∈ l, 0 ≤ calls p)
    (h : ∀ p ∈ l, calls p = 0 → nanos p = 0) :
    (List.zipWith (fun (avg : ℚ) p => avg * calls p) (ratesOf l).nsPerCall l).sum =
      ((l.map nanos).sum : Int) := by
  have hmap : List.zipWith (fun (avg : ℚ) p => avg * calls p) (ratesOf l).nsPerCall l =
      (l.map nanos).map Int.cast := by
    rw [ratesOf, List.zipWith_map_left, List.zipWith_self, List.map_map]
    exact List.map_congr_left fun p hp => average_mul (hcalls p hp) (h p hp)
  rw [hmap]
  exact (map_list_sum (Int.castAddHom ℚ) (l.map nanos)).symm

/-- Where no interval has calls, no time was spent. -/
theorem nanos_eq_zero {l : List (Snapshot × Snapshot)} (hcalls : ∀ p ∈ l, 0 ≤ calls p)
    (h : ∀ p ∈ l, calls p = 0 → nanos p = 0) (hsum : (l.map calls).sum ≤ 0) :
    (l.map nanos).sum = 0 := by
  have hnonneg : ∀ x ∈ l.map calls, 0 ≤ x := by
    intro x hx
    obtain ⟨p, hp, rfl⟩ := List.mem_map.mp hx
    exact hcalls p hp
  refine List.sum_eq_zero fun x hx => ?_
  obtain ⟨p, hp, rfl⟩ := List.mem_map.mp hx
  have hle := List.single_le_sum hnonneg (calls p) (List.mem_map_of_mem hp)
  exact h p hp (Int.le_antisymm (hle.trans hsum) (hcalls p hp))

/-! ## Windows -/

variable {probes : List Probe} {name : List UInt8} {entry : Probe} {startTime endTime : ℚ}

theorem summaryOf_eq (name : List UInt8)
    (hw : windowSnaps (startTime * 1000) (endTime * 1000) entry = first :: second :: rest) :
    ∃ summary, summaryOf entry name startTime endTime = .ok summary ∧
      summary.totalRuns = ((intervals (first :: second :: rest)).map calls).sum ∧
      summary.avgNsPerCall = if 0 < summary.totalRuns then
        (((intervals (first :: second :: rest)).map nanos).sum : ℚ) / summary.totalRuns else 0 := by
  unfold summaryOf
  rw [hw]
  refine ⟨_, rfl, sum_calls.symm, ?_⟩
  rw [sum_nanos]

theorem computeStatSummary_eq (h : summaryEntry probes name = .ok entry) :
    computeStatSummary probes name startTime endTime = summaryOf entry name startTime endTime := by
  unfold computeStatSummary
  rw [h]
  rfl

/-- The runs in a window that holds at least two snapshots. -/
theorem totalRuns_eq (name : List UInt8) {l : List Snapshot}
    (hw : windowSnaps (startTime * 1000) (endTime * 1000) entry = l) (hl : 2 ≤ l.length) :
    ∃ summary, summaryOf entry name startTime endTime = .ok summary ∧
      summary.totalRuns = ((intervals l).map calls).sum := by
  match l, hw, hl with
  | first :: second :: rest, hw, _ =>
    obtain ⟨summary, hsummary, hruns, -⟩ := summaryOf_eq name hw
    exact ⟨summary, hsummary, hruns⟩

/-- The two windows that a snapshot splits a window into. -/
theorem windowSnaps_split {startMs endMs : ℚ} {mid : Snapshot}
    (h : Cumulative (windowSnaps startMs endMs entry))
    (hmid : mid ∈ windowSnaps startMs endMs entry) :
    ∃ a b, windowSnaps startMs endMs entry = a ++ mid :: b ∧
      windowSnaps startMs mid.timestamp entry = a ++ [mid] ∧
      windowSnaps mid.timestamp endMs entry = mid :: b := by
  obtain ⟨a, b, hab⟩ := List.append_of_mem hmid
  have hbounds := of_decide_eq_true (List.mem_filter.mp hmid).2
  have hrise : (a ++ mid :: b).Pairwise fun s t => (s.timestamp : ℚ) < t.timestamp := by
    rw [← hab]
    exact h.times.imp fun hlt => Int.cast_lt.mpr hlt
  refine ⟨a, b, hab, ?_, ?_⟩
  · rw [← filter_le_split hrise, ← hab, windowSnaps, windowSnaps, List.filter_filter]
    refine List.filter_congr fun s _ => ?_
    rw [← Bool.decide_and, decide_eq_decide]
    exact ⟨fun hs => ⟨hs.2, hs.1, hs.2.trans hbounds.2⟩, fun hs => ⟨hs.2.1, hs.1⟩⟩
  · rw [← filter_ge_split hrise, ← hab, windowSnaps, windowSnaps, List.filter_filter]
    refine List.filter_congr fun s _ => ?_
    rw [← Bool.decide_and, decide_eq_decide]
    exact ⟨fun hs => ⟨hs.1, hbounds.1.trans hs.1, hs.2⟩, fun hs => ⟨hs.1, hs.2.2⟩⟩

/-- For every probe whose snapshots rise, and every window that holds two of them: the summary and
the graph agree, and where a snapshot splits the window the runs of the parts add up. -/
theorem summary_matches_graph (h : summaryEntry probes name = .ok entry)
    (hc : Cumulative entry.snapshots)
    (hw : 2 ≤ (windowSnaps (startTime * 1000) (endTime * 1000) entry).length) :
    ∃ summary, computeStatSummary probes name startTime endTime = .ok summary ∧
      GraphAgrees entry summary (startTime * 1000) (endTime * 1000) ∧
      ∀ mid ∈ windowSnaps (startTime * 1000) (endTime * 1000) entry, ∀ time : ℚ,
        time * 1000 = mid.timestamp →
        2 ≤ (windowSnaps (startTime * 1000) (time * 1000) entry).length →
        2 ≤ (windowSnaps (time * 1000) (endTime * 1000) entry).length →
        ∃ before after, computeStatSummary probes name startTime time = .ok before ∧
          computeStatSummary probes name time endTime = .ok after ∧
          before.totalRuns + after.totalRuns = summary.totalRuns := by
  have hcw := hc.sublist (windowSnaps_sublist (startTime * 1000) (endTime * 1000) entry)
  obtain ⟨first, second, rest, hsnaps⟩ : ∃ first second rest,
      windowSnaps (startTime * 1000) (endTime * 1000) entry = first :: second :: rest := by
    match hl : windowSnaps (startTime * 1000) (endTime * 1000) entry, hw with
    | first :: second :: rest, _ => exact ⟨first, second, rest, rfl⟩
  obtain ⟨summary, hsummary, hruns, havg⟩ := summaryOf_eq name hsnaps
  refine ⟨summary, (computeStatSummary_eq h).trans hsummary, ?_, ?_⟩
  · rw [hsnaps] at hcw
    have hrise := fun p hp => rel_of_mem_intervals (p := p) hcw.times hp
    have hcalls : ∀ p ∈ intervals (first :: second :: rest), 0 ≤ calls p := fun p hp =>
      Int.sub_nonneg.mpr (rel_of_mem_intervals hcw.counts hp)
    have hseries := rateSeries_eq (hsnaps ▸ hcw)
    rw [hsnaps] at hseries
    refine ⟨?_, ?_, fun hnanos => ?_⟩
    · rw [hsnaps, hseries]
      simp [ratesOf]
    · rw [hsnaps, hseries, sum_rates hrise, hruns]
    · rw [hsnaps] at hnanos
      rw [hsnaps, hseries, sum_averages hcalls hnanos, havg]
      split
      · next hpos =>
        have hne : (summary.totalRuns : ℚ) ≠ 0 := Int.cast_ne_zero.mpr (Int.ne_of_gt hpos)
        exact (mul_div_cancel₀ _ hne).symm
      · next hpos =>
        -- no call in the window, so none in any interval
        have hzero := nanos_eq_zero hcalls hnanos (hruns ▸ Int.not_lt.mp hpos)
        rw [hzero, mul_zero, Int.cast_zero]
  · intro mid hmid time htime hbefore hafter
    obtain ⟨a, b, hab, ha, hb⟩ := windowSnaps_split hcw hmid
    rw [← htime] at ha hb
    rw [ha] at hbefore
    rw [hb] at hafter
    obtain ⟨before, hbefore, hbruns⟩ := totalRuns_eq name ha hbefore
    obtain ⟨after, hafter, haruns⟩ := totalRuns_eq name hb hafter
    refine ⟨before, after, (computeStatSummary_eq h).trans hbefore,
      (computeStatSummary_eq h).trans hafter, ?_⟩
    rw [hbruns, haruns, hruns, ← hsnaps, hab, intervals_append a b mid, List.map_append,
      List.sum_append]

/-- Three snapshots, the second of them without new calls. -/
def threeSnapshots : Probe := ⟨1, ascii "A:m", [⟨100, 2, 30⟩, ⟨200, 2, 30⟩, ⟨300, 5, 90⟩]⟩

theorem threeSnapshots_cumulative : Cumulative threeSnapshots.snapshots where
  times := by decide
  counts := by decide
  nanos := by decide

theorem summary_matches_graph_three :
    ∃ summary, computeStatSummary [threeSnapshots] (ascii "A:m") 0 1 = .ok summary ∧
      GraphAgrees threeSnapshots summary (0 * 1000) (1 * 1000) := by
  have hfound : summaryEntry [threeSnapshots] (ascii "A:m") = .ok threeSnapshots := rfl
  have hwindow : 2 ≤ (windowSnaps (0 * 1000) (1 * 1000) threeSnapshots).length := by decide +kernel
  obtain ⟨summary, hsummary, hagrees, -⟩ :=
    summary_matches_graph hfound threeSnapshots_cumulative hwindow
  exact ⟨summary, hsummary, hagrees⟩

end JautoProf.ProfClient
