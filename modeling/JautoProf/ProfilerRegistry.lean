import JautoProf.Lib.Utf8
import JautoProf.ProfClient
import Mathlib.Algebra.Order.BigOperators.Group.List
import Mathlib.Algebra.Order.Group.Nat
import Mathlib.Data.List.Sort
import Mathlib.Data.Nat.Cast.Basic

/-!
# The statistics (`ProfilerRegistry.java`, `prof_client.py`)

`getStats` writes the active profilers into a byte array, and `_parse_stats` reads them.
A name is written with a length of 16 bits, whatever its length.

Results:
1. `stats_read_back_iff`: the client reads the profilers that were written exactly when no
   name is longer than 65535 bytes. `stats_misread`: the name of a method with a long class
   name and a long signature is longer.
-/

namespace JautoProf

open Wire

/-- A `String` of Java, as its code units. -/
abbrev JString := List UInt16

/-- A `ProfilerSnapshot`. -/
structure ProfilerSnapshot where
  timestamp : Int64
  callCount : Int64
  totalNanos : Int64
deriving DecidableEq

/-- A `Profiler`; its `long` id has the bits of the `uint64_t` of the server. -/
structure Profiler where
  instrumentId : UInt64
  name : JString
  active : Bool

/-- A `ProfilerEntry`; a slot of its buffer that was never written is null. -/
structure ProfilerEntry where
  profiler : Profiler
  buffer : List (Option ProfilerSnapshot)

namespace ProfilerRegistry

/-- `TICK_MS`, which `resolveTickMs` keeps positive. -/
def TickMs := {n : Nat // 0 < n ∧ n < 2 ^ 31}

/-- The name in `create` of a method profiler. -/
def methodName (className methodSig : JString) : JString := className ++ [0x3A] ++ methodSig

/-- The name in `create` of a line profiler. -/
def lineName (entryClass : JString) (entryLine : Int) : JString :=
  entryClass ++ [0x3A] ++ (toString entryLine).toList.map fun c => UInt16.ofNat c.toNat

/-- `getOrderedSnapshots`. -/
def getOrderedSnapshots (e : ProfilerEntry) : List ProfilerSnapshot :=
  (e.buffer.filterMap id).insertionSort fun a b => a.timestamp ≤ b.timestamp

/-- The bytes of a name. -/
def nameBytes (e : ProfilerEntry) : List UInt8 := Utf8.toUtf8 e.profiler.name

/-- What the sizing loop adds for an entry. -/
def entrySize (e : ProfilerEntry) : Nat :=
  8 + (2 + (nameBytes e).length) + (4 + (getOrderedSnapshots e).length * (8 * 3))

/-- The `totalSize` of an encoding, before it wraps around. -/
def encodedSize (active : List ProfilerEntry) : Nat := 8 + (active.map entrySize).sum

def snapshotBytes (s : ProfilerSnapshot) : List UInt8 :=
  leInt 8 s.timestamp.toInt ++ (leInt 8 s.callCount.toInt ++ leInt 8 s.totalNanos.toInt)

/-- What the writing loop puts for an entry; `putShort` takes the low 16 bits. -/
def entryBytes (e : ProfilerEntry) : List UInt8 :=
  le 8 e.profiler.instrumentId.toNat ++ (le 2 (nameBytes e).length ++ (nameBytes e ++
    (le 4 (getOrderedSnapshots e).length ++ (getOrderedSnapshots e).flatMap snapshotBytes)))

/-- The entries that `getStats` writes. -/
def activeEntries (entries : List ProfilerEntry) : List ProfilerEntry :=
  entries.filter fun e => e.profiler.active

/-- `getStats`; `ByteBuffer.allocate` throws on a negative size, and a `put` throws where
the buffer ends. -/
def getStats (tickMs : TickMs) (entries : List ProfilerEntry) : Option (List UInt8) :=
  let active := activeEntries entries
  let totalSize := Int.bmod (encodedSize active) (2 ^ 32)
  let bytes := le 4 active.length ++ (le 4 tickMs.val ++ active.flatMap entryBytes)
  if totalSize < bytes.length then none
  else some (bytes ++ List.replicate (totalSize.toNat - bytes.length) 0)

theorem snapshotBytes_length (s : ProfilerSnapshot) : (snapshotBytes s).length = 24 := by
  simp [snapshotBytes]

theorem entryBytes_length (e : ProfilerEntry) : (entryBytes e).length = entrySize e := by
  simp [entryBytes, entrySize, List.length_flatMap, snapshotBytes_length]
  omega

theorem entriesBytes_length (active : List ProfilerEntry) :
    8 + (active.flatMap entryBytes).length = encodedSize active := by
  simp [encodedSize, List.length_flatMap, entryBytes_length]

end ProfilerRegistry

namespace ProfClient

/-- A snapshot in the result of `_parse_stats`. -/
structure Snapshot where
  timestamp : Int
  callCount : Int
  totalNanos : Int
deriving DecidableEq

/-- A probe in the result of `_parse_stats`. -/
structure Probe where
  instrumentId : Nat
  name : List UInt8
  snapshots : List Snapshot
deriving DecidableEq

/-- The result of `_parse_stats`. -/
structure Stats where
  msPerSlice : Nat
  probes : List Probe
deriving DecidableEq

def snapshot : Reader PyError Snapshot := do
  let timestamp ← Reader.signed 8 .structError
  let callCount ← Reader.signed 8 .structError
  let totalNanos ← Reader.signed 8 .structError
  return ⟨timestamp, callCount, totalNanos⟩

/-- The body of the loop of `_parse_stats`. -/
def probe : Reader PyError Probe := do
  let instrumentId ← Reader.unsigned 8 (.valueError "truncated instrument_id in stats")
  let name ← pstring
  let snapCount ← Reader.unsigned 4 .structError
  let snapshots ← snapshot.times snapCount
  return ⟨instrumentId, name, snapshots⟩

def stats : Reader PyError Stats := do
  let count ← Reader.unsigned 4 (.valueError "stats response too short")
  let msPerSlice ← Reader.unsigned 4 (.valueError "stats response too short")
  let probes ← probe.times count
  return ⟨msPerSlice, probes⟩

/-- `_parse_stats`. -/
def parseStats (body : List UInt8) : Except PyError Stats := stats.run body

end ProfClient

open ProfilerRegistry ProfClient

/-! ## Reading back -/

/-- The snapshot that the client should read. -/
def snapshotOf (s : ProfilerSnapshot) : Snapshot :=
  ⟨s.timestamp.toInt, s.callCount.toInt, s.totalNanos.toInt⟩

/-- The probe that the client should read for an entry. -/
def probeOf (e : ProfilerEntry) : Probe :=
  ⟨e.profiler.instrumentId.toNat, nameBytes e, (getOrderedSnapshots e).map snapshotOf⟩

theorem reads_int64 (x : Int64) (e : PyError) :
    Reads (Reader.signed 8 e) (leInt 8 x.toInt) x.toInt := by
  have hlo := x.le_toInt
  have hhi := x.toInt_lt
  exact Reads.signed (by omega) (by omega) e

theorem reads_snapshot (s : ProfilerSnapshot) :
    Reads snapshot (snapshotBytes s) (snapshotOf s) := by
  refine Reads.bind (reads_int64 _ _) ?_
  refine Reads.bind (reads_int64 _ _) ?_
  exact (reads_int64 _ _).map _

/-- An entry with a short name is read back. -/
theorem reads_probe (e : ProfilerEntry) (hname : (nameBytes e).length ≤ pstrMax)
    (hsnap : (getOrderedSnapshots e).length < 256 ^ 4) :
    Reads probe (entryBytes e) (probeOf e) := by
  have hp := reads_pstring ⟨nameBytes e, hname⟩
  unfold entryBytes
  rw [← List.append_assoc (le 2 _)]
  refine Reads.bind (Reads.unsigned e.profiler.instrumentId.toNat_lt _) ?_
  refine Reads.bind hp ?_
  refine Reads.bind (Reads.unsigned hsnap _) ?_
  exact (Reads.times fun s _ => reads_snapshot s).map _

/-- Every name that the client reads has a length of 16 bits. -/
theorem yields_probe : Yields probe fun p => p.name.length ≤ pstrMax := by
  have hp : Yields pstring fun name => name.length ≤ pstrMax := by
    refine Yields.bind (Yields.unsigned 2 _) fun n hn => ?_
    intro buf off bs off' h
    have hlen : bs.length = n := Yields.bytes n _ buf off bs off' h
    rw [hlen]
    exact Nat.le_of_lt_succ hn
  refine Yields.bind (Yields.any _) fun _ _ => ?_
  refine Yields.bind hp fun name hname => ?_
  refine Yields.bind (Yields.any _) fun _ _ => ?_
  exact Yields.bind (Yields.any _) fun _ _ => Yields.pure hname

theorem yields_stats : Yields stats fun s => ∀ p ∈ s.probes, p.name.length ≤ pstrMax := by
  refine Yields.bind (Yields.any _) fun _ _ => ?_
  refine Yields.bind (Yields.any _) fun _ _ => ?_
  exact Yields.bind (yields_probe.times _) fun _ hps => Yields.pure hps

/-- An encoding of less than `2 ^ 31` bytes is the array that `getStats` returns. -/
theorem getStats_eq (tickMs : TickMs) (entries : List ProfilerEntry)
    (h : encodedSize (activeEntries entries) < 2 ^ 31) :
    getStats tickMs entries = some (le 4 (activeEntries entries).length ++
      (le 4 tickMs.val ++ (activeEntries entries).flatMap entryBytes)) := by
  have hlen := entriesBytes_length (activeEntries entries)
  have hmod : Int.bmod (encodedSize (activeEntries entries)) (2 ^ 32) =
      encodedSize (activeEntries entries) := by
    rw [Int.bmod_eq_of_le] <;> omega
  unfold getStats
  simp only [hmod]
  rw [if_neg]
  · simp only [List.length_append, le_length, Int.toNat_natCast]
    rw [← hlen, show 8 + ((activeEntries entries).flatMap entryBytes).length -
      (4 + (4 + ((activeEntries entries).flatMap entryBytes).length)) = 0 by omega]
    simp
  · simp only [List.length_append, le_length]
    omega

theorem length_le_encodedSize (active : List ProfilerEntry) : active.length ≤ encodedSize active := by
  induction active with
  | nil => exact Nat.zero_le _
  | cons e active ih =>
    simp only [encodedSize, entrySize, List.map_cons, List.sum_cons, List.length_cons] at ih ⊢
    omega

theorem snapshots_le_encodedSize {active : List ProfilerEntry} {e : ProfilerEntry}
    (h : e ∈ active) : (getOrderedSnapshots e).length ≤ encodedSize active := by
  have hle : entrySize e ≤ (active.map entrySize).sum :=
    List.le_sum_of_mem (List.mem_map_of_mem h)
  simp only [encodedSize, entrySize] at hle ⊢
  omega

theorem reads_stats (tickMs : TickMs) {active : List ProfilerEntry} (hlen : active.length < 256 ^ 4)
    (h : Reads (probe.times active.length) (active.flatMap entryBytes) (active.map probeOf)) :
    Reads stats (le 4 active.length ++ (le 4 tickMs.val ++ active.flatMap entryBytes))
      ⟨tickMs.val, active.map probeOf⟩ := by
  have htick : tickMs.val < 256 ^ 4 := Nat.lt_trans tickMs.property.2 (by decide)
  refine Reads.bind (Reads.unsigned hlen _) ?_
  refine Reads.bind (Reads.unsigned htick _) ?_
  exact h.map _

/-- The client reads back exactly the active profilers, in order, with their ids, names and
snapshots, if and only if no name is longer than 65535 bytes. -/
theorem stats_read_back_iff (tickMs : TickMs) (entries : List ProfilerEntry)
    (h : encodedSize (activeEntries entries) < 2 ^ 31) :
    (∃ body, getStats tickMs entries = some body ∧
      parseStats body = .ok ⟨tickMs.val, (activeEntries entries).map probeOf⟩) ↔
    ∀ e ∈ activeEntries entries, (nameBytes e).length ≤ pstrMax := by
  rw [getStats_eq tickMs entries h]
  constructor
  · rintro ⟨body, -, hread⟩ e he
    exact yields_stats.run hread (probeOf e) (List.mem_map_of_mem he)
  · intro hshort
    refine ⟨_, rfl, ?_⟩
    have hcount := length_le_encodedSize (activeEntries entries)
    have hprobes : Reads (probe.times (activeEntries entries).length)
        ((activeEntries entries).flatMap entryBytes) ((activeEntries entries).map probeOf) := by
      refine Reads.times fun e he => reads_probe e (hshort e he) ?_
      have := snapshots_le_encodedSize he
      omega
    have hreads := (reads_stats tickMs (by omega) hprobes).run []
    rwa [List.append_nil] at hreads

/-- The profiler of a method whose class name and signature are `n` and `m` letters long. -/
def asciiEntry (n m : Nat) : ProfilerEntry :=
  ⟨⟨1, methodName (List.replicate n 65) (List.replicate m 66), true⟩, []⟩

/-- The default of `TICK_MS`. -/
def defaultTickMs : TickMs := ⟨1000, by decide, by decide⟩

/-- Two probes with snapshots, the ring of the first of which has gone round, and one that was
removed. -/
def sampledEntries : List ProfilerEntry :=
  [⟨⟨1, methodName [65] [66, 66], true⟩, [some ⟨3000, 5, 70⟩, some ⟨1000, 2, 30⟩, some ⟨2000, 3, 40⟩]⟩,
    ⟨⟨4, methodName [65] [66], false⟩, [some ⟨1000, 1, 1⟩]⟩,
    ⟨⟨7, methodName [67] [66], true⟩, [some ⟨3000, 0, 0⟩, none, none]⟩]

theorem stats_read_back_short :
    ∃ body, getStats defaultTickMs sampledEntries = some body ∧
      parseStats body = .ok ⟨1000,
        [⟨1, [65, 58, 66, 66], [⟨1000, 2, 30⟩, ⟨2000, 3, 40⟩, ⟨3000, 5, 70⟩]⟩,
          ⟨7, [67, 58, 66], [⟨3000, 0, 0⟩]⟩]⟩ :=
  (stats_read_back_iff defaultTickMs sampledEntries (by decide)).mpr (by decide)

theorem nameBytes_asciiEntry (n m : Nat) : (nameBytes (asciiEntry n m)).length = n + 1 + m := by
  have hascii : ∀ u ∈ methodName (List.replicate n 65) (List.replicate m 66), u < (0x80 : UInt16) := by
    intro u hu
    simp only [methodName, List.mem_append, List.mem_replicate, List.mem_singleton] at hu
    rcases hu with (⟨-, rfl⟩ | rfl) | ⟨-, rfl⟩ <;> decide
  rw [nameBytes, asciiEntry, Utf8.toUtf8_ascii hascii]
  simp [methodName]
  omega

theorem encodedSize_asciiEntry (n m : Nat) : encodedSize [asciiEntry n m] = n + m + 23 := by
  have hsnap : getOrderedSnapshots (asciiEntry n m) = [] := rfl
  simp only [encodedSize, entrySize, nameBytes_asciiEntry, hsnap, List.map_cons, List.map_nil,
    List.sum_cons, List.sum_nil, List.length_nil]
  omega

theorem not_read_back_asciiEntry {n m : Nat} (hlong : pstrMax < n + 1 + m)
    (hsize : n + m + 23 < 2 ^ 31) :
    ¬ ∃ body, getStats defaultTickMs [asciiEntry n m] = some body ∧
      parseStats body = .ok ⟨1000, [probeOf (asciiEntry n m)]⟩ := by
  rw [← encodedSize_asciiEntry] at hsize
  intro hread
  have hshort := (stats_read_back_iff defaultTickMs [asciiEntry n m] hsize).mp hread
  have hle := hshort (asciiEntry n m) List.mem_cons_self
  rw [nameBytes_asciiEntry] at hle
  exact absurd hlong (Nat.not_lt.mpr hle)

/-- Two names that the server accepts make one that does not fit its length. -/
theorem stats_misread :
    ¬ ∃ body, getStats defaultTickMs [asciiEntry 40000 40000] = some body ∧
      parseStats body = .ok ⟨1000, [probeOf (asciiEntry 40000 40000)]⟩ :=
  not_read_back_asciiEntry (by decide) (by decide)

end JautoProf
