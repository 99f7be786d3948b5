import JautoProf.Lib.Ring
import JautoProf.Lib.Runs
import JautoProf.ProfilerRegistry

/-!
# The snapshots of a profiler (`ProfilerEntry.java`)

A `ProfilerEntry` keeps the latest snapshots of its profiler in an array that it writes
around. `record` reads the counters of the profiler, `recordZero` repeats the snapshot before.

Results:
1. `Follows.run`: the array follows the plain list of all snapshots that were ever written.
2. `ordered_snapshots`: `getOrderedSnapshots` returns the last of them, in order.
-/

namespace JautoProf.Entry

/-! ## `ProfilerEntry.java` -/

/-- `RING_BUFFER_SIZE`, which `resolveNSlots` keeps positive. -/
def RingBufferSize := {n : Nat // 0 < n ∧ n < 2 ^ 31}

/-- An `int`. -/
def int (x : Int) : Int := Int.bmod x (2 ^ 32)

/-- A `ProfilerEntry`, with its `head` and the counters of its profiler. -/
structure RingEntry extends ProfilerEntry where
  head : Int
  callCount : Int64
  totalNanos : Int64

/-- The constructor, with a new profiler. -/
def new (size : RingBufferSize) (p : Profiler) : RingEntry where
  profiler := p
  buffer := List.replicate size.val none
  head := 0
  callCount := 0
  totalNanos := 0

/-- An index of the array; for others it throws. -/
def InArray (e : RingEntry) (i : Int) : Prop := 0 ≤ i ∧ i < e.buffer.length

instance (e : RingEntry) (i : Int) : Decidable (InArray e i) := inferInstanceAs (Decidable (_ ∧ _))

/-- `buffer[head] = …` and `head = (head + 1) % RING_BUFFER_SIZE`. -/
def store (s : ProfilerSnapshot) (e : RingEntry) : Option RingEntry :=
  if InArray e e.head then
    some { e with
      buffer := e.buffer.set e.head.toNat (some s)
      head := (int (e.head + 1)).tmod e.buffer.length }
  else none

def record (timestamp : Int64) (e : RingEntry) : Option RingEntry :=
  store ⟨timestamp, e.callCount, e.totalNanos⟩ e

/-- The counts of the snapshot `last` under a new timestamp. -/
def repeated (timestamp : Int64) (last : Option ProfilerSnapshot) : ProfilerSnapshot :=
  ⟨timestamp, (last.map ProfilerSnapshot.callCount).getD 0,
    (last.map ProfilerSnapshot.totalNanos).getD 0⟩

def recordZero (timestamp : Int64) (e : RingEntry) : Option RingEntry :=
  let i := (int (e.head - 1 + e.buffer.length)).tmod e.buffer.length
  if InArray e i then store (repeated timestamp (e.buffer[i.toNat]?).join) e else none

/-! ## A history -/

inductive Act
  /-- The counters of the profiler change. -/
  | count (callCount totalNanos : Int64)
  | record (timestamp : Int64)
  | recordZero (timestamp : Int64)

def step (e : RingEntry) : Act → Option RingEntry
  | .count callCount totalNanos => some { e with callCount := callCount, totalNanos := totalNanos }
  | .record timestamp => record timestamp e
  | .recordZero timestamp => recordZero timestamp e

/-- The timestamp that is written. -/
def Act.timestamp : Act → Option Int64
  | count _ _ => none
  | record timestamp => some timestamp
  | recordZero timestamp => some timestamp

/-- The counters of the profiler, and all snapshots that were ever written. -/
structure Log where
  callCount : Int64
  totalNanos : Int64
  snapshots : List ProfilerSnapshot

namespace Log

def init : Log := ⟨0, 0, []⟩

def step (l : Log) : Act → Log
  | .count callCount totalNanos => { l with callCount := callCount, totalNanos := totalNanos }
  | .record timestamp =>
    { l with snapshots := l.snapshots ++ [⟨timestamp, l.callCount, l.totalNanos⟩] }
  | .recordZero timestamp =>
    { l with snapshots := l.snapshots ++ [repeated timestamp l.snapshots.getLast?] }

/-- The counters do not decrease. -/
def NeverDecrease (l : Log) : Act → Prop
  | .count callCount totalNanos => l.callCount ≤ callCount ∧ l.totalNanos ≤ totalNanos
  | _ => True

instance (l : Log) : (a : Act) → Decidable (l.NeverDecrease a)
  | .count _ _ => inferInstanceAs (Decidable (_ ∧ _))
  | .record _ | .recordZero _ => inferInstanceAs (Decidable True)

end Log

/-! ## The array follows the list -/

/-- The array has the latest snapshots, and the counters are the same. -/
structure Follows (size : RingBufferSize) (e : RingEntry) (l : Log) : Prop where
  length : e.buffer.length = size.val
  head_nonneg : 0 ≤ e.head
  turned : Ring.Turned e.buffer e.head.toNat (l.snapshots.foldl (Ring.pushed size.val) [])
  callCount : e.callCount = l.callCount
  totalNanos : e.totalNanos = l.totalNanos

variable {size : RingBufferSize} {e : RingEntry} {l : Log}

theorem follows_new (size : RingBufferSize) (p : Profiler) : Follows size (new size p) Log.init where
  length := List.length_replicate
  head_nonneg := Int.le_refl 0
  turned := by
    have hpos : size.val - 1 + 1 = size.val := Nat.sub_add_cancel size.property.1
    have h := Ring.turned_empty (α := ProfilerSnapshot) (size.val - 1)
    rwa [hpos] at h
  callCount := rfl
  totalNanos := rfl

/-- The remainder of a sum that is no larger than an `int`. -/
theorem int_tmod {x n : Nat} (h : x < 2 ^ 31) : (int x).tmod n = ((x % n : Nat) : Int) := by
  have hint : int x = x := Int.bmod_eq_of_le (by omega) (by omega)
  rw [hint, Int.natCast_mod, Int.tmod_eq_emod_of_nonneg (Int.natCast_nonneg x)]

theorem Follows.head_lt (h : Follows size e l) : e.head.toNat < size.val :=
  h.length ▸ h.turned.head_lt

theorem Follows.inArray (h : Follows size e l) : InArray e e.head := by
  have hlt := h.head_lt
  have hnonneg := h.head_nonneg
  refine ⟨hnonneg, ?_⟩
  rw [h.length]
  omega

theorem Follows.store (h : Follows size e l) (s : ProfilerSnapshot) :
    ∃ e', Entry.store s e = some e' ∧ Follows size e' { l with snapshots := l.snapshots ++ [s] } := by
  have hlt := h.head_lt
  have hsize := size.property.2
  have hhead : (int (e.head + 1)).tmod e.buffer.length =
      (((e.head.toNat + 1) % e.buffer.length : Nat) : Int) := by
    rw [← int_tmod (by omega), Int.natCast_add, Int.toNat_of_nonneg h.head_nonneg]
    rfl
  refine ⟨_, if_pos h.inArray, ?_, ?_, ?_, h.callCount, h.totalNanos⟩
  · exact List.length_set.trans h.length
  · dsimp only
    rw [hhead]
    exact Int.natCast_nonneg _
  · dsimp only
    rw [hhead, Int.toNat_natCast, List.foldl_append]
    have hwrite := h.turned.write s
    rwa [h.length] at hwrite ⊢

/-- What `recordZero` finds is the snapshot before. -/
theorem Follows.latest (h : Follows size e l) (hsmall : size.val ≤ 2 ^ 30) :
    ∃ i : Nat, (int (e.head - 1 + e.buffer.length)).tmod e.buffer.length = i ∧
      i < e.buffer.length ∧ (e.buffer[i]?).join = l.snapshots.getLast? := by
  have hlt := h.head_lt
  have hlen := h.length
  have hpos := size.property.1
  refine ⟨(e.head.toNat + (e.buffer.length - 1)) % e.buffer.length, ?_, Nat.mod_lt _ (by omega), ?_⟩
  · rw [← int_tmod (by omega)]
    congr 2
    have := h.head_nonneg
    omega
  · rw [h.turned.latest, Ring.pushes_eq_drop hpos, List.getLast?_drop]
    split
    · next hle =>
      have hnil : l.snapshots = [] := List.eq_nil_of_length_eq_zero (by omega)
      rw [hnil]
      rfl
    · rfl

theorem Follows.step (h : Follows size e l) (hsmall : size.val ≤ 2 ^ 30) (a : Act) :
    ∃ e', Entry.step e a = some e' ∧ Follows size e' (l.step a) := by
  cases a with
  | count callCount totalNanos =>
    exact ⟨_, rfl, h.length, h.head_nonneg, h.turned, rfl, rfl⟩
  | record timestamp =>
    obtain ⟨e', he', hfollows⟩ := h.store ⟨timestamp, e.callCount, e.totalNanos⟩
    refine ⟨e', he', ?_⟩
    rwa [h.callCount, h.totalNanos] at hfollows
  | recordZero timestamp =>
    obtain ⟨i, hi, hlt, hlatest⟩ := h.latest hsmall
    obtain ⟨e', he', hfollows⟩ := h.store (repeated timestamp l.snapshots.getLast?)
    refine ⟨e', ?_, hfollows⟩
    show recordZero timestamp e = some e'
    unfold recordZero
    rw [hi, if_pos ⟨Int.natCast_nonneg i, Int.ofNat_lt.mpr hlt⟩, Int.toNat_natCast, hlatest]
    exact he'

/-- No call throws, and the array follows the list all along. -/
theorem Follows.run (h : Follows size e l) (hsmall : size.val ≤ 2 ^ 30) (as : List Act) :
    ∃ e', as.foldlM Entry.step e = some e' ∧ Follows size e' (as.foldl Log.step l) := by
  induction as generalizing e l with
  | nil => exact ⟨e, rfl, h⟩
  | cons a as ih =>
    obtain ⟨e₁, he₁, hfollows⟩ := h.step hsmall a
    obtain ⟨e₂, he₂, hfollows'⟩ := ih hfollows
    refine ⟨e₂, ?_, hfollows'⟩
    rw [List.foldlM_cons, he₁]
    exact he₂

/-! ## The order of the snapshots -/

/-- Neither count decreases from the one to the other. -/
def NoLess (s s' : ProfilerSnapshot) : Prop :=
  s.callCount ≤ s'.callCount ∧ s.totalNanos ≤ s'.totalNanos

/-- The counters are not negative and not below any snapshot, and the snapshots in order. -/
structure Rising (l : Log) : Prop where
  callCount_nonneg : 0 ≤ l.callCount
  totalNanos_nonneg : 0 ≤ l.totalNanos
  below : ∀ s ∈ l.snapshots, s.callCount ≤ l.callCount ∧ s.totalNanos ≤ l.totalNanos
  rising : l.snapshots.Pairwise NoLess

theorem rising_init : Rising Log.init where
  callCount_nonneg := Int64.le_refl 0
  totalNanos_nonneg := Int64.le_refl 0
  below := fun _ h => absurd h List.not_mem_nil
  rising := .nil

theorem Rising.append (h : Rising l) {s : ProfilerSnapshot} (hprev : ∀ s' ∈ l.snapshots, NoLess s' s)
    (hbelow : s.callCount ≤ l.callCount ∧ s.totalNanos ≤ l.totalNanos) :
    Rising { l with snapshots := l.snapshots ++ [s] } where
  callCount_nonneg := h.callCount_nonneg
  totalNanos_nonneg := h.totalNanos_nonneg
  below := by
    intro s' hs'
    rcases List.mem_append.mp hs' with hs' | hs'
    · exact h.below s' hs'
    · rw [List.mem_singleton.mp hs']
      exact hbelow
  rising := List.pairwise_append.mpr ⟨h.rising, List.pairwise_singleton _ _, fun s' hs' s'' hs'' => by
    rw [List.mem_singleton.mp hs'']
    exact hprev s' hs'⟩

/-- The last snapshot is not below any other. -/
theorem Rising.last (h : Rising l) {last : ProfilerSnapshot}
    (hlast : l.snapshots.getLast? = some last) :
    last ∈ l.snapshots ∧ ∀ s ∈ l.snapshots, NoLess s last := by
  obtain ⟨init, heq⟩ := List.getLast?_eq_some_iff.mp hlast
  have hrising := h.rising
  rw [heq] at hrising ⊢
  refine ⟨List.mem_append_right _ (List.mem_singleton_self _), fun s hs => ?_⟩
  rcases List.mem_append.mp hs with hs | hs
  · exact (List.pairwise_append.mp hrising).2.2 s hs last (List.mem_singleton_self _)
  · rw [List.mem_singleton.mp hs]
    exact ⟨Int64.le_refl _, Int64.le_refl _⟩

theorem Rising.step (h : Rising l) (a : Act) (hcount : l.NeverDecrease a) : Rising (l.step a) := by
  cases a with
  | count callCount totalNanos =>
    obtain ⟨hcalls, hnanos⟩ := hcount
    refine ⟨Int64.le_trans h.callCount_nonneg hcalls, Int64.le_trans h.totalNanos_nonneg hnanos,
      fun s hs => ?_, h.rising⟩
    exact ⟨Int64.le_trans (h.below s hs).1 hcalls, Int64.le_trans (h.below s hs).2 hnanos⟩
  | record timestamp => exact h.append h.below ⟨Int64.le_refl _, Int64.le_refl _⟩
  | recordZero timestamp =>
    unfold Log.step
    cases hlast : l.snapshots.getLast? with
    | none =>
      have hnil : l.snapshots = [] := List.getLast?_eq_none_iff.mp hlast
      refine h.append (fun s hs => ?_) ⟨h.callCount_nonneg, h.totalNanos_nonneg⟩
      rw [hnil] at hs
      exact absurd hs List.not_mem_nil
    | some last =>
      obtain ⟨hmem, hmax⟩ := h.last hlast
      exact h.append hmax (h.below last hmem)

theorem timestamps (l : Log) (as : List Act) :
    (as.foldl Log.step l).snapshots.map ProfilerSnapshot.timestamp =
      l.snapshots.map ProfilerSnapshot.timestamp ++ as.filterMap Act.timestamp := by
  induction as generalizing l with
  | nil => exact (List.append_nil _).symm
  | cons a as ih =>
    rw [List.foldl_cons, ih]
    cases a with
    | count => rfl
    | record timestamp =>
      simp [Log.step, Act.timestamp]
    | recordZero timestamp =>
      simp [Log.step, Act.timestamp, repeated]

instance : Std.Total fun a b : ProfilerSnapshot => a.timestamp ≤ b.timestamp where
  total _ _ := Int64.le_total _ _

instance : IsTrans ProfilerSnapshot fun a b => a.timestamp ≤ b.timestamp where
  trans _ _ _ := Int64.le_trans

/-- What is sorted is known when it has each timestamp once. -/
theorem getOrderedSnapshots_of_perm {e : ProfilerEntry} {l : List ProfilerSnapshot}
    (hperm : (e.buffer.filterMap id).Perm l)
    (hl : l.Pairwise fun s s' => s.timestamp < s'.timestamp) :
    ProfilerRegistry.getOrderedSnapshots e = l := by
  have hnodup : (l.map ProfilerSnapshot.timestamp).Nodup :=
    List.pairwise_map.mpr (hl.imp Int64.ne_of_lt)
  unfold ProfilerRegistry.getOrderedSnapshots
  have hsorted := (List.perm_insertionSort (fun a b : ProfilerSnapshot => a.timestamp ≤ b.timestamp)
    (e.buffer.filterMap id)).trans hperm
  have hle : l.Pairwise fun s s' => s.timestamp ≤ s'.timestamp := hl.imp Int64.le_of_lt
  refine List.Perm.eq_of_pairwise ?_ (List.pairwise_insertionSort _ _) hle hsorted
  intro a b ha hb hab hba
  exact List.inj_on_of_nodup_map hnodup (hsorted.mem_iff.mp ha) hb (Int64.le_antisymm hab hba)

/-- All snapshots that a history writes. -/
def written (as : List Act) : List ProfilerSnapshot := (as.foldl Log.step Log.init).snapshots

theorem written_recordZero (pre post : List Act) (timestamp : Int64) :
    written pre ++ [repeated timestamp (written pre).getLast?] <+:
      written (pre ++ .recordZero timestamp :: post) := by
  have hgrow : ∀ l : Log, l.snapshots <+: (post.foldl Log.step l).snapshots := by
    induction post with
    | nil => exact fun l => List.prefix_refl _
    | cons a post ih =>
      intro l
      refine List.IsPrefix.trans ?_ (ih (l.step a))
      cases a with
      | count => exact List.prefix_refl _
      | record => exact List.prefix_append _ _
      | recordZero => exact List.prefix_append _ _
  unfold written
  rw [List.foldl_append, List.foldl_cons]
  exact hgrow ((pre.foldl Log.step Log.init).step (.recordZero timestamp))

/-- The last snapshots in the order of their timestamps, in which no count decreases; and each
that `recordZero` wrote repeats the counts before it. -/
theorem ordered_snapshots (size : RingBufferSize) (p : Profiler) (as : List Act)
    (hsmall : size.val ≤ 2 ^ 30) (htimes : (as.filterMap Act.timestamp).Pairwise (· < ·))
    (hcounts : Runs.Along Log.step Log.NeverDecrease Log.init as) :
    ∃ e, as.foldlM step (new size p) = some e ∧
      let snapshots := ProfilerRegistry.getOrderedSnapshots e.toProfilerEntry
      snapshots = (written as).drop ((written as).length - size.val) ∧
      snapshots.Pairwise (fun s s' => s.timestamp < s'.timestamp ∧ NoLess s s') ∧
      ∀ pre timestamp post, as = pre ++ .recordZero timestamp :: post →
        written pre ++ [repeated timestamp (written pre).getLast?] <+: written as := by
  obtain ⟨e, he, hfollows⟩ := (follows_new size p).run hsmall as
  have hrising : Rising (as.foldl Log.step Log.init) :=
    Runs.inv_run Rising (fun l a h hcount => h.step a hcount) rising_init hcounts
  have htimes : (written as).Pairwise fun s s' => s.timestamp < s'.timestamp := by
    rw [← List.pairwise_map (f := ProfilerSnapshot.timestamp) (R := (· < ·))]
    exact (timestamps Log.init as).symm ▸ htimes
  have hsub := List.drop_sublist ((written as).length - size.val) (written as)
  have hperm : (e.buffer.filterMap id).Perm
      ((written as).drop ((written as).length - size.val)) := by
    rw [written, ← Ring.pushes_eq_drop size.property.1]
    exact hfollows.turned.perm
  have heq := getOrderedSnapshots_of_perm hperm (htimes.sublist hsub)
  refine ⟨e, he, heq, ?_, ?_⟩
  · rw [heq]
    exact (htimes.and hrising.rising).sublist hsub
  · rintro pre timestamp post rfl
    exact written_recordZero pre post timestamp

/-- A history that writes more snapshots than the array has slots. -/
def wrapping : List Act := [.count 3 5, .record 1, .recordZero 2, .count 4 9, .record 3]

theorem ordered_snapshots_wrapping :
    ∃ e, wrapping.foldlM step (new ⟨2, by decide, by decide⟩ ⟨1, [], true⟩) = some e ∧
      ProfilerRegistry.getOrderedSnapshots e.toProfilerEntry = [⟨2, 3, 5⟩, ⟨3, 4, 9⟩] := by
  obtain ⟨e, he, heq, -⟩ := ordered_snapshots ⟨2, by decide, by decide⟩ ⟨1, [], true⟩ wrapping
    (by decide) (by decide) ⟨by decide, trivial, trivial, by decide, trivial, trivial⟩
  exact ⟨e, he, heq⟩

end JautoProf.Entry
