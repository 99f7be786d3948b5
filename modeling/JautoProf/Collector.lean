import JautoProf.ProfilerEntry
import JautoProf.Profiler

/-!
# The collector (`ProfilerRegistry.java`)

A thread of the registry records every active profiler at each tick. A tick that it could not
meet is recorded with `recordZero`, until it has caught up with the clock. Slots are created,
removed and taken over in between; an iteration sees the entries of the moment it began.

Results:
1. `Inv.step`: the ticks that an entry is seen at follow each other, and an active entry is
   recorded at each of them.
2. `ticks_consecutive`: the timestamps of an entry are `t`, `t + T`, `t + 2T` and so on, from
   the first tick at which the collector sees it until it is deactivated.
-/

namespace JautoProf.Calls.Collector

open Runs ProfilerRegistry

variable {Tid : Type}

/-! ## `collect` -/

/-- How far the collector has come: in an iteration it is about to take the next entry, or has
found one active and is about to record it. -/
inductive Stage
  | start
  | sleeping
  | visiting (zero : Bool) (rest : List Nat)
  | recording (zero : Bool) (o : Nat) (rest : List Nat)
  | stopped

/-- The registry, the collector, what it called on each entry, and its iterations: the tick
and the entries that each saw. -/
structure State (Tid : Type) where
  registry : Registry Tid
  stage : Stage
  nextTick : Int64
  writes : Nat → List Entry.Act
  rounds : List (Int64 × List Nat)

def State.init : State Tid where
  registry := ⟨fun _ => { Profiler.new 0 [] with active := false }, 0, []⟩
  stage := .start
  nextTick := 0
  writes := fun _ => []
  rounds := []

inductive Act
  | create (instrumentId : UInt64) (name : JString)
  | remove (id : Nat)
  /-- The collector does its next thing; `now` is `System.currentTimeMillis()`. -/
  | collect (now : Int64)
  | interrupt

/-- `TICK_MS`, as a `long`. -/
def tick (tickMs : TickMs) : Int64 := Int64.ofNat tickMs.val

/-- `for (ProfilerEntry entry : entries)` begins. -/
def State.visit (s : State Tid) (zero : Bool) : State Tid :=
  { s with
    stage := .visiting zero s.registry.entries
    rounds := s.rounds ++ [(s.nextTick, s.registry.entries)] }

/-- `entry.record(nextTick)`, or `recordZero`. -/
def State.write (s : State Tid) (zero : Bool) (o : Nat) (rest : List Nat) : State Tid :=
  { s with
    stage := .visiting zero rest
    writes := Function.update s.writes o
      (s.writes o ++ [if zero then .recordZero s.nextTick else .record s.nextTick]) }

/-- The end of an iteration, in the outer loop and in the inner one. -/
def State.advance (tickMs : TickMs) (s : State Tid) (now : Int64) : State Tid :=
  let s := { s with stage := .sleeping, nextTick := s.nextTick + tick tickMs }
  if s.nextTick ≤ now then s.visit true else s

def State.collect (tickMs : TickMs) (s : State Tid) (now : Int64) : State Tid :=
  match s.stage with
  | .start => { s with stage := .sleeping, nextTick := now + tick tickMs }
  | .sleeping => s.visit false
  | .visiting zero (o :: rest) =>
    if s.registry.Active o then { s with stage := .recording zero o rest }
    else { s with stage := .visiting zero rest }
  | .recording zero o rest => s.write zero o rest
  | .visiting _ [] => s.advance tickMs now
  | .stopped => s

/-- An interrupt is noticed in the outer loop. -/
def State.interrupt (s : State Tid) : State Tid :=
  match s.stage with
  | .sleeping => { s with stage := .stopped }
  | _ => s

def step (tickMs : TickMs) (s : State Tid) : Act → State Tid
  | .create instrumentId name => { s with registry := (s.registry.create instrumentId name).2 }
  | .remove id => { s with registry := s.registry.remove id }
  | .collect now => s.collect tickMs now
  | .interrupt => s.interrupt

/-! ## What the collector sees and records -/

/-- The ticks at which the collector sees the entry. -/
def State.seen (s : State Tid) (o : Nat) : List Int64 :=
  (s.rounds.filter fun r => o ∈ r.2).map Prod.fst

/-- The timestamps that were recorded into the entry. -/
def State.timestamps (s : State Tid) (o : Nat) : List Int64 :=
  (s.writes o).filterMap Entry.Act.timestamp

/-- The entries that the iteration has not come past. -/
def Stage.pending : Stage → List Nat
  | visiting _ rest => rest
  | recording _ o rest => o :: rest
  | _ => []

/-- What the iteration will still record into the entry. -/
def State.owed (s : State Tid) (o : Nat) : List Int64 :=
  if o ∈ s.stage.pending then [s.nextTick] else []

theorem seen_nil {s : State Tid} (h : s.rounds = []) (o : Nat) : s.seen o = [] := by
  unfold State.seen
  rw [h]
  rfl

theorem owed_nil {s : State Tid} {o : Nat} (h : o ∉ s.stage.pending) : s.owed o = [] := if_neg h

theorem owed_cons {s s' : State Tid} {o o' : Nat} {rest : List Nat}
    (hpending : s.stage.pending = o :: rest) (hpending' : s'.stage.pending = rest)
    (htick : s'.nextTick = s.nextTick) (hne : o' ≠ o) : s'.owed o' = s.owed o' := by
  unfold State.owed
  rw [hpending, hpending', htick]
  by_cases hmem : o' ∈ rest
  · rw [if_pos hmem, if_pos (List.mem_cons_of_mem _ hmem)]
  · rw [if_neg hmem, if_neg (List.not_mem_cons_of_ne_of_not_mem hne hmem)]

/-- The tick of the next iteration. -/
def State.upcoming (tickMs : TickMs) (s : State Tid) : Int64 :=
  match s.stage with
  | .visiting _ _ | .recording _ _ _ => s.nextTick + tick tickMs
  | _ => s.nextTick

/-- `t`, `t + T`, `t + 2T` and so on. -/
def progression (tickMs : TickMs) (t : Int64) (n : Nat) : List Int64 :=
  (List.range n).map fun k => t + Int64.ofNat k * tick tickMs

theorem progression_succ (tickMs : TickMs) (t : Int64) (n : Nat) :
    progression tickMs t (n + 1) = progression tickMs t n ++ [t + Int64.ofNat n * tick tickMs] := by
  unfold progression
  rw [List.range_succ, List.map_append]
  rfl

theorem progression_next (tickMs : TickMs) (t : Int64) (n : Nat) :
    t + Int64.ofNat (n + 1) * tick tickMs = t + Int64.ofNat n * tick tickMs + tick tickMs := by
  rw [Int64.ofNat_add, Int64.add_mul, ← Int64.add_assoc]
  congr 1
  exact Int64.one_mul _

theorem progression_one (tickMs : TickMs) (t : Int64) : progression tickMs t 1 = [t] := by
  unfold progression
  simp

theorem progression_prefix {tickMs : TickMs} {t : Int64} {n : Nat} {l : List Int64}
    (h : l <+: progression tickMs t n) : l = progression tickMs t l.length := by
  have hle : l.length ≤ n := by simpa [progression] using h.length_le
  rw [List.prefix_iff_eq_take.mp h]
  unfold progression
  rw [← List.map_take, List.take_range]
  simp [hle]

/-! ## The invariant -/

structure Inv (tickMs : TickMs) (s : State Tid) : Prop where
  start : s.stage = .start → s.rounds = []
  nodup : s.registry.entries.Nodup
  created : ∀ o ∈ s.registry.entries, o < s.registry.size
  pending_nodup : s.stage.pending.Nodup
  pending_created : ∀ o ∈ s.stage.pending, o < s.registry.size
  unseen : ∀ o, s.registry.size ≤ o → s.seen o = []
  spaced : ∀ o, ∃ t, s.seen o = progression tickMs t (s.seen o).length ∧
    (o ∈ s.registry.entries → s.seen o ≠ [] →
      t + Int64.ofNat (s.seen o).length * tick tickMs = s.upcoming tickMs)
  recorded : ∀ o, s.timestamps o <+: s.seen o
  current : ∀ zero o rest, s.stage = .recording zero o rest →
    s.timestamps o ++ [s.nextTick] = s.seen o
  active : ∀ o, s.registry.Active o → s.timestamps o ++ s.owed o = s.seen o

variable {tickMs : TickMs} {s : State Tid}

theorem Inv.init : Inv tickMs (State.init : State Tid) where
  start := fun _ => rfl
  nodup := .nil
  created := fun _ h => absurd h List.not_mem_nil
  pending_nodup := .nil
  pending_created := fun _ h => absurd h List.not_mem_nil
  unseen := fun _ _ => rfl
  spaced := fun _ => ⟨0, rfl, fun h => absurd h List.not_mem_nil⟩
  recorded := fun _ => List.prefix_refl _
  current := fun _ _ _ h => by cases h
  active := fun _ _ => rfl

/-- The registry changes, and what is new in it is a new entry. -/
theorem Inv.registry (h : Inv tickMs s) {r : Registry Tid} (hnodup : r.entries.Nodup)
    (hcreated : ∀ o ∈ r.entries, o < r.size) (hsize : s.registry.size ≤ r.size)
    (hentries : ∀ o ∈ r.entries, o ∈ s.registry.entries ∨ s.registry.size ≤ o)
    (hactive : ∀ o, r.Active o → s.registry.Active o ∨ s.registry.size ≤ o) :
    Inv tickMs { s with registry := r } where
  start := h.start
  nodup := hnodup
  created := hcreated
  pending_nodup := h.pending_nodup
  pending_created := fun o ho => Nat.lt_of_lt_of_le (h.pending_created o ho) hsize
  unseen := fun o ho => h.unseen o (Nat.le_trans hsize ho)
  spaced := by
    intro o
    obtain ⟨t, hseen, hnext⟩ := h.spaced o
    refine ⟨t, hseen, fun ho hne => ?_⟩
    rcases hentries o ho with ho | ho
    · exact hnext ho hne
    · exact absurd (h.unseen o ho) hne
  recorded := h.recorded
  current := h.current
  active := by
    intro o ho
    rcases hactive o ho with ho | ho
    · exact h.active o ho
    · have hseen := h.unseen o ho
      have howed : s.owed o = [] := owed_nil fun hmem =>
        absurd (h.pending_created o hmem) (Nat.not_lt.mpr ho)
      have hrecorded := h.recorded o
      rw [hseen, List.prefix_nil] at hrecorded
      show s.timestamps o ++ s.owed o = s.seen o
      rw [hseen, howed, hrecorded]
      rfl

theorem Inv.create (h : Inv tickMs s) (instrumentId : UInt64) (name : JString) :
    Inv tickMs { s with registry := (s.registry.create instrumentId name).2 } := by
  have hsize := s.registry.create_size instrumentId name
  have hentries : ∀ o ∈ (s.registry.create instrumentId name).2.entries,
      o = s.registry.size ∨ o ∈ s.registry.entries := by
    intro o ho
    obtain ⟨j, hj⟩ := List.getElem?_of_mem ho
    exact Registry.create_entries hj
  refine h.registry ?_ (fun o ho => ?_) (by omega) (fun o ho => ?_) fun o ho => ?_
  · have hfresh : s.registry.size ∉ s.registry.entries := fun hmem =>
      Nat.lt_irrefl _ (h.created _ hmem)
    unfold Registry.create
    split
    · exact h.nodup.set hfresh
    · exact List.nodup_append.mpr ⟨h.nodup, List.nodup_singleton _, fun a ha b hb heq => by
        rw [List.mem_singleton.mp hb] at heq
        exact hfresh (heq ▸ ha)⟩
  · rw [hsize]
    rcases hentries o ho with rfl | ho
    · exact Nat.lt_succ_self _
    · exact Nat.lt_succ_of_lt (h.created o ho)
  · rcases hentries o ho with rfl | ho
    · exact .inr (Nat.le_refl _)
    · exact .inl ho
  · by_cases hnew : o = s.registry.size
    · exact .inr (Nat.le_of_eq hnew.symm)
    · unfold Registry.Active at ho
      rw [Registry.create_old hnew] at ho
      exact .inl ho

theorem Inv.remove (h : Inv tickMs s) (id : Nat) :
    Inv tickMs { s with registry := s.registry.remove id } := by
  unfold Registry.remove
  split
  · refine h.registry h.nodup h.created (Nat.le_refl _) (fun _ => .inl) fun o ho => .inl ?_
    exact Registry.active_modify (fun hfalse => absurd hfalse Bool.false_ne_true) ho
  · exact h

/-- Where no iteration is under way, the stage of the collector may change, and `nextTick` as
long as no entry was seen. -/
theorem Inv.idle (h : Inv tickMs s) {g : Stage} {tick' : Int64} (hpending : s.stage.pending = [])
    (hg : g = .sleeping ∨ g = .stopped) (htick : s.rounds = [] ∨ tick' = s.upcoming tickMs) :
    Inv tickMs { s with stage := g, nextTick := tick' } := by
  have hgpending : g.pending = [] := by rcases hg with rfl | rfl <;> rfl
  have hupcoming : ({ s with stage := g, nextTick := tick' } : State Tid).upcoming tickMs = tick' := by
    rcases hg with rfl | rfl <;> rfl
  refine ⟨?_, h.nodup, h.created, ?_, ?_, h.unseen, fun o => ?_, h.recorded, ?_, fun o ho => ?_⟩
  · rintro (rfl : g = _)
    rcases hg with hg | hg <;> cases hg
  · exact hgpending ▸ .nil
  · exact fun o ho => absurd (hgpending ▸ ho) List.not_mem_nil
  · obtain ⟨t, hseen, hnext⟩ := h.spaced o
    refine ⟨t, hseen, fun ho hne => ?_⟩
    rw [hupcoming]
    rcases htick with hnil | rfl
    · exact absurd (seen_nil hnil o) hne
    · exact hnext ho hne
  · rintro zero o rest (rfl : g = _)
    rcases hg with hg | hg <;> cases hg
  · have hactive := h.active o ho
    rw [owed_nil (hpending ▸ List.not_mem_nil)] at hactive
    rw [owed_nil (hgpending ▸ List.not_mem_nil)]
    exact hactive

theorem seen_visit (s : State Tid) (zero : Bool) (o : Nat) :
    (s.visit zero).seen o = s.seen o ++ if o ∈ s.registry.entries then [s.nextTick] else [] := by
  unfold State.seen State.visit
  rw [List.filter_append, List.map_append, List.filter_singleton]
  split <;> simp_all

/-- An iteration begins. -/
theorem Inv.visit (h : Inv tickMs s) (hstage : s.stage = .sleeping) (zero : Bool) :
    Inv tickMs (s.visit zero) where
  start := fun h => by cases h
  nodup := h.nodup
  created := h.created
  pending_nodup := h.nodup
  pending_created := h.created
  unseen := by
    intro o ho
    rw [seen_visit, h.unseen o ho, if_neg fun hmem => absurd (h.created o hmem) (Nat.not_lt.mpr ho)]
    rfl
  spaced := by
    intro o
    obtain ⟨t, hseen, hnext⟩ := h.spaced o
    rw [seen_visit]
    by_cases hmem : o ∈ s.registry.entries
    · rw [if_pos hmem]
      have hupcoming : s.upcoming tickMs = s.nextTick := by
        unfold State.upcoming
        rw [hstage]
      rw [List.length_append, List.length_singleton]
      -- the first tick that the entry sees, or the one after its last
      by_cases hnil : s.seen o = []
      · refine ⟨s.nextTick, ?_, fun _ _ => ?_⟩
        · rw [hnil]
          exact (progression_one tickMs _).symm
        · rw [hnil]
          show s.nextTick + 1 * tick tickMs = s.nextTick + tick tickMs
          rw [Int64.one_mul]
      · refine ⟨t, ?_, fun _ _ => ?_⟩
        · rw [progression_succ, ← hseen, hnext hmem hnil, hupcoming]
        · rw [progression_next, hnext hmem hnil, hupcoming]
          rfl
    · rw [if_neg hmem, List.append_nil]
      exact ⟨t, hseen, fun ho => absurd ho hmem⟩
  recorded := by
    intro o
    rw [seen_visit]
    exact (h.recorded o).trans (List.prefix_append _ _)
  current := fun _ _ _ h => by cases h
  active := by
    intro o ho
    have hactive := h.active o ho
    rw [owed_nil (hstage ▸ List.not_mem_nil), List.append_nil] at hactive
    rw [seen_visit, ← hactive]
    rfl

/-- The iteration comes past an entry without recording it. -/
theorem Inv.skip (h : Inv tickMs s) {zero : Bool} {o : Nat} {rest : List Nat}
    (hstage : s.stage = .visiting zero (o :: rest)) (hactive : ¬ s.registry.Active o) :
    Inv tickMs { s with stage := .visiting zero rest } := by
  have hnodup := h.pending_nodup
  have hcreated := h.pending_created
  have hupcoming : s.upcoming tickMs = s.nextTick + tick tickMs := by
    unfold State.upcoming
    rw [hstage]
  rw [hstage] at hnodup hcreated
  refine ⟨fun h => (by cases h), h.nodup, h.created, (List.nodup_cons.mp hnodup).2,
    fun o' ho' => hcreated o' (List.mem_cons_of_mem _ ho'), h.unseen, fun o' => ?_, h.recorded,
    fun _ _ _ h => (by cases h), fun o' ho' => ?_⟩
  · have hspaced := h.spaced o'
    rwa [hupcoming] at hspaced
  · have hne : o' ≠ o := by
      rintro rfl
      exact hactive ho'
    have howed : ({ s with stage := .visiting zero rest } : State Tid).owed o' = s.owed o' :=
      owed_cons (s := s) (by rw [hstage]; rfl) rfl rfl hne
    rw [howed]
    exact h.active o' ho'

/-- And finds one active. -/
theorem Inv.found (h : Inv tickMs s) {zero : Bool} {o : Nat} {rest : List Nat}
    (hstage : s.stage = .visiting zero (o :: rest)) (hactive : s.registry.Active o) :
    Inv tickMs { s with stage := .recording zero o rest } := by
  have hupcoming : s.upcoming tickMs = s.nextTick + tick tickMs := by
    unfold State.upcoming
    rw [hstage]
  have hpending : s.stage.pending = o :: rest := by rw [hstage]; rfl
  have hnodup := h.pending_nodup
  have hcreated := h.pending_created
  rw [hpending] at hnodup hcreated
  refine ⟨fun h => (by cases h), h.nodup, h.created, hnodup, hcreated, h.unseen, fun o' => ?_,
    h.recorded, ?_, fun o' ho' => ?_⟩
  · have hspaced := h.spaced o'
    rwa [hupcoming] at hspaced
  · rintro _ _ _ ⟨⟩
    have hseen := h.active o hactive
    unfold State.owed at hseen
    rwa [hpending, if_pos List.mem_cons_self] at hseen
  · have hseen := h.active o' ho'
    unfold State.owed at hseen ⊢
    rwa [hpending] at hseen

theorem timestamps_write (s : State Tid) (zero : Bool) (o : Nat) (rest : List Nat) (o' : Nat) :
    (s.write zero o rest).timestamps o' =
      s.timestamps o' ++ if o' = o then [s.nextTick] else [] := by
  unfold State.timestamps State.write
  dsimp only
  by_cases h : o' = o
  · subst h
    rw [Function.update_self, List.filterMap_append, if_pos rfl]
    cases zero <;> rfl
  · rw [Function.update_of_ne h, if_neg h, List.append_nil]

theorem Inv.write (h : Inv tickMs s) {zero : Bool} {o : Nat} {rest : List Nat}
    (hstage : s.stage = .recording zero o rest) : Inv tickMs (s.write zero o rest) := by
  have hupcoming : s.upcoming tickMs = s.nextTick + tick tickMs := by
    unfold State.upcoming
    rw [hstage]
  have hpending : s.stage.pending = o :: rest := by rw [hstage]; rfl
  have hnodup := List.nodup_cons.mp (hpending ▸ h.pending_nodup)
  have hcurrent := h.current zero o rest hstage
  refine ⟨fun h => (by cases h), h.nodup, h.created, hnodup.2,
    fun o' ho' => h.pending_created o' (hpending ▸ List.mem_cons_of_mem _ ho'), h.unseen,
    fun o' => ?_, fun o' => ?_, fun _ _ _ h => (by cases h), fun o' ho' => ?_⟩
  · have hspaced := h.spaced o'
    rwa [hupcoming] at hspaced
  · rw [timestamps_write]
    by_cases ho : o' = o
    · rw [if_pos ho, ho, hcurrent]
      exact List.prefix_refl _
    · rw [if_neg ho, List.append_nil]
      exact h.recorded o'
  · rw [timestamps_write]
    by_cases ho : o' = o
    · subst ho
      rw [if_pos rfl, hcurrent, owed_nil hnodup.1, List.append_nil]
      rfl
    · have howed : (s.write zero o rest).owed o' = s.owed o' :=
        owed_cons (s := s) hpending rfl rfl ho
      rw [if_neg ho, List.append_nil, howed]
      exact h.active o' ho'

theorem Inv.advance (h : Inv tickMs s) {zero : Bool} (hstage : s.stage = .visiting zero [])
    (now : Int64) : Inv tickMs (s.advance tickMs now) := by
  have hsleeping : Inv tickMs
      { s with stage := .sleeping, nextTick := s.nextTick + tick tickMs } := by
    refine h.idle (by rw [hstage]; rfl) (.inl rfl) (.inr ?_)
    unfold State.upcoming
    rw [hstage]
  unfold State.advance
  dsimp only
  split
  · exact hsleeping.visit rfl true
  · exact hsleeping

theorem Inv.collect (h : Inv tickMs s) (now : Int64) : Inv tickMs (s.collect tickMs now) := by
  unfold State.collect
  split
  · next hstage => exact h.idle (by rw [hstage]; rfl) (.inl rfl) (.inl (h.start hstage))
  · next hstage => exact h.visit hstage false
  · next hstage =>
    split
    · next hactive => exact h.found hstage hactive
    · next hactive => exact h.skip hstage hactive
  · next hstage => exact h.write hstage
  · next hstage => exact h.advance hstage now
  · exact h

theorem Inv.interrupt (h : Inv tickMs s) : Inv tickMs s.interrupt := by
  unfold State.interrupt
  split
  · next hstage =>
    refine h.idle (by rw [hstage]; rfl) (.inr rfl) (.inr ?_)
    unfold State.upcoming
    rw [hstage]
  · exact h

theorem Inv.step (h : Inv tickMs s) (a : Act) : Inv tickMs (step tickMs s a) := by
  cases a with
  | create instrumentId name => exact h.create instrumentId name
  | remove id => exact h.remove id
  | collect now => exact h.collect now
  | interrupt => exact h.interrupt

theorem inv_steps (tickMs : TickMs) (as : List Act) :
    Inv tickMs (run (step tickMs) (State.init : State Tid) as) :=
  inv_run (Inv tickMs) (fun _ a h _ => h.step a) .init (.of_true _ as)

/-! ## Deactivated entries -/

/-- An entry that was deactivated, and that the collector is not about to record. -/
structure Retired (s : State Tid) (o : Nat) : Prop where
  created : o < s.registry.size
  inactive : ¬ s.registry.Active o
  idle : ∀ zero rest, s.stage ≠ .recording zero o rest

theorem Retired.collect {o : Nat} (h : Retired s o) (now : Int64) :
    Retired (s.collect tickMs now) o ∧ (s.collect tickMs now).timestamps o = s.timestamps o := by
  unfold State.collect
  split
  · exact ⟨⟨h.created, h.inactive, fun _ _ h => by cases h⟩, rfl⟩
  · exact ⟨⟨h.created, h.inactive, fun _ _ h => by cases h⟩, rfl⟩
  · split
    · next hactive =>
      refine ⟨⟨h.created, h.inactive, ?_⟩, rfl⟩
      rintro _ _ ⟨⟩
      exact h.inactive hactive
    · exact ⟨⟨h.created, h.inactive, fun _ _ h => by cases h⟩, rfl⟩
  · next zero o' rest hstage =>
    refine ⟨⟨h.created, h.inactive, fun _ _ h => by cases h⟩, ?_⟩
    have hne : o ≠ o' := by
      rintro rfl
      exact h.idle zero rest hstage
    rw [timestamps_write, if_neg hne, List.append_nil]
  · unfold State.advance
    dsimp only
    split
    · exact ⟨⟨h.created, h.inactive, fun _ _ h => by cases h⟩, rfl⟩
    · exact ⟨⟨h.created, h.inactive, fun _ _ h => by cases h⟩, rfl⟩
  · exact ⟨h, rfl⟩

/-- Nothing is recorded into it any more. -/
theorem Retired.step {o : Nat} (h : Retired s o) (a : Act) :
    Retired (step tickMs s a) o ∧ (Collector.step tickMs s a).timestamps o = s.timestamps o := by
  cases a with
  | create instrumentId name =>
    refine ⟨⟨?_, fun hactive => h.inactive ?_, h.idle⟩, rfl⟩
    · exact Nat.lt_of_lt_of_eq (Nat.lt_succ_of_lt h.created)
        (s.registry.create_size instrumentId name).symm
    · have hold : (s.registry.create instrumentId name).2.profiler o = s.registry.profiler o :=
        Registry.create_old (Nat.ne_of_lt h.created)
      exact (congrArg (fun p : Profiler Tid => p.active = true) hold).mp hactive
  | remove id =>
    show Retired { s with registry := s.registry.remove id } o ∧ _
    unfold Registry.remove
    split
    · exact ⟨⟨h.created, fun hactive => h.inactive (Registry.active_modify
        (fun hfalse => absurd hfalse Bool.false_ne_true) hactive), h.idle⟩, rfl⟩
    · exact ⟨h, rfl⟩
  | collect now => exact h.collect now
  | interrupt =>
    show Retired s.interrupt o ∧ s.interrupt.timestamps o = _
    unfold State.interrupt
    split
    · exact ⟨⟨h.created, h.inactive, fun _ _ h => by cases h⟩, rfl⟩
    · exact ⟨h, rfl⟩

theorem Retired.run {o : Nat} (h : Retired s o) (as : List Act) :
    (run (Collector.step tickMs) s as).timestamps o = s.timestamps o := by
  induction as generalizing s with
  | nil => rfl
  | cons a as ih =>
    have hstep : Retired (Collector.step tickMs s a) o ∧ _ := h.step a
    exact (ih hstep.1).trans hstep.2

/-! ## The timestamps -/

/-- The terms of a progression are distinct until they come around. -/
theorem progression_nodup {tickMs : TickMs} {t : Int64} {n : Nat} (h : n * tickMs.val ≤ 2 ^ 64) :
    (progression tickMs t n).Nodup := by
  refine List.Nodup.map_on ?_ List.nodup_range
  intro i hi j hj heq
  have hpos := tickMs.property.1
  have hbits := congrArg (fun x => x.toBitVec.toNat) ((Int64.add_right_inj t).mp heq)
  unfold tick at hbits
  simp only [← Int64.ofNat_mul, Int64.toBitVec_ofNat', BitVec.toNat_ofNat] at hbits
  have hlt : ∀ k ∈ List.range n, k * tickMs.val < 2 ^ 64 := fun k hk =>
    Nat.lt_of_lt_of_le (Nat.mul_lt_mul_of_pos_right (List.mem_range.mp hk) hpos) h
  rw [Nat.mod_eq_of_lt (hlt i hi), Nat.mod_eq_of_lt (hlt j hj)] at hbits
  exact Nat.eq_of_mul_eq_mul_right hpos hbits

/-- At every moment, the ticks at which the collector has seen an entry follow each other with
the distance `T`. The timestamps of the entry are the first of these ticks; as long as it is
active they are all of them, but for the iteration under way, and once it is not no timestamp
is added. -/
theorem ticks_consecutive (tickMs : TickMs) (as : List Act) (o : Nat) :
    let s : State Tid := run (step tickMs) State.init as
    (∃ t n m, s.seen o = progression tickMs t n ∧ s.timestamps o = progression tickMs t m ∧
      m ≤ n ∧ (m * tickMs.val ≤ 2 ^ 64 → (s.timestamps o).Nodup)) ∧
    (s.registry.Active o → s.timestamps o ++ s.owed o = s.seen o) ∧
    (Retired s o → ∀ bs, (run (step tickMs) s bs).timestamps o = s.timestamps o) := by
  intro s
  have hinv : Inv tickMs s := inv_steps tickMs as
  obtain ⟨t, hseen, -⟩ := hinv.spaced o
  have hprefix := hinv.recorded o
  have hrecorded := progression_prefix (hseen ▸ hprefix)
  refine ⟨⟨t, _, _, hseen, hrecorded, hprefix.length_le, fun hle => ?_⟩, hinv.active o,
    fun hretired => hretired.run⟩
  rw [hrecorded]
  exact progression_nodup hle

end JautoProf.Calls.Collector
