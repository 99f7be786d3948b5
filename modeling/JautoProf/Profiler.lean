import JautoProf.ProfilerRegistry
import Mathlib.Logic.Function.Basic

/-!
# Profilers and their slots (`Profiler.java`, `ProfilerRegistry.java`)

A profiler counts the calls of a method, on each thread with a depth of its own, so that only
the outermost of nested calls is counted, or the passages from one line to another. The code
of an instrument knows its profiler by a slot of the registry, which a new profiler takes over
when the one in it is no longer active.

Results:
1. `create_keeps`, `create_slot`: a new profiler takes the slot of no active one.
2. `exit_outermost`, `exit_nested`: `exit` counts a call when it leaves the depth at 0.
3. `enter_exit_stray`: at a depth of -1 calls one after the other are not counted.
-/

namespace JautoProf.Calls

variable {Tid : Type}

/-! ## `Profiler.java` -/

/-- The `threadState` of a thread. -/
structure ThreadState where
  depth : Int
  entryNanos : Int

/-- The `lineState` of a thread. -/
structure LineState where
  seen : Bool
  entryNanos : Int

/-- A `Profiler`, with the states of the threads. -/
structure Profiler (Tid : Type) extends JautoProf.Profiler where
  callCount : Int
  totalNanos : Int
  threadState : Tid → ThreadState
  lineState : Tid → LineState

/-- The constructor. -/
def Profiler.new (instrumentId : UInt64) (name : JString) : Profiler Tid where
  instrumentId := instrumentId
  name := name
  active := true
  callCount := 0
  totalNanos := 0
  threadState := fun _ => ⟨0, 0⟩
  lineState := fun _ => ⟨false, 0⟩

namespace Profiler

def deactivate (p : Profiler Tid) : Profiler Tid := { p with active := false }

variable [DecidableEq Tid]

/-- A call is counted, and the time since its entry. -/
def count (nanos : Int) (p : Profiler Tid) : Profiler Tid :=
  { p with totalNanos := p.totalNanos + nanos, callCount := p.callCount + 1 }

/-- `enter` on the thread `t`; `now` is `System.nanoTime()`. -/
def enter (t : Tid) (now : Int) (p : Profiler Tid) : Profiler Tid :=
  let state := p.threadState t
  let state := if state.depth = 0 then { state with entryNanos := now } else state
  { p with threadState := Function.update p.threadState t { state with depth := state.depth + 1 } }

def exit (t : Tid) (now : Int) (p : Profiler Tid) : Profiler Tid :=
  let state := p.threadState t
  let state := { state with depth := state.depth - 1 }
  let p := { p with threadState := Function.update p.threadState t state }
  if state.depth = 0 then p.count (now - state.entryNanos) else p

def enterLine (t : Tid) (now : Int) (p : Profiler Tid) : Profiler Tid :=
  { p with lineState := Function.update p.lineState t ⟨true, now⟩ }

def exitLine (t : Tid) (now : Int) (p : Profiler Tid) : Profiler Tid :=
  let state := p.lineState t
  if state.seen then
    let p := p.count (now - state.entryNanos)
    { p with lineState := Function.update p.lineState t { state with seen := false } }
  else p

end Profiler

/-! ## `ProfilerRegistry.java` -/

/-- The registry. The profilers that were ever created are those below `size`; an entry has
one of them. -/
structure Registry (Tid : Type) where
  profiler : Nat → Profiler Tid
  size : Nat
  entries : List Nat

namespace Registry

def Active (r : Registry Tid) (o : Nat) : Prop := (r.profiler o).active = true

instance (r : Registry Tid) (o : Nat) : Decidable (r.Active o) :=
  inferInstanceAs (Decidable (_ = true))

/-- A method is called on a profiler. -/
def modify (o : Nat) (f : Profiler Tid → Profiler Tid) (r : Registry Tid) : Registry Tid :=
  { r with profiler := Function.update r.profiler o (f (r.profiler o)) }

/-- The profiler that `create` makes. -/
def alloc (instrumentId : UInt64) (name : JString) (r : Registry Tid) : Registry Tid :=
  { r with
    profiler := Function.update r.profiler r.size (.new instrumentId name)
    size := r.size + 1 }

/-- `create`: the first slot that is not active, or a new one. -/
def create (instrumentId : UInt64) (name : JString) (r : Registry Tid) : Nat × Registry Tid :=
  match r.entries.findIdx? fun o => !(r.profiler o).active with
  | some i => (i, { r.alloc instrumentId name with entries := r.entries.set i r.size })
  | none => (r.entries.length,
      { r.alloc instrumentId name with entries := r.entries ++ [r.size] })

/-- `remove`; for an id that is no slot `get` throws. -/
def remove (id : Nat) (r : Registry Tid) : Registry Tid :=
  match r.entries[id]? with
  | some o => r.modify o Profiler.deactivate
  | none => r

end Registry

/-! ## What the calls do -/

namespace Profiler

variable [DecidableEq Tid] {p : Profiler Tid} {t u : Tid} {now : Int}

theorem enter_depth :
    ((p.enter t now).threadState t).depth = (p.threadState t).depth + 1 := by
  unfold enter
  dsimp only
  rw [Function.update_self]
  split <;> rfl

theorem enter_other (h : u ≠ t) : (p.enter t now).threadState u = p.threadState u :=
  Function.update_of_ne h _ _

theorem exit_depth : ((p.exit t now).threadState t).depth = (p.threadState t).depth - 1 := by
  unfold exit count
  dsimp only
  split <;> (dsimp only; rw [Function.update_self])

theorem exit_other (h : u ≠ t) : (p.exit t now).threadState u = p.threadState u := by
  unfold exit count
  dsimp only
  split <;> exact Function.update_of_ne h _ _

theorem exit_outermost_eq (now : Int) (h : (p.threadState t).depth = 1) :
    p.exit t now =
      { p with
        threadState := Function.update p.threadState t ⟨0, (p.threadState t).entryNanos⟩
        callCount := p.callCount + 1
        totalNanos := p.totalNanos + (now - (p.threadState t).entryNanos) } := by
  unfold exit
  dsimp only
  rw [h]
  rfl

theorem exit_outermost (h : (p.threadState t).depth = 1) :
    (p.exit t now).callCount = p.callCount + 1 := by
  rw [exit_outermost_eq now h]

theorem exit_nested_eq (now : Int) (h : (p.threadState t).depth ≠ 1) :
    p.exit t now =
      { p with
        threadState := Function.update p.threadState t
          ⟨(p.threadState t).depth - 1, (p.threadState t).entryNanos⟩ } := by
  unfold exit
  dsimp only
  rw [if_neg (by omega)]

theorem exit_nested (h : (p.threadState t).depth ≠ 1) : (p.exit t now).callCount = p.callCount := by
  rw [exit_nested_eq now h]

theorem exit_active : (p.exit t now).active = p.active := by
  unfold exit count
  dsimp only
  split <;> rfl

theorem exit_lineState : (p.exit t now).lineState = p.lineState := by
  unfold exit count
  dsimp only
  split <;> rfl

/-- `exitLine` does nothing on a thread that has not passed the first line. -/
theorem exitLine_unseen (h : (p.lineState t).seen = false) : p.exitLine t now = p := by
  unfold exitLine
  exact if_neg (by rw [h]; decide)

theorem exitLine_seen (now : Int) (h : (p.lineState t).seen = true) :
    p.exitLine t now =
      { p with
        lineState := Function.update p.lineState t ⟨false, (p.lineState t).entryNanos⟩
        callCount := p.callCount + 1
        totalNanos := p.totalNanos + (now - (p.lineState t).entryNanos) } := by
  unfold exitLine
  exact if_pos h

theorem exitLine_threadState : (p.exitLine t now).threadState = p.threadState := by
  unfold exitLine count
  dsimp only
  split <;> rfl

theorem exitLine_active : (p.exitLine t now).active = p.active := by
  unfold exitLine count
  dsimp only
  split <;> rfl

/-- After an `exit` without its `enter`, calls that follow one after the other leave the depth
as it is and are not counted. -/
theorem enter_exit_stray {now' : Int} (h : (p.threadState t).depth = -1) :
    (((p.enter t now).exit t now').threadState t).depth = -1 ∧
      ((p.enter t now).exit t now').callCount = p.callCount := by
  have hdepth : ((p.enter t now).threadState t).depth = 0 := by
    rw [enter_depth, h]
    rfl
  refine ⟨?_, ?_⟩
  · rw [exit_depth, hdepth]
    rfl
  · rw [exit_nested (by rw [hdepth]; decide)]
    rfl

end Profiler

namespace Registry

variable {r : Registry Tid} {instrumentId : UInt64} {name : JString} {o : Nat}

theorem modify_self (f : Profiler Tid → Profiler Tid) :
    (r.modify o f).profiler o = f (r.profiler o) := Function.update_self _ _ _

theorem modify_of_ne {o' : Nat} (h : o' ≠ o) (f : Profiler Tid → Profiler Tid) :
    (r.modify o f).profiler o' = r.profiler o' := Function.update_of_ne h _ _

theorem active_modify {o' : Nat} {f : Profiler Tid → Profiler Tid}
    (hf : (f (r.profiler o)).active = true → r.Active o) (h : (r.modify o f).Active o') :
    r.Active o' := by
  unfold Active at h
  by_cases heq : o' = o
  · subst heq
    rw [modify_self] at h
    exact hf h
  · rwa [modify_of_ne heq] at h

theorem create_size (r : Registry Tid) (instrumentId : UInt64) (name : JString) :
    (r.create instrumentId name).2.size = r.size + 1 := by
  unfold create
  split <;> rfl

theorem create_new (r : Registry Tid) (instrumentId : UInt64) (name : JString) :
    (r.create instrumentId name).2.profiler r.size = .new instrumentId name := by
  unfold create
  split <;> exact Function.update_self _ _ _

theorem create_old (h : o ≠ r.size) :
    (r.create instrumentId name).2.profiler o = r.profiler o := by
  unfold create
  split <;> exact Function.update_of_ne h _ _

/-- The slot that `create` returns has the new profiler. -/
theorem create_slot (r : Registry Tid) (instrumentId : UInt64) (name : JString) :
    (r.create instrumentId name).2.entries[(r.create instrumentId name).1]? = some r.size := by
  unfold create
  split
  · next i h =>
    obtain ⟨hi, -⟩ := List.findIdx?_eq_some_iff_getElem.mp h
    exact List.getElem?_set_self hi
  · exact List.getElem?_concat_length

/-- And a slot whose profiler is active keeps it. -/
theorem create_keeps {j : Nat} (hj : r.entries[j]? = some o) (h : r.Active o) :
    (r.create instrumentId name).2.entries[j]? = some o := by
  unfold create
  split
  · next i hfind =>
    obtain ⟨hi, hinactive, -⟩ := List.findIdx?_eq_some_iff_getElem.mp hfind
    have hne : i ≠ j := by
      rintro rfl
      rw [List.getElem?_eq_getElem hi] at hj
      cases hj
      rw [h] at hinactive
      cases hinactive
    exact (List.getElem?_set_ne hne).trans hj
  · exact (List.getElem?_append_left (List.getElem?_eq_some_iff.mp hj).1).trans hj

theorem create_entries {j : Nat}
    (hj : (r.create instrumentId name).2.entries[j]? = some o) :
    o = r.size ∨ o ∈ r.entries := by
  have hmem := List.mem_of_getElem? hj
  unfold create at hmem
  split at hmem
  · rcases List.mem_or_eq_of_mem_set hmem with h | h
    · exact .inr h
    · exact .inl h
  · rcases List.mem_append.mp hmem with h | h
    · exact .inr h
    · exact .inl (List.mem_singleton.mp h)

end Registry

end JautoProf.Calls
