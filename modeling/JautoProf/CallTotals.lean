import JautoProf.CallCounts
import JautoProf.Lib.Nesting
import Mathlib.Algebra.BigOperators.Group.Finset.Piecewise
import Mathlib.Data.Fintype.BigOperators

/-!
# What a profiler counts (`Profiler.java`)

Threads call the methods of one profiler, in any order among each other. The states of a
thread are its own. What the threads share are two adders: `exit` and `exitLine` add to
`totalNanos` and then to `callCount`, and other threads may come in between.

Results:
1. `inv_steps`: the totals are the sums over the threads of what each would have counted alone.
2. `solo_nested`, `solo_passages`: what a thread alone counts.
3. `totals_exact`: the two together.
-/

namespace JautoProf.Calls.Totals

open Runs Nesting

variable {Tid : Type}

/-! ## The threads -/

/-- How far a call has come: it is about to add the time to `totalNanos`, or has read the
clock and is about to add to `callCount`. -/
inductive Stage
  | idle
  | adding (op : Op)
  | counting (op : Op) (now : Int)

/-- The profiler, what each thread is doing, and the calls that it has completed, with the
reading of the clock that each took. -/
structure State (Tid : Type) where
  profiler : Profiler Tid
  stage : Tid → Stage
  made : Tid → List (Op × Int)

def State.init (instrumentId : UInt64) (name : JString) : State Tid where
  profiler := .new instrumentId name
  stage := fun _ => .idle
  made := fun _ => []

inductive Act (Tid : Type)
  /-- A thread calls a method, which does what comes before the adders. -/
  | call (t : Tid) (op : Op) (now : Int)
  /-- A thread does the next thing of the call that it is in. -/
  | proceed (t : Tid) (now : Int)

section

variable [DecidableEq Tid]

def State.setStage (s : State Tid) (t : Tid) (g : Stage) : State Tid :=
  { s with stage := Function.update s.stage t g }

/-- A call is complete. -/
def State.finish (s : State Tid) (t : Tid) (op : Op) (now : Int) : State Tid :=
  { s with
    stage := Function.update s.stage t .idle
    made := Function.update s.made t (s.made t ++ [(op, now)]) }

/-- `state[0]--`. -/
def leave (t : Tid) (p : Profiler Tid) : Profiler Tid :=
  let state := p.threadState t
  { p with threadState := Function.update p.threadState t { state with depth := state.depth - 1 } }

/-- `state[0] = 0`, at the end of `exitLine`. -/
def clear (t : Tid) (p : Profiler Tid) : Profiler Tid :=
  { p with lineState := Function.update p.lineState t { p.lineState t with seen := false } }

/-- `state[1]`, of the state that the method uses. -/
def entryNanos (op : Op) (p : Profiler Tid) (t : Tid) : Int :=
  if op.isLine then (p.lineState t).entryNanos else (p.threadState t).entryNanos

/-- A method up to the adders. -/
def State.call (s : State Tid) (t : Tid) (op : Op) (now : Int) : State Tid :=
  match op with
  | .enter => { s with profiler := s.profiler.enter t now }.finish t .enter now
  | .exit =>
    let p := leave t s.profiler
    if (p.threadState t).depth = 0 then { s with profiler := p }.setStage t (.adding .exit)
    else { s with profiler := p }.finish t .exit now
  | .enterLine => { s with profiler := s.profiler.enterLine t now }.finish t .enterLine now
  | .exitLine =>
    if (s.profiler.lineState t).seen then s.setStage t (.adding .exitLine)
    else s.finish t .exitLine now

/-- `totalNanos.add(System.nanoTime() - state[1])`. -/
def State.add (s : State Tid) (t : Tid) (op : Op) (now : Int) : State Tid :=
  let nanos := now - entryNanos op s.profiler t
  { s with profiler := { s.profiler with totalNanos := s.profiler.totalNanos + nanos } }.setStage t
    (.counting op now)

/-- `callCount.increment()`, and what `exitLine` does after it. -/
def State.increment (s : State Tid) (t : Tid) (op : Op) (now : Int) : State Tid :=
  let p := { s.profiler with callCount := s.profiler.callCount + 1 }
  { s with profiler := if op.isLine then clear t p else p }.finish t op now

/-- An action that a thread cannot take does nothing. -/
def step (s : State Tid) : Act Tid → State Tid
  | .call t op now =>
    match s.stage t with
    | .idle => s.call t op now
    | _ => s
  | .proceed t now =>
    match s.stage t with
    | .idle => s
    | .adding op => s.add t op now
    | .counting op now => s.increment t op now

end

/-! ## One thread alone -/

/-- One thread calls the methods of a profiler, each as a whole. -/
def perform (p : Profiler Unit) (calls : List (Op × Int)) : Profiler Unit :=
  calls.foldl (fun p c => c.1.apply () c.2 p) p

/-- And of a new profiler. -/
def solo (calls : List (Op × Int)) : Profiler Unit := perform (.new 0 []) calls

theorem perform_append (p : Profiler Unit) (calls calls' : List (Op × Int)) :
    perform p (calls ++ calls') = perform (perform p calls) calls' := List.foldl_append

theorem solo_append (calls : List (Op × Int)) (c : Op × Int) :
    solo (calls ++ [c]) = c.1.apply () c.2 (solo calls) := perform_append _ _ _

/-! ## Nested calls -/

/-- A call of `enter` or of `exit`, with the reading of the clock. -/
def toCall : Event Int → Op × Int
  | .opens now => (.enter, now)
  | .closes now => (.exit, now)

/-- The distances of the pairs, added up. -/
def nanos (pairs : List (Int × Int)) : Int := (pairs.map fun c => c.2 - c.1).sum

theorem nanos_append (pairs pairs' : List (Int × Int)) :
    nanos (pairs ++ pairs') = nanos pairs + nanos pairs' := by
  unfold nanos
  rw [List.map_append, List.sum_append]

theorem nanos_cons (c : Int × Int) (pairs : List (Int × Int)) :
    nanos (c :: pairs) = c.2 - c.1 + nanos pairs := List.sum_cons

section

variable {n : Nat} {l : List (Event Int)} {pairs : List (Int × Int)} {p : Profiler Unit}

theorem perform_pair (p : Profiler Unit) (a b : Int) (l l' : List (Event Int)) :
    perform p ((.opens a :: (l ++ .closes b :: l')).map toCall) =
      perform ((perform (p.enter () a) (l.map toCall)).exit () b) (l'.map toCall) := by
  rw [List.map_cons, List.map_append]
  exact perform_append _ _ _

/-- Inside another call, closed calls leave the state of the thread as it was. -/
theorem closed_inside (h : Closed l pairs) (hdepth : 0 < (p.threadState ()).depth) :
    (perform p (l.map toCall)).threadState () = p.threadState () ∧
      (perform p (l.map toCall)).callCount = p.callCount ∧
      (perform p (l.map toCall)).totalNanos = p.totalNanos := by
  induction h generalizing p with
  | nil => exact ⟨rfl, rfl, rfl⟩
  | pair a b _ _ ih ih' =>
    have henter : (p.enter () a).threadState () =
        ⟨(p.threadState ()).depth + 1, (p.threadState ()).entryNanos⟩ := by
      unfold Profiler.enter
      dsimp only
      rw [Function.update_self, if_neg (by omega)]
    obtain ⟨hstate, hcount, hnanos⟩ := ih (p := p.enter () a) (by rw [henter]; dsimp only; omega)
    rw [henter] at hstate
    rw [perform_pair]
    generalize perform (p.enter () a) _ = q at hstate hcount hnanos
    have hexit := Profiler.exit_nested_eq b (t := ()) (p := q)
      (by rw [hstate]; dsimp only; omega)
    have hback : (q.exit () b).threadState () = p.threadState () := by
      rw [hexit, hstate]
      dsimp only
      rw [Function.update_self, Int.add_sub_cancel]
    obtain ⟨hstate', hcount', hnanos'⟩ := ih' (p := q.exit () b) (by rw [hback]; exact hdepth)
    rw [hexit] at hcount' hnanos'
    exact ⟨hstate'.trans hback, hexit ▸ hcount'.trans hcount, hexit ▸ hnanos'.trans hnanos⟩

/-- Inside no other call, they count the outermost pairs. -/
theorem closed_outermost (h : Closed l pairs) (hdepth : (p.threadState ()).depth = 0) :
    ((perform p (l.map toCall)).threadState ()).depth = 0 ∧
      (perform p (l.map toCall)).callCount = p.callCount + pairs.length ∧
      (perform p (l.map toCall)).totalNanos = p.totalNanos + nanos pairs := by
  induction h generalizing p with
  | nil => exact ⟨hdepth, (Int.add_zero _).symm, (Int.add_zero _).symm⟩
  | pair a b h _ _ ih' =>
    have henter : (p.enter () a).threadState () = ⟨1, a⟩ := by
      unfold Profiler.enter
      dsimp only
      rw [Function.update_self, if_pos hdepth, hdepth]
      rfl
    obtain ⟨hstate, hcount, hnanos⟩ := closed_inside h (p := p.enter () a)
      (by rw [henter]; exact Int.one_pos)
    rw [henter] at hstate
    rw [perform_pair]
    generalize perform (p.enter () a) _ = q at hstate hcount hnanos
    have hexit := Profiler.exit_outermost_eq b (t := ()) (p := q) (by rw [hstate])
    rw [hstate] at hexit
    obtain ⟨hstate', hcount', hnanos'⟩ := ih' (p := q.exit () b)
      (by rw [hexit]; dsimp only; rw [Function.update_self])
    refine ⟨hstate', hcount'.trans ?_, hnanos'.trans ?_⟩
    · rw [hexit, hcount, List.length_cons]
      show p.callCount + 1 + _ = _
      omega
    · rw [hexit, hnanos, nanos_cons]
      show p.totalNanos + (b - a) + _ = _
      omega

theorem nested_inside (h : Nesting.Nested n l pairs) (hdepth : 0 < (p.threadState ()).depth) :
    (perform p (l.map toCall)).callCount = p.callCount ∧
      (perform p (l.map toCall)).totalNanos = p.totalNanos := by
  induction h generalizing p with
  | closed h => exact (closed_inside h hdepth).2
  | inside a h _ ih =>
    obtain ⟨hstate, hcount, hnanos⟩ := closed_inside h hdepth
    rw [List.map_append, perform_append]
    obtain ⟨hcount', hnanos'⟩ := ih (p := (perform p _).enter () a)
      (by rw [Profiler.enter_depth, hstate]; omega)
    exact ⟨hcount'.trans hcount, hnanos'.trans hnanos⟩

/-- Of nested calls, the outermost pairs are counted. -/
theorem solo_nested (h : Nesting.Nested n l pairs) :
    (solo (l.map toCall)).callCount = pairs.length ∧
      (solo (l.map toCall)).totalNanos = nanos pairs := by
  cases h with
  | closed h =>
    obtain ⟨-, hcount, hnanos⟩ := closed_outermost h (p := .new 0 []) rfl
    exact ⟨hcount.trans (Int.zero_add _), hnanos.trans (Int.zero_add _)⟩
  | inside a h h' =>
    obtain ⟨hstate, hcount, hnanos⟩ := closed_outermost h (p := .new 0 []) rfl
    unfold solo
    rw [List.map_append, perform_append]
    obtain ⟨hcount', hnanos'⟩ := nested_inside h' (p := (perform (.new 0 []) _).enter () a)
      (by rw [Profiler.enter_depth, hstate]; decide)
    exact ⟨hcount'.trans (hcount.trans (Int.zero_add _)),
      hnanos'.trans (hnanos.trans (Int.zero_add _))⟩

end

/-! ## Passages of lines -/

/-- The reading at the latest `enterLine` since the previous `exitLine`. -/
def latestEnter (calls : List (Op × Int)) : Option Int :=
  ((calls.reverse.takeWhile fun c => c.1 ≠ Op.exitLine).find? fun c => c.1 = .enterLine).map
    Prod.snd

/-- What a call of `exitLine` after other calls completes. -/
def completes (calls : List (Op × Int)) : Op × Int → Option (Int × Int)
  | (.exitLine, now) => (latestEnter calls).map fun entry => (entry, now)
  | _ => none

/-- The calls of `exitLine` that have an `enterLine` since the previous one, with the readings
at the latest such `enterLine` and at the call. -/
def passages (calls : List (Op × Int)) : List (Int × Int) :=
  (List.range calls.length).filterMap fun j => calls[j]?.bind (completes (calls.take j))

theorem latestEnter_enterLine (calls : List (Op × Int)) (now : Int) :
    latestEnter (calls ++ [(.enterLine, now)]) = some now := by
  unfold latestEnter
  rw [List.reverse_append]
  rfl

theorem latestEnter_exitLine (calls : List (Op × Int)) (now : Int) :
    latestEnter (calls ++ [(.exitLine, now)]) = none := by
  unfold latestEnter
  rw [List.reverse_append]
  rfl

theorem passages_append (calls : List (Op × Int)) (c : Op × Int) :
    passages (calls ++ [c]) = passages calls ++ (completes calls c).toList := by
  unfold passages
  rw [List.length_append, List.length_singleton, List.range_succ, List.filterMap_append]
  congr 1
  · refine List.filterMap_congr fun j hj => ?_
    have hj := List.mem_range.mp hj
    rw [List.getElem?_append_left hj, List.take_append_of_le_length (Nat.le_of_lt hj)]
  · rw [List.filterMap_cons, List.getElem?_concat_length, List.take_left', Option.bind_some]
    · cases completes calls c <;> rfl
    · rfl

/-- The `lineState` of a thread is the latest `enterLine`. -/
structure AtLine (calls : List (Op × Int)) : Prop where
  seen : ((solo calls).lineState ()).seen = (latestEnter calls).isSome
  entryNanos : ∀ entry, latestEnter calls = some entry →
    ((solo calls).lineState ()).entryNanos = entry
  callCount : (solo calls).callCount = (passages calls).length
  totalNanos : (solo calls).totalNanos = nanos (passages calls)

/-- Of the calls of `enterLine` and `exitLine`, the passages are counted. -/
theorem solo_passages {calls : List (Op × Int)} (hline : ∀ c ∈ calls, c.1.isLine = true) :
    AtLine calls := by
  induction calls using List.reverseRecOn with
  | nil => exact ⟨rfl, fun _ h => (by cases h), rfl, rfl⟩
  | append_singleton calls c ih =>
    obtain ⟨hseen, hentry, hcount, hnanos⟩ := ih fun c hc =>
      hline c (List.mem_append_left _ hc)
    obtain ⟨op, now⟩ := c
    cases op with
    | enter => cases hline _ (List.mem_append_right _ (List.mem_singleton_self _))
    | exit => cases hline _ (List.mem_append_right _ (List.mem_singleton_self _))
    | enterLine =>
      have hstep : solo (calls ++ [(.enterLine, now)]) = (solo calls).enterLine () now :=
        solo_append _ _
      have hstate : ((solo calls).enterLine () now).lineState () = ⟨true, now⟩ :=
        Function.update_self () _ (solo calls).lineState
      have hpassages : passages (calls ++ [(.enterLine, now)]) = passages calls :=
        (passages_append _ _).trans (List.append_nil _)
      refine ⟨?_, fun entry h => ?_, ?_, ?_⟩
      · rw [hstep, hstate, latestEnter_enterLine]
        rfl
      · rw [latestEnter_enterLine] at h
        rw [hstep, hstate]
        exact Option.some.inj h
      · rw [hstep, hpassages]
        exact hcount
      · rw [hstep, hpassages]
        exact hnanos
    | exitLine =>
      have hstep : solo (calls ++ [(.exitLine, now)]) = (solo calls).exitLine () now :=
        solo_append _ _
      have hnone : ∀ entry, latestEnter (calls ++ [(.exitLine, now)]) ≠ some entry := by
        intro entry h
        rw [latestEnter_exitLine] at h
        cases h
      cases hlatest : latestEnter calls with
      | none =>
        rw [hlatest] at hseen
        -- the line was not entered, and the call is ignored
        rw [Profiler.exitLine_unseen hseen] at hstep
        have hpassages : passages (calls ++ [(.exitLine, now)]) = passages calls := by
          rw [passages_append, completes, hlatest]
          exact List.append_nil _
        refine ⟨?_, fun entry h => absurd h (hnone entry), ?_, ?_⟩
        · rw [hstep, hseen, latestEnter_exitLine]
        · rw [hstep, hpassages]
          exact hcount
        · rw [hstep, hpassages]
          exact hnanos
      | some entry =>
        rw [hlatest] at hseen
        -- the call completes a passage, and the line is to be entered again
        rw [Profiler.exitLine_seen now hseen, hentry entry hlatest] at hstep
        have hpassages : passages (calls ++ [(.exitLine, now)]) =
            passages calls ++ [(entry, now)] := by
          rw [passages_append, completes, hlatest]
          rfl
        refine ⟨?_, fun entry h => absurd h (hnone entry), ?_, ?_⟩
        · rw [hstep, latestEnter_exitLine]
          dsimp only
          rw [Function.update_self]
          rfl
        · rw [hstep, hpassages, List.length_append]
          dsimp only
          rw [hcount]
          rfl
        · rw [hstep, hpassages, nanos_append, nanos_cons]
          dsimp only
          rw [hnanos]
          show _ = _ + (now - entry + 0)
          omega

/-! ## The threads together -/

/-- The method that the thread is in. -/
def Stage.op : Stage → Option Op
  | idle => none
  | adding op => some op
  | counting op _ => some op

/-- The states of a thread, against those of the thread alone after the calls it completed. -/
def Agrees (own : ThreadState) (line : LineState) (q : Profiler Unit) : Option Op → Prop
  | none => own = q.threadState () ∧ line = q.lineState ()
  | some .exit => own = ⟨0, (q.threadState ()).entryNanos⟩ ∧ (q.threadState ()).depth = 1 ∧
      line = q.lineState ()
  | some .exitLine => own = q.threadState () ∧ line = q.lineState () ∧ line.seen = true
  | some _ => False

/-- The time that the thread has added for a call that it has not counted yet. -/
def Stage.pending (own : ThreadState) (line : LineState) : Stage → Int
  | counting op now => now - if op.isLine then line.entryNanos else own.entryNanos
  | _ => 0

/-- The totals are sums over the threads. -/
structure Inv [Fintype Tid] (s : State Tid) : Prop where
  agrees : ∀ t, Agrees (s.profiler.threadState t) (s.profiler.lineState t) (solo (s.made t))
    (s.stage t).op
  callCount : s.profiler.callCount = ∑ t, (solo (s.made t)).callCount
  totalNanos : s.profiler.totalNanos = ∑ t, ((solo (s.made t)).totalNanos +
    (s.stage t).pending (s.profiler.threadState t) (s.profiler.lineState t))

theorem sum_change [Fintype Tid] [DecidableEq Tid] {f g : Tid → Int} {t : Tid} {d : Int}
    (h : g t = f t + d) (hne : ∀ u, u ≠ t → g u = f u) : ∑ u, g u = ∑ u, f u + d := by
  have hrest : ∑ u ∈ Finset.univ.erase t, g u = ∑ u ∈ Finset.univ.erase t, f u :=
    Finset.sum_congr rfl fun u hu => hne u (Finset.ne_of_mem_erase hu)
  rw [← Finset.add_sum_erase _ g (Finset.mem_univ t), ← Finset.add_sum_erase _ f (Finset.mem_univ t),
    hrest, h]
  exact Int.add_right_comm _ _ _

/-- Another thread's states, stage and calls are as they were. -/
structure Other (s s' : State Tid) (u : Tid) : Prop where
  own : s'.profiler.threadState u = s.profiler.threadState u
  line : s'.profiler.lineState u = s.profiler.lineState u
  stage : s'.stage u = s.stage u
  made : s'.made u = s.made u

variable [Fintype Tid] [DecidableEq Tid] {s s' : State Tid}

/-- What one thread does keeps the invariant when it is right for that thread. -/
theorem Inv.advance (h : Inv s) {t : Tid} (hother : ∀ u, u ≠ t → Other s s' u) {q : Profiler Unit}
    (hq : solo (s'.made t) = q)
    (hagrees : Agrees (s'.profiler.threadState t) (s'.profiler.lineState t) q (s'.stage t).op)
    (hcount : s'.profiler.callCount =
      s.profiler.callCount + (q.callCount - (solo (s.made t)).callCount))
    (hnanos : s'.profiler.totalNanos = s.profiler.totalNanos + (q.totalNanos +
      (s'.stage t).pending (s'.profiler.threadState t) (s'.profiler.lineState t) -
      ((solo (s.made t)).totalNanos +
        (s.stage t).pending (s.profiler.threadState t) (s.profiler.lineState t)))) : Inv s' where
  agrees := by
    intro u
    by_cases hu : u = t
    · rw [hu, hq]
      exact hagrees
    · obtain ⟨hown, hline, hstage, hmade⟩ := hother u hu
      rw [hown, hline, hstage, hmade]
      exact h.agrees u
  callCount := by
    rw [hcount, h.callCount]
    refine (sum_change (t := t) ?_ fun u hu => by rw [(hother u hu).made]).symm
    rw [hq]
    omega
  totalNanos := by
    rw [hnanos, h.totalNanos]
    refine (sum_change (t := t) ?_ fun u hu => ?_).symm
    · rw [hq]
      omega
    · obtain ⟨hown, hline, hstage, hmade⟩ := hother u hu
      rw [hown, hline, hstage, hmade]

/-- The end of a call. -/
theorem Inv.finish (h : Inv s) {t : Tid} {op : Op} {now : Int} {p : Profiler Tid}
    (hown : ∀ u, u ≠ t → p.threadState u = s.profiler.threadState u)
    (hline : ∀ u, u ≠ t → p.lineState u = s.profiler.lineState u)
    (hagrees : Agrees (p.threadState t) (p.lineState t) (op.apply () now (solo (s.made t))) none)
    (hcount : p.callCount = s.profiler.callCount +
      ((op.apply () now (solo (s.made t))).callCount - (solo (s.made t)).callCount))
    (hnanos : p.totalNanos = s.profiler.totalNanos +
      ((op.apply () now (solo (s.made t))).totalNanos - ((solo (s.made t)).totalNanos +
        (s.stage t).pending (s.profiler.threadState t) (s.profiler.lineState t)))) :
    Inv ({ s with profiler := p }.finish t op now) := by
  have hmade : ({ s with profiler := p }.finish t op now).made t = s.made t ++ [(op, now)] :=
    Function.update_self _ _ _
  have hstage : ({ s with profiler := p }.finish t op now).stage t = .idle :=
    Function.update_self _ _ _
  refine h.advance (t := t) (fun u hu => ⟨hown u hu, hline u hu, Function.update_of_ne hu _ _,
    Function.update_of_ne hu _ _⟩) (q := op.apply () now (solo (s.made t))) ?_ ?_ hcount ?_
  · rw [hmade, solo_append]
  · rw [hstage]
    exact hagrees
  · rw [hstage]
    show p.totalNanos = s.profiler.totalNanos + (_ + 0 - _)
    rw [Int.add_zero]
    exact hnanos

/-- The next stage of a call. -/
theorem Inv.setStage (h : Inv s) {t : Tid} {p : Profiler Tid} {g : Stage}
    (hown : ∀ u, u ≠ t → p.threadState u = s.profiler.threadState u)
    (hline : p.lineState = s.profiler.lineState) (hcount : p.callCount = s.profiler.callCount)
    (hagrees : Agrees (p.threadState t) (p.lineState t) (solo (s.made t)) g.op)
    (hnanos : p.totalNanos + (s.stage t).pending (s.profiler.threadState t)
      (s.profiler.lineState t) =
        s.profiler.totalNanos + g.pending (p.threadState t) (p.lineState t)) :
    Inv ({ s with profiler := p }.setStage t g) := by
  have hstage : ({ s with profiler := p }.setStage t g).stage t = g := Function.update_self _ _ _
  refine h.advance (t := t) (fun u hu => ⟨hown u hu, congrFun hline u,
    Function.update_of_ne hu _ _, rfl⟩) (q := solo (s.made t)) rfl ?_ ?_ ?_
  · rw [hstage]
    exact hagrees
  · rw [Int.sub_self, Int.add_zero]
    exact hcount
  · rw [hstage]
    show p.totalNanos = s.profiler.totalNanos + (_ + g.pending (p.threadState t) (p.lineState t) - _)
    omega

/-- A call that is complete at once and counts nothing. -/
theorem Inv.quiet (h : Inv s) {t : Tid} {op : Op} {now : Int} {p : Profiler Tid}
    (hidle : s.stage t = .idle)
    (hown : ∀ u, u ≠ t → p.threadState u = s.profiler.threadState u)
    (hline : ∀ u, u ≠ t → p.lineState u = s.profiler.lineState u)
    (hagrees : Agrees (p.threadState t) (p.lineState t) (op.apply () now (solo (s.made t))) none)
    (hcount : p.callCount = s.profiler.callCount) (hnanos : p.totalNanos = s.profiler.totalNanos)
    (hsolo : (op.apply () now (solo (s.made t))).callCount = (solo (s.made t)).callCount)
    (hsolo' : (op.apply () now (solo (s.made t))).totalNanos = (solo (s.made t)).totalNanos) :
    Inv ({ s with profiler := p }.finish t op now) := by
  refine h.finish hown hline hagrees ?_ ?_
  · rw [hsolo, Int.sub_self, Int.add_zero]
    exact hcount
  · rw [hsolo', hidle]
    show p.totalNanos = s.profiler.totalNanos + (_ - (_ + 0))
    rw [Int.add_zero, Int.sub_self, Int.add_zero]
    exact hnanos

theorem Inv.call (h : Inv s) {t : Tid} (hidle : s.stage t = .idle) (op : Op) (now : Int) :
    Inv (s.call t op now) := by
  have hagrees := h.agrees t
  rw [hidle] at hagrees
  obtain ⟨hown, hline⟩ := hagrees
  cases op with
  | enter =>
    refine h.quiet hidle (fun u hu => Profiler.enter_other hu) (fun _ _ => rfl) ⟨?_, hline⟩
      rfl rfl rfl rfl
    show (s.profiler.enter t now).threadState t = ((solo (s.made t)).enter () now).threadState ()
    simp only [Profiler.enter, Function.update_self, hown]
  | exit =>
    have hleave : (leave t s.profiler).threadState t =
        ⟨((solo (s.made t)).threadState ()).depth - 1,
          ((solo (s.made t)).threadState ()).entryNanos⟩ := by
      simp only [leave, Function.update_self, hown]
    have hother : ∀ u, u ≠ t →
        (leave t s.profiler).threadState u = s.profiler.threadState u :=
      fun u hu => Function.update_of_ne hu _ _
    unfold State.call
    dsimp only
    rw [hleave]
    split
    · next hdepth =>
      have hdepth : ((solo (s.made t)).threadState ()).depth - 1 = 0 := hdepth
      refine h.setStage hother rfl rfl ⟨?_, by omega, hline⟩ ?_
      · rw [hleave, hdepth]
      · rw [hidle]
        rfl
    · next hdepth =>
      have hdepth : ((solo (s.made t)).threadState ()).depth - 1 ≠ 0 := hdepth
      -- an inner exit does not touch the shared adders
      have hexit := Profiler.exit_nested_eq now (t := ()) (p := solo (s.made t)) (by omega)
      refine h.quiet hidle hother (fun _ _ => rfl) ?_ rfl rfl ?_ ?_
      all_goals rw [show Op.exit.apply () now (solo (s.made t)) = _ from hexit]
      exact ⟨hleave, hline⟩
  | enterLine =>
    refine h.quiet hidle (fun _ _ => rfl) (fun u hu => Function.update_of_ne hu _ _) ⟨hown, ?_⟩
      rfl rfl rfl rfl
    show (s.profiler.enterLine t now).lineState t = _
    exact Function.update_self _ _ _
  | exitLine =>
    unfold State.call
    dsimp only
    split
    · next hseen =>
      -- the adders follow in steps of their own
      refine h.setStage (p := s.profiler) (fun _ _ => rfl) rfl rfl ⟨hown, hline, hseen⟩ ?_
      rw [hidle]
      rfl
    · next hseen =>
      have hexit : (solo (s.made t)).exitLine () now = solo (s.made t) :=
        Profiler.exitLine_unseen (by rw [← hline]; exact Bool.eq_false_of_not_eq_true hseen)
      refine h.quiet (p := s.profiler) hidle (fun _ _ => rfl) (fun _ _ => rfl) ?_ rfl rfl ?_ ?_
      all_goals rw [show Op.exitLine.apply () now (solo (s.made t)) = _ from hexit]
      exact ⟨hown, hline⟩

theorem Inv.add (h : Inv s) {t : Tid} {op : Op} (hadding : s.stage t = .adding op) (now : Int) :
    Inv (s.add t op now) := by
  have hagrees := h.agrees t
  rw [hadding] at hagrees
  refine h.setStage (fun _ _ => rfl) rfl rfl hagrees ?_
  rw [hadding]
  show s.profiler.totalNanos + (now - entryNanos op s.profiler t) + 0 = _
  rw [Int.add_zero]
  rfl

theorem Inv.increment (h : Inv s) {t : Tid} {op : Op} {now : Int}
    (hcounting : s.stage t = .counting op now) : Inv (s.increment t op now) := by
  have hagrees := h.agrees t
  rw [hcounting] at hagrees
  cases op with
  | enter => exact hagrees.elim
  | enterLine => exact hagrees.elim
  | exit =>
    obtain ⟨hown, hdepth, hline⟩ := hagrees
    have hexit := Profiler.exit_outermost_eq now hdepth
    refine h.finish (fun _ _ => rfl) (fun _ _ => rfl) ?_ ?_ ?_
    all_goals rw [show Op.exit.apply () now (solo (s.made t)) = _ from hexit]
    · exact ⟨hown, hline⟩
    · show s.profiler.callCount + 1 = s.profiler.callCount + (_ + 1 - _)
      omega
    · rw [hcounting, hown]
      show s.profiler.totalNanos = s.profiler.totalNanos + (_ + (now - _) -
        (_ + (now - ((solo (s.made t)).threadState ()).entryNanos)))
      omega
  | exitLine =>
    obtain ⟨hown, hline, hseen⟩ := hagrees
    have hexit := Profiler.exitLine_seen now (hline ▸ hseen)
    refine h.finish (fun _ _ => rfl) (fun u hu => Function.update_of_ne hu _ _) ?_ ?_ ?_
    all_goals rw [show Op.exitLine.apply () now (solo (s.made t)) = _ from hexit]
    · refine ⟨hown, ?_⟩
      show (clear t _).lineState t = _
      simp only [clear, Function.update_self, hline]
    · show s.profiler.callCount + 1 = s.profiler.callCount + (_ + 1 - _)
      omega
    · rw [hcounting, hline]
      show s.profiler.totalNanos = s.profiler.totalNanos + (_ + (now - _) -
        (_ + (now - ((solo (s.made t)).lineState ()).entryNanos)))
      omega

theorem Inv.step (h : Inv s) (a : Act Tid) : Inv (step s a) := by
  cases a with
  | call t op now =>
    unfold Totals.step
    dsimp only
    split
    · next hidle => exact h.call hidle op now
    · exact h
  | proceed t now =>
    unfold Totals.step
    dsimp only
    split
    · exact h
    · next hadding => exact h.add hadding now
    · next hcounting => exact h.increment hcounting

omit [DecidableEq Tid] in
theorem Inv.init (instrumentId : UInt64) (name : JString) :
    Inv (State.init instrumentId name : State Tid) where
  agrees := fun _ => ⟨rfl, rfl⟩
  callCount := (Finset.sum_eq_zero fun _ _ => rfl).symm
  totalNanos := (Finset.sum_eq_zero fun _ _ => rfl).symm

theorem inv_steps (instrumentId : UInt64) (name : JString) (as : List (Act Tid)) :
    Inv (run step (State.init instrumentId name) as) :=
  inv_run Inv (fun _ a h _ => h.step a) (.init instrumentId name) (.of_true _ as)

omit [DecidableEq Tid] in
theorem Inv.totals (h : Inv s) {pairs : Tid → List (Int × Int)}
    (hpairs : ∀ t, (solo (s.made t)).callCount = (pairs t).length ∧
      (solo (s.made t)).totalNanos = nanos (pairs t)) :
    s.profiler.callCount = ∑ t, ((pairs t).length : Int) ∧
      ((∀ t, s.stage t = .idle) → s.profiler.totalNanos = ∑ t, nanos (pairs t)) := by
  refine ⟨?_, fun hidle => ?_⟩
  · rw [h.callCount]
    exact Finset.sum_congr rfl fun t _ => (hpairs t).1
  · rw [h.totalNanos]
    refine Finset.sum_congr rfl fun t _ => ?_
    rw [hidle t, (hpairs t).2]
    exact Int.add_zero _

/-- In every run, and with every clock. Where the calls that each thread has completed are
nested, `callCount` is the number of outermost pairs; where they are of lines, of passages. And
`totalNanos` is the sum of the distances, when no thread is in a call. -/
theorem totals_exact (instrumentId : UInt64) (name : JString) (as : List (Act Tid)) :
    let s := run step (State.init instrumentId name) as
    (∀ l : Tid → List (Event Int), (∀ t, Balanced (l t) ∧ s.made t = (l t).map toCall) →
      ∃ pairs : Tid → List (Int × Int), (∀ t, ∃ n, Nesting.Nested n (l t) (pairs t)) ∧
        s.profiler.callCount = ∑ t, ((pairs t).length : Int) ∧
        ((∀ t, s.stage t = .idle) → s.profiler.totalNanos = ∑ t, nanos (pairs t))) ∧
    ((∀ t, ∀ c ∈ s.made t, c.1.isLine = true) →
      s.profiler.callCount = ∑ t, ((passages (s.made t)).length : Int) ∧
      ((∀ t, s.stage t = .idle) → s.profiler.totalNanos = ∑ t, nanos (passages (s.made t)))) := by
  intro s
  have hinv : Inv s := inv_steps instrumentId name as
  refine ⟨fun l hl => ?_, fun hline => hinv.totals fun t => ?_⟩
  · choose n pairs hnested using fun t => nested_of_balanced (hl t).1
    refine ⟨pairs, fun t => ⟨n t, hnested t⟩, hinv.totals fun t => ?_⟩
    rw [(hl t).2]
    exact solo_nested (hnested t)
  · have hat := solo_passages (hline t)
    exact ⟨hat.callCount, hat.totalNanos⟩

/-- Two threads, of which one calls the method from itself. -/
def twoThreads : List (Act (Fin 2)) :=
  [.call 0 .enter 5, .call 1 .enter 6, .call 0 .enter 7, .call 0 .exit 8, .call 1 .exit 0,
    .call 0 .exit 0, .proceed 0 10, .proceed 1 11, .proceed 1 0, .proceed 0 0]

example : (run step (.init 1 []) twoThreads).profiler.callCount = 2 ∧
    (run step (.init 1 []) twoThreads).profiler.totalNanos = 10 := by decide

end JautoProf.Calls.Totals
