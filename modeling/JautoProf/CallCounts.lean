import JautoProf.Lib.Runs
import JautoProf.Profiler

/-!
# Calls that are counted (`ProfilerRegistry.java`, `Profiler.java`)

Slots are created, removed and taken over while the threads of the application run
instrumented code. The code of an instrument has the slot that its profiler was given; a
frame of an instrumented method calls `enter` when it starts and `exit` when it ends, whatever
has become of the slot. A call of the registry is three actions of its thread: it gets the
entry, tests `active`, and calls the profiler. All actions are interleaved in any order.

Results:
1. `calls_counted`: as long as no code finds another's active profiler in its slot, the count
   of a profiler is the number of outermost frames of its instrument that entered and exited
   while it held the slot. `call_not_counted`: where an `exit` does, later calls are lost.
-/

namespace JautoProf.Calls

open Runs

variable {Tid : Type}

/-! ## The threads -/

/-- The methods of the registry that code calls. -/
inductive Op
  | enter
  | exit
  | enterLine
  | exitLine
deriving DecidableEq

/-- How far a call has come: the entry it got, and whether that was active. -/
inductive Stage
  | start
  | found (o : Nat)
  | tested (o : Nat)

/-- A call of the registry by the code of an instrument. -/
structure Call where
  op : Op
  owner : Nat
  stage : Stage

/-- A frame of an instrumented method, and whether its `enter` reached the profiler of its
instrument. -/
structure Frame where
  owner : Nat
  entered : Bool

/-- A thread, with its innermost frame first. -/
structure Thread where
  frames : List Frame
  call : Option Call

/-- A frame that has ended: whether there was no other of its instrument around it, and
whether its calls reached the profiler of the instrument. -/
structure Ended where
  owner : Nat
  outermost : Bool
  entered : Bool
  exited : Bool

/-- The code of an instrument: its slot, and whether it is for a line. -/
structure Code where
  slot : Nat
  isLine : Bool

/-- The registry, the code that was made for its profilers, the threads, and the frames that
have ended. -/
structure State (Tid : Type) where
  registry : Registry Tid
  code : Nat → Code
  thread : Tid → Thread
  ended : List Ended

/-- Before the first instrument. -/
def State.init : State Tid where
  registry := ⟨fun _ => { Profiler.new 0 [] with active := false }, 0, []⟩
  code := fun _ => ⟨0, false⟩
  thread := fun _ => ⟨[], none⟩
  ended := []

inductive Act (Tid : Type)
  | create (instrumentId : UInt64) (name : JString) (isLine : Bool)
  | remove (id : Nat)
  /-- A frame of an instrumented method starts. -/
  | call (t : Tid) (owner : Nat)
  /-- The innermost frame is about to end. -/
  | leave (t : Tid)
  /-- The code of a line instrument is reached. -/
  | line (t : Tid) (owner : Nat) (isExit : Bool)
  | get (t : Tid)
  | test (t : Tid)
  | apply (t : Tid) (now : Int)

/-! ## The steps -/

def Op.isLine : Op → Bool
  | enter | exit => false
  | enterLine | exitLine => true

section

variable [DecidableEq Tid]

/-- The method of the profiler. -/
def Op.apply : Op → Tid → Int → Profiler Tid → Profiler Tid
  | enter => Profiler.enter
  | exit => Profiler.exit
  | enterLine => Profiler.enterLine
  | exitLine => Profiler.exitLine

/-- The thread after a call. -/
def Thread.finish (op : Op) (took : Bool) (th : Thread) : Thread :=
  match op, th.frames with
  | .enter, f :: rest => ⟨{ f with entered := took } :: rest, none⟩
  | .exit, _ :: rest => ⟨rest, none⟩
  | _, frames => ⟨frames, none⟩

/-- What a call ends. -/
def Thread.ends (op : Op) (took : Bool) (th : Thread) : List Ended :=
  match op, th.frames with
  | .exit, f :: rest =>
    [⟨f.owner, rest.all fun f' => f'.owner ≠ f.owner, f.entered, took⟩]
  | _, _ => []

def State.setThread (s : State Tid) (t : Tid) (th : Thread) : State Tid :=
  { s with thread := Function.update s.thread t th }

/-- A call is over; `took` says whether it reached the profiler of its instrument. -/
def State.finish (s : State Tid) (t : Tid) (op : Op) (took : Bool) : State Tid :=
  { s with
    thread := Function.update s.thread t ((s.thread t).finish op took)
    ended := s.ended ++ (s.thread t).ends op took }

def State.create (s : State Tid) (instrumentId : UInt64) (name : JString) (isLine : Bool) :
    State Tid :=
  let (slot, r) := s.registry.create instrumentId name
  { s with registry := r, code := Function.update s.code s.registry.size ⟨slot, isLine⟩ }

def State.remove (s : State Tid) (id : Nat) : State Tid :=
  { s with registry := s.registry.remove id }

def State.call (s : State Tid) (t : Tid) (owner : Nat) : State Tid :=
  match s.thread t with
  | ⟨frames, none⟩ =>
    if owner < s.registry.size ∧ (s.code owner).isLine = false then
      s.setThread t ⟨⟨owner, false⟩ :: frames, some ⟨.enter, owner, .start⟩⟩
    else s
  | _ => s

def State.leave (s : State Tid) (t : Tid) : State Tid :=
  match s.thread t with
  | ⟨f :: rest, none⟩ => s.setThread t ⟨f :: rest, some ⟨.exit, f.owner, .start⟩⟩
  | _ => s

def State.line (s : State Tid) (t : Tid) (owner : Nat) (isExit : Bool) : State Tid :=
  match s.thread t with
  | ⟨frames, none⟩ =>
    if owner < s.registry.size ∧ (s.code owner).isLine = true then
      s.setThread t ⟨frames, some ⟨if isExit then .exitLine else .enterLine, owner, .start⟩⟩
    else s
  | _ => s

/-- `INSTANCE.entries.get(id)`. -/
def State.get (s : State Tid) (t : Tid) : State Tid :=
  match s.thread t with
  | ⟨frames, some ⟨op, owner, .start⟩⟩ =>
    match s.registry.entries[(s.code owner).slot]? with
    | some o => s.setThread t ⟨frames, some ⟨op, owner, .found o⟩⟩
    | none => s
  | _ => s

/-- `if (entry.profiler.active)`. -/
def State.test (s : State Tid) (t : Tid) : State Tid :=
  match s.thread t with
  | ⟨frames, some ⟨op, owner, .found o⟩⟩ =>
    if s.registry.Active o then s.setThread t ⟨frames, some ⟨op, owner, .tested o⟩⟩
    else s.finish t op false
  | _ => s

/-- The call of the profiler. -/
def State.apply (s : State Tid) (t : Tid) (now : Int) : State Tid :=
  match s.thread t with
  | ⟨_, some ⟨op, owner, .tested o⟩⟩ =>
    { s with registry := s.registry.modify o (op.apply t now) }.finish t op (o = owner)
  | _ => s

/-- An action that a thread cannot take does nothing. -/
def step (s : State Tid) : Act Tid → State Tid
  | .create instrumentId name isLine => s.create instrumentId name isLine
  | .remove id => s.remove id
  | .call t owner => s.call t owner
  | .leave t => s.leave t
  | .line t owner isExit => s.line t owner isExit
  | .get t => s.get t
  | .test t => s.test t
  | .apply t now => s.apply t now

/-- A call that finds an active profiler in its slot finds the one of its own instrument, an
`exitLine` apart. -/
def stepOwn (s : State Tid) : Act Tid → Prop
  | .test t =>
    match (s.thread t).call with
    | some ⟨op, owner, .found o⟩ => s.registry.Active o → op = .exitLine ∨ o = owner
    | _ => True
  | _ => True

end

/-- The outermost frames of an instrument that entered and exited while its profiler held the
slot. -/
def calls (ended : List Ended) (o : Nat) : Nat :=
  ended.countP fun e => e.owner = o && e.outermost && e.entered && e.exited

/-! ## The invariant -/

/-- The frames whose `enter` is over. -/
def Thread.entered (th : Thread) : List Frame :=
  match th.call with
  | some ⟨.enter, _, _⟩ => th.frames.tail
  | _ => th.frames

def Thread.depth (th : Thread) (o : Nat) : Nat := th.entered.countP fun f => f.owner = o

/-- The state of the thread at the profiler may still be read: it is active, or was when the
call of the thread tested it. -/
def Live (r : Registry Tid) (th : Thread) (o : Nat) : Prop :=
  r.Active o ∨ ∃ c, th.call = some c ∧ c.stage = .tested o

/-- An active profiler is in the slot of its code. -/
structure Held (r : Registry Tid) (code : Nat → Code) : Prop where
  slot : ∀ o, r.Active o → o < r.size ∧ r.entries[(code o).slot]? = some o
  entries : ∀ o ∈ r.entries, o < r.size

/-- A call and what it has found. -/
structure CallOk (r : Registry Tid) (code : Nat → Code) (frames : List Frame) (c : Call) :
    Prop where
  owner : c.owner < r.size
  kind : c.op.isLine = (code c.owner).isLine
  frame : c.op.isLine = false → ∃ f rest, frames = f :: rest ∧ f.owner = c.owner
  found : ∀ o, c.stage = .found o → o < r.size ∧ (r.Active c.owner → o = c.owner)
  tested : ∀ o, c.stage = .tested o → o < r.size ∧ (c.op = .exitLine ∨ o = c.owner)

/-- The depth at a profiler is the number of the frames of its instrument, all of which
entered it. -/
structure Nested (r : Registry Tid) (code : Nat → Code) (t : Tid) (th : Thread) : Prop where
  owners : ∀ f ∈ th.frames, f.owner < r.size ∧ (code f.owner).isLine = false
  call : ∀ c, th.call = some c → CallOk r code th.frames c
  depth : ∀ o, Live r th o → ((r.profiler o).threadState t).depth = th.depth o
  entered : ∀ o, Live r th o → ∀ f ∈ th.entered, f.owner = o → f.entered = true

/-- The counts of the profilers of methods; a passage of a line is none of theirs. -/
structure Counted (r : Registry Tid) (code : Nat → Code) (ended : List Ended) : Prop where
  owners : ∀ e ∈ ended, e.owner < r.size
  unseen : ∀ o, (code o).isLine = false → ∀ t, ((r.profiler o).lineState t).seen = false
  count : ∀ o, (code o).isLine = false → (r.profiler o).callCount = calls ended o

structure Inv (s : State Tid) : Prop where
  held : Held s.registry s.code
  nested : ∀ t, Nested s.registry s.code t (s.thread t)
  counted : Counted s.registry s.code s.ended

/-! ## The slots -/

section

variable {r : Registry Tid} {code : Nat → Code}

theorem Held.create (h : Held r code) (instrumentId : UInt64) (name : JString) (isLine : Bool) :
    Held (r.create instrumentId name).2
      (Function.update code r.size ⟨(r.create instrumentId name).1, isLine⟩) := by
  have hsize := r.create_size instrumentId name
  refine ⟨fun o ho => ?_, fun o ho => ?_⟩
  · rw [hsize]
    by_cases heq : o = r.size
    · subst heq
      rw [Function.update_self]
      exact ⟨Nat.lt_succ_self _, r.create_slot instrumentId name⟩
    · have hold : r.Active o := by
        unfold Registry.Active at ho ⊢
        rwa [Registry.create_old heq] at ho
      obtain ⟨hlt, hslot⟩ := h.slot o hold
      rw [Function.update_of_ne heq]
      exact ⟨Nat.lt_succ_of_lt hlt, Registry.create_keeps hslot hold⟩
  · rw [hsize]
    obtain ⟨j, hj⟩ := List.mem_iff_getElem?.mp ho
    rcases Registry.create_entries hj with rfl | hmem
    · exact Nat.lt_succ_self _
    · exact Nat.lt_succ_of_lt (h.entries o hmem)

/-- A profiler that a method is called on, or that is removed, does not become active. -/
theorem Held.modify (h : Held r code) {o : Nat} {f : Profiler Tid → Profiler Tid}
    (hf : (f (r.profiler o)).active = true → r.Active o) : Held (r.modify o f) code :=
  ⟨fun o' ho' => h.slot o' (Registry.active_modify hf ho'), h.entries⟩

end

/-! ## The frames -/

theorem Thread.mem_entered {th : Thread} {f : Frame} (h : f ∈ th.entered) : f ∈ th.frames := by
  unfold entered at h
  split at h
  · exact List.mem_of_mem_tail h
  · exact h

section

variable {r r' : Registry Tid} {code code' : Nat → Code} {t : Tid} {th : Thread}

theorem CallOk.mono {frames : List Frame} {c : Call} (h : CallOk r code frames c)
    (hsize : r.size ≤ r'.size) (hcode : ∀ o < r.size, code' o = code o)
    (hactive : ∀ o < r.size, r'.Active o → r.Active o) : CallOk r' code' frames c where
  owner := h.owner.trans_le hsize
  kind := by rw [hcode _ h.owner]; exact h.kind
  frame := h.frame
  found := fun o ho => ⟨(h.found o ho).1.trans_le hsize,
    fun hact => (h.found o ho).2 (hactive _ h.owner hact)⟩
  tested := fun o ho => ⟨(h.tested o ho).1.trans_le hsize, (h.tested o ho).2⟩

theorem Nested.depth_eq_zero (h : Nested r code t th) {o : Nat} (ho : r.size ≤ o) :
    th.depth o = 0 := by
  refine List.countP_eq_zero.mpr fun f hf => ?_
  have hlt := (h.owners f (Thread.mem_entered hf)).1
  exact fun heq => absurd (of_decide_eq_true heq) (hlt.trans_le ho).ne

/-- What other threads do, and new profilers, leave a thread as it is. -/
theorem Nested.mono (h : Nested r code t th) (hsize : r.size ≤ r'.size)
    (hcode : ∀ o < r.size, code' o = code o)
    (hactive : ∀ o < r.size, r'.Active o → r.Active o)
    (hstate : ∀ o < r.size, (r'.profiler o).threadState t = (r.profiler o).threadState t)
    (hnew : ∀ o, r.size ≤ o → r'.Active o → ((r'.profiler o).threadState t).depth = 0) :
    Nested r' code' t th := by
  have hlive : ∀ o, Live r' th o → o < r.size ∧ Live r th o ∨ r.size ≤ o ∧ r'.Active o := by
    rintro o (hact | ⟨c, hc, hstage⟩)
    · rcases Nat.lt_or_ge o r.size with hlt | hge
      · exact .inl ⟨hlt, .inl (hactive o hlt hact)⟩
      · exact .inr ⟨hge, hact⟩
    · exact .inl ⟨((h.call c hc).tested o hstage).1, .inr ⟨c, hc, hstage⟩⟩
  refine ⟨fun f hf => ?_, fun c hc => (h.call c hc).mono hsize hcode hactive, fun o ho => ?_,
    fun o ho f hf heq => ?_⟩
  · obtain ⟨hlt, hkind⟩ := h.owners f hf
    rw [hcode _ hlt]
    exact ⟨hlt.trans_le hsize, hkind⟩
  · rcases hlive o ho with ⟨hlt, hold⟩ | ⟨hge, hact⟩
    · rw [hstate o hlt]
      exact h.depth o hold
    · rw [hnew o hge hact, h.depth_eq_zero hge]
      rfl
  · rcases hlive o ho with ⟨-, hold⟩ | ⟨hge, -⟩
    · exact h.entered o hold f hf heq
    · have hlt := (h.owners f (Thread.mem_entered hf)).1
      rw [heq] at hlt
      exact absurd hlt hge.not_gt

theorem Nested.create (h : Nested r code t th) (hheld : Held r code) (instrumentId : UInt64)
    (name : JString) (isLine : Bool) :
    Nested (r.create instrumentId name).2
      (Function.update code r.size ⟨(r.create instrumentId name).1, isLine⟩) t th := by
  have hsize := r.create_size instrumentId name
  refine h.mono (by omega) (fun o ho => Function.update_of_ne ho.ne _ _) (fun o ho hact => ?_)
    (fun o ho => by rw [Registry.create_old ho.ne]) (fun o ho hact => ?_)
  · unfold Registry.Active at hact ⊢
    rwa [Registry.create_old ho.ne] at hact
  · have hlt := ((hheld.create instrumentId name isLine).slot o hact).1
    obtain rfl : o = r.size := by omega
    rw [Registry.create_new]
    rfl

/-- Another thread calls a profiler, or it is removed. -/
theorem Nested.modify (h : Nested r code t th) {o : Nat} {f : Profiler Tid → Profiler Tid}
    (hactive : (f (r.profiler o)).active = true → r.Active o)
    (hstate : (f (r.profiler o)).threadState t = (r.profiler o).threadState t) :
    Nested (r.modify o f) code t th := by
  have hact : ∀ o', (r.modify o f).Active o' → r.Active o' := fun o' =>
    Registry.active_modify hactive
  have hsame : ∀ o', ((r.modify o f).profiler o').threadState t =
      (r.profiler o').threadState t := by
    intro o'
    by_cases heq : o' = o
    · subst heq
      rw [Registry.modify_self, hstate]
    · rw [Registry.modify_of_ne heq]
  refine h.mono (Nat.le_refl _) (fun _ _ => rfl) (fun o' _ => hact o') (fun o' _ => hsame o')
    (fun o' ho' hact' => ?_)
  rw [hsame o', h.depth o' (.inl (hact o' hact')), h.depth_eq_zero ho']
  rfl

/-! ## The thread that acts -/

/-- A call starts, or goes on. -/
theorem Nested.setCall {frames : List Frame} {call : Option Call} {c : Call}
    (h : Nested r code t ⟨frames, call⟩) (hc : CallOk r code frames c)
    (hentered : Thread.entered ⟨frames, some c⟩ = Thread.entered ⟨frames, call⟩)
    (htested : ∀ o, c.stage = .tested o → r.Active o) : Nested r code t ⟨frames, some c⟩ := by
  have hlive : ∀ o, Live r ⟨frames, some c⟩ o → Live r ⟨frames, call⟩ o := by
    rintro o (hact | ⟨c', hc', hstage⟩)
    · exact .inl hact
    · cases hc'
      exact .inl (htested o hstage)
  refine ⟨h.owners, fun c' hc' => ?_, fun o ho => ?_, fun o ho => ?_⟩
  · cases hc'
    exact hc
  · unfold Thread.depth
    rw [hentered]
    exact h.depth o (hlive o ho)
  · rw [hentered]
    exact h.entered o (hlive o ho)

/-- A frame starts. -/
theorem Nested.call_start {frames : List Frame} {owner : Nat} (h : Nested r code t ⟨frames, none⟩)
    (howner : owner < r.size) (hkind : (code owner).isLine = false) :
    Nested r code t ⟨⟨owner, false⟩ :: frames, some ⟨.enter, owner, .start⟩⟩ := by
  have hlive : ∀ o, Live r ⟨⟨owner, false⟩ :: frames, some ⟨.enter, owner, .start⟩⟩ o →
      Live r ⟨frames, none⟩ o := by
    rintro o (hact | ⟨c, hc, hstage⟩)
    · exact .inl hact
    · cases hc
      cases hstage
  refine ⟨?_, fun c hc => ?_, fun o ho => h.depth o (hlive o ho),
    fun o ho => h.entered o (hlive o ho)⟩
  · exact List.forall_mem_cons.mpr ⟨⟨howner, hkind⟩, h.owners⟩
  · cases hc
    exact ⟨howner, hkind.symm, fun _ => ⟨_, _, rfl, rfl⟩, by rintro o ⟨⟩, by rintro o ⟨⟩⟩

theorem nested_idle {frames : List Frame}
    (howners : ∀ f ∈ frames, f.owner < r.size ∧ (code f.owner).isLine = false)
    (hdepth : ∀ o, r.Active o →
      ((r.profiler o).threadState t).depth = (frames.countP fun f => f.owner = o : Nat))
    (hentered : ∀ o, r.Active o → ∀ f ∈ frames, f.owner = o → f.entered = true) :
    Nested r code t ⟨frames, none⟩ := by
  have hlive : ∀ o, Live r ⟨frames, none⟩ o → r.Active o := by
    rintro o (hact | ⟨c, hc, -⟩)
    · exact hact
    · cases hc
  exact ⟨howners, by rintro c ⟨⟩, fun o ho => hdepth o (hlive o ho),
    fun o ho => hentered o (hlive o ho)⟩

/-- The call of a line instrument is over. -/
theorem Nested.line_end {frames : List Frame} {c : Call} (h : Nested r code t ⟨frames, some c⟩)
    (hkind : c.op.isLine = true) : Nested r code t ⟨frames, none⟩ := by
  have hentered : Thread.entered ⟨frames, some c⟩ = frames := by
    obtain ⟨op, owner, stage⟩ := c
    cases op with
    | enter => cases hkind
    | _ => rfl
  refine nested_idle h.owners (fun o ho => ?_) (fun o ho => ?_)
  · have hdepth := h.depth o (.inl ho)
    unfold Thread.depth at hdepth
    rwa [hentered] at hdepth
  · have := h.entered o (.inl ho)
    rwa [hentered] at this

/-- A call that found its slot inactive is over. -/
theorem Nested.finish_inactive {frames : List Frame} {op : Op} {owner : Nat} {stage : Stage}
    (h : Nested r code t ⟨frames, some ⟨op, owner, stage⟩⟩) (howner : ¬ r.Active owner) :
    Nested r code t (Thread.finish op false ⟨frames, some ⟨op, owner, stage⟩⟩) := by
  have hne : ∀ o, r.Active o → owner ≠ o := by
    rintro o ho rfl
    exact howner ho
  cases op with
  | enter =>
    obtain ⟨f, rest, rfl, rfl⟩ := (h.call _ rfl).frame rfl
    refine nested_idle ?_ (fun o ho => ?_) (fun o ho g hg heq => ?_)
    · exact List.forall_mem_cons.mpr ⟨h.owners f List.mem_cons_self,
        fun g hg => h.owners g (List.mem_cons_of_mem _ hg)⟩
    · rw [List.countP_cons_of_neg (by simpa using hne o ho)]
      exact h.depth o (.inl ho)
    · rcases List.mem_cons.mp hg with rfl | hg
      · exact absurd heq (hne o ho)
      · exact h.entered o (.inl ho) g hg heq
  | exit =>
    obtain ⟨f, rest, rfl, rfl⟩ := (h.call _ rfl).frame rfl
    refine nested_idle (fun g hg => h.owners g (List.mem_cons_of_mem _ hg)) (fun o ho => ?_)
      (fun o ho g hg => h.entered o (.inl ho) g (List.mem_cons_of_mem _ hg))
    have hdepth := h.depth o (.inl ho)
    rwa [Thread.depth, Thread.entered, List.countP_cons_of_neg (by simpa using hne o ho)] at hdepth
  | enterLine => exact h.line_end rfl
  | exitLine => exact h.line_end rfl

section

variable [DecidableEq Tid]

theorem Op.apply_active (op : Op) (t : Tid) (now : Int) (p : Profiler Tid) :
    (op.apply t now p).active = p.active := by
  cases op with
  | enter => rfl
  | exit => exact Profiler.exit_active
  | enterLine => rfl
  | exitLine => exact Profiler.exitLine_active

theorem Op.apply_other {t u : Tid} (h : u ≠ t) (op : Op) (now : Int) (p : Profiler Tid) :
    (op.apply t now p).threadState u = p.threadState u := by
  cases op with
  | enter => exact Profiler.enter_other h
  | exit => exact Profiler.exit_other h
  | enterLine => rfl
  | exitLine => exact congrFun Profiler.exitLine_threadState u

theorem Op.apply_line {op : Op} (h : op.isLine = true) (t : Tid) (now : Int) (p : Profiler Tid) :
    (op.apply t now p).threadState = p.threadState := by
  cases op with
  | enter => cases h
  | exit => cases h
  | enterLine => rfl
  | exitLine => exact Profiler.exitLine_threadState

/-- A call of its own profiler moves the depth by the frame that it is made for. -/
theorem Nested.finish_reached {frames : List Frame} {op : Op} {owner o : Nat} (now : Int)
    (h : Nested r code t ⟨frames, some ⟨op, owner, .tested o⟩⟩) :
    Nested (r.modify o (op.apply t now)) code t
      (Thread.finish op (o = owner) ⟨frames, some ⟨op, owner, .tested o⟩⟩) := by
  have hown : (op.apply t now (r.profiler o)).active = true → r.Active o := fun hact =>
    (op.apply_active t now _).symm.trans hact
  have hactive : ∀ o', (r.modify o (op.apply t now)).Active o' → r.Active o' := fun o' =>
    Registry.active_modify hown
  have hlive : Live r ⟨frames, some ⟨op, owner, .tested o⟩⟩ o := .inr ⟨_, rfl, rfl⟩
  cases op with
  | enter =>
    obtain ⟨f, rest, rfl, rfl⟩ := (h.call _ rfl).frame rfl
    obtain rfl : o = f.owner := ((h.call _ rfl).tested o rfl).2.resolve_left (by rintro ⟨⟩)
    refine nested_idle ?_ (fun o' ho' => ?_) (fun o' ho' g hg heq => ?_)
    · exact List.forall_mem_cons.mpr ⟨h.owners f List.mem_cons_self,
        fun g hg => h.owners g (List.mem_cons_of_mem _ hg)⟩
    · by_cases hne : f.owner = o'
      · subst hne
        rw [Registry.modify_self, List.countP_cons_of_pos (by simp)]
        -- the frame is marked as entered, and the depth is one more
        refine Profiler.enter_depth.trans ?_
        rw [h.depth f.owner hlive]
        rfl
      · rw [Registry.modify_of_ne (Ne.symm hne), List.countP_cons_of_neg (by simpa using hne)]
        exact h.depth o' (.inl (hactive o' ho'))
    · rcases List.mem_cons.mp hg with rfl | hg
      · exact decide_eq_true rfl
      · exact h.entered o' (.inl (hactive o' ho')) g hg heq
  | exit =>
    obtain ⟨f, rest, rfl, rfl⟩ := (h.call _ rfl).frame rfl
    obtain rfl : o = f.owner := ((h.call _ rfl).tested o rfl).2.resolve_left (by rintro ⟨⟩)
    refine nested_idle (fun g hg => h.owners g (List.mem_cons_of_mem _ hg)) (fun o' ho' => ?_)
      (fun o' ho' g hg => h.entered o' (.inl (hactive o' ho')) g (List.mem_cons_of_mem _ hg))
    by_cases hne : f.owner = o'
    · subst hne
      have hdepth := h.depth f.owner hlive
      rw [Thread.depth, Thread.entered, List.countP_cons_of_pos (by simp)] at hdepth
      rw [Registry.modify_self]
      refine Profiler.exit_depth.trans ?_
      rw [hdepth]
      push_cast
      exact add_sub_cancel_right _ _
    · have hdepth := h.depth o' (.inl (hactive o' ho'))
      rw [Thread.depth, Thread.entered, List.countP_cons_of_neg (by simpa using hne)] at hdepth
      rw [Registry.modify_of_ne (Ne.symm hne)]
      exact hdepth
  | enterLine => exact (h.modify hown (congrFun (Op.apply_line rfl t now _) t)).line_end rfl
  | exitLine => exact (h.modify hown (congrFun (Op.apply_line rfl t now _) t)).line_end rfl

end

end

/-! ## The counts -/

section

variable {r : Registry Tid} {code : Nat → Code} {ended : List Ended}

theorem calls_append (ended es : List Ended) (o : Nat) :
    calls (ended ++ es) o = calls ended o + calls es o :=
  List.countP_append

theorem Counted.create (h : Counted r code ended) (instrumentId : UInt64) (name : JString)
    (isLine : Bool) :
    Counted (r.create instrumentId name).2
      (Function.update code r.size ⟨(r.create instrumentId name).1, isLine⟩) ended := by
  refine ⟨fun e he => ?_, fun o ho => ?_, fun o ho => ?_⟩
  · rw [Registry.create_size]
    exact Nat.lt_succ_of_lt (h.owners e he)
  · by_cases heq : o = r.size
    · subst heq
      rw [Registry.create_new]
      exact fun t => rfl
    · rw [Function.update_of_ne heq] at ho
      rw [Registry.create_old heq]
      exact h.unseen o ho
  · by_cases heq : o = r.size
    · subst heq
      have hnone : calls ended r.size = 0 := by
        refine List.countP_eq_zero.mpr fun e he => ?_
        have := h.owners e he
        simp [this.ne]
      rw [Registry.create_new, hnone]
      rfl
    · rw [Function.update_of_ne heq] at ho
      rw [Registry.create_old heq]
      exact h.count o ho

/-- The method that is called on a profiler counts what has ended. -/
theorem Counted.modify (h : Counted r code ended) (es : List Ended) {o : Nat}
    {f : Profiler Tid → Profiler Tid} (howners : ∀ e ∈ es, e.owner < r.size)
    (hunseen : (code o).isLine = false →
      (f (r.profiler o)).lineState = (r.profiler o).lineState)
    (hcount : (code o).isLine = false →
      (f (r.profiler o)).callCount = (r.profiler o).callCount + calls es o)
    (hother : ∀ o', o' ≠ o → calls es o' = 0) :
    Counted (r.modify o f) code (ended ++ es) := by
  refine ⟨fun e he => ?_, fun o' ho' => ?_, fun o' ho' => ?_⟩
  · exact (List.mem_append.mp he).elim (h.owners e) (howners e)
  · by_cases heq : o' = o
    · subst heq
      rw [Registry.modify_self, hunseen ho']
      exact h.unseen o' ho'
    · rw [Registry.modify_of_ne heq]
      exact h.unseen o' ho'
  · rw [calls_append]
    by_cases heq : o' = o
    · subst heq
      rw [Registry.modify_self, hcount ho', h.count o' ho']
      push_cast
      rfl
    · rw [Registry.modify_of_ne heq, hother o' heq, h.count o' ho']
      rfl

variable {t : Tid} {frames : List Frame} {op : Op} {owner : Nat} {stage : Stage}

theorem Thread.ends_exit {f : Frame} {rest : List Frame} {call : Option Call} {took : Bool} :
    Thread.ends .exit took ⟨f :: rest, call⟩ =
      [⟨f.owner, rest.all fun f' => f'.owner ≠ f.owner, f.entered, took⟩] := rfl

theorem Nested.ends_owner (took : Bool)
    (h : Nested r code t ⟨frames, some ⟨op, owner, stage⟩⟩) :
    ∀ e ∈ Thread.ends op took ⟨frames, some ⟨op, owner, stage⟩⟩,
      e.owner = owner ∧ e.owner < r.size := by
  cases op with
  | exit =>
    obtain ⟨f, rest, rfl, rfl⟩ := (h.call _ rfl).frame rfl
    exact List.forall_mem_singleton.mpr ⟨rfl, (h.call _ rfl).owner⟩
  | _ => exact fun e he => absurd he List.not_mem_nil

theorem Counted.finish_inactive (h : Counted r code ended)
    (hnested : Nested r code t ⟨frames, some ⟨op, owner, stage⟩⟩) :
    Counted r code (ended ++ Thread.ends op false ⟨frames, some ⟨op, owner, stage⟩⟩) := by
  have hnone : ∀ o, calls (Thread.ends op false ⟨frames, some ⟨op, owner, stage⟩⟩) o = 0 := by
    intro o
    cases op with
    | exit =>
      obtain ⟨f, rest, rfl, rfl⟩ := (hnested.call _ rfl).frame rfl
      exact List.countP_eq_zero.mpr (List.forall_mem_singleton.mpr (by simp))
    | _ => rfl
  refine ⟨fun e he => ?_, h.unseen, fun o ho => ?_⟩
  · exact (List.mem_append.mp he).elim (h.owners e) fun he => (hnested.ends_owner _ e he).2
  · rw [calls_append, hnone, h.count o ho]
    rfl

/-- An `exit` of its own profiler counts the call when the frame is the outermost one. -/
theorem Counted.finish_reached [DecidableEq Tid] {o : Nat} (now : Int)
    (h : Counted r code ended)
    (hnested : Nested r code t ⟨frames, some ⟨op, owner, .tested o⟩⟩) :
    Counted (r.modify o (op.apply t now)) code
      (ended ++ Thread.ends op (o = owner) ⟨frames, some ⟨op, owner, .tested o⟩⟩) := by
  have hcall := hnested.call _ rfl
  have howners := fun took e he => (hnested.ends_owner took e he).2
  cases op with
  | enter => exact h.modify _ (howners _) (fun _ => rfl) (fun _ => (add_zero _).symm) fun _ _ => rfl
  | enterLine =>
    have hown : o = owner := (hcall.tested o rfl).2.resolve_left (by rintro ⟨⟩)
    have hline : (code o).isLine = true := by rw [hown]; exact hcall.kind.symm
    refine h.modify _ (howners _) (fun ho => ?_) (fun ho => ?_) fun _ _ => rfl
    all_goals
      rw [hline] at ho
      cases ho
  | exitLine =>
    have hsame : (code o).isLine = false → Profiler.exitLine t now (r.profiler o) = r.profiler o :=
      fun ho => Profiler.exitLine_unseen (h.unseen o ho t)
    refine h.modify _ (howners _) (fun ho => ?_) (fun ho => ?_) fun _ _ => rfl
    · exact congrArg Profiler.lineState (hsame ho)
    · exact (congrArg Profiler.callCount (hsame ho)).trans (add_zero _).symm
  | exit =>
    obtain ⟨f, rest, rfl, rfl⟩ := hcall.frame rfl
    obtain rfl : o = f.owner := (hcall.tested o rfl).2.resolve_left (by rintro ⟨⟩)
    have hlive : Live r ⟨f :: rest, some ⟨.exit, f.owner, .tested f.owner⟩⟩ f.owner :=
      .inr ⟨_, rfl, rfl⟩
    have hdepth := hnested.depth f.owner hlive
    have hentered := hnested.entered f.owner hlive f List.mem_cons_self rfl
    rw [Thread.depth, Thread.entered, List.countP_cons_of_pos (by simp)] at hdepth
    have houtermost : rest.all (fun f' => f'.owner ≠ f.owner) = true ↔
        (rest.countP fun f' => f'.owner = f.owner) = 0 := by
      simp [List.countP_eq_zero]
    refine h.modify _ (howners _) (fun _ => Profiler.exit_lineState) (fun _ => ?_) fun o' ho' => ?_
    · by_cases hzero : (rest.countP fun f' => f'.owner = f.owner) = 0
      · -- the outermost frame: the depth drops to zero and the call is counted
        have hone : ((r.profiler f.owner).threadState t).depth = 1 := by
          rw [hdepth, hzero]
          rfl
        have hcalls : calls [⟨f.owner, true, true, true⟩] f.owner = 1 := by simp [calls]
        refine (Profiler.exit_outermost hone).trans ?_
        rw [Thread.ends_exit, houtermost.mpr hzero, hentered, decide_eq_true rfl, hcalls]
        rfl
      · -- a frame of the same owner is below it
        have hmore : ((r.profiler f.owner).threadState t).depth ≠ 1 := by
          rw [hdepth]
          omega
        have hcalls : ∀ b, calls [⟨f.owner, false, b, true⟩] f.owner = 0 := by simp [calls]
        have hinner := Bool.eq_false_iff.mpr fun hall => hzero (houtermost.mp hall)
        refine (Profiler.exit_nested hmore).trans ?_
        rw [Thread.ends_exit, hinner, decide_eq_true rfl, hcalls]
        exact (add_zero _).symm
    · exact List.countP_eq_zero.mpr (List.forall_mem_singleton.mpr (by simp [Ne.symm ho']))

end

/-! ## The runs -/

section

variable [DecidableEq Tid] {s : State Tid}

omit [DecidableEq Tid] in
theorem Inv.init : Inv (State.init : State Tid) where
  held := ⟨by rintro o ⟨⟩, by rintro o ⟨⟩⟩
  nested := fun t => nested_idle (by rintro f ⟨⟩) (by rintro o ⟨⟩) (by rintro o ⟨⟩)
  counted := ⟨by rintro e ⟨⟩, fun _ _ _ => rfl, fun _ _ => rfl⟩

/-- A thread goes on with a call. -/
theorem Inv.setThread (h : Inv s) {t : Tid} {th : Thread}
    (hth : Nested s.registry s.code t th) : Inv (s.setThread t th) where
  held := h.held
  nested := fun u => by
    by_cases heq : u = t
    · subst heq
      show Nested s.registry s.code u (Function.update s.thread u th u)
      rwa [Function.update_self]
    · show Nested s.registry s.code u (Function.update s.thread t th u)
      rw [Function.update_of_ne heq]
      exact h.nested u
  counted := h.counted

omit [DecidableEq Tid] in
theorem Inv.create (h : Inv s) (instrumentId : UInt64) (name : JString) (isLine : Bool) :
    Inv (s.create instrumentId name isLine) where
  held := h.held.create instrumentId name isLine
  nested := fun t => (h.nested t).create h.held instrumentId name isLine
  counted := h.counted.create instrumentId name isLine

omit [DecidableEq Tid] in
theorem Inv.remove (h : Inv s) (id : Nat) : Inv (s.remove id) := by
  unfold State.remove Registry.remove
  split
  · next o _ =>
    have hgone : (s.registry.profiler o).deactivate.active = true → s.registry.Active o := by
      rintro ⟨⟩
    have hcounted := h.counted.modify [] (o := o) (f := Profiler.deactivate) (by rintro e ⟨⟩)
      (fun _ => rfl) (fun _ => (add_zero _).symm) (fun _ _ => rfl)
    rw [List.append_nil] at hcounted
    exact ⟨h.held.modify hgone, fun t => (h.nested t).modify hgone rfl, hcounted⟩
  · exact h

theorem Inv.call (h : Inv s) (t : Tid) (owner : Nat) : Inv (s.call t owner) := by
  unfold State.call
  have ht := h.nested t
  split
  · next frames hth =>
    rw [hth] at ht
    split
    · next hcode => exact h.setThread (ht.call_start hcode.1 hcode.2)
    · exact h
  · exact h

theorem Inv.leave (h : Inv s) (t : Tid) : Inv (s.leave t) := by
  unfold State.leave
  have ht := h.nested t
  split
  · next f rest hth =>
    rw [hth] at ht
    obtain ⟨howner, hkind⟩ := ht.owners f List.mem_cons_self
    exact h.setThread (ht.setCall ⟨howner, hkind.symm, fun _ => ⟨f, rest, rfl, rfl⟩,
      by rintro o ⟨⟩, by rintro o ⟨⟩⟩ rfl (by rintro o ⟨⟩))
  · exact h

theorem Inv.line (h : Inv s) (t : Tid) (owner : Nat) (isExit : Bool) :
    Inv (s.line t owner isExit) := by
  unfold State.line
  have ht := h.nested t
  split
  · next frames hth =>
    rw [hth] at ht
    split
    · next hcode =>
      refine h.setThread (ht.setCall ⟨hcode.1, ?_, fun hop => ?_, by rintro o ⟨⟩, by rintro o ⟨⟩⟩
        ?_ (by rintro o ⟨⟩))
      · cases isExit <;> exact hcode.2.symm
      · cases isExit <;> cases hop
      · cases isExit <;> rfl
    · exact h
  · exact h

theorem Inv.get (h : Inv s) (t : Tid) : Inv (s.get t) := by
  unfold State.get
  have ht := h.nested t
  split
  · next frames op owner hth =>
    rw [hth] at ht
    have hcall := ht.call _ rfl
    split
    · next o ho =>
      refine h.setThread (ht.setCall ⟨hcall.owner, hcall.kind, hcall.frame, ?_, by rintro o ⟨⟩⟩ ?_
        (by rintro o ⟨⟩))
      · rintro o' ⟨⟩
        refine ⟨h.held.entries o (List.mem_of_getElem? ho), fun hact => ?_⟩
        exact Option.some.inj (ho.symm.trans (h.held.slot owner hact).2)
      · cases op <;> rfl
    · exact h
  · exact h

/-- A call is over, of which the registry is `s.registry`. -/
theorem Inv.finish {t : Tid} {op : Op} {took : Bool} (hheld : Held s.registry s.code)
    (hothers : ∀ u, u ≠ t → Nested s.registry s.code u (s.thread u))
    (hthread : Nested s.registry s.code t ((s.thread t).finish op took))
    (hcounted : Counted s.registry s.code (s.ended ++ (s.thread t).ends op took)) :
    Inv (s.finish t op took) where
  held := hheld
  nested := fun u => by
    unfold State.finish
    by_cases heq : u = t
    · subst heq
      dsimp only
      rwa [Function.update_self]
    · dsimp only
      rw [Function.update_of_ne heq]
      exact hothers u heq
  counted := hcounted

theorem Inv.test (h : Inv s) (t : Tid) (hown : stepOwn s (.test t)) :
    Inv (s.test t) := by
  unfold State.test
  have ht := h.nested t
  split
  · next frames op owner o hth =>
    rw [hth] at ht
    have hcall := ht.call _ rfl
    obtain ⟨ho, hfound⟩ := hcall.found o rfl
    split
    · next hact =>
      refine h.setThread (ht.setCall ⟨hcall.owner, hcall.kind, hcall.frame, by rintro o ⟨⟩, ?_⟩ ?_
        ?_)
      · rintro o' ⟨⟩
        rw [stepOwn, hth] at hown
        exact ⟨ho, hown hact⟩
      · cases op <;> rfl
      · rintro o' ⟨⟩
        exact hact
    · next hact =>
      -- the profiler of the instrument is gone too: while it is active it is in the slot
      have howner : ¬ s.registry.Active owner := fun howner => by
        obtain rfl := hfound howner
        exact hact howner
      refine Inv.finish h.held (fun u _ => h.nested u) ?_ ?_
      · rw [hth]
        exact ht.finish_inactive howner
      · rw [hth]
        exact h.counted.finish_inactive ht
  · exact h

theorem Inv.apply (h : Inv s) (t : Tid) (now : Int) : Inv (s.apply t now) := by
  unfold State.apply
  have ht := h.nested t
  split
  · next frames op owner o hth =>
    rw [hth] at ht
    have hactive : (op.apply t now (s.registry.profiler o)).active = true → s.registry.Active o :=
      fun hact => (op.apply_active t now _).symm.trans hact
    refine Inv.finish (h.held.modify hactive)
      (fun u hu => (h.nested u).modify hactive (op.apply_other hu now _)) ?_ ?_
    · show Nested _ s.code t ((s.thread t).finish op (o = owner))
      rw [hth]
      exact ht.finish_reached now
    · show Counted _ s.code (s.ended ++ (s.thread t).ends op (o = owner))
      rw [hth]
      exact h.counted.finish_reached now ht
  · exact h

theorem inv_step (s : State Tid) (a : Act Tid) (h : Inv s) (hown : stepOwn s a) :
    Inv (step s a) := by
  cases a with
  | create instrumentId name isLine => exact h.create instrumentId name isLine
  | remove id => exact h.remove id
  | call t owner => exact h.call t owner
  | leave t => exact h.leave t
  | line t owner isExit => exact h.line t owner isExit
  | get t => exact h.get t
  | test t => exact h.test t hown
  | apply t now => exact h.apply t now

/-- **Counted calls.** In a run in which no call of `enter`, `exit` or `enterLine` finds
another's active profiler in its slot, the count of the profiler of a method is the number of
the outermost frames of its instrument that entered and exited while it held the slot. -/
theorem calls_counted (as : List (Act Tid)) (h : Along step stepOwn (State.init : State Tid) as)
    (o : Nat) (ho : ((run step State.init as).code o).isLine = false) :
    ((run step State.init as).registry.profiler o).callCount =
      calls (run step State.init as).ended o :=
  (inv_run Inv inv_step Inv.init h).counted.count o ho

end

/-- A call of the registry, and what follows it at the time `now`. -/
def callActs (now : Int) : List (Act Unit) := [.get (), .test (), .apply () now]

/-- A method that calls itself; then its slot is taken over. -/
def nestedRun : List (Act Unit) :=
  [.create 1 [0x41] false, .call () 0] ++ callActs 10 ++ [.call () 0] ++ callActs 20 ++
    [.leave ()] ++ callActs 30 ++ [.leave ()] ++ callActs 40 ++ [.remove 0, .create 2 [0x42] false]

/-- The outer call is counted. -/
theorem calls_counted_nested :
    ((run step State.init nestedRun).registry.profiler 0).callCount =
      calls (run step State.init nestedRun).ended 0 ∧
    calls (run step State.init nestedRun).ended 0 = 1 := by
  have hrun : Along step stepOwn State.init nestedRun :=
    ⟨trivial, trivial, trivial, fun _ => .inr rfl, trivial, trivial, trivial, fun _ => .inr rfl,
      trivial, trivial, trivial, fun _ => .inr rfl, trivial, trivial, trivial, fun _ => .inr rfl,
      trivial, trivial, trivial, trivial⟩
  exact ⟨calls_counted nestedRun hrun 0 rfl, rfl⟩

/-- A slot is taken over while a frame of its earlier owner runs, whose `exit` then finds the
new profiler; a call of the new owner's method follows. -/
def strayRun : List (Act Unit) :=
  [.create 1 [0x41] false, .call () 0] ++ callActs 10 ++
    [.remove 0, .create 2 [0x42] false, .leave ()] ++ callActs 20 ++
    [.call () 1] ++ callActs 30 ++ [.leave ()] ++ callActs 40

/-- The call is not counted. -/
theorem call_not_counted :
    ((run step State.init strayRun).code 1).isLine = false ∧
      calls (run step State.init strayRun).ended 1 = 1 ∧
      ((run step State.init strayRun).registry.profiler 1).callCount = 0 := by
  refine ⟨rfl, rfl, rfl⟩

end JautoProf.Calls
