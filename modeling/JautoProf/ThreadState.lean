import JautoProf.Lib.Prog

/-!
# Pausing the application threads (`ps-thread-state.c`)

`Jvm` is the JVM as the server sees it through JVMTI and JNI, with the allocator; `J` is
whatever state decides its answers, so a thread may start, end, be suspended or be resumed
between any two calls. A thread object stands for each of the references to it.

Results:
1. `buildSnapshot_suspended`: what a snapshot records.
2. `psThreadPauseSuspend_ok`: a pause that returns `PS_SUSPEND_OK` saw no thread to suspend.
3. `psThreadPauseResume_suspended`: a resume leaves no thread recorded.
-/

namespace JautoProf

/-- A `jthread`, by the thread object that it refers to. -/
abbrev JThread : Type := Nat

/-- The JVM and the allocator. A call yields `none` where it fails; the error codes that are
only logged are left out. -/
structure Jvm (J : Type) where
  malloc (size : Nat) : Prog J Bool
  getAllThreads : Prog J (Option (List JThread))
  /-- The `is_daemon` of the thread. -/
  getThreadInfo (thread : JThread) : Prog J (Option Bool)
  getThreadState (thread : JThread) : Prog J (Option UInt32)
  suspendThreadList (threads : List JThread) : Prog J Unit
  resumeThread (thread : JThread) : Prog J Unit
  newGlobalRef (thread : JThread) : Prog J Bool
  deleteGlobalRef (thread : JThread) : Prog J Unit
  /-- `ProfilerRegistry.getStats`; it fails on an exception or a null result. -/
  getStats : Prog J (Option (List UInt8))

/-- `struct ps_thread_pause` and the JVM; `suspended` is the first `suspended_count` of the
`suspended_threads`. -/
structure ThreadPause (J : Type) where
  suspended : List JThread
  jvm : J

namespace ThreadPause

variable {J : Type}

def call {α : Type} (c : Prog J α) : Prog (ThreadPause J) α :=
  .zoom ThreadPause.jvm (fun j s => { s with jvm := j }) c

def record (suspended : List JThread) : Prog (ThreadPause J) Unit :=
  .update fun s => { s with suspended := suspended }

@[simp] theorem suspended_call {α : Type} (c : Prog J α) (s : ThreadPause J) :
    ((call c).final s).suspended = s.suspended := rfl

@[simp] theorem suspended_record (l : List JThread) (s : ThreadPause J) :
    ((record l).final s).suspended = l := rfl

end ThreadPause

open ThreadPause

variable {J : Type} (jvm : Jvm J)

/-! ## The threads of the application -/

/-- `JVMTI_THREAD_STATE_SUSPENDED`. -/
def jvmtiThreadStateSuspended : UInt32 := 0x100000

def classifyThread (agentThread : Option JThread) (thread : JThread) : Prog (ThreadPause J) Bool :=
  if agentThread = some thread then pure false
  else do
    let info ← call (jvm.getThreadInfo thread)
    match info with
    | none => pure false
    | some isDaemon => pure (!isDaemon)

/-- The suspended threads and those to suspend. -/
structure Fetched where
  suspended : List JThread
  toSuspend : List JThread

/-- The body of the loop of `fetch_threads`. -/
def fetchThread (agentThread : Option JThread) (acc : Fetched) (thread : JThread) :
    Prog (ThreadPause J) Fetched := do
  let included ← classifyThread jvm agentThread thread
  if !included then pure acc
  else do
    let state ← call (jvm.getThreadState thread)
    let isSuspended := state.any fun s => s &&& jvmtiThreadStateSuspended ≠ 0
    if !isSuspended then pure { acc with toSuspend := acc.toSuspend ++ [thread] }
    else pure { acc with suspended := acc.suspended ++ [thread] }

/-- `sizeof(jthread)`. -/
def jthreadSize : Nat := 8

def fetchThreads (agentThread : Option JThread) : Prog (ThreadPause J) (Option Fetched) := do
  let threadsRaw ← call jvm.getAllThreads
  match threadsRaw with
  | none => pure none
  | some threadsRaw => do
    let retList ← call (jvm.malloc (threadsRaw.length * 2 * jthreadSize))
    if !retList then pure none
    else do
      let fetched ← threadsRaw.foldlM (fetchThread jvm agentThread) ⟨[], []⟩
      pure (some fetched)

/-! ## The recorded threads -/

/-- Delete the references of the recorded threads. -/
def deleteGlobalRefs : List JThread → Prog (ThreadPause J) Unit
  | [] => pure ()
  | thread :: threads => do
    call (jvm.deleteGlobalRef thread)
    deleteGlobalRefs threads

/-- The loop of `build_snapshot` that records the threads, one after the other. -/
def newGlobalRefs : List JThread → Prog (ThreadPause J) Bool
  | [] => pure true
  | thread :: threads => do
    let ref ← call (jvm.newGlobalRef thread)
    if !ref then pure false
    else do
      let suspended ← .read ThreadPause.suspended
      record (suspended ++ [thread])
      newGlobalRefs threads

def buildSnapshot (snapshot : List JThread) : Prog (ThreadPause J) Bool := do
  let old ← .read ThreadPause.suspended
  deleteGlobalRefs jvm old
  record []
  if snapshot.length = 0 then pure true
  else do
    let arr ← call (jvm.malloc (snapshot.length * jthreadSize))
    if !arr then pure false
    else do
      let ok ← newGlobalRefs jvm snapshot
      if ok then pure true
      else do
        let recorded ← .read ThreadPause.suspended
        deleteGlobalRefs jvm recorded
        record []
        pure false

/-! ## The pause -/

/-- `enum ps_suspend_result`. -/
inductive PsSuspendResult
  | ok
  | race
  | error
deriving DecidableEq

/-- What an iteration returns: 0, 1 or -1. -/
inductive Iteration
  | done
  | again
  | failed
deriving DecidableEq

def convergenceCheck (agentThread : Option JThread) : Prog (ThreadPause J) Iteration := do
  let fetched ← fetchThreads jvm agentThread
  match fetched with
  | none => pure .failed
  | some fetched => do
    let ok ← buildSnapshot jvm fetched.suspended
    if !ok then pure .failed
    else pure (if fetched.toSuspend.length = 0 then .done else .again)

/-- `sizeof(jvmtiError)`. -/
def jvmtiErrorSize : Nat := 4

def suspendNewThreads (agentThread : Option JThread) : Prog (ThreadPause J) Iteration := do
  let fetched ← fetchThreads jvm agentThread
  match fetched with
  | none => pure .failed
  | some fetched =>
    if fetched.toSuspend.length = 0 then do
      let ok ← buildSnapshot jvm fetched.suspended
      pure (if ok then .done else .failed)
    else do
      let results ← call (jvm.malloc (fetched.toSuspend.length * jvmtiErrorSize))
      if !results then pure .failed
      else do
        call (jvm.suspendThreadList fetched.toSuspend)
        pure .again

/-- `MAX_SUSPEND_ITERATIONS`. -/
def maxSuspendIterations : Nat := 8

/-- The loop of `ps_thread_pause_suspend` with the iterations that are left, and the check
after it. -/
def suspendIterations (agentThread : Option JThread) : Nat → Prog (ThreadPause J) PsSuspendResult
  | 0 => do
    let ret ← convergenceCheck jvm agentThread
    pure (match ret with
      | .done => .ok
      | .failed => .error
      | .again => .race)
  | n + 1 => do
    let ret ← suspendNewThreads jvm agentThread
    match ret with
    | .done => pure .ok
    | .failed => pure .error
    | .again => suspendIterations agentThread n

def psThreadPauseSuspend (agentThread : Option JThread) : Prog (ThreadPause J) PsSuspendResult :=
  suspendIterations jvm agentThread maxSuspendIterations

/-- The loop of `ps_thread_pause_resume`. -/
def resumeThreads : List JThread → Prog (ThreadPause J) Unit
  | [] => pure ()
  | thread :: threads => do
    call (jvm.resumeThread thread)
    call (jvm.deleteGlobalRef thread)
    resumeThreads threads

/-- `ps_thread_pause_resume`; it returns 0. -/
def psThreadPauseResume : Prog (ThreadPause J) Int := do
  let suspended ← .read ThreadPause.suspended
  if suspended.length = 0 then pure 0
  else do
    resumeThreads jvm suspended
    record []
    pure 0

/-! ## What is recorded -/

theorem newGlobalRefs_suspended (l : List JThread) (s : ThreadPause J)
    (h : (newGlobalRefs jvm l).result s = true) :
    ((newGlobalRefs jvm l).final s).suspended = s.suspended ++ l := by
  induction l generalizing s with
  | nil => exact (List.append_nil _).symm
  | cons thread l ih =>
    unfold newGlobalRefs at h ⊢
    simp only [Prog.result_bind, Prog.final_bind, Prog.result_ite, Prog.final_ite] at h ⊢
    split at h
    · cases h
    · next hnew =>
      rw [if_neg hnew, ih _ h]
      exact List.append_assoc _ [thread] l

/-- A snapshot that is built records its threads, and one that fails records none. -/
theorem buildSnapshot_suspended (l : List JThread) (s : ThreadPause J) :
    ((buildSnapshot jvm l).final s).suspended =
      if (buildSnapshot jvm l).result s then l else [] := by
  unfold buildSnapshot
  simp only [Prog.result_bind, Prog.final_bind, Prog.result_ite, Prog.final_ite]
  split
  · next hl => exact (List.length_eq_zero_iff.mp hl).symm
  · split
    · rfl
    · split
      · next hnew =>
        rw [Prog.result_pure, if_pos rfl]
        exact newGlobalRefs_suspended jvm l _ hnew
      · rfl

/-- From the state an iteration enumerates the threads, leaves none to suspend, and ends with
those recorded that were suspended. -/
def Converged (agentThread : Option JThread) (s t : ThreadPause J) : Prop :=
  ∃ fetched, (fetchThreads jvm agentThread).result s = some fetched ∧ fetched.toSuspend = [] ∧
    t.suspended = fetched.suspended

theorem convergenceCheck_done {agentThread : Option JThread} {s : ThreadPause J}
    (h : (convergenceCheck jvm agentThread).result s = .done) :
    Converged jvm agentThread s ((convergenceCheck jvm agentThread).final s) := by
  unfold convergenceCheck at h ⊢
  simp only [Prog.result_bind, Prog.final_bind] at h ⊢
  cases hf : (fetchThreads jvm agentThread).result s with
  | none => rw [hf] at h; cases h
  | some fetched =>
    rw [hf] at h
    refine ⟨fetched, hf, ?_⟩
    have hb := buildSnapshot_suspended jvm fetched.suspended ((fetchThreads jvm agentThread).final s)
    simp only [Prog.result_bind, Prog.final_bind, Prog.result_ite, Prog.final_ite,
      Prog.result_pure, Prog.final_pure] at h ⊢
    split at h
    · cases h
    · next hok =>
      rw [Bool.not_eq_true, Bool.not_eq_false'] at hok
      rw [hok, if_pos rfl] at hb
      split at h
      · next hl => exact ⟨List.length_eq_zero_iff.mp hl, by rw [ite_self, hb]⟩
      · cases h

theorem suspendNewThreads_done {agentThread : Option JThread} {s : ThreadPause J}
    (h : (suspendNewThreads jvm agentThread).result s = .done) :
    Converged jvm agentThread s ((suspendNewThreads jvm agentThread).final s) := by
  unfold suspendNewThreads at h ⊢
  simp only [Prog.result_bind, Prog.final_bind] at h ⊢
  cases hf : (fetchThreads jvm agentThread).result s with
  | none => rw [hf] at h; cases h
  | some fetched =>
    rw [hf] at h
    refine ⟨fetched, hf, ?_⟩
    have hb := buildSnapshot_suspended jvm fetched.suspended ((fetchThreads jvm agentThread).final s)
    simp only [Prog.result_bind, Prog.final_bind, Prog.result_ite, Prog.final_ite,
      Prog.result_pure, Prog.final_pure] at h ⊢
    split at h
    · next hl =>
      split at h
      · next hok =>
        rw [hok, if_pos rfl] at hb
        rw [if_pos hl]
        exact ⟨List.length_eq_zero_iff.mp hl, hb⟩
      · cases h
    · split at h <;> cases h

theorem suspendIterations_ok {agentThread : Option JThread} {n : Nat} {s : ThreadPause J}
    (h : (suspendIterations jvm agentThread n).result s = .ok) :
    ∃ s₁, Converged jvm agentThread s₁ ((suspendIterations jvm agentThread n).final s) := by
  induction n generalizing s with
  | zero =>
    unfold suspendIterations at h ⊢
    simp only [Prog.result_bind, Prog.final_bind, Prog.result_pure, Prog.final_pure] at h ⊢
    cases hret : (convergenceCheck jvm agentThread).result s with
    | done => exact ⟨s, convergenceCheck_done jvm hret⟩
    | again => rw [hret] at h; cases h
    | failed => rw [hret] at h; cases h
  | succ n ih =>
    unfold suspendIterations at h ⊢
    simp only [Prog.result_bind, Prog.final_bind] at h ⊢
    cases hret : (suspendNewThreads jvm agentThread).result s with
    | done => exact ⟨s, suspendNewThreads_done jvm hret⟩
    | again =>
      rw [hret] at h
      exact ih h
    | failed => rw [hret] at h; cases h

/-- A pause that succeeds ends with an enumeration of the threads in which none was left to
suspend, and has recorded those that were suspended. -/
theorem psThreadPauseSuspend_ok {agentThread : Option JThread} {s : ThreadPause J}
    (h : (psThreadPauseSuspend jvm agentThread).result s = .ok) :
    ∃ s₁, Converged jvm agentThread s₁ ((psThreadPauseSuspend jvm agentThread).final s) :=
  suspendIterations_ok jvm h

/-- A resume leaves no thread recorded. -/
theorem psThreadPauseResume_suspended (s : ThreadPause J) :
    ((psThreadPauseResume jvm).final s).suspended = [] := by
  unfold psThreadPauseResume
  simp only [Prog.final_bind, Prog.final_ite]
  split
  · next hl => exact List.length_eq_zero_iff.mp hl
  · rfl

end JautoProf
