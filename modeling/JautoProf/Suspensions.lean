import JautoProf.Pauses

/-!
# The threads that a pause leaves suspended

`held j thread` says that the profiler suspended the thread, and that it is alive. A pause
suspends in one iteration and records in a later one, and a failure in between ends it. A thread
about which a query fails is not recorded, even if the pause succeeds.

Results:
1. `pause_within_reach`: in every run of the server the threads that are held are recorded,
   if and only if no pause fails while it holds a thread that was not recorded before it, and the
   queries of the last enumeration are answered for each thread that is held.
2. `pause_loses_thread`: a run where `GetAllThreads` fails in the second iteration.
3. `psThreadPauseResume_frees`: a resume of recorded threads leaves none suspended.
-/

namespace JautoProf

variable {J C : Type}

/-- What JVMTI and JNI promise of the threads that are `held`. Any call may find some of them
ended. Only `SuspendThreadList` suspends. Any query may fail; one that succeeds tells what a thread
is, and that a thread that is held is suspended. -/
structure Jvm.Lawful (jvm : Jvm J) (daemon : JThread → Bool) (held : J → JThread → Prop) :
    Prop where
  malloc : ∀ size, Prog.Lowers held (jvm.malloc size)
  getAllThreads : Prog.Lowers held jvm.getAllThreads
  getThreadInfo : ∀ thread, Prog.Lowers held (jvm.getThreadInfo thread)
  getThreadState : ∀ thread, Prog.Lowers held (jvm.getThreadState thread)
  newGlobalRef : ∀ thread, Prog.Lowers held (jvm.newGlobalRef thread)
  deleteGlobalRef : ∀ thread, Prog.Lowers held (jvm.deleteGlobalRef thread)
  getStats : Prog.Lowers held jvm.getStats
  suspends : ∀ threads j thread, held ((jvm.suspendThreadList threads).final j) thread →
    held j thread ∨ thread ∈ threads
  resumes : ∀ thread j thread', held ((jvm.resumeThread thread).final j) thread' →
    held j thread' ∧ thread' ≠ thread
  is_daemon : ∀ thread j b, (jvm.getThreadInfo thread).result j = some b → b = daemon thread
  is_suspended : ∀ thread j state, (jvm.getThreadState thread).result j = some state →
    held ((jvm.getThreadState thread).final j) thread → state &&& jvmtiThreadStateSuspended ≠ 0

/-- A thread that a pause may suspend. -/
def Target (agentThread : Option JThread) (daemon : JThread → Bool) (thread : JThread) : Prop :=
  agentThread ≠ some thread ∧ daemon thread = false

/-- Only targets are held. -/
def TargetsOnly (agentThread : Option JThread) (daemon : JThread → Bool)
    (held : J → JThread → Prop) (j : J) : Prop :=
  ∀ thread, held j thread → Target agentThread daemon thread

/-- Every thread that is held is recorded. -/
def WithinReach (held : J → JThread → Prop) (s : ThreadPause J) : Prop :=
  ∀ thread, held s.jvm thread → thread ∈ s.suspended

variable (jvm : Jvm J) (held : J → JThread → Prop)

/-- The thread is among those that the loop of `fetch_threads` still has to look at, and both
queries about it are answered there. -/
def QueriesAnswered (agentThread : Option JThread) (thread : JThread) :
    List JThread → ThreadPause J → Prop
  | [], _ => False
  | thread' :: threads, s =>
    (thread' = thread ∧
      ((ThreadPause.call (jvm.getThreadInfo thread)).result s).isSome ∧
      ((ThreadPause.call (jvm.getThreadState thread)).result
        ((ThreadPause.call (jvm.getThreadInfo thread)).final s)).isSome) ∨
    QueriesAnswered agentThread thread threads ((fetchThread jvm agentThread ⟨[], []⟩ thread').final s)

/-- `GetAllThreads` lists the thread, and both queries about it are answered. -/
def AnsweredFor (agentThread : Option JThread) (s : ThreadPause J) (thread : JThread) : Prop :=
  let s₁ := (ThreadPause.call jvm.getAllThreads).final s
  match (ThreadPause.call jvm.getAllThreads).result s with
  | none => False
  | some threadsRaw =>
    QueriesAnswered jvm agentThread thread threadsRaw
      ((ThreadPause.call (jvm.malloc (threadsRaw.length * 2 * jthreadSize))).final s₁)

/-- Recording what the enumeration from `s` found suspended leaves no thread out of reach: the
enumeration was answered for each thread that is held, or, where the recording fails, none is
held. -/
def RecordingHarmless (agentThread : Option JThread) (s : ThreadPause J) (fetched : Fetched) :
    Prop :=
  let s₁ := (fetchThreads jvm agentThread).final s
  let s₂ := (buildSnapshot jvm fetched.suspended).final s₁
  if (buildSnapshot jvm fetched.suspended).result s₁ then
    ∀ thread, held s₂.jvm thread → AnsweredFor jvm agentThread s thread
  else ∀ thread, ¬ held s₂.jvm thread

/-- No iteration leaves a thread out of reach: where the enumeration of the threads or an
allocation fails, those that are held were recorded before the pause, and the iteration that
records is harmless. -/
def PauseHarmless (agentThread : Option JThread) : Nat → ThreadPause J → Prop
  | left, s =>
    let s₁ := (fetchThreads jvm agentThread).final s
    match (fetchThreads jvm agentThread).result s with
    | none => ∀ thread, held s₁.jvm thread → thread ∈ s.suspended
    | some fetched =>
      match left with
      | 0 => RecordingHarmless jvm held agentThread s fetched
      | left + 1 =>
        if fetched.toSuspend.length = 0 then RecordingHarmless jvm held agentThread s fetched
        else
          let results := ThreadPause.call (jvm.malloc (fetched.toSuspend.length * jvmtiErrorSize))
          if results.result s₁ then
            PauseHarmless agentThread left
              ((ThreadPause.call (jvm.suspendThreadList fetched.toSuspend)).final (results.final s₁))
          else ∀ thread, held (results.final s₁).jvm thread → thread ∈ s.suspended

variable {jvm held} {daemon : JThread → Bool}

/-! ## What an iteration may do -/

theorem ThreadPause.call_eq {α : Type} {c : Prog J α} {s t : ThreadPause J} {a : α} :
    call c s = (a, t) ↔ c.result s.jvm = a ∧ { s with jvm := c.final s.jvm } = t :=
  Prod.mk.injEq .. ▸ Iff.rfl

theorem classifyThread_cases {agentThread : Option JThread} {thread : JThread}
    {s t : ThreadPause J} {b : Bool} (h : classifyThread jvm agentThread thread s = (b, t)) :
    (agentThread = some thread ∧ b = false ∧ t = s) ∨
    (agentThread ≠ some thread ∧ ∃ info, ThreadPause.call (jvm.getThreadInfo thread) s = (info, t) ∧
      b = decide (info = some false)) := by
  unfold classifyThread at h
  split at h
  · next hagent =>
    obtain ⟨rfl, rfl⟩ := Prog.pure_eq.mp h
    exact .inl ⟨hagent, rfl, rfl⟩
  · next hagent =>
    obtain ⟨info, s₁, hinfo, h⟩ := Prog.bind_eq.mp h
    cases info with
    | none =>
      obtain ⟨rfl, rfl⟩ := Prog.pure_eq.mp h
      exact .inr ⟨hagent, none, hinfo, rfl⟩
    | some isDaemon =>
      obtain ⟨rfl, rfl⟩ := Prog.pure_eq.mp h
      refine .inr ⟨hagent, some isDaemon, hinfo, ?_⟩
      cases isDaemon <;> rfl

theorem fetchThread_cases {agentThread : Option JThread} {acc acc' : Fetched} {thread : JThread}
    {s t : ThreadPause J} (h : fetchThread jvm agentThread acc thread s = (acc', t)) :
    (classifyThread jvm agentThread thread s = (false, t) ∧ acc' = acc) ∨
    (∃ s₁ state, classifyThread jvm agentThread thread s = (true, s₁) ∧
      ThreadPause.call (jvm.getThreadState thread) s₁ = (state, t) ∧
      acc' = if state.any fun s => s &&& jvmtiThreadStateSuspended ≠ 0 then
          { acc with suspended := acc.suspended ++ [thread] }
        else { acc with toSuspend := acc.toSuspend ++ [thread] }) := by
  obtain ⟨included, s₁, hclass, h⟩ := Prog.bind_eq.mp h
  cases included with
  | false =>
    obtain ⟨rfl, rfl⟩ := Prog.pure_eq.mp h
    exact .inl ⟨hclass, rfl⟩
  | true =>
    obtain ⟨state, s₂, hstate, h⟩ := Prog.bind_eq.mp h
    refine .inr ⟨s₁, state, hclass, ?_⟩
    cases hany : state.any fun s => decide (s &&& jvmtiThreadStateSuspended ≠ 0) with
    | false =>
      simp only [hany, Bool.not_false, if_true] at h
      obtain ⟨rfl, rfl⟩ := Prog.pure_eq.mp h
      exact ⟨hstate, rfl⟩
    | true =>
      simp only [hany, Bool.not_true, Bool.false_eq_true, if_false] at h
      obtain ⟨rfl, rfl⟩ := Prog.pure_eq.mp h
      exact ⟨hstate, rfl⟩

theorem fetchThreads_some {agentThread : Option JThread} {fetched : Fetched}
    {s t : ThreadPause J} (h : fetchThreads jvm agentThread s = (some fetched, t)) :
    ∃ threadsRaw s₁ s₂, ThreadPause.call jvm.getAllThreads s = (some threadsRaw, s₁) ∧
      ThreadPause.call (jvm.malloc (threadsRaw.length * 2 * jthreadSize)) s₁ = (true, s₂) ∧
      threadsRaw.foldlM (fetchThread jvm agentThread) ⟨[], []⟩ s₂ = (fetched, t) := by
  obtain ⟨threadsRaw, s₁, hall, h⟩ := Prog.bind_eq.mp h
  cases threadsRaw with
  | none => cases (Prog.pure_eq.mp h).1
  | some threadsRaw =>
    obtain ⟨retList, s₂, hmalloc, h⟩ := Prog.bind_eq.mp h
    cases retList with
    | false => cases (Prog.pure_eq.mp h).1
    | true =>
      obtain ⟨fetched', s₃, hfold, h⟩ := Prog.bind_eq.mp h
      obtain ⟨hfetched, rfl⟩ := Prog.pure_eq.mp h
      cases hfetched
      exact ⟨threadsRaw, s₁, s₂, hall, hmalloc, hfold⟩

/-! ## What is held -/

/-- What the loop of `fetch_threads` makes of threads: those that are held are found suspended
exactly where they are answered for. -/
structure Sorts (jvm : Jvm J) (agentThread : Option JThread) (daemon : JThread → Bool)
    (held : J → JThread → Prop) (threads : List JThread) (acc acc' : Fetched)
    (s t : ThreadPause J) : Prop where
  finds : ∀ thread, Target agentThread daemon thread → held t.jvm thread →
    (thread ∈ acc'.suspended ↔
      thread ∈ acc.suspended ∨ QueriesAnswered jvm agentThread thread threads s)
  targets : ∀ thread ∈ acc'.toSuspend, thread ∈ acc.toSuspend ∨ Target agentThread daemon thread

/-- `held`, on the state of a pause. -/
abbrev ThreadPause.Holds (held : J → JThread → Prop) (s : ThreadPause J) (thread : JThread) : Prop :=
  held s.jvm thread

theorem ThreadPause.lowers_call {α : Type} {c : Prog J α} (h : Prog.Lowers held c) :
    Prog.Lowers (Holds held) (call c) :=
  fun s => h s.jvm

theorem ThreadPause.lowers_record (threads : List JThread) :
    Prog.Lowers (Holds held) (record (J := J) threads) :=
  fun _ _ h => h

open ThreadPause Prog

section

variable (hjvm : jvm.Lawful daemon held) {agentThread : Option JThread}

include hjvm

theorem Jvm.Lawful.lowers_classifyThread (agentThread : Option JThread) (thread : JThread) :
    Lowers (Holds held) (classifyThread jvm agentThread thread) := by
  refine .ite (.pure _) (.bind (lowers_call (hjvm.getThreadInfo thread)) fun info => ?_)
  cases info with
  | none => exact .pure _
  | some isDaemon => exact .pure _

theorem Jvm.Lawful.lowers_fetchThread (agentThread : Option JThread) (acc : Fetched)
    (thread : JThread) : Lowers (Holds held) (fetchThread jvm agentThread acc thread) :=
  .bind (hjvm.lowers_classifyThread agentThread thread) fun _ =>
    .ite (.pure _) (.bind (lowers_call (hjvm.getThreadState thread)) fun _ =>
      .ite (.pure _) (.pure _))

theorem Jvm.Lawful.lowers_fetchThreads (agentThread : Option JThread) :
    Lowers (Holds held) (fetchThreads jvm agentThread) := by
  refine .bind (lowers_call hjvm.getAllThreads) fun threadsRaw => ?_
  cases threadsRaw with
  | none => exact .pure _
  | some threadsRaw =>
    exact .bind (lowers_call (hjvm.malloc _)) fun _ =>
      .ite (.pure _) (.bind (.foldlM (hjvm.lowers_fetchThread agentThread) _ _) fun _ => .pure _)

theorem Jvm.Lawful.lowers_deleteGlobalRefs (threads : List JThread) :
    Lowers (Holds held) (deleteGlobalRefs jvm threads) := by
  induction threads with
  | nil => exact .pure _
  | cons thread threads ih => exact .bind (lowers_call (hjvm.deleteGlobalRef thread)) fun _ => ih

theorem Jvm.Lawful.lowers_newGlobalRefs (threads : List JThread) :
    Lowers (Holds held) (newGlobalRefs jvm threads) := by
  induction threads with
  | nil => exact .pure _
  | cons thread threads ih =>
    exact .bind (lowers_call (hjvm.newGlobalRef thread)) fun _ =>
      .ite (.pure _) (.bind (.read _) fun _ => .bind (lowers_record _) fun _ => ih)

theorem Jvm.Lawful.lowers_buildSnapshot (snapshot : List JThread) :
    Lowers (Holds held) (buildSnapshot jvm snapshot) :=
  .bind (.read _) fun _ => .bind (hjvm.lowers_deleteGlobalRefs _) fun _ =>
    .bind (lowers_record _) fun _ =>
      .ite (.pure _) (.bind (lowers_call (hjvm.malloc _)) fun _ =>
        .ite (.pure _) (.bind (hjvm.lowers_newGlobalRefs _) fun _ =>
          .ite (.pure _) (.bind (.read _) fun _ => .bind (hjvm.lowers_deleteGlobalRefs _) fun _ =>
            .bind (lowers_record _) fun _ => .pure _)))

/-! ## What an enumeration finds -/

theorem Jvm.Lawful.classifyThread_target {thread : JThread} {s t : ThreadPause J}
    (h : classifyThread jvm agentThread thread s = (true, t)) :
    Target agentThread daemon thread := by
  rcases classifyThread_cases h with ⟨-, hb, -⟩ | ⟨hagent, info, hinfo, hb⟩
  · cases hb
  · obtain ⟨hsome, -⟩ := call_eq.mp hinfo
    rw [of_decide_eq_true hb.symm] at hsome
    exact ⟨hagent, (hjvm.is_daemon thread s.jvm false hsome).symm⟩

omit hjvm in
/-- Where the loop goes on does not depend on what it has found. -/
theorem fetchThread_final (acc : Fetched) (thread : JThread) (s : ThreadPause J) :
    (fetchThread jvm agentThread acc thread).final s =
      (fetchThread jvm agentThread ⟨[], []⟩ thread).final s := by
  simp only [fetchThread, final_bind, final_ite, final_pure, ite_self]

omit hjvm in
/-- A thread that is found suspended is answered for. -/
theorem found_answered {thread : JThread} {s s₁ t : ThreadPause J}
    {state : Option UInt32}
    (hclass : classifyThread jvm agentThread thread s = (true, s₁))
    (hstate : call (jvm.getThreadState thread) s₁ = (state, t)) (hsome : state.isSome)
    (threads : List JThread) : QueriesAnswered jvm agentThread thread (thread :: threads) s := by
  rcases classifyThread_cases hclass with ⟨-, hb, -⟩ | ⟨-, info, hinfo, hb⟩
  · cases hb
  · obtain ⟨hresult, rfl⟩ := call_eq.mp hinfo
    obtain ⟨rfl, -⟩ := call_eq.mp hstate
    have hknown : info.isSome := by
      rw [of_decide_eq_true hb.symm]
      rfl
    refine .inl ⟨rfl, ?_, hsome⟩
    exact (congrArg Option.isSome hresult).trans hknown

/-- A target that is held and answered for is found suspended. -/
theorem Jvm.Lawful.answered_found {acc acc' : Fetched} {thread : JThread} {s t : ThreadPause J}
    (h : fetchThread jvm agentThread acc thread s = (acc', t))
    (htarget : Target agentThread daemon thread) (hheld : held t.jvm thread)
    (hinfo : ((call (jvm.getThreadInfo thread)).result s).isSome)
    (hstate : ((call (jvm.getThreadState thread)).result
      ((call (jvm.getThreadInfo thread)).final s)).isSome) :
    thread ∈ acc'.suspended := by
  obtain ⟨isDaemon, hinfo⟩ := Option.isSome_iff_exists.mp hinfo
  obtain ⟨bits, hstate⟩ := Option.isSome_iff_exists.mp hstate
  -- it is no daemon thread, so that its state is asked for
  obtain rfl : isDaemon = false := (hjvm.is_daemon thread s.jvm isDaemon hinfo).trans htarget.2
  have hclass : classifyThread jvm agentThread thread s =
      (true, (call (jvm.getThreadInfo thread)).final s) := by
    unfold classifyThread
    rw [if_neg htarget.1]
    exact bind_eq.mpr ⟨_, _, Prod.ext hinfo rfl, rfl⟩
  rcases fetchThread_cases h with ⟨hout, -⟩ | ⟨s₁, state, hclass', hcall, rfl⟩
  · rw [hclass] at hout
    cases hout
  · rw [hclass] at hclass'
    cases hclass'
    obtain ⟨rfl, rfl⟩ := call_eq.mp hcall
    have hbit := hjvm.is_suspended thread _ bits hstate hheld
    rw [if_pos]
    · exact List.mem_append_right _ (List.mem_singleton_self thread)
    · have hresult : (jvm.getThreadState thread).result
          ((call (jvm.getThreadInfo thread)).final s).jvm = some bits := hstate
      rw [hresult]
      exact decide_eq_true hbit

theorem Jvm.Lawful.fetchThread_sorts {acc acc' : Fetched} {thread : JThread}
    {s t : ThreadPause J} (h : fetchThread jvm agentThread acc thread s = (acc', t)) :
    Sorts jvm agentThread daemon held [thread] acc acc' s t := by
  refine ⟨fun thread' htarget hheld => ⟨fun hmem => ?_, ?_⟩, fun thread' hmem => ?_⟩
  · rcases fetchThread_cases h with ⟨-, rfl⟩ | ⟨s₁, state, hclass, hstate, rfl⟩
    · exact .inl hmem
    · split at hmem
      · next hany =>
        rcases List.mem_append.mp hmem with hmem | hmem
        · exact .inl hmem
        · rw [List.mem_singleton.mp hmem]
          have hsome : state.isSome := by
            cases state with
            | none => cases hany
            | some bits => rfl
          exact .inr (found_answered hclass hstate hsome [])
      · exact .inl hmem
  · rintro (hmem | ⟨rfl, hinfo, hstate⟩ | hnone)
    · rcases fetchThread_cases h with ⟨-, rfl⟩ | ⟨s₁, state, -, -, rfl⟩
      · exact hmem
      · split
        · exact List.mem_append_left _ hmem
        · exact hmem
    · exact hjvm.answered_found h htarget hheld hinfo hstate
    · exact hnone.elim
  · rcases fetchThread_cases h with ⟨-, rfl⟩ | ⟨s₁, state, hclass, -, rfl⟩
    · exact .inl hmem
    · split at hmem
      · exact .inl hmem
      · rcases List.mem_append.mp hmem with hmem | hmem
        · exact .inl hmem
        · rw [List.mem_singleton.mp hmem]
          exact .inr (hjvm.classifyThread_target hclass)

theorem Jvm.Lawful.foldlM_sorts {threads : List JThread} {acc acc' : Fetched}
    {s t : ThreadPause J}
    (h : threads.foldlM (fetchThread jvm agentThread) acc s = (acc', t)) :
    Sorts jvm agentThread daemon held threads acc acc' s t := by
  induction threads generalizing acc s with
  | nil =>
    obtain ⟨rfl, rfl⟩ := pure_eq.mp h
    exact ⟨fun _ _ _ => (or_iff_left id).symm, fun _ => .inl⟩
  | cons thread threads ih =>
    obtain ⟨acc₁, s₁, hstep, hrest⟩ := bind_eq.mp h
    have hone := hjvm.fetchThread_sorts hstep
    have hall := ih hrest
    have hlower := Lowers.foldlM (hjvm.lowers_fetchThread agentThread) threads acc₁
    have hs₁ : s₁ = (fetchThread jvm agentThread ⟨[], []⟩ thread).final s := by
      rw [← fetchThread_final acc]
      exact (congrArg Prod.snd hstep).symm
    refine ⟨fun thread' htarget hheld => ?_, fun thread' hmem => ?_⟩
    · have hbefore := hone.finds thread' htarget (hlower.run hrest hheld)
      rw [hall.finds thread' htarget hheld, hbefore, hs₁]
      simp only [QueriesAnswered, or_false, or_assoc]
    · rcases hall.targets _ hmem with hmem | htarget
      · exact hone.targets _ hmem
      · exact .inr htarget

/-- An enumeration finds the threads that are held suspended where it is answered for them, and
has targets only to suspend. -/
theorem Jvm.Lawful.fetchThreads_sorts {fetched : Fetched} {s t : ThreadPause J}
    (honly : TargetsOnly agentThread daemon held s.jvm)
    (h : fetchThreads jvm agentThread s = (some fetched, t)) :
    (∀ thread, held t.jvm thread →
      (thread ∈ fetched.suspended ↔ AnsweredFor jvm agentThread s thread)) ∧
      ∀ thread ∈ fetched.toSuspend, Target agentThread daemon thread := by
  obtain ⟨threadsRaw, s₁, s₂, hall, hmalloc, hfold⟩ := fetchThreads_some h
  have hsorts := hjvm.foldlM_sorts hfold
  refine ⟨fun thread hheld => ?_, fun thread hmem => ?_⟩
  · have htarget := honly thread ((hjvm.lowers_fetchThreads agentThread).run h hheld)
    rw [hsorts.finds thread htarget hheld, or_iff_right List.not_mem_nil]
    obtain ⟨hsome, rfl⟩ := call_eq.mp hall
    obtain ⟨-, rfl⟩ := call_eq.mp hmalloc
    have hresult : (call jvm.getAllThreads).result s = some threadsRaw := hsome
    unfold AnsweredFor
    rw [hresult]
    exact Iff.rfl
  · exact (hsorts.targets thread hmem).resolve_left List.not_mem_nil

/-! ## A pause -/

omit hjvm in
theorem fetchThreads_suspended (jvm : Jvm J) (agentThread : Option JThread) :
    Keeps ThreadPause.suspended (fetchThreads jvm agentThread) := by
  have hclass : ∀ thread, Keeps ThreadPause.suspended (classifyThread jvm agentThread thread) := by
    intro thread
    refine .ite (.pure _) (.bind (suspended_call _) fun info => ?_)
    cases info with
    | none => exact .pure _
    | some isDaemon => exact .pure _
  refine .bind (suspended_call _) fun threadsRaw => ?_
  cases threadsRaw with
  | none => exact .pure _
  | some threadsRaw =>
    exact .bind (suspended_call _) fun _ => .ite (.pure _) (.bind (.foldlM (fun _ thread =>
      .bind (hclass thread) fun _ => .ite (.pure _) (.bind (suspended_call _) fun _ =>
        .ite (.pure _) (.pure _))) _ _) fun _ => .pure _)

omit hjvm in
/-- The state in which the remaining iterations end. -/
theorem suspendIterations_final (agentThread : Option JThread) (left : Nat) (s : ThreadPause J) :
    (suspendIterations jvm agentThread left).final s =
      let s₁ := (fetchThreads jvm agentThread).final s
      match (fetchThreads jvm agentThread).result s with
      | none => s₁
      | some fetched =>
        let s₂ := (buildSnapshot jvm fetched.suspended).final s₁
        match left with
        | 0 => s₂
        | left + 1 =>
          if fetched.toSuspend.length = 0 then s₂
          else
            let results := call (jvm.malloc (fetched.toSuspend.length * jvmtiErrorSize))
            if results.result s₁ then
              (suspendIterations jvm agentThread left).final
                ((call (jvm.suspendThreadList fetched.toSuspend)).final (results.final s₁))
            else results.final s₁ := by
  cases left with
  | zero =>
    simp only [suspendIterations, convergenceCheck, final_bind, final_pure]
    cases (fetchThreads jvm agentThread).result s with
    | none => rfl
    | some fetched =>
      simp only [final_bind, final_ite, final_pure, ite_self]
  | succ left =>
    simp only [suspendIterations, suspendNewThreads, final_bind, result_bind]
    cases (fetchThreads jvm agentThread).result s with
    | none => rfl
    | some fetched =>
      simp only [final_bind, final_ite, final_pure, result_bind, result_ite, result_pure]
      by_cases hnone : fetched.toSuspend.length = 0
      · simp only [hnone, if_true]
        cases (buildSnapshot jvm fetched.suspended).result
          ((fetchThreads jvm agentThread).final s) <;> rfl
      · simp only [hnone, if_false]
        cases (call (jvm.malloc (fetched.toSuspend.length * jvmtiErrorSize))).result
          ((fetchThreads jvm agentThread).final s) <;> rfl

omit hjvm in
theorem TargetsOnly.mono {j j' : J} (h : TargetsOnly agentThread daemon held j)
    (hle : ∀ thread, held j' thread → held j thread) : TargetsOnly agentThread daemon held j' :=
  fun thread hheld => h thread (hle thread hheld)

omit hjvm in
theorem withinReach_iff {s t : ThreadPause J} (h : t.suspended = s.suspended) :
    WithinReach held t ↔ ∀ thread, held t.jvm thread → thread ∈ s.suspended := by
  unfold WithinReach
  rw [h]

/-- An iteration that suspends threads keeps to the targets. -/
theorem Jvm.Lawful.suspend_targetsOnly {threads : List JThread} {s : ThreadPause J}
    (honly : TargetsOnly agentThread daemon held s.jvm)
    (htargets : ∀ thread ∈ threads, Target agentThread daemon thread) :
    TargetsOnly agentThread daemon held
      ((call (jvm.suspendThreadList threads)).final s).jvm := by
  intro thread hheld
  rcases hjvm.suspends _ _ _ hheld with hheld | hmem
  · exact honly thread hheld
  · exact htargets thread hmem

/-- The recording puts the threads that are held within reach exactly if it is harmless: one that
fails records none. -/
theorem Jvm.Lawful.buildSnapshot_within_reach {fetched : Fetched} {s : ThreadPause J}
    (hfinds : ∀ thread, held ((fetchThreads jvm agentThread).final s).jvm thread →
      (thread ∈ fetched.suspended ↔ AnsweredFor jvm agentThread s thread)) :
    WithinReach held ((buildSnapshot jvm fetched.suspended).final
        ((fetchThreads jvm agentThread).final s)) ↔
      RecordingHarmless jvm held agentThread s fetched := by
  unfold WithinReach RecordingHarmless
  rw [buildSnapshot_suspended]
  simp only
  split
  · refine forall₂_congr fun thread hheld => ?_
    exact hfinds thread (hjvm.lowers_buildSnapshot _ _ thread hheld)
  · refine forall_congr' fun thread => ⟨fun h hheld => ?_, fun h hheld => absurd hheld h⟩
    exact List.not_mem_nil (h hheld)

/-- What the remaining iterations leave behind: targets only are held, and they are recorded
exactly if no iteration leaves a thread out of reach. -/
theorem Jvm.Lawful.suspendIterations_spec (left : Nat) {s : ThreadPause J}
    (honly : TargetsOnly agentThread daemon held s.jvm) :
    TargetsOnly agentThread daemon held
        ((suspendIterations jvm agentThread left).final s).jvm ∧
      (WithinReach held ((suspendIterations jvm agentThread left).final s) ↔
        PauseHarmless jvm held agentThread left s) := by
  induction left generalizing s with
  | zero =>
    rw [suspendIterations_final]
    unfold PauseHarmless
    have honly₁ := honly.mono (hjvm.lowers_fetchThreads agentThread s)
    have hkept := fetchThreads_suspended jvm agentThread s
    cases hf : (fetchThreads jvm agentThread).result s with
    | none =>
      exact ⟨honly₁, withinReach_iff hkept⟩
    | some fetched =>
      have hsorts := hjvm.fetchThreads_sorts honly (Prod.ext hf rfl)
      exact ⟨honly₁.mono (hjvm.lowers_buildSnapshot _ _), hjvm.buildSnapshot_within_reach hsorts.1⟩
  | succ left ih =>
    rw [suspendIterations_final]
    unfold PauseHarmless
    have honly₁ := honly.mono (hjvm.lowers_fetchThreads agentThread s)
    have hkept := fetchThreads_suspended jvm agentThread s
    cases hf : (fetchThreads jvm agentThread).result s with
    | none =>
      exact ⟨honly₁, withinReach_iff hkept⟩
    | some fetched =>
      have hsorts := hjvm.fetchThreads_sorts honly (Prod.ext hf rfl)
      by_cases hnone : fetched.toSuspend.length = 0
      · simp only [hnone, if_true]
        exact ⟨honly₁.mono (hjvm.lowers_buildSnapshot _ _),
          hjvm.buildSnapshot_within_reach hsorts.1⟩
      · simp only [hnone, if_false]
        -- threads to suspend are left: they are targets, and the next iteration looks again
        have honly₂ := honly₁.mono (lowers_call (hjvm.malloc
          (fetched.toSuspend.length * jvmtiErrorSize)) _)
        split
        · exact ih (hjvm.suspend_targetsOnly honly₂ hsorts.2)
        · exact ⟨honly₂, withinReach_iff ((suspended_call _ _).trans hkept)⟩

/-! ## A resume -/

theorem Jvm.Lawful.resumeThreads_frees {threads : List JThread} {s : ThreadPause J}
    {thread : JThread} (h : held ((resumeThreads jvm threads).final s).jvm thread) :
    held s.jvm thread ∧ thread ∉ threads := by
  induction threads generalizing s with
  | nil => exact ⟨h, List.not_mem_nil⟩
  | cons thread' threads ih =>
    obtain ⟨hheld, hnot⟩ := ih h
    obtain ⟨hheld, hne⟩ := hjvm.resumes _ _ _ (lowers_call (hjvm.deleteGlobalRef thread') _ _ hheld)
    exact ⟨hheld, List.not_mem_cons_of_ne_of_not_mem hne hnot⟩

/-- A resume resumes the threads that are recorded. -/
theorem Jvm.Lawful.psThreadPauseResume_held {s : ThreadPause J} {thread : JThread}
    (h : held ((psThreadPauseResume jvm).final s).jvm thread) :
    held s.jvm thread ∧ thread ∉ s.suspended := by
  unfold psThreadPauseResume at h
  rw [final_bind, result_read, final_read, final_ite] at h
  split at h
  · next hnil =>
    rw [List.length_eq_zero_iff.mp hnil]
    exact ⟨h, List.not_mem_nil⟩
  · exact hjvm.resumeThreads_frees h

/-- A resume of the threads that are within reach leaves none suspended. -/
theorem Jvm.Lawful.psThreadPauseResume_frees {s : ThreadPause J} (h : WithinReach held s)
    (thread : JThread) : ¬ held ((psThreadPauseResume jvm).final s).jvm thread := by
  intro hheld
  obtain ⟨hheld, hnot⟩ := hjvm.psThreadPauseResume_held hheld
  exact hnot (h thread hheld)

end

/-! ## Runs of the server -/

variable [DecidableEq C] (env : Env) (jvm) (held)

/-- When the event is a pause request, the pause is harmless. -/
def HarmlessPause (s : ProfServer J C) : ServerEvent C → Prop
  | .dispatch (.usrRq _ .pauseThreads) =>
    PauseHarmless jvm held s.agentThread maxSuspendIterations s.threadPause
  | _ => True

/-- Every thread that is held is recorded, and a resume leaves none suspended. -/
def Resumable (t : ThreadPause J) : Prop :=
  WithinReach held t ∧ ∀ thread, ¬ held ((psThreadPauseResume jvm).final t).jvm thread

variable {jvm held}

theorem Jvm.Lawful.resumable_iff (hjvm : jvm.Lawful daemon held) {t : ThreadPause J} :
    Resumable jvm held t ↔ WithinReach held t :=
  ⟨And.left, fun h => ⟨h, hjvm.psThreadPauseResume_frees h⟩⟩

/-- No other event holds a thread, and none takes a thread that stays held off the record. -/
def Relaxes (held : J → JThread → Prop) (s t : ThreadPause J) : Prop :=
  ∀ thread, held t.jvm thread → held s.jvm thread ∧ (thread ∈ s.suspended → thread ∈ t.suspended)

theorem Relaxes.of_eq {s t : ThreadPause J} (h : t = s) : Relaxes held s t := by
  rw [h]
  exact fun _ hheld => ⟨hheld, id⟩

theorem respond_threadPause (client : C) (r : Option UserMsg) (s : ProfServer J C) :
    ((respond client r).final s).threadPause = s.threadPause := by
  rw [respond_final]

omit [DecidableEq C] in
theorem Jvm.Lawful.jniGetProfilerStats_relaxes (hjvm : jvm.Lawful daemon held)
    (s : ProfServer J C) :
    Relaxes held s.threadPause ((jniGetProfilerStats jvm).final s).threadPause := by
  unfold jniGetProfilerStats
  rw [final_bind]
  split
  · exact fun thread hheld => ⟨hjvm.getStats _ _ hheld, id⟩
  · exact fun thread hheld => ⟨hjvm.getStats _ _ (hjvm.malloc _ _ _ hheld), id⟩

theorem Jvm.Lawful.resume_relaxes (hjvm : jvm.Lawful daemon held) (client : C)
    (s : ProfServer J C) :
    Relaxes held s.threadPause
      ((handleUsrRq env jvm client .resume).final s).threadPause := by
  have hfinal := handleUsrRqResume_final env jvm client s
  have hpause : ((handleUsrRq env jvm client .resume).final s).threadPause =
      if s.paused then s.threadPause
      else if 0 < s.threadPause.suspended.length then
        (psThreadPauseResume jvm).final s.threadPause
      else s.threadPause := by
    show ((handleUsrRqResume jvm client).final s).threadPause = _
    rw [hfinal, respond_threadPause]
    split
    · rfl
    · split <;> rfl
  rw [hpause]
  split
  · exact .of_eq rfl
  · split
    · intro thread hheld
      obtain ⟨hheld, hnot⟩ := hjvm.psThreadPauseResume_held hheld
      exact ⟨hheld, fun hmem => absurd hmem hnot⟩
    · exact .of_eq rfl

theorem Jvm.Lawful.getStats_relaxes (hjvm : jvm.Lawful daemon held) (client : C)
    (s : ProfServer J C) :
    Relaxes held s.threadPause
      ((handleUsrRq env jvm client .getStats).final s).threadPause := by
  have hstats := hjvm.jniGetProfilerStats_relaxes s
  simp only [handleUsrRq, handleUsrRqGetStats, final_bind]
  split
  · exact hstats
  · rw [final_bind, respond_threadPause]
    exact hstats

/-- An event is a pause request, or it leaves the threads that are held as they were, but for
those that a resume releases. -/
theorem Jvm.Lawful.serverStep_cases (hjvm : jvm.Lawful daemon held) (s : ProfServer J C)
    (e : ServerEvent C) :
    (∃ client, e = .dispatch (.usrRq client .pauseThreads)) ∨
      (HarmlessPause jvm held s e ∧
        Relaxes held s.threadPause (serverStep env jvm s e).threadPause) := by
  cases e with
  | closed client => exact .inr ⟨trivial, .of_eq rfl⟩
  | dispatch msg =>
    cases msg with
    | usrRq client rq =>
      cases rq with
      | pauseThreads => exact .inl ⟨client, rfl⟩
      | resume => exact .inr ⟨trivial, hjvm.resume_relaxes env client s⟩
      | getStats => exact .inr ⟨trivial, hjvm.getStats_relaxes env client s⟩
      | _ => exact .inr ⟨trivial, .of_eq (respond_threadPause client _ _)⟩
    | _ => exact .inr ⟨trivial, .of_eq rfl⟩

theorem respond_agentThread (client : C) (r : Option UserMsg) (s : ProfServer J C) :
    ((respond client r).final s).agentThread = s.agentThread := by
  rw [respond_final]

theorem serverStep_agentThread (s : ProfServer J C) (e : ServerEvent C) :
    (serverStep env jvm s e).agentThread = s.agentThread := by
  cases e with
  | closed client => rfl
  | dispatch msg =>
    cases msg with
    | usrRq client rq =>
      cases rq with
      | resume =>
        refine (congrArg ProfServer.agentThread (handleUsrRqResume_final env jvm client s)).trans ?_
        rw [respond_agentThread]
        split
        · rfl
        · split <;> rfl
      | getStats =>
        show ((handleUsrRqGetStats env jvm client).final s).agentThread = s.agentThread
        have hstats : ((jniGetProfilerStats jvm).final s).agentThread = s.agentThread := by
          unfold jniGetProfilerStats
          rw [final_bind]
          split <;> rfl
        simp only [handleUsrRqGetStats, final_bind]
        split
        · exact hstats
        · rw [final_bind, respond_agentThread]
          exact hstats
      | _ => exact respond_agentThread client _ _
    | _ => rfl

/-- A pause request leaves targets only held, and all within reach exactly if it is harmless. -/
theorem Jvm.Lawful.serverStep_pause (hjvm : jvm.Lawful daemon held) {s : ProfServer J C}
    (client : C) (honly : TargetsOnly s.agentThread daemon held s.threadPause.jvm) :
    let t := serverStep env jvm s (.dispatch (.usrRq client .pauseThreads))
    TargetsOnly s.agentThread daemon held t.threadPause.jvm ∧
      (WithinReach held t.threadPause ↔
        HarmlessPause jvm held s (.dispatch (.usrRq client .pauseThreads))) := by
  have hpause : (serverStep env jvm s (.dispatch (.usrRq client .pauseThreads))).threadPause =
      (psThreadPauseSuspend jvm s.agentThread).final s.threadPause :=
    respond_threadPause client _ _
  intro t
  rw [hpause]
  exact hjvm.suspendIterations_spec maxSuspendIterations honly

/-- Targets only are held, and they are within reach. -/
def AllWithinReach (daemon : JThread → Bool) (held : J → JThread → Prop)
    (s : ProfServer J C) : Prop :=
  TargetsOnly s.agentThread daemon held s.threadPause.jvm ∧ WithinReach held s.threadPause

/-- From a state where all that is held is within reach, it stays so over an event exactly if
the event is no pause or a harmless one. -/
theorem Jvm.Lawful.serverStep_reached (hjvm : jvm.Lawful daemon held) {s : ProfServer J C}
    (e : ServerEvent C) (h : AllWithinReach daemon held s) :
    TargetsOnly s.agentThread daemon held (serverStep env jvm s e).threadPause.jvm ∧
      (WithinReach held (serverStep env jvm s e).threadPause ↔ HarmlessPause jvm held s e) := by
  rcases hjvm.serverStep_cases env s e with ⟨client, rfl⟩ | ⟨hharmless, hrelaxes⟩
  · exact hjvm.serverStep_pause env client h.1
  · refine ⟨h.1.mono fun thread hheld => (hrelaxes thread hheld).1, iff_of_true ?_ hharmless⟩
    intro thread hheld
    obtain ⟨hbefore, hkept⟩ := hrelaxes thread hheld
    exact hkept (h.2 thread hbefore)

/-- A pause, from any state in which targets only are held and whatever the JVM does during
it, leaves each thread that is held recorded and for the next resume to resume, if and only
if no iteration fails with such a thread out of reach and the last enumeration is answered for
each. In every run of the server, no thread is ever left out of reach if and only if no pause of
the run does so. -/
theorem pause_within_reach (hjvm : jvm.Lawful daemon held) (agentThread : Option JThread) :
    (∀ s : ThreadPause J, TargetsOnly agentThread daemon held s.jvm →
      (Resumable jvm held ((psThreadPauseSuspend jvm agentThread).final s) ↔
        PauseHarmless jvm held agentThread maxSuspendIterations s)) ∧
    ∀ (env : Env) (pauseOnStart : Bool) (j : J) (es : List (ServerEvent C)),
      (∀ thread, ¬ held j thread) →
      (Runs.Along (serverStep env jvm)
          (fun s e => Resumable jvm held (serverStep env jvm s e).threadPause)
          (psInit C pauseOnStart agentThread j) es ↔
        Runs.Along (serverStep env jvm) (HarmlessPause jvm held)
          (psInit C pauseOnStart agentThread j) es) := by
  refine ⟨fun s honly => ?_, fun env pauseOnStart j es hstart => ?_⟩
  · exact hjvm.resumable_iff.trans (hjvm.suspendIterations_spec maxSuspendIterations honly).2
  · have hinit : AllWithinReach daemon held (psInit C pauseOnStart agentThread j) :=
      ⟨fun thread hheld => absurd hheld (hstart thread),
        fun thread hheld => absurd hheld (hstart thread)⟩
    constructor
    · refine Runs.Along.mono_inv (AllWithinReach daemon held) (fun s e h hafter => ?_)
        (fun s e h hafter => ?_) hinit
      · refine ⟨?_, hafter.1⟩
        rw [serverStep_agentThread]
        exact (hjvm.serverStep_reached env e h).1
      · exact (hjvm.serverStep_reached env e h).2.mp hafter.1
    · refine Runs.Along.mono_inv (AllWithinReach daemon held) (fun s e h hharmless => ?_)
        (fun s e h hharmless => ?_) hinit
      · obtain ⟨honly, hreach⟩ := hjvm.serverStep_reached env e h
        refine ⟨?_, hreach.mpr hharmless⟩
        rw [serverStep_agentThread]
        exact honly
      · exact hjvm.resumable_iff.mpr ((hjvm.serverStep_reached env e h).2.mpr hharmless)

/-! ## A JVM whose enumerations may fail -/

/-- A JVM with one application thread: the number of enumerations so far, and whether the
thread is suspended. -/
structure Enumerations where
  count : Nat
  suspended : Bool

/-- The enumerations for which `fails` holds fail. -/
def oneThreadFailing (fails : Nat → Bool) : Jvm Enumerations where
  malloc _ := pure true
  getAllThreads := do
    let n ← .read Enumerations.count
    .update fun j => { j with count := n + 1 }
    pure (if fails n then none else some [1])
  getThreadInfo _ := pure (some false)
  getThreadState _ := .read fun j => some (if j.suspended then jvmtiThreadStateSuspended else 0)
  suspendThreadList threads :=
    .update fun j => { j with suspended := j.suspended || threads.contains 1 }
  resumeThread thread := .update fun j => { j with suspended := j.suspended && thread != 1 }
  newGlobalRef _ := pure true
  deleteGlobalRef _ := pure ()
  getStats := pure (some [])

/-- The one thread is suspended. -/
def Enumerations.Held (j : Enumerations) (thread : JThread) : Prop :=
  thread = 1 ∧ j.suspended = true

theorem oneThreadFailing_lawful (fails : Nat → Bool) :
    (oneThreadFailing fails).Lawful (fun _ => false) Enumerations.Held where
  malloc _ := .pure _
  getAllThreads := fun _ _ h => h
  getThreadInfo _ := .pure _
  getThreadState _ := .read _
  newGlobalRef _ := .pure _
  deleteGlobalRef _ := .pure _
  getStats := .pure _
  suspends := by
    rintro threads j thread ⟨rfl, h⟩
    rcases (Bool.or_eq_true _ _).mp h with h | h
    · exact .inl ⟨rfl, h⟩
    · exact .inr (List.contains_iff_mem.mp h)
  resumes := by
    rintro thread j thread' ⟨rfl, h⟩
    obtain ⟨h, hne⟩ := (Bool.and_eq_true _ _).mp h
    exact ⟨⟨rfl, h⟩, (bne_iff_ne.mp hne).symm⟩
  is_daemon := by
    rintro thread j b h
    cases h
    rfl
  is_suspended := by
    rintro thread j state h ⟨-, hsuspended⟩
    have hbits : some (if j.suspended then jvmtiThreadStateSuspended else 0) = some state := h
    have hsuspended' : j.suspended = true := hsuspended
    rw [if_pos hsuspended'] at hbits
    cases hbits
    decide

/-- Where no enumeration fails, the thread is paused, and resumed by the next request. -/
theorem pause_within_reach_steady :
    Runs.Along (serverStep Env.smooth (oneThreadFailing fun _ => false))
      (fun s e => Resumable (oneThreadFailing fun _ => false) Enumerations.Held
        (serverStep Env.smooth (oneThreadFailing fun _ => false) s e).threadPause)
      (psInit Nat false none ⟨0, false⟩)
      [.dispatch (.usrRq 0 .pauseThreads), .dispatch (.usrRq 0 .resume)] :=
  ((pause_within_reach (oneThreadFailing_lawful fun _ => false) none).2 Env.smooth false ⟨0, false⟩ _
    fun _ h => Bool.noConfusion h.2).mpr
    ⟨fun _ h => .inl ⟨h.1.symm, rfl, rfl⟩, trivial, trivial⟩

/-- The second enumeration fails. The first iteration has suspended the thread, the pause
returns `PS_SUSPEND_ERROR`, and a resume does not find the thread. -/
theorem pause_loses_thread :
    (oneThreadFailing fun n => n == 1).Lawful (fun _ => false) Enumerations.Held ∧
      (psThreadPauseSuspend (oneThreadFailing fun n => n == 1) none).result ⟨[], 0, false⟩ =
        .error ∧
      ¬ Resumable (oneThreadFailing fun n => n == 1) Enumerations.Held
        ((psThreadPauseSuspend (oneThreadFailing fun n => n == 1) none).final ⟨[], 0, false⟩) :=
  ⟨oneThreadFailing_lawful _, rfl, fun h => absurd (h.1 1 ⟨rfl, rfl⟩) List.not_mem_nil⟩

end JautoProf
