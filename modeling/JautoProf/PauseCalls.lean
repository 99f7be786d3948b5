import JautoProf.Suspensions

/-!
# The calls of a pause (`ps-thread-state.c`)

The calls of JVMTI and JNI are recorded with their results, so that what a pause reports can
be compared with what the JVM told it. Pauses, resumes and changes of the JVM follow each
other in any order.

Results:
1. `RefsBalanced.step`: each global reference that was created was deleted once, or is that of a
   recorded thread.
2. `Surveyed.accounts_iff`: what the loop over an enumeration makes of it.
3. `pause_accounts`: a pause that succeeds has recorded the threads of its final enumeration
   that it is for, if and only if `GetThreadInfo` failed on none of them; and a resume resumes
   each recorded thread once. `pause_overlooks`: a thread on which it failed runs on.
-/

namespace JautoProf

variable {J : Type}

/-! ## Recorded calls -/

/-- A call of JVMTI or JNI, and its result. -/
inductive PauseCall
  | getAllThreads (threads : Option (List JThread))
  | getThreadInfo (thread : JThread) (isDaemon : Option Bool)
  | getThreadState (thread : JThread) (state : Option UInt32)
  | suspendThreadList (threads : List JThread)
  | resumeThread (thread : JThread)
  | newGlobalRef (thread : JThread) (ok : Bool)
  | deleteGlobalRef (thread : JThread)

/-- A JVM, and the calls so far. -/
structure Traced (J : Type) where
  inner : J
  calls : List PauseCall

/-- The call is recorded. -/
def Traced.log {α : Type} (c : Prog J α) (f : α → PauseCall) : Prog (Traced J) α :=
  fun s => (c.result s.inner, ⟨c.final s.inner, s.calls ++ [f (c.result s.inner)]⟩)

/-- And another is not. -/
def Traced.pass {α : Type} (c : Prog J α) : Prog (Traced J) α :=
  .zoom Traced.inner (fun j s => { s with inner := j }) c

def Jvm.traced (jvm : Jvm J) : Jvm (Traced J) where
  malloc size := Traced.pass (jvm.malloc size)
  getAllThreads := Traced.log jvm.getAllThreads .getAllThreads
  getThreadInfo thread := Traced.log (jvm.getThreadInfo thread) (.getThreadInfo thread)
  getThreadState thread := Traced.log (jvm.getThreadState thread) (.getThreadState thread)
  suspendThreadList threads :=
    Traced.log (jvm.suspendThreadList threads) fun _ => .suspendThreadList threads
  resumeThread thread := Traced.log (jvm.resumeThread thread) fun _ => .resumeThread thread
  newGlobalRef thread := Traced.log (jvm.newGlobalRef thread) (.newGlobalRef thread)
  deleteGlobalRef thread := Traced.log (jvm.deleteGlobalRef thread) fun _ => .deleteGlobalRef thread
  getStats := Traced.pass jvm.getStats

namespace PauseCall

/-- The thread of the global reference that the call created. -/
def created : PauseCall → Option JThread
  | newGlobalRef thread true => some thread
  | _ => none

def deleted : PauseCall → Option JThread
  | deleteGlobalRef thread => some thread
  | _ => none

def resumed : PauseCall → Option JThread
  | resumeThread thread => some thread
  | _ => none

def isEnumeration : PauseCall → Bool
  | getAllThreads _ => true
  | _ => false

def enumerated : PauseCall → Option (List JThread)
  | getAllThreads threads => threads
  | _ => none

end PauseCall

/-- The threads that the last `GetAllThreads` returned. -/
def finalEnumeration (calls : List PauseCall) : Option (List JThread) :=
  (calls.reverse.find? PauseCall.isEnumeration).bind PauseCall.enumerated

/-- The calls after it. -/
def sinceEnumeration (calls : List PauseCall) : List PauseCall :=
  (calls.reverse.takeWhile fun c => !c.isEnumeration).reverse

theorem enumeration_split (pre : List PauseCall) {post : List PauseCall}
    (threads : Option (List JThread))
    (hpost : ∀ c ∈ post, c.isEnumeration = false) :
    finalEnumeration (pre ++ .getAllThreads threads :: post) = threads ∧
      sinceEnumeration (pre ++ .getAllThreads threads :: post) = post := by
  have hrev : (pre ++ .getAllThreads threads :: post).reverse =
      post.reverse ++ .getAllThreads threads :: pre.reverse := by
    rw [List.reverse_append, List.reverse_cons, List.append_assoc]
    rfl
  have hnone : ∀ c ∈ post.reverse, c.isEnumeration = false :=
    fun c hc => hpost c (List.mem_reverse.mp hc)
  constructor
  · unfold finalEnumeration
    rw [hrev, List.find?_append, List.find?_eq_none.mpr fun c hc => by rw [hnone c hc]; decide]
    rfl
  · unfold sinceEnumeration
    rw [hrev, List.takeWhile_append_of_pos fun c hc => by rw [hnone c hc]; rfl,
      List.takeWhile_cons_of_neg Bool.false_ne_true, List.append_nil, List.reverse_reverse]

/-! ## The references -/

/-- Each global reference that was created was deleted once, or is that of a recorded thread. -/
def RefsBalanced (s : ThreadPause (Traced J)) : Prop :=
  (s.jvm.calls.filterMap PauseCall.created).Perm
    (s.jvm.calls.filterMap PauseCall.deleted ++ s.suspended)

/-- The references that were created and deleted, and the recorded threads. -/
def references (s : ThreadPause (Traced J)) : List JThread × List JThread × List JThread :=
  (s.jvm.calls.filterMap PauseCall.created, s.jvm.calls.filterMap PauseCall.deleted, s.suspended)

open ThreadPause Prog

variable {jvm : Jvm J} {s t : ThreadPause (Traced J)} {c d : List JThread}

theorem RefsBalanced.of_references {l : List JThread} (h : references s = (c, d, l))
    (hperm : c.Perm (d ++ l)) : RefsBalanced s := by
  simp only [references, Prod.mk.injEq] at h
  obtain ⟨hc, hd, hl⟩ := h
  unfold RefsBalanced
  rwa [hc, hd, hl]

theorem RefsBalanced.of_eq (h : RefsBalanced s) (heq : references t = references s) :
    RefsBalanced t :=
  .of_references heq h

theorem references_log {α : Type} (c : Prog J α) (f : α → PauseCall)
    (s : ThreadPause (Traced J)) :
    references ((call (Traced.log c f)).final s) =
      ((references s).1 ++ (f (c.result s.jvm.inner)).created.toList,
        (references s).2.1 ++ (f (c.result s.jvm.inner)).deleted.toList, s.suspended) := by
  have hcalls : ((call (Traced.log c f)).final s).jvm.calls =
      s.jvm.calls ++ [f (c.result s.jvm.inner)] := rfl
  unfold references
  rw [hcalls, List.filterMap_append, List.filterMap_append]
  congr 2

theorem references_record (threads : List JThread) (s : ThreadPause (Traced J)) :
    references ((record threads).final s) = ((references s).1, (references s).2.1, threads) := rfl

/-- A call that neither creates nor deletes a reference. -/
theorem keeps_references {α : Type} {c : Prog J α} {f : α → PauseCall}
    (hcreated : ∀ a, (f a).created = none) (hdeleted : ∀ a, (f a).deleted = none) :
    Keeps references (call (Traced.log c f)) := by
  intro s
  rw [references_log, hcreated, hdeleted]
  simp [references]

theorem keeps_references_pass {α : Type} (c : Prog J α) :
    Keeps references (call (Traced.pass c)) := fun _ => rfl

theorem keeps_fetchThread (agentThread : Option JThread) (acc : Fetched) (thread : JThread) :
    Keeps references (fetchThread jvm.traced agentThread acc thread) := by
  refine .bind (.ite (.pure _) (.bind (keeps_references (fun _ => rfl) fun _ => rfl) fun info => ?_))
    fun _ => .ite (.pure _) (.bind (keeps_references (fun _ => rfl) fun _ => rfl) fun _ =>
      .ite (.pure _) (.pure _))
  cases info with
  | none => exact .pure _
  | some isDaemon => exact .pure _

theorem keeps_fetchThreads (agentThread : Option JThread) :
    Keeps references (fetchThreads jvm.traced agentThread) := by
  refine .bind (keeps_references (fun _ => rfl) fun _ => rfl) fun threadsRaw => ?_
  cases threadsRaw with
  | none => exact .pure _
  | some threadsRaw =>
    exact .bind (keeps_references_pass _) fun _ =>
      .ite (.pure _) (.bind (.foldlM (keeps_fetchThread agentThread) _ _) fun _ => .pure _)

variable (jvm) in
theorem deleteGlobalRefs_references (threads : List JThread) (s : ThreadPause (Traced J)) :
    references ((deleteGlobalRefs jvm.traced threads).final s) =
      ((references s).1, (references s).2.1 ++ threads, s.suspended) := by
  induction threads generalizing s with
  | nil => simp [references, deleteGlobalRefs]
  | cons thread threads ih =>
    have hcall := references_log (jvm.deleteGlobalRef thread) (fun _ => .deleteGlobalRef thread) s
    refine (ih _).trans ?_
    simp only [Jvm.traced, hcall, PauseCall.created, PauseCall.deleted, suspended_call]
    simp

variable (jvm) in
/-- The loop of `build_snapshot` records what it created. -/
theorem newGlobalRefs_references (threads : List JThread) (s : ThreadPause (Traced J)) :
    ∃ new, references ((newGlobalRefs jvm.traced threads).final s) =
      ((references s).1 ++ new, (references s).2.1, s.suspended ++ new) := by
  induction threads generalizing s with
  | nil => exact ⟨[], by simp [references, newGlobalRefs]⟩
  | cons thread threads ih =>
    have hcall := references_log (jvm.newGlobalRef thread) (.newGlobalRef thread) s
    unfold newGlobalRefs
    rw [final_bind, final_ite]
    cases hok : (jvm.newGlobalRef thread).result s.jvm.inner with
    | false =>
      rw [hok] at hcall
      refine ⟨[], ?_⟩
      rw [if_pos (by show (!(jvm.newGlobalRef thread).result s.jvm.inner) = true; rw [hok]; rfl)]
      refine hcall.trans ?_
      simp [PauseCall.created, PauseCall.deleted]
    | true =>
      rw [hok] at hcall
      rw [if_neg (by show ¬ (!(jvm.newGlobalRef thread).result s.jvm.inner) = true; rw [hok]; decide)]
      obtain ⟨new, hnew⟩ := ih ((record (s.suspended ++ [thread])).final
        ((call (jvm.traced.newGlobalRef thread)).final s))
      refine ⟨thread :: new, hnew.trans ?_⟩
      have hcall : references ((call (jvm.traced.newGlobalRef thread)).final s) =
          ((references s).1 ++ [thread], (references s).2.1 ++ [], s.suspended) := hcall
      rw [references_record, hcall]
      simp

variable (jvm) in
theorem RefsBalanced.buildSnapshot (h : RefsBalanced s) (snapshot : List JThread) :
    RefsBalanced ((buildSnapshot jvm.traced snapshot).final s) := by
  have hdelete := deleteGlobalRefs_references jvm s.suspended s
  unfold JautoProf.buildSnapshot
  simp only [final_bind, final_ite, result_read, final_read]
  generalize (deleteGlobalRefs jvm.traced s.suspended).final s = s₁ at hdelete
  have hrecord := references_record [] s₁
  rw [hdelete] at hrecord
  generalize (record []).final s₁ = s₂ at hrecord
  split
  · exact .of_references hrecord (by rw [List.append_nil]; exact h)
  · have hmalloc : references ((call (jvm.traced.malloc (snapshot.length * jthreadSize))).final s₂) =
        references s₂ := rfl
    rw [hrecord] at hmalloc
    generalize (call (jvm.traced.malloc (snapshot.length * jthreadSize))).final s₂ = s₃ at hmalloc
    split
    · exact .of_references hmalloc (by rw [List.append_nil]; exact h)
    · obtain ⟨new, hnew⟩ := newGlobalRefs_references jvm snapshot s₃
      have hempty : s₃.suspended = [] := congrArg (·.2.2) hmalloc
      rw [hmalloc, hempty, List.nil_append] at hnew
      have hbalanced : ((references s).1 ++ new).Perm
          ((references s).2.1 ++ s.suspended ++ new) := h.append_right new
      generalize (newGlobalRefs jvm.traced snapshot).final s₃ = s₄ at hnew
      split
      · exact .of_references hnew hbalanced
      · have hfail := deleteGlobalRefs_references jvm s₄.suspended s₄
        have hrecorded : s₄.suspended = new := congrArg (·.2.2) hnew
        rw [hnew] at hfail
        have hcleared : references ((record []).final
            ((deleteGlobalRefs jvm.traced s₄.suspended).final s₄)) =
              ((references s).1 ++ new, (references s).2.1 ++ s.suspended ++ new, []) := by
          rw [references_record, hfail, hrecorded]
        exact .of_references hcleared (by rw [List.append_nil]; exact hbalanced)

variable (jvm) in
theorem RefsBalanced.suspendNewThreads (h : RefsBalanced s) (agentThread : Option JThread) :
    RefsBalanced ((suspendNewThreads jvm.traced agentThread).final s) := by
  have hfetch : RefsBalanced ((fetchThreads jvm.traced agentThread).final s) :=
    h.of_eq (keeps_fetchThreads agentThread s)
  unfold JautoProf.suspendNewThreads
  rw [final_bind]
  cases (fetchThreads jvm.traced agentThread).result s with
  | none => exact hfetch
  | some fetched =>
    dsimp only
    rw [final_ite]
    split
    · exact hfetch.buildSnapshot jvm fetched.suspended
    · rw [final_bind, final_ite]
      split
      · exact hfetch
      · exact hfetch.of_eq (keeps_references (fun _ => rfl) (fun _ => rfl) _)

theorem RefsBalanced.convergenceCheck (h : RefsBalanced s) (agentThread : Option JThread) :
    RefsBalanced ((convergenceCheck jvm.traced agentThread).final s) := by
  have hfetch : RefsBalanced ((fetchThreads jvm.traced agentThread).final s) :=
    h.of_eq (keeps_fetchThreads agentThread s)
  unfold JautoProf.convergenceCheck
  rw [final_bind]
  cases (fetchThreads jvm.traced agentThread).result s with
  | none => exact hfetch
  | some fetched =>
    have hbuilt := hfetch.buildSnapshot jvm fetched.suspended
    dsimp only
    rw [final_bind, final_ite]
    split
    · exact hbuilt
    · exact hbuilt

theorem RefsBalanced.suspendIterations (h : RefsBalanced s) (agentThread : Option JThread)
    (n : Nat) : RefsBalanced ((suspendIterations jvm.traced agentThread n).final s) := by
  induction n generalizing s with
  | zero => exact h.convergenceCheck agentThread
  | succ n ih =>
    have hstep := h.suspendNewThreads jvm agentThread
    unfold JautoProf.suspendIterations
    rw [final_bind]
    cases (JautoProf.suspendNewThreads jvm.traced agentThread).result s with
    | done => exact hstep
    | failed => exact hstep
    | again => exact ih hstep

/-! ## A resume -/

/-- The threads that were resumed, one call after the other. -/
def resumes (s : ThreadPause (Traced J)) : List JThread :=
  s.jvm.calls.filterMap PauseCall.resumed

theorem resumes_log {α : Type} (c : Prog J α) (f : α → PauseCall) (s : ThreadPause (Traced J)) :
    resumes ((call (Traced.log c f)).final s) =
      resumes s ++ (f (c.result s.jvm.inner)).resumed.toList := by
  have hcalls : ((call (Traced.log c f)).final s).jvm.calls =
      s.jvm.calls ++ [f (c.result s.jvm.inner)] := rfl
  unfold resumes
  rw [hcalls, List.filterMap_append]
  congr 1

variable (jvm) in
theorem resumeThreads_calls (threads : List JThread) (s : ThreadPause (Traced J)) :
    references ((resumeThreads jvm.traced threads).final s) =
        ((references s).1, (references s).2.1 ++ threads, s.suspended) ∧
      resumes ((resumeThreads jvm.traced threads).final s) = resumes s ++ threads := by
  induction threads generalizing s with
  | nil => simp [references, resumes, resumeThreads]
  | cons thread threads ih =>
    let c := Traced.log (jvm.resumeThread thread) fun _ => .resumeThread thread
    let d := Traced.log (jvm.deleteGlobalRef thread) fun _ => .deleteGlobalRef thread
    obtain ⟨hrefs, hresumes⟩ := ih ((call d).final ((call c).final s))
    refine ⟨hrefs.trans ?_, hresumes.trans ?_⟩
    · rw [references_log, references_log]
      simp [PauseCall.created, PauseCall.deleted]
    · rw [resumes_log, resumes_log]
      simp [PauseCall.resumed]

variable (jvm) in
/-- A resume resumes each recorded thread once, and deletes its reference. -/
theorem psThreadPauseResume_calls (s : ThreadPause (Traced J)) :
    resumes ((psThreadPauseResume jvm.traced).final s) = resumes s ++ s.suspended ∧
      references ((psThreadPauseResume jvm.traced).final s) =
        ((references s).1, (references s).2.1 ++ s.suspended, []) := by
  obtain ⟨hrefs, hresumes⟩ := resumeThreads_calls jvm s.suspended s
  unfold psThreadPauseResume
  rw [final_bind, result_read, final_read, final_ite]
  split
  · next hnil =>
    rw [List.length_eq_zero_iff.mp hnil, List.append_nil, List.append_nil]
    refine ⟨rfl, ?_⟩
    rw [← List.length_eq_zero_iff.mp hnil]
    rfl
  · refine ⟨hresumes, ?_⟩
    show references ((record []).final ((resumeThreads jvm.traced s.suspended).final s)) = _
    rw [references_record, hrefs]

variable (jvm) in
theorem RefsBalanced.psThreadPauseResume (h : RefsBalanced s) :
    RefsBalanced ((psThreadPauseResume jvm.traced).final s) :=
  .of_references (psThreadPauseResume_calls jvm s).2 (by rw [List.append_nil]; exact h)

/-! ## An enumeration -/

/-- What JVMTI promises of an enumeration: each thread once, and the `is_daemon` of a thread
does not change. -/
structure Jvm.Truthful (jvm : Jvm J) (daemon : JThread → Bool) : Prop where
  enumerates : ∀ j threads, jvm.getAllThreads.result j = some threads → threads.Nodup
  is_daemon : ∀ thread j b, (jvm.getThreadInfo thread).result j = some b → b = daemon thread

instance (agentThread : Option JThread) (daemon : JThread → Bool) (thread : JThread) :
    Decidable (Target agentThread daemon thread) := inferInstanceAs (Decidable (_ ∧ _))

/-- The thread is suspended. -/
def IsSuspended (state : UInt32) : Prop := state &&& jvmtiThreadStateSuspended ≠ 0

instance (state : UInt32) : Decidable (IsSuspended state) := inferInstanceAs (Decidable (_ ≠ _))

/-- The calls of the loop of `fetch_threads` for a thread, and the list that it comes to. -/
inductive Looked (agentThread : Option JThread) (daemon : JThread → Bool) (thread : JThread) :
    List PauseCall → Fetched → Prop
  | agent (h : agentThread = some thread) : Looked agentThread daemon thread [] ⟨[], []⟩
  | failed (h : agentThread ≠ some thread) :
      Looked agentThread daemon thread [.getThreadInfo thread none] ⟨[], []⟩
  | daemon (h : daemon thread = true) :
      Looked agentThread daemon thread [.getThreadInfo thread (some true)] ⟨[], []⟩
  | suspended (h : Target agentThread daemon thread) (state : UInt32) (hs : IsSuspended state) :
      Looked agentThread daemon thread
        [.getThreadInfo thread (some false), .getThreadState thread (some state)] ⟨[thread], []⟩
  | running (h : Target agentThread daemon thread) (state : Option UInt32)
      (hs : ∀ w, state = some w → ¬ IsSuspended w) :
      Looked agentThread daemon thread
        [.getThreadInfo thread (some false), .getThreadState thread state] ⟨[], [thread]⟩

/-- The same for the threads of an enumeration. -/
inductive Surveyed (agentThread : Option JThread) (daemon : JThread → Bool) :
    List JThread → List PauseCall → Fetched → Prop
  | nil : Surveyed agentThread daemon [] [] ⟨[], []⟩
  | cons {thread : JThread} {threads : List JThread} {cs cs' : List PauseCall} {f f' : Fetched}
      (h : Looked agentThread daemon thread cs f)
      (h' : Surveyed agentThread daemon threads cs' f') :
      Surveyed agentThread daemon (thread :: threads) (cs ++ cs')
        ⟨f.suspended ++ f'.suspended, f.toSuspend ++ f'.toSuspend⟩

variable {agentThread : Option JThread} {daemon : JThread → Bool} {threads : List JThread}
  {cs : List PauseCall} {f : Fetched}

/-- The threads that a pause is for. -/
def targets (agentThread : Option JThread) (daemon : JThread → Bool) (threads : List JThread) :
    List JThread := threads.filter fun thread => Target agentThread daemon thread

theorem targets_of_target {thread : JThread} (h : Target agentThread daemon thread) :
    targets agentThread daemon [thread] = [thread] := List.filter_cons_of_pos (decide_eq_true h)

theorem targets_of_not_target {thread : JThread} (h : ¬ Target agentThread daemon thread) :
    targets agentThread daemon [thread] = [] :=
  List.filter_cons_of_neg (by rw [decide_eq_true_iff]; exact h)

theorem targets_cons (thread : JThread) (threads : List JThread) :
    targets agentThread daemon (thread :: threads) =
      targets agentThread daemon [thread] ++ targets agentThread daemon threads :=
  List.filter_append [thread] threads

theorem Looked.sublist {thread : JThread} (h : Looked agentThread daemon thread cs f) :
    f.suspended.Sublist (targets agentThread daemon [thread]) := by
  cases h with
  | suspended h =>
    rw [targets_of_target h]
  | _ => exact List.nil_sublist _

theorem Surveyed.sublist (h : Surveyed agentThread daemon threads cs f) :
    f.suspended.Sublist (targets agentThread daemon threads) := by
  induction h with
  | nil => exact List.Sublist.refl _
  | cons h _ ih =>
    rw [targets_cons]
    exact h.sublist.append ih

theorem Looked.no_enumeration {thread : JThread} (h : Looked agentThread daemon thread cs f) :
    ∀ c ∈ cs, c.isEnumeration = false := by
  cases h <;> simp [PauseCall.isEnumeration]

theorem Surveyed.no_enumeration (h : Surveyed agentThread daemon threads cs f) :
    ∀ c ∈ cs, c.isEnumeration = false := by
  induction h with
  | nil => exact fun _ h => absurd h List.not_mem_nil
  | cons h _ ih =>
    intro c hc
    rcases List.mem_append.mp hc with hc | hc
    · exact h.no_enumeration c hc
    · exact ih c hc

/-- Each thread that was found suspended was reported so. -/
theorem Surveyed.reported (h : Surveyed agentThread daemon threads cs f) :
    ∀ thread ∈ f.suspended, ∃ state, .getThreadState thread (some state) ∈ cs ∧
      IsSuspended state := by
  induction h with
  | nil => exact fun _ h => absurd h List.not_mem_nil
  | @cons _ _ cs cs' f f' h _ ih =>
    intro thread hthread
    rcases List.mem_append.mp hthread with hthread | hthread
    · cases h with
      | suspended _ state hs =>
        rw [List.mem_singleton.mp hthread]
        exact ⟨state, List.mem_append_left _ (by simp), hs⟩
      | _ => exact absurd hthread List.not_mem_nil
    · obtain ⟨state, hmem, hs⟩ := ih thread hthread
      exact ⟨state, List.mem_append_right _ hmem, hs⟩

theorem Looked.accounts_iff {thread : JThread} (h : Looked agentThread daemon thread cs f)
    (hnone : f.toSuspend = []) :
    f.suspended = targets agentThread daemon [thread] ↔
      ∀ thread', Target agentThread daemon thread' → .getThreadInfo thread' none ∉ cs := by
  cases h with
  | agent h =>
    rw [targets_of_not_target fun htarget => htarget.1 h]
    exact iff_of_true rfl fun _ _ => List.not_mem_nil
  | failed =>
    by_cases htarget : Target agentThread daemon thread
    · rw [targets_of_target htarget]
      exact iff_of_false (List.cons_ne_nil _ _).symm fun h =>
        h thread htarget (List.mem_singleton_self _)
    · rw [targets_of_not_target htarget]
      refine iff_of_true rfl fun thread' htarget' hmem => htarget ?_
      cases List.mem_singleton.mp hmem
      exact htarget'
  | daemon h =>
    rw [targets_of_not_target fun htarget => Bool.noConfusion (h.symm.trans htarget.2)]
    exact iff_of_true rfl fun thread' _ hmem => by cases List.mem_singleton.mp hmem
  | suspended h =>
    rw [targets_of_target h]
    exact iff_of_true rfl fun thread' _ hmem => by simp at hmem
  | running => exact absurd hnone (List.cons_ne_nil _ _)

/-- Two lists one behind the other, each a part of another one. -/
theorem append_eq_iff_of_sublist {α : Type} {l l' m m' : List α} (h : l.Sublist m)
    (h' : l'.Sublist m') : l ++ l' = m ++ m' ↔ l = m ∧ l' = m' := by
  refine ⟨fun heq => ?_, fun heq => by rw [heq.1, heq.2]⟩
  have hlen := congrArg List.length heq
  rw [List.length_append, List.length_append] at hlen
  have hle := h.length_le
  have hle' := h'.length_le
  exact ⟨h.eq_of_length (by omega), h'.eq_of_length (by omega)⟩

/-- With none left to suspend, all targets are among the suspended threads exactly if
`GetThreadInfo` failed on none of them. -/
theorem Surveyed.accounts_iff (h : Surveyed agentThread daemon threads cs f)
    (hnone : f.toSuspend = []) :
    f.suspended = targets agentThread daemon threads ↔
      ∀ thread, Target agentThread daemon thread → .getThreadInfo thread none ∉ cs := by
  induction h with
  | nil => exact iff_of_true rfl fun _ _ => List.not_mem_nil
  | cons h h' ih =>
    obtain ⟨hnone, hnone'⟩ := List.append_eq_nil_iff.mp hnone
    rw [targets_cons, append_eq_iff_of_sublist h.sublist h'.sublist, h.accounts_iff hnone,
      ih hnone']
    simp only [List.mem_append, not_or, forall_and]

theorem call_log {α : Type} {c : Prog J α} {g : α → PauseCall} {a : α}
    (h : call (Traced.log c g) s = (a, t)) :
    c.result s.jvm.inner = a ∧ t.jvm.calls = s.jvm.calls ++ [g a] ∧ t.suspended = s.suspended := by
  obtain ⟨rfl, rfl⟩ := call_eq.mp h
  exact ⟨rfl, rfl, rfl⟩

theorem Jvm.Truthful.fetchThread_looked (hjvm : jvm.Truthful daemon) {acc acc' : Fetched}
    {thread : JThread} (h : fetchThread jvm.traced agentThread acc thread s = (acc', t)) :
    ∃ cs f, Looked agentThread daemon thread cs f ∧ t.jvm.calls = s.jvm.calls ++ cs ∧
      t.suspended = s.suspended ∧
      acc' = ⟨acc.suspended ++ f.suspended, acc.toSuspend ++ f.toSuspend⟩ := by
  rcases fetchThread_cases h with ⟨hclass, rfl⟩ | ⟨s₁, state, hclass, hstate, rfl⟩
  · rcases classifyThread_cases hclass with ⟨hagent, -, rfl⟩ | ⟨hagent, info, hinfo, hb⟩
    · exact ⟨[], _, .agent hagent, by simp, rfl, by simp⟩
    · obtain ⟨hresult, hcalls, hkept⟩ := call_log hinfo
      cases info with
      -- GetThreadInfo fails: the thread is taken for none to suspend
      | none => exact ⟨_, _, .failed hagent, hcalls, hkept, by simp⟩
      | some isDaemon =>
        have hdaemon := hjvm.is_daemon _ _ _ hresult
        cases isDaemon with
        | false => cases hb
        | true => exact ⟨_, _, .daemon hdaemon.symm, hcalls, hkept, by simp⟩
  · rcases classifyThread_cases hclass with ⟨-, hb, -⟩ | ⟨hagent, info, hinfo, hb⟩
    · cases hb
    · obtain ⟨hresult, hcalls, hkept⟩ := call_log hinfo
      obtain ⟨-, hcalls', hkept'⟩ := call_log hstate
      obtain rfl := of_decide_eq_true hb.symm
      have htarget : Target agentThread daemon thread :=
        ⟨hagent, (hjvm.is_daemon _ _ _ hresult).symm⟩
      rw [hcalls, List.append_assoc] at hcalls'
      split
      · next hany =>
        cases state with
        | none => cases hany
        | some w =>
          have hs : IsSuspended w := of_decide_eq_true hany
          exact ⟨_, _, .suspended htarget w hs, hcalls', hkept'.trans hkept, by simp⟩
      · next hany =>
        have hs : ∀ w, state = some w → ¬ IsSuspended w := by
          rintro w rfl hs
          exact hany (decide_eq_true hs)
        exact ⟨_, _, .running htarget state hs, hcalls', hkept'.trans hkept, by simp⟩

theorem Jvm.Truthful.foldlM_surveyed (hjvm : jvm.Truthful daemon) {threads : List JThread}
    {acc acc' : Fetched}
    (h : threads.foldlM (fetchThread jvm.traced agentThread) acc s = (acc', t)) :
    ∃ cs f, Surveyed agentThread daemon threads cs f ∧ t.jvm.calls = s.jvm.calls ++ cs ∧
      t.suspended = s.suspended ∧
      acc' = ⟨acc.suspended ++ f.suspended, acc.toSuspend ++ f.toSuspend⟩ := by
  induction threads generalizing acc s with
  | nil =>
    obtain ⟨rfl, rfl⟩ := pure_eq.mp h
    exact ⟨[], _, .nil, by simp, rfl, by simp⟩
  | cons thread threads ih =>
    obtain ⟨acc₁, s₁, hthread, h⟩ := bind_eq.mp h
    obtain ⟨cs, f, hlooked, hcalls, hkept, rfl⟩ := hjvm.fetchThread_looked hthread
    obtain ⟨cs', f', hsurveyed, hcalls', hkept', rfl⟩ := ih h
    refine ⟨_, _, .cons hlooked hsurveyed, ?_, hkept'.trans hkept, ?_⟩
    · rw [hcalls', hcalls, List.append_assoc]
    · simp only [List.append_assoc]

theorem Jvm.Truthful.fetchThreads_surveyed (hjvm : jvm.Truthful daemon) {fetched : Fetched}
    (h : fetchThreads jvm.traced agentThread s = (some fetched, t)) :
    ∃ threads cs, threads.Nodup ∧ Surveyed agentThread daemon threads cs fetched ∧
      t.jvm.calls = s.jvm.calls ++ .getAllThreads (some threads) :: cs := by
  obtain ⟨threads, s₁, s₂, hall, hmalloc, hfold⟩ := fetchThreads_some h
  obtain ⟨hresult, hcalls, -⟩ := call_log hall
  obtain ⟨-, rfl⟩ := call_eq.mp hmalloc
  obtain ⟨cs, f, hsurveyed, hcalls', -, rfl⟩ := hjvm.foldlM_surveyed hfold
  refine ⟨threads, cs, hjvm.enumerates _ _ hresult, ?_, ?_⟩
  · simpa using hsurveyed
  · refine hcalls'.trans ?_
    show s₁.jvm.calls ++ cs = _
    rw [hcalls, List.append_assoc]
    rfl

/-! ## What a pause accounts for -/

/-- The recorded threads are those of the final enumeration that the pause is for, each once
and reported to be suspended. -/
structure Accounts (agentThread : Option JThread) (daemon : JThread → Bool)
    (s : ThreadPause (Traced J)) : Prop where
  threads : ∃ threads, finalEnumeration s.jvm.calls = some threads ∧
    s.suspended = targets agentThread daemon threads
  once : s.suspended.Nodup
  suspended : ∀ thread ∈ s.suspended, ∃ state,
    .getThreadState thread (some state) ∈ sinceEnumeration s.jvm.calls ∧ IsSuspended state

/-- Since the final enumeration `GetThreadInfo` failed on no thread that the pause is for. -/
def Informed (agentThread : Option JThread) (daemon : JThread → Bool)
    (s : ThreadPause (Traced J)) : Prop :=
  ∀ thread, Target agentThread daemon thread →
    .getThreadInfo thread none ∉ sinceEnumeration s.jvm.calls

/-- The program only adds calls that meet the condition. -/
def Adds {α : Type} (P : PauseCall → Prop) (x : Prog (ThreadPause (Traced J)) α) : Prop :=
  ∀ s, ∃ cs, (x.final s).jvm.calls = s.jvm.calls ++ cs ∧ ∀ c ∈ cs, P c

section Adds

variable {P : PauseCall → Prop} {α β : Type}

theorem Adds.none {x : Prog (ThreadPause (Traced J)) α}
    (h : ∀ s, (x.final s).jvm.calls = s.jvm.calls) : Adds P x :=
  fun s => ⟨[], by rw [h, List.append_nil], fun _ h => absurd h List.not_mem_nil⟩

theorem Adds.log {c : Prog J α} {g : α → PauseCall} (h : ∀ a, P (g a)) :
    Adds P (call (Traced.log c g)) :=
  fun _ => ⟨[g _], rfl, fun c hc => by
    rw [List.mem_singleton.mp hc]
    exact h _⟩

theorem Adds.bind {x : Prog (ThreadPause (Traced J)) α}
    {f : α → Prog (ThreadPause (Traced J)) β} (hx : Adds P x) (hf : ∀ a, Adds P (f a)) :
    Adds P (x >>= f) := by
  intro s
  obtain ⟨cs, hcs, hP⟩ := hx s
  obtain ⟨cs', hcs', hP'⟩ := hf (x.result s) (x.final s)
  refine ⟨cs ++ cs', ?_, fun c hc => ?_⟩
  · rw [final_bind, hcs', hcs, List.append_assoc]
  · rcases List.mem_append.mp hc with hc | hc
    · exact hP c hc
    · exact hP' c hc

theorem Adds.ite {c : Prop} [Decidable c] {x y : Prog (ThreadPause (Traced J)) α} (hx : Adds P x)
    (hy : Adds P y) : Adds P (if c then x else y) := by
  split
  · exact hx
  · exact hy

end Adds

/-- A call about global references. -/
def PauseCall.IsRef : PauseCall → Prop
  | newGlobalRef _ _ | deleteGlobalRef _ => True
  | _ => False

theorem PauseCall.IsRef.not_enumeration {c : PauseCall} (h : c.IsRef) :
    c.isEnumeration = false := by
  cases c with
  | getAllThreads => exact h.elim
  | _ => rfl

theorem adds_deleteGlobalRefs (threads : List JThread) :
    Adds PauseCall.IsRef (deleteGlobalRefs jvm.traced threads) := by
  induction threads with
  | nil => exact .none fun _ => rfl
  | cons thread threads ih => exact .bind (.log fun _ => trivial) fun _ => ih

theorem adds_newGlobalRefs (threads : List JThread) :
    Adds PauseCall.IsRef (newGlobalRefs jvm.traced threads) := by
  induction threads with
  | nil => exact .none fun _ => rfl
  | cons thread threads ih =>
    exact .bind (.log fun _ => trivial) fun _ => .ite (.none fun _ => rfl)
      (.bind (.none fun _ => rfl) fun _ => .bind (.none fun _ => rfl) fun _ => ih)

variable (jvm) in
theorem adds_buildSnapshot (snapshot : List JThread) :
    Adds PauseCall.IsRef (buildSnapshot jvm.traced snapshot) :=
  .bind (.none fun _ => rfl) fun _ => .bind (adds_deleteGlobalRefs _) fun _ =>
    .bind (.none fun _ => rfl) fun _ => .ite (.none fun _ => rfl)
      (.bind (.none fun _ => rfl) fun _ => .ite (.none fun _ => rfl)
        (.bind (adds_newGlobalRefs _) fun _ => .ite (.none fun _ => rfl)
          (.bind (.none fun _ => rfl) fun _ => .bind (adds_deleteGlobalRefs _) fun _ =>
            .bind (.none fun _ => rfl) fun _ => .none fun _ => rfl)))

/-- What an enumeration that left none to suspend came to, once its snapshot is recorded. -/
theorem Surveyed.accounts_iff_informed {pre refs : List PauseCall} {threads : List JThread}
    (h : Surveyed agentThread daemon threads cs f) (hnodup : threads.Nodup)
    (hnone : f.toSuspend = []) (hrefs : ∀ c ∈ refs, c.IsRef)
    (hcalls : t.jvm.calls = pre ++ .getAllThreads (some threads) :: (cs ++ refs))
    (hsuspended : t.suspended = f.suspended) :
    Accounts agentThread daemon t ↔ Informed agentThread daemon t := by
  have hpost : ∀ c ∈ cs ++ refs, c.isEnumeration = false := by
    intro c hc
    rcases List.mem_append.mp hc with hc | hc
    · exact h.no_enumeration c hc
    · exact (hrefs c hc).not_enumeration
  -- after this enumeration there was no other, so it is the final one
  obtain ⟨hfinal, hsince⟩ := enumeration_split pre (some threads) hpost
  rw [← hcalls] at hfinal hsince
  have hinformed : Informed agentThread daemon t ↔
      ∀ thread, Target agentThread daemon thread → .getThreadInfo thread none ∉ cs := by
    unfold Informed
    rw [hsince]
    refine forall₂_congr fun thread _ => not_congr ?_
    rw [List.mem_append]
    exact or_iff_left fun hmem => hrefs _ hmem
  rw [hinformed, ← h.accounts_iff hnone]
  constructor
  · rintro ⟨⟨threads', hthreads', heq⟩, -, -⟩
    rw [hfinal] at hthreads'
    cases hthreads'
    rw [← hsuspended]
    exact heq
  · intro heq
    refine ⟨⟨threads, hfinal, hsuspended.trans heq⟩, ?_, fun thread hmem => ?_⟩
    · rw [hsuspended, heq]
      exact hnodup.filter _
    · rw [hsuspended] at hmem
      obtain ⟨state, hstate, hs⟩ := h.reported thread hmem
      exact ⟨state, hsince ▸ List.mem_append_left _ hstate, hs⟩

/-- An iteration that records the threads of its enumeration. -/
theorem Jvm.Truthful.recorded_accounts_iff (hjvm : jvm.Truthful daemon) {fetched : Fetched}
    (h : (fetchThreads jvm.traced agentThread).result s = some fetched)
    (hnone : fetched.toSuspend = [])
    (hfinal : t = (buildSnapshot jvm.traced fetched.suspended).final
      ((fetchThreads jvm.traced agentThread).final s))
    (hsuspended : t.suspended = fetched.suspended) :
    Accounts agentThread daemon t ↔ Informed agentThread daemon t := by
  obtain ⟨threads, cs, hnodup, hsurveyed, hcalls⟩ :=
    hjvm.fetchThreads_surveyed (Prod.ext h rfl : fetchThreads jvm.traced agentThread s = (_, _))
  obtain ⟨refs, hbuilt, hrefs⟩ := adds_buildSnapshot jvm fetched.suspended
    ((fetchThreads jvm.traced agentThread).final s)
  have hall : t.jvm.calls =
      s.jvm.calls ++ .getAllThreads (some threads) :: (cs ++ refs) := by
    rw [hfinal, hbuilt]
    refine (congrArg (· ++ refs) hcalls).trans ?_
    rw [List.append_assoc]
    rfl
  exact hsurveyed.accounts_iff_informed hnodup hnone hrefs hall hsuspended

theorem Jvm.Truthful.suspendNewThreads_accounts_iff (hjvm : jvm.Truthful daemon)
    (h : (suspendNewThreads jvm.traced agentThread).result s = .done) :
    let t := (suspendNewThreads jvm.traced agentThread).final s
    Accounts agentThread daemon t ↔ Informed agentThread daemon t := by
  obtain ⟨fetched, hfetched, hnone, hsuspended⟩ := suspendNewThreads_done jvm.traced h
  refine hjvm.recorded_accounts_iff hfetched hnone ?_ hsuspended
  unfold suspendNewThreads
  rw [final_bind, hfetched]
  dsimp only
  rw [hnone]
  rfl

theorem Jvm.Truthful.convergenceCheck_accounts_iff (hjvm : jvm.Truthful daemon)
    (h : (convergenceCheck jvm.traced agentThread).result s = .done) :
    let t := (convergenceCheck jvm.traced agentThread).final s
    Accounts agentThread daemon t ↔ Informed agentThread daemon t := by
  obtain ⟨fetched, hfetched, hnone, hsuspended⟩ := convergenceCheck_done jvm.traced h
  refine hjvm.recorded_accounts_iff hfetched hnone ?_ hsuspended
  unfold convergenceCheck
  rw [final_bind, hfetched]
  dsimp only
  rw [final_bind, final_ite]
  exact ite_self _

/-- A pause that succeeds accounts for its threads exactly if `GetThreadInfo` failed on none. -/
theorem Jvm.Truthful.suspendIterations_accounts_iff (hjvm : jvm.Truthful daemon) {n : Nat}
    (h : (suspendIterations jvm.traced agentThread n).result s = .ok) :
    let t := (suspendIterations jvm.traced agentThread n).final s
    Accounts agentThread daemon t ↔ Informed agentThread daemon t := by
  induction n generalizing s with
  | zero =>
    unfold suspendIterations at h ⊢
    rw [result_bind, result_pure] at h
    cases hret : (convergenceCheck jvm.traced agentThread).result s with
    | done => exact hjvm.convergenceCheck_accounts_iff hret
    | again => rw [hret] at h; cases h
    | failed => rw [hret] at h; cases h
  | succ n ih =>
    unfold suspendIterations at h ⊢
    rw [result_bind] at h
    rw [final_bind]
    cases hret : (suspendNewThreads jvm.traced agentThread).result s with
    | done => exact hjvm.suspendNewThreads_accounts_iff hret
    | again =>
      rw [hret] at h
      exact ih h
    | failed => rw [hret] at h; cases h

/-! ## Runs -/

/-- A pause, a resume, or whatever happens in the JVM in between. -/
inductive PauseEvent (J : Type)
  | suspend (agentThread : Option JThread)
  | resume
  | elapse (f : J → J)

def pauseStep (jvm : Jvm J) (s : ThreadPause (Traced J)) : PauseEvent J → ThreadPause (Traced J)
  | .suspend agentThread => (psThreadPauseSuspend jvm.traced agentThread).final s
  | .resume => (psThreadPauseResume jvm.traced).final s
  | .elapse f => { s with jvm := { s.jvm with inner := f s.jvm.inner } }

/-- `ps_thread_pause_alloc`, before the first call. -/
def pauseAlloc (j : J) : ThreadPause (Traced J) := ⟨[], j, []⟩

theorem RefsBalanced.step (h : RefsBalanced s) (e : PauseEvent J) :
    RefsBalanced (pauseStep jvm s e) := by
  cases e with
  | suspend agentThread => exact h.suspendIterations agentThread maxSuspendIterations
  | resume => exact h.psThreadPauseResume jvm
  | elapse f => exact h

/-- A resume calls `ResumeThread` once for each recorded thread, and leaves no reference. -/
def Released (s t : ThreadPause (Traced J)) : Prop :=
  resumes t = resumes s ++ s.suspended ∧ t.suspended = [] ∧
    (t.jvm.calls.filterMap PauseCall.created).Perm (t.jvm.calls.filterMap PauseCall.deleted)

/-- After any run of pauses and resumes, as many global references are held as threads are
recorded; a pause that succeeds then accounts for its threads exactly if `GetThreadInfo` fails
on none of them in its final enumeration; and a resume releases what was recorded. -/
theorem pause_accounts (hjvm : jvm.Truthful daemon) (j : J) (es : List (PauseEvent J)) :
    let s := Runs.run (pauseStep jvm) (pauseAlloc j) es
    RefsBalanced s ∧
    (∀ agentThread, (psThreadPauseSuspend jvm.traced agentThread).result s = .ok →
      (Accounts agentThread daemon ((psThreadPauseSuspend jvm.traced agentThread).final s) ↔
        Informed agentThread daemon ((psThreadPauseSuspend jvm.traced agentThread).final s))) ∧
    Released s ((psThreadPauseResume jvm.traced).final s) := by
  intro s
  have hbalanced : RefsBalanced s :=
    Runs.inv_run RefsBalanced (fun _ e h _ => h.step e) (List.Perm.refl _) (.of_true _ es)
  obtain ⟨hresumes, hrefs⟩ := psThreadPauseResume_calls jvm s
  have hempty : ((psThreadPauseResume jvm.traced).final s).suspended = [] :=
    congrArg (·.2.2) hrefs
  have hafter := hbalanced.psThreadPauseResume jvm
  unfold RefsBalanced at hafter
  rw [hempty, List.append_nil] at hafter
  exact ⟨hbalanced, fun _ h => hjvm.suspendIterations_accounts_iff h, hresumes, hempty, hafter⟩

/-! ## A JVM with one thread -/

/-- The JVM with one application thread, whose `GetThreadInfo` answers `info`. -/
def oneThreadAnswering (info : Option Bool) : Jvm Bool :=
  { oneThread with getThreadInfo := fun _ => pure info }

/-- No thread is a daemon. -/
def noDaemons : JThread → Bool := fun _ => false

theorem oneThreadAnswering_truthful {info : Option Bool} (h : ∀ b, info = some b → b = false) :
    (oneThreadAnswering info).Truthful noDaemons where
  enumerates := by
    rintro j threads h
    cases h
    exact List.pairwise_singleton _ 1
  is_daemon := fun _ _ b hb => h b hb

/-- A thread that the JVM tells of is accounted for, in the second pause as in the first. -/
theorem pause_accounts_steady :
    Accounts none noDaemons
      ((psThreadPauseSuspend (oneThreadAnswering (some false)).traced none).final
        (Runs.run (pauseStep (oneThreadAnswering (some false))) (pauseAlloc false)
          [.suspend none, .resume])) := by
  have htruthful : (oneThreadAnswering (some false)).Truthful noDaemons :=
    oneThreadAnswering_truthful fun b h => (Option.some.inj h).symm
  refine ((pause_accounts htruthful false [.suspend none, .resume]).2.1 none rfl).mpr ?_
  intro thread _ hmem
  have hmem : PauseCall.getThreadInfo thread none ∈
      [.getThreadInfo 1 (some false), .getThreadState 1 (some jvmtiThreadStateSuspended),
        .newGlobalRef 1 true] := hmem
  simp at hmem

/-- `GetThreadInfo` fails. The pause succeeds with no thread recorded, and the thread runs. -/
theorem pause_overlooks :
    (oneThreadAnswering none).Truthful noDaemons ∧
      (psThreadPauseSuspend (oneThreadAnswering none).traced none).result (pauseAlloc false) = .ok ∧
      ((psThreadPauseSuspend (oneThreadAnswering none).traced none).final
        (pauseAlloc false)).jvm.inner = false ∧
      ¬ Accounts none noDaemons
        ((psThreadPauseSuspend (oneThreadAnswering none).traced none).final (pauseAlloc false)) := by
  refine ⟨oneThreadAnswering_truthful fun b h => (by cases h), rfl, rfl, ?_⟩
  rintro ⟨⟨threads, hthreads, hsuspended⟩, -, -⟩
  cases (show finalEnumeration _ = some [1] from rfl).symm.trans hthreads
  exact absurd hsuspended (by decide)

end JautoProf
