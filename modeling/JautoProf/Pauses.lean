import JautoProf.Lib.Runs
import JautoProf.ProfServer

/-!
# The two pauses of the server

The startup pause holds the main thread, and a `pause_threads` request suspends threads and
records them. One `resume` request releases the first, or else the second.

Results:
1. `resume_releases`: a resume that is answered `RESUME_RP_UNBLOCKED` or `RESUME_RP_NOCHANGE`
   leaves nothing paused, except where it finds both pauses in effect.
2. `resume_leaves_paused`: a run where a resume finds both.
3. `resume_releases_started`: without the startup pause no resume does.
-/

namespace JautoProf

variable {J C : Type} [DecidableEq C] (env : Env) (jvm : Jvm J)

/-- The event thread dispatches a message, or the listener closes a client. -/
inductive ServerEvent (C : Type)
  | dispatch (msg : PsMsg C)
  | closed (client : C)

def serverStep (s : ProfServer J C) : ServerEvent C → ProfServer J C
  | .dispatch msg => (dispatch env jvm msg).final s
  | .closed client => { s with uif := { s.uif with closed := client :: s.uif.closed } }

/-- The message is sent to the client, and no other is. -/
def Sends (s t : ProfServer J C) (client : C) (msg : Option UserMsg) : Prop :=
  ∃ m, msg = some m ∧ t.uif.sent = s.uif.sent ++ [(client, m)]

/-- A get-status request that is dispatched now is told whether the JVM is paused. -/
def Reports (s : ProfServer J C) (paused : Bool) : Prop :=
  ∀ client, client ∉ s.uif.closed → Sends s ((dispatch env jvm (.usrRq client .getStatus)).final s)
    client (uifRespondGetStatus s.shuttingDown paused)

/-- When the event is a resume that is answered `RESUME_RP_UNBLOCKED` or
`RESUME_RP_NOCHANGE`, a get-status request right after it reports no pause, and neither of
the pauses is in effect. -/
def ResumeReleases (s : ProfServer J C) : ServerEvent C → Prop
  | .dispatch (.usrRq client .resume) =>
    let t := (dispatch env jvm (.usrRq client .resume)).final s
    ∀ status, status = .unblocked ∨ status = .nochange →
      Sends s t client (uifRespondResume status) →
        Reports env jvm t false ∧ t.paused = false ∧ t.threadPause.suspended = []
  | _ => True

/-- When the event is a resume of a client that is open, at most one of the pauses is in
effect. -/
def FindsOnePause (s : ProfServer J C) : ServerEvent C → Prop
  | .dispatch (.usrRq client .resume) =>
    client ∉ s.uif.closed → s.paused = true → s.threadPause.suspended = []
  | _ => True

/-! ## A resume -/

variable {env jvm}

theorem dispatch_usrRq_uif (s : ProfServer J C) (client : C) (rq : UsrRq) :
    ((dispatch env jvm (.usrRq client rq)).final s).uif =
      s.uif.add client (response env jvm s rq) :=
  handleUsrRq_uif env jvm client rq s

theorem sends_iff {s : ProfServer J C} {client : C} {rq : UsrRq} {msg : Option UserMsg} :
    Sends s ((dispatch env jvm (.usrRq client rq)).final s) client msg ↔
      client ∉ s.uif.closed ∧ msg.isSome ∧ response env jvm s rq = msg := by
  unfold Sends
  rw [dispatch_usrRq_uif]
  constructor
  · rintro ⟨m, rfl, hsent⟩
    cases hr : response env jvm s rq with
    | none =>
      rw [hr] at hsent
      exact (List.cons_ne_nil _ _ (List.self_eq_append_right.mp hsent)).elim
    | some m' =>
      rw [hr, UserIf.add] at hsent
      split at hsent
      · exact (List.cons_ne_nil _ _ (List.self_eq_append_right.mp hsent)).elim
      · next hopen =>
        have hm := List.append_cancel_left hsent
        simp only [List.cons.injEq, Prod.mk.injEq, true_and, and_true] at hm
        exact ⟨hopen, rfl, congrArg some hm⟩
  · rintro ⟨hopen, hsome, hr⟩
    obtain ⟨m, rfl⟩ := Option.isSome_iff_exists.mp hsome
    refine ⟨m, rfl, ?_⟩
    rw [hr, UserIf.add, if_neg hopen]

/-- What a get-status request reports is whether one of the pauses is in effect. -/
theorem reports_false_iff {s : ProfServer J C} {client : C} (hopen : client ∉ s.uif.closed) :
    Reports env jvm s false ↔ s.paused = false ∧ s.threadPause.suspended = [] := by
  have hpaused : (s.paused || decide (0 < s.threadPause.suspended.length)) = false ↔
      s.paused = false ∧ s.threadPause.suspended = [] := by
    simp
  rw [← hpaused]
  constructor
  · intro h
    obtain ⟨-, -, hr⟩ := sends_iff.mp (h client hopen)
    have hinj : ∀ b, uifRespondGetStatus s.shuttingDown b = uifRespondGetStatus s.shuttingDown false →
        b = false := by
      cases s.shuttingDown <;> decide
    exact hinj _ hr
  · intro h client' hopen'
    refine sends_iff.mpr ⟨hopen', rfl, ?_⟩
    unfold response
    rw [h]

/-- A resume releases the startup pause, or else the recorded threads. -/
theorem dispatch_resume (env : Env) (jvm : Jvm J) (s : ProfServer J C) (client : C) :
    ((dispatch env jvm (.usrRq client .resume)).final s).paused = false ∧
      ((dispatch env jvm (.usrRq client .resume)).final s).threadPause.suspended =
        if s.paused then s.threadPause.suspended else [] := by
  have hfinal : (dispatch env jvm (.usrRq client .resume)).final s =
      (handleUsrRqResume jvm client).final s := rfl
  rw [hfinal, handleUsrRqResume_final env, respond_final]
  split
  · exact ⟨rfl, rfl⟩
  · split
    · exact ⟨rfl, psThreadPauseResume_suspended jvm _⟩
    · next hsus => exact ⟨rfl, List.length_eq_zero_iff.mp (Nat.eq_zero_of_not_pos hsus)⟩

omit [DecidableEq C] in
theorem response_resume (env : Env) (jvm : Jvm J) (s : ProfServer J C) :
    ∃ status, (status = .unblocked ∨ status = .nochange) ∧
    (uifRespondResume status).isSome ∧ response env jvm s .resume = uifRespondResume status := by
  refine ⟨_, ?_, rfl, rfl⟩
  split
  · exact .inl rfl
  · exact .inr rfl

/-- A resume that is answered leaves nothing paused exactly when it finds one pause at most. -/
theorem resumeReleases_resume (s : ProfServer J C) (client : C) :
    ResumeReleases env jvm s (.dispatch (.usrRq client .resume)) ↔
      FindsOnePause s (.dispatch (.usrRq client .resume)) := by
  obtain ⟨hpaused, hsus⟩ := dispatch_resume env jvm s client
  constructor
  · intro h hopen hstartup
    obtain ⟨status, hstatus, hsome, hr⟩ := response_resume env jvm s
    obtain ⟨-, -, hnil⟩ := h status hstatus (sends_iff.mpr ⟨hopen, hsome, hr⟩)
    rwa [hsus, if_pos hstartup] at hnil
  · intro h status hstatus hsends
    obtain ⟨hopen, -, -⟩ := sends_iff.mp hsends
    have hnil : ((dispatch env jvm (.usrRq client .resume)).final s).threadPause.suspended = [] := by
      rw [hsus]
      split
      · next hstartup => exact h hopen hstartup
      · rfl
    refine ⟨?_, hpaused, hnil⟩
    have hopen' : client ∉ ((dispatch env jvm (.usrRq client .resume)).final s).uif.closed := by
      rw [dispatch_usrRq_uif, UserIf.closed_add]
      exact hopen
    exact (reports_false_iff hopen').mpr ⟨hpaused, hnil⟩

theorem resumeReleases_iff (s : ProfServer J C) (e : ServerEvent C) :
    ResumeReleases env jvm s e ↔ FindsOnePause s e := by
  cases e with
  | closed client => exact Iff.rfl
  | dispatch msg =>
    cases msg with
    | usrRq client rq =>
      cases rq with
      | resume => exact resumeReleases_resume s client
      | _ => exact Iff.rfl
    | _ => exact Iff.rfl

/-! ## Runs -/

/-- For every run of the event thread and every JVM, with and without the startup pause: each
resume that is answered `RESUME_RP_UNBLOCKED` or `RESUME_RP_NOCHANGE` leaves nothing paused,
if and only if none that can be answered finds both pauses in effect. -/
theorem resume_releases (env : Env) (jvm : Jvm J) (pauseOnStart : Bool)
    (agentThread : Option JThread) (j : J) (es : List (ServerEvent C)) :
    Runs.Along (serverStep env jvm) (ResumeReleases env jvm)
        (psInit C pauseOnStart agentThread j) es ↔
      Runs.Along (serverStep env jvm) FindsOnePause (psInit C pauseOnStart agentThread j) es :=
  Runs.along_congr resumeReleases_iff

/-- A JVM with one application thread; the state says whether it is suspended. -/
def oneThread : Jvm Bool where
  malloc _ := pure true
  getAllThreads := pure (some [1])
  getThreadInfo _ := pure (some false)
  getThreadState _ := .read fun suspended =>
    some (if suspended then jvmtiThreadStateSuspended else 0)
  suspendThreadList _ := .update fun _ => true
  resumeThread _ := .update fun _ => false
  newGlobalRef _ := pure true
  deleteGlobalRef _ := pure ()
  getStats := pure (some [])

/-- With the startup pause in effect, a client pauses the threads and resumes. It is answered
`RESUME_RP_UNBLOCKED`, and the main thread is still suspended. -/
theorem resume_leaves_paused :
    ¬ Runs.Along (serverStep Env.smooth oneThread) (ResumeReleases Env.smooth oneThread)
      (psInit Nat true none false)
      [.dispatch (.usrRq 0 .pauseThreads), .dispatch (.usrRq 0 .resume)] := by
  rintro ⟨-, h, -⟩
  have hnil := (resumeReleases_resume _ 0).mp h List.not_mem_nil rfl
  exact absurd hnil (by decide)

theorem paused_respond (client : C) (r : Option UserMsg) (s : ProfServer J C) :
    ((respond client r).final s).paused = s.paused := by
  rw [respond_final]

omit [DecidableEq C] in
theorem jniGetProfilerStats_paused (jvm : Jvm J) (s : ProfServer J C) :
    ((jniGetProfilerStats jvm).final s).paused = s.paused := by
  unfold jniGetProfilerStats
  rw [Prog.final_bind]
  split <;> rfl

/-- No request but a resume changes the startup pause. -/
theorem handleUsrRq_paused (client : C) (rq : UsrRq) (s : ProfServer J C) :
    ((handleUsrRq env jvm client rq).final s).paused = if rq = .resume then false else s.paused := by
  cases rq with
  | resume => exact (dispatch_resume env jvm s client).1
  | getStats =>
    rw [if_neg UsrRq.noConfusion, ← jniGetProfilerStats_paused jvm s]
    simp only [handleUsrRq, handleUsrRqGetStats, Prog.final_bind]
    split
    · rfl
    · exact paused_respond client _ _
  | _ =>
    rw [if_neg UsrRq.noConfusion]
    exact paused_respond client _ _

/-- Once the startup pause is released it stays released. -/
theorem unpaused_step {s : ProfServer J C} (h : s.paused = false) (e : ServerEvent C) :
    (serverStep env jvm s e).paused = false := by
  cases e with
  | closed client => exact h
  | dispatch msg =>
    cases msg with
    | usrRq client rq =>
      refine (handleUsrRq_paused client rq s).trans ?_
      split
      · rfl
      · exact h
    | _ => exact h

/-- Without the startup pause, every resume that is answered `RESUME_RP_UNBLOCKED` or
`RESUME_RP_NOCHANGE` leaves nothing paused. -/
theorem resume_releases_started (env : Env) (jvm : Jvm J) (agentThread : Option JThread) (j : J)
    (es : List (ServerEvent C)) :
    Runs.Along (serverStep env jvm) (ResumeReleases env jvm) (psInit C false agentThread j) es := by
  refine Runs.Along.mono_inv (fun s => s.paused = false) (fun s e h _ => unpaused_step h e)
    (fun s e h _ => ?_) rfl (Runs.Along.of_true _ es)
  refine (resumeReleases_iff s e).mpr ?_
  unfold FindsOnePause
  split
  · intro _ hpaused
    rw [h] at hpaused
    cases hpaused
  · trivial

end JautoProf
