import JautoProf.ShutdownHeld

/-!
# What the threads of the exit wait for

Results:
1. `inv_run`: in an orderly run, what a thread of the exit waits for was posted or sent, or the
   agent thread has yet to do it.
-/

namespace JautoProf.Shutdown

variable {C : Type}

/-- The agent thread has posted `started_sem` for a request. -/
def EventPc.PastStarted : EventPc C → Prop
  | .postSem _ => True
  | .systemExit _ => True
  | .releaseResources .request => True
  | .postShutdown .request => True
  | .ended .request => True
  | _ => False

/-- The agent thread has posted `sem`. -/
def EventPc.PastSem : EventPc C → Prop
  | .systemExit _ => True
  | .releaseResources .request => True
  | .postShutdown .request => True
  | .ended .request => True
  | _ => False

/-- The agent thread has called `jni_system_exit`. -/
def EventPc.PastExit : EventPc C → Prop
  | .releaseResources .request => True
  | .postShutdown .request => True
  | .ended .request => True
  | _ => False

/-- The agent thread has not reached its loop. -/
def EventPc.Outside : EventPc C → Prop
  | .notStarted => True
  | .initRefs => True
  | .releaseResources .noRefs => True
  | .postShutdown .noRefs => True
  | .ended .noRefs => True
  | _ => False

/-- The hook has still to wait for `started_sem`. -/
def Jvm.WantsStarted : Jvm → Prop
  | .running => True
  | .exiting _ (.hooks .invokeCallbacks) => True
  | .exiting _ (.hooks .sendStarting) => True
  | .exiting _ (.hooks .postStarted) => True
  | .exiting _ (.hooks (.waitStarted _)) => True
  | _ => False

/-- The hook has still to wait for `sem`. -/
def Jvm.WantsSem : Jvm → Prop
  | .running => True
  | .exiting _ (.hooks .done) => False
  | .exiting _ (.hooks _) => True
  | _ => False

/-- `ps_destroy` has still to wait for the agent thread. -/
def Jvm.WantsShutdown : Jvm → Prop
  | .running => True
  | .exiting _ (.hooks _) => True
  | .exiting _ .sendShutdown => True
  | .exiting _ (.waitShutdown _) => True
  | _ => False

/-- `uif_destroy` has told the listener to end. -/
def Jvm.StopsListener : Jvm → Prop
  | .exiting _ .joinListener => True
  | .exiting _ .freeServer => True
  | .exiting _ .unloaded => True
  | .halted _ => True
  | _ => False

/-- What the threads of the exit wait for was posted or sent, or it will be. -/
structure Ready (s : State C) : Prop where
  own : s.jvm.ownPosts ≤ s.startedSem
  started : s.pauseOnExit = true → s.event.PastStarted → s.jvm.WantsStarted → 0 < s.startedSem
  sem : s.pauseOnExit = true → s.event.PastSem → s.jvm.WantsSem → 0 < s.sem
  posted : (∃ why, s.event = .ended why) → s.jvm.WantsShutdown → 0 < s.shutdownSem
  starting : ∀ c, s.jvm = .exiting c (.hooks (.waitStarted true)) →
    0 < s.startedSem ∨ PsMsg.shutdownStarting ∈ s.evQ ∨ s.event.Starting ∨ s.event.Requested
  shutdown : ∀ c, s.jvm = .exiting c (.waitShutdown true) →
    PsMsg.shutdown ∈ s.evQ ∨ s.event.Destroyed ∨ s.event.Requested
  fd : ∀ c, s.jvm = .exiting c .joinListener → s.shutdownFd = true
  stops : s.shutdownFd = true → s.jvm.StopsListener
  collector : s.stopCalled = true → ¬ s.event.Outside

theorem ready_init (pauseOnStart pauseOnExit : Bool) :
    Ready (init C pauseOnStart pauseOnExit) where
  own := Nat.le_refl 0
  started _ h := h.elim
  sem _ h := h.elim
  posted h := by obtain ⟨_, h⟩ := h; cases h
  starting _ h := by cases h
  shutdown _ h := by cases h
  fd _ h := by cases h
  stops h := by cases h
  collector h := by cases h

namespace Ready

variable {s : State C}

/-! ## The main thread -/

theorem main_step (h : Ready s) (hsafe : Safe s) {ok : Bool} {s' : State C}
    (hs : mainStep s ok = some s') : Ready s' := by
  cases hm : s.main with
  | registerBlocker =>
    have hjvm := hsafe.early (by rw [hm]; trivial)
    have hevent := hsafe.notStarted.mpr (.inl (by rw [hm]; trivial))
    simp only [mainStep, hm] at hs
    split at hs
    · cases hs
      exact { h with
        own := by rw [hjvm]; exact Nat.le_refl 0
        started := fun _ he => by rw [hevent] at he; exact he.elim
        sem := fun _ he => by rw [hevent] at he; exact he.elim
        starting := fun c hjvm' => by rw [hjvm] at hjvm'; cases hjvm' }
    · cases hs
      exact { h with }
  | runAgentThread =>
    have hjvm := hsafe.early (by rw [hm]; trivial)
    have hevent := hsafe.notStarted.mpr (.inl (by rw [hm]; trivial))
    simp only [mainStep, hm] at hs
    split at hs
    · cases hs
      exact { h with
        started := fun _ he => he.elim
        sem := fun _ he => he.elim
        posted := fun he => by obtain ⟨_, he⟩ := he; cases he
        starting := fun c hjvm' => by rw [hjvm] at hjvm'; cases hjvm'
        shutdown := fun c hjvm' => by rw [hjvm] at hjvm'; cases hjvm'
        collector := fun hstop => absurd (by rw [hevent]; trivial) (h.collector hstop) }
    · cases hs
      exact { h with }
  | registerHook =>
    simp only [mainStep, hm] at hs
    split at hs <;> cases hs <;> exact { h with }
  | addLogCallback =>
    simp only [mainStep, hm] at hs
    split at hs <;> cases hs <;> exact { h with }
  | setRunning =>
    simp only [mainStep, hm, Option.some.injEq] at hs
    cases hs
    exact { h with }
  | lockResume =>
    simp only [mainStep, hm, Option.some.injEq] at hs
    cases hs
    exact { h with }
  | waitResume => simp [mainStep, hm] at hs
  | done => simp [mainStep, hm] at hs

/-! ## The agent thread -/

theorem event_to (h : Ready s) (e : EventPc C)
    {started sem posts : Nat} (hstarted : s.startedSem ≤ started) (hsem : s.sem ≤ sem)
    (hpastStarted : s.pauseOnExit = true → e.PastStarted →
      s.event.PastStarted ∨ s.startedSem < started)
    (hpastSem : s.pauseOnExit = true → e.PastSem → s.event.PastSem ∨ s.sem < sem)
    (hposts : (∃ why, e = .ended why) → 0 < posts) {evQ : List (PsMsg C)}
    (hstarting : PsMsg.shutdownStarting ∈ s.evQ ∨ s.event.Starting ∨ s.event.Requested →
      0 < started ∨ PsMsg.shutdownStarting ∈ evQ ∨ e.Starting ∨ e.Requested)
    (hshutdown : PsMsg.shutdown ∈ s.evQ ∨ s.event.Destroyed ∨ s.event.Requested →
      PsMsg.shutdown ∈ evQ ∨ e.Destroyed ∨ e.Requested)
    {stop : Bool} (hstop : stop = true → ¬ e.Outside) (down paused : Bool) :
    Ready { s with
      event := e, evQ := evQ, startedSem := started, sem := sem, shutdownSem := posts
      stopCalled := stop, shuttingDown := down, pausedAtExit := paused } :=
  { h with
    own := Nat.le_trans h.own hstarted
    started := fun hp he hw => by
      rcases hpastStarted hp he with he | hlt
      · exact Nat.lt_of_lt_of_le (h.started hp he hw) hstarted
      · exact Nat.lt_of_le_of_lt (Nat.zero_le _) hlt
    sem := fun hp he hw => by
      rcases hpastSem hp he with he | hlt
      · exact Nat.lt_of_lt_of_le (h.sem hp he hw) hsem
      · exact Nat.lt_of_le_of_lt (Nat.zero_le _) hlt
    posted := fun he _ => hposts he
    starting := fun c hjvm => by
      rcases h.starting c hjvm with hpos | hrest
      · exact .inl (Nat.lt_of_lt_of_le hpos hstarted)
      · exact hstarting hrest
    shutdown := fun c hjvm => hshutdown (h.shutdown c hjvm)
    collector := hstop }

/-- `event_to` where only the place changes, and it is not the end. -/
theorem event_on (h : Ready s) (e : EventPc C) (hended : ∀ why, e ≠ .ended why)
    (hpastStarted : s.pauseOnExit = true → e.PastStarted → s.event.PastStarted)
    (hpastSem : s.pauseOnExit = true → e.PastSem → s.event.PastSem)
    (hstarting : s.event.Starting → e.Starting) (hdestroyed : s.event.Destroyed → e.Destroyed)
    (hreq : s.event.Requested → e.Requested) (hout : e.Outside → s.event.Outside)
    (down paused : Bool) :
    Ready { s with event := e, shuttingDown := down, pausedAtExit := paused } :=
  h.event_to e (Nat.le_refl _) (Nat.le_refl _) (fun hp he => .inl (hpastStarted hp he))
    (fun hp he => .inl (hpastSem hp he)) (fun ⟨why, he⟩ => absurd he (hended why))
    (fun hs => .inr (hs.imp_right (Or.imp hstarting hreq))) (Or.imp_right (Or.imp hdestroyed hreq))
    (fun hstop ho => h.collector hstop (hout ho)) down paused

/-- The process ends. -/
theorem halt (h : Ready s) (c : Int) : Ready { s with jvm := .halted c } :=
  { h with
    own := Nat.zero_le _
    started := fun _ _ hw => hw.elim
    sem := fun _ _ hw => hw.elim
    posted := fun _ hw => hw.elim
    starting := fun _ hjvm => by cases hjvm
    shutdown := fun _ hjvm => by cases hjvm
    fd := fun _ hjvm => by cases hjvm
    stops := fun _ => trivial }

theorem resume (h : Ready s) : Ready (resumeVm s) := by
  unfold resumeVm
  split <;> exact { h with }

theorem dispatch_step (h : Ready s) {msg : PsMsg C} (he : s.event = .dispatch msg) :
    Ready (dispatch s msg) := by
  cases msg with
  | usrRq client rq =>
    have hwait : ∀ {t : State C}, Ready t → t.event = .dispatch (.usrRq client rq) → ∀ paused,
        Ready { t with event := .evqWait, pausedAtExit := paused } := fun ht he paused =>
      ht.event_on .evqWait (by simp) (fun _ => False.elim) (fun _ => False.elim) (by rw [he]; exact id)
        (by rw [he]; exact id) (by rw [he]; exact id) (by rw [he]; exact id) _ paused
    cases rq with
    | resume =>
      refine hwait h.resume ?_ _
      unfold resumeVm
      split <;> exact he
    | _ => exact hwait h he _
  | classLoaded name bytecode loader =>
    exact h.event_on .evqWait (by simp) (fun _ => False.elim) (fun _ => False.elim)
      (by rw [he]; exact id) (by rw [he]; exact id) (by rw [he]; exact id) (by rw [he]; exact id) _
      s.pausedAtExit
  | shutdown =>
    exact h.event_on (.releaseResources .shutdown) (by simp) (fun _ => False.elim) (fun _ => False.elim)
      (by rw [he]; exact id) (fun _ => trivial) (by rw [he]; exact id) False.elim _ s.pausedAtExit
  | shutdownRequest exitCode text =>
    show Ready (handleShutdownRequest s exitCode)
    unfold handleShutdownRequest
    split
    · exact h.halt exitCode
    · split
      · exact h.event_on (.stopCollector (.request exitCode)) (by simp) (fun _ => False.elim)
          (fun _ => False.elim) (by rw [he]; exact id) (by rw [he]; exact id) (fun _ => trivial)
          False.elim _ s.pausedAtExit
      · rename_i hpause
        exact h.event_on (.systemExit exitCode) (by simp) (fun hp => absurd hp hpause)
          (fun hp => absurd hp hpause) (by rw [he]; exact id) (by rw [he]; exact id)
          (fun _ => trivial) False.elim _ s.pausedAtExit
  | shutdownStarting =>
    exact h.event_on (.stopCollector .starting) (by simp) (fun _ => False.elim)
      (fun _ => False.elim) (fun _ => trivial) (by rw [he]; exact id) (by rw [he]; exact id)
      False.elim true s.pausedAtExit

theorem event_step (h : Ready s) {ok : Bool} {s' : State C} (hs : eventStep s ok = some s') :
    Ready s' := by
  cases he : s.event with
  | notStarted => simp [eventStep, he] at hs
  | initRefs =>
    simp only [eventStep, he, Option.some.injEq] at hs
    cases hs
    cases ok
    · exact h.event_on (.postShutdown .noRefs) (by simp) (fun _ => False.elim) (fun _ => False.elim)
        (by rw [he]; exact id) (by rw [he]; exact id) (by rw [he]; exact id)
        (fun _ => by rw [he]; trivial) s.shuttingDown s.pausedAtExit
    · exact h.event_on .evqWait (by simp) (fun _ => False.elim) (fun _ => False.elim)
        (by rw [he]; exact id) (by rw [he]; exact id) (by rw [he]; exact id) False.elim s.shuttingDown
        s.pausedAtExit
  | evqWait =>
    simp only [eventStep, he] at hs
    split at hs
    · cases hs
    · rename_i msg evQ hevQ
      cases hs
      refine h.event_to (.dispatch msg) (Nat.le_refl _) (Nat.le_refl _) (fun _ => False.elim)
        (fun _ => False.elim) (fun he => by obtain ⟨_, he⟩ := he; cases he) (fun hst => ?_)
        (fun hsd => ?_) (fun _ => id) s.shuttingDown s.pausedAtExit
      · rw [hevQ, he] at hst
        cases msg <;> simp_all [EventPc.Starting, EventPc.Requested]
      · rw [hevQ, he] at hsd
        cases msg <;> simp_all [EventPc.Destroyed, EventPc.Requested]
  | dispatch msg =>
    simp only [eventStep, he, Option.some.injEq] at hs
    cases hs
    exact h.dispatch_step he
  | stopCollector origin =>
    simp only [eventStep, he, Option.some.injEq] at hs
    cases hs
    refine h.event_to (.postStarted origin) (Nat.le_refl _) (Nat.le_refl _) (fun _ => False.elim)
      (fun _ => False.elim) (fun he => by obtain ⟨_, he⟩ := he; cases he) (fun hst => ?_)
      (fun hsd => ?_) (fun _ => id) s.shuttingDown s.pausedAtExit
    · rw [he] at hst
      cases origin <;> simp_all [EventPc.Starting, EventPc.Requested]
    · rw [he] at hsd
      cases origin <;> simp_all [EventPc.Destroyed, EventPc.Requested]
  | postStarted origin =>
    cases origin with
    | request exitCode =>
      simp only [eventStep, he, Option.some.injEq] at hs
      cases hs
      exact h.event_to (.postSem exitCode) (Nat.le_succ _) (Nat.le_refl _)
        (fun _ _ => .inr (Nat.lt_succ_self _)) (fun _ => False.elim)
        (fun he => by obtain ⟨_, he⟩ := he; cases he) (fun _ => .inl (Nat.succ_pos _))
        (fun _ => .inr (.inr trivial)) (fun _ => id) s.shuttingDown s.pausedAtExit
    | starting =>
      simp only [eventStep, he, Option.some.injEq] at hs
      cases hs
      exact h.event_to .evqWait (Nat.le_succ _) (Nat.le_refl _) (fun _ => False.elim)
        (fun _ => False.elim) (fun he => by obtain ⟨_, he⟩ := he; cases he)
        (fun _ => .inl (Nat.succ_pos _)) (by rw [he]; exact id) (fun _ => id) s.shuttingDown
        s.pausedAtExit
  | postSem exitCode =>
    simp only [eventStep, he, Option.some.injEq] at hs
    cases hs
    exact h.event_to (.systemExit exitCode) (Nat.le_refl _) (Nat.le_succ _)
      (fun _ _ => .inl (by rw [he]; trivial)) (fun _ _ => .inr (Nat.lt_succ_self _))
      (fun he => by obtain ⟨_, he⟩ := he; cases he) (fun _ => .inr (.inr (.inr trivial)))
      (fun _ => .inr (.inr trivial)) (fun _ => id) s.shuttingDown s.pausedAtExit
  | systemExit exitCode =>
    simp only [eventStep, he, Option.some.injEq] at hs
    cases hs
    exact { h.event_on (.releaseResources .request) (by simp) (fun _ _ => by rw [he]; trivial)
      (fun _ _ => by rw [he]; trivial) (by rw [he]; exact id) (by rw [he]; exact id)
      (fun _ => trivial) False.elim s.shuttingDown s.pausedAtExit with }
  | releaseResources why =>
    simp only [eventStep, he, Option.some.injEq] at hs
    cases hs
    refine h.event_on (.postShutdown why) (by simp) ?_ ?_ ?_ ?_ ?_ ?_ s.shuttingDown s.pausedAtExit <;>
      rw [he] <;> cases why <;> first | exact id | exact fun _ => id
  | postShutdown why =>
    simp only [eventStep, he, Option.some.injEq] at hs
    cases hs
    refine h.event_to (.ended why) (Nat.le_refl _) (Nat.le_refl _) (fun _ hpast => .inl ?_)
      (fun _ hpast => .inl ?_) (fun _ => Nat.succ_pos _) (fun hst => ?_) (fun hsd => ?_)
      (fun hstop hout => h.collector hstop ?_) s.shuttingDown s.pausedAtExit
    all_goals rw [he] at *
    · cases why <;> exact hpast
    · cases why <;> exact hpast
    · cases why <;> exact .inr hst
    · cases why <;> exact hsd
    · cases why <;> exact hout
  | ended => simp [eventStep, he] at hs

/-! ## The hook and the thread that ends the JVM -/

/-- The thread that ends the JVM moves on, or the hook does, and waits for no more than before. -/
theorem exit_to (h : Ready s) (c : Int) (pc' : ExitPc)
    {started sem posts : Nat} (hown : (Jvm.exiting c pc').ownPosts ≤ started)
    (hstarted : (Jvm.exiting c pc').WantsStarted → s.jvm.WantsStarted ∧ s.startedSem ≤ started)
    (hsem : (Jvm.exiting c pc').WantsSem → s.jvm.WantsSem ∧ s.sem ≤ sem)
    (hposts : (Jvm.exiting c pc').WantsShutdown → s.jvm.WantsShutdown ∧ s.shutdownSem ≤ posts)
    {evQ : List (PsMsg C)} (hstarting : pc' = .hooks (.waitStarted true) → .shutdownStarting ∈ evQ)
    (hshutdown : pc' = .waitShutdown true → .shutdown ∈ evQ) {fd : Bool}
    (hfd : pc' = .joinListener → fd = true)
    (hstops : fd = true → (Jvm.exiting c pc').StopsListener) (skipped freed : Bool) :
    Ready { s with
      jvm := .exiting c pc', evQ := evQ, startedSem := started, sem := sem, shutdownSem := posts
      shutdownFd := fd, waitSkipped := skipped, freed := freed } :=
  { h with
    own := hown
    started := fun hp he hw =>
      Nat.lt_of_lt_of_le (h.started hp he (hstarted hw).1) (hstarted hw).2
    sem := fun hp he hw => Nat.lt_of_lt_of_le (h.sem hp he (hsem hw).1) (hsem hw).2
    posted := fun he hw => Nat.lt_of_lt_of_le (h.posted he (hposts hw).1) (hposts hw).2
    starting := fun _ hjvm' => by cases hjvm'; exact .inr (.inl (hstarting rfl))
    shutdown := fun _ hjvm' => by cases hjvm'; exact .inl (hshutdown rfl)
    fd := fun _ hjvm' => by cases hjvm'; exact hfd rfl
    stops := hstops }

/-- The descriptor of `uif_destroy` is not ready before `ps_destroy`. -/
theorem fd_of (h : Ready s) {c : Int} {pc : ExitPc} (hjvm : s.jvm = .exiting c pc)
    (hpc : ¬ (Jvm.exiting c pc).StopsListener) : s.shutdownFd = true → False := fun hfd =>
  hpc (hjvm ▸ h.stops hfd)

theorem hook_step (h : Ready s) {ok : Bool} {s' : State C} (hs : hookStep s ok = some s') :
    Ready s' := by
  have hown := h.own
  unfold hookStep at hs
  split at hs
  · rename_i c hjvm
    have hfd := h.fd_of hjvm id
    split at hs
    · cases hs
      refine h.exit_to c (.hooks .sendStarting) (Nat.zero_le _) (fun _ => ⟨?_, Nat.le_refl _⟩)
        (fun _ => ⟨?_, Nat.le_refl _⟩) (fun _ => ⟨?_, Nat.le_refl _⟩) (by simp) (by simp) (by simp)
        (fun hf => (hfd hf).elim) s.waitSkipped s.freed <;> rw [hjvm] <;> trivial
    · cases hs
      refine h.exit_to c (.hooks .done) (Nat.zero_le _) False.elim False.elim
        (fun _ => ⟨?_, Nat.le_refl _⟩) (by simp) (by simp) (by simp)
        (fun hf => (hfd hf).elim) true s.freed
      rw [hjvm]
      trivial
  · rename_i c hjvm
    have hfd := h.fd_of hjvm id
    cases hs
    cases ok
    · refine h.exit_to c (.hooks .postStarted) (Nat.zero_le _) (fun _ => ⟨?_, Nat.le_refl _⟩)
        (fun _ => ⟨?_, Nat.le_refl _⟩) (fun _ => ⟨?_, Nat.le_refl _⟩) (by simp) (by simp) (by simp)
        (fun hf => (hfd hf).elim) s.waitSkipped s.freed <;> rw [hjvm] <;> trivial
    · refine h.exit_to c (.hooks (.waitStarted true)) (Nat.zero_le _)
        (fun _ => ⟨?_, Nat.le_refl _⟩) (fun _ => ⟨?_, Nat.le_refl _⟩) (fun _ => ⟨?_, Nat.le_refl _⟩)
        (by simp [State.evqPush]) (by simp) (by simp) (fun hf => (hfd hf).elim) s.waitSkipped
        s.freed <;>
        rw [hjvm] <;> trivial
  · rename_i c hjvm
    have hfd := h.fd_of hjvm id
    cases hs
    refine h.exit_to c (.hooks (.waitStarted false)) (Nat.succ_pos _)
      (fun _ => ⟨?_, Nat.le_succ _⟩) (fun _ => ⟨?_, Nat.le_refl _⟩) (fun _ => ⟨?_, Nat.le_refl _⟩)
      (by simp) (by simp) (by simp) (fun hf => (hfd hf).elim) s.waitSkipped s.freed <;>
      rw [hjvm] <;> trivial
  · rename_i c sent hjvm
    have hfd := h.fd_of hjvm id
    split at hs
    · cases hs
      refine h.exit_to c (.hooks (.waitSem sent)) (Nat.zero_le _) False.elim
        (fun _ => ⟨?_, Nat.le_refl _⟩) (fun _ => ⟨?_, Nat.le_refl _⟩) (by simp) (by simp) (by simp)
        (fun hf => (hfd hf).elim) s.waitSkipped s.freed <;> rw [hjvm] <;> trivial
    · cases hs
  · rename_i c sent hjvm
    have hfd := h.fd_of hjvm id
    split at hs
    · cases hs
      refine h.exit_to c (.hooks .done) (Nat.zero_le _) False.elim False.elim
        (fun _ => ⟨?_, Nat.le_refl _⟩) (by simp) (by simp) (by simp) (fun hf => (hfd hf).elim)
        s.waitSkipped s.freed
      rw [hjvm]
      trivial
    · cases hs
  · cases hs

theorem exit_step (h : Ready s) {ok : Bool} {s' : State C} (hs : exitStep s ok = some s') :
    Ready s' := by
  unfold exitStep at hs
  split at hs
  · rename_i c hjvm
    have hfd := h.fd_of hjvm id
    cases hs
    refine h.exit_to c .sendShutdown (Nat.zero_le _) False.elim False.elim
      (fun _ => ⟨?_, Nat.le_refl _⟩) (by simp) (by simp) (by simp) (fun hf => (hfd hf).elim)
      s.waitSkipped s.freed
    rw [hjvm]
    trivial
  · rename_i c hjvm
    have hfd := h.fd_of hjvm id
    split at hs
    · cases hs
      refine h.exit_to c (.waitShutdown ok) (Nat.zero_le _) False.elim False.elim
        (fun _ => ⟨?_, Nat.le_refl _⟩) (by simp) (fun hsent => ?_) (by simp)
        (fun hf => (hfd hf).elim) s.waitSkipped s.freed
      · rw [hjvm]
        trivial
      · cases hsent
        simp [State.evqPush]
    · cases hs
      exact h.exit_to c .stopListener (Nat.zero_le _) False.elim False.elim False.elim (by simp)
        (by simp) (by simp) (fun hf => (hfd hf).elim) s.waitSkipped s.freed
  · rename_i c sent hjvm
    have hfd := h.fd_of hjvm id
    split at hs
    · cases hs
      exact h.exit_to c .stopListener (Nat.zero_le _) False.elim False.elim False.elim (by simp)
        (by simp) (by simp) (fun hf => (hfd hf).elim) s.waitSkipped s.freed
    · cases hs
  · rename_i c hjvm
    cases hs
    exact h.exit_to c .joinListener (Nat.zero_le _) False.elim False.elim False.elim (by simp)
      (by simp) (fun _ => rfl) (fun _ => trivial) s.waitSkipped s.freed
  · rename_i c hjvm
    split at hs
    · cases hs
    · cases hs
      exact h.exit_to c .freeServer (Nat.zero_le _) False.elim False.elim False.elim (by simp)
        (by simp) (by simp) (fun _ => trivial) s.waitSkipped s.freed
  · rename_i c hjvm
    cases hs
    exact h.exit_to c .unloaded (Nat.zero_le _) False.elim False.elim False.elim (by simp)
      (by simp) (by simp) (fun _ => trivial) s.waitSkipped true
  · rename_i c hjvm
    cases hs
    exact h.halt c
  · cases hs

theorem begin_exit (h : Ready s) (c : Int) : Ready (beginExit s c) := by
  unfold beginExit
  split
  · rename_i hjvm
    have hstarted := h.started
    have hsem := h.sem
    have hposted := h.posted
    have hstops := h.stops
    rw [hjvm] at hstarted hsem hposted hstops
    split
    · exact { h with
        own := Nat.zero_le _
        started := fun hp he _ => hstarted hp he trivial
        sem := fun hp he _ => hsem hp he trivial
        posted := fun he _ => hposted he trivial
        starting := fun _ hjvm' => by cases hjvm'
        shutdown := fun _ hjvm' => by cases hjvm'
        fd := fun _ hjvm' => by cases hjvm'
        stops := fun hf => (hstops hf).elim }
    · exact { h with
        own := Nat.zero_le _
        started := fun _ _ hw => hw.elim
        sem := fun _ _ hw => hw.elim
        posted := fun he _ => hposted he trivial
        starting := fun _ hjvm' => by cases hjvm'
        shutdown := fun _ hjvm' => by cases hjvm'
        fd := fun _ hjvm' => by cases hjvm'
        stops := fun hf => (hstops hf).elim }
  · exact h

/-! ## Any step -/

theorem push (h : Ready s) (msg : PsMsg C) : Ready (s.evqPush true msg) :=
  { h with
    starting := fun c hjvm => (h.starting c hjvm).imp_right
      (Or.imp_left fun hmem => List.mem_append_left _ hmem)
    shutdown := fun c hjvm => (h.shutdown c hjvm).imp_left fun hmem => List.mem_append_left _ hmem }

end Ready

theorem ready_step {s : State C} {a : Act C} (hsafe : Safe s) (h : Ready s) : Ready (step s a) := by
  unfold step
  cases hs : tryStep s a with
  | none => exact h
  | some s' =>
    unfold tryStep at hs
    split at hs
    · cases hs
    · show Ready s'
      cases a with
      | main ok => exact h.main_step hsafe hs
      | event ok => exact h.event_step hs
      | hook ok => exact h.hook_step hs
      | exiting ok => exact h.exit_step hs
      | exitThread =>
        simp only [liveStep, exitThreadStep, Option.map_eq_some_iff] at hs
        obtain ⟨c, -, rfl⟩ := hs
        have hnext : Ready { s with exitThread := none } := { h with }
        exact hnext.begin_exit c
      | wake =>
        simp only [liveStep] at hs
        split at hs
        · cases hs
          exact { h with }
        · cases hs
      | exit exitCode =>
        simp only [liveStep] at hs
        split at hs
        · cases hs
          exact h.begin_exit exitCode
        · cases hs
      | receive msg =>
        simp only [liveStep] at hs
        split at hs
        · cases hs
          exact h.push msg
        · cases hs
      | listenerStops error =>
        simp only [liveStep] at hs
        split at hs
        · cases hs
          exact { h with }
        · cases hs
      | loadClass name bytecode loader =>
        simp only [liveStep] at hs
        split at hs
        · cases hs
          exact h.push _
        · cases hs

/-- What holds in every state of an orderly run in which the hook gets to its callbacks. -/
structure Inv (s : State C) : Prop where
  safe : Safe s
  held : Held s
  ready : Ready s

theorem inv_step {s : State C} {a : Act C} (h : Inv s) (hok : OrderlyInvoked s a) :
    Inv (step s a) :=
  ⟨safe_step h.safe hok.1, held_step h.safe h.held hok.2, ready_step h.safe h.ready⟩

theorem inv_run (pauseOnStart pauseOnExit : Bool) {es : List (Act C)}
    (hrun : Runs.Along step OrderlyInvoked (init C pauseOnStart pauseOnExit) es) :
    Inv (Runs.run step (init C pauseOnStart pauseOnExit) es) :=
  Runs.inv_run Inv (fun _ _ => inv_step) ⟨safe_init _ _, held_init _ _, ready_init _ _⟩ hrun

end JautoProf.Shutdown
