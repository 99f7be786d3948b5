import JautoProf.Shutdown

/-!
# The server is freed when no thread uses it

`ps_destroy` frees the server in the thread that ends the JVM, while the others go on.

Results:
1. `freed_unused`: when the server is freed, the agent thread has made its last post or was never
   started, the hook and the listener have ended, and the main thread is not asleep in
   `ps_wait_for_resume`.
-/

namespace JautoProf.Shutdown

variable {C : Type}

/-- `ps_start` has not yet started the agent thread. -/
def MainPc.Early : MainPc → Prop
  | .registerHook => True
  | .addLogCallback => True
  | .registerBlocker => True
  | .runAgentThread => True
  | _ => False

/-- The main thread has returned from `vm_init`, or it will find the pause to be over. -/
def MainPc.Leaves (m : MainPc) (paused : Bool) : Prop :=
  (∃ started, m = .done started) ∨ m = .lockResume ∧ paused = false

/-- The agent thread has dispatched a request to shut down. -/
def EventPc.Requested : EventPc C → Prop
  | .stopCollector (.request _) => True
  | .postStarted (.request _) => True
  | .postSem _ => True
  | .systemExit _ => True
  | .releaseResources .request => True
  | .postShutdown .request => True
  | .ended .request => True
  | _ => False

/-- The agent thread was not started, or it has made its last post. -/
def EventPc.Gone : EventPc C → Prop
  | .notStarted => True
  | .ended _ => True
  | _ => False

/-- `ps_destroy` has the post of the agent thread. -/
def ExitPc.Waited : ExitPc → Prop
  | .stopListener => True
  | .joinListener => True
  | .freeServer => True
  | .unloaded => True
  | _ => False

/-- `ps_destroy` has joined the listener. -/
def ExitPc.Joined : ExitPc → Prop
  | .freeServer => True
  | .unloaded => True
  | _ => False

/-- What holds in every state of an orderly run. -/
structure Safe (s : State C) : Prop where
  notStarted : s.event = .notStarted ↔ s.main.Early ∨ s.main = .done false
  early : s.main.Early → s.jvm = .running
  asleep : s.main = .waitResume → s.paused = true
  awake : s.event.Requested → s.paused = false
  exitThread : s.exitThread ≠ none → s.event.Requested
  exiting : ∀ c pc, s.jvm = .exiting c pc → (∃ b, s.main = .done b) ∨ s.paused = false
  waiting : ∀ c b, s.jvm = .exiting c (.waitShutdown b) → s.main ≠ .setRunning ∧ s.event ≠ .notStarted
  waited : ∀ c pc, s.jvm = .exiting c pc → pc.Waited → s.main.Leaves s.paused ∧ s.event.Gone
  joined : ∀ c pc, s.jvm = .exiting c pc → pc.Joined → s.listening = false
  posted : 0 < s.shutdownSem → ∃ why, s.event = .ended why
  freed : s.freed = true → s.jvm.isHalted = true ∨ ∃ c, s.jvm = .exiting c .unloaded

theorem safe_init (pauseOnStart pauseOnExit : Bool) : Safe (init C pauseOnStart pauseOnExit) where
  notStarted := iff_of_true rfl (.inl trivial)
  early _ := rfl
  asleep h := by cases h
  awake h := by cases h
  exitThread h := absurd rfl h
  exiting _ _ h := by cases h
  waiting _ _ h := by cases h
  waited _ _ h := by cases h
  joined _ _ h := by cases h
  posted h := absurd h (Nat.lt_irrefl 0)
  freed h := by cases h

namespace Safe

variable {s : State C}

/-! ## The main thread -/

theorem early_to (h : Safe s) (hm : s.main.Early) (m : MainPc) (hm' : m.Early ∨ m = .done false)
    (registered added : Bool) (started sem : Nat) :
    Safe { s with
      main := m, hookRegistered := registered, blockerAdded := added, startedSem := started
      sem := sem } := by
  have hjvm := h.early hm
  exact { h with
    notStarted := iff_of_true (h.notStarted.mpr (.inl hm)) hm'
    early := fun _ => hjvm
    asleep := by grind [MainPc.Early]
    exiting := by grind
    waiting := by grind
    waited := by grind }

/-- `ps_start` gives up. -/
theorem give_up (h : Safe s) (hm : s.main.Early) : Safe { s with main := .done false } :=
  h.early_to hm (.done false) (.inr rfl) s.hookRegistered s.blockerAdded s.startedSem s.sem

/-- The agent thread is started. -/
theorem run_agent (h : Safe s) (hm : s.main = .runAgentThread) :
    Safe { s with event := .initRefs, main := .setRunning } := by
  have hjvm := h.early (by rw [hm]; trivial)
  have hevent := h.notStarted.mpr (.inl (by rw [hm]; trivial))
  have hexit := h.exitThread
  have hposted := h.posted
  exact { h with
    notStarted := by simp [MainPc.Early]
    early := fun hm => hm.elim
    asleep := by simp
    awake := fun hr => hr.elim
    exitThread := by grind [EventPc.Requested]
    exiting := by grind
    waiting := by grind
    waited := by grind
    posted := by grind }

/-- The main thread moves on after the start of the agent thread. -/
theorem late_to (h : Safe s) (hstarted : s.event ≠ .notStarted)
    (hdone : ∀ b, s.main ≠ .done b) {m : MainPc}
    (hm : ¬ m.Early ∧ m ≠ .done false ∧ m ≠ .setRunning)
    (hasleep : m = .waitResume → s.paused = true)
    (hleaves : s.main.Leaves s.paused → m.Leaves s.paused) : Safe { s with main := m } := by
  have hexiting := h.exiting
  have hwaited := h.waited
  exact { h with
    notStarted := iff_of_false hstarted (by grind)
    early := fun hm' => absurd hm' hm.1
    asleep := hasleep
    exiting := by grind
    waiting := fun c b hjvm => ⟨hm.2.2, (h.waiting c b hjvm).2⟩
    waited := by grind }

theorem started (h : Safe s) (hm : ¬ s.main.Early) (hm' : s.main ≠ .done false) :
    s.event ≠ .notStarted := fun hevent => (h.notStarted.mp hevent).elim hm hm'

theorem main_step (h : Safe s) {ok : Bool} {s' : State C}
    (hs : mainStep s ok = some s') : Safe s' := by
  cases hm : s.main with
  | registerHook =>
    have hearly : s.main.Early := by rw [hm]; trivial
    simp only [mainStep, hm] at hs
    split at hs
    · cases hs
      exact h.early_to hearly .addLogCallback (.inl trivial) true s.blockerAdded s.startedSem s.sem
    · cases hs
      exact h.give_up hearly
  | addLogCallback =>
    have hearly : s.main.Early := by rw [hm]; trivial
    simp only [mainStep, hm] at hs
    split at hs
    · cases hs
      refine h.early_to hearly _ (.inl ?_) s.hookRegistered s.blockerAdded s.startedSem s.sem
      split <;> trivial
    · cases hs
      exact h.give_up hearly
  | registerBlocker =>
    have hearly : s.main.Early := by rw [hm]; trivial
    simp only [mainStep, hm] at hs
    split at hs
    · cases hs
      exact h.early_to hearly .runAgentThread (.inl trivial) s.hookRegistered true 0 0
    · cases hs
      exact h.give_up hearly
  | runAgentThread =>
    have hearly : s.main.Early := by rw [hm]; trivial
    simp only [mainStep, hm] at hs
    split at hs
    · cases hs
      exact h.run_agent hm
    · cases hs
      exact h.give_up hearly
  | setRunning =>
    simp only [mainStep, hm, Option.some.injEq] at hs
    cases hs
    refine h.late_to (h.started ?_ ?_) ?_ ?_ ?_ ?_ <;> simp [hm, MainPc.Early, MainPc.Leaves]
  | lockResume =>
    simp only [mainStep, hm, Option.some.injEq] at hs
    cases hs
    refine h.late_to (h.started ?_ ?_) ?_ ?_ ?_ ?_ <;>
      cases hp : s.paused <;> simp [hm, MainPc.Early, MainPc.Leaves]
  | waitResume => simp [mainStep, hm] at hs
  | done => simp [mainStep, hm] at hs

/-! ## The agent thread -/

/-- The agent thread moves on, and what it writes is not what the other threads depend on. -/
theorem event_to (h : Safe s) (hgone : ¬ s.event.Gone)
    (e : EventPc C) (he : e ≠ .notStarted) (hawake : e.Requested → s.paused = false)
    (hexit : s.event.Requested → e.Requested) (evQ : List (PsMsg C)) (started sem : Nat)
    (stop down paused : Bool) :
    Safe { s with
      event := e, evQ := evQ, startedSem := started, sem := sem, stopCalled := stop
      shuttingDown := down, pausedAtExit := paused } := by
  have hne : s.event ≠ .notStarted := fun hevent => hgone (by rw [hevent]; trivial)
  exact { h with
    notStarted := iff_of_false he fun hm => hne (h.notStarted.mpr hm)
    awake := hawake
    exitThread := fun hx => hexit (h.exitThread hx)
    waiting := fun c b hjvm => ⟨(h.waiting c b hjvm).1, he⟩
    waited := fun c pc hjvm hpc => absurd (h.waited c pc hjvm hpc).2 hgone
    posted := fun hp => by
      obtain ⟨why, hevent⟩ := h.posted hp
      exact absurd (by rw [hevent]; trivial) hgone }

theorem resume (h : Safe s) : Safe (resumeVm s) := by
  unfold resumeVm
  split
  · rename_i hpaused
    have hexiting := h.exiting
    have hwaited := h.waited
    have hwaiting := h.waiting
    exact { h with
      notStarted := by have := h.notStarted; grind [MainPc.Early]
      early := by have := h.early; grind [MainPc.Early]
      asleep := by grind
      awake := fun _ => rfl
      exiting := fun _ _ _ => .inr rfl
      waiting := by grind
      waited := by grind [MainPc.Leaves] }
  · exact h

/-- `_exit`: the process ends with the server in it. -/
theorem halt (h : Safe s) (hm : ¬ s.main.Early) (exitCode : Int) :
    Safe { s with jvm := .halted exitCode } :=
  { h with
    early := fun hm' => absurd hm' hm
    exiting := fun _ _ hjvm => by cases hjvm
    waiting := fun _ _ hjvm => by cases hjvm
    waited := fun _ _ hjvm => by cases hjvm
    joined := fun _ _ hjvm => by cases hjvm
    freed := fun _ => .inl rfl }

/-- The agent thread starts the thread of `jniSafeExit`. -/
theorem system_exit (h : Safe s) {exitCode : Int}
    (he : s.event = .systemExit exitCode) (exitThread : Option Int) :
    Safe { s with exitThread := exitThread, event := .releaseResources .request } := by
  have hgone : ¬ s.event.Gone := by rw [he]; exact id
  have hreq : s.event.Requested := by rw [he]; trivial
  have hnext := h.event_to hgone (.releaseResources .request) (by simp)
    (fun _ => h.awake hreq) (fun _ => trivial) s.evQ s.startedSem s.sem s.stopCalled s.shuttingDown
    s.pausedAtExit
  exact { hnext with exitThread := fun _ => trivial }

/-- The last post of the agent thread. -/
theorem post_shutdown (h : Safe s) {why : LoopEnd}
    (he : s.event = .postShutdown why) :
    Safe { s with shutdownSem := s.shutdownSem + 1, event := .ended why } := by
  have hgone : ¬ s.event.Gone := by rw [he]; exact id
  have hreq : s.event.Requested ↔ (EventPc.ended why : EventPc C).Requested := by
    rw [he]
    cases why <;> rfl
  have hnext := h.event_to hgone (.ended why) (by simp) (fun hr => h.awake (hreq.mpr hr))
    hreq.mp s.evQ s.startedSem s.sem s.stopCalled s.shuttingDown s.pausedAtExit
  exact { hnext with posted := fun _ => ⟨why, rfl⟩ }

/-- The place after a message was handled, or where its handler goes on. -/
theorem dispatch_to (h : Safe s) {msg : PsMsg C}
    (he : s.event = .dispatch msg) (e : EventPc C) (hns : e ≠ .notStarted)
    (hawake : e.Requested → s.paused = false) (down paused : Bool) :
    Safe { s with event := e, shuttingDown := down, pausedAtExit := paused } :=
  h.event_to (by rw [he]; exact id) e hns hawake (by rw [he]; exact False.elim) s.evQ s.startedSem
    s.sem s.stopCalled down paused

theorem dispatch_step (h : Safe s) {msg : PsMsg C}
    (he : s.event = .dispatch msg) : Safe (dispatch s msg) := by
  have hwait := h.dispatch_to he .evqWait (by simp) False.elim
  cases msg with
  | usrRq client rq =>
    cases rq with
    | resume =>
      have hevent : (resumeVm s).event = .dispatch (.usrRq client .resume) := by
        unfold resumeVm
        split <;> exact he
      exact h.resume.dispatch_to hevent .evqWait (by simp) False.elim _ _
    | pauseThreads => exact hwait _ _
    | _ => exact hwait s.shuttingDown s.pausedAtExit
  | classLoaded => exact hwait s.shuttingDown s.pausedAtExit
  | shutdown =>
    exact h.dispatch_to he (.releaseResources .shutdown) (by simp) False.elim s.shuttingDown
      s.pausedAtExit
  | shutdownRequest exitCode text =>
    show Safe (handleShutdownRequest s exitCode)
    unfold handleShutdownRequest
    split
    · refine h.halt (fun hm => ?_) exitCode
      have hns := h.notStarted.mpr (.inl hm)
      simp [he] at hns
    · rename_i hpaused
      have hawake : s.paused = false := Bool.eq_false_iff.mpr hpaused
      split
      · exact h.dispatch_to he (.stopCollector (.request exitCode)) (by simp)
          (fun _ => hawake) s.shuttingDown s.pausedAtExit
      · exact h.dispatch_to he (.systemExit exitCode) (by simp) (fun _ => hawake)
          s.shuttingDown s.pausedAtExit
  | shutdownStarting =>
    exact h.dispatch_to he (.stopCollector .starting) (by simp) False.elim true s.pausedAtExit

theorem event_step (h : Safe s) {ok : Bool} {s' : State C}
    (hs : eventStep s ok = some s') : Safe s' := by
  cases he : s.event with
  | notStarted => simp [eventStep, he] at hs
  | initRefs =>
    simp only [eventStep, he, Option.some.injEq] at hs
    cases hs
    refine h.event_to (by rw [he]; exact id) _ ?_ ?_ (by rw [he]; exact False.elim) s.evQ
      s.startedSem s.sem s.stopCalled s.shuttingDown s.pausedAtExit
    · split <;> simp
    · split <;> exact False.elim
  | evqWait =>
    simp only [eventStep, he] at hs
    split at hs
    · cases hs
    · cases hs
      exact h.event_to (by rw [he]; exact id) (.dispatch _) (by simp) False.elim
        (by rw [he]; exact False.elim) _ s.startedSem s.sem s.stopCalled s.shuttingDown s.pausedAtExit
  | dispatch msg =>
    simp only [eventStep, he, Option.some.injEq] at hs
    cases hs
    exact h.dispatch_step he
  | stopCollector origin =>
    simp only [eventStep, he, Option.some.injEq] at hs
    cases hs
    refine h.event_to (by rw [he]; exact id) (.postStarted origin) (by simp)
      (fun hr => h.awake ?_) (fun hr => ?_) s.evQ s.startedSem s.sem true s.shuttingDown s.pausedAtExit
    · cases origin <;> simp_all [EventPc.Requested]
    · cases origin <;> simp_all [EventPc.Requested]
  | postStarted origin =>
    cases origin with
    | request exitCode =>
      simp only [eventStep, he, Option.some.injEq] at hs
      cases hs
      exact h.event_to (by rw [he]; exact id) (.postSem exitCode) (by simp)
        (fun _ => h.awake (by rw [he]; trivial)) (fun _ => trivial) s.evQ (s.startedSem + 1) s.sem
        s.stopCalled s.shuttingDown s.pausedAtExit
    | starting =>
      simp only [eventStep, he, Option.some.injEq] at hs
      cases hs
      exact h.event_to (by rw [he]; exact id) .evqWait (by simp) False.elim
        (by rw [he]; exact False.elim) s.evQ (s.startedSem + 1) s.sem s.stopCalled s.shuttingDown
        s.pausedAtExit
  | postSem exitCode =>
    simp only [eventStep, he, Option.some.injEq] at hs
    cases hs
    exact h.event_to (by rw [he]; exact id) (.systemExit exitCode) (by simp)
      (fun _ => h.awake (by rw [he]; trivial)) (fun _ => trivial) s.evQ s.startedSem (s.sem + 1)
      s.stopCalled s.shuttingDown s.pausedAtExit
  | systemExit exitCode =>
    simp only [eventStep, he, Option.some.injEq] at hs
    cases hs
    exact h.system_exit he _
  | releaseResources why =>
    simp only [eventStep, he, Option.some.injEq] at hs
    cases hs
    have hreq : s.event.Requested ↔ (EventPc.postShutdown why : EventPc C).Requested := by
      rw [he]
      cases why <;> rfl
    exact h.event_to (by rw [he]; exact id) (.postShutdown why) (by simp)
      (fun hr => h.awake (hreq.mpr hr)) hreq.mp s.evQ s.startedSem s.sem s.stopCalled
      s.shuttingDown s.pausedAtExit
  | postShutdown why =>
    simp only [eventStep, he, Option.some.injEq] at hs
    cases hs
    exact h.post_shutdown he
  | ended => simp [eventStep, he] at hs

/-! ## The hook and the thread that ends the JVM -/

/-- The thread that ends the JVM moves on, or the hook does. -/
theorem exit_to (h : Safe s) {c : Int} {pc : ExitPc}
    (hjvm : s.jvm = .exiting c pc) (pc' : ExitPc)
    (hwaiting : ∀ b, pc' = .waitShutdown b → s.main ≠ .setRunning ∧ s.event ≠ .notStarted)
    (hwaited : pc'.Waited → s.main.Leaves s.paused ∧ s.event.Gone)
    (hjoined : pc'.Joined → s.listening = false) (hpc : pc ≠ .unloaded) {posts : Nat}
    (hposts : posts ≤ s.shutdownSem)
    (evQ : List (PsMsg C)) (started sem : Nat) (skipped down : Bool) :
    Safe { s with
      jvm := .exiting c pc', shutdownSem := posts, evQ := evQ, startedSem := started, sem := sem
      waitSkipped := skipped, shutdownFd := down } :=
  { h with
    early := fun hm => by
      have hrunning := h.early hm
      rw [hjvm] at hrunning
      cases hrunning
    exiting := fun _ _ _ => h.exiting c pc hjvm
    waiting := fun _ b hjvm' => by cases hjvm'; exact hwaiting b rfl
    waited := fun _ _ hjvm' hpc => by cases hjvm'; exact hwaited hpc
    joined := fun _ _ hjvm' hpc' => by cases hjvm'; exact hjoined hpc'
    posted := fun hp => h.posted (Nat.lt_of_lt_of_le hp hposts)
    freed := fun hf => by
      rcases h.freed hf with hhalted | ⟨c', hjvm'⟩
      · rw [hjvm] at hhalted
        cases hhalted
      · rw [hjvm] at hjvm'
        cases hjvm'
        exact absurd rfl hpc }

theorem hook_step (h : Safe s) {ok : Bool} {s' : State C}
    (hs : hookStep s ok = some s') : Safe s' := by
  have hto : ∀ {c old}, s.jvm = .exiting c (.hooks old) → ∀ hook evQ started sem skipped,
      Safe { s with
        jvm := .exiting c (.hooks hook), evQ := evQ, startedSem := started, sem := sem
        waitSkipped := skipped } := fun hjvm hook evQ started sem skipped =>
    h.exit_to hjvm (.hooks hook) (by simp) False.elim False.elim (by simp) (Nat.le_refl _) evQ
      started sem skipped s.shutdownFd
  unfold hookStep at hs
  split at hs
  · rename_i hjvm
    split at hs
    · cases hs
      exact hto hjvm .sendStarting s.evQ s.startedSem s.sem s.waitSkipped
    · cases hs
      exact hto hjvm .done s.evQ s.startedSem s.sem true
  · rename_i hjvm
    cases hs
    exact hto hjvm _ _ s.startedSem s.sem s.waitSkipped
  · rename_i hjvm
    cases hs
    exact hto hjvm _ s.evQ _ s.sem s.waitSkipped
  · rename_i hjvm
    split at hs
    · cases hs
      exact hto hjvm _ s.evQ _ s.sem s.waitSkipped
    · cases hs
  · rename_i hjvm
    split at hs
    · cases hs
      exact hto hjvm _ s.evQ s.startedSem _ s.waitSkipped
    · cases hs
  · cases hs

/-- A call of `System.exit`, in a program that has started or for a request to shut down. -/
theorem begin_exit (h : Safe s)
    (hexit : (∃ b, s.main = .done b) ∨ s.event.Requested) (c : Int) : Safe (beginExit s c) := by
  have hearly : ¬ s.main.Early := by
    rintro hm
    rcases hexit with ⟨b, hb⟩ | hr
    · rw [hb] at hm
      exact hm
    · rw [h.notStarted.mpr (.inl hm)] at hr
      exact hr
  have hnext : s.jvm = .running → ∀ hook skipped,
      Safe { s with jvm := .exiting c (.hooks hook), waitSkipped := skipped } :=
    fun hrunning hook skipped =>
    { h with
      early := fun hm => absurd hm hearly
      exiting := fun _ _ _ => hexit.imp_right h.awake
      waiting := fun _ _ hjvm => by cases hjvm
      waited := fun _ _ hjvm hpc => by cases hjvm; exact hpc.elim
      joined := fun _ _ hjvm hpc => by cases hjvm; exact hpc.elim
      freed := fun hf => by
        rcases h.freed hf with hhalted | ⟨c', hjvm'⟩
        · rw [hrunning] at hhalted
          cases hhalted
        · rw [hrunning] at hjvm'
          cases hjvm' }
  unfold beginExit
  split
  · rename_i hrunning
    split
    · exact hnext hrunning .invokeCallbacks s.waitSkipped
    · exact hnext hrunning .done true
  · exact h

theorem exit_thread_step (h : Safe s) {s' : State C}
    (hs : exitThreadStep s = some s') : Safe s' := by
  unfold exitThreadStep at hs
  cases hx : s.exitThread with
  | none => simp [hx] at hs
  | some c =>
    simp only [hx, Option.map_some, Option.some.injEq] at hs
    cases hs
    have hreq := h.exitThread (by simp [hx])
    have hnext : Safe { s with exitThread := none } := { h with exitThread := fun hn => absurd rfl hn }
    exact hnext.begin_exit (.inr hreq) c

theorem exit_step (h : Safe s) {ok : Bool} {s' : State C}
    (horderly : Orderly s (.exiting ok)) (hs : exitStep s ok = some s') : Safe s' := by
  have hleaves : ∀ {c pc}, s.jvm = .exiting c pc → s.main ≠ .setRunning → s.main.Leaves s.paused := by
    intro c pc hjvm hm
    have hexiting := h.exiting c pc hjvm
    have hearly := h.early
    have hasleep := h.asleep
    unfold MainPc.Leaves
    cases hmain : s.main <;> simp_all [MainPc.Early]
  unfold exitStep at hs
  split at hs
  · rename_i c hjvm
    cases hs
    exact h.exit_to hjvm .sendShutdown (by simp) False.elim False.elim (by simp) (Nat.le_refl _) s.evQ
      s.startedSem s.sem s.waitSkipped s.shutdownFd
  · rename_i c hjvm
    have hm := horderly ⟨c, hjvm⟩
    split at hs
    · rename_i hrunning
      cases hs
      refine h.exit_to hjvm _ (fun _ _ => ⟨hm, h.started ?_ ?_⟩) False.elim False.elim (by simp)
        (Nat.le_refl _) _ s.startedSem s.sem s.waitSkipped s.shutdownFd
      · cases hmain : s.main <;> simp_all [MainPc.Early, MainPc.threadRunning]
      · rintro hmain
        simp [hmain, MainPc.threadRunning] at hrunning
    · rename_i hrunning
      cases hs
      refine h.exit_to hjvm .stopListener (by simp) (fun _ => ⟨hleaves hjvm hm, ?_⟩) False.elim
        (by simp) (Nat.le_refl _) s.evQ s.startedSem s.sem s.waitSkipped s.shutdownFd
      have hns : s.event = .notStarted := h.notStarted.mpr (by
        cases hmain : s.main <;> simp_all [MainPc.Early, MainPc.threadRunning])
      rw [hns]
      trivial
  · rename_i c b hjvm
    split at hs
    · rename_i hpost
      cases hs
      obtain ⟨why, hevent⟩ := h.posted hpost
      refine h.exit_to hjvm .stopListener (by simp)
        (fun _ => ⟨hleaves hjvm (h.waiting c b hjvm).1, ?_⟩) False.elim (by simp) (Nat.sub_le _ _) s.evQ
        s.startedSem s.sem s.waitSkipped s.shutdownFd
      rw [hevent]
      trivial
    · cases hs
  · rename_i c hjvm
    cases hs
    exact h.exit_to hjvm .joinListener (by simp) (fun _ => h.waited c _ hjvm trivial) False.elim
      (by simp) (Nat.le_refl _) s.evQ s.startedSem s.sem s.waitSkipped true
  · rename_i c hjvm
    split at hs
    · cases hs
    · rename_i hlisten
      cases hs
      exact h.exit_to hjvm .freeServer (by simp) (fun _ => h.waited c _ hjvm trivial)
        (fun _ => Bool.eq_false_iff.mpr hlisten) (by simp) (Nat.le_refl _) s.evQ s.startedSem s.sem
        s.waitSkipped s.shutdownFd
  · rename_i c hjvm
    cases hs
    exact { h.exit_to hjvm .unloaded (by simp) (fun _ => h.waited c _ hjvm trivial)
        (fun _ => h.joined c _ hjvm trivial) (by simp) (Nat.le_refl _) s.evQ s.startedSem s.sem
        s.waitSkipped s.shutdownFd with
      freed := fun _ => .inr ⟨c, rfl⟩ }
  · rename_i c hjvm
    cases hs
    have hwaited := h.waited c _ hjvm trivial
    have hearly : ¬ s.main.Early := by
      intro hm
      rcases hwaited.1 with ⟨b, hb⟩ | hb
      · rw [hb] at hm
        exact hm
      · rw [hb.1] at hm
        exact hm
    exact h.halt hearly c
  · cases hs

/-! ## Any step -/

/-- The listener and the loaded classes. -/
theorem other_step (h : Safe s) (evQ : List (PsMsg C)) {listening : Bool}
    (hlisten : listening = true → s.listening = true) :
    Safe { s with evQ := evQ, listening := listening } :=
  have hoff : s.listening = false → listening = false := fun hl =>
    Bool.eq_false_iff.mpr fun hl' => Bool.eq_false_iff.mp hl (hlisten hl')
  { h with
    joined := fun c pc hjvm hpc => hoff (h.joined c pc hjvm hpc) }

end Safe

theorem safe_step {s : State C} {a : Act C} (h : Safe s) (horderly : Orderly s a) :
    Safe (step s a) := by
  unfold step
  cases hs : tryStep s a with
  | none => exact h
  | some s' =>
    unfold tryStep at hs
    split at hs
    · cases hs
    · rename_i hhalted
      have : s.jvm.isHalted = false := Bool.eq_false_iff.mpr hhalted
      show Safe s'
      cases a with
      | main ok => exact h.main_step hs
      | event ok => exact h.event_step hs
      | hook ok => exact h.hook_step hs
      | exiting ok => exact h.exit_step horderly hs
      | exitThread => exact h.exit_thread_step hs
      | wake =>
        simp only [liveStep] at hs
        split at hs
        · rename_i hm
          cases hs
          refine h.late_to (h.started ?_ ?_) ?_ ?_ ?_ ?_ <;>
            simp [hm, MainPc.Early, MainPc.Leaves]
        · cases hs
      | exit exitCode =>
        simp only [liveStep] at hs
        split at hs
        · cases hs
          exact h.begin_exit (.inl horderly) exitCode
        · cases hs
      | receive msg =>
        simp only [liveStep] at hs
        split at hs
        · cases hs
          exact h.other_step _ id
        · cases hs
      | listenerStops error =>
        simp only [liveStep] at hs
        split at hs
        · cases hs
          exact h.other_step s.evQ (by simp)
        · cases hs
      | loadClass name bytecode loader =>
        simp only [liveStep] at hs
        split at hs
        · cases hs
          exact h.other_step _ id
        · cases hs

theorem safe_run (pauseOnStart pauseOnExit : Bool) {es : List (Act C)}
    (hrun : Runs.Along step Orderly (init C pauseOnStart pauseOnExit) es) :
    Safe (Runs.run step (init C pauseOnStart pauseOnExit) es) :=
  Runs.inv_run Safe (fun _ _ => safe_step) (safe_init pauseOnStart pauseOnExit) hrun

/-! ## After the server is freed -/

/-- The thread of the action uses the server in its step. -/
def Act.UsesServer : Act C → Prop
  | .main _ => True
  | .event _ => True
  | .hook _ => True
  | .wake => True
  | .receive _ => True
  | .listenerStops _ => True
  | .loadClass .. => True
  | _ => False

/-- After `ps_destroy` has freed the server, no thread has a step left that uses it, except that
the main thread, if it was resumed and has not yet returned from `ps_wait_for_resume`, locks
the mutex once more. -/
theorem freed_unused (pauseOnStart pauseOnExit : Bool) {es : List (Act C)}
    (hrun : Runs.Along step Orderly (init C pauseOnStart pauseOnExit) es)
    (hfreed : (Runs.run step (init C pauseOnStart pauseOnExit) es).freed = true)
    {a : Act C} (huses : a.UsesServer) {s' : State C}
    (hs : tryStep (Runs.run step (init C pauseOnStart pauseOnExit) es) a = some s') :
    (∃ ok, a = .main ok) ∧
      (Runs.run step (init C pauseOnStart pauseOnExit) es).main = .lockResume ∧
      (Runs.run step (init C pauseOnStart pauseOnExit) es).paused = false := by
  have h := safe_run pauseOnStart pauseOnExit hrun
  generalize Runs.run step (init C pauseOnStart pauseOnExit) es = s at *
  unfold tryStep at hs
  split at hs
  · cases hs
  · rename_i hlive
    obtain ⟨c, hjvm⟩ := (h.freed hfreed).resolve_left hlive
    obtain ⟨hleaves, hgone⟩ := h.waited c _ hjvm trivial
    have hlisten := h.joined c _ hjvm trivial
    cases a with
    | main ok =>
      rcases hleaves with ⟨started, hm⟩ | hm
      · simp [liveStep, mainStep, hm] at hs
      · exact ⟨⟨ok, rfl⟩, hm⟩
    | event ok => cases he : s.event <;> simp_all [liveStep, eventStep, EventPc.Gone]
    | hook ok => simp [liveStep, hookStep, hjvm] at hs
    | wake =>
      rcases hleaves with ⟨started, hm⟩ | ⟨hm, -⟩
      · simp [liveStep, hm] at hs
      · simp [liveStep, hm] at hs
    | receive msg => simp [liveStep, hlisten] at hs
    | listenerStops error => simp [liveStep, hlisten] at hs
    | loadClass name bytecode loader => simp [liveStep, hjvm, Jvm.loadsClasses] at hs
    | exiting => exact huses.elim
    | exitThread => exact huses.elim
    | exit => exact huses.elim

/-- A request to shut down that is dispatched before the main thread has locked the mutex. -/
def earlyRequest : List (Act Unit) :=
  [.main true, .main true, .main true, .main true, .event true, .receive (.shutdownRequest 0 []),
    .event true, .event true, .event true, .exitThread, .hook true, .event true, .event true,
    .exiting true, .exiting true, .exiting true, .exiting true, .listenerStops false, .exiting true,
    .exiting true]

theorem earlyRequest_orderly : Runs.Along step Orderly (init Unit false false) earlyRequest := by
  refine ⟨?_, ?_, ?_, ?_, ?_, ?_, ?_, ?_, ?_, ?_, ?_, ?_, ?_, ?_, ?_, ?_, ?_, ?_, ?_, ?_, ?_⟩ <;>
    first | trivial | exact fun _ => by decide

theorem freed_unused_earlyRequest :
    (∃ ok, (Act.main true : Act Unit) = .main ok) ∧
      (Runs.run step (init Unit false false) earlyRequest).main = .lockResume ∧
      (Runs.run step (init Unit false false) earlyRequest).paused = false :=
  freed_unused false false earlyRequest_orderly (by decide) (a := .main true) trivial rfl

end JautoProf.Shutdown
