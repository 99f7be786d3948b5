import JautoProf.ShutdownSafe

/-!
# The exit of the JVM is held for a client

With the pause on exit, the hook waits until a client has asked for the shutdown, so that the
client can collect the last statistics first.

Results:
1. `exit_held`: `Agent_OnUnload` is not called before a request to shut down was dispatched; until
   then the event loop serves the clients; where the hook's message was sent, the collector was
   told to stop before the hook waits for the request; and `shutting_down` is only set once the
   exit has begun.
-/

namespace JautoProf.Shutdown

variable {C : Type}

/-- The hook does its part in `shutdown_wait_callback`. -/
def HookPc.Waits : HookPc → Prop
  | .invokeCallbacks => False
  | .done => False
  | _ => True

/-- The hook has not ended. -/
def ExitPc.Holds : ExitPc → Prop
  | .hooks .done => False
  | .hooks _ => True
  | _ => False

/-- The message of `ps_destroy` may have been sent. -/
def ExitPc.Destroys : ExitPc → Prop
  | .hooks _ => False
  | .sendShutdown => False
  | _ => True

/-- The agent thread is in its loop, or it will be, and no request has ended the loop. -/
def EventPc.Serves : EventPc C → Prop
  | .initRefs => True
  | .evqWait => True
  | .dispatch _ => True
  | .stopCollector .starting => True
  | .postStarted .starting => True
  | _ => False

/-- The agent thread did not reach its loop. -/
def EventPc.NoRefs : EventPc C → Prop
  | .releaseResources .noRefs => True
  | .postShutdown .noRefs => True
  | .ended .noRefs => True
  | _ => False

/-- The agent thread handles the message of the hook. -/
def EventPc.Starting : EventPc C → Prop
  | .dispatch .shutdownStarting => True
  | .stopCollector .starting => True
  | .postStarted .starting => True
  | _ => False

/-- The agent thread has taken the message of `ps_destroy`. -/
def EventPc.Destroyed : EventPc C → Prop
  | .dispatch .shutdown => True
  | .releaseResources .shutdown => True
  | .postShutdown .shutdown => True
  | .ended .shutdown => True
  | _ => False

/-- The posts of `started_sem` that the hook made itself. -/
def Jvm.ownPosts : Jvm → Nat
  | .exiting _ (.hooks (.waitStarted false)) => 1
  | _ => 0

/-- `invoke_callbacks` gets to the callbacks. -/
def Invoked (s : State C) : Act C → Prop
  | .hook ok => (∃ exitCode, s.jvm = .exiting exitCode (.hooks .invokeCallbacks)) → ok = true
  | _ => True

/-- The message of `ps_destroy` may have been sent, or the process is gone. -/
def Jvm.Destroys : Jvm → Prop
  | .running => False
  | .exiting _ pc => pc.Destroys
  | .halted _ => True

structure Held (s : State C) : Prop where
  hooked : s.main = .addLogCallback ∨ s.main = .registerBlocker ∨ s.main = .runAgentThread →
    s.hookRegistered = true
  blocked : s.main = .runAgentThread → s.pauseOnExit = true → s.blockerAdded = true
  blocker : s.main = .registerBlocker ∨ s.blockerAdded = true → s.pauseOnExit = true
  registered : s.event ≠ .notStarted → s.hookRegistered = true
  added : s.event ≠ .notStarted → s.pauseOnExit = true → s.blockerAdded = true
  waits : ∀ c h, s.jvm = .exiting c (.hooks h) → h.Waits → s.blockerAdded = true
  skipped : s.waitSkipped = true →
    s.jvm ≠ .running ∧ (s.pauseOnExit = false ∨ s.event = .notStarted)
  posted : 0 < s.sem → s.event.Requested
  past : ∀ c pc, s.jvm = .exiting c pc → ¬ pc.Holds → s.event.Requested ∨ s.waitSkipped = true
  stopped : s.jvm.isHalted = false → s.jvm.ownPosts < s.startedSem → s.stopCalled = true
  posting : ∀ o, s.event = .postStarted o → s.stopCalled = true
  waiting : ∀ c, s.jvm = .exiting c (.hooks (.waitSem true)) → s.stopCalled = true
  queued : PsMsg.shutdownStarting ∈ s.evQ → s.jvm ≠ .running
  starting : s.event.Starting → s.jvm ≠ .running
  down : s.shuttingDown = true → s.jvm ≠ .running
  sent : PsMsg.shutdown ∈ s.evQ → s.jvm.Destroys
  destroyed : s.event.Destroyed → s.jvm.Destroys

theorem held_init (pauseOnStart pauseOnExit : Bool) : Held (init C pauseOnStart pauseOnExit) where
  hooked h := by rcases h with h | h | h <;> cases h
  blocked h := by cases h
  blocker h := by rcases h with h | h <;> cases h
  registered h := absurd rfl h
  added h := absurd rfl h
  waits _ _ h := by cases h
  skipped h := by cases h
  posted h := absurd h (Nat.lt_irrefl 0)
  past _ _ h := by cases h
  stopped _ h := absurd h (Nat.lt_irrefl 0)
  posting _ h := by cases h
  waiting _ h := by cases h
  queued h := by cases h
  starting h := by cases h
  down h := by cases h
  sent h := by cases h
  destroyed h := by cases h

namespace Held

variable {s : State C}

/-! ## The main thread -/

theorem main_to (h : Held s) (m : MainPc)
    (hm : m ≠ .addLogCallback ∧ m ≠ .registerBlocker ∧ m ≠ .runAgentThread) :
    Held { s with main := m } :=
  { h with
    hooked := fun hm' => by
      rcases hm' with rfl | rfl | rfl
      · exact absurd rfl hm.1
      · exact absurd rfl hm.2.1
      · exact absurd rfl hm.2.2
    blocked := fun hm' => absurd hm' hm.2.2
    blocker := fun hb => h.blocker (.inr (hb.resolve_left hm.2.1)) }

theorem main_step (h : Held s) (hsafe : Safe s) {ok : Bool} {s' : State C}
    (hs : mainStep s ok = some s') : Held s' := by
  cases hm : s.main with
  | registerHook =>
    simp only [mainStep, hm] at hs
    split at hs
    · cases hs
      exact { h with
        hooked := fun _ => rfl
        blocked := by simp
        blocker := fun hb => h.blocker (.inr (hb.resolve_left (by simp)))
        registered := fun _ => rfl }
    · cases hs
      exact h.main_to _ (by simp)
  | addLogCallback =>
    have hhook := h.hooked (.inl hm)
    simp only [mainStep, hm] at hs
    split at hs
    · cases hs
      exact { h with
        hooked := fun _ => hhook
        blocked := by split <;> simp_all
        blocker := by have := h.blocker; split <;> simp_all }
    · cases hs
      exact h.main_to _ (by simp)
  | registerBlocker =>
    have hhook := h.hooked (.inr (.inl hm))
    have hpause := h.blocker (.inl hm)
    simp only [mainStep, hm] at hs
    split at hs
    · cases hs
      exact { h with
        hooked := fun _ => hhook
        blocked := fun _ _ => rfl
        blocker := fun _ => hpause
        added := fun _ _ => rfl
        waits := fun _ _ _ _ => rfl
        posted := fun hp => absurd hp (Nat.lt_irrefl 0)
        stopped := fun _ hp => absurd hp (Nat.not_lt_zero _) }
    · cases hs
      exact h.main_to _ (by simp)
  | runAgentThread =>
    have hhook := h.hooked (.inr (.inr hm))
    have hblock := h.blocked hm
    have hjvm := hsafe.early (by rw [hm]; trivial)
    have hevent := hsafe.notStarted.mpr (.inl (by rw [hm]; trivial))
    simp only [mainStep, hm] at hs
    split at hs
    · cases hs
      exact { h with
        hooked := by simp
        blocked := by simp
        blocker := fun hb => h.blocker (.inr (hb.resolve_left (by simp)))
        registered := fun _ => hhook
        added := fun _ => hblock
        skipped := fun hskip => absurd hjvm (h.skipped hskip).1
        posted := fun hp => by
          have hreq := h.posted hp
          rw [hevent] at hreq
          exact hreq.elim
        past := fun _ _ hjvm' => by
          rw [hjvm] at hjvm'
          cases hjvm'
        posting := by simp
        starting := False.elim
        destroyed := False.elim }
    · cases hs
      exact h.main_to _ (by simp)
  | setRunning =>
    simp only [mainStep, hm, Option.some.injEq] at hs
    cases hs
    exact h.main_to _ (by simp)
  | lockResume =>
    simp only [mainStep, hm, Option.some.injEq] at hs
    cases hs
    exact h.main_to _ (by split <;> simp)
  | waitResume => simp [mainStep, hm] at hs
  | done => simp [mainStep, hm] at hs

/-! ## The agent thread -/

/-- The agent thread moves on; a post of `started_sem` follows the call that stops the
collector. -/
theorem event_to (h : Held s) (hns : s.event ≠ .notStarted) (e : EventPc C)
    (hreq : s.event.Requested → e.Requested)
    {started : Nat} {stop : Bool} (hstop : s.stopCalled = true → stop = true)
    (hposting : ∀ o, e = .postStarted o → stop = true)
    (hstopped : s.startedSem < started → stop = true)
    {evQ : List (PsMsg C)} (hevQ : ∀ msg ∈ evQ, msg ∈ s.evQ)
    (hstarting : e.Starting → s.jvm ≠ .running) (hdestroyed : e.Destroyed → s.jvm.Destroys)
    {down : Bool} (hdown : down = true → s.jvm ≠ .running) {sem : Nat}
    (hsem : s.sem < sem → e.Requested) (paused : Bool) :
    Held { s with
      event := e, evQ := evQ, startedSem := started, sem := sem, stopCalled := stop
      shuttingDown := down, pausedAtExit := paused } :=
  { h with
    registered := fun _ => h.registered hns
    added := fun _ => h.added hns
    skipped := fun hskip => ⟨(h.skipped hskip).1, .inl ((h.skipped hskip).2.resolve_right hns)⟩
    posted := fun hp => by
      rcases Nat.lt_or_ge s.sem sem with hlt | hge
      · exact hsem hlt
      · exact hreq (h.posted (Nat.lt_of_lt_of_le hp hge))
    past := fun c pc hjvm hpc => (h.past c pc hjvm hpc).imp_left hreq
    stopped := fun hlive hown => by
      rcases Nat.lt_or_ge s.startedSem started with hlt | hge
      · exact hstopped hlt
      · exact hstop (h.stopped hlive (Nat.lt_of_lt_of_le hown hge))
    posting := hposting
    waiting := fun c hjvm => hstop (h.waiting c hjvm)
    queued := fun hmem => h.queued (hevQ _ hmem)
    starting := hstarting
    down := hdown
    sent := fun hmem => h.sent (hevQ _ hmem)
    destroyed := hdestroyed }

/-- `event_to` where only the place changes. -/
theorem event_on (h : Held s) (hns : s.event ≠ .notStarted) (e : EventPc C)
    (hreq : s.event.Requested → e.Requested) (hposting : ∀ o, e = .postStarted o → s.stopCalled = true)
    (hstarting : e.Starting → s.jvm ≠ .running) (hdestroyed : e.Destroyed → s.jvm.Destroys)
    (paused : Bool) : Held { s with event := e, pausedAtExit := paused } :=
  h.event_to hns e hreq id hposting (fun hlt => absurd hlt (Nat.lt_irrefl _)) (fun _ hmem => hmem)
    hstarting hdestroyed h.down (fun hlt => absurd hlt (Nat.lt_irrefl _)) paused

theorem resume (h : Held s) : Held (resumeVm s) := by
  unfold resumeVm
  split
  · split
    · exact { h.main_to .lockResume (by simp) with }
    · exact { h with }
  · exact h

/-- The process ends. -/
theorem halt (h : Held s) (c : Int) : Held { s with jvm := .halted c } :=
  { h with
    waits := fun _ _ hjvm => by cases hjvm
    skipped := fun hskip => ⟨by simp, (h.skipped hskip).2⟩
    past := fun _ _ hjvm => by cases hjvm
    stopped := fun hlive => by cases hlive
    waiting := fun _ hjvm => by cases hjvm
    queued := fun _ => by simp
    starting := fun _ => by simp
    down := fun _ => by simp
    sent := fun _ => trivial
    destroyed := fun _ => trivial }

theorem dispatch_step (h : Held s) {msg : PsMsg C} (he : s.event = .dispatch msg) :
    Held (dispatch s msg) := by
  have hns : s.event ≠ .notStarted := by simp [he]
  have hreq : ¬ s.event.Requested := by rw [he]; exact id
  have hwait := h.event_on hns .evqWait (fun hr => absurd hr hreq) (by simp) False.elim False.elim
  cases msg with
  | usrRq client rq =>
    cases rq with
    | resume =>
      have hevent : (resumeVm s).event = .dispatch (.usrRq client .resume) := by
        unfold resumeVm
        split <;> exact he
      exact h.resume.event_on (by simp [hevent]) .evqWait (by rw [hevent]; exact False.elim) (by simp)
        False.elim False.elim _
    | pauseThreads => exact hwait _
    | _ => exact hwait s.pausedAtExit
  | classLoaded => exact hwait s.pausedAtExit
  | shutdown =>
    exact h.event_on hns (.releaseResources .shutdown) (fun hr => absurd hr hreq) (by simp) False.elim
      (fun _ => h.destroyed (by rw [he]; trivial)) s.pausedAtExit
  | shutdownRequest exitCode text =>
    show Held (handleShutdownRequest s exitCode)
    unfold handleShutdownRequest
    split
    · exact h.halt exitCode
    · split
      · exact h.event_on hns (.stopCollector (.request exitCode)) (fun _ => trivial) (by simp)
          False.elim False.elim s.pausedAtExit
      · exact h.event_on hns (.systemExit exitCode) (fun _ => trivial) (by simp) False.elim False.elim
          s.pausedAtExit
  | shutdownStarting =>
    have hrun := h.starting (by rw [he]; trivial)
    exact h.event_to hns (.stopCollector .starting) (fun hr => absurd hr hreq) id (by simp)
      (fun hlt => absurd hlt (Nat.lt_irrefl _)) (fun _ hmem => hmem) (fun _ => hrun) False.elim
      (fun _ => hrun) (fun hlt => absurd hlt (Nat.lt_irrefl _)) s.pausedAtExit

theorem event_step (h : Held s) {ok : Bool} {s' : State C} (hs : eventStep s ok = some s') :
    Held s' := by
  cases he : s.event with
  | notStarted => simp [eventStep, he] at hs
  | initRefs =>
    simp only [eventStep, he, Option.some.injEq] at hs
    cases hs
    refine h.event_on (by simp [he]) _ (by rw [he]; exact False.elim) ?_ ?_ ?_ s.pausedAtExit
    · split <;> simp
    · split <;> exact False.elim
    · split <;> exact False.elim
  | evqWait =>
    simp only [eventStep, he] at hs
    split at hs
    · cases hs
    · rename_i msg evQ hevQ
      cases hs
      refine h.event_to (by simp [he]) (.dispatch msg) (by rw [he]; exact False.elim) id (by simp)
        (fun hlt => absurd hlt (Nat.lt_irrefl _)) (by simp +contextual [hevQ]) (fun hstart => ?_)
        (fun hdestroy => ?_) h.down (fun hlt => absurd hlt (Nat.lt_irrefl _)) s.pausedAtExit
      · refine h.queued ?_
        cases msg <;> simp_all [EventPc.Starting]
      · refine h.sent ?_
        cases msg <;> simp_all [EventPc.Destroyed]
  | dispatch msg =>
    simp only [eventStep, he, Option.some.injEq] at hs
    cases hs
    exact h.dispatch_step he
  | stopCollector origin =>
    simp only [eventStep, he, Option.some.injEq] at hs
    cases hs
    refine h.event_to (by simp [he]) (.postStarted origin) (fun hr => ?_) (fun _ => rfl)
      (fun _ _ => rfl)
      (fun _ => rfl) (fun _ hmem => hmem) (fun hstart => h.starting ?_) False.elim h.down
      (fun hlt => absurd hlt (Nat.lt_irrefl _)) s.pausedAtExit
    · cases origin <;> simp_all [EventPc.Requested]
    · cases origin <;> simp_all [EventPc.Starting]
  | postStarted origin =>
    have hstop := h.posting origin he
    cases origin with
    | request exitCode =>
      simp only [eventStep, he, Option.some.injEq] at hs
      cases hs
      exact h.event_to (by simp [he]) (.postSem exitCode) (fun _ => trivial) id (by simp)
        (fun _ => hstop) (fun _ hmem => hmem) False.elim False.elim h.down (fun _ => trivial)
        s.pausedAtExit
    | starting =>
      simp only [eventStep, he, Option.some.injEq] at hs
      cases hs
      exact h.event_to (by simp [he]) .evqWait (by rw [he]; exact False.elim) id (by simp)
        (fun _ => hstop) (fun _ hmem => hmem) False.elim False.elim h.down
        (fun hlt => absurd hlt (Nat.lt_irrefl _)) s.pausedAtExit
  | postSem exitCode =>
    simp only [eventStep, he, Option.some.injEq] at hs
    cases hs
    exact h.event_to (by simp [he]) (.systemExit exitCode) (fun _ => trivial) id (by simp)
      (fun hlt => absurd hlt (Nat.lt_irrefl _)) (fun _ hmem => hmem) False.elim False.elim h.down
      (fun _ => trivial) s.pausedAtExit
  | systemExit exitCode =>
    simp only [eventStep, he, Option.some.injEq] at hs
    cases hs
    exact { h.event_on (by simp [he]) (.releaseResources .request) (fun _ => trivial) (by simp)
      False.elim False.elim s.pausedAtExit with }
  | releaseResources why =>
    simp only [eventStep, he, Option.some.injEq] at hs
    cases hs
    refine h.event_on (by simp [he]) (.postShutdown why) (fun hr => ?_) (by simp) False.elim
      (fun hd => h.destroyed ?_) s.pausedAtExit
    · cases why <;> simp_all [EventPc.Requested]
    · cases why <;> simp_all [EventPc.Destroyed]
  | postShutdown why =>
    simp only [eventStep, he, Option.some.injEq] at hs
    cases hs
    refine { h.event_on (by simp [he]) (.ended why) (fun hr => ?_) (by simp) False.elim
      (fun hd => h.destroyed ?_) s.pausedAtExit with }
    · cases why <;> simp_all [EventPc.Requested]
    · cases why <;> simp_all [EventPc.Destroyed]
  | ended => simp [eventStep, he] at hs

/-! ## The hook and the thread that ends the JVM -/

theorem exit_to (h : Held s) {c : Int} {pc : ExitPc} (hjvm : s.jvm = .exiting c pc) (pc' : ExitPc)
    (hwaits : ∀ hook, pc' = .hooks hook → hook.Waits → s.blockerAdded = true) {skipped : Bool}
    (hskipped : skipped = true → s.waitSkipped = true ∨ s.pauseOnExit = false ∨ s.event = .notStarted)
    (hpast : ¬ pc'.Holds → s.event.Requested ∨ skipped = true) {started : Nat}
    (hstopped : (Jvm.exiting c pc').ownPosts < started → s.stopCalled = true)
    (hwaiting : pc' = .hooks (.waitSem true) → s.stopCalled = true) {sem : Nat} (hsem : sem ≤ s.sem)
    {evQ : List (PsMsg C)} (hsent : PsMsg.shutdown ∈ evQ → pc'.Destroys)
    (hdestroys : pc.Destroys → pc'.Destroys) :
    Held { s with
      jvm := .exiting c pc', evQ := evQ, startedSem := started, sem := sem
      waitSkipped := skipped } :=
  { h with
    waits := fun _ hook hjvm' => by cases hjvm'; exact hwaits hook rfl
    skipped := fun hskip => ⟨by simp, (hskipped hskip).elim (fun hs => (h.skipped hs).2) id⟩
    posted := fun hp => h.posted (Nat.lt_of_lt_of_le hp hsem)
    past := fun _ _ hjvm' => by cases hjvm'; exact hpast
    stopped := fun _ => hstopped
    waiting := fun _ hjvm' => by cases hjvm'; exact hwaiting rfl
    queued := fun _ => by simp
    starting := fun _ => by simp
    down := fun _ => by simp
    sent := hsent
    destroyed := fun hd => hdestroys (by
      have hdes := h.destroyed hd
      rw [hjvm] at hdes
      exact hdes) }

/-- While the hook has not ended, `ps_destroy` has sent nothing. -/
theorem not_sent (h : Held s) {c : Int} {hook : HookPc} (hjvm : s.jvm = .exiting c (.hooks hook)) :
    PsMsg.shutdown ∉ s.evQ := by
  intro hmem
  have hdes := h.sent hmem
  rw [hjvm] at hdes
  exact hdes

theorem hook_step (h : Held s) {ok : Bool} (hok : Invoked s (.hook ok)) {s' : State C}
    (hs : hookStep s ok = some s') : Held s' := by
  unfold hookStep at hs
  split at hs
  · rename_i c hjvm
    have hinv : ok = true := hok ⟨c, hjvm⟩
    have hstopped := h.stopped (by rw [hjvm]; rfl)
    rw [hjvm] at hstopped
    split at hs
    · rename_i hadd
      cases hs
      refine h.exit_to hjvm (.hooks .sendStarting) (fun _ _ _ => ?_) .inl (fun hh => absurd trivial hh)
        hstopped (by simp) (Nat.le_refl _) (fun hmem => absurd hmem (h.not_sent hjvm)) id
      simpa [hinv] using hadd
    · rename_i hadd
      cases hs
      refine h.exit_to hjvm (.hooks .done) (fun hook hh hw => ?_) (fun _ => .inr ?_) (fun _ => .inr rfl)
        hstopped (by simp) (Nat.le_refl _) (fun hmem => absurd hmem (h.not_sent hjvm)) id
      · cases hh
        exact hw.elim
      · have hadded := h.added
        cases hp : s.pauseOnExit with
        | false => exact .inl rfl
        | true =>
          refine .inr (Classical.byContradiction fun hns => hadd ?_)
          simp [hinv, hadded hns hp]
  · rename_i c hjvm
    have hwaits := h.waits c _ hjvm trivial
    have hstopped := h.stopped (by rw [hjvm]; rfl)
    rw [hjvm] at hstopped
    cases hs
    refine h.exit_to hjvm _ (fun _ _ _ => hwaits) .inl ?_ (fun hown => hstopped ?_) (fun hw => ?_)
      (Nat.le_refl _) (fun hmem => absurd hmem ?_) (by exact id)
    · cases ok <;> exact fun hh => absurd trivial hh
    · exact Nat.lt_of_le_of_lt (Nat.zero_le _) hown
    · cases ok <;> cases hw
    · show PsMsg.shutdown ∉ if ok then s.evQ ++ [.shutdownStarting] else s.evQ
      cases ok <;> simp [h.not_sent hjvm]
  · rename_i c hjvm
    have hwaits := h.waits c _ hjvm trivial
    have hstopped := h.stopped (by rw [hjvm]; rfl)
    rw [hjvm] at hstopped
    cases hs
    exact h.exit_to hjvm (.hooks (.waitStarted false)) (fun _ _ _ => hwaits) .inl
      (fun hh => absurd trivial hh) (fun hown => hstopped (Nat.lt_of_succ_lt_succ hown)) (by simp)
      (Nat.le_refl _)
      (fun hmem => absurd hmem (h.not_sent hjvm)) id
  · rename_i c sent hjvm
    have hwaits := h.waits c _ hjvm trivial
    have hstopped := h.stopped (by rw [hjvm]; rfl)
    rw [hjvm] at hstopped
    split at hs
    · rename_i hpos
      cases hs
      refine h.exit_to hjvm (.hooks (.waitSem sent)) (fun _ _ _ => hwaits) .inl
        (fun hh => absurd trivial hh) (fun hown => hstopped ?_) (fun hsent => ?_) (Nat.le_refl _)
        (fun hmem => absurd hmem (h.not_sent hjvm)) id
      · cases sent
        · have hleft : 0 < s.startedSem - 1 := hown
          show 1 < s.startedSem
          omega
        · exact hpos
      · cases hsent
        exact hstopped hpos
    · cases hs
  · rename_i c sent hjvm
    have hstopped := h.stopped (by rw [hjvm]; rfl)
    rw [hjvm] at hstopped
    split at hs
    · rename_i hpos
      cases hs
      refine h.exit_to hjvm (.hooks .done) (fun hook hh hw => ?_) .inl (fun _ => .inl (h.posted hpos))
        hstopped (by simp) (Nat.sub_le _ _) (fun hmem => absurd hmem (h.not_sent hjvm)) id
      cases hh
      exact hw.elim
    · cases hs
  · cases hs

theorem begin_exit (h : Held s) (c : Int) : Held (beginExit s c) := by
  unfold beginExit
  split
  · rename_i hjvm
    have hstopped := h.stopped (by rw [hjvm]; rfl)
    have hnext : ∀ hook skipped, ¬ HookPc.Waits hook → ¬ (hook = .done ∧ skipped = false) →
        (Jvm.exiting c (.hooks hook)).ownPosts = 0 → (skipped = true → s.event = .notStarted) →
        Held { s with jvm := .exiting c (.hooks hook), waitSkipped := skipped } :=
      fun hook skipped hwaits hdone hown hskip =>
        { h with
          waits := fun _ _ hjvm' hw => by cases hjvm'; exact absurd hw hwaits
          skipped := fun hs => ⟨by simp, .inr (hskip hs)⟩
          past := fun _ pc hjvm' hpc => by
            cases hjvm'
            refine .inr ?_
            cases hook <;> cases skipped <;> simp_all [ExitPc.Holds]
          stopped := fun _ hlt => hstopped (by rw [hjvm]; exact Nat.lt_of_le_of_lt (Nat.zero_le _) hlt)
          waiting := fun _ hjvm' => by cases hjvm'; exact absurd trivial hwaits
          queued := fun _ => by simp
          starting := fun _ => by simp
          down := fun _ => by simp
          sent := fun hmem => by
            have hdes := h.sent hmem
            rw [hjvm] at hdes
            exact hdes.elim
          destroyed := fun hd => by
            have hdes := h.destroyed hd
            rw [hjvm] at hdes
            exact hdes.elim }
    split
    · refine hnext .invokeCallbacks s.waitSkipped id (by simp) rfl fun hskip => ?_
      exact absurd hjvm (h.skipped hskip).1
    · rename_i hreg
      exact hnext .done true id (by simp) rfl fun _ =>
        Classical.byContradiction fun hns => hreg (h.registered hns)
  · exact h

theorem exit_step (h : Held s) {ok : Bool} {s' : State C} (hs : exitStep s ok = some s') :
    Held s' := by
  have hpast : ∀ {c pc}, s.jvm = .exiting c pc → ¬ pc.Holds →
      s.event.Requested ∨ s.waitSkipped = true := fun hjvm hpc => h.past _ _ hjvm hpc
  have hstop : ∀ {c pc n}, s.jvm = .exiting c pc → ¬ pc.Holds → n < s.startedSem →
      s.stopCalled = true := fun {c pc n} hjvm hpc hlt => by
    refine h.stopped (by rw [hjvm]; rfl) (Nat.lt_of_le_of_lt ?_ hlt)
    rw [hjvm]
    unfold Jvm.ownPosts
    split
    · rename_i heq
      cases heq
      exact absurd trivial hpc
    · exact Nat.zero_le n
  unfold exitStep at hs
  split at hs
  · rename_i c hjvm
    cases hs
    exact h.exit_to hjvm .sendShutdown (by simp) .inl (fun _ => hpast hjvm id) (hstop hjvm id)
      (by simp) (Nat.le_refl _) (fun hmem => absurd hmem (h.not_sent hjvm)) id
  · rename_i c hjvm
    split at hs
    · cases hs
      exact h.exit_to hjvm (.waitShutdown ok) (by simp) .inl (fun _ => hpast hjvm id)
        (hstop hjvm id) (by simp) (Nat.le_refl _) (fun _ => trivial) fun _ => trivial
    · cases hs
      exact h.exit_to hjvm .stopListener (by simp) .inl (fun _ => hpast hjvm id) (hstop hjvm id)
        (by simp) (Nat.le_refl _) (fun _ => trivial) fun _ => trivial
  · rename_i c sent hjvm
    split at hs
    · cases hs
      exact { h.exit_to hjvm .stopListener (by simp) .inl (fun _ => hpast hjvm id) (hstop hjvm id)
        (by simp) (Nat.le_refl _) (fun _ => trivial) (fun _ => trivial) with }
    · cases hs
  · rename_i c hjvm
    cases hs
    exact { h.exit_to hjvm .joinListener (by simp) .inl (fun _ => hpast hjvm id) (hstop hjvm id)
      (by simp) (Nat.le_refl _) (fun _ => trivial) (fun _ => trivial) with }
  · rename_i c hjvm
    split at hs
    · cases hs
    · cases hs
      exact h.exit_to hjvm .freeServer (by simp) .inl (fun _ => hpast hjvm id) (hstop hjvm id)
        (by simp) (Nat.le_refl _) (fun _ => trivial) fun _ => trivial
  · rename_i c hjvm
    cases hs
    exact { h.exit_to hjvm .unloaded (by simp) .inl (fun _ => hpast hjvm id) (hstop hjvm id)
      (by simp) (Nat.le_refl _) (fun _ => trivial) (fun _ => trivial) with }
  · rename_i c hjvm
    cases hs
    exact h.halt c
  · cases hs

/-! ## Any step -/

/-- The listener puts a message in the queue, or a class is loaded. -/
theorem push (h : Held s) {msg : PsMsg C} (hstart : msg ≠ .shutdownStarting)
    (hdown : msg ≠ .shutdown) : Held (s.evqPush true msg) :=
  { h with
    queued := fun hmem => by
      rcases List.mem_append.mp hmem with hmem | hmem
      · exact h.queued hmem
      · exact absurd (List.mem_singleton.mp hmem).symm hstart
    sent := fun hmem => by
      rcases List.mem_append.mp hmem with hmem | hmem
      · exact h.sent hmem
      · exact absurd (List.mem_singleton.mp hmem).symm hdown }

end Held

theorem held_step {s : State C} {a : Act C} (hsafe : Safe s) (h : Held s) (hok : Invoked s a) :
    Held (step s a) := by
  unfold step
  cases hs : tryStep s a with
  | none => exact h
  | some s' =>
    unfold tryStep at hs
    split at hs
    · cases hs
    · show Held s'
      cases a with
      | main ok => exact h.main_step hsafe hs
      | event ok => exact h.event_step hs
      | hook ok => exact h.hook_step hok hs
      | exiting ok => exact h.exit_step hs
      | exitThread =>
        simp only [liveStep, exitThreadStep] at hs
        cases hx : s.exitThread with
        | none => simp [hx] at hs
        | some c =>
          simp only [hx, Option.map_some, Option.some.injEq] at hs
          cases hs
          have hnext : Held { s with exitThread := none } := { h with }
          exact hnext.begin_exit c
      | wake =>
        simp only [liveStep] at hs
        split at hs
        · cases hs
          exact h.main_to .lockResume (by simp)
        · cases hs
      | exit exitCode =>
        simp only [liveStep] at hs
        split at hs
        · cases hs
          exact h.begin_exit exitCode
        · cases hs
      | receive msg =>
        simp only [liveStep] at hs
        split at hs
        · rename_i hclient
          cases hs
          refine h.push ?_ ?_ <;> rintro rfl <;> simp [fromClient] at hclient
        · cases hs
      | listenerStops error =>
        simp only [liveStep] at hs
        split at hs
        · cases hs
          exact { h with }
        · cases hs
      | loadClass name bytecode loader =>
        simp only [liveStep] at hs
        split at hs
        · cases hs
          exact h.push (by simp) (by simp)
        · cases hs

/-- An orderly run, in which the hook gets to its callbacks. -/
def OrderlyInvoked (s : State C) (a : Act C) : Prop := Orderly s a ∧ Invoked s a

theorem held_run (pauseOnStart pauseOnExit : Bool) {es : List (Act C)}
    (hrun : Runs.Along step OrderlyInvoked (init C pauseOnStart pauseOnExit) es) :
    Safe (Runs.run step (init C pauseOnStart pauseOnExit) es) ∧
      Held (Runs.run step (init C pauseOnStart pauseOnExit) es) :=
  Runs.inv_run (fun s => Safe s ∧ Held s)
    (fun _ _ h hok => ⟨safe_step h.1 hok.1, held_step h.1 h.2 hok.2⟩)
    ⟨safe_init pauseOnStart pauseOnExit, held_init pauseOnStart pauseOnExit⟩ hrun

theorem dispatch_pauseOnExit (s : State C) (msg : PsMsg C) :
    (dispatch s msg).pauseOnExit = s.pauseOnExit := by
  unfold dispatch
  split
  · unfold resumeVm
    split <;> rfl
  · rfl
  · rfl
  · rfl
  · rfl
  · unfold handleShutdownRequest
    split
    · rfl
    · split <;> rfl
  · rfl

theorem beginExit_pauseOnExit (s : State C) (c : Int) :
    (beginExit s c).pauseOnExit = s.pauseOnExit := by
  unfold beginExit
  split
  · split <;> rfl
  · rfl

/-- `pause_on_exit` is only written by `ps_init`. -/
theorem step_pauseOnExit (s : State C) (a : Act C) : (step s a).pauseOnExit = s.pauseOnExit := by
  unfold step
  cases hs : tryStep s a with
  | none => rfl
  | some s' =>
    unfold tryStep at hs
    split at hs
    · cases hs
    · show s'.pauseOnExit = s.pauseOnExit
      cases a with
      | main ok =>
        simp only [liveStep] at hs
        revert hs
        fun_cases mainStep s ok <;> rintro ⟨⟩ <;> rfl
      | event ok =>
        simp only [liveStep] at hs
        revert hs
        fun_cases eventStep s ok <;> rintro ⟨⟩ <;> first | rfl | exact dispatch_pauseOnExit s _
      | hook ok =>
        simp only [liveStep] at hs
        revert hs
        fun_cases hookStep s ok <;> rintro ⟨⟩ <;> rfl
      | exiting ok =>
        simp only [liveStep] at hs
        revert hs
        fun_cases exitStep s ok <;> rintro ⟨⟩ <;> rfl
      | exitThread =>
        simp only [liveStep, exitThreadStep, Option.map_eq_some_iff] at hs
        obtain ⟨c, -, rfl⟩ := hs
        exact beginExit_pauseOnExit _ c
      | exit c =>
        simp only [liveStep] at hs
        split at hs
        · cases hs
          exact beginExit_pauseOnExit s c
        · cases hs
      | _ =>
        simp only [liveStep] at hs
        split at hs
        · cases hs
          rfl
        · cases hs

/-! ## The pause on exit -/

/-- In an orderly run with the pause on exit and an agent thread that was started, the hook does not
end before a request to shut down was dispatched; while it has not ended, the event loop takes
messages unless it was never reached; where the hook could send its message, the collector was told
to stop when the hook waits for the request; and the status says that the JVM shuts down only when
it does. -/
theorem exit_held (pauseOnStart : Bool) {es : List (Act C)}
    (hrun : Runs.Along step OrderlyInvoked (init C pauseOnStart true) es) {s : State C}
    (hs : Runs.run step (init C pauseOnStart true) es = s) (hstarted : s.event ≠ .notStarted) :
    (∀ c pc, s.jvm = .exiting c pc → pc.Holds ∨ s.event.Requested) ∧
      (∀ c pc, s.jvm = .exiting c pc → pc.Holds →
        s.event.Requested ∨ s.event.Serves ∨ s.event.NoRefs) ∧
      (∀ c, s.jvm = .exiting c (.hooks (.waitSem true)) → s.stopCalled = true) ∧
      (s.shuttingDown = true → s.jvm ≠ .running) := by
  have h := (held_run pauseOnStart true hrun).2
  have hpause : (Runs.run step (init C pauseOnStart true) es).pauseOnExit = true :=
    Runs.inv_run (fun s => s.pauseOnExit = true) (fun s a h _ => (step_pauseOnExit s a).trans h) rfl
      hrun
  rw [hs] at h hpause
  have hskipped : s.waitSkipped ≠ true := fun hskip => by
    rcases (h.skipped hskip).2 with hoff | hns
    · rw [hpause] at hoff
      cases hoff
    · exact hstarted hns
  refine ⟨fun c pc hjvm => ?_, fun c pc hjvm hpc => ?_, h.waiting, h.down⟩
  · by_cases hpc : pc.Holds
    · exact .inl hpc
    · exact .inr ((h.past c pc hjvm hpc).resolve_right hskipped)
  · have hnot : ¬ s.event.Destroyed := fun hd => by
      have hdes := h.destroyed hd
      rw [hjvm] at hdes
      cases pc <;> exact absurd hdes (by first | exact id | exact hpc.elim)
    cases he : s.event with
    | dispatch => exact .inr (.inl trivial)
    | notStarted => exact absurd he hstarted
    | stopCollector origin => cases origin <;> simp [EventPc.Requested, EventPc.Serves]
    | postStarted origin => cases origin <;> simp [EventPc.Requested, EventPc.Serves]
    | releaseResources why =>
      cases why <;> simp_all [EventPc.Requested, EventPc.NoRefs, EventPc.Destroyed]
    | postShutdown why =>
      cases why <;> simp_all [EventPc.Requested, EventPc.NoRefs, EventPc.Destroyed]
    | ended why => cases why <;> simp_all [EventPc.Requested, EventPc.NoRefs, EventPc.Destroyed]
    | initRefs => exact .inr (.inl trivial)
    | evqWait => exact .inr (.inl trivial)
    | postSem => exact .inl trivial
    | systemExit => exact .inl trivial

/-- The program ends, the hook waits, and the client that collects the statistics asks for the
shutdown. -/
def heldRun : List (Act Unit) :=
  [.main true, .main true, .main true, .main true, .main true, .main true, .event true, .exit 3,
    .hook true, .hook true, .event true, .event true, .event true, .event true, .hook true,
    .receive (.usrRq () .getStats), .event true, .event true]

theorem heldRun_orderly :
    Runs.Along step OrderlyInvoked (init Unit false true) heldRun := by
  refine ⟨?_, ?_, ?_, ?_, ?_, ?_, ?_, ?_, ?_, ?_, ?_, ?_, ?_, ?_, ?_, ?_, ?_, ?_, ?_⟩ <;>
    first
    | trivial
    | exact ⟨trivial, trivial⟩
    | exact ⟨trivial, fun _ => rfl⟩
    | exact ⟨⟨true, rfl⟩, trivial⟩

theorem exit_held_heldRun :
    let s := Runs.run step (init Unit false true) heldRun
    s.jvm = .exiting 3 (.hooks (.waitSem true)) ∧ s.stopCalled = true ∧ s.shuttingDown = true := by
  have h := exit_held false heldRun_orderly rfl (by decide)
  exact ⟨rfl, h.2.2.1 3 rfl, rfl⟩

end JautoProf.Shutdown
