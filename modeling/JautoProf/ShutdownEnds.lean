import JautoProf.ShutdownReady

/-!
# The exit of the JVM goes on

Whether the threads that end the JVM wait for each other for ever.

Results:
1. `exit_stuck_iff`: the states in which the exit has begun and none of its threads can go on.
2. `request_ends_jvm`: once a request to shut down was dispatched, the threads make a bounded number
   of steps, and when none of them can go on the JVM has ended.
-/

namespace JautoProf.Shutdown

variable {C : Type}

/-- An action of a thread that has a part in the end of the JVM. -/
def Act.Ends : Act C → Bool
  | .event _ => true
  | .hook _ => true
  | .exiting _ => true
  | .exitThread => true
  | .listenerStops error => !error
  | _ => false

/-- An action of a thread that a request to pause threads suspends. -/
def Act.Suspendable : Act C → Bool
  | .hook _ => true
  | .exiting _ => true
  | .exitThread => true
  | _ => false

/-- A thread that has a part in the end of the JVM can go on. -/
def State.CanStep (s : State C) (a : Act C) : Prop :=
  a.Ends = true ∧ (s.pausedAtExit = true → a.Suspendable = false) ∧ (tryStep s a).isSome = true

/-- None of these threads can go on. -/
def Stuck (s : State C) : Prop := ∀ a, ¬ s.CanStep a

/-! ## Where the exit stops -/

/-- The hook waits for a request to shut down, and there is no message to dispatch. -/
def WaitsForClient (s : State C) : Prop :=
  ∃ c sent, s.jvm = .exiting c (.hooks (.waitSem sent)) ∧ s.event = .evqWait ∧ s.evQ = []

/-- The hook waits, and the agent thread was not started or has not reached its loop. -/
def NeverServed (s : State C) : Prop :=
  ∃ c hook, s.jvm = .exiting c (.hooks hook) ∧
    (hook = .waitStarted true ∨ ∃ sent, hook = .waitSem sent) ∧
    (s.event = .notStarted ∨ s.event = .ended .noRefs)

/-- `ps_destroy` waits, but could not send its message, and there is none to dispatch. -/
def Unsent (s : State C) : Prop :=
  ∃ c, s.jvm = .exiting c (.waitShutdown false) ∧ s.event = .evqWait ∧ s.evQ = []

section Stuck

variable {s : State C}

theorem Stuck.not_step (h : Stuck s) (hpaused : s.pausedAtExit = false) {c : Int} {pc : ExitPc}
    (hjvm : s.jvm = .exiting c pc) {a : Act C} (ha : a.Ends = true) : liveStep s a = none := by
  have hnone : tryStep s a = none := by
    cases ht : tryStep s a with
    | none => rfl
    | some s' => exact absurd ⟨ha, by simp [hpaused], by simp [ht]⟩ (h a)
  simpa [tryStep, hjvm, Jvm.isHalted] using hnone

/-- Where the agent thread stops. -/
theorem eventStep_none (h : eventStep s true = none) :
    s.event = .notStarted ∨ (∃ why, s.event = .ended why) ∨ s.event = .evqWait ∧ s.evQ = [] := by
  cases he : s.event with
  | notStarted => exact .inl rfl
  | ended why => exact .inr (.inl ⟨why, rfl⟩)
  | evqWait =>
    cases hq : s.evQ with
    | nil => exact .inr (.inr ⟨rfl, rfl⟩)
    | cons => simp [eventStep, he, hq] at h
  | postStarted origin => cases origin <;> simp [eventStep, he] at h
  | _ => simp [eventStep, he] at h

/-- What the hook waits for while the agent thread has stopped. -/
theorem Inv.hook_waits (h : Inv s) {c : Int} {hook : HookPc}
    (hjvm : s.jvm = .exiting c (.hooks hook))
    (he : s.event = .notStarted ∨ (∃ why, s.event = .ended why) ∨ s.event = .evqWait ∧ s.evQ = [])
    (hstep : hookStep s true = none) (hexit : exitStep s true = none) :
    WaitsForClient s ∨ NeverServed s := by
  have hdestroy : s.event ≠ .ended .shutdown := fun hend => by
    have hdes := h.held.destroyed (by rw [hend]; trivial)
    rw [hjvm] at hdes
    exact hdes
  have hloop : s.event ≠ .ended .request →
      s.event = .notStarted ∨ s.event = .ended .noRefs ∨ s.event = .evqWait ∧ s.evQ = [] := by
    intro hreq
    rcases he with he | ⟨why, he⟩ | he
    · exact .inl he
    · cases why
      · exact .inr (.inl he)
      · exact absurd he hdestroy
      · exact absurd he hreq
    · exact .inr (.inr he)
  have hpause : hook.Waits → s.pauseOnExit = true := fun hw =>
    h.held.blocker (.inr (h.held.waits c hook hjvm hw))
  cases hook with
  | invokeCallbacks =>
    simp only [hookStep, hjvm] at hstep
    split at hstep <;> cases hstep
  | sendStarting => simp [hookStep, hjvm] at hstep
  | postStarted => simp [hookStep, hjvm] at hstep
  | done => simp [exitStep, hjvm] at hexit
  | waitStarted sent =>
    have hzero : ¬ 0 < s.startedSem := by
      intro hpos
      simp [hookStep, hjvm, hpos] at hstep
    cases sent with
    | false =>
      have hown := h.ready.own
      rw [hjvm] at hown
      exact absurd hown hzero
    | true =>
      have hreq : s.event ≠ .ended .request := fun hend =>
        hzero (h.ready.started (hpause trivial) (by rw [hend]; trivial) (by rw [hjvm]; trivial))
      rcases hloop hreq with hns | hnr | ⟨hw, hq⟩
      · exact .inr ⟨c, _, hjvm, .inl rfl, .inl hns⟩
      · exact .inr ⟨c, _, hjvm, .inl rfl, .inr hnr⟩
      · rcases h.ready.starting c hjvm with hpos | hmem | hst | hr
        · exact absurd hpos hzero
        · rw [hq] at hmem
          cases hmem
        · rw [hw] at hst
          exact hst.elim
        · rw [hw] at hr
          exact hr.elim
  | waitSem sent =>
    have hzero : ¬ 0 < s.sem := by
      intro hpos
      simp [hookStep, hjvm, hpos] at hstep
    have hreq : s.event ≠ .ended .request := fun hend =>
      hzero (h.ready.sem (hpause trivial) (by rw [hend]; trivial) (by rw [hjvm]; trivial))
    rcases hloop hreq with hns | hnr | hw
    · exact .inr ⟨c, _, hjvm, .inr ⟨sent, rfl⟩, .inl hns⟩
    · exact .inr ⟨c, _, hjvm, .inr ⟨sent, rfl⟩, .inr hnr⟩
    · exact .inl ⟨c, sent, hjvm, hw⟩

theorem Inv.stuck_cases (h : Inv s) (hpaused : s.pausedAtExit = false) {c : Int} {pc : ExitPc}
    (hjvm : s.jvm = .exiting c pc) (hstuck : Stuck s) :
    WaitsForClient s ∨ NeverServed s ∨ Unsent s := by
  have hnone := fun a => hstuck.not_step (a := a) hpaused hjvm
  have he := eventStep_none (hnone (.event true) rfl)
  have hhook : hookStep s true = none := hnone (.hook true) rfl
  have hexit : exitStep s true = none := hnone (.exiting true) rfl
  cases pc with
  | hooks hook => exact (h.hook_waits hjvm he hhook hexit).imp_right .inl
  | sendShutdown =>
    simp only [exitStep, hjvm] at hexit
    split at hexit <;> cases hexit
  | waitShutdown sent =>
    have hzero : ¬ 0 < s.shutdownSem := by
      intro hpos
      simp [exitStep, hjvm, hpos] at hexit
    rcases he with hns | hend | ⟨hw, hq⟩
    · exact absurd hns (h.safe.waiting c sent hjvm).2
    · exact absurd (h.ready.posted hend (by rw [hjvm]; trivial)) hzero
    · cases sent with
      | false => exact .inr (.inr ⟨c, hjvm, hw, hq⟩)
      | true =>
        rcases h.ready.shutdown c hjvm with hmem | hd | hr
        · rw [hq] at hmem
          cases hmem
        · rw [hw] at hd
          exact hd.elim
        · rw [hw] at hr
          exact hr.elim
  | stopListener => simp [exitStep, hjvm] at hexit
  | joinListener =>
    have hlisten : liveStep s (.listenerStops false) = none := hnone (.listenerStops false) rfl
    have hfd := h.ready.fd c hjvm
    cases hl : s.listening with
    | true => simp [liveStep, hl, hfd] at hlisten
    | false => simp [exitStep, hjvm, hl] at hexit
  | freeServer => simp [exitStep, hjvm] at hexit
  | unloaded => simp [exitStep, hjvm] at hexit

end Stuck

/-- The program has ended, and the hook waits for a client to ask for the shutdown. -/
def waitingRun : List (Act Unit) := heldRun.take 15

/-- The steps that are left to the agent thread after a request. -/
def EventPc.rank : EventPc C → Nat
  | .stopCollector _ => 7
  | .postStarted _ => 6
  | .postSem _ => 5
  | .systemExit _ => 4
  | .releaseResources _ => 2
  | .postShutdown _ => 1
  | _ => 0

def HookPc.rank : HookPc → Nat
  | .invokeCallbacks => 12
  | .sendStarting => 11
  | .postStarted => 10
  | .waitStarted _ => 9
  | .waitSem _ => 8
  | .done => 7

def ExitPc.rank : ExitPc → Nat
  | .hooks hook => hook.rank
  | .sendShutdown => 6
  | .waitShutdown _ => 5
  | .stopListener => 4
  | .joinListener => 3
  | .freeServer => 2
  | .unloaded => 1

def Jvm.rank : Jvm → Nat
  | .running => 13
  | .exiting _ pc => pc.rank
  | .halted _ => 0

/-- A bound on the steps that are left to the threads of the exit after a request. -/
def State.rank (s : State C) : Nat :=
  s.event.rank + s.exitThread.toList.length + s.jvm.rank + s.listening.toNat

/-- The steps that the threads of the exit make in a run. -/
def endSteps : State C → List (Act C) → Nat
  | _, [] => 0
  | s, a :: as => (a.Ends && (tryStep s a).isSome).toNat + endSteps (step s a) as

/-- The class and the method of `jni_system_exit` are found. -/
def SystemExits (s : State C) : Act C → Prop
  | .event ok => (∃ exitCode, s.event = .systemExit exitCode) → ok = true
  | _ => True

/-- The runs in which the exit can be expected to go on. -/
def OrderlyExits (s : State C) (a : Act C) : Prop := OrderlyInvoked s a ∧ SystemExits s a

section Requested

variable {s : State C}

theorem beginExit_rank (s : State C) (c : Int) : (beginExit s c).rank ≤ s.rank := by
  unfold beginExit
  split
  · rename_i hjvm
    split <;> simp only [State.rank, hjvm, Jvm.rank, ExitPc.rank, HookPc.rank] <;> omega
  · exact Nat.le_refl _

theorem eventStep_rank (hreq : s.event.Requested) {ok : Bool} {s' : State C}
    (hs : eventStep s ok = some s') :
    s'.event.Requested ∧ s'.pausedAtExit = s.pausedAtExit ∧ s'.jvm = s.jvm ∧ s'.rank < s.rank := by
  cases he : s.event with
  | stopCollector origin =>
    simp only [eventStep, he, Option.some.injEq] at hs
    cases hs
    cases origin
    · exact ⟨trivial, rfl, rfl, by simp [State.rank, he, EventPc.rank]⟩
    · rw [he] at hreq
      exact hreq.elim
  | postStarted origin =>
    cases origin with
    | request c =>
      simp only [eventStep, he, Option.some.injEq] at hs
      cases hs
      exact ⟨trivial, rfl, rfl, by simp [State.rank, he, EventPc.rank]⟩
    | starting =>
      rw [he] at hreq
      exact hreq.elim
  | postSem c =>
    simp only [eventStep, he, Option.some.injEq] at hs
    cases hs
    exact ⟨trivial, rfl, rfl, by simp [State.rank, he, EventPc.rank]⟩
  | systemExit c =>
    simp only [eventStep, he, Option.some.injEq] at hs
    cases hs
    refine ⟨trivial, rfl, rfl, ?_⟩
    cases ok <;> simp [State.rank, he, EventPc.rank]
    omega
  | releaseResources why =>
    simp only [eventStep, he, Option.some.injEq] at hs
    cases hs
    rw [he] at hreq
    cases why
    · exact hreq.elim
    · exact hreq.elim
    · exact ⟨trivial, rfl, rfl, by simp [State.rank, he, EventPc.rank]⟩
  | postShutdown why =>
    simp only [eventStep, he, Option.some.injEq] at hs
    cases hs
    rw [he] at hreq
    cases why
    · exact hreq.elim
    · exact hreq.elim
    · exact ⟨trivial, rfl, rfl, by simp [State.rank, he, EventPc.rank]⟩
  | ended why => simp [eventStep, he] at hs
  | _ =>
    rw [he] at hreq
    exact hreq.elim

theorem hookStep_rank {ok : Bool} {s' : State C} (hs : hookStep s ok = some s') :
    s'.event = s.event ∧ s'.pausedAtExit = s.pausedAtExit ∧ s'.rank < s.rank := by
  revert hs
  fun_cases hookStep s ok <;> rintro ⟨⟩ <;>
    simp_all [State.rank, State.evqPush, Jvm.rank, ExitPc.rank, HookPc.rank]
  cases ok <;> simp

theorem exitStep_rank {ok : Bool} {s' : State C} (hs : exitStep s ok = some s') :
    s'.event = s.event ∧ s'.pausedAtExit = s.pausedAtExit ∧ s'.rank < s.rank := by
  revert hs
  fun_cases exitStep s ok <;> rintro ⟨⟩ <;>
    simp_all [State.rank, State.evqPush, Jvm.rank, ExitPc.rank, HookPc.rank]

theorem mainStep_rank (hsafe : Safe s) (hreq : s.event.Requested) {ok : Bool} {s' : State C}
    (hs : mainStep s ok = some s') :
    s'.event = s.event ∧ s'.pausedAtExit = s.pausedAtExit ∧ s'.rank = s.rank := by
  have hlate : ¬ s.main.Early := fun hm => by
    rw [hsafe.notStarted.mpr (.inl hm)] at hreq
    exact hreq
  revert hs
  fun_cases mainStep s ok <;> rintro ⟨⟩ <;> simp_all [MainPc.Early, State.rank]

theorem beginExit_event (s : State C) (c : Int) :
    (beginExit s c).event = s.event ∧ (beginExit s c).pausedAtExit = s.pausedAtExit ∧
      (beginExit s c).jvm ≠ .running := by
  unfold beginExit
  split
  · split <;> simp
  · rename_i hjvm
    exact ⟨rfl, rfl, hjvm⟩

/-- After a request, each step of a thread of the exit leaves fewer of them, and no other step
leaves more. -/
theorem requested_step (hsafe : Safe s) (hreq : s.event.Requested) (a : Act C) :
    (step s a).event.Requested ∧ (step s a).pausedAtExit = s.pausedAtExit ∧
      (step s a).rank + (a.Ends && (tryStep s a).isSome).toNat ≤ s.rank := by
  unfold step
  cases hs : tryStep s a with
  | none => exact ⟨hreq, rfl, by simp⟩
  | some s' =>
    unfold tryStep at hs
    split at hs
    · cases hs
    · show s'.event.Requested ∧ s'.pausedAtExit = s.pausedAtExit ∧ s'.rank + (a.Ends && true).toNat ≤ _
      cases a with
      | main ok =>
        obtain ⟨he, hp, hr⟩ := mainStep_rank hsafe hreq hs
        exact ⟨he ▸ hreq, hp, Nat.le_of_eq hr⟩
      | event ok =>
        obtain ⟨he, hp, -, hr⟩ := eventStep_rank hreq hs
        exact ⟨he, hp, hr⟩
      | hook ok =>
        obtain ⟨he, hp, hr⟩ := hookStep_rank hs
        exact ⟨he ▸ hreq, hp, hr⟩
      | exiting ok =>
        obtain ⟨he, hp, hr⟩ := exitStep_rank hs
        exact ⟨he ▸ hreq, hp, hr⟩
      | exitThread =>
        cases hx : s.exitThread with
        | none => simp [liveStep, exitThreadStep, hx] at hs
        | some c =>
          simp only [liveStep, exitThreadStep, hx, Option.map_some, Option.some.injEq] at hs
          cases hs
          obtain ⟨he, hp, -⟩ := beginExit_event { s with exitThread := none } c
          refine ⟨by rw [he]; exact hreq, hp, ?_⟩
          have hr := beginExit_rank { s with exitThread := none } c
          simp only [State.rank, hx, Option.toList_none, Option.toList_some, List.length_nil,
            List.length_singleton, Act.Ends, Bool.and_self, Bool.toNat_true] at hr ⊢
          omega
      | wake =>
        simp only [liveStep] at hs
        split at hs
        · cases hs
          exact ⟨hreq, rfl, Nat.le_refl _⟩
        · cases hs
      | exit c =>
        simp only [liveStep] at hs
        split at hs
        · cases hs
          obtain ⟨he, hp, -⟩ := beginExit_event s c
          exact ⟨he ▸ hreq, hp, beginExit_rank s c⟩
        · cases hs
      | receive msg =>
        simp only [liveStep] at hs
        split at hs
        · cases hs
          exact ⟨hreq, rfl, Nat.le_refl _⟩
        · cases hs
      | listenerStops error =>
        simp only [liveStep] at hs
        split at hs
        · rename_i hl
          cases hs
          refine ⟨hreq, rfl, ?_⟩
          have hlisten : s.listening = true := (Bool.and_eq_true_iff.mp hl).1
          cases error <;> simp [State.rank, hlisten, Act.Ends]
        · cases hs
      | loadClass name bytecode loader =>
        simp only [liveStep] at hs
        split at hs
        · cases hs
          exact ⟨hreq, rfl, Nat.le_refl _⟩
        · cases hs

theorem requested_run (h : Inv s) (hreq : s.event.Requested) {fs : List (Act C)}
    (hrun : Runs.Along step OrderlyInvoked s fs) :
    (Runs.run step s fs).event.Requested ∧ (Runs.run step s fs).pausedAtExit = s.pausedAtExit ∧
      (Runs.run step s fs).rank + endSteps s fs ≤ s.rank := by
  induction fs generalizing s with
  | nil => exact ⟨hreq, rfl, Nat.le_refl _⟩
  | cons a fs ih =>
    obtain ⟨hreq', hp, hr⟩ := requested_step h.safe hreq a
    obtain ⟨hreq'', hp', hr'⟩ := ih (inv_step h hrun.1) hreq' hrun.2
    refine ⟨hreq'', hp'.trans hp, ?_⟩
    simp only [Runs.run_cons, endSteps]
    omega

/-- After the call of `jni_system_exit`, its thread is there or the exit has begun. -/
def Called (s : State C) : Prop := s.event.PastExit → s.exitThread ≠ none ∨ s.jvm ≠ .running

theorem called_event (h : Called s) {ok : Bool} (hok : SystemExits s (.event ok)) {s' : State C}
    (hs : eventStep s ok = some s') : Called s' := by
  intro hpast
  cases he : s.event with
  | systemExit c =>
    simp only [eventStep, he, Option.some.injEq] at hs
    cases hs
    have htrue := hok ⟨c, he⟩
    exact .inl (by simp [htrue])
  | releaseResources why =>
    simp only [eventStep, he, Option.some.injEq] at hs
    cases hs
    exact h (by rw [he]; cases why <;> exact hpast)
  | postShutdown why =>
    simp only [eventStep, he, Option.some.injEq] at hs
    cases hs
    exact h (by rw [he]; cases why <;> exact hpast)
  | dispatch msg =>
    simp only [eventStep, he, Option.some.injEq] at hs
    cases hs
    refine absurd hpast ?_
    have hnot : ¬ s.event.PastExit := by rw [he]; exact id
    cases msg with
    | usrRq client rq => cases rq <;> exact id
    | shutdownRequest c text =>
      simp only [dispatch, handleShutdownRequest]
      split
      · exact hnot
      · split <;> exact id
    | _ => exact id
  | initRefs =>
    simp only [eventStep, he, Option.some.injEq] at hs
    cases hs
    cases ok <;> exact hpast.elim
  | evqWait =>
    simp only [eventStep, he] at hs
    split at hs
    · cases hs
    · cases hs
      exact hpast.elim
  | stopCollector origin =>
    simp only [eventStep, he, Option.some.injEq] at hs
    cases hs
    exact hpast.elim
  | postStarted origin =>
    cases origin <;> simp only [eventStep, he, Option.some.injEq] at hs <;> cases hs <;>
      exact hpast.elim
  | postSem c =>
    simp only [eventStep, he, Option.some.injEq] at hs
    cases hs
    exact hpast.elim
  | notStarted => simp [eventStep, he] at hs
  | ended why => simp [eventStep, he] at hs

theorem called_step (h : Called s) {a : Act C} (hok : SystemExits s a) : Called (step s a) := by
  unfold step
  cases hs : tryStep s a with
  | none => exact h
  | some s' =>
    unfold tryStep at hs
    split at hs
    · cases hs
    · show Called s'
      cases a with
      | main ok =>
        unfold Called at h ⊢
        simp only [liveStep] at hs
        revert hs
        fun_cases mainStep s ok <;> rintro ⟨⟩ <;> first | exact h | exact False.elim
      | event ok => exact called_event h hok hs
      | hook ok =>
        intro _
        simp only [liveStep] at hs
        revert hs
        fun_cases hookStep s ok <;> rintro ⟨⟩ <;> simp
      | exiting ok =>
        intro _
        simp only [liveStep] at hs
        revert hs
        fun_cases exitStep s ok <;> rintro ⟨⟩ <;> simp
      | exitThread =>
        simp only [liveStep, exitThreadStep, Option.map_eq_some_iff] at hs
        obtain ⟨c, -, rfl⟩ := hs
        exact fun _ => .inr (beginExit_event _ c).2.2
      | exit c =>
        simp only [liveStep] at hs
        split at hs
        · cases hs
          exact fun _ => .inr (beginExit_event s c).2.2
        · cases hs
      | wake =>
        simp only [liveStep] at hs
        split at hs <;> cases hs
        exact h
      | receive msg =>
        simp only [liveStep] at hs
        split at hs <;> cases hs
        exact h
      | listenerStops error =>
        simp only [liveStep] at hs
        split at hs <;> cases hs
        exact h
      | loadClass name bytecode loader =>
        simp only [liveStep] at hs
        split at hs <;> cases hs
        exact h

/-- After a request, threads that have stopped have ended the JVM. -/
theorem Inv.stuck_requested (h : Inv s) (hcalled : Called s) (hreq : s.event.Requested)
    (hpaused : s.pausedAtExit = false) (hstuck : Stuck s) : ∃ c, s.jvm = .halted c := by
  cases hjvm : s.jvm with
  | halted c => exact ⟨c, rfl⟩
  | exiting c pc =>
    rcases h.stuck_cases hpaused hjvm hstuck with ⟨c, sent, -, he, -⟩ | ⟨c, hook, -, -, he | he⟩ |
      ⟨c, -, he, -⟩ <;> rw [he] at hreq <;> exact hreq.elim
  | running =>
    have hnone : ∀ a : Act C, a.Ends = true → liveStep s a = none := fun a ha => by
      cases hl : liveStep s a with
      | none => rfl
      | some s' =>
        exact absurd ⟨ha, by simp [hpaused], by simp [tryStep, hjvm, Jvm.isHalted, hl]⟩ (hstuck a)
    rcases eventStep_none (hnone (.event true) rfl) with he | ⟨why, he⟩ | ⟨he, -⟩
    · rw [he] at hreq
      exact hreq.elim
    · have hpast : s.event.PastExit := by
        rw [he] at hreq ⊢
        cases why <;> exact hreq
      have hthread := (hcalled hpast).resolve_right fun hn => hn hjvm
      have hexit := hnone .exitThread rfl
      cases hx : s.exitThread with
      | none => exact absurd hx hthread
      | some c => simp [liveStep, exitThreadStep, hx] at hexit
    · rw [he] at hreq
      exact hreq.elim

theorem rank_le (s : State C) : s.rank ≤ 22 := by
  have hevent : s.event.rank ≤ 7 := by cases s.event <;> simp [EventPc.rank]
  have hexit : s.exitThread.toList.length ≤ 1 := by cases s.exitThread <;> simp
  have hlisten : s.listening.toNat ≤ 1 := by cases s.listening <;> simp
  have hjvm : s.jvm.rank ≤ 13 := by
    cases s.jvm with
    | exiting c pc =>
      cases pc with
      | hooks hook => cases hook <;> simp [Jvm.rank, ExitPc.rank, HookPc.rank]
      | _ => simp [Jvm.rank, ExitPc.rank]
    | _ => simp [Jvm.rank]
  unfold State.rank
  omega

end Requested

/-- Once a request to shut down was dispatched in an orderly run, with no request to pause threads
since the exit began, the threads of the exit make at most 22 more steps, whatever else
happens, and once none of them can go on the JVM has ended. -/
theorem request_ends_jvm (pauseOnStart pauseOnExit : Bool) {es fs : List (Act C)}
    (hrun : Runs.Along step OrderlyExits (init C pauseOnStart pauseOnExit) (es ++ fs))
    {s : State C} (hs : Runs.run step (init C pauseOnStart pauseOnExit) es = s)
    (hreq : s.event.Requested) (hpaused : s.pausedAtExit = false) :
    endSteps s fs ≤ 22 ∧ (Stuck (Runs.run step s fs) → ∃ c, (Runs.run step s fs).jvm = .halted c) := by
  obtain ⟨hes, hfs⟩ := Runs.along_append.mp hrun
  have hinv : ∀ (t : State C) (a : Act C), Inv t ∧ Called t → OrderlyExits t a →
      Inv (step t a) ∧ Called (step t a) :=
    fun t a h hok => ⟨inv_step h.1 hok.1, called_step h.2 hok.2⟩
  have hinit : Inv (init C pauseOnStart pauseOnExit) ∧ Called (init C pauseOnStart pauseOnExit) :=
    ⟨⟨safe_init _ _, held_init _ _, ready_init _ _⟩, False.elim⟩
  have h := Runs.inv_run (fun t => Inv t ∧ Called t) hinv hinit hes
  rw [hs] at h hfs
  obtain ⟨hreq', hp, hr⟩ := requested_run h.1 hreq (hfs.mono fun _ _ hok => hok.1)
  obtain ⟨h', hcalled⟩ := Runs.inv_run (fun t => Inv t ∧ Called t) hinv h hfs
  refine ⟨?_, h'.stuck_requested hcalled hreq' (hp.trans hpaused)⟩
  have := rank_le s
  omega

/-- The request of the client, and the steps that end the JVM. -/
def endingRun : List (Act Unit) :=
  [.event true, .event true, .event true, .hook true, .event true, .exitThread, .exiting true,
    .event true, .event true, .exiting true, .exiting true, .exiting true, .listenerStops false,
    .exiting true, .exiting true, .exiting true]

/-- The request of the client is dispatched. -/
def requestRun : List (Act Unit) :=
  waitingRun ++ [.receive (.shutdownRequest 0 []), .event true, .event true]

theorem requestRun_orderly :
    Runs.Along step OrderlyExits (init Unit false true) (requestRun ++ endingRun) := by
  refine ⟨?_, ?_, ?_, ?_, ?_, ?_, ?_, ?_, ?_, ?_, ?_, ?_, ?_, ?_, ?_, ?_, ?_, ?_, ?_, ?_, ?_, ?_, ?_,
    ?_, ?_, ?_, ?_, ?_, ?_, ?_, ?_, ?_, ?_, ?_, ?_⟩ <;>
    first
    | trivial
    | exact ⟨⟨trivial, trivial⟩, trivial⟩
    | exact ⟨⟨trivial, trivial⟩, fun _ => rfl⟩
    | exact ⟨⟨trivial, fun _ => rfl⟩, trivial⟩
    | exact ⟨⟨⟨true, rfl⟩, trivial⟩, trivial⟩
    | exact ⟨⟨fun _ => by decide, trivial⟩, trivial⟩

theorem request_ends_jvm_endingRun :
    let s := Runs.run step (init Unit false true) requestRun
    endSteps s endingRun ≤ 22 ∧ (Stuck (Runs.run step s endingRun) →
      ∃ c, (Runs.run step s endingRun).jvm = .halted c) :=
  request_ends_jvm false true requestRun_orderly rfl trivial rfl

end JautoProf.Shutdown
