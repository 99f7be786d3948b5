import JautoProf.EventLoop
import JautoProf.InstrumentIds

/-!
# The line instruments that an event adds (`instrument-handler.c`, `prof-server.c`)

Results:
1. `ledger_serverStep`: an event of the server does to the instruments what its instrument event
   does.
2. `newLines_serverStep`: it adds one line instrument at most.
-/

namespace JautoProf

open Ledger Vouch

/-! ## The line instruments of the master table -/

def MiEntry.isLine (e : MiEntry) : Bool :=
  match e.body with
  | .line .. => true
  | _ => false

/-- The ids of the line instruments. -/
def Ledger.lineIds (L : Ledger) : List Nat :=
  (List.range L.nextId).filter fun id => (L.entry id).any MiEntry.isLine

/-- The line instruments that are new. -/
def Ledger.newLines (L L' : Ledger) : List Nat := L'.lineIds.filter fun id => id ∉ L.lineIds

/-! ## The events of the server that a request stands for -/

/-- The instrument event of a request. -/
def UsrRq.event : UsrRq → Option Event
  | .instrumentMethod className methodSig => some (.instrumentMethod className methodSig)
  | .deinstrumentMethod className methodSig => some (.deinstrumentMethod className methodSig)
  | .deinstrumentById instrumentId => some (.deinstrumentById instrumentId)
  | .instrumentLine entryClass exitClass entryLine exitLine =>
    some (.instrumentLine entryClass exitClass entryLine exitLine)
  | _ => none

def PsMsg.event {C : Type} : PsMsg C → Option Event
  | .classLoaded name bytecode loader => some (.classLoaded name bytecode loader)
  | .usrRq _ rq => rq.event
  | _ => none

def ServerEvent.event {C : Type} : ServerEvent C → Option Event
  | .dispatch msg => msg.event
  | .closed _ => none

/-! ## What one event of the server adds -/

variable {J C : Type} [DecidableEq C] {env : Env} {jvm : Jvm J}

theorem MiEntry.isLine_of_identity {e e' : MiEntry} (h : e.identity = e'.identity) :
    e.isLine = e'.isLine := by
  have hid : ∀ e : MiEntry, e.identity.isLine = e.isLine := by
    rintro ⟨c, b⟩
    cases b <;> rfl
  rw [← hid e, h, hid e']

theorem Ledger.mem_lineIds {L : Ledger} {id : Nat} :
    id ∈ L.lineIds ↔ id < L.nextId ∧ ∃ e, L.entry id = some e ∧ e.isLine = true := by
  rw [lineIds, List.mem_filter, List.mem_range]
  cases L.entry id <;> simp

theorem Ledger.nodup_lineIds (L : Ledger) : L.lineIds.Nodup := List.nodup_range.filter _

theorem Ledger.newLines_self (L : Ledger) : newLines L L = [] :=
  List.filter_eq_nil_iff.mpr fun id hid => by simpa using hid

/-- An event adds one line instrument at most, under the next id. -/
theorem newLines_step {w : World} {ev : Event} (hI : anyRun.Inv w.ledger) :
    (newLines w.ledger (JautoProf.step env w ev).ledger).length ≤ 1 := by
  have hleads : anyRun.Leads w.ledger (JautoProf.step env w ev).ledger :=
    step_leads hI ⟨False.elim, False.elim, False.elim, False.elim, False.elim⟩
  have hlater := later_reaches (fun _ _ ha => ha.enabled) hleads
  have hnext : (JautoProf.step env w ev).ledger.nextId ≤ w.ledger.nextId + 1 := by
    have hstep : (JautoProf.step env w ev).ledger.nextId ≤ w.ledger.nextId + _ := nextId_step hI
    refine hstep.trans (Nat.add_le_add_left ?_ _)
    split <;> decide
  have hsub : newLines w.ledger (JautoProf.step env w ev).ledger ⊆ [w.ledger.nextId] := by
    intro id hid
    obtain ⟨hnew, hold⟩ := List.mem_filter.mp hid
    obtain ⟨hlt, e', he', hline⟩ := Ledger.mem_lineIds.mp hnew
    rw [List.mem_singleton]
    by_contra hne
    -- an older line instrument was one before the event
    have hearlier : id < w.ledger.nextId := by omega
    obtain ⟨e, he, hident⟩ := hlater.identity id e' hearlier he'
    exact of_decide_eq_true hold (Ledger.mem_lineIds.mpr
      ⟨hearlier, e, he, (MiEntry.isLine_of_identity hident).symm.trans hline⟩)
  exact (List.subperm_of_subset ((Ledger.nodup_lineIds _).filter _) hsub).length_le

theorem instrCtx_respond (client : C) (r : Option UserMsg) (s : ProfServer J C) :
    ((respond client r).final s).instrCtx = s.instrCtx := by
  rw [respond_final]

/-- A program whose answer is sent at the end changes the instruments as it does without. -/
theorem instrCtx_bind_respond {α : Type} (x : ServerM J C α) (client : C)
    (f : α → Option UserMsg) (s : ProfServer J C) :
    ((x >>= fun a => respond client (f a)).final s).instrCtx = (x.final s).instrCtx := by
  rw [Prog.final_bind, instrCtx_respond]

/-- An answer for which memory is allocated. -/
theorem ledger_malloc_respond (client : C) (f : Bool → Option UserMsg) (s : ProfServer J C) :
    ((ProfServer.onCtx (malloc env) >>= fun ok => respond client (f ok)).final s).instrCtx.ledger =
      s.instrCtx.ledger := by
  rw [instrCtx_bind_respond]
  have hmalloc : malloc env s.instrCtx = (_, _) := rfl
  exact malloc_run hmalloc

/-- A request does to the instruments what its event does. -/
theorem ledger_usrRq (client : C) (rq : UsrRq) (s : ProfServer J C) :
    ((handleUsrRq env jvm client rq).final s).instrCtx.ledger =
      (rq.event.elim s.instrCtx (JautoProf.step env s.instrCtx)).ledger := by
  cases rq with
  | instrumentMethod c m => exact congrArg World.ledger (instrCtx_bind_respond _ _ _ s)
  | deinstrumentMethod c m => exact congrArg World.ledger (instrCtx_bind_respond _ _ _ s)
  | deinstrumentById id => exact congrArg World.ledger (instrCtx_bind_respond _ _ _ s)
  | instrumentLine c x l l' => exact congrArg World.ledger (instrCtx_bind_respond _ _ _ s)
  | loadedClasses => exact ledger_malloc_respond client _ s
  | classMethods => exact ledger_malloc_respond client _ s
  | listInstrumented => exact ledger_malloc_respond client _ s
  | getAsyncErrors => exact ledger_malloc_respond client _ s
  | getStatus => exact congrArg World.ledger (instrCtx_respond _ _ _)
  | pauseThreads => exact congrArg World.ledger (instrCtx_respond _ _ _)
  | resume =>
    refine congrArg World.ledger ((congrArg ProfServer.instrCtx
      (handleUsrRqResume_final env jvm client s)).trans ((instrCtx_respond _ _ _).trans ?_))
    split
    · rfl
    · split <;> rfl
  | getStats =>
    have hstats : ((jniGetProfilerStats jvm).final s).instrCtx = s.instrCtx := by
      unfold jniGetProfilerStats
      rw [Prog.final_bind]
      split <;> rfl
    show ((handleUsrRqGetStats env jvm client).final s).instrCtx.ledger = s.instrCtx.ledger
    unfold handleUsrRqGetStats
    rw [Prog.final_bind, ← hstats]
    split
    · rfl
    · exact ledger_malloc_respond client _ _

/-- An event of the server does to the instruments what its instrument event does, if it has
one. -/
theorem ledger_serverStep (s : ProfServer J C) (e : ServerEvent C) :
    (serverStep env jvm s e).instrCtx.ledger =
      (e.event.elim s.instrCtx (JautoProf.step env s.instrCtx)).ledger := by
  cases e with
  | closed client => rfl
  | dispatch msg =>
    cases msg with
    | usrRq client rq => exact ledger_usrRq client rq s
    | classLoaded | shutdown | shutdownRequest | shutdownStarting => rfl

theorem inv_serverStep {s : ProfServer J C} (h : anyRun.Inv s.instrCtx.ledger)
    (e : ServerEvent C) : anyRun.Inv (serverStep env jvm s e).instrCtx.ledger := by
  rw [ledger_serverStep]
  cases e.event with
  | none => exact h
  | some ev =>
    exact h.leads (step_leads h ⟨False.elim, False.elim, False.elim, False.elim, False.elim⟩)

theorem newLines_serverStep {s : ProfServer J C} (h : anyRun.Inv s.instrCtx.ledger)
    (e : ServerEvent C) :
    (newLines s.instrCtx.ledger (serverStep env jvm s e).instrCtx.ledger).length ≤ 1 := by
  rw [ledger_serverStep]
  cases e.event with
  | none =>
    rw [Option.elim_none, Ledger.newLines_self]
    exact Nat.zero_le 1
  | some ev => exact newLines_step h

end JautoProf
