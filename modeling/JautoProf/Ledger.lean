import JautoProf.Lib.Runs
import JautoProf.World
import Mathlib.Logic.Function.Basic

/-!
# The ledger: what the handlers keep, seen from outside

A `Ledger` is the part of a `World` that the invariants speak of, with the tables read as
functions. It says in addition what an event in the middle of its work is at: the one
instrument `flight` whose records are being moved, the class whose deferred instruments
are being applied, and whether the instruments of a reloaded class are being given up.

`Act` lists what the handlers do to a ledger, `Act.apply` its effect and `Act.Enabled` when
it happens. The handlers are shown to perform enabled acts only (`Refines`), so an
invariant has to be checked once for each act.
-/

namespace JautoProf

/-- How far the instrument in flight is: without records yet, with the records that an
attempt has added, or with its records being taken out. -/
inductive Stage
  | entering
  | recorded
  | leaving
deriving DecidableEq

/-- Where a line record is, and what it says. -/
structure LineKey where
  cls : CStr
  line : UInt32
  type : InstrumentType
deriving DecidableEq

/-- The instrument whose records are being moved. `recs` are the line records it should
have now, `installed` the classes whose code was installed with them. -/
structure Flight where
  id : Nat
  profilerId : Int
  stage : Stage
  recs : List LineKey
  installed : List CStr

@[ext]
structure Ledger where
  entry : Nat → Option MiEntry
  nextId : Nat
  queue : List QueuedInstr
  cls : CStr → Option ClassInfo
  slots : List Slot
  versions : List Version
  outdated : List CStr
  staleReads : Nat
  reports : List Report
  flight : Option Flight
  loading : Option CStr
  purging : Bool

/-- The ledger of a world between events. -/
def World.ledger (w : World) : Ledger where
  entry := w.entry
  nextId := w.masterInstruments.nextId
  queue := w.queuedInstruments
  cls := w.cls
  slots := w.slots
  versions := w.versions
  outdated := w.outdated
  staleReads := w.staleReads
  reports := w.reports
  flight := none
  loading := none
  purging := false

/-- The ledger in the middle of an event, with the queue and the stage of the event given. -/
def Ledger.amid (L : Ledger) (queue : List QueuedInstr) (flight : Option Flight)
    (loading : Option CStr) (purging : Bool) : Ledger :=
  { L with queue := queue, flight := flight, loading := loading, purging := purging }

/-! ## What the records of an instrument look like -/

inductive QueueKind
  | method (methodSig : Option CStr)
  | lineEnter (lineNumber : UInt32)
  | lineExit (lineNumber : UInt32)
  | varBind
deriving DecidableEq

/-- A queue record without its ids. -/
structure QueueKey where
  cls : Option CStr
  kind : QueueKind
deriving DecidableEq

def QueuedInstr.key (q : QueuedInstr) : QueueKey where
  cls := q.className.map Pstring.cstr
  kind := match q.body with
    | .method s => .method (s.map Pstring.cstr)
    | .lineEnter l => .lineEnter l
    | .lineExit l => .lineExit l
    | .varBind .. => .varBind

def InstrumentedMethod.hasId (id : Nat) (m : InstrumentedMethod) : Bool :=
  decide (m.instrumentId = id)

def InstrumentedMethod.key (m : InstrumentedMethod) : Option CStr := m.methodSig.map Pstring.cstr

def InstrumentedLine.hasId (id : Nat) (r : InstrumentedLine) : Bool := decide (r.instrumentId = id)

def InstrumentedLine.key (c : CStr) (r : InstrumentedLine) : LineKey := ⟨c, r.lineNumber, r.type⟩

/-- The queue records that the entry calls for: one for each deferred part. -/
def queueKeys : Option MiEntry → List QueueKey
  | some ⟨c, .method n true⟩ => [⟨some c.cstr, .method (some n.cstr)⟩]
  | some ⟨c, .line x l l' d d'⟩ =>
    (if d then [⟨some c.cstr, .lineEnter l⟩] else []) ++
      if d' then [⟨some x.cstr, .lineExit l'⟩] else []
  | _ => []

/-- The method records of the class `c` that an applied entry calls for. -/
def methodKeys (c : CStr) : Option MiEntry → List (Option CStr)
  | some ⟨c', .method n _⟩ => if c'.cstr = c then [some n.cstr] else []
  | _ => []

/-- The line records that an applied entry calls for. -/
def lineKeys : Option MiEntry → List LineKey
  | some ⟨c, .line x l l' _ _⟩ => [⟨c.cstr, l, .enter⟩, ⟨x.cstr, l', .exit⟩]
  | _ => []

namespace MiEntry

/-- No part of the instrument is deferred. -/
def isApplied (e : MiEntry) : Bool :=
  match e.body with
  | .method _ d => !d
  | .line _ _ _ d d' => !d && !d'
  | .varBind .. => false

/-- An instrument as `mi_add_method` and `mi_add_linep` make it. -/
def isFresh (e : MiEntry) : Bool :=
  match e.body with
  | .method _ d => d
  | .line _ _ _ d d' => d && d'
  | .varBind .. => false

/-- Every part applied. -/
def applied (e : MiEntry) : MiEntry := e.methodApplied.lineEntryApplied.lineExitApplied

end MiEntry

/-- The half of a line instrument that a queue record stands for is applied. -/
def QueuedInstr.markHalf (q : QueuedInstr) : MiEntry → MiEntry :=
  match q.body with
  | .lineEnter _ => MiEntry.lineEntryApplied
  | .lineExit _ => MiEntry.lineExitApplied
  | _ => id

/-! ## Pieces of a ledger -/

namespace Ledger

def setEntry (L : Ledger) (id : Nat) (e : Option MiEntry) : Ledger :=
  { L with entry := Function.update L.entry id e }

def modEntry (L : Ledger) (id : Nat) (f : MiEntry → MiEntry) : Ledger :=
  L.setEntry id ((L.entry id).map f)

def modCls (L : Ledger) (c : CStr) (f : ClassInfo → ClassInfo) : Ledger :=
  { L with cls := Function.update L.cls c ((L.cls c).map f) }

def withFlight (L : Ledger) (f : Option Flight) : Ledger := { L with flight := f }

def mark (L : Ledger) (c : CStr) : Ledger := { L with outdated := c :: L.outdated }

def release (L : Ledger) (profilerId : Int) (ok : Bool) : Ledger :=
  { L with slots := if ok then registryRemove L.slots profilerId else L.slots }

/-- The code that an installation puts in the class: its records, or nothing when the hook
had no memory for them. -/
def callsOf (ci : ClassInfo) (kept : Bool) : Option Bytecode :=
  if kept then some ⟨ci.bytecode, instrumentCalls ci⟩ else none

def install (L : Ledger) (c : CStr) (ci : ClassInfo) (kept : Bool) : Ledger :=
  { L with
    versions := match retransformTarget L.versions c ci.loader with
      | some i => installCode L.versions i (callsOf ci kept)
      | none => L.versions
    outdated := L.outdated.filter (· ≠ c) }

variable {L : Ledger}

@[simp] theorem setEntry_entry (id id' : Nat) (e : Option MiEntry) :
    (L.setEntry id e).entry id' = if id' = id then e else L.entry id' :=
  Function.update_apply ..

@[simp] theorem modEntry_entry (id id' : Nat) (f : MiEntry → MiEntry) :
    (L.modEntry id f).entry id' = if id' = id then (L.entry id).map f else L.entry id' :=
  Function.update_apply ..

@[simp] theorem modCls_cls (c c' : CStr) (f : ClassInfo → ClassInfo) :
    (L.modCls c f).cls c' = if c' = c then (L.cls c).map f else L.cls c' :=
  Function.update_apply ..

theorem modEntry_of_some {id : Nat} {e : MiEntry} (h : L.entry id = some e) (f : MiEntry → MiEntry) :
    L.modEntry id f = L.setEntry id (some (f e)) := by
  rw [modEntry, h, Option.map_some]

theorem modEntry_congr {id : Nat} {f g : MiEntry → MiEntry}
    (h : ∀ e, L.entry id = some e → f e = g e) : L.modEntry id f = L.modEntry id g := by
  unfold modEntry
  cases he : L.entry id with
  | none => rfl
  | some e => rw [Option.map_some, Option.map_some, h e he]

theorem modEntry_of_fixed {id : Nat} {f : MiEntry → MiEntry}
    (h : ∀ e, L.entry id = some e → f e = e) : L.modEntry id f = L := by
  refine Ledger.ext (funext fun id' => ?_) rfl rfl rfl rfl rfl rfl rfl rfl rfl rfl rfl
  rw [modEntry_entry]
  split
  · next hid =>
    subst hid
    cases he : L.entry id' with
    | none => rfl
    | some e => rw [Option.map_some, h e he]
  · rfl

theorem modEntry_modEntry (id : Nat) (f g : MiEntry → MiEntry) :
    (L.modEntry id f).modEntry id g = L.modEntry id fun e => g (f e) := by
  refine Ledger.ext (funext fun id' => ?_) rfl rfl rfl rfl rfl rfl rfl rfl rfl rfl rfl
  simp only [modEntry_entry, ↓reduceIte, Option.map_map, Function.comp_def]
  split <;> rfl

theorem modEntry_setEntry (id : Nat) (f : MiEntry → MiEntry) (e : Option MiEntry) :
    (L.modEntry id f).setEntry id e = L.setEntry id e := by
  refine Ledger.ext (funext fun id' => ?_) rfl rfl rfl rfl rfl rfl rfl rfl rfl rfl rfl
  simp only [setEntry_entry, modEntry_entry]
  split <;> rfl

theorem setEntry_of_eq {id : Nat} {e : Option MiEntry} (h : L.entry id = e) : L.setEntry id e = L := by
  refine Ledger.ext (funext fun id' => ?_) rfl rfl rfl rfl rfl rfl rfl rfl rfl rfl rfl
  rw [setEntry_entry]
  split
  · next hid => rw [hid, h]
  · rfl

/-- Two changes of a class that undo each other. -/
theorem modCls_modCls_of_inverse {c : CStr} {f g : ClassInfo → ClassInfo} (h : ∀ ci, g (f ci) = ci) :
    (L.modCls c f).modCls c g = L := by
  refine Ledger.ext rfl rfl rfl (funext fun c' => ?_) rfl rfl rfl rfl rfl rfl rfl rfl
  simp only [modCls_cls, ↓reduceIte, Option.map_map, Function.comp_def, h]
  split
  · next hc => rw [hc, Option.map_id']
  · rfl

end Ledger

/-! ## The acts -/

/-- What the handlers do to a ledger. The data that an act reads from the ledger is part of
it; `Act.Enabled` says that it is what the ledger holds. -/
inductive Act
  /-- An id is given out and its entry removed again. -/
  | burn
  /-- An entry that users do not see is added. -/
  | hide (e : MiEntry)
  /-- An entry is added and a profiler created for it. -/
  | start (e : MiEntry) (name : ProfilerName)
  /-- The instrument in flight is deferred; `e` is its entry with the parts marked whose
  class is loaded. -/
  | enqueue (f : Flight) (qs : List QueuedInstr) (e : MiEntry)
  | addMethod (f : Flight) (c : CStr) (sig : Pstring)
  | dropMethod (f : Flight) (c s : CStr)
  | addLine (f : Flight) (k : LineKey)
  | dropLine (f : Flight) (c : CStr) (l : UInt32)
  /-- The instrument in flight is applied. -/
  | settle (f : Flight)
  /-- The instrument in flight is given up; `ok` says whether its profiler was removed. -/
  | abandon (f : Flight) (ok : Bool)
  | mark (c : CStr)
  | install (c : CStr) (ci : ClassInfo) (kept : Bool)
  /-- A queue record of a line instrument is done with while the other one waits. -/
  | markHalf (c : CStr) (q : QueuedInstr)
  /-- The instrument of a queue record is about to be applied. -/
  | dequeue (c : CStr) (q : QueuedInstr)
  /-- An instrument that is not applied loses its queue records. -/
  | unqueue (id : Nat) (q : QueuedInstr)
  /-- A method instrument loses its record in the class. -/
  | takeMethod (c s : CStr) (m : InstrumentedMethod)
  /-- A line instrument is about to lose its records. -/
  | leaveLine (id : Nat) (e : MiEntry) (ci : ClassInfo)
  | define (name : CStr) (loader : Option Nat)
  | load (ci : ClassInfo)
  | settled
  | purge
  | leaveMethodRec (m : InstrumentedMethod)
  | leaveLineRec (r : InstrumentedLine)
  | release (r : InstrumentedLine) (ok : Bool)
  | clear (c : CStr)
  | report (r : Report)
  | readStale

namespace Act

open Ledger

/-- What the class that is loaded becomes: it takes over the records of the class that was
there under its name. -/
def loadedClass (L : Ledger) (ci : ClassInfo) : ClassInfo :=
  match L.cls ci.name.cstr with
  | some old => ciStealInstruments ci old
  | none => ci

def apply (L : Ledger) : Act → Ledger
  | burn => { L with nextId := L.nextId + 1 }
  | hide e => { L.setEntry L.nextId (some e) with nextId := L.nextId + 1 }
  | start e name =>
    { L.setEntry L.nextId (some e) with
      nextId := L.nextId + 1
      slots := registryCreate L.slots ⟨true, L.nextId, name⟩
      flight := some ⟨L.nextId, registryCreateId L.slots, .entering, [], []⟩ }
  | enqueue f qs e => { L.setEntry f.id (some e) with queue := L.queue ++ qs, flight := none }
  | addMethod f c sig =>
    (L.modCls c (ciAddInstrumentedMethod ⟨some sig, f.profilerId, f.id⟩)).withFlight
      (some { f with stage := .recorded })
  | dropMethod f c s =>
    (L.modCls c (ciRemoveInstrumentedBySig s)).withFlight (some { f with stage := .leaving })
  | addLine f k =>
    (L.modCls k.cls (ciAddInstrumentedLine ⟨k.line, f.profilerId, f.id, k.type⟩)).withFlight
      (some { f with stage := .recorded, recs := f.recs ++ [k] })
  | dropLine f c l =>
    (L.modCls c (ciRemoveInstrumentedLine l)).withFlight
      (some { f with recs := f.recs.eraseP fun k => decide (k.cls = c ∧ k.line = l) })
  | settle f => (L.modEntry f.id .applied).withFlight none
  | abandon f ok => ((L.setEntry f.id none).release f.profilerId ok).withFlight none
  | mark c => L.mark c
  | install c ci kept =>
    (L.install c ci kept).withFlight (L.flight.map fun f => { f with installed := c :: f.installed })
  | markHalf c q => { L.modEntry q.instrumentId q.markHalf with queue := L.queue.eraseP (·.hasClass c) }
  | dequeue c q =>
    { L.modEntry q.instrumentId q.markHalf with
      queue := L.queue.eraseP (·.hasClass c)
      flight := some ⟨q.instrumentId, q.profilerId, .entering, [], []⟩ }
  | unqueue id q =>
    { L with
      queue := removeQueuedInstrById L.queue id
      flight := some ⟨id, q.profilerId, .leaving, [], []⟩ }
  | takeMethod c s m =>
    ((L.modCls c (ciRemoveInstrumentedBySig s)).mark c).withFlight
      (some ⟨m.instrumentId, m.profilerId, .leaving, [], []⟩)
  | leaveLine id e ci =>
    L.withFlight
      (some ⟨id, ciInstrumentedLine ci e.entryLineNumber, .leaving, lineKeys (some e), []⟩)
  | define name loader => { L with versions := defineVersion L.versions name loader }
  | load ci =>
    { L with
      cls := Function.update L.cls ci.name.cstr (some (loadedClass L ci))
      outdated := L.outdated.filter (· ≠ ci.name.cstr)
      loading := some ci.name.cstr }
  | settled => { L with loading := none }
  | purge => { L with purging := true }
  | leaveMethodRec m => L.withFlight (some ⟨m.instrumentId, m.profilerId, .leaving, [], []⟩)
  | leaveLineRec r =>
    L.withFlight
      (some ⟨r.instrumentId, r.profilerId, .leaving, lineKeys (L.entry r.instrumentId), []⟩)
  | release r ok => L.release r.profilerId ok
  | clear c => { L.modCls c ciClearInstruments with purging := false }
  | report r => { L with reports := L.reports ++ [r] }
  | readStale => { L with staleReads := L.staleReads + 1 }

/-- When an act happens. -/
def Enabled (L : Ledger) : Act → Prop
  | burn => True
  | hide e => L.flight = none ∧ L.purging = false ∧ e.isUserVisible = false
  | start e _ =>
    L.flight = none ∧ L.loading = none ∧ L.purging = false ∧ e.isFresh = true ∧
      ∀ c s, e.isMethodOf c s = true → ∀ id e', L.entry id = some e' → e'.isMethodOf c s = false
  | enqueue f qs e =>
    L.flight = some f ∧ f.stage = .entering ∧ L.purging = false ∧
      (∃ e₀, L.entry f.id = some e₀ ∧ e.identity = e₀.identity) ∧ qs ≠ [] ∧
      qs.map QueuedInstr.key = queueKeys (some e) ∧
      ∀ q ∈ qs, q.instrumentId = f.id ∧ q.profilerId = f.profilerId ∧
        ∀ c, q.hasClass c = true → L.cls c = none
  | addMethod f c sig =>
    L.flight = some f ∧ f.stage = .entering ∧ L.purging = false ∧ L.cls c ≠ none ∧
      ∃ e, L.entry f.id = some e ∧ e.isMethodOf c sig.cstr = true
  | dropMethod f c s =>
    L.flight = some f ∧ f.stage = .recorded ∧ c ∉ f.installed ∧ L.purging = false ∧
      ∃ e, L.entry f.id = some e ∧ e.isMethodOf c s = true
  | addLine f k =>
    L.flight = some f ∧ f.stage ≠ .leaving ∧ L.purging = false ∧ L.cls k.cls ≠ none ∧
      k ∈ lineKeys (L.entry f.id)
  | dropLine f c _ =>
    L.flight = some f ∧ f.stage ≠ .entering ∧ (c ∈ f.installed ∨ f.stage = .leaving → c ∈ L.outdated) ∧
      lineKeys (L.entry f.id) ≠ []
  | settle f =>
    L.flight = some f ∧ f.stage = .recorded ∧ L.purging = false ∧ f.recs = lineKeys (L.entry f.id) ∧
      ∃ e, L.entry f.id = some e ∧ ∀ c s, e.isMethodOf c s = true → L.cls c ≠ none
  | abandon f _ =>
    L.flight = some f ∧ (f.stage = .recorded → lineKeys (L.entry f.id) ≠ []) ∧
      (f.recs = [] ∨ (L.purging = true ∧
        ∀ k ∈ f.recs, L.loading = some k.cls ∨ L.cls k.cls = none))
  | mark _ => True
  | install c ci _ => L.cls c = some ci ∧ (L.loading = some c → L.purging = false)
  | markHalf c q =>
    L.loading = some c ∧ L.flight = none ∧ L.purging = false ∧
      L.queue.find? (·.hasClass c) = some q ∧ q.isLine = true ∧
      ∃ e, L.entry q.instrumentId = some e ∧ (q.markHalf e).isApplied = false
  | dequeue c q =>
    L.loading = some c ∧ L.flight = none ∧ L.purging = false ∧
      L.queue.find? (·.hasClass c) = some q ∧
      ∃ e, L.entry q.instrumentId = some e ∧ (q.isLine = true → (q.markHalf e).isApplied = true)
  | unqueue id q =>
    L.flight = none ∧ L.purging = false ∧ L.queue.find? (·.hasId id) = some q
  | takeMethod c s m =>
    L.flight = none ∧ L.purging = false ∧
      ∃ ci, L.cls c = some ci ∧ ci.instrumented.find? (·.hasSig s) = some m
  | leaveLine id e ci =>
    L.flight = none ∧ L.purging = false ∧ L.entry id = some e ∧ e.lineIsReady = true ∧
      L.cls e.entryClassName.cstr = some ci
  | define _ _ => L.flight = none
  | load ci =>
    L.flight = none ∧ L.loading = none ∧ L.purging = false ∧ ci.instrumented = [] ∧ ci.lines = [] ∧
      ∃ v ∈ L.versions, v.name = ci.name.cstr ∧ v.loader = ci.loader ∧ v.calls = []
  | settled =>
    L.flight = none ∧ L.purging = false ∧ ∀ q ∈ L.queue, ∀ c, q.hasClass c = true → L.loading ≠ some c
  | purge =>
    L.flight = none ∧ ∃ c ci, L.loading = some c ∧ L.cls c = some ci ∧
      ∀ v ∈ L.versions, v.name = c → v.loader = ci.loader → v.calls = []
  | leaveMethodRec m =>
    L.flight = none ∧ L.purging = true ∧ L.entry m.instrumentId ≠ none ∧
      ∃ c ci, L.loading = some c ∧ L.cls c = some ci ∧ m ∈ ci.instrumented
  | leaveLineRec r =>
    L.flight = none ∧ L.purging = true ∧ L.entry r.instrumentId ≠ none ∧
      ∃ c ci, L.loading = some c ∧ L.cls c = some ci ∧ r ∈ ci.lines
  | release r _ =>
    L.purging = true ∧ L.entry r.instrumentId = none ∧
      ∃ c ci, L.loading = some c ∧ L.cls c = some ci ∧ r ∈ ci.lines
  | clear c =>
    L.flight = none ∧ L.purging = true ∧ L.loading = some c ∧
      ∀ ci, L.cls c = some ci → ∀ m ∈ ci.instrumented, L.entry m.instrumentId = none
  | report _ => True
  | readStale => True

end Act

end JautoProf
