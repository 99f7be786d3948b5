import JautoProf.Refines

/-!
# The stores of a world and its line records

What the requests are compared by, before and after: the entries, the queue, the records of
the classes and the active slots, up to the code that is installed. A handler adds the two
records of a line instrument and takes records back by line number.
-/

namespace JautoProf

open Ledger

variable {w w' : World} {L : Ledger}

/-! ## The stores -/

/-- The slot, when it is active. -/
def World.activeSlot (w : World) (i : Nat) : Option Slot := w.slots[i]?.filter (·.active)

theorem activeSlot_congr (h : w'.slots = w.slots) : w'.activeSlot = w.activeSlot := by
  funext i
  rw [World.activeSlot, h, World.activeSlot]

/-- The master entries, the queue and the records of every class are those of before. -/
structure SameStores (w w' : World) : Prop where
  entry : w'.entry = w.entry
  queue : w'.queuedInstruments = w.queuedInstruments
  instrumented : ∀ c,
    (w'.cls c).map ClassInfo.instrumented = (w.cls c).map ClassInfo.instrumented
  lines : ∀ c, (w'.cls c).map ClassInfo.lines = (w.cls c).map ClassInfo.lines

/-- With the active slots. -/
structure Unchanged (w w' : World) : Prop extends SameStores w w' where
  slots : w'.activeSlot = w.activeSlot

/-! ## Up to the installed code -/

/-- The ledger with other code installed. -/
def Ledger.deploy (L : Ledger) (versions : List Version) (outdated : List CStr) : Ledger :=
  { L with versions := versions, outdated := outdated }

/-- The two ledgers differ in the code that is installed at most. -/
def Ledger.Redeployed (L L' : Ledger) : Prop := ∃ V O, L' = L.deploy V O

theorem redeployed_refl (L : Ledger) : L.Redeployed L := ⟨L.versions, L.outdated, rfl⟩

theorem Ledger.Redeployed.install {L' : Ledger} (h : L.Redeployed L') (c : CStr) (ci : ClassInfo)
    (kept : Bool) : L.Redeployed (L'.install c ci kept) := by
  obtain ⟨V, O, rfl⟩ := h
  exact ⟨_, _, rfl⟩

theorem Ledger.Redeployed.mark {L' : Ledger} (h : L.Redeployed L') (c : CStr) :
    L.Redeployed (L'.mark c) := by
  obtain ⟨V, O, rfl⟩ := h
  exact ⟨_, _, rfl⟩

/-! ## Adding and dropping line records -/

/-- The two records of a line instrument. -/
def MiEntry.entryLine (e : MiEntry) (id : Nat) (pid : Int) : InstrumentedLine :=
  ⟨e.entryLineNumber, pid, id, .enter⟩

def MiEntry.exitLine (e : MiEntry) (id : Nat) (pid : Int) : InstrumentedLine :=
  ⟨e.exitLineNumber, pid, id, .exit⟩

/-- What an attempt adds for a line instrument, one after the other. -/
def Ledger.addEntryLine (L : Ledger) (e : MiEntry) (id : Nat) (pid : Int) : Ledger :=
  L.modCls e.entryClassName.cstr (ciAddInstrumentedLine (e.entryLine id pid))

def Ledger.addExitLine (L : Ledger) (e : MiEntry) (id : Nat) (pid : Int) : Ledger :=
  L.modCls e.exitClassName.cstr (ciAddInstrumentedLine (e.exitLine id pid))

/-- What goes by the line numbers of a line instrument. -/
def Ledger.dropEntryLine (L : Ledger) (e : MiEntry) : Ledger :=
  L.modCls e.entryClassName.cstr (ciRemoveInstrumentedLine e.entryLineNumber)

def Ledger.dropExitLine (L : Ledger) (e : MiEntry) : Ledger :=
  L.modCls e.exitClassName.cstr (ciRemoveInstrumentedLine e.exitLineNumber)

/-! ## What is taken back by line number -/

/-- The line records of a class. -/
def Ledger.linesAt (L : Ledger) (c : CStr) : Option (List InstrumentedLine) :=
  (L.cls c).map ClassInfo.lines

theorem linesAt_modCls {f : ClassInfo → ClassInfo} {g : List InstrumentedLine → List InstrumentedLine}
    (hf : ∀ ci, (f ci).lines = g ci.lines) (c c' : CStr) :
    (L.modCls c f).linesAt c' = if c' = c then (L.linesAt c).map g else L.linesAt c' := by
  unfold linesAt
  rw [modCls_cls]
  split
  · rw [Option.map_map, Option.map_map]
    exact congrArg (Option.map · _) (funext hf)
  · rfl

theorem firstLine_eq (c : CStr) (l : UInt32) : L.firstLine c l =
    (L.linesAt c).bind fun ls => (ls.find? (·.hasLine l)).map (·.instrumentId) := by
  rw [firstLine, linesAt, Option.bind_map]
  rfl

/-- The first record of a line is the one with the new id when no record before it has the
line. -/
theorem first_iff {l t : List InstrumentedLine} {r : InstrumentedLine} {n : UInt32} {id : Nat}
    (hid : r.instrumentId = id) (hr : r.hasLine n = true) (hnew : ∀ x ∈ l, x.instrumentId ≠ id) :
    ((l ++ r :: t).find? (·.hasLine n)).map (·.instrumentId) = some id ↔
      ∀ x ∈ l, x.hasLine n = false := by
  subst hid
  rw [List.find?_append, List.find?_cons_of_pos hr]
  cases hf : l.find? (·.hasLine n) with
  | none => simpa using hf
  | some x =>
    have hx := List.mem_of_find?_eq_some hf
    refine ⟨fun h => absurd (Option.some.inj h) (hnew x hx), fun h => ?_⟩
    have hline := List.find?_some hf
    simp [h x hx] at hline

section

variable {e : MiEntry} {id : Nat} {pid : Int}

@[simp] theorem hasLine_entryLine : (e.entryLine id pid).hasLine e.entryLineNumber = true := by
  simp [MiEntry.entryLine, InstrumentedLine.hasLine]

@[simp] theorem hasLine_exitLine : (e.exitLine id pid).hasLine e.exitLineNumber = true := by
  simp [MiEntry.exitLine, InstrumentedLine.hasLine]

theorem entryLine_instrumentId : (e.entryLine id pid).instrumentId = id := rfl

theorem exitLine_instrumentId : (e.exitLine id pid).instrumentId = id := rfl

@[simp] theorem linesAt_addEntryLine (c : CStr) : (L.addEntryLine e id pid).linesAt c =
    if c = e.entryClassName.cstr then (L.linesAt e.entryClassName.cstr).map (· ++ [e.entryLine id pid])
    else L.linesAt c :=
  linesAt_modCls (fun _ => rfl) ..

@[simp] theorem linesAt_addExitLine (c : CStr) : (L.addExitLine e id pid).linesAt c =
    if c = e.exitClassName.cstr then (L.linesAt e.exitClassName.cstr).map (· ++ [e.exitLine id pid])
    else L.linesAt c :=
  linesAt_modCls (fun _ => rfl) ..

@[simp] theorem linesAt_dropEntryLine (c : CStr) : (L.dropEntryLine e).linesAt c =
    if c = e.entryClassName.cstr then
      (L.linesAt e.entryClassName.cstr).map (List.eraseP (·.hasLine e.entryLineNumber))
    else L.linesAt c :=
  linesAt_modCls (fun _ => rfl) ..

@[simp] theorem linesAt_dropExitLine (c : CStr) : (L.dropExitLine e).linesAt c =
    if c = e.exitClassName.cstr then
      (L.linesAt e.exitClassName.cstr).map (List.eraseP (·.hasLine e.exitLineNumber))
    else L.linesAt c :=
  linesAt_modCls (fun _ => rfl) ..

/-- A change of one class that shows nowhere. -/
theorem forall_ite_iff {c : CStr} {x y : Option (List InstrumentedLine)} (hy : L.linesAt c = y) :
    (∀ c', (if c' = c then x else L.linesAt c') = L.linesAt c') ↔ x = y := by
  subst hy
  refine ⟨fun h => (if_pos rfl).symm.trans (h c), fun h c' => ?_⟩
  split
  · next hc => rw [h, hc]
  · rfl
end

/-! ## Method records -/

/-- The classes of the first ledger hold the method records of the second. -/
def Ledger.SameMethods (L L' : Ledger) : Prop :=
  ∀ c, (L'.cls c).map ClassInfo.instrumented = (L.cls c).map ClassInfo.instrumented

theorem Ledger.SameMethods.modCls {L' : Ledger} (h : L.SameMethods L') (c : CStr)
    {f : ClassInfo → ClassInfo} (hf : ∀ ci, (f ci).instrumented = ci.instrumented) :
    L.SameMethods (L'.modCls c f) := by
  intro c'
  rw [modCls_cls, ← h c']
  split
  · next hc =>
    rw [Option.map_map, hc]
    exact congrArg (Option.map · _) (funext hf)
  · rfl

section

variable {L' : Ledger} {e : MiEntry} {id : Nat} {pid : Int}

theorem Ledger.SameMethods.addEntryLine (h : L.SameMethods L') :
    L.SameMethods (L'.addEntryLine e id pid) := h.modCls _ fun _ => rfl

theorem Ledger.SameMethods.addExitLine (h : L.SameMethods L') :
    L.SameMethods (L'.addExitLine e id pid) := h.modCls _ fun _ => rfl

theorem Ledger.SameMethods.dropEntryLine (h : L.SameMethods L') :
    L.SameMethods (L'.dropEntryLine e) := h.modCls _ fun _ => rfl

theorem Ledger.SameMethods.dropExitLine (h : L.SameMethods L') :
    L.SameMethods (L'.dropExitLine e) := h.modCls _ fun _ => rfl

end

end JautoProf
