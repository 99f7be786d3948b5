import JautoProf.LineRecords

/-!
# Requests that fail

What a request for an instrument leaves behind when the client is told that it failed. The
failed attempts are described as equations between ledgers, up to the code that is installed
on the way. Method records are taken back by signature, which finds the record that was just
added; line records are taken back by line number, which finds the first record of the line.

Results:
1. `method_request_undone`: a method request that fails or is a duplicate leaves the stores
   and the active slots as they were.
2. `line_request_undone_iff`: a line request that fails does so exactly when what it takes
   back is its own.
3. `line_request_damage`: a line request for a line without code takes the record of another
   instrument.
-/

namespace JautoProf

open Prog Ledger

variable {env : Env} {w w' : World} {L : Ledger}

/-! ## Giving an instrument up -/

/-- The instrument `id` is given up, with the classes as `cls` says. -/
def GivenUp (env : Env) (w w' : World) (id : Nat) (pid : Int) (cls : CStr → Option ClassInfo) :
    Prop :=
  ∃ ok, (RemoveOk env → ok = true) ∧
    ((({ w.ledger with cls := cls } : Ledger).setEntry id none).release pid ok).Redeployed w'.ledger

/-- What an attempt did to the classes before it was given up. -/
theorem GivenUp.of_cls {w₁ : World} {id : Nat} {pid : Int} {cls cls₁ : CStr → Option ClassInfo}
    (h : GivenUp env w₁ w' id pid cls) (hw₁ : w₁.ledger = { w.ledger with cls := cls₁ }) :
    GivenUp env w w' id pid cls := by
  obtain ⟨ok, hok, h⟩ := h
  rw [hw₁] at h
  exact ⟨ok, hok, h⟩

/-- The profiler and the entry go. -/
theorem givenUp_run {id : Nat} {pid : Int} {st r : InstrumentRespStatus}
    (h : (do jniRemoveProfiler env pid
             removeEntry id
             pure st : M InstrumentRespStatus) w = (r, w')) : GivenUp env w w' id pid w.cls := by
  obtain ⟨_, w₁, r₁, h₁⟩ := bind_eq.mp h
  obtain ⟨_, w₂, r₂, h₂⟩ := bind_eq.mp h₁
  obtain ⟨-, rfl⟩ := pure_eq.mp h₂
  obtain ⟨ok, hok, hw₁⟩ := jniRemoveProfiler_run r₁
  refine ⟨ok, hok, ?_⟩
  rw [removeEntry_run r₂, hw₁]
  exact redeployed_refl _

/-! ## The entry and the profiler of a request -/

/-- A slot that is created and removed again leaves the active slots. -/
theorem registryRemove_create (slots : List Slot) (s : Slot) (i : Nat) :
    (registryRemove (registryCreate slots s) (.ofNat (registryCreateId slots)))[i]?.filter (·.active) =
      slots[i]?.filter (·.active) := by
  rw [registryRemove_get, registryCreate_get]
  split
  · next hi =>
    subst hi
    cases h : slots[registryCreateId slots]? with
    | none => rfl
    | some t =>
      have hfree := registryCreateId_free h
      simp [Option.filter, hfree]
  · rfl

theorem setEntry_insert (hnew : L.entry L.nextId = none) (e : MiEntry) :
    ((L.insert e).setEntry L.nextId none).entry = L.entry := by
  funext id
  show ((L.setEntry L.nextId (some e)).setEntry L.nextId none).entry id = _
  rw [setEntry_entry, setEntry_entry]
  split
  · next hid => exact (hid ▸ hnew).symm
  · rfl

/-- The stores are as before but for the classes, and so are the active slots when the
profiler could be removed. -/
structure Restored (env : Env) (w w' : World) (cls : CStr → Option ClassInfo) : Prop where
  entry : w'.entry = w.entry
  queue : w'.queuedInstruments = w.queuedInstruments
  cls : w'.cls = cls
  slots : RemoveOk env → w'.activeSlot = w.activeSlot

/-- Nothing was done. -/
theorem Restored.of_ledger (h : w'.ledger = w.ledger) : Restored env w w' w.cls :=
  ⟨congrArg Ledger.entry h, congrArg Ledger.queue h, congrArg Ledger.cls h, fun _ =>
    activeSlot_congr (congrArg Ledger.slots h)⟩

/-- The entry was added and removed again. -/
theorem Restored.of_burn {e : MiEntry} (hnew : w.entry w.masterInstruments.nextId = none)
    (h : w'.ledger = (w.ledger.insert e).setEntry w.masterInstruments.nextId none) :
    Restored env w w' w.cls :=
  ⟨(congrArg Ledger.entry h).trans (setEntry_insert (L := w.ledger) hnew e),
    congrArg Ledger.queue h, congrArg Ledger.cls h, fun _ =>
    activeSlot_congr (congrArg Ledger.slots h)⟩

/-- What is left of a request that is given up. -/
theorem GivenUp.restored {e : MiEntry} {name : ProfilerName} {w₁ w₂ : World}
    {cls : CStr → Option ClassInfo} (hnew : w.entry w.masterInstruments.nextId = none)
    (hw₁ : w₁.ledger = w.ledger.insert e)
    (hw₂ : w₂.ledger = { w₁.ledger with
      slots := registryCreate w₁.slots ⟨true, w.masterInstruments.nextId, name⟩ })
    (h : GivenUp env w₂ w' w.masterInstruments.nextId (registryCreateId w₁.slots) cls) :
    Restored env w w' cls := by
  have hs : w₁.slots = w.slots := congrArg Ledger.slots hw₁
  rw [hs, hw₁] at hw₂
  obtain ⟨ok, hok, V, O, h⟩ := h
  rw [hs, hw₂] at h
  refine ⟨(congrArg Ledger.entry h).trans (setEntry_insert (L := w.ledger) hnew e),
    congrArg Ledger.queue h, congrArg Ledger.cls h, fun hr => funext fun i => ?_⟩
  have hslots : w'.slots = _ := congrArg Ledger.slots h
  rw [hok hr] at hslots
  show w'.slots[i]?.filter _ = _
  rw [hslots]
  exact registryRemove_create w.slots _ i

/-! ## A method request -/

/-- A method record with a new signature is what goes by that signature. -/
theorem removeBySig_add {ci : ClassInfo} {m : InstrumentedMethod} {s : CStr} (hm : m.hasSig s = true)
    (hnew : ∀ m' ∈ ci.instrumented, m'.hasSig s = false) :
    ciRemoveInstrumentedBySig s (ciAddInstrumentedMethod m ci) = ci := by
  have hlist : (ci.instrumented ++ [m]).eraseP (·.hasSig s) = ci.instrumented := by
    rw [List.eraseP_append_right _ fun m' hm' => by simp [hnew m' hm'],
      List.eraseP_cons_of_pos hm, List.append_nil]
  exact congrArg (fun l => { ci with instrumented := l }) hlist

/-- An attempt at a method instrument that fails leaves the classes. -/
theorem instrumentNow_failed {c s : CStr} {id : Nat} {pid : Int} {e : MiEntry}
    (h : instrumentNow env c id pid w = (.error, w')) (he : w.entry id = some e)
    (hof : e.isMethodOf c s = true)
    (hnew : ∀ ci, w.cls c = some ci → ∀ m ∈ ci.instrumented, m.hasSig s = false) :
    GivenUp env w w' id pid w.cls := by
  obtain ⟨hm, -, hs⟩ := methodName_of_isMethodOf hof
  obtain ⟨populated, w₁, r₁, h₁⟩ := bind_eq.mp h
  rcases populateClassInfo_run r₁ he with ⟨rfl, hw₁⟩ | ⟨rfl, sig, hsig, hw₁⟩
  · have hcls : w₁.cls = w.cls := congrArg Ledger.cls hw₁
    exact hcls ▸ (givenUp_run h₁).of_cls hw₁
  · obtain ⟨ret, w₂, r₂, h₂⟩ := bind_eq.mp h₁
    have he₁ : w₁.entry id = some e := (congrFun (congrArg Ledger.entry hw₁) id).trans he
    rcases performInstrumentation_run r₂ he₁ with ⟨rfl, hw₂⟩ | ⟨rfl, -⟩
    · obtain ⟨_, w₃, r₃, h₃⟩ := bind_eq.mp h₂
      obtain ⟨_, w₄, r₄, h₄⟩ := bind_eq.mp h₃
      obtain ⟨-, rfl⟩ := pure_eq.mp h₄
      obtain ⟨e₅, w₅, r₅, h₅⟩ := bind_eq.mp r₃
      obtain ⟨rfl, rfl⟩ := deref_run r₅ ((congrFun (congrArg Ledger.entry hw₂) id).trans he₁)
      obtain ⟨_, w₆, r₆, h₆⟩ := bind_eq.mp h₅
      obtain ⟨ok, hok, hw₄⟩ := jniRemoveProfiler_run r₄
      refine ⟨ok, hok, ?_⟩
      rw [hw₄, removeEntry_run h₆, modifyClass_run r₆, hw₂, hw₁]
      -- what was added is what goes
      have hback : (w.ledger.modCls c (ciAddInstrumentedMethod ⟨some sig, pid, id⟩)).modCls c
          (ciRemoveInstrumentedBySig e₅.methodName.cstr) = w.ledger := by
        refine Ledger.ext rfl rfl rfl (funext fun c' => ?_) rfl rfl rfl rfl rfl rfl rfl rfl
        simp only [modCls_cls, ↓reduceIte]
        split
        · next hc =>
          subst hc
          show ((w.cls c').map _).map _ = w.cls c'
          cases hci : w.cls c' with
          | none => rfl
          | some ci =>
            refine congrArg some (removeBySig_add ?_ fun m hm => ?_)
            · simp [InstrumentedMethod.hasSig, hsig]
            · rw [hs]
              exact hnew ci hci m hm
        · rfl
      rw [hback]
      exact redeployed_refl _
    · cases h₂

/-- A method of the class is in its list only when an entry of the table asks for it. -/
theorem not_hasSig {c s : CStr} (hC : Coherent w.ledger)
    (hnone : ∀ id e, w.entry id = some e → e.isMethodOf c s = false) {ci : ClassInfo}
    (hci : w.cls c = some ci) : ∀ m ∈ ci.instrumented, m.hasSig s = false := by
  refine fun m hm => by_contra fun hne => ?_
  have hsig : m.hasSig s = true := by simpa using hne
  cases hf : ci.instrumented.find? (·.hasSig s) with
  | none => exact absurd hsig (List.find?_eq_none.mp hf m hm)
  | some m' =>
    obtain ⟨e, he, hof, -⟩ := hC.instrumentId_of_find rfl hci hf
    exact absurd hof (by simp [hnone _ _ he])

/-- A method whose entry was just added is no duplicate. -/
theorem instrumentAdded_ne_double {c s : CStr} {e : MiEntry} {w₁ : World}
    {st : InstrumentRespStatus}
    (h : instrumentAdded env c s w.masterInstruments.nextId w.masterInstruments.nextId w₁ = (st, w'))
    (hw₁ : w₁.ledger = w.ledger.insert e) (hof : e.isMethodOf c s = true) :
    st ≠ .doubleInstrument := by
  have he₁ := entry_of_insert hw₁
  rcases instrumentAdded_run h he₁ with
    ⟨rfl, -⟩ | ⟨w₂, hw₂, ⟨hci, h₂⟩ | ⟨-, ⟨rfl, -⟩ | ⟨rfl, -⟩⟩⟩
  · simp
  · have he₂ : w₂.entry w.masterInstruments.nextId = some e :=
      (congrFun (congrArg Ledger.entry hw₂) _).trans he₁
    have hcls₂ : w₂.cls = w₁.cls := congrArg Ledger.cls hw₂
    rcases instrumentNow_leads (V := anyRun) (Q := []) (o := none) h₂ he₂ hof (hcls₂ ▸ hci)
      False.elim with ⟨rfl, -⟩ | ⟨rfl, -⟩
    · simp
    · simp
  -- a deferred request is queued, or fails
  · simp
  · simp

/-- A method request that fails, from where the entry is in the master table. -/
theorem instrumentAdded_failed {c s : CStr} {e : MiEntry} {w₁ : World}
    (h : instrumentAdded env c s w.masterInstruments.nextId w.masterInstruments.nextId w₁ =
      (.error, w'))
    (hw₁ : w₁.ledger = w.ledger.insert e) (hC : Coherent w.ledger) (hof : e.isMethodOf c s = true)
    (hnone : ∀ id e', w.entry id = some e' → e'.isMethodOf c s = false) :
    Restored env w w' w.cls := by
  have he₁ := entry_of_insert hw₁
  rcases instrumentAdded_run h he₁ with ⟨-, hw'⟩ | ⟨w₂, hw₂, hrun⟩
  · -- no profiler, and the entry goes again
    rw [hw₁] at hw'
    exact .of_burn hC.entry_nextId hw'
  have he₂ : w₂.entry w.masterInstruments.nextId = some e :=
    (congrFun (congrArg Ledger.entry hw₂) _).trans he₁
  have hcls₂ : w₂.cls = w.cls := (congrArg Ledger.cls hw₂).trans (congrArg Ledger.cls hw₁)
  refine GivenUp.restored hC.entry_nextId hw₁ hw₂ (hcls₂ ▸ ?_)
  rcases hrun with ⟨-, h₂⟩ | ⟨-, ⟨hst, -⟩ | ⟨-, ok, hok, hw'⟩⟩
  · refine instrumentNow_failed h₂ he₂ hof fun ci hci m hm => ?_
    exact not_hasSig hC hnone (hcls₂ ▸ hci) m hm
  · cases hst
  · refine ⟨ok, hok, ?_⟩
    rw [hw']
    exact redeployed_refl _

/-- The status and the id of a method request and the world after it. -/
theorem ihInstrumentMethod_failed {c s : CStr} {st : InstrumentRespStatus} {id : Nat}
    (h : ihInstrumentMethod env c s w = ((st, id), w')) (hC : Coherent w.ledger)
    (hst : st = .error ∨ st = .doubleInstrument) :
    Restored env w w' w.cls ∧
      (st = .doubleInstrument → ∃ e, w.entry id = some e ∧ e.isMethodOf c s = true) := by
  obtain ⟨added, w₁, r₁, h₁⟩ := bind_eq.mp h
  obtain ⟨found, w₂, r₂, h₂⟩ := bind_eq.mp r₁
  obtain ⟨rfl, rfl⟩ := read_eq.mp r₂
  rcases miFindMethodByName_cases w.masterInstruments c s with ⟨id', e, hf, he, hof⟩ | ⟨hf, hnone⟩
  · rw [hf] at h₂
    cases h₂
    cases h₁
    exact ⟨.of_ledger rfl, fun _ => ⟨e, he, hof⟩⟩
  · rw [hf] at h₂
    obtain ⟨miv, w₃, r₃, h₃⟩ := bind_eq.mp h₂
    obtain ⟨rfl, rfl⟩ := pure_eq.mp h₃
    rcases miAddMethod_run r₃ with ⟨rfl, hw₃⟩ | ⟨c', m', rfl, rfl, rfl, hw₃⟩
    · cases h₁
      exact ⟨.of_ledger hw₃, fun h => absurd h (by simp)⟩
    · have hpos : w.masterInstruments.nextId ≠ 0 := w.masterInstruments.nextId_pos.ne'
      simp only [hpos, ↓reduceIte] at h₁
      obtain ⟨st', w₄, r₄, h₄⟩ := bind_eq.mp h₁
      obtain ⟨hst', rfl⟩ := pure_eq.mp h₄
      obtain ⟨rfl, rfl⟩ := Prod.mk.inj hst'
      have hof : MiEntry.isMethodOf ⟨c', .method m' true⟩ c'.cstr m'.cstr = true := by
        simp [MiEntry.isMethodOf]
      rcases hst with rfl | rfl
      · exact ⟨instrumentAdded_failed r₄ hw₃ hC hof hnone, fun h => absurd h (by simp)⟩
      · exact absurd rfl (instrumentAdded_ne_double r₄ hw₃ hof)

/-! ## A line request -/

/-- `populate_class_info_line` adds both records, or none, or takes back one at the line of
the first. -/
theorem populateClassInfoLine_run {id : Nat} {pid : Int} {e : MiEntry} {b : Bool}
    (h : populateClassInfoLine env e.entryClassName.cstr e.exitClassName.cstr id pid id w = (b, w'))
    (he : w.entry id = some e) :
    (b = true ∧ w'.ledger = (w.ledger.addEntryLine e id pid).addExitLine e id pid) ∨
      (b = false ∧ env.alloc w.allocs = false ∧ w'.ledger = w.ledger) ∨
      (b = false ∧ env.alloc w.allocs = true ∧
        w'.ledger = (w.ledger.addEntryLine e id pid).dropEntryLine e) := by
  obtain ⟨e', w₁, r₁, h₁⟩ := bind_eq.mp h
  obtain ⟨rfl, rfl⟩ := deref_run r₁ he
  obtain ⟨grown, w₂, r₂, h₂⟩ := bind_eq.mp h₁
  have hw₂ := malloc_run r₂
  have hgrown : env.alloc w₁.allocs = grown := congrArg Prod.fst r₂
  cases grown with
  | false =>
    cases h₂
    exact .inr (.inl ⟨rfl, hgrown, hw₂⟩)
  | true =>
    obtain ⟨_, w₃, r₃, h₃⟩ := bind_eq.mp h₂
    have hw₃ := modifyClass_run r₃
    rw [hw₂] at hw₃
    have he₃ : w₃.entry id = some e' := (congrFun (congrArg Ledger.entry hw₃) id).trans he
    obtain ⟨e₄, w₄, r₄, h₄⟩ := bind_eq.mp h₃
    obtain ⟨rfl, rfl⟩ := deref_run r₄ he₃
    obtain ⟨grown, w₅, r₅, h₅⟩ := bind_eq.mp h₄
    have hw₅ := malloc_run r₅
    cases grown with
    | true =>
      obtain ⟨_, w₆, r₆, h₆⟩ := bind_eq.mp h₅
      cases h₆
      exact .inl ⟨rfl, by rw [modifyClass_run r₆, hw₅, hw₃]; rfl⟩
    | false =>
      obtain ⟨e₆, w₆, r₆, h₆⟩ := bind_eq.mp h₅
      obtain ⟨rfl, rfl⟩ := deref_run r₆ ((congrFun (congrArg Ledger.entry hw₅) id).trans he₃)
      obtain ⟨_, w₇, r₇, h₇⟩ := bind_eq.mp h₆
      cases h₇
      -- there is no memory for the second record, and the first one is taken back
      exact .inr (.inr ⟨rfl, hgrown, by rw [modifyClass_run r₇, hw₅, hw₃]; rfl⟩)

/-- A failed `perform_instrumentation_line` takes records back by the two line numbers. -/
theorem performInstrumentationLine_failed {id : Nat} {pid : Int} {e : MiEntry}
    (h : performInstrumentationLine env e.entryClassName.cstr e.exitClassName.cstr id pid id w =
      (false, w')) (he : w.entry id = some e) (hl : lineKeys (some e) ≠ []) :
    GivenUp env w w' id pid ((w.ledger.dropEntryLine e).dropExitLine e).cls := by
  -- the `fail` exit, from what was installed so far
  have hundo : ∀ {w₁ w₂ : World} {b : Bool}, w.ledger.Redeployed w₁.ledger →
      (do undoLine env e.entryClassName.cstr e.exitClassName.cstr id pid id
          pure false : M Bool) w₁ = (b, w₂) →
      GivenUp env w w₂ id pid ((w.ledger.dropEntryLine e).dropExitLine e).cls := by
    rintro w₁ w₂ b ⟨V, O, hw₁⟩ h
    have he₁ : w₁.entry id = some e := (congrFun (congrArg Ledger.entry hw₁) id).trans he
    obtain ⟨_, w₃, r₃, h₃⟩ := bind_eq.mp h
    obtain ⟨-, rfl⟩ := pure_eq.mp h₃
    obtain ⟨e₄, w₄, r₄, h₄⟩ := bind_eq.mp r₃
    obtain ⟨rfl, rfl⟩ := deref_run r₄ he₁
    obtain ⟨_, w₅, r₅, h₅⟩ := bind_eq.mp h₄
    have hw₅ := modifyClass_run r₅
    obtain ⟨e₆, w₆, r₆, h₆⟩ := bind_eq.mp h₅
    obtain ⟨rfl, rfl⟩ := deref_run r₆ ((congrFun (congrArg Ledger.entry hw₅) id).trans he₁)
    obtain ⟨_, w₇, r₇, h₇⟩ := bind_eq.mp h₆
    obtain ⟨_, w₈, r₈, r₉⟩ := bind_eq.mp h₇
    obtain ⟨ok, hok, hw₈⟩ := jniRemoveProfiler_run r₈
    refine ⟨ok, hok, V, O, ?_⟩
    rw [removeEntry_run r₉, hw₈, modifyClass_run r₇, hw₅, hw₁]
    rfl
  obtain ⟨entryOk, w₁, r₁, h₁⟩ := bind_eq.mp h
  obtain ⟨exitOk, w₂, r₂, h₂⟩ := bind_eq.mp h₁
  rcases performInstrumentation_line r₁ he hl with ⟨rfl, hw₁⟩ | ⟨rfl, ciE, kE, -, hw₁⟩
  · rw [if_neg (by simp)] at r₂
    obtain ⟨rfl, rfl⟩ := pure_eq.mp r₂
    obtain ⟨_, w₃, r₃, h₃⟩ := bind_eq.mp h₂
    cases r₃
    exact hundo (hw₁ ▸ redeployed_refl _) h₃
  · have he₁ : w₁.entry id = some e := (congrFun (congrArg Ledger.entry hw₁) id).trans he
    have hre : w.ledger.Redeployed w₁.ledger := hw₁ ▸ (redeployed_refl _).install _ _ _
    cases exitOk with
    | true =>
      obtain ⟨_, w₃, -, h₃⟩ := bind_eq.mp h₂
      obtain ⟨_, w₄, -, h₄⟩ := bind_eq.mp h₃
      cases h₄
    | false =>
      split at r₂
      · rcases performInstrumentation_line r₂ he₁ hl with ⟨-, hw₂⟩ | ⟨hb, -⟩
        · obtain ⟨_, w₃, r₃, h₃⟩ := bind_eq.mp h₂
          refine hundo ?_ h₃
          rw [markOutdated_run r₃, hw₂]
          exact hre.mark _
        · cases hb
      · cases r₂

/-! ## What is taken back by line number -/

section

variable {e : MiEntry} {id : Nat} {pid : Int}
  (hnew : ∀ c ls, L.linesAt c = some ls → ∀ x ∈ ls, x.instrumentId ≠ id)

include hnew

/-- With memory for one record only, the record goes again when its line was free. -/
theorem dropEntry_addEntry_iff (hE : L.cls e.entryClassName.cstr ≠ none) :
    (∀ c, ((L.addEntryLine e id pid).dropEntryLine e).linesAt c = L.linesAt c) ↔
      L.firstLine e.entryClassName.cstr e.entryLineNumber = none := by
  obtain ⟨ci, hci⟩ := Option.ne_none_iff_exists'.mp hE
  have hA : L.linesAt e.entryClassName.cstr = some ci.lines := congrArg (Option.map _) hci
  have hnot : e.entryLine id pid ∉ ci.lines := fun hmem => hnew _ _ hA _ hmem rfl
  have hfirst : L.firstLine e.entryClassName.cstr e.entryLineNumber = none ↔
      ∀ x ∈ ci.lines, x.hasLine e.entryLineNumber = false := by
    rw [firstLine_eq, hA, Option.bind_some, Option.map_eq_none_iff, List.find?_eq_none]
    simp
  rw [hfirst, ← Lists.eraseP_append_self_iff hasLine_entryLine hnot]
  have hlines : ∀ c, ((L.addEntryLine e id pid).dropEntryLine e).linesAt c =
      if c = e.entryClassName.cstr then
        some ((ci.lines ++ [e.entryLine id pid]).eraseP (·.hasLine e.entryLineNumber))
      else L.linesAt c := fun c => by
    simp only [linesAt_dropEntryLine, linesAt_addEntryLine, ↓reduceIte, hA, Option.map_some]
    split <;> rfl
  simp only [hlines]
  rw [forall_ite_iff hA, Option.some.injEq]

/-- Both records go again when they are what is found at their lines. -/
theorem drop_add_iff (hE : L.cls e.entryClassName.cstr ≠ none)
    (hX : L.cls e.exitClassName.cstr ≠ none) :
    let M := (L.addEntryLine e id pid).addExitLine e id pid
    (∀ c, ((M.dropEntryLine e).dropExitLine e).linesAt c = L.linesAt c) ↔
      M.firstLine e.entryClassName.cstr e.entryLineNumber = some id ∧
        (M.dropEntryLine e).firstLine e.exitClassName.cstr e.exitLineNumber = some id := by
  intro M
  obtain ⟨ci, hci⟩ := Option.ne_none_iff_exists'.mp hE
  have hA : L.linesAt e.entryClassName.cstr = some ci.lines := congrArg (Option.map _) hci
  have hnotE : e.entryLine id pid ∉ ci.lines := fun hmem => hnew _ _ hA _ hmem rfl
  rw [firstLine_eq, firstLine_eq]
  by_cases hcc : e.exitClassName.cstr = e.entryClassName.cstr
  · -- one class: the records stand one behind the other
    have hnotX : e.exitLine id pid ∉ ci.lines := fun hmem => hnew _ _ hA _ hmem rfl
    have hne : e.entryLine id pid ≠ e.exitLine id pid := fun h =>
      absurd (congrArg InstrumentedLine.type h) nofun
    have hM : M.linesAt e.entryClassName.cstr =
        some (ci.lines ++ [e.entryLine id pid] ++ [e.exitLine id pid]) := by
      simp [M, hcc, hA]
    have hlines : ∀ c, ((M.dropEntryLine e).dropExitLine e).linesAt c =
        if c = e.entryClassName.cstr then some (((ci.lines ++ [e.entryLine id pid] ++
          [e.exitLine id pid]).eraseP (·.hasLine e.entryLineNumber)).eraseP
            (·.hasLine e.exitLineNumber))
        else L.linesAt c := fun c => by
      simp only [M, linesAt_dropExitLine, linesAt_dropEntryLine, linesAt_addExitLine,
        linesAt_addEntryLine, hcc, hA, ↓reduceIte, Option.map_some]
      split <;> rfl
    simp only [hlines]
    rw [forall_ite_iff hA, Option.some.injEq, Lists.eraseP_eraseP_append_iff hasLine_entryLine
      hasLine_exitLine hne hnotE hnotX, hM, hcc, linesAt_dropEntryLine, if_pos rfl, hM]
    simp only [Option.map_some, Option.bind_some, List.append_assoc, List.singleton_append]
    rw [first_iff entryLine_instrumentId hasLine_entryLine (hnew _ _ hA)]
    refine and_congr_right fun hfree => ?_
    rw [List.eraseP_append_right _ fun x hx => by simp [hfree x hx],
      List.eraseP_cons_of_pos hasLine_entryLine]
    exact (first_iff exitLine_instrumentId hasLine_exitLine (hnew _ _ hA)).symm
  · -- two classes: each record stands behind those of its class
    obtain ⟨ci', hci'⟩ := Option.ne_none_iff_exists'.mp hX
    have hB : L.linesAt e.exitClassName.cstr = some ci'.lines := congrArg (Option.map _) hci'
    have hnotX : e.exitLine id pid ∉ ci'.lines := fun hmem => hnew _ _ hB _ hmem rfl
    have hME : M.linesAt e.entryClassName.cstr = some (ci.lines ++ [e.entryLine id pid]) := by
      simp [M, Ne.symm hcc, hA]
    have hMX : (M.dropEntryLine e).linesAt e.exitClassName.cstr =
        some (ci'.lines ++ [e.exitLine id pid]) := by
      simp [M, hcc, hB]
    rw [hME, hMX, Option.bind_some, Option.bind_some,
      first_iff entryLine_instrumentId hasLine_entryLine (hnew _ _ hA),
      first_iff exitLine_instrumentId hasLine_exitLine (hnew _ _ hB),
      ← Lists.eraseP_append_self_iff hasLine_entryLine hnotE,
      ← Lists.eraseP_append_self_iff hasLine_exitLine hnotX]
    refine ⟨fun h => ⟨?_, ?_⟩, fun h c => ?_⟩
    · have hc := h e.entryClassName.cstr
      rw [linesAt_dropExitLine, if_neg (Ne.symm hcc), linesAt_dropEntryLine, if_pos rfl, hME, hA] at hc
      exact Option.some.inj hc
    · have hc := h e.exitClassName.cstr
      rw [linesAt_dropExitLine, if_pos rfl, hMX, hB] at hc
      exact Option.some.inj hc
    · obtain ⟨hE', hX'⟩ := h
      rw [linesAt_dropExitLine]
      split
      · next hc => rw [hMX, hc, hB, Option.map_some, hX']
      · next hc =>
        rw [linesAt_dropEntryLine]
        split
        · next hc' => rw [hME, hc', hA, Option.map_some, hE']
        · next hc' => simp [M, hc, hc']

end

/-! ## The whole of a line request -/

/-- An attempt at a line instrument that fails leaves the line records when what it takes
back is its own, and only then. -/
theorem instrumentLineNow_failed {id : Nat} {pid : Int} {e : MiEntry}
    (h : instrumentLineNow env e.entryClassName.cstr e.exitClassName.cstr id pid id w = (.error, w'))
    (he : w.entry id = some e) (hl : lineKeys (some e) ≠ [])
    (hcE : w.cls e.entryClassName.cstr ≠ none) (hcX : w.cls e.exitClassName.cstr ≠ none)
    (hnew : ∀ c ls, w.ledger.linesAt c = some ls → ∀ r ∈ ls, r.instrumentId ≠ id) :
    ∃ K : Ledger, GivenUp env w w' id pid K.cls ∧ w.ledger.SameMethods K ∧
      ((∀ c, K.linesAt c = w.ledger.linesAt c) ↔ attemptOwn env w e id pid = true) := by
  have hentry : w.ledger.SameMethods (w.ledger.addEntryLine e id pid) :=
    SameMethods.addEntryLine fun _ => rfl
  obtain ⟨populated, w₁, r₁, h₁⟩ := bind_eq.mp h
  rcases populateClassInfoLine_run r₁ he with ⟨rfl, hw₁⟩ | ⟨rfl, ha, hw₁⟩ | ⟨rfl, ha, hw₁⟩
  · obtain ⟨ret, w₂, r₂, h₂⟩ := bind_eq.mp h₁
    cases ret with
    | true => cases h₂
    | false =>
      obtain ⟨-, rfl⟩ := pure_eq.mp h₂
      have he₁ : w₁.entry id = some e := (congrFun (congrArg Ledger.entry hw₁) id).trans he
      -- both records were added, and are taken back by their line numbers
      have hgive := (performInstrumentationLine_failed r₂ he₁ hl).of_cls (w := w) hw₁
      rw [hw₁] at hgive
      refine ⟨(((w.ledger.addEntryLine e id pid).addExitLine e id pid).dropEntryLine e).dropExitLine e,
        hgive, hentry.addExitLine.dropEntryLine.dropExitLine, ?_⟩
      -- only the record at the entry line is taken back
      have hown : attemptOwn env w e id pid = w₁.takesOwn id e := by
        simp [attemptOwn, result, final, r₁, r₂]
      rw [hown, takesOwn_iff, hw₁]
      exact drop_add_iff hnew hcE hcX
  · refine ⟨w.ledger, ?_, fun _ => rfl, ?_⟩
    · have hcls : w₁.cls = w.ledger.cls := congrArg Ledger.cls hw₁
      exact hcls ▸ (givenUp_run h₁).of_cls hw₁
    · simp [attemptOwn, result, r₁, ha]
  · refine ⟨(w.ledger.addEntryLine e id pid).dropEntryLine e, ?_, hentry.dropEntryLine, ?_⟩
    · have hcls : w₁.cls = _ := congrArg Ledger.cls hw₁
      exact hcls ▸ (givenUp_run h₁).of_cls hw₁
    · have hown : attemptOwn env w e id pid =
          decide (w.ledger.firstLine e.entryClassName.cstr e.entryLineNumber = none) := by
        simp only [attemptOwn, result, r₁, ha]
        rfl
      rw [hown, decide_eq_true_eq]
      exact dropEntry_addEntry_iff hnew hcE

/-- A line request that fails, from where its profiler is created. -/
theorem instrumentLineCreated_failed {c x : Pstring} {l l' : UInt32} {id : Nat} {pid : Int}
    (h : instrumentLineCreated env c.cstr x.cstr id pid id w = (.error, w'))
    (he : w.entry id = some ⟨c, .line x l l' true true⟩)
    (hQ : ∀ q ∈ w.queuedInstruments, q.instrumentId ≠ id)
    (hnew : ∀ c ls, w.ledger.linesAt c = some ls → ∀ r ∈ ls, r.instrumentId ≠ id) :
    ∃ K : Ledger, GivenUp env w w' id pid K.cls ∧ w.ledger.SameMethods K ∧
      ((∀ c, K.linesAt c = w.ledger.linesAt c) ↔
        ((w.cls c.cstr).isSome = true → (w.cls x.cstr).isSome = true →
          attemptOwn env w ⟨c, .line x l l' true true⟩ id pid = true)) := by
  rcases instrumentLineCreated_run h he hQ with
    ⟨hfound, h₁⟩ | ⟨hfound, ⟨hst, -⟩ | ⟨-, ok, hok, hw'⟩⟩
  · obtain ⟨K, hgive, hsame, hiff⟩ := instrumentLineNow_failed
      (e := ⟨c, .line x l l' true true⟩) h₁ he (List.cons_ne_nil _ _)
      (Option.isSome_iff_ne_none.mp hfound.1) (Option.isSome_iff_ne_none.mp hfound.2) hnew
    exact ⟨K, hgive, hsame, hiff.trans ⟨fun h _ _ => h, fun h => h hfound.1 hfound.2⟩⟩
  · cases hst
  · refine ⟨w.ledger, ⟨ok, hok, ?_⟩, fun _ => rfl, ?_⟩
    · rw [hw']
      exact redeployed_refl _
    · exact ⟨fun _ hE hX => absurd ⟨hE, hX⟩ hfound, fun _ _ => rfl⟩

/-- What a line request that fails leaves. -/
theorem ihInstrumentLine_failed {c x : Pstring} {l l' : UInt32} {id : Nat}
    (h : ihInstrumentLine env c x l l' w = ((.error, id), w')) (hC : Coherent w.ledger) :
    ∃ K : Ledger, Restored env w w' K.cls ∧ w.ledger.SameMethods K ∧
      ((∀ c, K.linesAt c = w.ledger.linesAt c) ↔ lineRequestOwn env c x l l' w = true) := by
  obtain ⟨miv, w₁, r₁, h₁⟩ := bind_eq.mp h
  rcases miAddLinep_run r₁ with ⟨rfl, hw₁⟩ | ⟨rfl, hw₁⟩
  · cases h₁
    exact ⟨w.ledger, .of_ledger hw₁, fun _ => rfl, by simp [lineRequestOwn, result, r₁]⟩
  · have hpos : w.masterInstruments.nextId ≠ 0 := w.masterInstruments.nextId_pos.ne'
    simp only [hpos, ↓reduceIte] at h₁
    obtain ⟨pid, w₂, r₂, h₂⟩ := bind_eq.mp h₁
    rcases jniCreate_run r₂ with ⟨rfl, hw₂⟩ | ⟨rfl, hw₂⟩
    · obtain ⟨_, w₃, r₃, h₃⟩ := bind_eq.mp h₂
      obtain ⟨-, rfl⟩ := pure_eq.mp h₃
      have hw₃ := removeEntry_run r₃
      rw [hw₂, hw₁] at hw₃
      exact ⟨w.ledger, .of_burn hC.entry_nextId hw₃, fun _ => rfl,
        by simp [lineRequestOwn, result, final, r₁, r₂]⟩
    · rw [if_neg (by omega)] at h₂
      obtain ⟨st, w₃, r₃, h₃⟩ := bind_eq.mp h₂
      obtain ⟨hst, rfl⟩ := pure_eq.mp h₃
      obtain ⟨rfl, -⟩ := Prod.mk.inj hst
      have hq₂ : w₂.queuedInstruments = w.queuedInstruments :=
        (congrArg Ledger.queue hw₂).trans (congrArg Ledger.queue hw₁)
      have hcls₂ : w₂.cls = w.cls := (congrArg Ledger.cls hw₂).trans (congrArg Ledger.cls hw₁)
      have he₂ : w₂.entry w.masterInstruments.nextId = some ⟨c, .line x l l' true true⟩ :=
        (congrFun (congrArg Ledger.entry hw₂) _).trans (entry_of_insert hw₁)
      have hlines₂ : w₂.ledger.linesAt = w.ledger.linesAt :=
        funext fun c => congrArg (fun f => (f c).map ClassInfo.lines) hcls₂
      -- the id is new, so no record of the queue or of a class has it
      have hQ : ∀ q ∈ w₂.queuedInstruments, q.instrumentId ≠ w.masterInstruments.nextId :=
        fun q hq => Nat.ne_of_lt
          (carries_lt hC (.inl ⟨q, show q ∈ w.queuedInstruments from hq₂ ▸ hq, rfl, rfl⟩))
      have hnew : ∀ c ls, w₂.ledger.linesAt c = some ls → ∀ r ∈ ls,
          r.instrumentId ≠ w.masterInstruments.nextId := by
        intro c ls hls r hr
        rw [hlines₂] at hls
        obtain ⟨ci, hci, rfl⟩ := Option.map_eq_some_iff.mp hls
        exact Nat.ne_of_lt (hC.lines c ci hci r hr).1
      obtain ⟨K, hgive, hsame, hiff⟩ := instrumentLineCreated_failed r₃ he₂ hQ hnew
      refine ⟨K, GivenUp.restored hC.entry_nextId hw₁ hw₂ hgive, fun c => ?_, ?_⟩
      · rw [hsame c]
        exact congrArg (fun f => (f c).map ClassInfo.instrumented) hcls₂
      · rw [← hlines₂, hiff]
        have hnn : ¬ (registryCreateId w₁.slots : Int) < 0 := by omega
        cases hE : (w₂.cls c.cstr).isSome <;> cases hX : (w₂.cls x.cstr).isSome <;>
          simp [lineRequestOwn, result, final, r₁, r₂, hpos, hnn, hE, hX, he₂]

/-! ## In every reachable state -/

theorem ihInstrumentMethod_of_answer {c s : CStr} {st : InstrumentRespStatus} {id : Nat}
    (h : answer env w (.instrumentMethod c s) = .instrument st id) :
    ihInstrumentMethod env c s w = ((st, id), step env w (.instrumentMethod c s)) := by
  obtain ⟨hst, hid⟩ := Reply.instrument.inj h
  exact Prod.ext (Prod.ext hst hid) rfl

theorem ihInstrumentLine_of_answer {c x : Pstring} {l l' : UInt32} {st : InstrumentRespStatus}
    {id : Nat} (h : answer env w (.instrumentLine c x l l') = .instrument st id) :
    ihInstrumentLine env c x l l' w = ((st, id), step env w (.instrumentLine c x l l')) := by
  obtain ⟨hst, hid⟩ := Reply.instrument.inj h
  exact Prod.ext (Prod.ext hst hid) rfl

/-- A method request that fails, or finds its method instrumented, leaves the stores as they
were, and the active slots too unless the JVM refuses to remove a profiler. A duplicate is
told the id of the one instrument that the method has. -/
theorem method_request_undone (env : Env) (evs : List Event) (c s : CStr)
    (st : InstrumentRespStatus) (id : Nat)
    (h : answer env (serve env evs) (.instrumentMethod c s) = .instrument st id)
    (hst : st = .error ∨ st = .doubleInstrument) :
    let w := serve env evs
    let w' := step env w (.instrumentMethod c s)
    SameStores w w' ∧ (RemoveOk env → Unchanged w w') ∧
      (st = .doubleInstrument → ∃ e, w.entry id = some e ∧ e.isMethodOf c s = true ∧
        ∀ id' e', w.entry id' = some e' → e'.isMethodOf c s = true → id' = id) := by
  intro w w'
  have hC : Coherent w.ledger := (serve_inv env evs).coherent
  obtain ⟨hback, hdouble⟩ := ihInstrumentMethod_failed (ihInstrumentMethod_of_answer h) hC hst
  have hstores : SameStores w w' := ⟨hback.entry, hback.queue, fun c => by rw [hback.cls],
    fun c => by rw [hback.cls]⟩
  refine ⟨hstores, fun hr => ⟨hstores, hback.slots hr⟩, fun hd => ?_⟩
  obtain ⟨e, he, hof⟩ := hdouble hd
  exact ⟨e, he, hof, fun id' e' he' hof' => hC.unique id' id e' e c s he' he hof' hof⟩

/-- A JVM that transforms no class that has a method or the line to be instrumented. -/
def Env.lacking (l : UInt32) : Env where
  __ := Env.smooth
  jvm _ c := match c with
    | .transform _ methods lines => methods.isEmpty && lines.all fun r => decide (r.lineNumber ≠ l)
    | _ => true

theorem removeOk_lacking (l : UInt32) : RemoveOk (.lacking l) := fun _ _ => rfl

/-- A method that its class lacks. -/
theorem method_request_undone_missing :
    let w := serve (.lacking 0) [.classLoaded classA.cstr [] none]
    Unchanged w (step (.lacking 0) w (.instrumentMethod classA.cstr classB.cstr)) :=
  (method_request_undone (.lacking 0) [.classLoaded classA.cstr [] none] classA.cstr classB.cstr
    .error 1 (by rfl) (.inl rfl)).2.1 (removeOk_lacking 0)

/-- A line request that fails leaves the stores and the active slots as they were when every
record that it takes back by line number is its own, and only then. -/
theorem line_request_undone_iff (env : Env) (hr : RemoveOk env) (evs : List Event)
    (c x : Pstring) (l l' : UInt32) (id : Nat)
    (h : answer env (serve env evs) (.instrumentLine c x l l') = .instrument .error id) :
    let w := serve env evs
    Unchanged w (step env w (.instrumentLine c x l l')) ↔
      stepOwn env w (.instrumentLine c x l l') = true := by
  intro w
  have hC : Coherent w.ledger := (serve_inv env evs).coherent
  obtain ⟨K, hback, hsame, hiff⟩ := ihInstrumentLine_failed (ihInstrumentLine_of_answer h) hC
  have hlines : ∀ c', ((step env w (.instrumentLine c x l l')).cls c').map ClassInfo.lines =
      K.linesAt c' := fun c' => by
    rw [hback.cls]
    rfl
  refine ⟨fun hun => hiff.mp fun c' => (hlines c').symm.trans (hun.lines c'), fun hown => ?_⟩
  refine ⟨⟨hback.entry, hback.queue, fun c' => ?_, fun c' => ?_⟩, hback.slots hr⟩
  · rw [hback.cls]
    exact hsame c'
  · exact (hlines c').trans (hiff.mpr hown c')

/-- A line that its class lacks, beside a line that no other instrument uses. -/
theorem line_request_undone_missing :
    let w := serve (.lacking 99) [.classLoaded classA.cstr [] none]
    Unchanged w (step (.lacking 99) w (.instrumentLine classA classA 10 99)) :=
  (line_request_undone_iff (.lacking 99) (removeOk_lacking 99) [.classLoaded classA.cstr [] none]
    classA classA 10 99 1 (by rfl)).mpr (by decide)

/-- The first instrument uses line 10, and the second is for a line that the class lacks. -/
theorem line_request_damage : ¬ ∀ env, RemoveOk env → ∀ (evs : List Event) (c x : Pstring)
    (l l' : UInt32) (id : Nat),
    answer env (serve env evs) (.instrumentLine c x l l') = .instrument .error id →
    Unchanged (serve env evs) (step env (serve env evs) (.instrumentLine c x l l')) := by
  intro h
  have hun := h (.lacking 99) (removeOk_lacking 99)
    [.classLoaded classA.cstr [] none, .instrumentLine classA classA 10 20] classA classA 10 99 2
    (by rfl)
  -- the record of the first instrument is what went
  have hlines := hun.lines classA.cstr
  have hbefore : ((serve (.lacking 99) [.classLoaded classA.cstr [] none,
      .instrumentLine classA classA 10 20]).cls classA.cstr).map ClassInfo.lines =
      some [⟨10, 0, 1, .enter⟩, ⟨20, 0, 1, .exit⟩] := by rfl
  have hafter : ((step (.lacking 99) (serve (.lacking 99) [.classLoaded classA.cstr [] none,
      .instrumentLine classA classA 10 20]) (.instrumentLine classA classA 10 99)).cls
        classA.cstr).map ClassInfo.lines = some [⟨20, 0, 1, .exit⟩, ⟨10, 1, 2, .enter⟩] := by rfl
  rw [hbefore, hafter] at hlines
  exact absurd hlines (by decide)

end JautoProf
