import JautoProf.LineRecords
import JautoProf.SlotOwnership

/-!
# Removing an instrument

What `ih_deinstrument_by_id` and `ih_deinstrument_method` do to the records and the code of
an instrument that is applied. The two records of a line instrument are taken out by their
line numbers, and the classes are installed again without them; whether they could be is
asked on the method path only.

Results:
1. `deinstrument_line_exact`: when every removal by line number of a run finds a record of
   its own instrument, the removal of a line instrument changes what is the instrument's and
   nothing else, and only then.
2. `deinstrument_honest`: the removal is answered `ok` with a class left as it was exactly
   when a line instrument has a class that is not installed again.
-/

namespace JautoProf

open Prog Ledger Vouch

variable {env : Env} {w w' : World} {L : Ledger}

/-! ## Removing a line instrument -/

/-- Restoring a class changes the installed code at most. -/
theorem redeployed_restoreClass {c : CStr} {r : Bool × Bool}
    (h : restoreClass env c c w = (r, w')) : w.ledger.Redeployed w'.ledger := by
  rcases restoreClass_run h with ⟨-, hw⟩ | ⟨-, ci, kept, -, hw⟩
  · exact hw ▸ redeployed_refl _
  · exact hw ▸ (redeployed_refl _).install _ _ _

/-! ## The records of one instrument -/

theorem firstLine_eq_some {c : CStr} {l : UInt32} {id : Nat} {ls : List InstrumentedLine}
    (hls : L.linesAt c = some ls) : L.firstLine c l = some id ↔
      ∃ x, ls.find? (·.hasLine l) = some x ∧ x.hasId id = true := by
  rw [firstLine_eq, hls, Option.bind_some, Option.map_eq_some_iff]
  simp [InstrumentedLine.hasId]

section

variable {e : MiEntry} {id : Nat}
  (hrecs : ∀ c ls, L.linesAt c = some ls → (ls.filter (·.hasId id)).map (·.key c) =
    [⟨e.entryClassName.cstr, e.entryLineNumber, .enter⟩,
      ⟨e.exitClassName.cstr, e.exitLineNumber, .exit⟩].filter (·.cls = c))

include hrecs

/-- The removals by line number take the records of the instrument when each finds one, and
only then. -/
theorem drop_exact_iff (hE : L.cls e.entryClassName.cstr ≠ none)
    (hX : L.cls e.exitClassName.cstr ≠ none) :
    (∀ c, ((L.dropEntryLine e).dropExitLine e).linesAt c =
        (L.linesAt c).map (List.filter (!·.hasId id))) ↔
      L.firstLine e.entryClassName.cstr e.entryLineNumber = some id ∧
        (L.dropEntryLine e).firstLine e.exitClassName.cstr e.exitLineNumber = some id := by
  obtain ⟨ci, hci⟩ := Option.ne_none_iff_exists'.mp hE
  have hA : L.linesAt e.entryClassName.cstr = some ci.lines := congrArg (Option.map _) hci
  -- the other classes have no record of the instrument
  have hother : ∀ c, c ≠ e.entryClassName.cstr → c ≠ e.exitClassName.cstr →
      L.linesAt c = (L.linesAt c).map (List.filter (!·.hasId id)) := by
    intro c hcE hcX
    cases hls : L.linesAt c with
    | none => rfl
    | some ls =>
      have hnil := hrecs c ls hls
      rw [List.filter_cons_of_neg (by simpa using Ne.symm hcE),
        List.filter_cons_of_neg (by simpa using Ne.symm hcX), List.filter_nil,
        List.map_eq_nil_iff, List.filter_eq_nil_iff] at hnil
      rw [Option.map_some, List.filter_eq_self.mpr fun r hr => by simpa using hnil r hr]
  have hline : ∀ {c : CStr} {r : InstrumentedLine} {k : LineKey}, r.key c = k →
      r.hasLine k.line = true := fun h => by simp [← h, InstrumentedLine.key, InstrumentedLine.hasLine]
  by_cases hcc : e.exitClassName.cstr = e.entryClassName.cstr
  · -- both records are in the one class
    have hkeys := hrecs _ _ hA
    rw [List.filter_cons_of_pos (by simp), List.filter_cons_of_pos (by simpa using hcc),
      List.filter_nil, List.map_eq_cons_iff] at hkeys
    obtain ⟨y, l, hl, hy, hrest⟩ := hkeys
    obtain ⟨z, rfl, hz⟩ := List.map_eq_singleton_iff.mp hrest
    have hdrop : (L.dropEntryLine e).linesAt e.exitClassName.cstr =
        some (ci.lines.eraseP (·.hasLine e.entryLineNumber)) := by
      rw [linesAt_dropEntryLine, if_pos hcc, hA, Option.map_some]
    rw [firstLine_eq_some hA, firstLine_eq_some hdrop,
      ← Lists.eraseP_eraseP_eq_filter_iff hl (hline hy) (hline hz)]
    refine ⟨fun h => ?_, fun h c => ?_⟩
    · have hc := h e.exitClassName.cstr
      rw [linesAt_dropExitLine, if_pos rfl, hdrop, hcc, hA] at hc
      exact Option.some.inj hc
    · rw [linesAt_dropExitLine]
      split
      · next hc => rw [hdrop, hc, hcc, hA, Option.map_some, Option.map_some, h]
      · next hc =>
        rw [linesAt_dropEntryLine, if_neg (hcc ▸ hc)]
        exact hother c (hcc ▸ hc) hc
  · -- each class has one record
    obtain ⟨ci', hci'⟩ := Option.ne_none_iff_exists'.mp hX
    have hB : L.linesAt e.exitClassName.cstr = some ci'.lines := congrArg (Option.map _) hci'
    have hkeysE := hrecs _ _ hA
    rw [List.filter_cons_of_pos (by simp), List.filter_cons_of_neg (by simpa using hcc),
      List.filter_nil, List.map_eq_singleton_iff] at hkeysE
    obtain ⟨y, hl, hy⟩ := hkeysE
    have hkeysX := hrecs _ _ hB
    rw [List.filter_cons_of_neg (by simpa using Ne.symm hcc), List.filter_cons_of_pos (by simp),
      List.filter_nil, List.map_eq_singleton_iff] at hkeysX
    obtain ⟨z, hl', hz⟩ := hkeysX
    have hdrop : (L.dropEntryLine e).linesAt e.exitClassName.cstr = some ci'.lines := by
      rw [linesAt_dropEntryLine, if_neg hcc, hB]
    rw [firstLine_eq_some hA, firstLine_eq_some hdrop, ← Lists.eraseP_eq_filter_iff hl (hline hy),
      ← Lists.eraseP_eq_filter_iff hl' (hline hz)]
    refine ⟨fun h => ⟨?_, ?_⟩, fun h c => ?_⟩
    · have hc := h e.entryClassName.cstr
      rw [linesAt_dropExitLine, if_neg (Ne.symm hcc), linesAt_dropEntryLine, if_pos rfl, hA] at hc
      exact Option.some.inj hc
    · have hc := h e.exitClassName.cstr
      rw [linesAt_dropExitLine, if_pos rfl, hdrop, hB] at hc
      exact Option.some.inj hc
    · obtain ⟨hE', hX'⟩ := h
      rw [linesAt_dropExitLine]
      split
      · next hc => rw [hdrop, hc, hB, Option.map_some, Option.map_some, hX']
      · next hc =>
        rw [linesAt_dropEntryLine]
        split
        · next hc' => rw [hc', hA, Option.map_some, Option.map_some, hE']
        · next hc' => exact hother c hc' hc

end

/-! ## What is the instrument's and nothing else -/

/-- The removal of the line instrument `X` with the entry `e`: its ENTER and its EXIT record,
its slot and its entry go, and everything else stays. -/
structure RemovesExactly (w w' : World) (X : Nat) (e : MiEntry) : Prop where
  own : ∀ c ci, w.cls c = some ci → (ci.lines.filter (·.hasId X)).map (·.key c) =
    [⟨e.entryClassName.cstr, e.entryLineNumber, .enter⟩,
      ⟨e.exitClassName.cstr, e.exitLineNumber, .exit⟩].filter (·.cls = c)
  lines : ∀ c, (w'.cls c).map ClassInfo.lines =
    ((w.cls c).map ClassInfo.lines).map (List.filter (!·.hasId X))
  instrumented : ∀ c,
    (w'.cls c).map ClassInfo.instrumented = (w.cls c).map ClassInfo.instrumented
  slot : ∃ i, w.owns X i ∧ w.activeSlot i ≠ none ∧
    w'.activeSlot = Function.update w.activeSlot i none
  entry : w'.entry = Function.update w.entry X none
  queue : w'.queuedInstruments = w.queuedInstruments

/-- The removal of an active slot. -/
theorem activeSlot_remove {i : Nat} (h : w'.slots = registryRemove w.slots i) :
    w'.activeSlot = Function.update w.activeSlot i none := by
  funext j
  show w'.slots[j]?.filter _ = _
  rw [h, Function.update_apply]
  refine (congrArg _ (registryRemove_get w.slots i j)).trans ?_
  split
  · cases w.slots[j]? with
    | none => rfl
    | some s => rfl
  · rfl

/-- The stores after the removal of a line instrument that is applied. -/
theorem deinstrumentReadyLine_redeployed {id : Nat} {e : MiEntry} {ci : ClassInfo}
    {st : DeinstrumentRespStatus}
    (h : deinstrumentReadyLine env e.entryClassName.cstr e.exitClassName.cstr id id w = (st, w'))
    (he : w.entry id = some e) (hci : w.cls e.entryClassName.cstr = some ci) :
    ∃ ok, (RemoveOk env → ok = true) ∧
      ((((w.ledger.dropEntryLine e).dropExitLine e).setEntry id none).release
        (ciInstrumentedLine ci e.entryLineNumber) ok).Redeployed w'.ledger := by
  obtain ⟨w₁, w₂, w₃, rE, rX, ok, hw₁, -, hE, hX, hok, hw', -⟩ := deinstrumentReadyLine_run h he hci
  have h₁ : ((w.ledger.dropEntryLine e).dropExitLine e).Redeployed w₁.ledger := hw₁ ▸ ⟨_, _, rfl⟩
  obtain ⟨V, O, h₂⟩ := redeployed_restoreClass hE
  have h₃ : w₂.ledger.Redeployed w₃.ledger := by
    split at hX
    · exact redeployed_restoreClass hX
    · cases hX
      exact redeployed_refl _
  obtain ⟨V', O', h₃⟩ := h₃
  obtain ⟨V'', O'', h₁⟩ := h₁
  refine ⟨ok, hok, V', O', ?_⟩
  rw [hw', h₃, h₂, h₁]
  rfl

theorem MiEntry.isUserVisible_of_lineIsReady {e : MiEntry} (h : e.lineIsReady = true) :
    e.isUserVisible = true := by
  obtain ⟨c, b⟩ := e
  cases b with
  | method => rfl
  | line => rfl
  | varBind => cases h

/-- An applied line instrument has its records and nothing else in the classes, which are
loaded. -/
theorem Lined.records {X : Nat} {e : MiEntry} (hN : Lined w.ledger) (he : w.entry X = some e)
    (hready : e.lineIsReady = true) :
    (∀ c ci, w.cls c = some ci → (ci.lines.filter (·.hasId X)).map (·.key c) =
      [⟨e.entryClassName.cstr, e.entryLineNumber, .enter⟩,
        ⟨e.exitClassName.cstr, e.exitLineNumber, .exit⟩].filter (·.cls = c)) ∧
      w.cls e.entryClassName.cstr ≠ none ∧ w.cls e.exitClassName.cstr ≠ none := by
  have hrecs : w.ledger.lineRecsOf X = [⟨e.entryClassName.cstr, e.entryLineNumber, .enter⟩,
      ⟨e.exitClassName.cstr, e.exitLineNumber, .exit⟩] := by
    rw [lineRecsOf_none rfl, show w.ledger.entry X = some e from he, appliedLines_some,
      if_pos (MiEntry.isApplied_of_lineIsReady hready),
      lineKeys_eq (MiEntry.lineKeys_of_lineIsReady hready)]
  refine ⟨fun c ci hci => ?_, hN.classes X ⟨e.entryClassName.cstr, e.entryLineNumber, .enter⟩ ?_,
    hN.classes X ⟨e.exitClassName.cstr, e.exitLineNumber, .exit⟩ ?_⟩
  · rw [← hrecs]
    exact hN.lines_eq rfl hci X
  · exact hrecs ▸ List.mem_cons_self
  · exact hrecs ▸ List.mem_cons_of_mem _ List.mem_cons_self

/-- The handler of a removal by id, at a line instrument that is applied. -/
theorem deinstrumentReadyLine_of_step (env : Env) {X : Nat} {e : MiEntry} (he : w.entry X = some e)
    (hready : e.lineIsReady = true) (hcE : w.cls e.entryClassName.cstr ≠ none)
    (hcX : w.cls e.exitClassName.cstr ≠ none) : ∃ st,
      deinstrumentReadyLine env e.entryClassName.cstr e.exitClassName.cstr X X w =
        (st, step env w (.deinstrumentById X)) ∧
      answer env w (.deinstrumentById X) = .deinstrument st := by
  obtain ⟨st, w', h⟩ : ∃ st w', ihDeinstrumentById env X w = (st, w') := ⟨_, _, rfl⟩
  have hw' : step env w (.deinstrumentById X) = w' := congrArg Prod.snd h
  have hst : answer env w (.deinstrumentById X) = .deinstrument st :=
    congrArg (fun p : DeinstrumentRespStatus × World => Reply.deinstrument p.1) h
  refine ⟨st, ?_, hst⟩
  rw [hw']
  obtain ⟨found, w₁, r₁, h₁⟩ := bind_eq.mp h
  obtain ⟨rfl, rfl⟩ := findEntry_run r₁
  rw [he] at h₁
  obtain ⟨e₂, w₂, r₂, h₂⟩ := bind_eq.mp h₁
  obtain ⟨rfl, rfl⟩ := deref_run r₂ he
  obtain ⟨c, b⟩ := e₂
  cases b with
  | method => cases hready
  | varBind => cases hready
  | line x l l' d d' =>
    obtain ⟨e₃, w₃, r₃, h₃⟩ := bind_eq.mp h₂
    obtain ⟨rfl, rfl⟩ := deref_run r₃ he
    rw [if_pos hready] at h₃
    obtain ⟨iE, w₄, r₄, h₄⟩ := bind_eq.mp h₃
    obtain ⟨rfl, rfl⟩ := read_eq.mp r₄
    obtain ⟨iX, w₅, r₅, h₅⟩ := bind_eq.mp h₄
    obtain ⟨rfl, rfl⟩ := read_eq.mp r₅
    rw [if_pos ⟨Option.isSome_iff_ne_none.mpr hcE, Option.isSome_iff_ne_none.mpr hcX⟩] at h₅
    exact h₅

theorem stepOwn_ready {X : Nat} {e : MiEntry} (he : w.entry X = some e)
    (hready : e.lineIsReady = true) (hcE : w.cls e.entryClassName.cstr ≠ none)
    (hcX : w.cls e.exitClassName.cstr ≠ none) :
    stepOwn env w (.deinstrumentById X) = w.takesOwn X e := by
  simp [stepOwn, he, hready, hcE, hcX]

/-- In a state that is reached by removals which find their own records, the removal of a
line instrument that is applied changes what is the instrument's and nothing else exactly
when it finds its own records too. -/
theorem deinstrument_line_exact (env : Env) (hr : RemoveOk env) (evs : List Event)
    (h : Runs.Along (step env) (fun w ev => stepOwn env w ev = true) ihCtxInit evs) (X : Nat)
    (e : MiEntry) (he : (serve env evs).entry X = some e) (hready : e.lineIsReady = true) :
    RemovesExactly (serve env evs) (step env (serve env evs) (.deinstrumentById X)) X e ↔
      stepOwn env (serve env evs) (.deinstrumentById X) = true := by
  have hI : ownRun.Inv (serve env evs).ledger := inv_run ihCtxInit_inv (backs_ownRun hr h)
  generalize hw : serve env evs = w at he hI ⊢
  obtain ⟨hrecs, hcE, hcX⟩ := (hI.lined trivial).records he hready
  have hrecs' : ∀ c ls, w.ledger.linesAt c = some ls → (ls.filter (·.hasId X)).map (·.key c) =
      [⟨e.entryClassName.cstr, e.entryLineNumber, .enter⟩,
        ⟨e.exitClassName.cstr, e.exitLineNumber, .exit⟩].filter (·.cls = c) := by
    intro c ls hls
    obtain ⟨ci, hci, rfl⟩ := Option.map_eq_some_iff.mp hls
    exact hrecs c ci hci
  obtain ⟨ci, hci⟩ := Option.ne_none_iff_exists'.mp hcE
  obtain ⟨st, hrun, -⟩ := deinstrumentReadyLine_of_step env he hready hcE hcX
  obtain ⟨ok, hok, V, O, hw'⟩ := deinstrumentReadyLine_redeployed hrun he hci
  rw [stepOwn_ready he hready hcE hcX, takesOwn_iff]
  have hexact := drop_exact_iff hrecs' hcE hcX
  have hlines : ∀ c, ((step env w (.deinstrumentById X)).cls c).map ClassInfo.lines =
      ((w.ledger.dropEntryLine e).dropExitLine e).linesAt c := fun c => by
    rw [show (step env w (.deinstrumentById X)).cls = _ from congrArg Ledger.cls hw']
    rfl
  refine ⟨fun hrem => hexact.mp fun c => (hlines c).symm.trans (hrem.lines c), fun hown => ?_⟩
  refine ⟨hrecs, fun c => (hlines c).trans (hexact.mpr hown c), fun c => ?_, ?_, ?_, ?_⟩
  · rw [show (step env w (.deinstrumentById X)).cls = _ from congrArg Ledger.cls hw']
    exact SameMethods.dropExitLine (SameMethods.dropEntryLine fun _ => rfl) c
  · -- the first record of the line is the instrument's, and carries its slot
    have hA : w.ledger.linesAt e.entryClassName.cstr = some ci.lines := congrArg (Option.map _) hci
    obtain ⟨x, hx, hid⟩ := (firstLine_eq_some hA).mp hown.1
    have hxid : x.instrumentId = X := by simpa [InstrumentedLine.hasId] using hid
    have hcar : w.ledger.carries X x.profilerId := .inr ⟨e.entryClassName.cstr, ci, hci,
      .inr ⟨x, List.mem_of_find?_eq_some hx, hxid, rfl⟩⟩
    obtain ⟨i, s, hi, hs, hact, -⟩ := (hI.slotted trivial).records X _ hcar
      (Option.ne_none_iff_exists'.mpr ⟨e, he⟩)
    refine ⟨i, ⟨⟨e, he, MiEntry.isUserVisible_of_lineIsReady hready⟩,
      show w.ledger.carries X (.ofNat i) from hi ▸ hcar⟩, ?_, activeSlot_remove ?_⟩
    · have hslot : w.slots[i]? = some s := hs
      simp [World.activeSlot, hslot, Option.filter, hact]
    · rw [show (step env w (.deinstrumentById X)).slots = _ from congrArg Ledger.slots hw', hok hr,
        ciInstrumentedLine, hx]
      exact congrArg (registryRemove w.slots) hi
  · refine (congrArg Ledger.entry hw').trans (funext fun id => ?_)
    exact (setEntry_entry ..).trans (Function.update_apply ..).symm
  · exact congrArg Ledger.queue hw'

/-- The first of two line instruments of one class. -/
theorem deinstrument_line_exact_two :
    let w := serve .smooth [.classLoaded classA.cstr [] none, .instrumentLine classA classA 10 20,
      .instrumentLine classA classA 30 40]
    RemovesExactly w (step .smooth w (.deinstrumentById 1)) 1
      ⟨classA, .line classA 10 20 false false⟩ :=
  have hown : Runs.Along (step .smooth) (fun w ev => stepOwn .smooth w ev = true) ihCtxInit
      [.classLoaded classA.cstr [] none, .instrumentLine classA classA 10 20,
        .instrumentLine classA classA 30 40] :=
    ⟨by decide, by decide, by decide, trivial⟩
  (deinstrument_line_exact .smooth (fun _ _ => rfl) _ hown 1 ⟨classA, .line classA 10 20 false false⟩
    (by rfl) rfl).mpr (by decide)

/-- Two line instruments that start at one line: the second loses the record of the first. -/
theorem deinstrument_line_shared : ¬ ∀ env, RemoveOk env → ∀ (evs : List Event) (X : Nat)
    (e : MiEntry), (serve env evs).entry X = some e → e.lineIsReady = true →
    RemovesExactly (serve env evs) (step env (serve env evs) (.deinstrumentById X)) X e := by
  intro h
  have hrem := h .smooth (fun _ _ => rfl) [.classLoaded classA.cstr [] none,
    .instrumentLine classA classA 10 20, .instrumentLine classA classA 10 30] 2
    ⟨classA, .line classA 10 30 false false⟩ (by rfl) rfl
  have hlines := hrem.lines classA.cstr
  have hbefore : ((serve .smooth [.classLoaded classA.cstr [] none,
      .instrumentLine classA classA 10 20, .instrumentLine classA classA 10 30]).cls
        classA.cstr).map ClassInfo.lines = some [⟨10, 0, 1, .enter⟩, ⟨20, 0, 1, .exit⟩,
          ⟨10, 1, 2, .enter⟩, ⟨30, 1, 2, .exit⟩] := by rfl
  have hafter : ((step .smooth (serve .smooth [.classLoaded classA.cstr [] none,
      .instrumentLine classA classA 10 20, .instrumentLine classA classA 10 30])
        (.deinstrumentById 2)).cls classA.cstr).map ClassInfo.lines =
          some [⟨20, 0, 1, .exit⟩, ⟨10, 1, 2, .enter⟩] := by rfl
  rw [hbefore, hafter] at hlines
  exact absurd hlines (by decide)

/-! ## Whether the reply is honest -/

/-- The classes that the instrument touches. -/
def MiEntry.classes (e : MiEntry) : List CStr :=
  match e.body with
  | .method .. => [e.entryClassName.cstr]
  | .line x .. => [e.entryClassName.cstr, x.cstr]
  | .varBind .. => []

/-- The class was installed since it last lost a record, and the version that is installed
has no call of the instrument. -/
def Cleaned (w : World) (X : Nat) (c : CStr) : Prop :=
  c ∉ w.outdated ∧ ∀ ci i v, w.cls c = some ci → retransformTarget w.versions c ci.loader = some i →
    w.versions[i]? = some v → ∀ k ∈ v.calls, k.instrumentId ≠ X

/-- The request removes the instrument `X`. -/
def Removes (X : Nat) (e : MiEntry) : Event → Prop
  | .deinstrumentById id => id = X
  | .deinstrumentMethod c s => e.isMethodOf c s = true
  | _ => False

/-- Every class of the line instrument that is transformed again is also installed, or the
removal is answered `fail` because a class is not transformed. -/
def linesRestored (env : Env) (w : World) (e : MiEntry) : Bool :=
  let entryClass := e.entryClassName.cstr
  let exitClass := e.exitClassName.cstr
  let taken : M Unit := do
    let _ ← takeLine entryClass e.entryLineNumber
    let _ ← takeLine exitClass e.exitLineNumber
    pure ()
  let w₁ := taken.final w
  let entryRestored := (restoreClass env entryClass entryClass).result w₁
  let w₂ := (restoreClass env entryClass entryClass).final w₁
  let exitRestored := (restoreClass env exitClass exitClass).result w₂
  if exitClass = entryClass then !entryRestored.1 || entryRestored.2
  else !entryRestored.1 || !exitRestored.1 || entryRestored.2 && exitRestored.2

theorem retransformTarget_of_key {versions versions' : List Version}
    (h : versions.map Version.key = versions'.map Version.key) (c : CStr) (loader : Option Nat) :
    retransformTarget versions c loader = retransformTarget versions' c loader := by
  have hkey : ∀ l : List Version, retransformTarget l c loader =
      ((l.map Version.key).findIdx? fun k => decide (k.1 = c ∧ k.2 = loader)).or
        ((l.map Version.key).findIdx? fun k => decide (k.1 = c)) := fun l => by
    rw [List.findIdx?_map, List.findIdx?_map]
    rfl
  rw [hkey, hkey, h]

/-- The version that an installation goes to has the calls of the records at most. -/
theorem calls_install {c : CStr} {ci : ClassInfo} {kept : Bool} {i : Nat} {v : Version}
    (ht : retransformTarget (L.install c ci kept).versions c ci.loader = some i)
    (hv : (L.install c ci kept).versions[i]? = some v) : ∀ k ∈ v.calls, k ∈ instrumentCalls ci := by
  cases hj : retransformTarget L.versions c ci.loader with
  | none =>
    simp only [install, hj] at ht
    cases ht
  | some j =>
    simp only [install, hj] at ht hv
    rw [retransformTarget_of_key (map_key_installCode ..), hj] at ht
    obtain rfl := Option.some.inj ht
    rw [installCode, List.getElem?_modify] at hv
    obtain ⟨v', -, rfl⟩ := Option.map_eq_some_iff.mp hv
    intro k hk
    cases kept with
    | true => simpa [callsOf] using hk
    | false => simp [callsOf] at hk

theorem outdated_restoreClass {c : CStr} {r : Bool × Bool} (h : restoreClass env c c w = (r, w')) :
    w'.outdated = if r.2 then w.outdated.filter (· ≠ c) else w.outdated := by
  rcases restoreClass_run h with ⟨hr, hw⟩ | ⟨rfl, ci, kept, -, hw⟩
  · rw [hr]
    exact congrArg Ledger.outdated hw
  · exact congrArg Ledger.outdated hw

/-! ## A method instrument -/

/-- A method instrument has no line records. -/
theorem no_line_of_isMethodOf {X : Nat} {e : MiEntry} {c s : CStr} (hC : Coherent w.ledger)
    (he : w.entry X = some e) (hof : e.isMethodOf c s = true) {c' : CStr} {ci : ClassInfo}
    (hci : w.cls c' = some ci) : ∀ r ∈ ci.lines, r.instrumentId ≠ X := by
  rintro r hr rfl
  have hkey := ((hC.lines c' ci hci r hr).2 e he).1
  rw [lineKeys_of_isMethod (methodName_of_isMethodOf hof).1] at hkey
  cases hkey

/-- The removal of a method instrument that is applied is answered `ok` only when its class
was installed again. -/
theorem deinstrumentMethodById_ok {X : Nat} {e : MiEntry} {c s : CStr}
    (h : deinstrumentMethodById env X X w = (.ok, w')) (hC : Coherent w.ledger)
    (he : w.entry X = some e) (hof : e.isMethodOf c s = true) (ha : e.isApplied = true) :
    Cleaned w' X c := by
  rcases deinstrumentMethodById_run h he hof ha with
    ⟨-, hst, -⟩ | ⟨ci, w₁, hci, hw₁, ⟨-, hst⟩ | ⟨restored, w₂, ok, r₂, -, hw', hst⟩⟩
  · cases hst
  · cases hst
  obtain ⟨m, hfind, rfl⟩ := hC.find_of_applied rfl rfl he hof ha hci
  rcases restoreClass_run r₂ with ⟨hr, -⟩ | ⟨-, ci', kept, hci', hw₂⟩
  · rw [hr] at hst
    cases hst
  -- what is installed has the records without the one that was taken
  have hcls : w'.cls c = some ci' := by
    rw [show w'.cls = w₂.cls from congrArg Ledger.cls hw',
      show w₂.cls = w₁.cls from congrArg Ledger.cls hw₂]
    exact hci'
  have hrm : ci' = ciRemoveInstrumentedBySig s ci := by
    have hmod : w₁.cls c = some (ciRemoveInstrumentedBySig s ci) := by
      rw [show w₁.cls = _ from congrArg Ledger.cls hw₁]
      exact (modCls_cls ..).trans ((if_pos rfl).trans (congrArg (Option.map _) hci))
    exact Option.some.inj (hci'.symm.trans hmod)
  have hversions : w'.versions = (w₁.ledger.install c ci' kept).versions :=
    Eq.trans (b := w₂.versions) (congrArg Ledger.versions hw') (congrArg Ledger.versions hw₂)
  refine ⟨?_, fun ci'' i v hci'' ht hv k hk hid => ?_⟩
  · rw [show w'.outdated = w₂.outdated from congrArg Ledger.outdated hw',
      show w₂.outdated = _ from congrArg Ledger.outdated hw₂]
    simp [install]
  · obtain rfl := Option.some.inj (hcls.symm.trans hci'')
    rw [hversions] at ht hv
    have hcall := calls_install ht hv k hk
    rw [hrm] at hcall
    rcases mem_instrumentCalls hcall with ⟨m', hm', hmid', -⟩ | ⟨r', hr', hrid, -⟩
    · obtain ⟨-, -, -, hsingle⟩ := hC.instrumentId_of_find rfl hci hfind
      have hnil : (ci.instrumented.eraseP (·.hasSig s)).filter (·.hasId m.instrumentId) = [] := by
        rw [Lists.filter_eraseP hfind, if_pos (by simp [InstrumentedMethod.hasId]), hsingle,
          List.eraseP_cons_of_pos (List.find?_some hfind)]
      exact absurd (List.filter_eq_nil_iff.mp hnil m' hm')
        (by simp [InstrumentedMethod.hasId, hmid', hid])
    · exact no_line_of_isMethodOf hC he hof hci r' hr' (hrid.trans hid)

/-! ## A line instrument -/

/-- The removal of a line instrument that is applied is answered `ok` with a class outdated
exactly when a class was transformed and not installed. -/
theorem deinstrumentReadyLine_honest {X : Nat} {e : MiEntry} {ci : ClassInfo}
    {st : DeinstrumentRespStatus}
    (h : deinstrumentReadyLine env e.entryClassName.cstr e.exitClassName.cstr X X w = (st, w'))
    (he : w.entry X = some e) (hci : w.cls e.entryClassName.cstr = some ci) :
    (st = .ok → e.entryClassName.cstr ∉ w'.outdated ∧ e.exitClassName.cstr ∉ w'.outdated) ↔
      linesRestored env w e = true := by
  obtain ⟨w₁, w₂, w₃, rE, rX, ok, hw₁, htaken, hE, hX, -, hw', rfl⟩ :=
    deinstrumentReadyLine_run h he hci
  have hout₁ : w₁.outdated = e.exitClassName.cstr :: e.entryClassName.cstr :: w.outdated :=
    congrArg Ledger.outdated hw₁
  have hout₂ := outdated_restoreClass hE
  have hout : w'.outdated = w₃.outdated := congrArg Ledger.outdated hw'
  have hrestored : linesRestored env w e =
      if e.exitClassName.cstr = e.entryClassName.cstr then !rE.1 || rE.2
      else !rE.1 || !((restoreClass env e.exitClassName.cstr e.exitClassName.cstr).result w₂).1 ||
        rE.2 && ((restoreClass env e.exitClassName.cstr e.exitClassName.cstr).result w₂).2 := by
    simp only [linesRestored, final, htaken, result, hE]
  rw [hrestored, hout]
  by_cases hcc : e.exitClassName.cstr = e.entryClassName.cstr
  · rw [if_pos hcc]
    rw [if_neg (by simp [hcc])] at hX
    obtain ⟨rfl, rfl⟩ := pure_eq.mp hX
    rw [hout₂, hout₁, hcc]
    -- one class holds both lines and is restored once
    cases rE.1 <;> cases rE.2 <;> simp
  · rw [if_neg hcc]
    cases h1 : rE.1 with
    | false => simp
    | true =>
      rw [if_pos ⟨h1, hcc⟩] at hX
      have hout₃ := outdated_restoreClass hX
      have hr : (restoreClass env e.exitClassName.cstr e.exitClassName.cstr).result w₂ = rX :=
        congrArg Prod.fst hX
      rw [hr, hout₃, hout₂, hout₁]
      cases rX.1 <;> cases rX.2 <;> cases rE.2 <;> simp [hcc, Ne.symm hcc]

/-- In a state whose classes have what they should, an instrument that left the table has no
call in a class that is installed. -/
theorem Vouch.Inv.cleaned {V : Vouch} (hI : V.Inv w.ledger) (hown : V.own) {X : Nat}
    (hX : w.entry X = none) {c : CStr} (hout : c ∉ w.outdated) : Cleaned w X c := by
  refine ⟨hout, fun ci i v hci ht hv k hk hid => ?_⟩
  obtain ⟨u, hu, hkey⟩ := (hI.deployed hown).tracked c ci hci
  obtain ⟨j, v', ht', hv', hkey'⟩ := retransformTarget_of_mem hu hkey
  obtain rfl := Option.some.inj (ht.symm.trans ht')
  obtain rfl := Option.some.inj (hv.symm.trans hv')
  have hcall := (hI.deployed hown).calls c ci v hci ⟨List.mem_of_getElem? hv, hkey'⟩ hout k hk
  rcases mem_instrumentCalls hcall with ⟨m, hm, hmid, -⟩ | ⟨r, hr, hrid, -⟩
  · exact hI.coherent.entry_of_mem rfl rfl hci hm (by rw [hmid, hid]; exact hX)
  · exact (hI.lined hown).entry_of_mem rfl rfl hci hr (by rw [hrid, hid]; exact hX)

/-! ## The requests -/

theorem MiEntry.classes_of_lineIsReady {e : MiEntry} (h : e.lineIsReady = true) :
    e.classes = [e.entryClassName.cstr, e.exitClassName.cstr] := by
  obtain ⟨c, b⟩ := e
  cases b with
  | method => cases h
  | line => rfl
  | varBind => cases h

theorem lineIsReady_of_isApplied {e : MiEntry} (hm : e.isMethod = false) (h : e.isApplied = true) :
    e.lineIsReady = true := by
  obtain ⟨c, b⟩ := e
  cases b with
  | method => cases hm
  | line => exact h
  | varBind => cases h

/-- The handlers of the two requests go the same way at a method instrument. -/
theorem deinstrumentMethodById_of_step (env : Env) {X : Nat} {e : MiEntry} {ev : Event} {c s : CStr}
    (hC : Coherent w.ledger) (he : w.entry X = some e) (hof : e.isMethodOf c s = true)
    (hev : Removes X e ev) : ∃ st, deinstrumentMethodById env X X w = (st, step env w ev) ∧
      answer env w ev = .deinstrument st := by
  cases ev with
  | deinstrumentById id =>
    obtain rfl : id = X := hev
    obtain ⟨st, w', h⟩ : ∃ st w', ihDeinstrumentById env id w = (st, w') := ⟨_, _, rfl⟩
    refine ⟨st, ?_, congrArg (fun p : DeinstrumentRespStatus × World => Reply.deinstrument p.1) h⟩
    rw [show step env w (.deinstrumentById id) = w' from congrArg Prod.snd h]
    obtain ⟨found, w₁, r₁, h₁⟩ := bind_eq.mp h
    obtain ⟨rfl, rfl⟩ := findEntry_run r₁
    rw [he] at h₁
    obtain ⟨e₂, w₂, r₂, h₂⟩ := bind_eq.mp h₁
    obtain ⟨rfl, rfl⟩ := deref_run r₂ he
    obtain ⟨-, n, d, hb, -⟩ := MiEntry.isMethodOf_iff.mp hof
    simpa only [hb] using h₂
  | deinstrumentMethod c' s' =>
    have hof' : e.isMethodOf c' s' = true := hev
    obtain ⟨st, w', h⟩ : ∃ st w', ihDeinstrumentMethod env c' s' w = (st, w') := ⟨_, _, rfl⟩
    refine ⟨st, ?_, congrArg (fun p : DeinstrumentRespStatus × World => Reply.deinstrument p.1) h⟩
    rw [show step env w (.deinstrumentMethod c' s') = w' from congrArg Prod.snd h]
    obtain ⟨found, w₁, r₁, h₁⟩ := bind_eq.mp h
    obtain ⟨rfl, rfl⟩ := read_eq.mp r₁
    rcases miFindMethodByName_cases w.masterInstruments c' s' with ⟨id, e', hf, he', hof''⟩ |
      ⟨-, hnone⟩
    · obtain rfl := hC.unique id X e' e c' s' he' he hof'' hof'
      rw [hf] at h₁
      exact h₁
    · exact absurd hof' (by simp [hnone X e he])
  | classLoaded | instrumentMethod | instrumentLine | listInstruments | addVarBind => cases hev

/-- What is known of a run whose removals by line number find what they are made for. -/
abbrev lineRun : Vouch := { own := True, removed := False, live := False }

/-- The removal of an instrument that is applied is answered `ok` only when each of its
classes was installed without its calls: always for a method instrument, and for a line
instrument in a run of removals that find their own records exactly when each class that was
transformed again was installed. -/
theorem deinstrument_honest (env : Env) (evs : List Event) (X : Nat) (e : MiEntry) (ev : Event)
    (he : (serve env evs).entry X = some e) (ha : e.isApplied = true) (hev : Removes X e ev)
    (hown : e.isMethod = false →
      Runs.Along (step env) (fun w ev => stepOwn env w ev = true) ihCtxInit (evs ++ [ev])) :
    (answer env (serve env evs) ev = .deinstrument .ok →
        ∀ c ∈ e.classes, Cleaned (step env (serve env evs) ev) X c) ↔
      e.isMethod = true ∨ linesRestored env (serve env evs) e = true := by
  have hC : Coherent (serve env evs).ledger := (serve_inv env evs).coherent
  cases hm : e.isMethod with
  | true =>
    refine iff_of_true (fun hok c hc => ?_) (.inl rfl)
    obtain ⟨c₀, b⟩ := e
    cases b with
    | line => cases hm
    | varBind => cases hm
    | method n d =>
      obtain rfl := List.mem_singleton.mp hc
      have hof : MiEntry.isMethodOf ⟨c₀, .method n d⟩ c₀.cstr n.cstr = true := by
        simp [MiEntry.isMethodOf]
      obtain ⟨st, hrun, hst⟩ := deinstrumentMethodById_of_step env hC he hof hev
      obtain rfl : st = .ok := Reply.deinstrument.inj (hst.symm.trans hok)
      exact deinstrumentMethodById_ok hrun hC he hof ha
  | false =>
    have hrun := hown hm
    have hback : Runs.Along (step env) (lineRun.Backs env) ihCtxInit (evs ++ [ev]) :=
      hrun.mono fun _ _ ho => ⟨fun _ => ho, False.elim, False.elim, False.elim, False.elim⟩
    have hI : lineRun.Inv (serve env evs).ledger :=
      inv_run ihCtxInit_inv (Runs.along_append.mp hback).1
    have hI' : lineRun.Inv (step env (serve env evs) ev).ledger :=
      serve_append env evs ev ▸ inv_run ihCtxInit_inv hback
    have hready : e.lineIsReady = true := lineIsReady_of_isApplied hm ha
    obtain ⟨-, hcE, hcX⟩ := (hI.lined trivial).records he hready
    obtain ⟨ci, hci⟩ := Option.ne_none_iff_exists'.mp hcE
    -- a line instrument is removed by its id
    obtain rfl : ev = .deinstrumentById X := by
      cases ev with
      | deinstrumentById id => exact congrArg _ hev
      | deinstrumentMethod c s => exact absurd (methodName_of_isMethodOf hev).1 (by simp [hm])
      | classLoaded | instrumentMethod | instrumentLine | listInstruments | addVarBind => cases hev
    obtain ⟨st, hline, hst⟩ := deinstrumentReadyLine_of_step env he hready hcE hcX
    have hnone : (step env (serve env evs) (.deinstrumentById X)).entry X = none := by
      obtain ⟨ok, -, V, O, hw'⟩ := deinstrumentReadyLine_redeployed hline he hci
      exact (congrFun (congrArg Ledger.entry hw') X).trans ((setEntry_entry ..).trans (if_pos rfl))
    rw [MiEntry.classes_of_lineIsReady hready, or_iff_right (by simp),
      ← deinstrumentReadyLine_honest hline he hci, hst]
    refine ⟨fun h hok => ?_, fun h hok c hc => ?_⟩
    · have hclean := h (congrArg Reply.deinstrument hok)
      exact ⟨(hclean _ List.mem_cons_self).1,
        (hclean _ (List.mem_cons_of_mem _ List.mem_cons_self)).1⟩
    · obtain ⟨hE, hX⟩ := h (Reply.deinstrument.inj hok)
      rcases List.mem_cons.mp hc with rfl | hc
      · exact hI'.cleaned trivial hnone hE
      · rw [List.mem_singleton.mp hc]
        exact hI'.cleaned trivial hnone hX

/-- A line instrument of two classes, beside a method instrument of one of them. -/
theorem deinstrument_honest_line :
    let w := serve .smooth [.classLoaded classA.cstr [] none, .classLoaded classB.cstr [] none,
      .instrumentMethod classA.cstr classB.cstr, .instrumentLine classA classB 10 20]
    ∀ c ∈ [classA.cstr, classB.cstr], Cleaned (step .smooth w (.deinstrumentById 2)) 2 c := by
  have hown : Runs.Along (step .smooth) (fun w ev => stepOwn .smooth w ev = true) ihCtxInit
      [.classLoaded classA.cstr [] none, .classLoaded classB.cstr [] none,
        .instrumentMethod classA.cstr classB.cstr, .instrumentLine classA classB 10 20,
        .deinstrumentById 2] :=
    ⟨by decide, by decide, by decide, by decide, by decide, trivial⟩
  exact (deinstrument_honest .smooth [.classLoaded classA.cstr [] none,
    .classLoaded classB.cstr [] none, .instrumentMethod classA.cstr classB.cstr,
    .instrumentLine classA classB 10 20] 2 ⟨classA, .line classB 10 20 false false⟩
    (.deinstrumentById 2) (by rfl) rfl rfl fun _ => hown).mpr (.inr (by decide)) (by rfl)

/-- The JVM refuses to install the class without the calls, and the reply is `ok`. -/
theorem deinstrument_dishonest : ¬ ∀ (env : Env) (evs : List Event) (X : Nat) (e : MiEntry)
    (ev : Event), (serve env evs).entry X = some e → e.isApplied = true → Removes X e ev →
    answer env (serve env evs) ev = .deinstrument .ok →
    ∀ c ∈ e.classes, Cleaned (step env (serve env evs) ev) X c := by
  intro h
  have hclean := h (.failing 4) [.classLoaded classA.cstr [] none,
    .instrumentLine classA classA 10 20] 1 ⟨classA, .line classA 10 20 false false⟩
    (.deinstrumentById 1) (by rfl) rfl rfl (by rfl) classA.cstr List.mem_cons_self
  exact hclean.1 (by decide)

end JautoProf
