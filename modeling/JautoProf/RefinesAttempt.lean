import JautoProf.Conditions
import JautoProf.Vouch

/-!
# An attempt to apply an instrument

The functions that add the records of an instrument, transform and retransform its classes,
and take everything back when that fails. Seen as acts, an attempt that succeeds settles the
instrument in flight, and one that fails gives it up.

Results:
1. `instrumentNow_leads`: a method instrument.
2. `populateClassInfoLine_leads`, `performInstrumentationLine_leads`: a line instrument.
-/

namespace JautoProf

open Prog Ledger Act Vouch

variable {env : Env} {V : Vouch} {w w' : World}

/-! ## The steps of an attempt -/

theorem populateClassInfo_run {c : CStr} {id iid : Nat} {pid : Int} {b : Bool} {e : MiEntry}
    (h : populateClassInfo env c id pid iid w = (b, w')) (he : w.entry id = some e) :
    (b = false ∧ w'.ledger = w.ledger) ∨
      (b = true ∧ ∃ sig : Pstring, sig.cstr = e.methodName.cstr ∧
        w'.ledger = w.ledger.modCls c (ciAddInstrumentedMethod ⟨some sig, pid, iid⟩)) := by
  obtain ⟨e', w₁, r₁, h₁⟩ := bind_eq.mp h
  obtain ⟨rfl, rfl⟩ := deref_run r₁ he
  obtain ⟨grown, w₂, r₂, h₂⟩ := bind_eq.mp h₁
  have hw₂ := malloc_run r₂
  cases grown with
  | false =>
    cases h₂
    exact .inl ⟨rfl, hw₂⟩
  | true =>
    obtain ⟨sig, w₃, r₃, h₃⟩ := bind_eq.mp h₂
    obtain ⟨_, w₄, r₄, h₄⟩ := bind_eq.mp h₃
    have hw₄ := modifyClass_run r₄
    rw [(newPstring_run r₃).1, hw₂] at hw₄
    cases sig with
    | some sig =>
      cases h₄
      exact .inr ⟨rfl, sig, (newPstring_run r₃).2 sig rfl, hw₄⟩
    | none =>
      obtain ⟨_, w₅, r₅, h₅⟩ := bind_eq.mp h₄
      cases h₅
      refine .inl ⟨rfl, ?_⟩
      rw [modifyClass_run r₅, hw₄, modCls_modCls_of_inverse]
      intro ci
      simp [ciDropInstrumentedMethod, ciAddInstrumentedMethod]

theorem methodApplied_of_not_isMethod {e : MiEntry} (h : e.isMethod = false) :
    e.methodApplied = e := by
  obtain ⟨c, b⟩ := e
  cases b with
  | method => cases h
  | line => rfl
  | varBind => rfl

theorem performInstrumentation_run {c : CStr} {id : Nat} {pid : Int} {b : Bool} {e : MiEntry}
    (h : performInstrumentation env c id pid id w = (b, w')) (he : w.entry id = some e) :
    (b = false ∧ w'.ledger = w.ledger) ∨
      (b = true ∧ ∃ ci kept, w.cls c = some ci ∧
        w'.ledger = (w.ledger.install c ci kept).modEntry id .methodApplied) := by
  obtain ⟨e', w₁, r₁, h₁⟩ := bind_eq.mp h
  obtain ⟨rfl, rfl⟩ := deref_run r₁ he
  obtain ⟨bc, w₂, r₂, h₂⟩ := bind_eq.mp h₁
  obtain ⟨hw₂, hbc⟩ := doInstrumentation_run r₂
  cases bc with
  | none =>
    cases h₂
    exact .inl ⟨rfl, hw₂⟩
  | some bc =>
    obtain ⟨ci, hci, rfl⟩ := hbc bc rfl
    obtain ⟨loader, w₃, r₃, h₃⟩ := bind_eq.mp h₂
    obtain ⟨rfl, rfl⟩ := classLoader_run r₃
    have hci₂ : w₃.cls c = some ci := (congrFun (congrArg Ledger.cls hw₂) c).trans hci
    rw [hci₂] at h₃
    obtain ⟨ret, w₄, r₄, h₄⟩ := bind_eq.mp h₃
    rcases retransformPending_run r₄ with ⟨rfl, hw₄⟩ | ⟨rfl, kept, hw₄⟩
    · cases h₄
      exact .inl ⟨rfl, hw₄.trans hw₂⟩
    · rw [hw₂] at hw₄
      have he₄ : w₄.entry id = some e' := (congrFun (congrArg Ledger.entry hw₄) id).trans he
      obtain ⟨e₅, w₅, r₅, h₅⟩ := bind_eq.mp h₄
      obtain ⟨rfl, rfl⟩ := deref_run r₅ he₄
      obtain ⟨_, w₆, r₆, h₆⟩ := bind_eq.mp h₅
      obtain ⟨rfl, rfl⟩ := pure_eq.mp h₆
      refine .inr ⟨rfl, ci, kept, hci, ?_⟩
      cases hm : e₅.isMethod with
      | true =>
        rw [hm] at r₆
        rw [modifyEntry_run r₆, hw₄]
      | false =>
        rw [hm] at r₆
        cases r₆
        -- an entry that is no method is not marked, and would not change
        rw [hw₄, modEntry_of_fixed]
        intro e he'
        cases he'.symm.trans he
        exact methodApplied_of_not_isMethod hm

/-! ## A method instrument -/

/-- The flight of an instrument whose records are to be added. -/
abbrev enteringFlight (id : Nat) (pid : Int) : Flight := ⟨id, pid, .entering, [], []⟩

theorem methodName_of_isMethodOf {e : MiEntry} {c s : CStr} (h : e.isMethodOf c s = true) :
    e.isMethod = true ∧ e.entryClassName.cstr = c ∧ e.methodName.cstr = s := by
  obtain ⟨hc, n, d, hb, hs⟩ := MiEntry.isMethodOf_iff.mp h
  obtain ⟨c₀, b⟩ := e
  subst hb
  exact ⟨rfl, hc, hs⟩

theorem lineKeys_of_isMethod {e : MiEntry} (h : e.isMethod = true) : lineKeys (some e) = [] := by
  obtain ⟨c, b⟩ := e
  cases b with
  | method => rfl
  | line => cases h
  | varBind => cases h

theorem applied_of_isMethod {e : MiEntry} (h : e.isMethod = true) : e.applied = e.methodApplied := by
  obtain ⟨c, b⟩ := e
  cases b with
  | method => rfl
  | line => cases h
  | varBind => cases h

/-- `instrument_now` settles the method instrument in flight, or gives it up. -/
theorem instrumentNow_leads {c s : CStr} {id : Nat} {pid : Int} {e : MiEntry}
    {Q : List QueuedInstr} {o : Option CStr} {st : InstrumentRespStatus}
    (h : instrumentNow env c id pid w = (st, w')) (he : w.entry id = some e)
    (hof : e.isMethodOf c s = true) (hc : w.cls c ≠ none) (hr : V.removed → RemoveOk env) :
    (st = .ok ∧ V.Leads (w.ledger.amid Q (some (enteringFlight id pid)) o false)
        (w'.ledger.amid Q none o false)) ∨
      (st = .error ∧ V.GivesUp (w.ledger.amid Q (some (enteringFlight id pid)) o false)
        (w'.ledger.amid Q none o false) id e) := by
  obtain ⟨hm, -, hs⟩ := methodName_of_isMethodOf hof
  obtain ⟨populated, w₁, r₁, h₁⟩ := bind_eq.mp h
  rcases populateClassInfo_run r₁ he with ⟨rfl, hw₁⟩ | ⟨rfl, sig, hsig, hw₁⟩
  · -- nothing was added
    obtain ⟨_, w₂, r₂, h₂⟩ := bind_eq.mp h₁
    obtain ⟨_, w₃, r₃, h₃⟩ := bind_eq.mp h₂
    obtain ⟨rfl, rfl⟩ := pure_eq.mp h₃
    obtain ⟨ok, hok, hw₂⟩ := jniRemoveProfiler_run r₂
    have hw₃ := removeEntry_run r₃
    rw [hw₂, hw₁] at hw₃
    refine .inr ⟨rfl, _, enteringFlight id pid, ok, .refl _,
      .abandon ⟨rfl, nofun, .inl rfl⟩ fun hv => hok (hr hv), rfl, he, rfl, ?_⟩
    rw [hw₃]
    rfl
  · obtain ⟨ret, w₂, r₂, h₂⟩ := bind_eq.mp h₁
    have he₁ : w₁.entry id = some e := (congrFun (congrArg Ledger.entry hw₁) id).trans he
    have hadd : V.Leads (w.ledger.amid Q (some (enteringFlight id pid)) o false)
        (w₁.ledger.amid Q (some ⟨id, pid, .recorded, [], []⟩) o false) := by
      refine (Leads.refl _).snoc (a := .addMethod (enteringFlight id pid) c sig)
        (.plain ⟨rfl, rfl, rfl, hc, e, he, ?_⟩ rfl) ?_
      · rw [hsig, hs]
        exact hof
      · rw [hw₁]
        rfl
    have hc₁ : w₁.cls c ≠ none := by
      rw [show w₁.cls = _ from congrArg Ledger.cls hw₁]
      exact modCls_ne_none.mpr hc
    rcases performInstrumentation_run r₂ he₁ with ⟨rfl, hw₂⟩ | ⟨rfl, ci, kept, hci, hw₂⟩
    · -- the record is dropped again
      obtain ⟨_, w₃, r₃, h₃⟩ := bind_eq.mp h₂
      obtain ⟨_, w₄, r₄, h₄⟩ := bind_eq.mp h₃
      obtain ⟨rfl, rfl⟩ := pure_eq.mp h₄
      obtain ⟨e₅, w₅, r₅, h₅⟩ := bind_eq.mp r₃
      obtain ⟨rfl, rfl⟩ := deref_run r₅ ((congrFun (congrArg Ledger.entry hw₂) id).trans he₁)
      obtain ⟨_, w₆, r₆, h₆⟩ := bind_eq.mp h₅
      obtain ⟨ok, hok, hw₄⟩ := jniRemoveProfiler_run r₄
      rw [removeEntry_run h₆, modifyClass_run r₆, hw₂] at hw₄
      refine .inr ⟨rfl, _, ⟨id, pid, .leaving, [], []⟩, ok, hadd.snoc
        (a := .dropMethod ⟨id, pid, .recorded, [], []⟩ c e₅.methodName.cstr)
        (.plain ⟨rfl, rfl, List.not_mem_nil, rfl, e₅, he₁, ?_⟩ rfl) rfl,
        .abandon ⟨rfl, nofun, .inl rfl⟩ fun hv => hok (hr hv), rfl, he₁, rfl, ?_⟩
      · rw [hs]
        exact hof
      · rw [hw₄]
        rfl
    · obtain ⟨rfl, rfl⟩ := pure_eq.mp h₂
      refine .inl ⟨rfl, (hadd.snoc (a := .install c ci kept) (.plain ⟨hci, fun _ => rfl⟩ rfl)
        rfl).snoc (a := .settle ⟨id, pid, .recorded, [], [c]⟩)
        (.plain ⟨rfl, rfl, rfl, ?_, e, he₁, fun c' s' hof' => ?_⟩ rfl) ?_⟩
      · show [] = lineKeys (w₁.entry id)
        rw [he₁, lineKeys_of_isMethod hm]
      · have hcc : c' = c := by
          rw [← (methodName_of_isMethodOf hof').2.1, (methodName_of_isMethodOf hof).2.1]
        exact hcc ▸ hc₁
      · rw [hw₂]
        refine congrArg (Ledger.withFlight · none) (modEntry_congr fun e' he' => ?_)
        cases he'.symm.trans he₁
        exact applied_of_isMethod hm

/-! ## A line instrument -/

theorem lineKeys_eq {e : MiEntry} (h : lineKeys (some e) ≠ []) :
    lineKeys (some e) = [⟨e.entryClassName.cstr, e.entryLineNumber, .enter⟩,
      ⟨e.exitClassName.cstr, e.exitLineNumber, .exit⟩] := by
  obtain ⟨c, b⟩ := e
  cases b with
  | method => exact absurd rfl h
  | line => rfl
  | varBind => exact absurd rfl h

theorem not_isMethod_of_lineKeys {e : MiEntry} (h : lineKeys (some e) ≠ []) :
    e.isMethod = false := by
  obtain ⟨c, b⟩ := e
  cases b with
  | method => exact absurd rfl h
  | line => rfl
  | varBind => rfl

/-- The record that is added behind the others is the first one of its line when the line
had none. -/
theorem firstLine_add {L : Ledger} {c : CStr} {r : InstrumentedLine} (hc : L.cls c ≠ none)
    (hnone : L.firstLine c r.lineNumber = none) :
    (L.modCls c (ciAddInstrumentedLine r)).firstLine c r.lineNumber = some r.instrumentId := by
  obtain ⟨ci, hci⟩ := Option.ne_none_iff_exists'.mp hc
  rw [firstLine, hci, Option.bind_some, Option.map_eq_none_iff] at hnone
  rw [firstLine, modCls_cls, if_pos rfl, hci, Option.map_some, Option.bind_some]
  show Option.map _ ((ci.lines ++ [r]).find? _) = _
  rw [List.find?_append, hnone]
  simp [InstrumentedLine.hasLine]

/-- `populate_class_info_line` adds both records or leaves none. -/
theorem populateClassInfoLine_leads (Q : List QueuedInstr) (lo : Option CStr) {id : Nat} {pid : Int}
    {e : MiEntry} {b : Bool}
    (h : populateClassInfoLine env e.entryClassName.cstr e.exitClassName.cstr id pid id w = (b, w'))
    (he : w.entry id = some e) (hl : lineKeys (some e) ≠ [])
    (hcE : w.cls e.entryClassName.cstr ≠ none) (hcX : w.cls e.exitClassName.cstr ≠ none)
    (hown : V.own → b = false → env.alloc w.allocs = true →
      w.firstLine e.entryClassName.cstr e.entryLineNumber = none) :
    ∃ f : Flight, f.id = id ∧ f.profilerId = pid ∧ f.installed = [] ∧
      (b = true → f.stage = .recorded ∧ f.recs = lineKeys (some e)) ∧
      (b = false → f.stage ≠ .leaving ∧ f.recs = []) ∧ w'.ledger.entry = w.ledger.entry ∧
      (∀ c, w'.cls c ≠ none ↔ w.cls c ≠ none) ∧
      V.Leads (w.ledger.amid Q (some (enteringFlight id pid)) lo false)
        (w'.ledger.amid Q (some f) lo false) := by
  have hkeys := lineKeys_eq hl
  obtain ⟨e', w₁, r₁, h₁⟩ := bind_eq.mp h
  obtain ⟨rfl, rfl⟩ := deref_run r₁ he
  obtain ⟨grown, w₂, r₂, h₂⟩ := bind_eq.mp h₁
  have hw₂ := malloc_run r₂
  cases grown with
  | false =>
    cases h₂
    refine ⟨enteringFlight id pid, rfl, rfl, rfl, nofun, fun _ => ⟨nofun, rfl⟩,
      congrArg Ledger.entry hw₂, fun c => ?_, .of_eq (by rw [hw₂])⟩
    rw [show w'.cls = w₁.cls from congrArg Ledger.cls hw₂]
  | true =>
    obtain ⟨_, w₃, r₃, h₃⟩ := bind_eq.mp h₂
    have hw₃ := modifyClass_run r₃
    rw [hw₂] at hw₃
    have he₃ : w₃.entry id = some e' := (congrFun (congrArg Ledger.entry hw₃) id).trans he
    have hadd : V.Leads (w₁.ledger.amid Q (some (enteringFlight id pid)) lo false)
        (w₃.ledger.amid Q (some ⟨id, pid, .recorded,
          [⟨e'.entryClassName.cstr, e'.entryLineNumber, .enter⟩], []⟩) lo false) := by
      refine (Leads.refl _).snoc (a := .addLine (enteringFlight id pid)
        ⟨e'.entryClassName.cstr, e'.entryLineNumber, .enter⟩)
        (.plain ⟨rfl, nofun, rfl, hcE, ?_⟩ rfl) ?_
      · show _ ∈ lineKeys (w₁.entry id)
        rw [he, hkeys]
        exact List.mem_cons_self
      · rw [hw₃]
        rfl
    have hcls₃ : ∀ c, w₃.cls c ≠ none ↔ w₁.cls c ≠ none := fun c => by
      rw [show w₃.cls = _ from congrArg Ledger.cls hw₃]
      exact modCls_ne_none
    obtain ⟨e₄, w₄, r₄, h₄⟩ := bind_eq.mp h₃
    obtain ⟨rfl, rfl⟩ := deref_run r₄ he₃
    obtain ⟨grown, w₅, r₅, h₅⟩ := bind_eq.mp h₄
    have hw₅ := malloc_run r₅
    rw [← hw₅] at hadd
    have hcls₅ : ∀ c, w₅.cls c ≠ none ↔ w₁.cls c ≠ none := fun c => by
      rw [show w₅.cls = w₄.cls from congrArg Ledger.cls hw₅]
      exact hcls₃ c
    have he₅ : w₅.entry id = some e₄ := (congrFun (congrArg Ledger.entry hw₅) id).trans he₃
    have hent₅ : w₅.ledger.entry = w₁.ledger.entry := by rw [hw₅, hw₃]; rfl
    cases grown with
    | true =>
      obtain ⟨_, w₆, r₆, h₆⟩ := bind_eq.mp h₅
      cases h₆
      have hw₆ := modifyClass_run r₆
      refine ⟨⟨id, pid, .recorded, lineKeys (some e₄), []⟩, rfl, rfl, rfl, fun _ => ⟨rfl, rfl⟩, nofun,
        ?_, fun c => ?_, hadd.snoc (a := .addLine _ ⟨e₄.exitClassName.cstr, e₄.exitLineNumber, .exit⟩)
        (.plain ⟨rfl, nofun, rfl, (hcls₅ _).mpr hcX, ?_⟩ rfl) ?_⟩
      · rw [hw₆]
        exact hent₅
      · rw [show w'.cls = _ from congrArg Ledger.cls hw₆]
        exact modCls_ne_none.trans (hcls₅ c)
      · show _ ∈ lineKeys (w₅.entry id)
        rw [he₅, hkeys]
        exact List.mem_cons_of_mem _ List.mem_cons_self
      · rw [hw₆, hkeys]
        rfl
    | false =>
      obtain ⟨e₆, w₆, r₆, h₆⟩ := bind_eq.mp h₅
      obtain ⟨rfl, rfl⟩ := deref_run r₆ he₅
      obtain ⟨_, w₇, r₇, h₇⟩ := bind_eq.mp h₆
      cases h₇
      have hw₇ := modifyClass_run r₇
      refine ⟨⟨id, pid, .recorded, [], []⟩, rfl, rfl, rfl, nofun, fun _ => ⟨nofun, rfl⟩,
        ?_, fun c => ?_, hadd.snoc (a := .dropLine _ e₆.entryClassName.cstr e₆.entryLineNumber)
        (.owning ⟨rfl, nofun, ?_, ?_⟩ (fun hv => ?_) rfl) ?_⟩
      · rw [hw₇]
        exact hent₅
      · rw [show w'.cls = _ from congrArg Ledger.cls hw₇]
        exact modCls_ne_none.trans (hcls₅ c)
      · rintro (h | h)
        · cases h
        · cases h
      · show lineKeys (w₆.entry id) ≠ []
        rw [he₅]
        exact hl
      · -- the record that goes is the one just added
        have hfirst := hown hv rfl (congrArg Prod.fst r₂)
        show w₆.ledger.firstLine e₆.entryClassName.cstr e₆.entryLineNumber = some id
        rw [hw₅, hw₃]
        exact firstLine_add (r := ⟨_, _, _, _⟩) hcE hfirst
      · rw [hw₇]
        simp [apply, withFlight, amid, modCls]

/-- `takesOwn`, read off the ledger. -/
theorem takesOwn_iff {id : Nat} {e : MiEntry} : w.takesOwn id e = true ↔
    w.ledger.firstLine e.entryClassName.cstr e.entryLineNumber = some id ∧
      (w.ledger.modCls e.entryClassName.cstr
        (ciRemoveInstrumentedLine e.entryLineNumber)).firstLine e.exitClassName.cstr
          e.exitLineNumber = some id := by
  have hmod := modifyClass_run (w := w) (c := e.entryClassName.cstr)
    (f := ciRemoveInstrumentedLine e.entryLineNumber) (u := ()) rfl
  rw [← hmod]
  simp only [World.takesOwn, Bool.and_eq_true, decide_eq_true_eq]
  rfl

theorem lineKeys_eraseP {e : MiEntry} (h : lineKeys (some e) ≠ []) :
    ((lineKeys (some e)).eraseP fun k =>
      decide (k.cls = e.entryClassName.cstr ∧ k.line = e.entryLineNumber)) =
        [⟨e.exitClassName.cstr, e.exitLineNumber, .exit⟩] := by
  rw [lineKeys_eq h]
  simp

/-- The `fail` exit of `perform_instrumentation_line` gives the instrument up. -/
theorem undoLine_givesUp {id : Nat} {pid : Int} {e : MiEntry} {I : List CStr}
    {Q : List QueuedInstr} {lo : Option CStr} {u : Unit}
    (h : undoLine env e.entryClassName.cstr e.exitClassName.cstr id pid id w = (u, w'))
    (he : w.entry id = some e) (hl : lineKeys (some e) ≠ []) (hins : ∀ c ∈ I, c ∈ w.outdated)
    (hown : V.own → w.takesOwn id e = true) (hr : V.removed → RemoveOk env) :
    V.GivesUp (w.ledger.amid Q (some ⟨id, pid, .recorded, lineKeys (some e), I⟩) lo false)
      (w'.ledger.amid Q none lo false) id e := by
  obtain ⟨e₁, w₁, r₁, h₁⟩ := bind_eq.mp h
  obtain ⟨rfl, rfl⟩ := deref_run r₁ he
  obtain ⟨_, w₂, r₂, h₂⟩ := bind_eq.mp h₁
  have hw₂ := modifyClass_run r₂
  obtain ⟨e₃, w₃, r₃, h₃⟩ := bind_eq.mp h₂
  obtain ⟨rfl, rfl⟩ := deref_run r₃ ((congrFun (congrArg Ledger.entry hw₂) id).trans he)
  obtain ⟨_, w₄, r₄, h₄⟩ := bind_eq.mp h₃
  have hw₄ := modifyClass_run r₄
  obtain ⟨_, w₅, r₅, r₆⟩ := bind_eq.mp h₄
  obtain ⟨ok, hok, hw₅⟩ := jniRemoveProfiler_run r₅
  have hw₆ := removeEntry_run r₆
  rw [hw₅, hw₄, hw₂] at hw₆
  have hkeys : lineKeys (w₁.entry id) ≠ [] := by
    rw [he]
    exact hl
  -- the two records are dropped by their lines, and the flight ends without them
  have hdrop : V.Leads (w₁.ledger.amid Q (some ⟨id, pid, .recorded, lineKeys (some e₃), I⟩) lo false)
      (w₃.ledger.amid Q (some ⟨id, pid, .recorded,
        [⟨e₃.exitClassName.cstr, e₃.exitLineNumber, .exit⟩], I⟩) lo false) := by
    refine (Leads.refl _).snoc (a := .dropLine _ e₃.entryClassName.cstr e₃.entryLineNumber)
      (.owning ⟨rfl, (by simp), fun hi => hins _ (hi.resolve_right (by simp)), hkeys⟩
        (fun hv => ?_) rfl) ?_
    · exact (takesOwn_iff.mp (hown hv)).1
    · rw [hw₂]
      simp only [apply, lineKeys_eraseP hl]
      rfl
  refine ⟨_, ⟨id, pid, .recorded, [], I⟩, ok, hdrop.snoc
    (a := .dropLine _ e₃.exitClassName.cstr e₃.exitLineNumber)
    (.owning ⟨rfl, (by simp), fun hi => ?_, ?_⟩ (fun hv => ?_) rfl) rfl,
    .abandon ⟨?_, fun _ => ?_, .inl rfl⟩ fun hv => hok (hr hv), rfl, ?_, rfl, ?_⟩
  · show e₃.exitClassName.cstr ∈ w₃.ledger.outdated
    rw [hw₂]
    exact hins _ (hi.resolve_right (by simp))
  · show lineKeys (w₃.ledger.entry id) ≠ []
    rw [hw₂]
    exact hkeys
  · show w₃.ledger.firstLine e₃.exitClassName.cstr e₃.exitLineNumber = some id
    rw [hw₂]
    exact (takesOwn_iff.mp (hown hv)).2
  · simp [apply, withFlight]
  · show lineKeys (w₃.ledger.entry id) ≠ []
    rw [hw₂]
    exact hkeys
  · show w₃.ledger.entry id = some e₃
    rw [hw₂]
    exact he
  · rw [hw₆, hw₂]
    rfl

theorem applied_of_not_isMethod {e : MiEntry} (h : e.isMethod = false) :
    e.applied = e.lineEntryApplied.lineExitApplied := by
  rw [MiEntry.applied, methodApplied_of_not_isMethod h]

/-- An installation for a line instrument leaves its entry. -/
theorem performInstrumentation_line {c : CStr} {id : Nat} {pid : Int} {b : Bool} {e : MiEntry}
    (h : performInstrumentation env c id pid id w = (b, w')) (he : w.entry id = some e)
    (hl : lineKeys (some e) ≠ []) :
    (b = false ∧ w'.ledger = w.ledger) ∨
      (b = true ∧ ∃ ci kept, w.cls c = some ci ∧ w'.ledger = w.ledger.install c ci kept) := by
  refine (performInstrumentation_run h he).imp_right ?_
  rintro ⟨rfl, ci, kept, hci, hw⟩
  refine ⟨rfl, ci, kept, hci, hw.trans (modEntry_of_fixed fun e' he' => ?_)⟩
  cases he'.symm.trans he
  exact methodApplied_of_not_isMethod (not_isMethod_of_lineKeys hl)

/-- `perform_instrumentation_line` settles the line instrument in flight, or gives it up. -/
theorem performInstrumentationLine_leads {id : Nat} {pid : Int} {e : MiEntry}
    {Q : List QueuedInstr} {lo : Option CStr} {b : Bool}
    (h : performInstrumentationLine env e.entryClassName.cstr e.exitClassName.cstr id pid id w =
      (b, w')) (he : w.entry id = some e) (hl : lineKeys (some e) ≠ [])
    (hown : V.own → b = false → w.takesOwn id e = true) (hr : V.removed → RemoveOk env) :
    (b = true ∧ V.Leads (w.ledger.amid Q (some ⟨id, pid, .recorded, lineKeys (some e), []⟩) lo false)
        (w'.ledger.amid Q none lo false)) ∨
      (b = false ∧ V.GivesUp
        (w.ledger.amid Q (some ⟨id, pid, .recorded, lineKeys (some e), []⟩) lo false)
        (w'.ledger.amid Q none lo false) id e) := by
  -- what follows the installations, from the classes that were installed
  have hsettle : ∀ {w₁ w₂ : World} {I : List CStr} {b : Bool},
      w₁.entry id = some e →
      (do modifyEntry id .lineEntryApplied
          modifyEntry id .lineExitApplied
          pure true : M Bool) w₁ = (b, w₂) →
      b = true ∧ V.Leads (w₁.ledger.amid Q (some ⟨id, pid, .recorded, lineKeys (some e), I⟩) lo false)
        (w₂.ledger.amid Q none lo false) := by
    intro w₁ w₂ I b he₁ h
    obtain ⟨_, w₃, r₃, h₃⟩ := bind_eq.mp h
    obtain ⟨_, w₄, r₄, h₄⟩ := bind_eq.mp h₃
    obtain ⟨rfl, rfl⟩ := pure_eq.mp h₄
    refine ⟨rfl, (Leads.refl _).snoc (a := .settle ⟨id, pid, .recorded, lineKeys (some e), I⟩)
      (.plain ⟨rfl, rfl, rfl, ?_, e, he₁, fun c s hof => ?_⟩ rfl) ?_⟩
    · show _ = lineKeys (w₁.entry id)
      rw [he₁]
    · rw [lineKeys_of_isMethod (methodName_of_isMethodOf hof).1] at hl
      exact absurd rfl hl
    · rw [modifyEntry_run r₄, modifyEntry_run r₃, modEntry_modEntry]
      refine congrArg (Ledger.withFlight · none) (modEntry_congr fun e' he' => ?_)
      cases he'.symm.trans he₁
      exact applied_of_not_isMethod (not_isMethod_of_lineKeys hl)
  have hfail : ∀ {w₁ w₂ : World} {I : List CStr} {b : Bool},
      w₁.entry id = some e → w₁.cls = w.cls → (∀ c ∈ I, c ∈ w₁.outdated) →
      (do undoLine env e.entryClassName.cstr e.exitClassName.cstr id pid id
          pure false : M Bool) w₁ = (b, w₂) →
      (V.own → b = false → w.takesOwn id e = true) →
      b = false ∧ V.GivesUp
        (w₁.ledger.amid Q (some ⟨id, pid, .recorded, lineKeys (some e), I⟩) lo false)
        (w₂.ledger.amid Q none lo false) id e := by
    intro w₁ w₂ I b he₁ hcls hI h hown
    obtain ⟨_, w₃, r₃, h₃⟩ := bind_eq.mp h
    obtain ⟨rfl, rfl⟩ := pure_eq.mp h₃
    refine ⟨rfl, undoLine_givesUp r₃ he₁ hl hI (fun hv => ?_) hr⟩
    have htake := takesOwn_iff.mp (hown hv rfl)
    rw [takesOwn_iff]
    simp only [firstLine, modCls_cls] at htake ⊢
    rw [show w₁.ledger.cls = w.ledger.cls from hcls]
    exact htake
  obtain ⟨entryOk, w₁, r₁, h₁⟩ := bind_eq.mp h
  obtain ⟨exitOk, w₂, r₂, h₂⟩ := bind_eq.mp h₁
  rcases performInstrumentation_line r₁ he hl with ⟨rfl, hw₁⟩ | ⟨rfl, ciE, kE, hciE, hw₁⟩
  · rw [if_neg (by simp)] at r₂
    obtain ⟨rfl, rfl⟩ := pure_eq.mp r₂
    obtain ⟨_, w₃, r₃, h₃⟩ := bind_eq.mp h₂
    cases r₃
    rw [← hw₁]
    exact .inr (hfail ((congrFun (congrArg Ledger.entry hw₁) id).trans he)
      (congrArg Ledger.cls hw₁) (by simp) h₃ hown)
  · have he₁ : w₁.entry id = some e := (congrFun (congrArg Ledger.entry hw₁) id).trans he
    have hcls₁ : w₁.cls = w.cls := congrArg Ledger.cls hw₁
    have hinstall : V.Leads
        (w.ledger.amid Q (some ⟨id, pid, .recorded, lineKeys (some e), []⟩) lo false)
        (w₁.ledger.amid Q (some ⟨id, pid, .recorded, lineKeys (some e),
          [e.entryClassName.cstr]⟩) lo false) :=
      (Leads.refl _).snoc (a := .install e.entryClassName.cstr ciE kE)
        (.plain ⟨hciE, fun _ => rfl⟩ rfl) (by rw [hw₁]; rfl)
    by_cases hcc : e.exitClassName.cstr = e.entryClassName.cstr
    · rw [if_neg (by simp [hcc])] at r₂
      obtain ⟨rfl, rfl⟩ := pure_eq.mp r₂
      obtain ⟨hb, hset⟩ := hsettle he₁ h₂
      exact .inl ⟨hb, hinstall.trans hset⟩
    · rw [if_pos ⟨rfl, hcc⟩] at r₂
      rcases performInstrumentation_line r₂ he₁ hl with ⟨rfl, hw₂⟩ | ⟨rfl, ciX, kX, hciX, hw₂⟩
      · -- the class of the entry is installed with the record that goes
        obtain ⟨_, w₃, r₃, h₃⟩ := bind_eq.mp h₂
        have hw₃ := markOutdated_run r₃
        rw [hw₂] at hw₃
        obtain ⟨hb, hgive⟩ := hfail (I := [e.entryClassName.cstr])
          ((congrFun (congrArg Ledger.entry hw₃) id).trans he₁)
          ((congrArg Ledger.cls hw₃).trans hcls₁)
          (fun c hc => by
            rw [show w₃.outdated = _ from congrArg Ledger.outdated hw₃]
            exact List.mem_cons.mpr (.inl (List.mem_singleton.mp hc))) h₃ hown
        refine .inr ⟨hb, GivesUp.trans (hinstall.snoc (a := .mark e.entryClassName.cstr)
          (.plain trivial rfl) rfl) rfl ?_⟩
        rw [hw₃] at hgive
        exact hgive
      · have hcls₂ : w₂.cls = w.cls := (congrArg Ledger.cls hw₂).trans hcls₁
        obtain ⟨hb, hset⟩ := hsettle (I := [e.exitClassName.cstr, e.entryClassName.cstr])
          ((congrFun (congrArg Ledger.entry hw₂) id).trans he₁) h₂
        refine .inl ⟨hb, (hinstall.snoc (a := .install e.exitClassName.cstr ciX kX)
          (.plain ⟨hciX, fun _ => rfl⟩ rfl) ?_).trans hset⟩
        rw [hw₂]
        rfl

/-! ## Adding the records and installing them -/

theorem attemptOwn_cases {id : Nat} {pid : Int} {e : MiEntry} {b : Bool} {w₁ : World}
    (h : attemptOwn env w e id pid = true)
    (r : populateClassInfoLine env e.entryClassName.cstr e.exitClassName.cstr id pid id w = (b, w₁)) :
    (b = false → env.alloc w.allocs = true →
        w.firstLine e.entryClassName.cstr e.entryLineNumber = none) ∧
      (b = true → ∀ b' w₂, performInstrumentationLine env e.entryClassName.cstr
        e.exitClassName.cstr id pid id w₁ = (b', w₂) → b' = false → w₁.takesOwn id e = true) := by
  simp only [attemptOwn, result, final, r] at h
  refine ⟨?_, ?_⟩
  · rintro rfl ha
    simpa [ha] using h
  · rintro rfl b' w₂ r₂ rfl
    simpa [r₂] using h

theorem attemptLive_cases {id : Nat} {pid : Int} {e : MiEntry} {b : Bool} {w₁ w₂ : World}
    (h : attemptLive env w e id pid = true)
    (r : populateClassInfoLine env e.entryClassName.cstr e.exitClassName.cstr id pid id w = (true, w₁))
    (r₂ : performInstrumentationLine env e.entryClassName.cstr e.exitClassName.cstr id pid id w₁ =
      (b, w₂)) : b = true := by
  simp only [attemptLive, result, final, r, r₂] at h
  simpa using h

/-- `ih_instrument_line` with both classes loaded settles the instrument, or gives it up. -/
theorem instrumentLineNow_leads {id : Nat} {pid : Int} {e : MiEntry} {Q : List QueuedInstr}
    {o : Option CStr} {st : InstrumentRespStatus}
    (h : instrumentLineNow env e.entryClassName.cstr e.exitClassName.cstr id pid id w = (st, w'))
    (he : w.entry id = some e) (hl : lineKeys (some e) ≠ [])
    (hcE : w.cls e.entryClassName.cstr ≠ none) (hcX : w.cls e.exitClassName.cstr ≠ none)
    (hown : V.own → attemptOwn env w e id pid = true) (hr : V.removed → RemoveOk env) :
    (st = .ok ∧ V.Leads (w.ledger.amid Q (some (enteringFlight id pid)) o false)
        (w'.ledger.amid Q none o false)) ∨
      (st = .error ∧ V.GivesUp (w.ledger.amid Q (some (enteringFlight id pid)) o false)
        (w'.ledger.amid Q none o false) id e) := by
  obtain ⟨populated, w₁, r₁, h₁⟩ := bind_eq.mp h
  obtain ⟨f, rfl, rfl, hins, hrec, hnone, hent, -, hpop⟩ := populateClassInfoLine_leads
    (V := V) Q o r₁ he hl hcE hcX fun hv => (attemptOwn_cases (hown hv) r₁).1
  have he₁ : w₁.entry f.id = some e := (congrFun hent f.id).trans he
  cases populated with
  | true =>
    obtain ⟨ret, w₂, r₂, h₂⟩ := bind_eq.mp h₁
    obtain ⟨rfl, rfl⟩ := pure_eq.mp h₂
    obtain ⟨fid, fpid, fst, frecs, finst⟩ := f
    obtain ⟨rfl, rfl⟩ := hrec rfl
    obtain rfl : finst = [] := hins
    rcases performInstrumentationLine_leads (V := V) r₂ he₁ hl
      (fun hv => (attemptOwn_cases (hown hv) r₁).2 rfl _ _ r₂) hr with ⟨rfl, hset⟩ | ⟨rfl, hgive⟩
    · exact .inl ⟨rfl, hpop.trans hset⟩
    · exact .inr ⟨rfl, hgive.trans hpop rfl⟩
  | false =>
    obtain ⟨_, w₂, r₂, h₂⟩ := bind_eq.mp h₁
    obtain ⟨_, w₃, r₃, h₃⟩ := bind_eq.mp h₂
    obtain ⟨rfl, rfl⟩ := pure_eq.mp h₃
    obtain ⟨ok, hok, hw₂⟩ := jniRemoveProfiler_run r₂
    have hw₃ := removeEntry_run r₃
    rw [hw₂] at hw₃
    -- there was no memory for a record: nothing of the flight is in a class
    have hgive : V.GivesUp (w₁.ledger.amid Q (some f) o false) (w₃.ledger.amid Q none o false) f.id
        e := by
      rw [hw₃]
      exact givesUp_now rfl he₁ (hnone rfl).2 (fun _ => hl) fun hv => hok (hr hv)
    exact .inr ⟨rfl, hgive.trans hpop rfl⟩

theorem failureText_of_lineKeys {e : MiEntry} (h : lineKeys (some e) ≠ []) :
    e.failureText = deferredLineText e.entryClassName.cstr e.exitClassName.cstr := by
  obtain ⟨c, b⟩ := e
  cases b with
  | method => exact absurd rfl h
  | line => rfl
  | varBind => exact absurd rfl h

/-- The report of a line instrument whose entry is in the table names it. -/
theorem reportLineFailure_run {id : Nat} {e : MiEntry} {u : Unit}
    (h : reportLineFailure env id w = (u, w')) (he : w.entry id = some e)
    (hl : lineKeys (some e) ≠ []) :
    w'.ledger = { w.ledger with reports := w.reports ++ [⟨id, e.failureText⟩] } := by
  obtain ⟨e₁, w₁, r₁, h₁⟩ := bind_eq.mp h
  obtain ⟨rfl, rfl⟩ := deref_run r₁ he
  obtain ⟨e₂, w₂, r₂, r₃⟩ := bind_eq.mp h₁
  obtain ⟨rfl, rfl⟩ := deref_run r₂ he
  rw [reportFailure_run r₃, failureText_of_lineKeys hl]

/-- The report of a line instrument whose entry left the table reads it nonetheless. -/
theorem reportLineFailure_stale {id : Nat} {u : Unit} (h : reportLineFailure env id w = (u, w'))
    (he : w.entry id = none) : ∃ text, w'.ledger = { w.ledger with
      staleReads := w.staleReads + 2, reports := w.reports ++ [⟨id, text⟩] } := by
  obtain ⟨e₁, w₁, r₁, h₁⟩ := bind_eq.mp h
  have hw₁ := deref_stale r₁ he
  have he₁ : w₁.entry id = none := (congrFun (congrArg Ledger.entry hw₁) id).trans he
  obtain ⟨e₂, w₂, r₂, r₃⟩ := bind_eq.mp h₁
  have hw₂ := deref_stale r₂ he₁
  have hs : w₁.staleReads = w.staleReads + 1 := congrArg Ledger.staleReads hw₁
  rw [hw₁, hs] at hw₂
  have hrep : w₂.reports = w.reports := congrArg Ledger.reports hw₂
  exact ⟨_, by rw [reportFailure_run r₃, hw₂, hrep]⟩

/-- The attempt at a deferred line instrument ends its flight. -/
theorem applyDeferredLine_leads {id : Nat} {pid : Int} {e : MiEntry} {Q : List QueuedInstr}
    {c : CStr} {u : Unit}
    (h : applyDeferredLine env e.entryClassName.cstr e.exitClassName.cstr id pid w = (u, w'))
    (he : w.entry id = some e) (hl : lineKeys (some e) ≠ [])
    (hcE : w.cls e.entryClassName.cstr ≠ none) (hcX : w.cls e.exitClassName.cstr ≠ none)
    (hown : V.own → attemptOwn env w e id pid = true)
    (hlive : V.live → attemptLive env w e id pid = true) (hr : V.removed → RemoveOk env) :
    V.Leads (w.ledger.amid Q (some (enteringFlight id pid)) (some c) false)
      (w'.ledger.amid Q none (some c) false) := by
  obtain ⟨populated, w₁, r₁, h₁⟩ := bind_eq.mp h
  obtain ⟨f, rfl, rfl, hins, hrec, hnone, hent, -, hpop⟩ := populateClassInfoLine_leads
    (V := V) Q (some c) r₁ he hl hcE hcX fun hv => (attemptOwn_cases (hown hv) r₁).1
  have he₁ : w₁.entry f.id = some e := (congrFun hent f.id).trans he
  cases populated with
  | true =>
    obtain ⟨ret, w₂, r₂, h₂⟩ := bind_eq.mp h₁
    obtain ⟨fid, fpid, fst, frecs, finst⟩ := f
    obtain ⟨rfl, rfl⟩ := hrec rfl
    obtain rfl : finst = [] := hins
    rcases performInstrumentationLine_leads (V := V) r₂ he₁ hl
      (fun hv => (attemptOwn_cases (hown hv) r₁).2 rfl _ _ r₂) hr with ⟨rfl, hset⟩ | ⟨rfl, hgive⟩
    · cases h₂
      exact hpop.trans hset
    · -- the entry is gone, and the report reads it
      have hnolive : ¬ V.live := fun hv => by
        have := attemptLive_cases (hlive hv) r₁ r₂
        cases this
      obtain ⟨text, hw'⟩ := reportLineFailure_stale h₂ hgive.entry
      have hstale : ∀ L : Ledger, V.Allows L .readStale := fun L =>
        ⟨trivial, fun _ => trivial, fun _ => trivial, fun hv => absurd hv hnolive, fun _ => trivial⟩
      refine (((hpop.trans hgive.leads).snoc (hstale _) rfl).snoc (hstale _) rfl).snoc
        (a := .report ⟨fid, text⟩) ⟨trivial, fun _ => trivial, fun _ => trivial,
          fun hv => absurd hv hnolive, fun _ => trivial⟩ ?_
      rw [hw']
      rfl
  | false =>
    obtain ⟨_, w₂, r₂, h₂⟩ := bind_eq.mp h₁
    have hw₂ := reportLineFailure_run r₂ he₁ hl
    obtain ⟨_, w₃, r₃, r₄⟩ := bind_eq.mp h₂
    obtain ⟨ok, hok, hw₃⟩ := jniRemoveProfiler_run r₃
    have hw₄ := removeEntry_run r₄
    rw [hw₃, hw₂] at hw₄
    have hgive := (givesUp_now (V := V) (L := w₁.ledger.amid Q (some f) (some c) false) rfl he₁
      (hnone rfl).2 (fun _ => hl) fun hv => hok (hr hv)).report nofun
    refine hpop.trans ?_
    rw [hw₄]
    exact hgive

end JautoProf
