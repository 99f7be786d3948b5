import JautoProf.RefinesDeferred

/-!
# Deinstrumenting, seen as acts

An instrument that is not applied loses its queue records; an applied one its records in the
classes, which are then installed again without them. Whatever the installations do, the
instrument is given up.

Results:
1. `ihDeinstrumentById_leads`, `ihDeinstrumentMethod_leads`.
-/

namespace JautoProf

open Prog Ledger Act Vouch

variable {env : Env} {V : Vouch} {w w' : World}

theorem removeProfilerIfAny_run {pid : Int} {u : Unit}
    (h : removeProfilerIfAny env pid w = (u, w')) :
    ∃ ok, (RemoveOk env → ok = true) ∧ w'.ledger = w.ledger.release pid ok := by
  unfold removeProfilerIfAny at h
  split at h
  · exact jniRemoveProfiler_run h
  · next hneg =>
    cases h
    refine ⟨true, fun _ => rfl, ?_⟩
    cases pid with
    | ofNat i => exact absurd (Int.natCast_nonneg i) hneg
    | negSucc i => rfl

/-! ## Instruments that wait in the queue -/

theorem queueKeys_ne_nil {e : MiEntry} (hvis : e.isUserVisible = true) (ha : e.isApplied = false) :
    queueKeys (some e) ≠ [] := by
  obtain ⟨c, b⟩ := e
  cases b with
  | method n d => cases d <;> simp_all [MiEntry.isApplied, queueKeys]
  | line x l l' d d' => cases d <;> cases d' <;> simp_all [MiEntry.isApplied, queueKeys]
  | varBind => cases hvis

theorem deinstrumentDeferred_leads {id : Nat} {e : MiEntry} {st : DeinstrumentRespStatus}
    (h : deinstrumentDeferred env id w = (st, w')) (hI : V.Inv w.ledger) (he : w.entry id = some e)
    (hvis : e.isUserVisible = true) (ha : e.isApplied = false) (hr : V.removed → RemoveOk env) :
    V.Leads w.ledger w'.ledger := by
  obtain ⟨pid, w₁, r₁, h₁⟩ := bind_eq.mp h
  obtain ⟨queue, w₂, r₂, h₂⟩ := bind_eq.mp r₁
  obtain ⟨rfl, rfl⟩ := read_eq.mp r₂
  obtain ⟨_, w₃, r₃, h₃⟩ := bind_eq.mp h₂
  obtain ⟨rfl, rfl⟩ := pure_eq.mp h₃
  have hw₃ := modifyQueue_run r₃
  have hkeys := hI.coherent.queue id
  rw [queueKeysOf_none rfl, show w.ledger.entry id = some e from he] at hkeys
  -- what waits has a record
  obtain ⟨q, hq⟩ : ∃ q, w.queuedInstruments.find? (·.hasId id) = some q := by
    cases hf : w.queuedInstruments.find? (·.hasId id) with
    | some q => exact ⟨q, rfl⟩
    | none =>
      rw [show w.ledger.queue.filter (·.hasId id) = [] from
        List.filter_eq_nil_iff.mpr (List.find?_eq_none.mp hf), List.map_nil] at hkeys
      exact absurd hkeys.symm (queueKeys_ne_nil hvis ha)
  rw [removeQueuedInstrByIdResult_eq, hq] at h₁
  obtain ⟨_, w₄, r₄, h₄⟩ := bind_eq.mp h₁
  obtain ⟨_, w₅, r₅, h₅⟩ := bind_eq.mp h₄
  obtain ⟨rfl, rfl⟩ := pure_eq.mp h₅
  obtain ⟨ok, hok, hw₄⟩ := removeProfilerIfAny_run r₄
  have hw₅ := removeEntry_run r₅
  rw [hw₄, hw₃] at hw₅
  refine (Leads.snoc (.refl _) (a := .unqueue id q) (.plain ⟨rfl, rfl, hq⟩ rfl) rfl).snoc
    (a := .abandon ⟨id, q.profilerId, .leaving, [], []⟩ ok)
    (.abandon ⟨rfl, nofun, .inl rfl⟩ fun hv => hok (hr hv)) ?_
  rw [hw₅]
  rfl

/-! ## Line instruments -/

theorem takeLine_run {c : CStr} {l : UInt32} {pid : Int} (h : takeLine c l w = (pid, w')) :
    w'.ledger = (w.ledger.modCls c (ciRemoveInstrumentedLine l)).mark c ∧
      ∀ ci, w.cls c = some ci → pid = ciInstrumentedLine ci l := by
  obtain ⟨info, w₁, r₁, h₁⟩ := bind_eq.mp h
  obtain ⟨rfl, rfl⟩ := read_eq.mp r₁
  obtain ⟨_, w₂, r₂, h₂⟩ := bind_eq.mp h₁
  obtain ⟨_, w₃, r₃, h₃⟩ := bind_eq.mp h₂
  obtain ⟨rfl, rfl⟩ := pure_eq.mp h₃
  refine ⟨by rw [markOutdated_run r₃, modifyClass_run r₂], fun ci hci => ?_⟩
  rw [hci]

/-- `deinstrument_line_by_id` on an instrument that is applied, up to the end: the records go,
the classes are restored, and the instrument is given up. -/
theorem deinstrumentReadyLine_run {id : Nat} {e : MiEntry} {ci : ClassInfo}
    {st : DeinstrumentRespStatus}
    (h : deinstrumentReadyLine env e.entryClassName.cstr e.exitClassName.cstr id id w = (st, w'))
    (he : w.entry id = some e) (hci : w.cls e.entryClassName.cstr = some ci) :
    ∃ w₁ w₂ w₃ entryRestored exitRestored ok,
      w₁.ledger = (((w.ledger.modCls e.entryClassName.cstr
        (ciRemoveInstrumentedLine e.entryLineNumber)).mark e.entryClassName.cstr).modCls
          e.exitClassName.cstr (ciRemoveInstrumentedLine e.exitLineNumber)).mark
            e.exitClassName.cstr ∧
      (do let _ ← takeLine e.entryClassName.cstr e.entryLineNumber
          let _ ← takeLine e.exitClassName.cstr e.exitLineNumber
          pure () : M Unit) w = ((), w₁) ∧
      restoreClass env e.entryClassName.cstr e.entryClassName.cstr w₁ = (entryRestored, w₂) ∧
      (if entryRestored.1 ∧ e.exitClassName.cstr ≠ e.entryClassName.cstr then
        restoreClass env e.exitClassName.cstr e.exitClassName.cstr else pure (true, true)) w₂ =
          (exitRestored, w₃) ∧
      (RemoveOk env → ok = true) ∧
      w'.ledger = (w₃.ledger.setEntry id none).release (ciInstrumentedLine ci e.entryLineNumber) ok ∧
      st = if entryRestored.1 && exitRestored.1 then .ok else .fail := by
  obtain ⟨e₁, w₁, r₁, h₁⟩ := bind_eq.mp h
  obtain ⟨rfl, rfl⟩ := deref_run r₁ he
  -- the record at the entry line is taken, and then the one at the exit line
  obtain ⟨pid, w₂, r₂, h₂⟩ := bind_eq.mp h₁
  obtain ⟨hw₂, hpid⟩ := takeLine_run r₂
  obtain rfl := hpid ci hci
  obtain ⟨e₃, w₃, r₃, h₃⟩ := bind_eq.mp h₂
  obtain ⟨rfl, rfl⟩ := deref_run r₃ ((congrFun (congrArg Ledger.entry hw₂) id).trans he)
  obtain ⟨pid', w₄, r₄, h₄⟩ := bind_eq.mp h₃
  have hw₄ := (takeLine_run r₄).1
  obtain ⟨rE, w₅, r₅, h₅⟩ := bind_eq.mp h₄
  obtain ⟨rX, w₆, r₆, h₆⟩ := bind_eq.mp h₅
  obtain ⟨_, w₇, r₇, h₇⟩ := bind_eq.mp h₆
  obtain ⟨_, w₈, r₈, h₈⟩ := bind_eq.mp h₇
  obtain ⟨hst, rfl⟩ := pure_eq.mp h₈
  obtain ⟨ok, hok, hw₈⟩ := removeProfilerIfAny_run r₈
  rw [removeEntry_run r₇] at hw₈
  refine ⟨w₄, w₅, w₆, rE, rX, ok, ?_, ?_, r₅, r₆, hok, hw₈, hst.symm⟩
  · rw [hw₄, hw₂]
  · exact bind_eq.mpr ⟨_, _, r₂, bind_eq.mpr ⟨_, _, r₄, rfl⟩⟩

/-- A class is installed again, or not; the instrument in flight stays. -/
theorem restoreClass_leads {c : CStr} {r : Bool × Bool} {Q : List QueuedInstr} {f : Flight}
    {o : Option CStr} {p : Bool} (h : restoreClass env c c w = (r, w'))
    (hpu : o = some c → p = false) :
    ∃ I, V.Leads (w.ledger.amid Q (some f) o p)
        (w'.ledger.amid Q (some { f with installed := I }) o p) ∧
      w'.ledger.entry = w.ledger.entry ∧ w'.ledger.cls = w.ledger.cls ∧
      w'.queuedInstruments = w.queuedInstruments := by
  rcases restoreClass_run h with ⟨-, hw⟩ | ⟨-, ci, kept, hci, hw⟩
  · exact ⟨f.installed, .of_eq (by rw [hw]), by rw [hw], by rw [hw], congrArg Ledger.queue hw⟩
  · refine ⟨c :: f.installed, Leads.snoc (.refl _) (a := .install c ci kept)
      (.plain ⟨hci, hpu⟩ rfl) ?_, by rw [hw]; rfl, by rw [hw]; rfl, congrArg Ledger.queue hw⟩
    rw [hw]
    rfl

theorem deinstrumentReadyLine_leads {id : Nat} {e : MiEntry} {st : DeinstrumentRespStatus}
    (h : deinstrumentReadyLine env e.entryClassName.cstr e.exitClassName.cstr id id w = (st, w'))
    (he : w.entry id = some e) (hready : e.lineIsReady = true)
    (hcE : w.cls e.entryClassName.cstr ≠ none) (hown : V.own → w.takesOwn id e = true)
    (hr : V.removed → RemoveOk env) : V.Leads w.ledger w'.ledger := by
  have hl := MiEntry.lineKeys_of_lineIsReady hready
  obtain ⟨ci, hci⟩ := Option.ne_none_iff_exists'.mp hcE
  obtain ⟨w₁, w₂, w₃, rE, rX, ok, hw₁, -, r₂, r₃, hok, hw', -⟩ :=
    deinstrumentReadyLine_run h he hci
  have hkeys : lineKeys (w.entry id) ≠ [] := by
    rw [he]
    exact hl
  have hmark : ∀ (L : Ledger) c, V.Allows L (.mark c) := fun L c => .plain trivial rfl
  have hleave : V.Leads w.ledger (((w.ledger.modCls e.entryClassName.cstr
      (ciRemoveInstrumentedLine e.entryLineNumber)).mark e.entryClassName.cstr).amid
        w.queuedInstruments (some ⟨id, ciInstrumentedLine ci e.entryLineNumber, .leaving,
          [⟨e.exitClassName.cstr, e.exitLineNumber, .exit⟩], []⟩) none false) := by
    have hfirst := fun hv => (takesOwn_iff.mp (hown hv)).1
    refine ((Leads.snoc (.refl _) (a := .leaveLine id e ci)
      (.owning ⟨rfl, rfl, he, hready, hci⟩ hfirst rfl) rfl).snoc
      (hmark _ e.entryClassName.cstr) rfl).snoc
        (a := .dropLine _ e.entryClassName.cstr e.entryLineNumber)
        (.owning ⟨rfl, (by simp), fun _ => List.mem_cons_self, hkeys⟩ hfirst rfl) ?_
    simp only [apply, lineKeys_eraseP hl]
    rfl
  have hdrop : V.Leads w.ledger (w₁.ledger.amid w.queuedInstruments (some ⟨id,
      ciInstrumentedLine ci e.entryLineNumber, .leaving, [], []⟩) none false) := by
    refine (hleave.snoc (hmark _ e.exitClassName.cstr) rfl).snoc
      (a := .dropLine _ e.exitClassName.cstr e.exitLineNumber)
      (.owning ⟨rfl, (by simp), fun _ => List.mem_cons_self, hkeys⟩
        (fun hv => (takesOwn_iff.mp (hown hv)).2) rfl) ?_
    rw [hw₁]
    simp [apply, amid, Ledger.mark, modCls, withFlight]
  obtain ⟨I, hE, -, -, hqE⟩ := restoreClass_leads (V := V) (Q := w.queuedInstruments) (f := ⟨id,
    ciInstrumentedLine ci e.entryLineNumber, .leaving, [], []⟩) r₂ (fun _ => rfl)
  -- the class of the exit line is restored only when it is another one
  obtain ⟨I', hX, hqX⟩ : ∃ I', V.Leads (w₂.ledger.amid w.queuedInstruments (some ⟨id,
      ciInstrumentedLine ci e.entryLineNumber, .leaving, [], I⟩) none false)
      (w₃.ledger.amid w.queuedInstruments (some ⟨id,
        ciInstrumentedLine ci e.entryLineNumber, .leaving, [], I'⟩) none false) ∧
      w₃.queuedInstruments = w₂.queuedInstruments := by
    split at r₃
    · obtain ⟨I', hX, -, -, hqX⟩ := restoreClass_leads (V := V) (Q := w.queuedInstruments)
        (f := ⟨id, ciInstrumentedLine ci e.entryLineNumber, .leaving, [], I⟩) r₃ (fun _ => rfl)
      exact ⟨I', hX, hqX⟩
    · cases r₃
      exact ⟨I, .refl _, rfl⟩
  have hq₁ : w₁.queuedInstruments = w.queuedInstruments := congrArg Ledger.queue hw₁
  refine ((hdrop.trans hE).trans hX).snoc (a := .abandon _ ok)
    (.abandon ⟨rfl, (by simp), .inl rfl⟩ fun hv => hok (hr hv)) ?_
  rw [hw', ← hq₁, ← hqE, ← hqX]
  rfl

theorem deinstrumentLineById_leads {id : Nat} {e : MiEntry} {st : DeinstrumentRespStatus}
    (h : deinstrumentLineById env id id w = (st, w')) (hI : V.Inv w.ledger)
    (he : w.entry id = some e) (hl : lineKeys (some e) ≠ [])
    (hown : V.own → stepOwn env w (.deinstrumentById id) = true) (hr : V.removed → RemoveOk env) :
    V.Leads w.ledger w'.ledger := by
  obtain ⟨e₁, w₁, r₁, h₁⟩ := bind_eq.mp h
  obtain ⟨rfl, rfl⟩ := deref_run r₁ he
  split at h₁
  · next hready =>
    obtain ⟨iE, w₂, r₂, h₂⟩ := bind_eq.mp h₁
    obtain ⟨rfl, rfl⟩ := read_eq.mp r₂
    obtain ⟨iX, w₃, r₃, h₃⟩ := bind_eq.mp h₂
    obtain ⟨rfl, rfl⟩ := read_eq.mp r₃
    split at h₃
    · next hfound =>
      refine deinstrumentReadyLine_leads h₃ he hready (Option.isSome_iff_ne_none.mp hfound.1)
        (fun hv => ?_) hr
      have hmeets := hown hv
      simp only [stepOwn, he, Option.all_some, hready, hfound.1, hfound.2] at hmeets
      exact hmeets
    · cases h₃
      exact .refl _
  · next hready =>
    refine deinstrumentDeferred_leads h₁ hI he ?_ ?_ hr
    · obtain ⟨c, b⟩ := e₁
      cases b with
      | method => exact absurd rfl hl
      | line => rfl
      | varBind => exact absurd rfl hl
    · rw [isApplied_eq_lineIsReady hl]
      simpa using hready

/-! ## Method instruments -/

theorem takeMethod_run {c s : CStr} {pid : Int} (h : takeMethod c s w = (pid, w')) :
    w'.ledger = (w.ledger.modCls c (ciRemoveInstrumentedBySig s)).mark c ∧
      ∀ ci, w.cls c = some ci → pid = ciInstrumentedBySig ci s := by
  obtain ⟨info, w₁, r₁, h₁⟩ := bind_eq.mp h
  obtain ⟨rfl, rfl⟩ := read_eq.mp r₁
  obtain ⟨_, w₂, r₂, h₂⟩ := bind_eq.mp h₁
  obtain ⟨_, w₃, r₃, h₃⟩ := bind_eq.mp h₂
  obtain ⟨rfl, rfl⟩ := pure_eq.mp h₃
  refine ⟨by rw [markOutdated_run r₃, modifyClass_run r₂], fun ci hci => ?_⟩
  rw [hci]

/-- An applied method has its record in the class of its name. -/
theorem Coherent.find_of_applied {L : Ledger} (h : Coherent L) (hfl : L.flight = none)
    (hpu : L.purging = false) {id : Nat} {e : MiEntry} {c s : CStr} {ci : ClassInfo}
    (he : L.entry id = some e) (hof : e.isMethodOf c s = true) (ha : e.isApplied = true)
    (hci : L.cls c = some ci) :
    ∃ m, ci.instrumented.find? (·.hasSig s) = some m ∧ m.instrumentId = id := by
  have hkeys := h.methods_eq hpu hci id
  rw [methodKeysOf_none hfl, he, appliedKeys_some, if_pos ha, MiEntry.methodKeys_of_isMethodOf hof,
    if_pos rfl, List.map_eq_singleton_iff] at hkeys
  obtain ⟨m, hm, hkey⟩ := hkeys
  obtain ⟨hmem, -⟩ := List.mem_filter.mp (hm ▸ List.mem_singleton_self m : m ∈ _)
  cases hf : ci.instrumented.find? (·.hasSig s) with
  | none => exact absurd (InstrumentedMethod.key_hasSig.mpr hkey) (List.find?_eq_none.mp hf m hmem)
  | some m' =>
    obtain ⟨e', he', hof', -⟩ := h.instrumentId_of_find hpu hci hf
    exact ⟨m', rfl, h.unique _ _ _ _ c s he' he hof' hof⟩

/-- `deinstrument_method_by_id` on an instrument that is applied. Nothing happens when its class
is not loaded, and a record without a profiler ends it early. -/
theorem deinstrumentMethodById_run {id : Nat} {e : MiEntry} {c s : CStr}
    {st : DeinstrumentRespStatus} (h : deinstrumentMethodById env id id w = (st, w'))
    (he : w.entry id = some e) (hof : e.isMethodOf c s = true) (ha : e.isApplied = true) :
    w.cls c = none ∧ st = .fail ∧ w' = w ∨
      ∃ ci w₁, w.cls c = some ci ∧
        w₁.ledger = (w.ledger.modCls c (ciRemoveInstrumentedBySig s)).mark c ∧
        (ciInstrumentedBySig ci s = -1 ∧ st = .fail ∨
          ∃ restored w₂ ok, restoreClass env c c w₁ = (restored, w₂) ∧
            (RemoveOk env → ok = true) ∧
            w'.ledger = (w₂.ledger.setEntry id none).release (ciInstrumentedBySig ci s) ok ∧
            st = if restored.2 then .ok else .fail) := by
  obtain ⟨hm, hc, hs⟩ := methodName_of_isMethodOf hof
  obtain ⟨e₁, w₁, r₁, h₁⟩ := bind_eq.mp h
  obtain ⟨rfl, rfl⟩ := deref_run r₁ he
  obtain ⟨-, n, d, hb, -⟩ := MiEntry.isMethodOf_iff.mp hof
  simp only [hb] at h₁
  cases d with
  | true => simp [MiEntry.isApplied, hb] at ha
  | false =>
    obtain ⟨info, w₂, r₂, h₂⟩ := bind_eq.mp h₁
    obtain ⟨rfl, rfl⟩ := read_eq.mp r₂
    rw [hc] at h₂
    cases hci : w₁.cls c with
    | none =>
      rw [hci] at h₂
      obtain ⟨rfl, rfl⟩ := pure_eq.mp h₂
      exact .inl ⟨rfl, rfl, rfl⟩
    | some ci =>
      simp only [hci] at h₂
      obtain ⟨pid, w₃, r₃, h₃⟩ := bind_eq.mp h₂
      rw [hs] at r₃
      obtain ⟨hw₃, hpid⟩ := takeMethod_run r₃
      obtain rfl := hpid ci hci
      refine .inr ⟨ci, w₃, rfl, hw₃, ?_⟩
      split at h₃
      · next hneg =>
        obtain ⟨rfl, -⟩ := pure_eq.mp h₃
        exact .inl ⟨hneg, rfl⟩
      · obtain ⟨e₄, w₄, r₄, h₄⟩ := bind_eq.mp h₃
        obtain ⟨rfl, rfl⟩ := deref_run r₄ ((congrFun (congrArg Ledger.entry hw₃) id).trans he)
        rw [hc] at h₄
        obtain ⟨restored, w₅, r₅, h₅⟩ := bind_eq.mp h₄
        obtain ⟨_, w₆, r₆, h₆⟩ := bind_eq.mp h₅
        obtain ⟨_, w₇, r₇, h₇⟩ := bind_eq.mp h₆
        obtain ⟨hst, rfl⟩ := pure_eq.mp h₇
        obtain ⟨ok, hok, hw₇⟩ := jniRemoveProfiler_run r₇
        rw [removeEntry_run r₆] at hw₇
        exact .inr ⟨restored, w₅, ok, r₅, hok, hw₇, hst.symm⟩

theorem deinstrumentMethodById_leads {id : Nat} {e : MiEntry} {c s : CStr}
    {st : DeinstrumentRespStatus} (h : deinstrumentMethodById env id id w = (st, w'))
    (hI : V.Inv w.ledger) (he : w.entry id = some e) (hof : e.isMethodOf c s = true)
    (hr : V.removed → RemoveOk env) : V.Leads w.ledger w'.ledger := by
  cases ha : e.isApplied with
  | false =>
    obtain ⟨-, n, d, hb, -⟩ := MiEntry.isMethodOf_iff.mp hof
    obtain rfl : d = true := by simpa [MiEntry.isApplied, hb] using ha
    obtain ⟨e₁, w₁, r₁, h₁⟩ := bind_eq.mp h
    obtain ⟨rfl, rfl⟩ := deref_run r₁ he
    simp only [hb] at h₁
    exact deinstrumentDeferred_leads h₁ hI he (by simp [MiEntry.isUserVisible, hb]) ha hr
  | true =>
    rcases deinstrumentMethodById_run h he hof ha with
      ⟨-, -, rfl⟩ | ⟨ci, w₁, hci, hw₁, hrun⟩
    · exact .refl _
    · obtain ⟨m, hfind, rfl⟩ := hI.coherent.find_of_applied rfl rfl he hof ha hci
      have hpid : ciInstrumentedBySig ci s = m.profilerId := by rw [ciInstrumentedBySig, hfind]
      -- a record never carries -1, so the early return is not taken
      have hnn : 0 ≤ m.profilerId := hI.numbered.records _ _
        (.inr ⟨c, ci, hci, .inl ⟨m, List.mem_of_find?_eq_some hfind, rfl, rfl⟩⟩)
      rcases hrun with ⟨hneg, -⟩ | ⟨restored, w₂, ok, r₂, hok, hw', -⟩
      · omega
      obtain ⟨I, hrestore, -, -, hq₂⟩ := restoreClass_leads (V := V) (Q := w.queuedInstruments)
        (f := ⟨m.instrumentId, m.profilerId, .leaving, [], []⟩) r₂ (fun _ => rfl)
      have hq₁ : w₁.queuedInstruments = w.queuedInstruments := congrArg Ledger.queue hw₁
      have htake : V.Leads w.ledger (w₁.ledger.amid w.queuedInstruments
          (some ⟨m.instrumentId, m.profilerId, .leaving, [], []⟩) none false) := by
        refine Leads.snoc (.refl _) (a := .takeMethod c s m)
          (.plain ⟨rfl, rfl, ci, hci, hfind⟩ rfl) ?_
        rw [hw₁]
        rfl
      refine (htake.trans hrestore).snoc (a := .abandon _ ok)
        (.abandon ⟨rfl, (by simp), .inl rfl⟩ fun hv => hok (hr hv)) ?_
      rw [hw', hpid, ← hq₁, ← hq₂]
      rfl

/-! ## The two requests -/

theorem ihDeinstrumentById_leads {id : Nat} {st : DeinstrumentRespStatus}
    (h : ihDeinstrumentById env id w = (st, w')) (hI : V.Inv w.ledger)
    (hown : V.own → stepOwn env w (.deinstrumentById id) = true) (hr : V.removed → RemoveOk env) :
    V.Leads w.ledger w'.ledger := by
  obtain ⟨found, w₁, r₁, h₁⟩ := bind_eq.mp h
  obtain ⟨rfl, rfl⟩ := findEntry_run r₁
  cases he : w₁.entry id with
  | none =>
    rw [he] at h₁
    cases h₁
    exact .refl _
  | some e =>
    rw [he] at h₁
    obtain ⟨e₂, w₂, r₂, h₂⟩ := bind_eq.mp h₁
    obtain ⟨rfl, rfl⟩ := deref_run r₂ he
    obtain ⟨c, b⟩ := e₂
    cases b with
    | method n d =>
      exact deinstrumentMethodById_leads h₂ hI he (c := c.cstr) (s := n.cstr)
        (by simp [MiEntry.isMethodOf]) hr
    | line x l l' d d' => exact deinstrumentLineById_leads h₂ hI he (List.cons_ne_nil _ _) hown hr
    | varBind n l d =>
      cases h₂
      exact .refl _

theorem ihDeinstrumentMethod_leads {c s : CStr} {st : DeinstrumentRespStatus}
    (h : ihDeinstrumentMethod env c s w = (st, w')) (hI : V.Inv w.ledger)
    (hr : V.removed → RemoveOk env) : V.Leads w.ledger w'.ledger := by
  obtain ⟨found, w₁, r₁, h₁⟩ := bind_eq.mp h
  obtain ⟨rfl, rfl⟩ := read_eq.mp r₁
  rcases miFindMethodByName_cases w.masterInstruments c s with ⟨id, e, hf, he, hof⟩ | ⟨hf, -⟩
  · rw [hf] at h₁
    exact deinstrumentMethodById_leads h₁ hI he hof hr
  · rw [hf] at h₁
    cases h₁
    exact .refl _

end JautoProf
