import JautoProf.RefinesAttempt

/-!
# The loop over the deferred instruments

A round of `do_deferred_instrumentations` takes the first record of the loaded class out of
the queue, and applies the instrument it stands for or notes that one half of it is.

Results:
1. `deferredRound_leads`: what one round does, seen as acts.
2. `doDeferredInstrumentations_leads`: after the loop nothing waits for the class.
-/

namespace JautoProf

open Prog Ledger Act Vouch

variable {env : Env} {V : Vouch} {w w' : World}

/-! ## The attempts leave the queue alone -/

/-- The queue and the next id. -/
def World.backlog (w : World) : List QueuedInstr × Nat :=
  (w.queuedInstruments, w.masterInstruments.nextId)

/-- The queue, the next id and the error log. -/
def World.quiet (w : World) : (List QueuedInstr × Nat) × List ProfErrEntry := (w.backlog, w.errLog)

section

variable (env)

/-! What does not log an error leaves the log alone as well. -/

theorem quiet_deref (p : MiPtr) : Keeps World.quiet (deref env p) := by
  intro w
  unfold final deref
  split <;> rfl

theorem quiet_newPstring (s : CStr) : Keeps World.quiet (newPstring env s) :=
  fun _ => rfl

theorem quiet_jniRemoveProfiler (pid : Int) :
    Keeps World.quiet (jniRemoveProfiler env pid) := by
  refine Keeps.bind (fun _ => rfl) fun ok => ?_
  cases ok
  · exact Keeps.pure ()
  · exact fun _ => rfl

theorem quiet_doInstrumentation (c : CStr) :
    Keeps World.quiet (doInstrumentation env c) := by
  refine Keeps.bind (Keeps.read _) fun info => ?_
  cases info with
  | none => exact Keeps.pure none
  | some ci =>
    refine Keeps.bind (fun _ => rfl) fun _ => Keeps.ite ?_ (Keeps.pure none)
    exact Keeps.ite (Keeps.bind (fun _ => rfl) fun _ => Keeps.pure _)
      (Keeps.bind (fun _ => rfl) fun _ => Keeps.pure _)

theorem quiet_psHandleRetransform (c : CStr) :
    Keeps World.quiet (psHandleRetransform env c) :=
  Keeps.bind (Keeps.read _) fun _ =>
    Keeps.ite (Keeps.bind (fun _ => rfl) fun _ => Keeps.pure _) (Keeps.pure none)

theorem quiet_retransformPending (c : CStr) (loader : Option Nat) (sig : Option CStr)
    (bc : Bytecode) (pid : Int) :
    Keeps World.quiet (retransformPending env c loader sig bc pid) := by
  refine Keeps.bind (fun _ => rfl) fun _ => Keeps.bind ?_ fun _ =>
    Keeps.bind (fun _ => rfl) fun _ => Keeps.pure _
  refine Keeps.bind (Keeps.read _) fun target => ?_
  cases target with
  | none => exact Keeps.pure false
  | some i =>
    exact Keeps.bind (Keeps.read _) fun _ => Keeps.bind (fun _ => rfl) fun _ => Keeps.ite
      (Keeps.bind (quiet_psHandleRetransform env c) fun _ =>
        Keeps.bind (fun _ => rfl) fun _ => Keeps.pure true) (Keeps.pure false)

theorem quiet_performInstrumentation (c : CStr) (id : Nat) (pid : Int) :
    Keeps World.quiet (performInstrumentation env c id pid id) := by
  refine Keeps.bind (quiet_deref env id) fun e => Keeps.bind (quiet_doInstrumentation env c) ?_
  rintro (_ | bc)
  · exact Keeps.pure false
  · refine Keeps.bind (Keeps.read _) fun _ =>
      Keeps.bind (quiet_retransformPending env _ _ _ _ _) fun _ => Keeps.ite ?_ (Keeps.pure false)
    exact Keeps.bind (quiet_deref env id) fun _ => Keeps.bind
      (Keeps.ite (fun _ => rfl) (Keeps.pure ())) fun _ => Keeps.pure true

theorem quiet_populateClassInfo (c : CStr) (id : Nat) (pid : Int) :
    Keeps World.quiet (populateClassInfo env c id pid id) := by
  refine Keeps.bind (quiet_deref env id) fun e => Keeps.bind (fun _ => rfl) fun _ =>
    Keeps.ite ?_ (Keeps.pure false)
  refine Keeps.bind (quiet_newPstring env _) fun sig => Keeps.bind (fun _ => rfl) fun _ => ?_
  cases sig with
  | none => exact Keeps.bind (fun _ => rfl) fun _ => Keeps.pure false
  | some _ => exact Keeps.pure true

theorem quiet_instrumentNow (c : CStr) (id : Nat) (pid : Int) :
    Keeps World.quiet (instrumentNow env c id pid) := by
  refine Keeps.bind (quiet_populateClassInfo env c id pid) fun _ => Keeps.ite ?_ ?_
  · refine Keeps.bind (quiet_performInstrumentation env c id pid) fun _ =>
      Keeps.ite (Keeps.pure _) ?_
    exact Keeps.bind (Keeps.bind (quiet_deref env id) fun _ => Keeps.bind (fun _ => rfl) fun _ =>
      (fun _ => rfl)) fun _ => Keeps.bind (quiet_jniRemoveProfiler env pid) fun _ => Keeps.pure _
  · exact Keeps.bind (quiet_jniRemoveProfiler env pid) fun _ => Keeps.bind (fun _ => rfl) fun _ =>
      Keeps.pure _

theorem quiet_populateClassInfoLine (cE cX : CStr) (id : Nat) (pid : Int) :
    Keeps World.quiet (populateClassInfoLine env cE cX id pid id) := by
  refine Keeps.bind (quiet_deref env id) fun _ => Keeps.bind (fun _ => rfl) fun _ =>
    Keeps.ite ?_ (Keeps.pure false)
  refine Keeps.bind (fun _ => rfl) fun _ => Keeps.bind (quiet_deref env id) fun _ =>
    Keeps.bind (fun _ => rfl) fun _ => Keeps.ite ?_ ?_
  · exact Keeps.bind (fun _ => rfl) fun _ => Keeps.pure true
  · exact Keeps.bind (quiet_deref env id) fun _ => Keeps.bind (fun _ => rfl) fun _ => Keeps.pure false

theorem quiet_performInstrumentationLine (cE cX : CStr) (id : Nat) (pid : Int) :
    Keeps World.quiet (performInstrumentationLine env cE cX id pid id) := by
  refine Keeps.bind (quiet_performInstrumentation env cE id pid) fun _ => Keeps.bind
    (Keeps.ite (quiet_performInstrumentation env cX id pid) (Keeps.pure _)) fun _ => Keeps.ite ?_ ?_
  · exact Keeps.bind (fun _ => rfl) fun _ => Keeps.bind (fun _ => rfl) fun _ => Keeps.pure true
  · refine Keeps.bind (Keeps.ite (fun _ => rfl) (Keeps.pure ())) fun _ => Keeps.bind ?_ fun _ =>
      Keeps.pure false
    exact Keeps.bind (quiet_deref env id) fun _ => Keeps.bind (fun _ => rfl) fun _ =>
      Keeps.bind (quiet_deref env id) fun _ => Keeps.bind (fun _ => rfl) fun _ =>
        Keeps.bind (quiet_jniRemoveProfiler env pid) fun _ _ => rfl

theorem backlog_jniRemoveProfiler (pid : Int) :
    Keeps World.backlog (jniRemoveProfiler env pid) :=
  (quiet_jniRemoveProfiler env pid).comp Prod.fst

theorem backlog_instrumentNow (c : CStr) (id : Nat) (pid : Int) :
    Keeps World.backlog (instrumentNow env c id pid) :=
  (quiet_instrumentNow env c id pid).comp Prod.fst

theorem backlog_populateClassInfoLine (cE cX : CStr) (id : Nat) (pid : Int) :
    Keeps World.backlog (populateClassInfoLine env cE cX id pid id) :=
  (quiet_populateClassInfoLine env cE cX id pid).comp Prod.fst

theorem backlog_performInstrumentationLine (cE cX : CStr) (id : Nat) (pid : Int) :
    Keeps World.backlog (performInstrumentationLine env cE cX id pid id) :=
  (quiet_performInstrumentationLine env cE cX id pid).comp Prod.fst

theorem backlog_deref (p : MiPtr) : Keeps World.backlog (deref env p) :=
  (quiet_deref env p).comp Prod.fst

theorem backlog_profErrLogPrintf (text : List UInt8) :
    Keeps World.backlog (profErrLogPrintf env text) := by
  refine Keeps.bind (fun _ => rfl) fun ok => ?_
  cases pstringVsprintf text ok with
  | none => exact Keeps.pure ()
  | some _ => exact fun _ => rfl

theorem backlog_reportFailure (id : Nat) (text : List UInt8) :
    Keeps World.backlog (reportFailure env id text) :=
  Keeps.bind (backlog_profErrLogPrintf env text) fun _ _ => rfl

theorem backlog_reportLineFailure (id : Nat) :
    Keeps World.backlog (reportLineFailure env id) :=
  Keeps.bind (backlog_deref env id) fun _ => Keeps.bind (backlog_deref env id) fun _ =>
    backlog_reportFailure env _ _

theorem backlog_applyDeferredLine (cE cX : CStr) (id : Nat) (pid : Int) :
    Keeps World.backlog (applyDeferredLine env cE cX id pid) := by
  refine Keeps.bind (backlog_populateClassInfoLine env cE cX id pid) fun _ => Keeps.ite ?_ ?_
  · exact Keeps.bind (backlog_performInstrumentationLine env cE cX id pid) fun _ =>
      Keeps.ite (Keeps.pure ()) (backlog_reportLineFailure env id)
  · exact Keeps.bind (backlog_reportLineFailure env id) fun _ =>
      Keeps.bind (backlog_jniRemoveProfiler env pid) fun _ _ => rfl

theorem backlog_doDeferredInstrument (ci : CStr) (q : QueuedInstr) :
    Keeps World.backlog (doDeferredInstrument env ci q) := by
  have hline : ∀ enter, Keeps World.backlog (doDeferredLineInstrumentation env q enter) := by
    intro enter
    refine Keeps.bind (Keeps.ite (fun _ => rfl) fun _ => rfl) fun _ => Keeps.bind (Keeps.read _) ?_
    rintro (_ | entry)
    · exact Keeps.pure ()
    · refine Keeps.bind (backlog_deref env entry) fun _ => Keeps.ite ?_ (Keeps.pure ())
      refine Keeps.bind (Keeps.read _) fun _ => Keeps.bind (Keeps.read _) fun _ => Keeps.ite ?_ ?_
      · exact backlog_applyDeferredLine env _ _ _ _
      · exact Keeps.bind (backlog_profErrLogPrintf env _) fun _ =>
          Keeps.bind (backlog_jniRemoveProfiler env _) fun _ _ => rfl
  unfold doDeferredInstrument
  cases q.body with
  | method sig =>
    exact Keeps.bind (backlog_instrumentNow env ci q.instrumentId q.profilerId) fun _ =>
      Keeps.ite (Keeps.pure ()) (backlog_reportFailure env _ _)
  | lineEnter l => exact hline true
  | lineExit l => exact hline false
  | varBind n l => exact Keeps.pure ()

end

/-! ## One round -/

theorem isApplied_eq_lineIsReady {e : MiEntry} (h : lineKeys (some e) ≠ []) :
    e.isApplied = e.lineIsReady := by
  obtain ⟨c, b⟩ := e
  cases b with
  | method => exact absurd rfl h
  | line => rfl
  | varBind => exact absurd rfl h

/-- What the record of a line instrument stands for is a line instrument. -/
theorem lineKeys_of_queueKeys {q : QueuedInstr} {e : MiEntry} (h : q.key ∈ queueKeys (some e))
    (hline : q.isLine = true) : lineKeys (some e) ≠ [] := by
  obtain ⟨c, b⟩ := e
  obtain ⟨i, p, cn, qb⟩ := q
  cases b with
  | line => exact List.cons_ne_nil _ _
  | method n d => cases d <;> cases qb <;> simp_all [queueKeys, QueuedInstr.key, QueuedInstr.isLine]
  | varBind => cases h

/-- What the record of a method instrument stands for is that method. -/
theorem isMethodOf_of_queueKeys {i : Nat} {p : Int} {cn sig : Option Pstring} {e : MiEntry} {c : CStr}
    (h : QueuedInstr.key ⟨i, p, cn, .method sig⟩ ∈ queueKeys (some e))
    (hc : QueuedInstr.hasClass c ⟨i, p, cn, .method sig⟩ = true) :
    e.isMethodOf c (cstrOf sig) = true ∧ e.failureText = deferredMethodText c (cstrOf sig) := by
  obtain ⟨c', b⟩ := e
  have hcn : cn.map Pstring.cstr = some c := by simpa [QueuedInstr.hasClass] using hc
  cases b with
  | varBind => cases h
  | line x l l' d d' =>
    simp only [queueKeys, QueuedInstr.key, List.mem_append] at h
    rcases h with h | h <;> split at h <;> simp at h
  | method n d =>
    cases d with
    | false => cases h
    | true =>
      simp only [queueKeys, QueuedInstr.key, List.mem_singleton, QueueKey.mk.injEq, hcn,
        Option.some.injEq, QueueKind.method.injEq] at h
      obtain ⟨hcc, hs⟩ := h
      obtain ⟨s, rfl, hsn⟩ := Option.map_eq_some_iff.mp hs
      simp [MiEntry.isMethodOf, MiEntry.failureText, cstrOf, ← hcc, hsn]

theorem roundMeets_cases {attempt : World → MiEntry → Nat → Int → Bool} {q : QueuedInstr}
    {w₁ : World} {u : Unit} {e : MiEntry} (h : roundMeets attempt w q = true)
    (r : modifyEntry q.instrumentId q.markHalf w = (u, w₁)) (hline : q.isLine = true)
    (he : w₁.entry q.instrumentId = some e) (hready : e.lineIsReady = true) :
    attempt w₁ e q.instrumentId q.profilerId = true := by
  simp only [roundMeets, final, r] at h
  simpa [hline, he, hready] using h

/-- A deferred half: with it the instrument is ready, or waits for the other half. -/
theorem doDeferredLine_leads {c : CStr} {q : QueuedInstr} {enter : Bool} {u : Unit} {e : MiEntry}
    (h : doDeferredLineInstrumentation env q enter w = (u, w'))
    (hhalf : (if enter then modifyEntry q.instrumentId .lineEntryApplied
      else modifyEntry q.instrumentId .lineExitApplied) = modifyEntry q.instrumentId q.markHalf)
    (hq : w.queuedInstruments.find? (·.hasClass c) = some q) (he : w.entry q.instrumentId = some e)
    (hl : lineKeys (some e) ≠ []) (hline : q.isLine = true)
    (hown : V.own → roundMeets (attemptOwn env) w q = true)
    (hlive : V.live → roundMeets (attemptLive env) w q = true) (hr : V.removed → RemoveOk env) :
    V.Leads (w.ledger.amid w.queuedInstruments none (some c) false)
      (w'.ledger.amid (w.queuedInstruments.eraseP (·.hasClass c)) none (some c) false) := by
  obtain ⟨_, w₁, r₁, h₁⟩ := bind_eq.mp h
  rw [hhalf] at r₁
  have hw₁ := modifyEntry_run r₁
  have he₁ : w₁.entry q.instrumentId = some (q.markHalf e) := by
    rw [show w₁.entry = _ from congrArg Ledger.entry hw₁, modEntry_entry, if_pos rfl]
    exact congrArg _ he
  have hl₁ : lineKeys (some (q.markHalf e)) ≠ [] := by
    rw [MiEntry.lineKeys_markHalf]
    exact hl
  obtain ⟨found, w₂, r₂, h₂⟩ := bind_eq.mp h₁
  obtain ⟨rfl, rfl⟩ := findEntry_run r₂
  rw [if_pos (by rw [he₁]; rfl)] at h₂
  obtain ⟨e₃, w₃, r₃, h₃⟩ := bind_eq.mp h₂
  obtain ⟨rfl, rfl⟩ := deref_run r₃ he₁
  cases hready : (q.markHalf e).lineIsReady with
  | false =>
    rw [if_neg (by simp [hready])] at h₃
    cases h₃
    -- the other half waits for its class
    refine Leads.snoc (.refl _) (a := .markHalf c q)
      (.plain ⟨rfl, rfl, rfl, hq, hline, e, he, ?_⟩ rfl) ?_
    · rw [isApplied_eq_lineIsReady hl₁, hready]
    · rw [hw₁]
      rfl
  | true =>
    rw [if_pos hready] at h₃
    -- both halves are there, and the attempt at the instrument begins
    have hdeq : V.Leads (w.ledger.amid w.queuedInstruments none (some c) false)
        (w₃.ledger.amid (w.queuedInstruments.eraseP (·.hasClass c))
          (some (enteringFlight q.instrumentId q.profilerId)) (some c) false) := by
      refine Leads.snoc (.refl _) (a := .dequeue c q)
        (.plain ⟨rfl, rfl, rfl, hq, e, he, fun _ => ?_⟩ rfl) ?_
      · exact MiEntry.isApplied_of_lineIsReady hready
      · rw [hw₁]
        rfl
    refine hdeq.trans ?_
    obtain ⟨iE, w₄, r₄, h₄⟩ := bind_eq.mp h₃
    obtain ⟨rfl, rfl⟩ := read_eq.mp r₄
    obtain ⟨iX, w₅, r₅, h₅⟩ := bind_eq.mp h₄
    obtain ⟨rfl, rfl⟩ := read_eq.mp r₅
    split at h₅
    · next hfound =>
      exact applyDeferredLine_leads h₅ he₁ hl₁ (Option.isSome_iff_ne_none.mp hfound.1)
        (Option.isSome_iff_ne_none.mp hfound.2)
        (fun hv => roundMeets_cases (hown hv) r₁ hline he₁ hready)
        (fun hv => roundMeets_cases (hlive hv) r₁ hline he₁ hready) hr
    · obtain ⟨_, w₆, r₆, h₆⟩ := bind_eq.mp h₅
      obtain ⟨_, w₇, r₇, r₈⟩ := bind_eq.mp h₆
      obtain ⟨ok, hok, hw₇⟩ := jniRemoveProfiler_run r₇
      have hw' := removeEntry_run r₈
      rw [hw₇, profErrLogPrintf_run r₆] at hw'
      rw [hw']
      exact (givesUp_now (V := V) (f := enteringFlight q.instrumentId q.profilerId) rfl he₁ rfl
        (fun _ => hl₁) fun hv => hok (hr hv)).leads

/-- One round of the loop, seen as acts. -/
theorem deferredRound_leads {c : CStr} {idx : Nat} {q : QueuedInstr} {u : Unit}
    (h : deferredRound env c idx q w = (u, w'))
    (hidx : queuedInstrListFindByClass w.queuedInstruments c = some idx)
    (hget : w.queuedInstruments[idx]? = some q)
    (hI : V.Inv (w.ledger.amid w.queuedInstruments none (some c) false)) (hcls : w.cls c ≠ none)
    (hown : V.own → roundMeets (attemptOwn env) w q = true)
    (hlive : V.live → roundMeets (attemptLive env) w q = true) (hr : V.removed → RemoveOk env) :
    V.Leads (w.ledger.amid w.queuedInstruments none (some c) false)
        (w'.ledger.amid w'.queuedInstruments none (some c) false) ∧
      w'.queuedInstruments = w.queuedInstruments.eraseIdx idx := by
  obtain ⟨_, w₁, r₁, r₂⟩ := bind_eq.mp h
  have hw' := modifyQueue_run r₂
  have hq₁ : w₁.queuedInstruments = w.queuedInstruments :=
    congrArg Prod.fst ((backlog_doDeferredInstrument env c q).run r₁)
  have hqueue : w'.queuedInstruments = w.queuedInstruments.eraseIdx idx := by
    rw [show w'.queuedInstruments = _ from congrArg Ledger.queue hw', hq₁]
    rfl
  refine ⟨?_, hqueue⟩
  have hfind : w.queuedInstruments.find? (·.hasClass c) = some q :=
    (Lists.getElem?_of_findIdx? hidx).symm.trans hget
  have hmem := List.mem_of_find?_eq_some hfind
  have hhas := List.find?_some hfind
  have herase : w.queuedInstruments.eraseIdx idx = w.queuedInstruments.eraseP (·.hasClass c) :=
    Lists.eraseIdx_of_findIdx? hidx
  -- the record leaves the queue after the attempt; for the acts it left before
  have hamid : w'.ledger.amid w'.queuedInstruments none (some c) false =
      w₁.ledger.amid (w.queuedInstruments.eraseP (·.hasClass c)) none (some c) false := by
    rw [hqueue, herase, hw']
    rfl
  rw [hamid]
  obtain ⟨e, he, hkey⟩ := hI.coherent.entry_of_queued rfl hmem
  obtain ⟨i, p, cn, body⟩ := q
  cases body with
  | method sig =>
    obtain ⟨hof, htext⟩ := isMethodOf_of_queueKeys hkey hhas
    obtain ⟨st, w₂, r₃, h₃⟩ := bind_eq.mp r₁
    have hdeq : V.Leads (w.ledger.amid w.queuedInstruments none (some c) false)
        (w.ledger.amid (w.queuedInstruments.eraseP (·.hasClass c)) (some (enteringFlight i p))
          (some c) false) := by
      refine Leads.snoc (.refl _) (a := .dequeue c _)
        (.plain ⟨rfl, rfl, rfl, hfind, e, he, nofun⟩ rfl) ?_
      show (w.ledger.amid (w.queuedInstruments.eraseP (·.hasClass c)) (some (enteringFlight i p))
        (some c) false).modEntry i _ = _
      exact modEntry_of_fixed fun _ _ => rfl
    refine hdeq.trans ?_
    rcases instrumentNow_leads (V := V) r₃ he hof hcls hr with ⟨rfl, hset⟩ | ⟨rfl, hgive⟩
    · cases h₃
      exact hset
    · have hw₁ := reportFailure_run h₃
      rw [← htext] at hw₁
      rw [hw₁]
      exact hgive.report nofun
  | lineEnter l =>
    exact doDeferredLine_leads r₁ rfl hfind he (lineKeys_of_queueKeys hkey rfl) rfl hown hlive hr
  | lineExit l =>
    exact doDeferredLine_leads r₁ rfl hfind he (lineKeys_of_queueKeys hkey rfl) rfl hown hlive hr
  | varBind n l =>
    obtain ⟨c', b⟩ := e
    cases b with
    | method n d => cases d <;> simp [queueKeys, QueuedInstr.key] at hkey
    | line x lE lX d d' => cases d <;> cases d' <;> simp [queueKeys, QueuedInstr.key] at hkey
    | varBind => cases hkey

/-! ## The loop -/

theorem deferredMeets_cons {attempt : World → MiEntry → Nat → Int → Bool} {c : CStr} {n idx : Nat}
    {q : QueuedInstr} {w₁ : World} {u : Unit} (h : deferredMeets env attempt c (n + 1) w = true)
    (hidx : queuedInstrListFindByClass w.queuedInstruments c = some idx)
    (hget : w.queuedInstruments[idx]? = some q) (r : deferredRound env c idx q w = (u, w₁)) :
    roundMeets attempt w q = true ∧ deferredMeets env attempt c n w₁ = true := by
  simp only [deferredMeets, hidx, hget, final, r] at h
  simpa using h

theorem deferredLoop_leads {c : CStr} {n : Nat} {u : Unit} (h : deferredLoop env c n w = (u, w'))
    (hlen : w.queuedInstruments.length ≤ n)
    (hI : V.Inv (w.ledger.amid w.queuedInstruments none (some c) false)) (hcls : w.cls c ≠ none)
    (hown : V.own → deferredMeets env (attemptOwn env) c n w = true)
    (hlive : V.live → deferredMeets env (attemptLive env) c n w = true)
    (hr : V.removed → RemoveOk env) :
    V.Leads (w.ledger.amid w.queuedInstruments none (some c) false)
        (w'.ledger.amid w'.queuedInstruments none (some c) false) ∧
      ∀ q ∈ w'.queuedInstruments, q.hasClass c = false := by
  induction n generalizing w with
  | zero =>
    cases h
    exact ⟨.refl _, by simp [List.eq_nil_of_length_eq_zero (Nat.le_zero.mp hlen)]⟩
  | succ n ih =>
    obtain ⟨queue, w₁, r₁, h₁⟩ := bind_eq.mp h
    obtain ⟨rfl, rfl⟩ := read_eq.mp r₁
    cases hidx : queuedInstrListFindByClass w.queuedInstruments c with
    | none =>
      rw [hidx] at h₁
      cases h₁
      refine ⟨.refl _, fun q hq => ?_⟩
      simpa using List.find?_eq_none.mp (Lists.findIdx?_eq_none.mp hidx) q hq
    | some idx =>
      simp only [hidx] at h₁
      have hlt := (List.findIdx?_eq_some_iff_getElem.mp hidx).1
      rw [List.getElem?_eq_getElem hlt] at h₁
      obtain ⟨_, w₂, r₂, h₂⟩ := bind_eq.mp h₁
      have hget := List.getElem?_eq_getElem hlt
      obtain ⟨hround, hqueue⟩ := deferredRound_leads r₂ hidx hget hI hcls
        (fun hv => (deferredMeets_cons (hown hv) hidx hget r₂).1)
        (fun hv => (deferredMeets_cons (hlive hv) hidx hget r₂).1) hr
      obtain ⟨hrest, hnone⟩ := ih h₂ (by rw [hqueue, List.length_eraseIdx_of_lt hlt]; omega)
        (hI.leads hround) (hround.cls hcls)
        (fun hv => (deferredMeets_cons (hown hv) hidx hget r₂).2)
        (fun hv => (deferredMeets_cons (hlive hv) hidx hget r₂).2)
      exact ⟨hround.trans hrest, hnone⟩

/-- The deferred instruments of the class are applied, and the load is over. -/
theorem doDeferredInstrumentations_leads {c : CStr} {u : Unit}
    (h : doDeferredInstrumentations env c w = (u, w'))
    (hI : V.Inv (w.ledger.amid w.queuedInstruments none (some c) false)) (hcls : w.cls c ≠ none)
    (hown : V.own → deferredMeets env (attemptOwn env) c w.queuedInstruments.length w = true)
    (hlive : V.live → deferredMeets env (attemptLive env) c w.queuedInstruments.length w = true)
    (hr : V.removed → RemoveOk env) :
    V.Leads (w.ledger.amid w.queuedInstruments none (some c) false) w'.ledger := by
  obtain ⟨queue, w₁, r₁, h₁⟩ := bind_eq.mp h
  obtain ⟨rfl, rfl⟩ := read_eq.mp r₁
  obtain ⟨hloop, hnone⟩ := deferredLoop_leads h₁ (Nat.le_refl _) hI hcls hown hlive hr
  refine hloop.snoc (a := .settled) (.plain ⟨rfl, rfl, fun q hq c' hc' hlo => ?_⟩ rfl) rfl
  cases hlo
  rw [hnone q hq] at hc'
  cases hc'

end JautoProf
