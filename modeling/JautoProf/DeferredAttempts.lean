import JautoProf.RefinesDeferred

/-!
# The attempts of `do_deferred_instrumentations`

The loop looks for the first record of the class, attempts it and takes it out, until there
is none. `attemptAll` attempts a list of records one after the other.

Results:
1. `doDeferredInstrumentations_eq`: the loop attempts the records of the class in order.
2. `deferred_attempted`: and what it leaves in the queue and in the error log.
   `deferred_unlogged`: an attempt fails and there is no memory for the message.
-/

namespace JautoProf

open Prog

variable {env : Env} {w w' : World}

/-! ## The loop -/

/-- Attempt the records in order, each of which is then taken out of the queue. -/
def attemptAll (env : Env) (c : CStr) : List QueuedInstr → M Unit
  | [] => pure ()
  | q :: qs => do
    doDeferredInstrument env c q
    modifyQueue (·.eraseP (·.hasClass c))
    attemptAll env c qs

/-- With as many rounds as records of the class, the loop attempts each of them. -/
theorem deferredLoop_eq {c : CStr} {n : Nat}
    (h : (w.queuedInstruments.filter (·.hasClass c)).length ≤ n) :
    deferredLoop env c n w = attemptAll env c (w.queuedInstruments.filter (·.hasClass c)) w := by
  induction n generalizing w with
  | zero =>
    rw [List.eq_nil_of_length_eq_zero (Nat.le_zero.mp h)]
    rfl
  | succ n ih =>
    rw [deferredLoop, read_bind]
    cases hidx : queuedInstrListFindByClass w.queuedInstruments c with
    | none =>
      have hnone := Lists.findIdx?_eq_none.mp hidx
      rw [List.filter_eq_nil_iff.mpr (List.find?_eq_none.mp hnone)]
      rfl
    | some idx =>
      have hlt := (List.findIdx?_eq_some_iff_getElem.mp hidx).1
      have hget := List.getElem?_eq_getElem hlt
      generalize w.queuedInstruments[idx] = q at hget
      have hfind := (Lists.getElem?_of_findIdx? hidx).symm.trans hget
      have hfilter := Lists.filter_of_find? hfind
      -- the attempt leaves the queue alone, so the index is still that of the record
      let w₁ := (doDeferredInstrument env c q).final w
      have hqueue : w₁.queuedInstruments = w.queuedInstruments :=
        congrArg Prod.fst (backlog_doDeferredInstrument env c q w)
      have herase : w₁.queuedInstruments.eraseIdx idx = w₁.queuedInstruments.eraseP (·.hasClass c) := by
        rw [hqueue]
        exact Lists.eraseIdx_of_findIdx? hidx
      simp only [hget]
      rw [hfilter]
      show deferredLoop env c n
        { w₁ with queuedInstruments := w₁.queuedInstruments.eraseIdx idx } =
          attemptAll env c ((w.queuedInstruments.eraseP (·.hasClass c)).filter (·.hasClass c))
            { w₁ with queuedInstruments := w₁.queuedInstruments.eraseP (·.hasClass c) }
      rw [herase, hqueue]
      refine ih ?_
      rw [hfilter, List.length_cons] at h
      exact Nat.le_of_succ_le_succ h

/-- The loop attempts the records of the class in the order of the queue, each once. -/
theorem doDeferredInstrumentations_eq (env : Env) (c : CStr) (w : World) :
    doDeferredInstrumentations env c w =
      attemptAll env c (w.queuedInstruments.filter (·.hasClass c)) w :=
  deferredLoop_eq (List.length_filter_le _ _)

/-! ## What an attempt logs -/

/-- The attempt at a line instrument whose classes are both found. -/
def lineAttempt (env : Env) (ciEntry ciExit : CStr) (instrumentId : Nat) (profilerId : Int) :
    M Bool := do
  let populated ← populateClassInfoLine env ciEntry ciExit instrumentId profilerId instrumentId
  if populated then performInstrumentationLine env ciEntry ciExit instrumentId profilerId instrumentId
  else pure false

/-- The line instrument is ready, and a class of it is missing or the attempt at it fails. -/
def lineFails (env : Env) (w : World) (e : MiEntry) (instrumentId : Nat) (profilerId : Int) : Bool :=
  let found := (w.cls e.entryClassName.cstr).isSome && (w.cls e.exitClassName.cstr).isSome
  let attempt := lineAttempt env e.entryClassName.cstr e.exitClassName.cstr instrumentId profilerId
  e.lineIsReady && !(found && attempt.result w)

/-- The attempt at a record fails. The half of a line instrument whose other half is still
deferred is only noted, and a variable binding is ignored. -/
def attemptFails (env : Env) (c : CStr) (q : QueuedInstr) (w : World) : Bool :=
  match q.body with
  | .method _ => decide ((instrumentNow env c q.instrumentId q.profilerId).result w ≠ .ok)
  | .lineEnter _ | .lineExit _ =>
    let w₁ := (modifyEntry q.instrumentId q.markHalf).final w
    (w₁.entry q.instrumentId).any fun e => lineFails env w₁ e q.instrumentId q.profilerId
  | .varBind .. => false

/-- What an attempt appends to the log: for one that fails an entry, whose message is the last
thing that the attempt allocates. -/
structure Logs (env : Env) (fails : Bool) (w w' : World) (es : List ProfErrEntry) : Prop where
  log : w'.errLog = es.foldl profErrLogPush w.errLog
  one : es.length = if fails ∧ env.alloc (w'.allocs - 1) then 1 else 0

/-- The log and the number of allocations. -/
def World.messages (w : World) : List ProfErrEntry × Nat := (w.errLog, w.allocs)

theorem messages_jniRemoveProfiler (pid : Int) :
    Keeps World.messages (jniRemoveProfiler env pid) := by
  refine Keeps.bind (fun _ => rfl) fun ok => ?_
  cases ok
  · exact Keeps.pure ()
  · exact fun _ => rfl

theorem messages_drop (id : Nat) (pid : Int) :
    Keeps World.messages (jniRemoveProfiler env pid >>= fun _ => removeEntry id) :=
  Keeps.bind (messages_jniRemoveProfiler pid) fun _ _ => rfl

/-- An attempt that logs nothing. -/
theorem logs_none (h : w'.errLog = w.errLog) : Logs env false w w' [] := ⟨h, by simp⟩

theorem Logs.from {fails : Bool} {w₁ : World} {es : List ProfErrEntry} (h : Logs env fails w₁ w' es)
    (hlog : w₁.errLog = w.errLog) : Logs env fails w w' es :=
  ⟨by rw [h.log, hlog], h.one⟩

theorem Logs.to {fails : Bool} {w₁ : World} {es : List ProfErrEntry} (h : Logs env fails w w₁ es)
    (hkeep : w'.messages = w₁.messages) : Logs env fails w w' es := by
  obtain ⟨hlog, hallocs⟩ := Prod.mk.inj hkeep
  exact ⟨hlog.trans h.log, by rw [hallocs, h.one]⟩

theorem logs_printf {text : List UInt8} {u : Unit} (h : profErrLogPrintf env text w = (u, w')) :
    ∃ es, Logs env true w w' es := by
  obtain ⟨ok, w₁, h₁, h₂⟩ := bind_eq.mp h
  cases h₁
  cases hok : env.alloc w.allocs with
  | false =>
    rw [hok] at h₂
    cases h₂
    exact ⟨[], rfl, by simp [hok]⟩
  | true =>
    rw [hok] at h₂
    cases h₂
    exact ⟨[_], rfl, by simp [hok]⟩

theorem logs_reportFailure {id : Nat} {text : List UInt8} {u : Unit}
    (h : reportFailure env id text w = (u, w')) : ∃ es, Logs env true w w' es := by
  obtain ⟨_, w₁, h₁, h₂⟩ := bind_eq.mp h
  obtain ⟨es, hes⟩ := logs_printf h₁
  exact ⟨es, hes.to (by rw [← update_eq.mp h₂]; rfl)⟩

theorem logs_reportLineFailure {id : Nat} {u : Unit} (h : reportLineFailure env id w = (u, w')) :
    ∃ es, Logs env true w w' es := by
  obtain ⟨_, w₁, h₁, h⟩ := bind_eq.mp h
  obtain ⟨_, w₂, h₂, h⟩ := bind_eq.mp h
  obtain ⟨es, hes⟩ := logs_reportFailure h
  have hlog₁ := congrArg Prod.snd ((quiet_deref env id).run h₁)
  have hlog₂ := congrArg Prod.snd ((quiet_deref env id).run h₂)
  exact ⟨es, hes.from (hlog₂.trans hlog₁)⟩

theorem logs_applyDeferredLine {cE cX : CStr} {id : Nat} {pid : Int} {u : Unit}
    (h : applyDeferredLine env cE cX id pid w = (u, w')) :
    ∃ es, Logs env (!(lineAttempt env cE cX id pid).result w) w w' es := by
  obtain ⟨populated, w₁, h₁, h⟩ := bind_eq.mp h
  have hlog₁ := congrArg Prod.snd ((quiet_populateClassInfoLine env cE cX id pid).run h₁)
  cases populated with
  | true =>
    rw [if_pos rfl] at h
    obtain ⟨ret, w₂, h₂, h⟩ := bind_eq.mp h
    have hlog₂ := congrArg Prod.snd ((quiet_performInstrumentationLine env cE cX id pid).run h₂)
    have hret : (lineAttempt env cE cX id pid).result w = ret :=
      congrArg Prod.fst (bind_eq.mpr ⟨true, w₁, h₁, h₂⟩ : lineAttempt env cE cX id pid w = (ret, w₂))
    rw [hret]
    cases ret with
    | true =>
      cases h
      exact ⟨[], logs_none (hlog₂.trans hlog₁)⟩
    | false =>
      obtain ⟨es, hes⟩ := logs_reportLineFailure h
      exact ⟨es, hes.from (hlog₂.trans hlog₁)⟩
  | false =>
    rw [if_neg Bool.false_ne_true] at h
    have hret : (lineAttempt env cE cX id pid).result w = false :=
      congrArg Prod.fst
        (bind_eq.mpr ⟨false, w₁, h₁, rfl⟩ : lineAttempt env cE cX id pid w = (false, w₁))
    rw [hret]
    obtain ⟨_, w₂, h₂, h⟩ := bind_eq.mp h
    obtain ⟨es, hes⟩ := logs_reportLineFailure h₂
    exact ⟨es, (hes.from hlog₁).to ((messages_drop id pid).run h)⟩

theorem logs_doDeferredLine {q : QueuedInstr} {enter : Bool} {u u' : Unit} {w₁ : World}
    (h : doDeferredLineInstrumentation env q enter w = (u, w'))
    (hhalf : (if enter then modifyEntry q.instrumentId .lineEntryApplied
      else modifyEntry q.instrumentId .lineExitApplied) = modifyEntry q.instrumentId q.markHalf)
    (hw₁ : modifyEntry q.instrumentId q.markHalf w = (u', w₁)) :
    ∃ es, Logs env ((w₁.entry q.instrumentId).any fun e =>
      lineFails env w₁ e q.instrumentId q.profilerId) w w' es := by
  obtain ⟨_, w₂, h₁, h₅⟩ := bind_eq.mp h
  rw [hhalf, hw₁] at h₁
  cases h₁
  have hlog₁ : w₁.errLog = w.errLog := by
    rw [← update_eq.mp hw₁]
  obtain ⟨found, w₃, h₂, h₆⟩ := bind_eq.mp h₅
  obtain ⟨rfl, rfl⟩ := findEntry_run h₂
  cases he : w₃.entry q.instrumentId with
  | none =>
    rw [he] at h₆
    cases h₆
    exact ⟨[], logs_none hlog₁⟩
  | some e =>
    rw [he] at h₆
    obtain ⟨e', w₄, h₃, h₇⟩ := bind_eq.mp h₆
    obtain ⟨rfl, rfl⟩ := deref_run h₃ he
    rw [Option.any_some]
    unfold lineFails
    cases hready : e'.lineIsReady with
    | false =>
      -- the other half is still deferred, and nothing is attempted
      rw [if_neg (by simp [hready])] at h₇
      cases h₇
      exact ⟨[], logs_none hlog₁⟩
    | true =>
      rw [if_pos hready, read_bind, read_bind] at h₇
      split at h₇
      · next hfound =>
        obtain ⟨es, hes⟩ := logs_applyDeferredLine h₇
        exact ⟨es, by simpa [hfound.1, hfound.2] using hes.from hlog₁⟩
      · next hmissing =>
        -- a class is missing: one message, and the instrument is given up
        have hfound : ((w₄.cls e'.entryClassName.cstr).isSome &&
            (w₄.cls e'.exitClassName.cstr).isSome) = false := by
          simpa using hmissing
        obtain ⟨_, w₅, h₄, h₈⟩ := bind_eq.mp h₇
        obtain ⟨es, hes⟩ := logs_printf h₄
        refine ⟨es, ?_⟩
        rw [hfound]
        exact (hes.from hlog₁).to ((messages_drop q.instrumentId q.profilerId).run h₈)

/-- An attempt that fails logs one message, and the others log none. -/
theorem logs_doDeferredInstrument {c : CStr} {q : QueuedInstr} {u : Unit}
    (h : doDeferredInstrument env c q w = (u, w')) :
    ∃ es, Logs env (attemptFails env c q w) w w' es := by
  obtain ⟨i, p, cn, body⟩ := q
  cases body with
  | method sig =>
    obtain ⟨status, w₁, h₁, h⟩ := bind_eq.mp h
    have hlog₁ := congrArg Prod.snd ((quiet_instrumentNow env c i p).run h₁)
    have hstatus : (instrumentNow env c i p).result w = status := congrArg Prod.fst h₁
    show ∃ es, Logs env (decide ((instrumentNow env c i p).result w ≠ .ok)) w w' es
    rw [hstatus]
    by_cases hok : status = .ok
    · rw [if_pos hok] at h
      cases h
      exact ⟨[], by simpa [hok] using logs_none hlog₁⟩
    · rw [if_neg hok] at h
      obtain ⟨es, hes⟩ := logs_reportFailure h
      exact ⟨es, by simpa [hok] using hes.from hlog₁⟩
  | lineEnter l => exact logs_doDeferredLine h rfl rfl
  | lineExit l => exact logs_doDeferredLine h rfl rfl
  | varBind n l =>
    cases h
    exact ⟨[], logs_none rfl⟩

/-! ## The run -/

/-- The attempts at records of a class one after the other, with what each appends to the log.
An attempt's record is then the first of its class in the queue, and is taken out. -/
inductive Attempts (env : Env) (c : CStr) :
    World → List (QueuedInstr × List ProfErrEntry) → World → Prop
  | nil (w : World) : Attempts env c w [] w
  | cons {w w₁ w' : World} {q : QueuedInstr} {es : List ProfErrEntry}
      {rows : List (QueuedInstr × List ProfErrEntry)}
      (hrun : doDeferredInstrument env c q w = ((), w₁))
      (hlogs : Logs env (attemptFails env c q w) w w₁ es)
      (hrest : Attempts env c { w₁ with queuedInstruments := w.queuedInstruments.eraseP (·.hasClass c) }
        rows w') :
    Attempts env c w ((q, es) :: rows) w'

theorem attemptAll_attempts (env : Env) (c : CStr) (w : World) {qs : List QueuedInstr}
    (h : w.queuedInstruments.filter (·.hasClass c) = qs) :
    ((attemptAll env c qs).final w).queuedInstruments =
        w.queuedInstruments.filter (!·.hasClass c) ∧
      ∃ rows, rows.map Prod.fst = qs ∧ Attempts env c w rows ((attemptAll env c qs).final w) := by
  induction qs generalizing w with
  | nil =>
    have hall : ∀ q ∈ w.queuedInstruments, (!q.hasClass c) = true := by
      simpa using List.filter_eq_nil_iff.mp h
    exact ⟨(List.filter_eq_self.mpr hall).symm, [], rfl, .nil w⟩
  | cons q qs ih =>
    have hfind : w.queuedInstruments.find? (·.hasClass c) = some q := by
      rw [← List.head?_filter, h]
      rfl
    have hrest : (w.queuedInstruments.eraseP (·.hasClass c)).filter (·.hasClass c) = qs :=
      (List.cons.inj ((Lists.filter_of_find? hfind).symm.trans h)).2
    let w₁ := (doDeferredInstrument env c q).final w
    have hqueue : w₁.queuedInstruments = w.queuedInstruments :=
      congrArg Prod.fst (backlog_doDeferredInstrument env c q w)
    have hfinal : (attemptAll env c (q :: qs)).final w = (attemptAll env c qs).final
        { w₁ with queuedInstruments := w.queuedInstruments.eraseP (·.hasClass c) } := by
      rw [← hqueue]
      rfl
    obtain ⟨es, hes⟩ := logs_doDeferredInstrument (rfl : doDeferredInstrument env c q w = ((), w₁))
    obtain ⟨hleft, rows, hrows, hattempts⟩ :=
      ih { w₁ with queuedInstruments := w.queuedInstruments.eraseP (·.hasClass c) } hrest
    rw [hfinal]
    refine ⟨?_, (q, es) :: rows, by rw [List.map_cons, hrows], .cons rfl hes hattempts⟩
    rw [hleft]
    exact Lists.filter_eraseP_of_disjoint fun a ha => by simp [ha]

/-- For every queue and class name, from any state and whatever the calls it makes answer:
the loop attempts each record of the class once, in the order of the queue, and the records of
the other classes are left in order. Each attempt that fails appends one entry to the error
log, where there is memory for its message, and the others append none. -/
theorem deferred_attempted (env : Env) (c : CStr) (w : World) :
    ((doDeferredInstrumentations env c).final w).queuedInstruments =
        w.queuedInstruments.filter (!·.hasClass c) ∧
      ∃ rows, rows.map Prod.fst = w.queuedInstruments.filter (·.hasClass c) ∧
        Attempts env c w rows ((doDeferredInstrumentations env c).final w) := by
  have heq : (doDeferredInstrumentations env c).final w =
      (attemptAll env c (w.queuedInstruments.filter (·.hasClass c))).final w :=
    congrArg Prod.snd (doDeferredInstrumentations_eq env c w)
  rw [heq]
  exact attemptAll_attempts env c w rfl

/-- There is no memory. -/
def Env.exhausted : Env := { Env.smooth with alloc := fun _ => false }

/-- The class `A` is loaded, and its method `B` is deferred. -/
def deferredMethodWorld : World :=
  { ihCtxInit with
    loadedClasses := ciListAdd (.init classTabOpts) (ciAlloc classA [] [classB] none) true true
    masterInstruments := miInsert miAlloc ⟨classA, .method classB true⟩ true true
    queuedInstruments := [⟨1, 0, some classA, .method (some classB)⟩] }

/-- Without memory the attempt fails, and there is no message about it. -/
theorem deferred_unlogged :
    deferredMethodWorld.queuedInstruments = [⟨1, 0, some classA, .method (some classB)⟩] ∧
      attemptFails .exhausted classA.cstr ⟨1, 0, some classA, .method (some classB)⟩
        deferredMethodWorld = true ∧
      deferredMethodWorld.errLog = [] ∧
      ((doDeferredInstrumentations .exhausted classA.cstr).final deferredMethodWorld).errLog = [] :=
  ⟨rfl, by decide, rfl, by decide⟩

end JautoProf
