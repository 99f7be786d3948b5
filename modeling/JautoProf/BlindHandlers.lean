import JautoProf.Blind

/-!
# The handlers do not see the hidden entries

A handler that is given an id which is not hidden works with this id, and with the ids in
the records of the queue and of the classes, which are not hidden either.

Results:
1. `blind_instrumentAdded`, `blind_ihInstrumentLine`: the requests for an instrument.
2. `blind_deinstrumentMethodById`, `blind_deinstrumentLineById`: the removals.
3. `blind_handleClassLoaded`: a class load.
-/

namespace JautoProf

open Prog

variable {hid : Nat → Option MiEntry} (env : Env)

/-! ## An attempt to apply an instrument -/

section

variable {id : Nat} (h : hid id = none)

include h

theorem blind_populateClassInfo (c : CStr) (pid : Int) :
    Blind hid (populateClassInfo env c id pid id) := by
  refine (blind_deref env h).bind fun e => (blind_malloc env).bind fun _ => .ite ?_ (.pure false)
  refine (blind_newPstring env _).bind fun sig =>
    (blind_modifyClass c fun _ hci => hci.addMethod h).bind fun _ => ?_
  cases sig with
  | some _ => exact .pure true
  | none =>
    have hdrop : ∀ ci : ClassInfo, ci.Avoids hid → (ciDropInstrumentedMethod ci).Avoids hid :=
      fun ci hci => hci.of_subset (List.dropLast_subset ci.instrumented) fun _ h => h
    exact (blind_modifyClass c hdrop).bind fun _ => .pure false

theorem blind_populateClassInfoLine (cE cX : CStr) (pid : Int) :
    Blind hid (populateClassInfoLine env cE cX id pid id) := by
  refine (blind_deref env h).bind fun e => (blind_malloc env).bind fun _ => .ite ?_ (.pure false)
  refine (blind_modifyClass cE fun _ hci => hci.addLine h).bind fun _ =>
    (blind_deref env h).bind fun e => (blind_malloc env).bind fun _ => .ite ?_ ?_
  · exact (blind_modifyClass cX fun _ hci => hci.addLine h).bind fun _ => .pure true
  · exact (blind_deref env h).bind fun e => (blind_dropLine cE _).bind fun _ => .pure false

theorem blind_performInstrumentation (c : CStr) (pid : Int) :
    Blind hid (performInstrumentation env c id pid id) := by
  refine (blind_deref env h).bind fun e => (blind_doInstrumentation env c).bind fun bc => ?_
  cases bc with
  | none => exact .pure false
  | some bc =>
    refine (blind_classLoader c).bind fun _ => (blind_retransformPending env c _ _ bc pid).bind fun _ =>
      .ite ?_ (.pure false)
    exact (blind_deref env h).bind fun e =>
      (Blind.ite (blind_modifyEntry h _) (.pure ())).bind fun _ => .pure true

theorem blind_undoLine (cE cX : CStr) (pid : Int) : Blind hid (undoLine env cE cX id pid id) :=
  (blind_deref env h).bind fun _ => (blind_dropLine cE _).bind fun _ =>
    (blind_deref env h).bind fun _ => (blind_dropLine cX _).bind fun _ =>
      (blind_jniRemoveProfiler env pid).bind fun _ => blind_removeEntry h

theorem blind_performInstrumentationLine (cE cX : CStr) (pid : Int) :
    Blind hid (performInstrumentationLine env cE cX id pid id) := by
  refine (blind_performInstrumentation env h cE pid).bind fun _ =>
    (Blind.ite (blind_performInstrumentation env h cX pid) (.pure _)).bind fun _ => .ite ?_ ?_
  · exact (blind_modifyEntry h _).bind fun _ => (blind_modifyEntry h _).bind fun _ => .pure true
  · exact (Blind.ite (blind_markOutdated cE) (.pure ())).bind fun _ =>
      (blind_undoLine env h cE cX pid).bind fun _ => .pure false

theorem blind_instrumentNow (c : CStr) (pid : Int) : Blind hid (instrumentNow env c id pid) := by
  refine (blind_populateClassInfo env h c pid).bind fun _ => .ite ?_ ?_
  · refine (blind_performInstrumentation env h c pid).bind fun _ => .ite (.pure _) ?_
    refine Blind.bind ?_ fun _ => (blind_jniRemoveProfiler env pid).bind fun _ => .pure _
    exact (blind_deref env h).bind fun _ => (blind_dropMethod c _).bind fun _ => blind_removeEntry h
  · exact (blind_jniRemoveProfiler env pid).bind fun _ => (blind_removeEntry h).bind fun _ => .pure _

theorem blind_instrumentLineNow (cE cX : CStr) (pid : Int) :
    Blind hid (instrumentLineNow env cE cX id pid id) := by
  refine (blind_populateClassInfoLine env h cE cX pid).bind fun _ => .ite ?_ ?_
  · exact (blind_performInstrumentationLine env h cE cX pid).bind fun _ => .pure _
  · exact (blind_jniRemoveProfiler env pid).bind fun _ => (blind_removeEntry h).bind fun _ => .pure _

/-! ## The requests for an instrument -/

theorem blind_instrumentLater (c s : CStr) (pid : Int) :
    Blind hid (instrumentLater env c s id pid) := by
  have hundo : Blind hid (do
      modifyQueue fun queue => queuedInstrListRemoveAndDestroy queue (queue.length - 1)
      removeEntry id
      pure InstrumentRespStatus.error : M InstrumentRespStatus) :=
    (blind_eraseQueue fun queue => queue.length - 1).bind fun _ => (blind_removeEntry h).bind fun _ =>
      .pure _
  refine Blind.bind ?_ fun qi => ?_
  · refine (blind_malloc env).bind fun _ => .ite ?_ (.pure none)
    exact (blind_newPstring env c).bind fun _ => (blind_newPstring env s).bind fun _ =>
      (blind_appendQueue h).bind fun _ => .pure _
  · split
    · exact .pure _
    · exact hundo
    · exact (blind_removeEntry h).bind fun _ => .pure _

theorem blind_instrumentAdded (c s : CStr) : Blind hid (instrumentAdded env c s id id) := by
  refine Blind.bind ?_ fun pid => .ite ?_ ?_
  · exact (blind_deref env h).bind fun _ => (blind_deref env h).bind fun _ => blind_jniCreate env _ _
  · exact (blind_removeEntry h).bind fun _ => .pure _
  · refine (blind_cls c).bind fun info => ?_
    cases info with
    | none =>
      exact (blind_instrumentLater env h c s pid).bind fun _ =>
        (Blind.ite (blind_jniRemoveProfiler env pid) (.pure ())).bind fun _ => .pure _
    | some ci => exact blind_instrumentNow env h c pid

theorem blind_queueHalf (queue : Bool) (c : CStr) (pid : Int) (body : QiBody) (f : MiEntry → MiEntry) :
    Blind hid (queueHalf env queue c pid id body f) := by
  refine .ite ?_ ?_
  · refine Blind.bind ?_ fun _ => .pure _
    refine (blind_malloc env).bind fun _ => .ite ?_ (.pure none)
    exact (blind_newPstring env c).bind fun _ => (blind_appendQueue h).bind fun _ => .pure _
  · exact (blind_modifyEntry h f).bind fun _ => .pure true

theorem blind_instrumentLaterLine (pid : Int) (entryLoaded exitLoaded : Bool) :
    Blind hid (instrumentLaterLine env id pid id entryLoaded exitLoaded) := by
  refine (blind_deref env h).bind fun e => (blind_queueHalf env h _ _ _ _ _).bind fun _ =>
    (blind_deref env h).bind fun e => Blind.bind (.ite (blind_queueHalf env h _ _ _ _ _) (.pure false))
      fun _ => .ite (.pure _) ?_
  exact (blind_takeQueue id).bind fun _ => (blind_removeEntry h).bind fun _ => .pure _

theorem blind_instrumentLineCreated (cE cX : CStr) (pid : Int) :
    Blind hid (instrumentLineCreated env cE cX id pid id) := by
  refine (blind_cls cE).bind fun _ => (blind_cls cX).bind fun _ => .ite ?_ ?_
  · exact blind_instrumentLineNow env h cE cX pid
  · exact (blind_instrumentLaterLine env h pid _ _).bind fun _ =>
      (Blind.ite (blind_jniRemoveProfiler env pid) (.pure ())).bind fun _ => .pure _

/-! ## The removals -/

theorem blind_deinstrumentDeferred : Blind hid (deinstrumentDeferred env id) :=
  (blind_takeQueuedInstrById id).bind fun _ => (blind_removeProfilerIfAny env _).bind fun _ =>
    (blind_removeEntry h).bind fun _ => .pure _

theorem blind_deinstrumentReadyLine (cE cX : CStr) :
    Blind hid (deinstrumentReadyLine env cE cX id id) := by
  refine (blind_deref env h).bind fun _ => (blind_takeLine cE _).bind fun _ =>
    (blind_deref env h).bind fun _ => (blind_takeLine cX _).bind fun _ =>
      (blind_restoreClass env cE cE).bind fun _ =>
        (Blind.ite (blind_restoreClass env cX cX) (.pure _)).bind fun _ => ?_
  exact (blind_removeEntry h).bind fun _ => (blind_removeProfilerIfAny env _).bind fun _ => .pure _

theorem blind_deinstrumentLineById : Blind hid (deinstrumentLineById env id id) := by
  refine (blind_deref env h).bind fun e => .ite ?_ (blind_deinstrumentDeferred env h)
  exact (blind_cls _).bind fun _ => (blind_cls _).bind fun _ =>
    .ite (blind_deinstrumentReadyLine env h _ _) (.pure _)

theorem blind_deinstrumentMethodById : Blind hid (deinstrumentMethodById env id id) := by
  refine (blind_deref env h).bind fun e => ?_
  split
  · exact blind_deinstrumentDeferred env h
  · refine (blind_cls _).bind fun info => ?_
    cases info with
    | none => exact .pure _
    | some ci =>
      refine (blind_takeMethod _ _).bind fun pid => .ite (.pure _) ?_
      exact (blind_deref env h).bind fun _ => (blind_restoreClass env _ _).bind fun _ =>
        (blind_removeEntry h).bind fun _ => (blind_jniRemoveProfiler env pid).bind fun _ => .pure _

/-! ## Deferred instruments -/

theorem blind_reportLineFailure : Blind hid (reportLineFailure env id) :=
  (blind_deref env h).bind fun _ => (blind_deref env h).bind fun _ => blind_reportFailure env _ _

theorem blind_applyDeferredLine (cE cX : CStr) (pid : Int) :
    Blind hid (applyDeferredLine env cE cX id pid) := by
  refine (blind_populateClassInfoLine env h cE cX pid).bind fun _ => .ite ?_ ?_
  · exact (blind_performInstrumentationLine env h cE cX pid).bind fun _ =>
      .ite (.pure ()) (blind_reportLineFailure env h)
  · exact (blind_reportLineFailure env h).bind fun _ => (blind_jniRemoveProfiler env pid).bind fun _ =>
      blind_removeEntry h

end

theorem blind_ihInstrumentLine (hgrow : ∀ n, env.tabAlloc n = true) (c x : Pstring) (l l' : UInt32) :
    Blind hid (ihInstrumentLine env c x l l') := by
  refine (blind_miAddLinep env hgrow c x l l').bind_of (MiVal.Free hid)
    (fun s _ hR => hR.free ((miAddLinep_run rfl).imp_right fun h => ⟨_, h⟩)) ?_
  rintro miv ⟨hptr, hfree⟩
  rw [hptr]
  refine .ite (.pure _) ((blind_jniCreate env _ _).bind fun pid => .ite ?_ ?_)
  · exact (blind_removeEntry hfree).bind fun _ => .pure _
  · exact (blind_instrumentLineCreated env hfree _ _ pid).bind fun _ => .pure _

theorem findEntry_result {id : Nat} (w : World) (p : MiPtr)
    (hp : (findEntry id).result w = some p) : p = id := by
  simp only [findEntry, result_read] at hp
  split at hp
  · exact (Option.some_inj.mp hp).symm
  · cases hp

theorem blind_doDeferredLineInstrumentation {q : QueuedInstr} (h : hid q.instrumentId = none)
    (enter : Bool) : Blind hid (doDeferredLineInstrumentation env q enter) := by
  refine (Blind.ite (blind_modifyEntry h _) (blind_modifyEntry h _)).bind fun _ =>
    (blind_findEntry h).bind_of (fun found => ∀ p, found = some p → p = q.instrumentId)
      (fun s _ _ => findEntry_result s) ?_
  rintro (_ | p) hp
  · exact .pure ()
  · obtain rfl := hp p rfl
    refine (blind_deref env h).bind fun e => .ite ?_ (.pure ())
    refine (blind_cls _).bind fun _ => (blind_cls _).bind fun _ => .ite ?_ ?_
    · exact blind_applyDeferredLine env h _ _ _
    · exact (blind_profErrLogPrintf env _).bind fun _ => (blind_jniRemoveProfiler env _).bind fun _ =>
        blind_removeEntry h

theorem blind_doDeferredInstrument (c : CStr) {q : QueuedInstr} (h : hid q.instrumentId = none) :
    Blind hid (doDeferredInstrument env c q) := by
  unfold doDeferredInstrument
  cases q.body with
  | method sig =>
    exact (blind_instrumentNow env h c _).bind fun _ => .ite (.pure ()) (blind_reportFailure env _ _)
  | lineEnter l => exact blind_doDeferredLineInstrumentation env h true
  | lineExit l => exact blind_doDeferredLineInstrumentation env h false
  | varBind n l => exact .pure ()

/-- The ids in the queue are not hidden, so by induction on the rounds the loop is blind. -/
theorem blind_deferredLoop (c : CStr) : ∀ rounds, Blind hid (deferredLoop env c rounds)
  | 0 => .pure ()
  | rounds + 1 => by
    refine (blind_read fun _ _ => rfl).bind_of (fun queue : List QueuedInstr =>
      ∀ q ∈ queue, hid q.instrumentId = none) (fun s _ hR => hR.queue) fun queue hqueue => ?_
    cases queuedInstrListFindByClass queue c with
    | none => exact .pure ()
    | some idx =>
      simp only
      cases hq : queue[idx]? with
      | none => exact .pure ()
      | some q =>
        refine Blind.bind ?_ fun _ => blind_deferredLoop c rounds
        exact (blind_doDeferredInstrument env c (hqueue q (List.mem_of_getElem? hq))).bind fun _ =>
          blind_eraseQueue fun _ => idx

theorem blind_doDeferredInstrumentations (c : CStr) : Blind hid (doDeferredInstrumentations env c) :=
  (blind_read fun _ _ => rfl).bind fun _ => blind_deferredLoop env c _

/-! ## Reapplying -/

theorem blind_cleanupDangling {id : Nat} (h : hid id = none) (type : InstrumentType) :
    Blind hid (cleanupDangling env id type) := by
  refine (blind_deref env h).bind fun e => ?_
  cases type with
  | enter =>
    refine (blind_cls _).bind fun info => ?_
    cases info with
    | none => exact .pure ()
    | some ci =>
      exact (blind_takeLine _ _).bind fun _ => (blind_restoreClass env _ _).bind fun _ => .pure ()
  | exit =>
    refine (blind_cls _).bind fun info => ?_
    cases info with
    | none => exact .pure ()
    | some ci =>
      exact (blind_takeLine _ _).bind fun _ => (blind_restoreClass env _ _).bind fun _ => .pure ()

theorem blind_cleanupFailedLine {r : InstrumentedLine} (h : hid r.instrumentId = none) :
    Blind hid (cleanupFailedLine env r) := by
  refine (blind_findEntry h).bind_of (fun found => ∀ p, found = some p → p = r.instrumentId)
    (fun s _ _ => findEntry_result s) fun found hfound => Blind.bind ?_ fun _ =>
      Blind.bind (.ite (blind_cleanupDangling env h _) (.pure ())) fun _ => .ite ?_ (.pure ())
  · cases found with
    | none => exact .pure false
    | some p => exact (blind_deref env (hfound p rfl ▸ h)).bind fun _ => .pure _
  · exact (blind_removeEntry h).bind fun _ => blind_jniRemoveProfiler env _

theorem blind_removeMethods : ∀ ms : List InstrumentedMethod,
    (∀ m ∈ ms, hid m.instrumentId = none) → Blind hid (removeMethods env ms)
  | [], _ => .pure ()
  | m :: ms, h =>
    (blind_removeEntry (h m List.mem_cons_self)).bind fun _ =>
      (blind_jniRemoveProfiler env _).bind fun _ =>
        blind_removeMethods ms fun m' hm' => h m' (List.mem_cons_of_mem m hm')

/-- What is read of a class carries no hidden id. -/
theorem blind_records (c : CStr) {β : Type} {f : Option ClassInfo → M β}
    (hf : ∀ info, (∀ ci, info = some ci → ci.Avoids hid) → Blind hid (f info)) :
    Blind hid (Prog.read (·.cls c) >>= f) :=
  (blind_cls c).bind_of _ (fun _ _ hR ci hci => hR.records c ci hci) hf

theorem blind_cleanupLinesFrom (c : CStr) : ∀ rounds i, Blind hid (cleanupLinesFrom env c rounds i)
  | 0, _ => .pure ()
  | rounds + 1, i => by
    refine blind_records c fun info hinfo => ?_
    cases hr : (info.map ClassInfo.lines).bind (·[i]?) with
    | none => exact .pure ()
    | some r =>
      have hfree : hid r.instrumentId = none := by
        obtain ⟨lines, hl, hget⟩ := Option.bind_eq_some_iff.mp hr
        obtain ⟨ci, rfl, rfl⟩ := Option.map_eq_some_iff.mp hl
        exact (hinfo ci rfl).2 r (List.mem_of_getElem? hget)
      exact (blind_cleanupFailedLine env hfree).bind fun _ => blind_cleanupLinesFrom c rounds (i + 1)

theorem blind_reapplyFailed (c : CStr) : Blind hid (reapplyFailed env c) := by
  refine (blind_profErrLogPrintf env _).bind fun _ => blind_records c fun info hinfo =>
    Blind.bind (blind_removeMethods env _ fun m hm => ?_) fun _ => (blind_cls c).bind fun _ =>
      (blind_cleanupLinesFrom env c _ _).bind fun _ => ?_
  · cases info with
    | none => cases hm
    | some ci => exact (hinfo ci rfl).1 m hm
  · exact blind_modifyClass c fun _ h => h.of_subset (List.nil_subset _) (List.nil_subset _)

theorem blind_ihReapplyInstruments (c : CStr) : Blind hid (ihReapplyInstruments env c) := by
  refine (blind_cls c).bind fun info => ?_
  cases info with
  | none => exact .pure ()
  | some ci =>
    exact .ite (.pure ()) ((blind_restoreClass env c c).bind fun _ =>
      .ite (.pure ()) (blind_reapplyFailed env c))

/-! ## The class load -/

theorem blind_classAllocated {ci : ClassInfo} (h : ci.Avoids hid) :
    Blind hid (classAllocated env ci) := by
  refine (blind_addClass env ci h).bind fun _ => .ite (.pure ()) ?_
  exact (Blind.ite (blind_ihReapplyInstruments env _) (.pure ())).bind fun _ =>
    blind_doDeferredInstrumentations env _

theorem avoids_allocClassInfo {name : CStr} {bytecode : List UInt8} {loader : Option Nat} (w : World)
    (ci : ClassInfo) (h : (allocClassInfo env name bytecode loader).result w = some ci) :
    ci.Avoids hid := by
  obtain ⟨r, w', hr⟩ : ∃ r w', allocClassInfo env name bytecode loader w = (r, w') := ⟨_, _, rfl⟩
  rw [result, hr] at h
  obtain ⟨-, -, hm, hl⟩ := (allocClassInfo_run hr).2 ci h
  exact ⟨fun m h' => absurd (hm ▸ h') List.not_mem_nil, fun r h' => absurd (hl ▸ h') List.not_mem_nil⟩

theorem blind_handleClassLoaded (name : CStr) (bytecode : List UInt8) (loader : Option Nat) :
    Blind hid (handleClassLoaded env name bytecode loader) := by
  refine Blind.bind (blind_of_frame (fun _ _ => rfl) (fun _ => rfl) fun _ => rfl) fun _ =>
    (blind_allocClassInfo env name bytecode loader).bind_of (fun r => ∀ ci, r = some ci → ci.Avoids hid)
      (fun s _ _ => avoids_allocClassInfo env s) fun ci hci => ?_
  cases ci with
  | none => exact .pure ()
  | some ci => exact blind_classAllocated env (hci ci rfl)

end JautoProf
