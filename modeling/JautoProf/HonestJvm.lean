import JautoProf.RefinesAttempt

/-!
# An attempt in a JVM that keeps its word

With enough memory and a JVM that installs the records of a class exactly when the class has
every method they name, the outcome of `instrument_now` is decided by the class file.

Results:
1. `performInstrumentation_honest`: a class is installed when it has its listed methods.
2. `instrumentNow_honest`: the attempt at a method adds its record, or undoes what it did.
-/

namespace JautoProf

open Prog Ledger

/-- Profilers can be created, and a class takes the records in its list when it has every
method they name; `has` looks the method up in the class file. -/
structure Env.Honest (env : Env) (has : List UInt8 → CStr → Bool) : Prop where
  create : ∀ n id, env.jvm n (.createProfiler id) = true
  install : ∀ n ci, ci.lines = [] → ci.instrumented ≠ [] →
    (env.jvm n (.transform ci.bytecode ci.instrumented ci.lines) &&
      env.jvm (n + 1)
        (.retransform ci.name.cstr ci.loader (some ⟨ci.bytecode, instrumentCalls ci⟩))) =
    ci.instrumented.all fun m => m.methodSig.any fun s => has ci.bytecode s.cstr

/-- There is memory, and profilers can be removed. -/
structure Env.Ample (env : Env) : Prop where
  alloc : ∀ n, env.alloc n = true
  tabAlloc : ∀ n, env.tabAlloc n = true
  remove : RemoveOk env

/-- A JVM that looks the methods up in the class file. -/
def Env.installing (has : List UInt8 → CStr → Bool) : Env :=
  { Env.smooth with
    jvm := fun _ c => match c with
      | .transform data instrumented _ =>
        instrumented.all fun m => m.methodSig.any fun s => has data s.cstr
      | _ => true }

theorem installing_honest (has : List UInt8 → CStr → Bool) : (Env.installing has).Honest has :=
  ⟨fun _ _ => rfl, fun _ _ _ _ => Bool.and_true _⟩

theorem installing_ample (has : List UInt8 → CStr → Bool) : (Env.installing has).Ample :=
  ⟨fun _ => rfl, fun _ => rfl, fun _ _ => rfl⟩

variable {env : Env} {has : List UInt8 → CStr → Bool} {w w' : World}

/-! ## With enough memory -/

theorem Pstring.cstr_length (p : Pstring) : p.cstr.val.length ≤ pstrMax :=
  (List.takeWhile_sublist _).length_le.trans p.size_le

theorem newPstring_ample (hA : env.Ample) {s : CStr} {p : Option Pstring}
    (h : newPstring env s w = (p, w')) (hs : s.val.length ≤ pstrMax) :
    p.isSome = true := by
  obtain ⟨ok, w₁, r₁, h₁⟩ := bind_eq.mp h
  obtain ⟨rfl, rfl⟩ := pure_eq.mp h₁
  obtain rfl : env.alloc w.allocs = ok := congrArg Prod.fst r₁
  rw [pstringFromCstr, dif_pos hs, if_pos (hA.alloc _)]
  rfl

theorem populateClassInfo_ample (hA : env.Ample) {c : CStr} {id iid : Nat} {pid : Int} {b : Bool}
    {e : MiEntry} (h : populateClassInfo env c id pid iid w = (b, w')) (he : w.entry id = some e) :
    b = true := by
  obtain ⟨e', w₁, r₁, h₁⟩ := bind_eq.mp h
  obtain ⟨rfl, rfl⟩ := deref_run r₁ he
  obtain ⟨grown, w₂, r₂, h₂⟩ := bind_eq.mp h₁
  obtain rfl : env.alloc w₁.allocs = grown := congrArg Prod.fst r₂
  rw [if_pos (hA.alloc _)] at h₂
  obtain ⟨sig, w₃, r₃, h₃⟩ := bind_eq.mp h₂
  obtain ⟨_, w₄, r₄, h₄⟩ := bind_eq.mp h₃
  obtain ⟨sig, rfl⟩ := Option.isSome_iff_exists.mp (newPstring_ample hA r₃ e'.methodName.cstr_length)
  exact ((pure_eq.mp h₄).1).symm

theorem insertEntry_ample (hA : env.Ample) {e : MiEntry} {v : MiVal}
    (h : insertEntry env e w = (v, w')) : Inserted w w' v e := by
  rcases insertEntry_run h with ⟨hv, -⟩ | hi
  · obtain ⟨keyOk, w₁, r₁, h₁⟩ := bind_eq.mp h
    obtain ⟨tabOk, w₂, r₂, h₂⟩ := bind_eq.mp h₁
    obtain rfl : env.alloc w.allocs = keyOk := congrArg Prod.fst r₁
    obtain rfl : env.tabAlloc w₁.tabAllocs = tabOk := congrArg Prod.fst r₂
    have hval : miInsertVal w₂.masterInstruments e (env.alloc w.allocs)
        (env.tabAlloc w₁.tabAllocs) = v := congrArg Prod.fst h₂
    rw [hA.alloc, hA.tabAlloc, miInsertVal_ok, hv] at hval
    exact absurd (congrArg MiVal.entry hval) nofun
  · exact hi

theorem miAddMethod_ample (hA : env.Ample) {c m : CStr} {v : MiVal}
    (h : miAddMethod env c m w = (v, w')) (hc : c.val.length ≤ pstrMax) (hm : m.val.length ≤ pstrMax) :
    ∃ c' m', c'.cstr = c ∧ m'.cstr = m ∧ Inserted w w' v ⟨c', .method m' true⟩ := by
  obtain ⟨ok, w₁, r₁, h₁⟩ := bind_eq.mp h
  obtain rfl : env.alloc w.allocs = ok := congrArg Prod.fst r₁
  rw [if_pos (hA.alloc _)] at h₁
  obtain ⟨c', w₂, r₂, h₂⟩ := bind_eq.mp h₁
  obtain ⟨m', w₃, r₃, h₃⟩ := bind_eq.mp h₂
  obtain ⟨c', rfl⟩ := Option.isSome_iff_exists.mp (newPstring_ample hA r₂ hc)
  obtain ⟨m', rfl⟩ := Option.isSome_iff_exists.mp (newPstring_ample hA r₃ hm)
  have hw₃ := (newPstring_run r₃).1.trans ((newPstring_run r₂).1.trans (malloc_run r₁))
  exact ⟨c', m', (newPstring_run r₂).2 c' rfl, (newPstring_run r₃).2 m' rfl,
    (insertEntry_ample hA h₃).of_ledger hw₃⟩

theorem miAddMethod_long {c m : CStr} {v : MiVal} (h : miAddMethod env c m w = (v, w'))
    (hlong : ¬ (c.val.length ≤ pstrMax ∧ m.val.length ≤ pstrMax)) : NotInserted w w' v := by
  rcases miAddMethod_run h with hn | ⟨c', m', rfl, rfl, -⟩
  · exact hn
  · exact absurd ⟨c'.cstr_length, m'.cstr_length⟩ hlong

theorem queuedInstrMethodAdd_ample (hA : env.Ample) {c s : CStr} {pid : Int} {id : Nat}
    {r : Option QueuedInstr} (h : queuedInstrMethodAdd env c s pid id w = (r, w'))
    (hc : c.val.length ≤ pstrMax) (hs : s.val.length ≤ pstrMax) :
    ∃ c' s', c'.cstr = c ∧ s'.cstr = s ∧ r = some ⟨id, pid, some c', .method (some s')⟩ ∧
      w'.ledger = { w.ledger with
        queue := w.queuedInstruments ++ [⟨id, pid, some c', .method (some s')⟩] } := by
  obtain ⟨grown, w₁, r₁, h₁⟩ := bind_eq.mp h
  obtain rfl : env.alloc w.allocs = grown := congrArg Prod.fst r₁
  rw [if_pos (hA.alloc _)] at h₁
  obtain ⟨c', w₂, r₂, h₂⟩ := bind_eq.mp h₁
  obtain ⟨s', w₃, r₃, h₃⟩ := bind_eq.mp h₂
  obtain ⟨_, w₄, r₄, h₄⟩ := bind_eq.mp h₃
  obtain ⟨rfl, rfl⟩ := pure_eq.mp h₄
  obtain ⟨c', rfl⟩ := Option.isSome_iff_exists.mp (newPstring_ample hA r₂ hc)
  obtain ⟨s', rfl⟩ := Option.isSome_iff_exists.mp (newPstring_ample hA r₃ hs)
  have hw₃ := (newPstring_run r₃).1.trans ((newPstring_run r₂).1.trans (malloc_run r₁))
  refine ⟨c', s', (newPstring_run r₂).2 c' rfl, (newPstring_run r₃).2 s' rfl, rfl, ?_⟩
  rw [modifyQueue_run r₄, hw₃, show w₃.queuedInstruments = _ from congrArg Ledger.queue hw₃]
  rfl

/-- A request whose class is not loaded is queued. -/
theorem instrumentLater_ample (hA : env.Ample) {c s : CStr} {pid : Int} {id : Nat}
    {st : InstrumentRespStatus} (h : instrumentLater env c s id pid w = (st, w'))
    (hc : c.val.length ≤ pstrMax) (hs : s.val.length ≤ pstrMax) :
    st = .deferred ∧ ∃ c' s' : Pstring, c'.cstr = c ∧ s'.cstr = s ∧ w'.ledger = { w.ledger with
      queue := w.queuedInstruments ++ [⟨id, pid, some c', .method (some s')⟩] } := by
  obtain ⟨qi, w₁, r₁, h₁⟩ := bind_eq.mp h
  obtain ⟨c', s', hc', hs', rfl, hw₁⟩ := queuedInstrMethodAdd_ample hA r₁ hc hs
  obtain ⟨rfl, rfl⟩ := pure_eq.mp h₁
  exact ⟨rfl, c', s', hc', hs', hw₁⟩

theorem allocClassInfo_ample (hA : env.Ample) {c : CStr} {data : List UInt8} {loader : Option Nat}
    {r : Option ClassInfo} (h : allocClassInfo env c data loader w = (r, w'))
    (hc : c.val.length ≤ pstrMax) : ∃ ci, r = some ci ∧ ci.bytecode = data := by
  obtain ⟨methodsOk, w₁, r₁, h₁⟩ := bind_eq.mp h
  obtain ⟨ciOk, w₂, r₂, h₂⟩ := bind_eq.mp h₁
  obtain ⟨p, w₃, r₃, h₃⟩ := bind_eq.mp h₂
  obtain ⟨bytecodeOk, w₄, r₄, h₄⟩ := bind_eq.mp h₃
  obtain ⟨listsOk, w₅, r₅, h₅⟩ := bind_eq.mp h₄
  obtain rfl : true = methodsOk := (hA.alloc _).symm.trans (congrArg Prod.fst r₁)
  obtain rfl : true = ciOk := (hA.alloc _).symm.trans (congrArg Prod.fst r₂)
  obtain rfl : true = bytecodeOk := (hA.alloc _).symm.trans (congrArg Prod.fst r₄)
  obtain rfl : true = listsOk := (hA.alloc _).symm.trans (congrArg Prod.fst r₅)
  obtain ⟨p, rfl⟩ := Option.isSome_iff_exists.mp (newPstring_ample hA r₃ hc)
  obtain ⟨rfl, rfl⟩ := pure_eq.mp h₅
  exact ⟨_, rfl, rfl⟩

/-- A class that is not in the table is added. -/
theorem addClass_ample (hA : env.Ample) {ci : ClassInfo} {r : CiListAdd}
    (h : addClass env ci w = (r, w')) (hnone : w.cls ci.name.cstr = none) : r = .ok := by
  obtain ⟨keyOk, w₁, r₁, h₁⟩ := bind_eq.mp h
  obtain ⟨tabOk, w₂, r₂, h₂⟩ := bind_eq.mp h₁
  obtain rfl : true = keyOk := (hA.alloc _).symm.trans (congrArg Prod.fst r₁)
  obtain rfl : true = tabOk := (hA.tabAlloc _).symm.trans (congrArg Prod.fst r₂)
  have hcls : w₂.cls = w.cls := congrArg Ledger.cls ((tabCalloc_run r₂).trans (malloc_run r₁))
  obtain rfl : ciListAddResult w₂.loadedClasses ci true true = r := congrArg Prod.fst h₂
  rcases ciListAdd_cases w₂.loadedClasses ci true true with ⟨hr, -⟩ | ⟨hr, -⟩ | ⟨old, -, hold, -⟩
  · exact absurd hr (ciListAddResult_ne_err _ _)
  · exact hr
  · rw [← hcls] at hnone
    exact absurd (hnone.symm.trans hold) nofun

theorem jniCreate_honest (hH : env.Honest has) {id : Nat} {name : ProfilerName} {pid : Int}
    (h : jniCreate env id name w = (pid, w')) : pid = registryCreateId w.slots ∧
      w'.ledger = { w.ledger with slots := registryCreate w.slots ⟨true, id, name⟩ } := by
  rcases jniCreate_run h with ⟨rfl, -⟩ | hcreated
  · obtain ⟨ok, w₁, r₁, h₁⟩ := bind_eq.mp h
    obtain rfl : true = ok := (hH.create _ _).symm.trans (congrArg Prod.fst r₁)
    have hpid : (registryCreateId w₁.slots : Int) = -1 := congrArg Prod.fst h₁
    omega
  · exact hcreated

/-! ## Installing the records of a class -/

theorem doInstrumentation_eq {c : CStr} {ci : ClassInfo} (hci : w.cls c = some ci)
    (halloc : env.alloc w.allocs = true) (hne : ci.instrumented ≠ []) :
    doInstrumentation env c w =
      (if env.jvm w.jvmCalls (.transform ci.bytecode ci.instrumented ci.lines) then
        some ⟨ci.bytecode, instrumentCalls ci⟩ else none,
      { w with allocs := w.allocs + 1, jvmCalls := w.jvmCalls + 1 }) := by
  have hread : Prog.read (·.cls c) w = (some ci, w) := by rw [Prog.read, hci]
  have hmalloc : malloc env w = (true, { w with allocs := w.allocs + 1 }) := by rw [malloc, halloc]
  refine bind_eq.mpr ⟨_, _, hread, bind_eq.mpr ⟨_, _, hmalloc, ?_⟩⟩
  rw [if_pos rfl, bcInstrumentMethod, if_neg fun h => hne h.1]
  rfl

/-- A retransformation of a class that the JVM has succeeds when the JVM says so. -/
theorem jniRetransformClass_result {c : CStr} {loader : Option Nat}
    (hver : ∃ v ∈ w.versions, v.name = c) :
    (jniRetransformClass env c loader).result w =
      env.jvm w.jvmCalls (.retransform c loader w.pending.bytecode) := by
  have htarget : (retransformTarget w.versions c loader).isSome = true := by
    obtain ⟨v, hv, rfl⟩ := hver
    have hname : (w.versions.findIdx? fun v' => decide (v'.name = v.name)).isSome = true := by
      rw [List.findIdx?_isSome, List.any_eq_true]
      exact ⟨v, hv, by simp⟩
    rw [retransformTarget, Option.isSome_or, hname, Bool.or_true]
  obtain ⟨i, hi⟩ := Option.isSome_iff_exists.mp htarget
  unfold jniRetransformClass
  rw [result_bind, result_read, hi]
  show (if env.jvm w.jvmCalls (.retransform c loader w.pending.bytecode) then _ else _ :
    M Bool).result _ = _
  rw [result_ite]
  split
  · next h => rw [h]; rfl
  · next h => rw [Bool.eq_false_iff.mpr h]; rfl

/-- The class takes its records when it has the methods they name. -/
theorem performInstrumentation_honest (hH : env.Honest has) (hA : env.Ample) {c : CStr} {id : Nat}
    {pid : Int} {b : Bool} {e : MiEntry} {ci : ClassInfo}
    (h : performInstrumentation env c id pid id w = (b, w')) (he : w.entry id = some e)
    (hci : w.cls c = some ci) (hname : ci.name.cstr = c) (hl : ci.lines = [])
    (hne : ci.instrumented ≠ []) (hver : ∃ v ∈ w.versions, v.name = c) :
    b = ci.instrumented.all fun m => m.methodSig.any fun s => has ci.bytecode s.cstr := by
  rw [← hH.install w.jvmCalls ci hl hne]
  obtain ⟨e', w₁, r₁, h₁⟩ := bind_eq.mp h
  obtain ⟨rfl, rfl⟩ := deref_run r₁ he
  obtain ⟨bc, w₂, r₂, h₂⟩ := bind_eq.mp h₁
  rw [doInstrumentation_eq hci (hA.alloc _) hne, Prod.mk.injEq] at r₂
  obtain ⟨rfl, rfl⟩ := r₂
  cases htr : env.jvm w₁.jvmCalls (.transform ci.bytecode ci.instrumented ci.lines) with
  | false =>
    rw [htr] at h₂
    exact ((pure_eq.mp h₂).1).symm
  | true =>
    simp only [htr, ↓reduceIte] at h₂
    obtain ⟨loader, w₃, r₃, h₃⟩ := bind_eq.mp h₂
    obtain ⟨rfl, hloader⟩ := classLoader_run r₃
    obtain rfl : loader = ci.loader := by
      rw [hloader]
      exact congrArg (Option.bind · ClassInfo.loader) hci
    obtain ⟨ret, w₄, r₄, h₄⟩ := bind_eq.mp h₃
    -- the JVM installs the bytes exactly if it has every method that they name
    have hret : ret = env.jvm (w₁.jvmCalls + 1)
        (.retransform ci.name.cstr ci.loader (some ⟨ci.bytecode, instrumentCalls ci⟩)) := by
      rw [hname]
      refine (congrArg Prod.fst r₄).symm.trans ?_
      exact jniRetransformClass_result (w := { w₁ with
        allocs := w₁.allocs + 1, jvmCalls := w₁.jvmCalls + 1, pending := _ }) hver
    rw [← hret, Bool.true_and]
    cases ret with
    | false => exact ((pure_eq.mp h₄).1).symm
    | true =>
      obtain ⟨_, _, _, h₅⟩ := bind_eq.mp h₄
      obtain ⟨_, _, _, h₆⟩ := bind_eq.mp h₅
      exact ((pure_eq.mp h₆).1).symm

/-! ## The attempt at a method -/

/-- The ledger with the record of a method in its class, and installed. -/
def Ledger.applied (L : Ledger) (c : CStr) (m : InstrumentedMethod) (ci : ClassInfo) (kept : Bool) :
    Ledger :=
  ((L.modCls c (ciAddInstrumentedMethod m)).install c ci kept).modEntry m.instrumentId .methodApplied

/-- The ledger without the instrument and its profiler. -/
def Ledger.refused (L : Ledger) (id : Nat) (pid : Int) : Ledger := (L.setEntry id none).release pid true

theorem modCls_add_remove {L : Ledger} {c s : CStr} {ci : ClassInfo} {m : InstrumentedMethod}
    (hci : L.cls c = some ci) (hm : m.key = some s) (hnew : ∀ m' ∈ ci.instrumented, m'.key ≠ some s) :
    (L.modCls c (ciAddInstrumentedMethod m)).modCls c (ciRemoveInstrumentedBySig s) = L := by
  refine Ledger.ext rfl rfl rfl (funext fun c' => ?_) rfl rfl rfl rfl rfl rfl rfl rfl
  simp only [modCls_cls, ↓reduceIte]
  split
  · next hc =>
    subst hc
    have herase : (ci.instrumented ++ [m]).eraseP (·.hasSig s) = ci.instrumented := by
      rw [List.eraseP_append_right _ fun m' hm' => by
        simpa [InstrumentedMethod.key_hasSig] using hnew m' hm']
      simp [InstrumentedMethod.key_hasSig.mpr hm]
    simp [hci, ciRemoveInstrumentedBySig, ciAddInstrumentedMethod, herase]
  · rfl

/-- `instrument_now` adds the record of a method that the class has, and takes everything
back for one that it does not have. -/
theorem instrumentNow_honest (hH : env.Honest has) (hA : env.Ample) {c s : CStr} {id : Nat}
    {pid : Int} {st : InstrumentRespStatus} {e : MiEntry} {ci : ClassInfo}
    (h : instrumentNow env c id pid w = (st, w')) (he : w.entry id = some e)
    (hof : e.isMethodOf c s = true) (hci : w.cls c = some ci) (hname : ci.name.cstr = c)
    (hl : ci.lines = []) (hver : ∃ v ∈ w.versions, v.name = c)
    (hhas : ∀ m ∈ ci.instrumented, m.methodSig.any (fun t => has ci.bytecode t.cstr) = true)
    (hnew : ∀ m ∈ ci.instrumented, m.key ≠ some s) :
    (has ci.bytecode s = true ∧ st = .ok ∧ ∃ sig ci' kept, sig.cstr = s ∧
        w'.ledger = w.ledger.applied c ⟨some sig, pid, id⟩ ci' kept) ∨
      (has ci.bytecode s = false ∧ st = .error ∧ w'.ledger = w.ledger.refused id pid) := by
  obtain ⟨hm, -, hs⟩ := methodName_of_isMethodOf hof
  obtain ⟨populated, w₁, r₁, h₁⟩ := bind_eq.mp h
  obtain rfl := populateClassInfo_ample hA r₁ he
  obtain ⟨sig, hsig, hw₁⟩ : ∃ sig : Pstring, sig.cstr = s ∧
      w₁.ledger = w.ledger.modCls c (ciAddInstrumentedMethod ⟨some sig, pid, id⟩) := by
    rcases populateClassInfo_run r₁ he with ⟨hf, -⟩ | ⟨-, sig, hsig, hw₁⟩
    · cases hf
    · exact ⟨sig, hsig.trans hs, hw₁⟩
  have he₁ : w₁.entry id = some e := (congrFun (congrArg Ledger.entry hw₁) id).trans he
  have hci₁ : w₁.cls c = some (ciAddInstrumentedMethod ⟨some sig, pid, id⟩ ci) := by
    rw [show w₁.cls = _ from congrArg Ledger.cls hw₁, modCls_cls, if_pos rfl]
    exact congrArg _ hci
  have hver₁ : ∃ v ∈ w₁.versions, v.name = c := by
    rw [show w₁.versions = w.versions from congrArg Ledger.versions hw₁]
    exact hver
  obtain ⟨ret, w₂, r₂, h₂⟩ := bind_eq.mp h₁
  -- the methods that were there exist, so the answer is about the new one
  have hret : ret = has ci.bytecode s := by
    rw [performInstrumentation_honest hH hA r₂ he₁ hci₁ hname hl
      (by simp [ciAddInstrumentedMethod]) hver₁]
    show (ci.instrumented ++ [_]).all (fun m : InstrumentedMethod =>
      m.methodSig.any fun t : Pstring => has ci.bytecode t.cstr) = _
    rw [List.all_append, List.all_eq_true.mpr hhas, ← hsig]
    simp
  subst hret
  rcases performInstrumentation_run r₂ he₁ with ⟨hf, hw₂⟩ | ⟨ht, ci', kept, hci', hw₂⟩
  · refine .inr ⟨hf, ?_⟩
    rw [hf] at h₂
    obtain ⟨_, w₃, r₃, h₃⟩ := bind_eq.mp h₂
    obtain ⟨_, w₄, r₄, h₄⟩ := bind_eq.mp h₃
    obtain ⟨rfl, rfl⟩ := pure_eq.mp h₄
    obtain ⟨e₅, w₅, r₅, h₅⟩ := bind_eq.mp r₃
    obtain ⟨rfl, rfl⟩ := deref_run r₅ ((congrFun (congrArg Ledger.entry hw₂) id).trans he₁)
    obtain ⟨_, w₆, r₆, h₆⟩ := bind_eq.mp h₅
    obtain ⟨ok, hok, hw₄⟩ := jniRemoveProfiler_run r₄
    -- the record that is taken back is the one that was added
    have hback := modCls_add_remove (L := w.ledger) (m := ⟨some sig, pid, id⟩) hci
      (congrArg some hsig) hnew
    rw [hok hA.remove, removeEntry_run h₆, modifyClass_run r₆, hw₂, hw₁, hs, hback] at hw₄
    exact ⟨rfl, hw₄⟩
  · refine .inl ⟨ht, ?_⟩
    rw [ht] at h₂
    obtain ⟨rfl, rfl⟩ := pure_eq.mp h₂
    exact ⟨rfl, sig, ci', kept, hsig, by rw [hw₂, hw₁]; rfl⟩

end JautoProf
