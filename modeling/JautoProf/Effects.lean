import JautoProf.InstrumentHandler
import JautoProf.Ledger

/-!
# What the primitives do to the ledger

One lemma for each primitive of `World`: from a run of it, how the ledger after the run
relates to the ledger before. Most calls into the JVM and all allocations do not show.
-/

namespace JautoProf

open Prog

variable {env : Env} {w w' : World}

/-- Every `jni_remove_profiler` succeeds. -/
def RemoveOk (env : Env) : Prop := ∀ n profilerId, env.jvm n (.removeProfiler profilerId) = true

/-! ## Allocation -/

theorem malloc_run {b : Bool} (h : malloc env w = (b, w')) : w'.ledger = w.ledger := by
  cases h
  rfl

theorem tabCalloc_run {b : Bool} (h : tabCalloc env w = (b, w')) : w'.ledger = w.ledger := by
  cases h
  rfl

theorem jvmCall_run {c : JvmCall} {b : Bool} (h : jvmCall env c w = (b, w')) :
    w'.ledger = w.ledger := by
  cases h
  rfl

theorem newPstring_run {s : CStr} {p : Option Pstring} (h : newPstring env s w = (p, w')) :
    w'.ledger = w.ledger ∧ ∀ p', p = some p' → p'.cstr = s := by
  simp only [newPstring, bind_eq, pure_eq] at h
  obtain ⟨ok, w₁, h₁, rfl, rfl⟩ := h
  exact ⟨malloc_run h₁, fun p' hp => pstringFromCstr_cstr hp⟩

theorem dupPstring_run {q : Pstring} {p : Option Pstring} (h : dupPstring env q w = (p, w')) :
    w'.ledger = w.ledger ∧ ∀ p', p = some p' → p' = q := by
  simp only [dupPstring, bind_eq, pure_eq] at h
  obtain ⟨ok, w₁, h₁, rfl, rfl⟩ := h
  exact ⟨malloc_run h₁, fun p' hp => pstringDup_eq hp⟩

/-! ## The master table -/

theorem deref_run {p : MiPtr} {e a : MiEntry} (h : deref env p w = (a, w'))
    (he : w.entry p = some e) : a = e ∧ w' = w := by
  unfold deref at h
  rw [he] at h
  cases h
  exact ⟨rfl, rfl⟩

/-- A read after the entry left the table. -/
theorem deref_stale {p : MiPtr} {a : MiEntry} (h : deref env p w = (a, w'))
    (he : w.entry p = none) : w'.ledger = { w.ledger with staleReads := w.staleReads + 1 } := by
  unfold deref at h
  rw [he] at h
  cases h
  rfl

theorem findEntry_run {id : Nat} {p : Option MiPtr} (h : findEntry id w = (p, w')) :
    w' = w ∧ p = if (w.entry id).isSome then some id else none := by
  simp only [findEntry, read_eq] at h
  exact ⟨h.2.symm, h.1.symm⟩

theorem removeEntry_run {id : Nat} {u : Unit} (h : removeEntry id w = (u, w')) :
    w'.ledger = w.ledger.setEntry id none := by
  simp only [removeEntry, update_eq] at h
  subst h
  refine Ledger.ext (funext fun id' => ?_) rfl rfl rfl rfl rfl rfl rfl rfl rfl rfl rfl
  rw [Ledger.setEntry_entry]
  exact find_miRemove ..

theorem modifyEntry_run {id : Nat} {f : MiEntry → MiEntry} {u : Unit}
    (h : modifyEntry id f w = (u, w')) : w'.ledger = w.ledger.modEntry id f := by
  simp only [modifyEntry, update_eq] at h
  subst h
  refine Ledger.ext (funext fun id' => ?_) rfl rfl rfl rfl rfl rfl rfl rfl rfl rfl rfl
  rw [Ledger.modEntry_entry]
  by_cases hid : id' = id
  · subst hid
    rw [if_pos rfl]
    exact (find_miModify ..).trans (if_pos rfl)
  · rw [if_neg hid]
    exact (find_miModify ..).trans (if_neg hid)

/-- The ledger with an entry under the next id. -/
def Ledger.insert (L : Ledger) (e : MiEntry) : Ledger :=
  { L.setEntry L.nextId (some e) with nextId := L.nextId + 1 }

theorem entry_of_insert {w₁ : World} {e : MiEntry} (h : w₁.ledger = w.ledger.insert e) :
    w₁.entry w.masterInstruments.nextId = some e := by
  rw [show w₁.entry = _ from congrArg Ledger.entry h]
  exact (Ledger.setEntry_entry ..).trans (if_pos rfl)

/-- An insertion fails, or adds the entry under the next id. -/
def Inserted (w w' : World) (v : MiVal) (e : MiEntry) : Prop :=
  v = ⟨w.masterInstruments.nextId, some w.masterInstruments.nextId⟩ ∧ w'.ledger = w.ledger.insert e

def NotInserted (w w' : World) (v : MiVal) : Prop := v = ⟨0, none⟩ ∧ w'.ledger = w.ledger

theorem Inserted.of_ledger {w₁ : World} {v : MiVal} {e : MiEntry} (h : Inserted w₁ w' v e)
    (hw : w₁.ledger = w.ledger) : Inserted w w' v e := by
  have hn : w₁.masterInstruments.nextId = w.masterInstruments.nextId := congrArg Ledger.nextId hw
  exact ⟨hn ▸ h.1, hw ▸ h.2⟩

theorem NotInserted.of_ledger {w₁ : World} {v : MiVal} (h : NotInserted w₁ w' v)
    (hw : w₁.ledger = w.ledger) : NotInserted w w' v :=
  ⟨h.1, h.2.trans hw⟩

theorem insertEntry_run {e : MiEntry} {v : MiVal} (h : insertEntry env e w = (v, w')) :
    NotInserted w w' v ∨ Inserted w w' v e := by
  obtain ⟨keyOk, w₁, h₁, h⟩ := bind_eq.mp h
  obtain ⟨tabOk, w₂, h₂, h₃⟩ := bind_eq.mp h
  have hw : w₂.ledger = w.ledger := (tabCalloc_run h₂).trans (malloc_run h₁)
  simp only [Prod.mk.injEq] at h₃
  obtain ⟨rfl, rfl⟩ := h₃
  rcases miInsert_cases w₂.masterInstruments e keyOk tabOk with ⟨hv, hmi⟩ | ⟨hv, hn, hfind⟩
  · refine .inl (NotInserted.of_ledger ⟨hv, ?_⟩ hw)
    simp only [hmi]
  · refine .inr (Inserted.of_ledger ⟨hv, ?_⟩ hw)
    refine Ledger.ext (funext fun id => ?_) hn rfl rfl rfl rfl rfl rfl rfl rfl rfl rfl
    show _ = (w₂.ledger.setEntry w₂.ledger.nextId (some e)).entry id
    rw [Ledger.setEntry_entry]
    exact hfind id

theorem miAddMethod_run {c m : CStr} {v : MiVal} (h : miAddMethod env c m w = (v, w')) :
    NotInserted w w' v ∨ ∃ c' m', c'.cstr = c ∧ m'.cstr = m ∧
      Inserted w w' v ⟨c', .method m' true⟩ := by
  simp only [miAddMethod, bind_eq] at h
  obtain ⟨ok, w₁, h₁, h⟩ := h
  have hw₁ := malloc_run h₁
  cases ok with
  | false =>
    cases h
    exact .inl ⟨rfl, hw₁⟩
  | true =>
    simp only [↓reduceIte, bind_eq] at h
    obtain ⟨c', w₂, h₂, m', w₃, h₃, h⟩ := h
    have hw₃ := (newPstring_run h₃).1.trans ((newPstring_run h₂).1.trans hw₁)
    cases c' with
    | none =>
      cases h
      exact .inl ⟨rfl, hw₃⟩
    | some c' =>
      cases m' with
      | none =>
        cases h
        exact .inl ⟨rfl, hw₃⟩
      | some m' =>
        rcases insertEntry_run h with hn | hi
        · exact .inl (hn.of_ledger hw₃)
        · exact .inr ⟨c', m', (newPstring_run h₂).2 c' rfl, (newPstring_run h₃).2 m' rfl,
            hi.of_ledger hw₃⟩

theorem miAddLinep_run {c x : Pstring} {l l' : UInt32} {v : MiVal}
    (h : miAddLinep env c x l l' w = (v, w')) :
    NotInserted w w' v ∨ Inserted w w' v ⟨c, .line x l l' true true⟩ := by
  simp only [miAddLinep, bind_eq] at h
  obtain ⟨ok, w₁, h₁, h⟩ := h
  have hw₁ := malloc_run h₁
  cases ok with
  | false =>
    cases h
    exact .inl ⟨rfl, hw₁⟩
  | true =>
    simp only [↓reduceIte, bind_eq] at h
    obtain ⟨c', w₂, h₂, x', w₃, h₃, h⟩ := h
    have hw₃ := (dupPstring_run h₃).1.trans ((dupPstring_run h₂).1.trans hw₁)
    cases c' with
    | none =>
      cases h
      exact .inl ⟨rfl, hw₃⟩
    | some c' =>
      cases x' with
      | none =>
        cases h
        exact .inl ⟨rfl, hw₃⟩
      | some x' =>
        obtain rfl := (dupPstring_run h₂).2 c' rfl
        obtain rfl := (dupPstring_run h₃).2 x' rfl
        exact (insertEntry_run h).imp (·.of_ledger hw₃) (·.of_ledger hw₃)

theorem miAddVarBind_run {c n : CStr} {l : UInt32} {v : MiVal}
    (h : miAddVarBind env c n l w = (v, w')) :
    NotInserted w w' v ∨ ∃ e : MiEntry, e.isUserVisible = false ∧ Inserted w w' v e := by
  simp only [miAddVarBind, bind_eq] at h
  obtain ⟨ok, w₁, h₁, h⟩ := h
  have hw₁ := malloc_run h₁
  cases ok with
  | false =>
    cases h
    exact .inl ⟨rfl, hw₁⟩
  | true =>
    simp only [↓reduceIte, bind_eq] at h
    obtain ⟨c', w₂, h₂, n', w₃, h₃, h⟩ := h
    have hw₃ := (newPstring_run h₃).1.trans ((newPstring_run h₂).1.trans hw₁)
    cases c' with
    | none =>
      cases h
      exact .inl ⟨rfl, hw₃⟩
    | some c' =>
      cases n' with
      | none =>
        cases h
        exact .inl ⟨rfl, hw₃⟩
      | some n' =>
        rcases insertEntry_run h with hn | hi
        · exact .inl (hn.of_ledger hw₃)
        · exact .inr ⟨_, rfl, hi.of_ledger hw₃⟩

/-! ## The loaded classes and the queue -/

theorem modifyClass_run {c : CStr} {f : ClassInfo → ClassInfo} {u : Unit}
    (h : modifyClass c f w = (u, w')) : w'.ledger = w.ledger.modCls c f := by
  simp only [modifyClass, update_eq] at h
  subst h
  refine Ledger.ext rfl rfl rfl (funext fun c' => ?_) rfl rfl rfl rfl rfl rfl rfl rfl
  rw [Ledger.modCls_cls]
  by_cases hc : c' = c
  · subst hc
    rw [if_pos rfl]
    exact (Table.lookup_modify ..).trans (if_pos rfl)
  · rw [if_neg hc]
    exact (Table.lookup_modify ..).trans (if_neg hc)

theorem allocClassInfo_run {name : CStr} {bytecode : List UInt8} {loader : Option Nat}
    {r : Option ClassInfo} (h : allocClassInfo env name bytecode loader w = (r, w')) :
    w'.ledger = w.ledger ∧ ∀ ci, r = some ci → ci.name.cstr = name ∧ ci.loader = loader ∧
      ci.instrumented = [] ∧ ci.lines = [] := by
  obtain ⟨methodsOk, w₁, r₁, h₁⟩ := bind_eq.mp h
  obtain ⟨ciOk, w₂, r₂, h₂⟩ := bind_eq.mp h₁
  obtain ⟨p, w₃, r₃, h₃⟩ := bind_eq.mp h₂
  obtain ⟨bytecodeOk, w₄, r₄, h₄⟩ := bind_eq.mp h₃
  obtain ⟨listsOk, w₅, r₅, h₅⟩ := bind_eq.mp h₄
  have hw₅ : w₅.ledger = w.ledger := (malloc_run r₅).trans ((malloc_run r₄).trans
    ((newPstring_run r₃).1.trans ((malloc_run r₂).trans (malloc_run r₁))))
  cases p with
  | none =>
    cases h₅
    exact ⟨hw₅, nofun⟩
  | some p =>
    obtain ⟨rfl, rfl⟩ := pure_eq.mp h₅
    refine ⟨hw₅, fun ci hci => ?_⟩
    split at hci
    · cases hci
      exact ⟨(newPstring_run r₃).2 p rfl, rfl, rfl, rfl⟩
    · cases hci

/-- An addition to the loaded classes fails, or does what the act `load` says. -/
theorem addClass_run {ci : ClassInfo} {r : CiListAdd} (h : addClass env ci w = (r, w')) :
    (r = .err ∧ w'.ledger = w.ledger) ∨
      (r ≠ .err ∧ (r ≠ .duplicate → w.cls ci.name.cstr = none) ∧
        ∀ Q lo, w'.ledger.amid Q none (some ci.name.cstr) false =
          Act.apply (w.ledger.amid Q none lo false) (.load ci)) := by
  obtain ⟨keyOk, w₁, h₁, h⟩ := bind_eq.mp h
  obtain ⟨tabOk, w₂, h₂, h₃⟩ := bind_eq.mp h
  have hw : w₂.ledger = w.ledger := (tabCalloc_run h₂).trans (malloc_run h₁)
  have hcls : w₂.cls = w.cls := congrArg Ledger.cls hw
  simp only [Prod.mk.injEq] at h₃
  obtain ⟨rfl, rfl⟩ := h₃
  rw [← hcls, ← hw]
  -- in both cases in which it is added the list has the class that the act puts there
  have hload : ∀ {r : CiListAdd} {ci' : ClassInfo},
      ciListAddResult w₂.loadedClasses ci keyOk tabOk = r → r ≠ .err →
      Act.loadedClass w₂.ledger ci = ci' →
      (∀ c, (ciListAdd w₂.loadedClasses ci keyOk tabOk).lookup c =
        if c = ci.name.cstr then some ci' else w₂.loadedClasses.lookup c) →
      ∀ Q lo, ({ w₂ with
          loadedClasses := ciListAdd w₂.loadedClasses ci keyOk tabOk
          outdated := if ciListAddResult w₂.loadedClasses ci keyOk tabOk = .err then w₂.outdated
            else w₂.outdated.filter (· ≠ ci.name.cstr) } : World).ledger.amid Q none
          (some ci.name.cstr) false =
        Act.apply (w₂.ledger.amid Q none lo false) (.load ci) := by
    intro r ci' hr hne hci' hl Q lo
    refine Ledger.ext rfl rfl rfl (funext fun c => ?_) rfl rfl ?_ rfl rfl rfl rfl rfl
    · show _ = Function.update w₂.cls ci.name.cstr (some (Act.loadedClass w₂.ledger ci)) c
      rw [Function.update_apply, hci']
      exact hl c
    · show (if ciListAddResult w₂.loadedClasses ci keyOk tabOk = .err then _ else _) = _
      rw [if_neg (hr ▸ hne)]
      rfl
  rcases ciListAdd_cases w₂.loadedClasses ci keyOk tabOk with ⟨hr, hl⟩ | ⟨hr, hnone, hl⟩ |
    ⟨old, hr, hold, hl⟩
  · refine .inl ⟨hr, ?_⟩
    simp only [hr, hl, ↓reduceIte]
  · have hci' : Act.loadedClass w₂.ledger ci = ci := by
      unfold Act.loadedClass
      rw [show w₂.ledger.cls ci.name.cstr = none from hnone]
    exact .inr ⟨by simp [hr], fun _ => hnone, hload hr (by simp) hci' hl⟩
  · have hci' : Act.loadedClass w₂.ledger ci = ciStealInstruments ci old := by
      unfold Act.loadedClass
      rw [show w₂.ledger.cls ci.name.cstr = some old from hold]
    exact .inr ⟨by simp [hr], fun h => absurd hr h, hload hr (by simp) hci' hl⟩

theorem markOutdated_run {c : CStr} {u : Unit} (h : markOutdated c w = (u, w')) :
    w'.ledger = w.ledger.mark c := by
  simp only [markOutdated, update_eq] at h
  subst h
  rfl

theorem modifyQueue_run {f : List QueuedInstr → List QueuedInstr} {u : Unit}
    (h : modifyQueue f w = (u, w')) : w'.ledger = { w.ledger with queue := f w.queuedInstruments } := by
  simp only [modifyQueue, update_eq] at h
  subst h
  rfl

theorem queuedInstrMethodAdd_run {c s : CStr} {pid : Int} {id : Nat} {r : Option QueuedInstr}
    (h : queuedInstrMethodAdd env c s pid id w = (r, w')) :
    (r = none ∧ w'.ledger = w.ledger) ∨
      ∃ c' s', (∀ p, c' = some p → p.cstr = c) ∧ (∀ p, s' = some p → p.cstr = s) ∧
        r = some ⟨id, pid, c', .method s'⟩ ∧
        w'.ledger = { w.ledger with
          queue := w.queuedInstruments ++ [⟨id, pid, c', .method s'⟩] } := by
  simp only [queuedInstrMethodAdd, bind_eq] at h
  obtain ⟨grown, w₁, h₁, h⟩ := h
  have hw₁ := malloc_run h₁
  cases grown with
  | false =>
    cases h
    exact .inl ⟨rfl, hw₁⟩
  | true =>
    simp only [↓reduceIte, bind_eq, pure_eq] at h
    obtain ⟨c', w₂, h₂, s', w₃, h₃, _, w₄, h₄, rfl, rfl⟩ := h
    have hw₃ := (newPstring_run h₃).1.trans ((newPstring_run h₂).1.trans hw₁)
    have hq : w₃.queuedInstruments = w.queuedInstruments := congrArg Ledger.queue hw₃
    refine .inr ⟨c', s', (newPstring_run h₂).2, (newPstring_run h₃).2, rfl, ?_⟩
    rw [modifyQueue_run h₄, hw₃, hq]

theorem queuedInstrLineAdd_run {c : CStr} {pid : Int} {id : Nat} {body : QiBody}
    {r : Option QueuedInstr} (h : queuedInstrLineAdd env c pid id body w = (r, w')) :
    (r = none ∧ w'.ledger = w.ledger) ∨
      ∃ c', (∀ p, c' = some p → p.cstr = c) ∧ r = some ⟨id, pid, c', body⟩ ∧
        w'.ledger = { w.ledger with queue := w.queuedInstruments ++ [⟨id, pid, c', body⟩] } := by
  simp only [queuedInstrLineAdd, bind_eq] at h
  obtain ⟨grown, w₁, h₁, h⟩ := h
  have hw₁ := malloc_run h₁
  cases grown with
  | false =>
    cases h
    exact .inl ⟨rfl, hw₁⟩
  | true =>
    simp only [↓reduceIte, bind_eq, pure_eq] at h
    obtain ⟨c', w₂, h₂, _, w₃, h₃, rfl, rfl⟩ := h
    have hw₂ := (newPstring_run h₂).1.trans hw₁
    have hq : w₂.queuedInstruments = w.queuedInstruments := congrArg Ledger.queue hw₂
    refine .inr ⟨c', (newPstring_run h₂).2, rfl, ?_⟩
    rw [modifyQueue_run h₃, hw₂, hq]

/-! ## The registry -/

theorem jniCreate_run {id : Nat} {name : ProfilerName} {pid : Int}
    (h : jniCreate env id name w = (pid, w')) :
    (pid = -1 ∧ w'.ledger = w.ledger) ∨
      (pid = registryCreateId w.slots ∧
        w'.ledger = { w.ledger with slots := registryCreate w.slots ⟨true, id, name⟩ }) := by
  obtain ⟨ok, w₁, h₁, h⟩ := bind_eq.mp h
  have hw₁ := jvmCall_run h₁
  have hs : w₁.slots = w.slots := congrArg Ledger.slots hw₁
  cases ok with
  | false =>
    cases h
    exact .inl ⟨rfl, hw₁⟩
  | true =>
    cases h
    exact .inr ⟨by rw [hs], by rw [← hw₁, ← hs]; rfl⟩

/-- The profiler of a method has the names of its entry. -/
theorem createProfilerForMethod_run {id : Nat} {e : MiEntry} {pid : Int}
    (h : createProfilerForMethod env id id w = (pid, w')) (he : w.entry id = some e) :
    jniCreate env id (.method e.entryClassName.cstr e.methodName.cstr) w = (pid, w') := by
  obtain ⟨c, w₁, r₁, h₁⟩ := bind_eq.mp h
  obtain ⟨rfl, rfl⟩ := deref_run r₁ he
  obtain ⟨m, w₂, r₂, h₂⟩ := bind_eq.mp h₁
  obtain ⟨rfl, rfl⟩ := deref_run r₂ he
  exact h₂

theorem jniRemoveProfiler_run {pid : Int} {u : Unit} (h : jniRemoveProfiler env pid w = (u, w')) :
    ∃ ok, (RemoveOk env → ok = true) ∧ w'.ledger = w.ledger.release pid ok := by
  obtain ⟨ok, w₁, h₁, h⟩ := bind_eq.mp h
  have hw₁ := jvmCall_run h₁
  have hok : env.jvm w.jvmCalls (.removeProfiler pid) = ok := congrArg Prod.fst h₁
  refine ⟨ok, fun hr => hok ▸ hr _ _, ?_⟩
  rw [← hw₁]
  cases ok with
  | false =>
    cases h
    rfl
  | true =>
    cases h
    rfl

/-! ## Transformation and retransformation -/

/-- A transformation yields the class file with the calls of the records of the class. -/
theorem doInstrumentation_run {c : CStr} {r : Option Bytecode}
    (h : doInstrumentation env c w = (r, w')) :
    w'.ledger = w.ledger ∧ ∀ bc, r = some bc → ∃ ci, w.cls c = some ci ∧
      bc = ⟨ci.bytecode, instrumentCalls ci⟩ := by
  simp only [doInstrumentation, bind_eq, read_eq] at h
  obtain ⟨info, w₁, ⟨rfl, rfl⟩, h⟩ := h
  cases hc : w.cls c with
  | none =>
    simp only [hc, pure_eq] at h
    obtain ⟨rfl, rfl⟩ := h
    exact ⟨rfl, fun _ h => nomatch h⟩
  | some ci =>
    simp only [hc, bind_eq] at h
    obtain ⟨params, w₁, h₁, h⟩ := h
    have hw₁ := malloc_run h₁
    cases params with
    | false =>
      cases h
      exact ⟨hw₁, fun _ h => nomatch h⟩
    | true =>
      simp only [↓reduceIte, bcInstrumentMethod] at h
      split at h
      · next hnil =>
        simp only [bind_eq, pure_eq] at h
        obtain ⟨ok, w₂, h₂, rfl, rfl⟩ := h
        refine ⟨(malloc_run h₂).trans hw₁, fun bc hbc => ⟨ci, rfl, ?_⟩⟩
        split at hbc
        · cases hbc
          -- without records the bytecode is copied as it was loaded
          simp [instrumentCalls, hnil]
        · cases hbc
      · simp only [bind_eq, pure_eq] at h
        obtain ⟨ok, w₂, h₂, rfl, rfl⟩ := h
        refine ⟨(jvmCall_run h₂).trans hw₁, fun bc hbc => ⟨ci, rfl, ?_⟩⟩
        split at hbc
        · cases hbc
          rfl
        · cases hbc

/-- A retransformation fails, or installs what the pending instrument holds. -/
theorem jniRetransformClass_run {c : CStr} {ci : ClassInfo} {r : Bool}
    (hp : w.pending.className = some c ∧
      w.pending.bytecode = some ⟨ci.bytecode, instrumentCalls ci⟩)
    (h : jniRetransformClass env c ci.loader w = (r, w')) :
    (r = false ∧ w'.ledger = w.ledger) ∨
      (r = true ∧ ∃ kept, w'.ledger = w.ledger.install c ci kept) := by
  obtain ⟨target, w₁, h₁, h⟩ := bind_eq.mp h
  obtain ⟨rfl, rfl⟩ := read_eq.mp h₁
  cases ht : retransformTarget w.versions c ci.loader with
  | none =>
    rw [ht] at h
    cases h
    exact .inl ⟨rfl, rfl⟩
  | some i =>
    rw [ht] at h
    obtain ⟨_, w₀, h₀, h⟩ := bind_eq.mp h
    obtain ⟨rfl, rfl⟩ := read_eq.mp h₀
    obtain ⟨ok, w₁, h₁, h⟩ := bind_eq.mp h
    have hw₁ := jvmCall_run h₁
    have hp₁ : w₁.pending = w.pending := by
      cases h₁
      rfl
    cases ok with
    | false =>
      cases h
      exact .inl ⟨rfl, hw₁⟩
    | true =>
      obtain ⟨bc, w₂, h₂, h⟩ := bind_eq.mp h
      obtain ⟨_, w₃, h₃, h⟩ := bind_eq.mp h
      cases h
      -- the hook: the pending class is the one that is retransformed
      obtain ⟨p, w₄, h₄, h₂⟩ := bind_eq.mp h₂
      obtain ⟨rfl, rfl⟩ := read_eq.mp h₄
      rw [if_pos (hp₁ ▸ hp.1), hp₁, hp.2] at h₂
      obtain ⟨kept, w₅, h₅, h₂⟩ := bind_eq.mp h₂
      obtain ⟨rfl, rfl⟩ := pure_eq.mp h₂
      have hw₅ := (jvmCall_run h₅).trans hw₁
      have hv : w₅.versions = w.versions := congrArg Ledger.versions hw₅
      obtain rfl := update_eq.mp h₃
      refine .inr ⟨rfl, kept, ?_⟩
      have htarget : retransformTarget w₅.ledger.versions c ci.loader = some i := by
        rw [show w₅.ledger.versions = w.versions from hv]
        exact ht
      rw [← hw₅, Ledger.install, htarget]
      rfl

theorem retransformPending_run {c : CStr} {ci : ClassInfo} {sig : Option CStr} {pid : Int} {r : Bool}
    (h : retransformPending env c ci.loader sig ⟨ci.bytecode, instrumentCalls ci⟩ pid w = (r, w')) :
    (r = false ∧ w'.ledger = w.ledger) ∨
      (r = true ∧ ∃ kept, w'.ledger = w.ledger.install c ci kept) := by
  obtain ⟨_, w₁, h₁, h⟩ := bind_eq.mp h
  obtain ⟨ret, w₂, h₂, h⟩ := bind_eq.mp h
  obtain ⟨_, w₃, h₃, h⟩ := bind_eq.mp h
  obtain ⟨rfl, rfl⟩ := pure_eq.mp h
  have hw₁ : w₁.ledger = w.ledger := by
    cases update_eq.mp h₁
    rfl
  have hp : w₁.pending = ⟨some c, sig, some ⟨ci.bytecode, instrumentCalls ci⟩, pid⟩ := by
    cases update_eq.mp h₁
    rfl
  have hw₃ : w₃.ledger = w₂.ledger := by
    cases update_eq.mp h₃
    rfl
  rw [hw₃, ← hw₁]
  exact jniRetransformClass_run (by rw [hp]; exact ⟨rfl, rfl⟩) h₂

theorem classLoader_run {c : CStr} {r : Option Nat} (h : classLoader c w = (r, w')) :
    w' = w ∧ r = (w.cls c).bind ClassInfo.loader := by
  simp only [classLoader, read_eq] at h
  exact ⟨h.2.symm, h.1.symm⟩

/-- The result says whether there was bytecode and whether it was installed. -/
theorem restoreClass_run {c : CStr} {r : Bool × Bool} (h : restoreClass env c c w = (r, w')) :
    (r.2 = false ∧ w'.ledger = w.ledger) ∨
      (r = (true, true) ∧ ∃ ci kept, w.cls c = some ci ∧ w'.ledger = w.ledger.install c ci kept) := by
  obtain ⟨bc, w₁, h₁, h⟩ := bind_eq.mp h
  obtain ⟨hw₁, hbc⟩ := doInstrumentation_run h₁
  cases bc with
  | none =>
    cases h
    exact .inl ⟨rfl, hw₁⟩
  | some bc =>
    obtain ⟨ci, hci, rfl⟩ := hbc bc rfl
    obtain ⟨loader, w₂, h₂, h⟩ := bind_eq.mp h
    obtain ⟨rfl, rfl⟩ := classLoader_run h₂
    have hci₁ : w₂.cls c = some ci := (congrFun (congrArg Ledger.cls hw₁) c).trans hci
    rw [hci₁] at h
    obtain ⟨ret, w₃, h₃, h⟩ := bind_eq.mp h
    obtain ⟨rfl, rfl⟩ := pure_eq.mp h
    rcases retransformPending_run h₃ with ⟨rfl, hw⟩ | ⟨rfl, kept, hw⟩
    · exact .inl ⟨rfl, hw.trans hw₁⟩
    · exact .inr ⟨rfl, ci, kept, hci, hw.trans (by rw [hw₁])⟩

/-! ## The error log -/

theorem profErrLogPrintf_run {text : List UInt8} {u : Unit}
    (h : profErrLogPrintf env text w = (u, w')) : w'.ledger = w.ledger := by
  obtain ⟨ok, w₁, h₁, h⟩ := bind_eq.mp h
  rw [← malloc_run h₁]
  cases hm : pstringVsprintf text ok with
  | none =>
    rw [hm] at h
    cases h
    rfl
  | some msg =>
    rw [hm] at h
    cases update_eq.mp h
    rfl

theorem reportFailure_run {id : Nat} {text : List UInt8} {u : Unit}
    (h : reportFailure env id text w = (u, w')) :
    w'.ledger = { w.ledger with reports := w.reports ++ [⟨id, text⟩] } := by
  obtain ⟨_, w₁, h₁, h⟩ := bind_eq.mp h
  have hw₁ := profErrLogPrintf_run h₁
  have hr : w₁.reports = w.reports := congrArg Ledger.reports hw₁
  obtain rfl := update_eq.mp h
  rw [← hw₁, ← hr]
  rfl

end JautoProf
