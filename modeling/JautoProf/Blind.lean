import JautoProf.Effects
import JautoProf.Server

/-!
# Programs that do not see the hidden entries

Two worlds are `Alike` when they differ in nothing but some entries of the master table that
the one has and the other does not. A program is `Blind` to such entries when it returns
the same from both worlds and leaves them alike. What makes a handler blind is that the ids
it works with are not those of hidden entries: the records of the queue and of the classes
carry none of them.

Results:
1. `blind_of_frame`: what does not read the master table is blind.
2. `blind_deref`, `blind_removeEntry`, `blind_modifyEntry`, `blind_insertEntry`: an access to
   the table under an id that is not hidden.
3. `blind_modifyClass`, `blind_modifyQueue`: a change of the records that adds no hidden id.
-/

namespace JautoProf

open Prog

/-- The records of the class carry no hidden id. -/
def ClassInfo.Avoids (hid : Nat → Option MiEntry) (ci : ClassInfo) : Prop :=
  (∀ m ∈ ci.instrumented, hid m.instrumentId = none) ∧ ∀ r ∈ ci.lines, hid r.instrumentId = none

/-- The world `t` is `s` without the entries `hid`. -/
structure Alike (hid : Nat → Option MiEntry) (s t : World) : Prop where
  rest : t = { s with masterInstruments := t.masterInstruments }
  nextId : t.masterInstruments.nextId = s.masterInstruments.nextId
  hidden : ∀ id e, hid id = some e → s.entry id = some e ∧ t.entry id = none
  entry : ∀ id, hid id = none → t.entry id = s.entry id
  queue : ∀ q ∈ s.queuedInstruments, hid q.instrumentId = none
  records : ∀ c ci, s.cls c = some ci → ci.Avoids hid

/-- The program does the same without the entries `hid`. -/
def Blind (hid : Nat → Option MiEntry) {α : Type} (x : M α) : Prop := Lockstep (Alike hid) x x

variable {hid : Nat → Option MiEntry} {env : Env} {α β : Type}

namespace Blind

theorem pure (a : α) : Blind hid (Pure.pure a : M α) := Lockstep.pure a

theorem bind {x : M α} {f : α → M β} (hx : Blind hid x) (hf : ∀ a, Blind hid (f a)) :
    Blind hid (x >>= f) :=
  Lockstep.bind hx hf

theorem bind_of (P : α → Prop) {x : M α} {f : α → M β} (hx : Blind hid x)
    (hP : ∀ s t, Alike hid s t → P (x.result s)) (hf : ∀ a, P a → Blind hid (f a)) :
    Blind hid (x >>= f) :=
  Lockstep.bind_of hx hP hf

theorem ite {c : Prop} [Decidable c] {x y : M α} (hx : Blind hid x) (hy : Blind hid y) :
    Blind hid (if c then x else y) :=
  Lockstep.ite hx hy

end Blind

/-! ## The rest of the world -/

/-- A program that leaves alone the master table, the queue and the classes, and does not
depend on the table. -/
theorem blind_of_frame {x : M α}
    (hx : ∀ s mi, x { s with masterInstruments := mi } =
      ((x s).1, { (x s).2 with masterInstruments := mi }))
    (hq : Keeps World.queuedInstruments x) (hc : Keeps World.cls x) : Blind hid x := by
  intro s t h
  obtain ⟨hrest, hn, hhid, hent, hqueue, hrec⟩ := h
  have hs : (x.final s).masterInstruments = s.masterInstruments :=
    congrArg (fun r => r.2.masterInstruments) (hx s s.masterInstruments)
  have ht := hx s t.masterInstruments
  rw [← hrest] at ht
  have hfin : x.final t = { x.final s with masterInstruments := t.masterInstruments } :=
    congrArg Prod.snd ht
  refine ⟨(congrArg Prod.fst ht).symm, ?_, ?_, ?_, ?_, ?_, ?_⟩
  · rw [hfin]
  · rw [hfin, hs]
    exact hn
  · intro id e he
    rw [hfin, World.entry, hs]
    exact hhid id e he
  · intro id he
    rw [hfin, World.entry, World.entry, hs]
    exact hent id he
  · rw [hq s]
    exact hqueue
  · rw [hc s]
    exact hrec

theorem blind_read {f : World → α} (h : ∀ s mi, f { s with masterInstruments := mi } = f s) :
    Blind hid (.read f) :=
  blind_of_frame (fun s mi => congrArg (fun a => (a, { s with masterInstruments := mi })) (h s mi))
    (fun _ => rfl) fun _ => rfl

variable (env)

theorem blind_malloc : Blind hid (malloc env) :=
  blind_of_frame (fun _ _ => rfl) (fun _ => rfl) fun _ => rfl

theorem blind_tabCalloc : Blind hid (tabCalloc env) :=
  blind_of_frame (fun _ _ => rfl) (fun _ => rfl) fun _ => rfl

theorem blind_jvmCall (c : JvmCall) : Blind hid (jvmCall env c) :=
  blind_of_frame (fun _ _ => rfl) (fun _ => rfl) fun _ => rfl

theorem blind_newPstring (s : CStr) : Blind hid (newPstring env s) :=
  (blind_malloc env).bind fun _ => .pure _

theorem blind_dupPstring (p : Pstring) : Blind hid (dupPstring env p) :=
  (blind_malloc env).bind fun _ => .pure _

theorem blind_cls (c : CStr) : Blind hid (.read (·.cls c)) := blind_read fun _ _ => rfl

theorem blind_classLoader (c : CStr) : Blind hid (classLoader c) := blind_read fun _ _ => rfl

theorem blind_markOutdated (c : CStr) : Blind hid (markOutdated c) :=
  blind_of_frame (fun _ _ => rfl) (fun _ => rfl) fun _ => rfl

theorem blind_jniCreate (id : Nat) (name : ProfilerName) : Blind hid (jniCreate env id name) := by
  refine (blind_jvmCall env _).bind fun ok => .ite ?_ (.pure _)
  exact blind_of_frame (fun _ _ => rfl) (fun _ => rfl) fun _ => rfl

theorem blind_jniRemoveProfiler (pid : Int) : Blind hid (jniRemoveProfiler env pid) := by
  refine (blind_jvmCall env _).bind fun ok => .ite ?_ (.pure _)
  exact blind_of_frame (fun _ _ => rfl) (fun _ => rfl) fun _ => rfl

theorem blind_removeProfilerIfAny (pid : Int) : Blind hid (removeProfilerIfAny env pid) :=
  .ite (blind_jniRemoveProfiler env pid) (.pure ())

theorem blind_profErrLogPrintf (text : List UInt8) : Blind hid (profErrLogPrintf env text) := by
  refine (blind_malloc env).bind fun ok => ?_
  cases pstringVsprintf text ok with
  | none => exact .pure ()
  | some _ => exact blind_of_frame (fun _ _ => rfl) (fun _ => rfl) fun _ => rfl

theorem blind_reportFailure (id : Nat) (text : List UInt8) : Blind hid (reportFailure env id text) :=
  (blind_profErrLogPrintf env text).bind fun _ =>
    blind_of_frame (fun _ _ => rfl) (fun _ => rfl) fun _ => rfl

theorem blind_doInstrumentation (c : CStr) : Blind hid (doInstrumentation env c) := by
  refine (blind_cls c).bind fun info => ?_
  cases info with
  | none => exact .pure none
  | some ci =>
    refine (blind_malloc env).bind fun _ => .ite (.ite ?_ ?_) (.pure none)
    · exact (blind_malloc env).bind fun _ => .pure _
    · exact (blind_jvmCall env _).bind fun _ => .pure _

theorem blind_psHandleRetransform (c : CStr) : Blind hid (psHandleRetransform env c) :=
  (blind_read fun _ _ => rfl).bind fun _ =>
    .ite ((blind_jvmCall env _).bind fun _ => .pure _) (.pure none)

theorem blind_jniRetransformClass (c : CStr) (loader : Option Nat) :
    Blind hid (jniRetransformClass env c loader) := by
  refine (blind_read fun _ _ => rfl).bind fun target => ?_
  cases target with
  | none => exact .pure false
  | some i =>
    refine (blind_read fun _ _ => rfl).bind fun _ => (blind_jvmCall env _).bind fun _ =>
      .ite ?_ (.pure false)
    refine (blind_psHandleRetransform env c).bind fun bc => Blind.bind ?_ fun _ => .pure true
    exact blind_of_frame (fun _ _ => rfl) (fun _ => rfl) fun _ => rfl

theorem blind_retransformPending (c : CStr) (loader : Option Nat) (sig : Option CStr) (bc : Bytecode)
    (pid : Int) : Blind hid (retransformPending env c loader sig bc pid) := by
  refine Blind.bind ?_ fun _ => (blind_jniRetransformClass env c loader).bind fun _ =>
    Blind.bind ?_ fun _ => .pure _
  · exact blind_of_frame (fun _ _ => rfl) (fun _ => rfl) fun _ => rfl
  · exact blind_of_frame (fun _ _ => rfl) (fun _ => rfl) fun _ => rfl

theorem blind_restoreClass (c c' : CStr) : Blind hid (restoreClass env c c') := by
  refine (blind_doInstrumentation env c).bind fun bc => ?_
  cases bc with
  | none => exact .pure _
  | some bc =>
    exact (blind_classLoader c).bind fun _ =>
      (blind_retransformPending env c' _ _ _ _).bind fun _ => .pure _

theorem blind_allocClassInfo (name : CStr) (bytecode : List UInt8) (loader : Option Nat) :
    Blind hid (allocClassInfo env name bytecode loader) := by
  refine (blind_malloc env).bind fun _ => (blind_malloc env).bind fun _ =>
    (blind_newPstring env name).bind fun name => (blind_malloc env).bind fun _ =>
      (blind_malloc env).bind fun _ => ?_
  cases name with
  | none => exact .pure none
  | some _ => exact .pure _

/-! ## The master table -/

section

variable {id : Nat} (h : hid id = none)

include h

theorem blind_deref : Blind hid (deref env id) := by
  intro s t hR
  have hent := hR.entry id h
  have hst : t.staleReads = s.staleReads := by rw [hR.rest]
  unfold result final deref
  rw [hent]
  cases s.entry id with
  | some e => exact ⟨rfl, hR⟩
  | none =>
    refine ⟨congrArg env.garbage hst.symm, ?_, hR.nextId, hR.hidden, hR.entry, hR.queue, hR.records⟩
    rw [hst]
    exact congrArg (fun w : World => { w with staleReads := s.staleReads + 1 }) hR.rest

theorem blind_findEntry : Blind hid (findEntry id) := by
  intro s t hR
  refine ⟨?_, hR⟩
  simp only [findEntry, result_read, hR.entry id h]

/-- A change of the table that does the same to both, under an id that is not hidden. -/
theorem blind_updateEntry {f : MasterInstruments → MasterInstruments}
    {g : Option MiEntry → Option MiEntry} (hn : ∀ mi, (f mi).nextId = mi.nextId)
    (hf : ∀ mi id', miFind (f mi) id' = if id' = id then g (miFind mi id) else miFind mi id') :
    Blind hid (.update fun w => { w with masterInstruments := f w.masterInstruments } : M Unit) := by
  intro s t hR
  refine ⟨rfl, ?_, ?_, fun id' e he => ?_, fun id' he => ?_, hR.queue, hR.records⟩
  · exact congrArg (fun w : World => { w with masterInstruments := f t.masterInstruments }) hR.rest
  · exact (hn _).trans (hR.nextId.trans (hn _).symm)
  · have hne : id' ≠ id := by
      rintro rfl
      exact absurd (he.symm.trans h) nofun
    refine ⟨(hf _ id').trans ((if_neg hne).trans (hR.hidden id' e he).1),
      (hf _ id').trans ((if_neg hne).trans (hR.hidden id' e he).2)⟩
  · show miFind (f t.masterInstruments) id' = miFind (f s.masterInstruments) id'
    rw [hf, hf]
    split
    · exact congrArg g (hR.entry id h)
    · exact hR.entry id' he

theorem blind_removeEntry : Blind hid (removeEntry id) :=
  blind_updateEntry (f := (miRemove · id)) (g := fun _ => none) h (fun _ => rfl)
    fun mi id' => find_miRemove mi id id'

theorem blind_modifyEntry (f : MiEntry → MiEntry) : Blind hid (modifyEntry id f) :=
  blind_updateEntry (f := (miModify · id f)) (g := Option.map f) h (fun _ => rfl)
    fun mi id' => find_miModify mi id id' f

end

theorem Alike.nextId_free {s t : World} (h : Alike hid s t) :
    hid s.masterInstruments.nextId = none := by
  cases he : hid s.masterInstruments.nextId with
  | none => rfl
  | some e =>
    exact absurd ((h.hidden _ e he).1.symm.trans (find_nextId s.masterInstruments)) nofun

theorem Alike.zero_free {s t : World} (h : Alike hid s t) : hid 0 = none := by
  cases he : hid 0 with
  | none => rfl
  | some e =>
    have hpos := (s.masterInstruments.ids 0 (by
      rw [show s.masterInstruments.tab.lookup 0 = some e from (h.hidden 0 e he).1]
      exact nofun)).1
    exact absurd hpos (Nat.lt_irrefl 0)

/-- What an insertion returns: the entry under an id that is not hidden, or nothing. -/
def MiVal.Free (hid : Nat → Option MiEntry) (v : MiVal) : Prop :=
  v.entry.getD 0 = v.id ∧ hid v.id = none

/-- An insertion does not depend on the other entries when a larger table can be had. -/
theorem blind_insertEntry (hgrow : ∀ n, env.tabAlloc n = true) (e : MiEntry) :
    Blind hid (insertEntry env e) := by
  refine (blind_malloc env).bind fun keyOk =>
    (blind_tabCalloc env).bind_of (· = true) (fun s _ _ => hgrow _) ?_
  rintro _ rfl s t hR
  -- without a key the insertion fails in both worlds
  have hfail : ∀ mi : MasterInstruments, (mi.tab.addResult mi.nextId e keyOk true).err = !keyOk := by
    intro mi
    cases keyOk with
    | true => exact Table.addResult_err ..
    | false => rfl
  cases keyOk with
  | false =>
    have hval : ∀ mi, miInsertVal mi e false true = ⟨0, none⟩ := fun mi => by
      rw [miInsertVal, hfail]
      rfl
    have hkeep : ∀ mi, miInsert mi e false true = mi := fun mi => dif_pos (hfail mi)
    refine ⟨(hval s.masterInstruments).trans (hval t.masterInstruments).symm, ?_⟩
    show Alike hid { s with masterInstruments := miInsert s.masterInstruments e false true }
      { t with masterInstruments := miInsert t.masterInstruments e false true }
    rw [hkeep, hkeep]
    exact hR
  | true =>
    -- with one it takes the same id in both, which no hidden entry has
    have hins : ∀ mi : MasterInstruments, miInsertVal mi e true true = ⟨mi.nextId, some mi.nextId⟩ ∧
        (miInsert mi e true true).nextId = mi.nextId + 1 ∧
        ∀ id, miFind (miInsert mi e true true) id =
          if id = mi.nextId then some e else miFind mi id := by
      intro mi
      rcases miInsert_cases mi e true true with ⟨hv, -⟩ | hok
      · rw [miInsertVal_ok] at hv
        exact absurd (congrArg MiVal.entry hv) (by simp)
      · exact hok
    obtain ⟨hvs, hns, hfs⟩ := hins s.masterInstruments
    obtain ⟨hvt, hnt, hft⟩ := hins t.masterInstruments
    refine ⟨by simp only [result, hvs, hvt, hR.nextId], ?_, ?_, fun id' e' he => ?_, fun id' he => ?_,
      hR.queue, hR.records⟩
    · exact congrArg (fun w : World =>
        { w with masterInstruments := miInsert t.masterInstruments e true true }) hR.rest
    · exact hnt.trans ((congrArg (· + 1) hR.nextId).trans hns.symm)
    · have hne : id' ≠ s.masterInstruments.nextId := by
        rintro rfl
        exact absurd (he.symm.trans hR.nextId_free) (by simp)
      refine ⟨(hfs id').trans ((if_neg hne).trans (hR.hidden id' e' he).1), (hft id').trans ?_⟩
      rw [hR.nextId, if_neg hne]
      exact (hR.hidden id' e' he).2
    · show miFind (miInsert t.masterInstruments e true true) id' =
        miFind (miInsert s.masterInstruments e true true) id'
      rw [hfs, hft, hR.nextId]
      split
      · rfl
      · exact hR.entry id' he

theorem Alike.free {s t w' : World} (hR : Alike hid s t) {v : MiVal}
    (h : NotInserted s w' v ∨ ∃ e, Inserted s w' v e) : v.Free hid := by
  rcases h with h | ⟨e, h⟩
  · rw [h.1]
    exact ⟨rfl, hR.zero_free⟩
  · rw [h.1]
    exact ⟨rfl, hR.nextId_free⟩

theorem blind_miAddMethod (hgrow : ∀ n, env.tabAlloc n = true) (c m : CStr) :
    Blind hid (miAddMethod env c m) := by
  refine (blind_malloc env).bind fun _ => .ite ?_ (.pure _)
  refine (blind_newPstring env c).bind fun c => (blind_newPstring env m).bind fun m => ?_
  rcases c with _ | c <;> rcases m with _ | m
  · exact .pure _
  · exact .pure _
  · exact .pure _
  · exact blind_insertEntry env hgrow _

theorem blind_miAddLinep (hgrow : ∀ n, env.tabAlloc n = true) (c x : Pstring) (l l' : UInt32) :
    Blind hid (miAddLinep env c x l l') := by
  refine (blind_malloc env).bind fun _ => .ite ?_ (.pure _)
  refine (blind_dupPstring env c).bind fun c => (blind_dupPstring env x).bind fun x => ?_
  rcases c with _ | c <;> rcases x with _ | x
  · exact .pure _
  · exact .pure _
  · exact .pure _
  · exact blind_insertEntry env hgrow _

/-! ## The records -/

theorem ClassInfo.Avoids.of_subset {ci ci' : ClassInfo} (h : ci.Avoids hid)
    (hm : ci'.instrumented ⊆ ci.instrumented) (hl : ci'.lines ⊆ ci.lines) : ci'.Avoids hid :=
  ⟨fun m h' => h.1 m (hm h'), fun r h' => h.2 r (hl h')⟩

theorem ClassInfo.Avoids.addMethod {ci : ClassInfo} (h : ci.Avoids hid) {m : InstrumentedMethod}
    (hm : hid m.instrumentId = none) : (ciAddInstrumentedMethod m ci).Avoids hid := by
  refine ⟨fun m' h' => ?_, h.2⟩
  rcases List.mem_append.mp h' with h' | h'
  · exact h.1 m' h'
  · exact List.mem_singleton.mp h' ▸ hm

theorem ClassInfo.Avoids.addLine {ci : ClassInfo} (h : ci.Avoids hid) {r : InstrumentedLine}
    (hr : hid r.instrumentId = none) : (ciAddInstrumentedLine r ci).Avoids hid := by
  refine ⟨h.1, fun r' h' => ?_⟩
  rcases List.mem_append.mp h' with h' | h'
  · exact h.2 r' h'
  · exact List.mem_singleton.mp h' ▸ hr

theorem blind_modifyClass {f : ClassInfo → ClassInfo} (c : CStr)
    (hf : ∀ ci, ci.Avoids hid → (f ci).Avoids hid) : Blind hid (modifyClass c f) := by
  intro s t hR
  have hclasses : t.loadedClasses = s.loadedClasses := by rw [hR.rest]
  refine ⟨rfl, ?_, hR.nextId, hR.hidden, hR.entry, hR.queue, fun c' ci' hci => ?_⟩
  · show { t with loadedClasses := t.loadedClasses.modify c f } = _
    rw [hclasses]
    exact congrArg (fun w : World => { w with loadedClasses := s.loadedClasses.modify c f }) hR.rest
  · have hl : (s.loadedClasses.modify c f).lookup c' = some ci' := hci
    rw [Table.lookup_modify] at hl
    split at hl
    · obtain ⟨ci, hci₀, rfl⟩ := Option.map_eq_some_iff.mp hl
      exact hf ci (hR.records c ci hci₀)
    · exact hR.records c' ci' hl

theorem blind_dropMethod (c s : CStr) : Blind hid (modifyClass c (ciRemoveInstrumentedBySig s)) :=
  blind_modifyClass c fun _ h => h.of_subset List.eraseP_subset fun _ h => h

theorem blind_dropLine (c : CStr) (l : UInt32) :
    Blind hid (modifyClass c (ciRemoveInstrumentedLine l)) :=
  blind_modifyClass c fun _ h => h.of_subset (fun _ h => h) List.eraseP_subset

theorem blind_addClass (ci : ClassInfo) (hci : ci.Avoids hid) : Blind hid (addClass env ci) := by
  refine (blind_malloc env).bind fun keyOk => (blind_tabCalloc env).bind fun tabOk s t hR => ?_
  have hclasses : t.loadedClasses = s.loadedClasses := by rw [hR.rest]
  have hout : t.outdated = s.outdated := by rw [hR.rest]
  refine ⟨congrArg (ciListAddResult · ci keyOk tabOk) hclasses.symm, ?_, hR.nextId, hR.hidden, hR.entry,
    hR.queue, fun c ci' hc => ?_⟩
  · show { t with
      loadedClasses := ciListAdd t.loadedClasses ci keyOk tabOk
      outdated := if ciListAddResult t.loadedClasses ci keyOk tabOk = CiListAdd.err then t.outdated
        else t.outdated.filter (· ≠ ci.name.cstr) } = _
    rw [hclasses, hout]
    exact congrArg (fun w : World => { w with
      loadedClasses := ciListAdd s.loadedClasses ci keyOk tabOk
      outdated := if ciListAddResult s.loadedClasses ci keyOk tabOk = CiListAdd.err then s.outdated
        else s.outdated.filter (· ≠ ci.name.cstr) }) hR.rest
  · have hl : (ciListAdd s.loadedClasses ci keyOk tabOk).lookup c = some ci' := hc
    rcases ciListAdd_cases s.loadedClasses ci keyOk tabOk with
      ⟨-, hsame⟩ | ⟨-, -, hadd⟩ | ⟨old, -, hold, hadd⟩
    · rw [hsame] at hl
      exact hR.records c ci' hl
    · rw [hadd] at hl
      split at hl
      · exact Option.some_inj.mp hl ▸ hci
      · exact hR.records c ci' hl
    · rw [hadd] at hl
      split at hl
      · have havoids := hR.records _ old hold
        exact Option.some_inj.mp hl ▸ ⟨havoids.1, havoids.2⟩
      · exact hR.records c ci' hl

theorem blind_modifyQueue {f : List QueuedInstr → List QueuedInstr}
    (hf : ∀ queue, (∀ q ∈ queue, hid q.instrumentId = none) →
      ∀ q ∈ f queue, hid q.instrumentId = none) : Blind hid (modifyQueue f) := by
  intro s t hR
  have hq : t.queuedInstruments = s.queuedInstruments := by rw [hR.rest]
  refine ⟨rfl, ?_, hR.nextId, hR.hidden, hR.entry, hf _ hR.queue, hR.records⟩
  show { t with queuedInstruments := f t.queuedInstruments } = _
  rw [hq]
  exact congrArg (fun w : World => { w with queuedInstruments := f s.queuedInstruments }) hR.rest

theorem blind_appendQueue {q : QueuedInstr} (h : hid q.instrumentId = none) :
    Blind hid (modifyQueue (· ++ [q])) := by
  refine blind_modifyQueue fun queue hqueue q' hq' => ?_
  rcases List.mem_append.mp hq' with hq' | hq'
  · exact hqueue q' hq'
  · exact List.mem_singleton.mp hq' ▸ h

theorem blind_eraseQueue (f : List QueuedInstr → Nat) :
    Blind hid (modifyQueue fun queue => queuedInstrListRemoveAndDestroy queue (f queue)) :=
  blind_modifyQueue fun _ hqueue q hq => hqueue q (List.eraseIdx_subset hq)

theorem blind_takeQueue (iid : Nat) : Blind hid (modifyQueue (removeQueuedInstrById · iid)) := by
  refine blind_modifyQueue fun queue hqueue q hq => hqueue q ?_
  rw [removeQueuedInstrById_eq] at hq
  split at hq
  · exact hq
  · split at hq
    · exact List.mem_of_mem_eraseP (List.mem_of_mem_eraseP hq)
    · exact List.mem_of_mem_eraseP hq

theorem blind_takeQueuedInstrById (iid : Nat) : Blind hid (takeQueuedInstrById iid) :=
  (blind_read fun _ _ => rfl).bind fun _ => (blind_takeQueue iid).bind fun _ => .pure _

theorem blind_takeLine (c : CStr) (l : UInt32) : Blind hid (takeLine c l) :=
  (blind_cls c).bind fun _ => (blind_dropLine c l).bind fun _ =>
    (blind_markOutdated c).bind fun _ => .pure _

theorem blind_takeMethod (c s : CStr) : Blind hid (takeMethod c s) :=
  (blind_cls c).bind fun _ => (blind_dropMethod c s).bind fun _ =>
    (blind_markOutdated c).bind fun _ => .pure _

end JautoProf
