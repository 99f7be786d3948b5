import JautoProf.InstrumentParams
import JautoProf.JniRegistry

/-!
# The JNI calls of a thread

The event thread calls the functions of `jni/` one after the other, whatever the requests are; the
static variables stay between them. A `Session` is any sequence of such calls and of releases of
the buffers that they returned. It goes on while no exception is pending: a function that returns
with one leaves the thread in a state in which no JNI function is safe.

Results:
1. `Entry.wp_run`: one function, from any state of the static variables.
2. `session_meets`: in every session the local references do not grow, the global references are
   those of the static variables and the allocations the buffers that were returned; an exception is
   left only where the JVM refused a request; and otherwise every next call is legal.
-/

namespace JautoProf.Jni

open Script

/-! ## The functions -/

/-- The static variables of `bc-instrument.c` and `jni-profiler.c`. -/
structure Statics where
  transformer : Option TransformerRefs
  registry : Option RegistryRefs

inductive Entry
  | bcInstrumentInitRefs
  | jniProfilerInitRefs
  | jniCreateProfiler (instrumentId : UInt64) (className methodSig : CStr)
  | jniCreateLineProfiler (instrumentId : UInt64) (entryClass exitClass : CStr)
      (entryLine exitLine : Int32)
  | jniRemoveProfiler (profilerId : Int32)
  | jniGetProfilerStats
  | jniStopProfilerCollector
  | doInstrumentation (ci : ClassInfo)

/-- The result of a function: an `int`, or a buffer and its length. -/
inductive Reply
  | code (i : Int32)
  | buffer (out : Option (Block × Nat))

/-- The allocation that the caller is given. -/
def Reply.made : Reply → Multiset Block
  | code _ => 0
  | buffer out => ↑(out.map Prod.fst).toList

/-- The `int` of an initialization. -/
def initCode {A : Type} (refs : Option A) : Reply := .code (if refs.isSome then 0 else -1)

def Entry.run (σ : Statics) : Entry → Script Fn (Reply × Statics)
  | bcInstrumentInitRefs => do
    let transformer ← Jni.bcInstrumentInitRefs σ.transformer
    pure (initCode transformer, { σ with transformer })
  | jniProfilerInitRefs => do
    let registry ← Jni.jniProfilerInitRefs σ.registry
    pure (initCode registry, { σ with registry })
  | jniCreateProfiler instrumentId className methodSig => do
    let i ← Jni.jniCreateProfiler σ.registry instrumentId className methodSig
    pure (.code i, σ)
  | jniCreateLineProfiler instrumentId entryClass exitClass entryLine exitLine => do
    let i ← Jni.jniCreateLineProfiler σ.registry instrumentId entryClass exitClass entryLine exitLine
    pure (.code i, σ)
  | jniRemoveProfiler profilerId => do
    let i ← Jni.jniRemoveProfiler σ.registry profilerId
    pure (.code i, σ)
  | jniGetProfilerStats => do
    let out ← Jni.jniGetProfilerStats σ.registry
    pure (.buffer out, σ)
  | jniStopProfilerCollector => do
    let i ← Jni.jniStopProfilerCollector σ.registry
    pure (.code i, σ)
  | doInstrumentation ci => do
    let r ← Jni.doInstrumentation σ.transformer ci
    pure (.buffer r.1, { σ with transformer := r.2 })

/-- What the callers see to. -/
def Entry.Admissible : Entry → Prop
  | doInstrumentation ci => Passable ci
  | _ => True

/-! ## What they come to -/

/-- The global references that the static variables hold. -/
def Statics.held (σ : Statics) : Multiset Ref :=
  TransformerRefs.held σ.transformer + RegistryRefs.held σ.registry

structure Statics.Valid (σ : Statics) (s : State) : Prop where
  held : σ.held ≤ s.globals
  transformer : ∀ refs ∈ σ.transformer, refs.Valid s
  registry : ∀ refs ∈ σ.registry, refs.Valid s

/-- The methods that a function called, and its result. -/
def Entry.Answers (s t : State) : Entry → Reply → Prop
  | bcInstrumentInitRefs, r => t.invocations = s.invocations ∧ (r = .code (-1) → t.refused = true)
  | jniProfilerInitRefs, r => t.invocations = s.invocations ∧ (r = .code (-1) → t.refused = true)
  | jniCreateProfiler instrumentId className methodSig, r => ∃ i calls, r = .code i ∧
      IntCode ⟨registryClassName, ascii "create", createSig⟩
        (createGiven instrumentId className methodSig) i calls ∧
      t.invocations = s.invocations ++ calls
  | jniCreateLineProfiler instrumentId entryClass exitClass entryLine exitLine, r =>
    ∃ i calls, r = .code i ∧ IntCode ⟨registryClassName, ascii "create", createLineSig⟩
        (createLineGiven instrumentId entryClass exitClass entryLine exitLine) i calls ∧
      t.invocations = s.invocations ++ calls
  | jniRemoveProfiler profilerId, r => ∃ i calls, r = .code i ∧
      VoidCode ⟨registryClassName, ascii "remove", removeSig⟩ [.int profilerId] i calls ∧
      t.invocations = s.invocations ++ calls
  | jniGetProfilerStats, r => ∃ out calls, r = .buffer out ∧ StatsResult t out calls ∧
      t.invocations = s.invocations ++ calls
  | jniStopProfilerCollector, r => ∃ i calls, r = .code i ∧
      VoidCode ⟨registryClassName, ascii "stopCollector", ascii "()V"⟩ [] i calls ∧
      t.invocations = s.invocations ++ calls
  | doInstrumentation ci, r => ∃ out, r = .buffer out ∧ Asked (instrumentParams ci) s t ∧
      (out = none → t.failed = true) ∧
      ∀ b len, out = some (b, len) → (instrumentParams ci).Result s b len t

/-- What a function does. -/
structure Entry.Post (e : Entry) (σ : Statics) (s : State) (r : Reply × Statics) (t : State) :
    Prop extends Leaves s σ.held r.2.held r.1.made t where
  valid : r.2.Valid t
  answers : e.Answers s t r.1

/-! ## One function -/

section

variable {s t : State} {σ : Statics}

/-- The references of the other static variables are left. -/
theorem Leaves.frame {before after others : Multiset Ref} {made : Multiset Block}
    (h : Leaves s before after made t) (hle : before + others ≤ s.globals) :
    Leaves s (before + others) (after + others) made t ∧ after + others ≤ t.globals ∧
      ∀ r ∈ others, ∀ name, s.value r = .cls name → t.value r = .cls name := by
  obtain ⟨rest, hrest⟩ := Multiset.le_iff_exists_add.mp hle
  obtain ⟨rest', hbefore, hafter, hcls⟩ := h.globals
  have hsame : rest' = others + rest := by
    rw [hrest, add_assoc] at hbefore
    exact (add_left_cancel hbefore).symm
  subst hsame
  rw [← add_assoc] at hafter
  refine ⟨⟨h.locals, ⟨rest, hrest, hafter, fun r hr => hcls r ?_⟩, h.blocks, h.pending⟩,
    Multiset.le_iff_exists_add.mpr ⟨rest, hafter⟩, fun r hr => hcls r ?_⟩
  · exact Multiset.mem_add.mpr (.inr hr)
  · exact Multiset.mem_add.mpr (.inl hr)

theorem RegistryRefs.Valid.kept {refs : RegistryRefs} (h : refs.Valid s)
    (hmem : refs.registryClass ∈ t.globals)
    (hcls : ∀ name, s.value refs.registryClass = .cls name →
      t.value refs.registryClass = .cls name) : refs.Valid t :=
  ⟨hmem, hcls _ h.cls, h.create, h.createLine, h.remove, h.getStats⟩

theorem TransformerRefs.Valid.kept {refs : TransformerRefs} (h : refs.Valid s)
    (hmem : refs.transformerClass ∈ t.globals)
    (hcls : ∀ name, s.value refs.transformerClass = .cls name →
      t.value refs.transformerClass = .cls name) : refs.Valid t :=
  ⟨hmem, hcls _ h.cls, h.method⟩

/-- A function of the transformer leaves the references to the registry. -/
theorem post_transformer {e : Entry} {r : Reply} {after : Option TransformerRefs}
    (hσ : σ.Valid s) (h : Leaves s (TransformerRefs.held σ.transformer)
      (TransformerRefs.held after) r.made t)
    (hvalid : ∀ refs ∈ after, refs.Valid t) (hanswers : e.Answers s t r) :
    e.Post σ s (r, { σ with transformer := after }) t := by
  obtain ⟨hleaves, hheld, hcls⟩ := h.frame hσ.held
  refine ⟨hleaves, ⟨hheld, hvalid, fun refs hrefs => ?_⟩, hanswers⟩
  have hmem : refs.registryClass ∈ RegistryRefs.held σ.registry := by
    rw [show σ.registry = some refs from hrefs]
    exact Multiset.mem_singleton_self _
  exact (hσ.registry refs hrefs).kept
    (Multiset.mem_of_le hheld (Multiset.mem_add.mpr (.inr hmem))) (hcls _ hmem)

/-- A function of the registry leaves the references to the transformer. -/
theorem post_registry {e : Entry} {r : Reply} {after : Option RegistryRefs}
    (hσ : σ.Valid s) (h : Leaves s (RegistryRefs.held σ.registry) (RegistryRefs.held after)
      r.made t)
    (hvalid : ∀ refs ∈ after, refs.Valid t) (hanswers : e.Answers s t r) :
    e.Post σ s (r, { σ with registry := after }) t := by
  have hle : RegistryRefs.held σ.registry + TransformerRefs.held σ.transformer ≤ s.globals := by
    rw [add_comm]
    exact hσ.held
  obtain ⟨hleaves, hheld, hcls⟩ := h.frame hle
  rw [add_comm _ (TransformerRefs.held σ.transformer),
    add_comm _ (TransformerRefs.held σ.transformer)] at hleaves
  rw [add_comm] at hheld
  refine ⟨hleaves, ⟨hheld, fun refs hrefs => ?_, hvalid⟩, hanswers⟩
  have hmem : refs.transformerClass ∈ TransformerRefs.held σ.transformer := by
    rw [show σ.transformer = some refs from hrefs]
    exact Multiset.mem_singleton_self _
  exact (hσ.transformer refs hrefs).kept
    (Multiset.mem_of_le hheld (Multiset.mem_add.mpr (.inl hmem))) (hcls _ hmem)

/-- A function that sets no static variable. -/
theorem post_kept {e : Entry} {r : Reply} (hσ : σ.Valid s) (h : Leaves s 0 0 r.made t)
    (hanswers : e.Answers s t r) : e.Post σ s (r, σ) t := by
  have hle : 0 + RegistryRefs.held σ.registry ≤ s.globals := by
    rw [zero_add]
    exact le_trans (Multiset.le_add_left _ _) hσ.held
  obtain ⟨hleaves, hheld, hcls⟩ := h.frame hle
  rw [zero_add] at hleaves hheld
  refine post_registry hσ hleaves (fun refs hrefs => ?_) hanswers
  have hmem : refs.registryClass ∈ RegistryRefs.held σ.registry := by
    rw [show σ.registry = some refs from hrefs]
    exact Multiset.mem_singleton_self _
  exact (hσ.registry refs hrefs).kept (Multiset.mem_of_le hheld hmem) (hcls _ hmem)

theorem initCode_eq {A : Type} {refs : Option A} (h : initCode refs = .code (-1)) :
    refs = none := by
  cases refs with
  | none => rfl
  | some refs =>
    have hcode : (0 : Int32) = -1 := Reply.code.inj h
    exact absurd hcode (by decide)

theorem Entry.wp_run (hpending : s.pending = false) (hσ : σ.Valid s) {e : Entry}
    (he : e.Admissible) : Wp jvm s (e.run σ) (e.Post σ s) := by
  cases e with
  | bcInstrumentInitRefs =>
    refine wp_bind.mpr ((wp_bcInstrumentInitRefs hpending hσ.transformer).mono
      fun after t hset => ?_)
    have hrefused (h : initCode after = .code (-1)) : t.refused = true :=
      (hset.failed (initCode_eq h)).2
    refine post_transformer hσ (hset.leaves fun h => ?_) hset.valid ⟨hset.invocations, hrefused⟩
    cases after with
    | none => exact (hset.failed rfl).2
    | some refs => exact absurd ((hset.pending rfl).symm.trans h) Bool.false_ne_true
  | jniProfilerInitRefs =>
    refine wp_bind.mpr ((wp_jniProfilerInitRefs hpending hσ.registry).mono fun after t hset => ?_)
    have hrefused (h : initCode after = .code (-1)) : t.refused = true :=
      (hset.failed (initCode_eq h)).2
    refine post_registry hσ (hset.leaves fun h => ?_) hset.valid ⟨hset.invocations, hrefused⟩
    cases after with
    | none => exact (hset.failed rfl).2
    | some refs => exact absurd ((hset.pending rfl).symm.trans h) Bool.false_ne_true
  | jniCreateProfiler instrumentId className methodSig =>
    refine wp_bind.mpr ((wp_jniCreateProfiler hpending hσ.registry _ _ _).mono fun i t hdone => ?_)
    obtain ⟨calls, hcode, hended⟩ := hdone
    exact post_kept hσ hended.toLeaves ⟨i, calls, rfl, hcode, hended.invocations⟩
  | jniCreateLineProfiler instrumentId entryClass exitClass entryLine exitLine =>
    refine wp_bind.mpr ((wp_jniCreateLineProfiler hpending hσ.registry _ _ _ _ _).mono
      fun i t hdone => ?_)
    obtain ⟨calls, hcode, hended⟩ := hdone
    exact post_kept hσ hended.toLeaves ⟨i, calls, rfl, hcode, hended.invocations⟩
  | jniRemoveProfiler profilerId =>
    refine wp_bind.mpr ((wp_jniRemoveProfiler hpending hσ.registry _).mono fun i t hdone => ?_)
    obtain ⟨calls, hcode, hended⟩ := hdone
    exact post_kept hσ hended.toLeaves ⟨i, calls, rfl, hcode, hended.invocations⟩
  | jniGetProfilerStats =>
    refine wp_bind.mpr ((wp_jniGetProfilerStats hpending hσ.registry).mono fun out t hdone => ?_)
    obtain ⟨calls, hresult, hended⟩ := hdone
    exact post_kept hσ hended.toLeaves ⟨out, calls, rfl, hresult, hended.invocations⟩
  | jniStopProfilerCollector =>
    refine wp_bind.mpr ((wp_jniStopProfilerCollector hpending hσ.registry).mono
      fun i t hdone => ?_)
    obtain ⟨calls, hcode, hended⟩ := hdone
    exact post_kept hσ hended.toLeaves ⟨i, calls, rfl, hcode, hended.invocations⟩
  | doInstrumentation ci =>
    refine wp_bind.mpr ((wp_doInstrumentation hpending hσ.transformer he).mono fun r t hdone => ?_)
    exact post_transformer hσ hdone.toLeaves hdone.valid
      ⟨r.1, rfl, hdone.asked, hdone.failed, hdone.result⟩

end

/-! ## Sessions -/

/-- What a thread did since the state `s₀`; the buffers `out` were returned to it and not yet
freed. -/
inductive Session (s₀ : State) : Statics → Multiset Block → State → Prop
  | start : Session s₀ ⟨none, none⟩ 0 s₀
  | call {σ : Statics} {out : Multiset Block} {s t : State} {r : Reply × Statics} (e : Entry)
      (h : Session s₀ σ out s) (hpending : s.pending = false) (he : e.Admissible)
      (hexec : Exec jvm s (e.run σ) r t) : Session s₀ r.2 (r.1.made + out) t
  | free {σ : Statics} {out : Multiset Block} {s : State} {b : Block} (h : Session s₀ σ out s)
      (hb : b ∈ out) : Session s₀ σ (out.erase b) (s.dropBlock b)

/-- What the thread holds. -/
structure Balanced (s₀ : State) (σ : Statics) (out : Multiset Block) (s : State) : Prop where
  locals : s.locals = s₀.locals
  globals : s.globals = σ.held + s₀.globals
  blocks : s.blocks = out + s₀.blocks
  valid : σ.Valid s
  pending : s.pending = true → s.refused = true

theorem Balanced.call {s₀ s t : State} {σ : Statics} {out : Multiset Block} {e : Entry}
    {r : Reply × Statics} (h : Balanced s₀ σ out s) (hpost : e.Post σ s r t) :
    Balanced s₀ r.2 (r.1.made + out) t := by
  obtain ⟨others, hbefore, hafter, -⟩ := hpost.globals
  have hothers : others = s₀.globals := add_left_cancel (hbefore.symm.trans h.globals)
  refine ⟨hpost.locals.trans h.locals, hafter.trans (congrArg (_ + ·) hothers), ?_, hpost.valid,
    hpost.pending⟩
  rw [hpost.blocks, h.blocks, add_assoc]

theorem Balanced.free {s₀ s : State} {σ : Statics} {out : Multiset Block} {b : Block}
    (h : Balanced s₀ σ out s) (hb : b ∈ out) :
    Balanced s₀ σ (out.erase b) (s.dropBlock b) := by
  refine ⟨h.locals, h.globals, ?_, ⟨h.valid.held, fun refs hrefs =>
    (h.valid.transformer refs hrefs).congr rfl rfl, fun refs hrefs => ?_⟩, h.pending⟩
  · rw [State.dropBlock_blocks, h.blocks, Multiset.erase_add_left_pos _ hb]
  · exact (h.valid.registry refs hrefs).kept (h.valid.registry refs hrefs).mem fun _ hname => hname

theorem session_balanced {s₀ s : State} {σ : Statics} {out : Multiset Block}
    (hstart : s₀.pending = false) (h : Session s₀ σ out s) : Balanced s₀ σ out s := by
  induction h with
  | start =>
    refine ⟨rfl, (zero_add _).symm, (zero_add _).symm, ⟨Multiset.zero_le _, ?_, ?_⟩,
      fun h => absurd (hstart.symm.trans h) Bool.false_ne_true⟩
    · exact fun _ h => absurd h (Option.not_mem_none _)
    · exact fun _ h => absurd h (Option.not_mem_none _)
  | call e _ hpending he hexec ih =>
    exact ih.call ((meets_iff.mpr (Entry.wp_run hpending ih.valid he)).ends _ _ hexec)
  | free _ hb ih => exact ih.free hb

/-- In every session the thread holds what it should, and its next function does what it should
and makes only legal calls, unless the JVM refused a request and an exception was left. -/
theorem session_meets {s₀ s : State} {σ : Statics} {out : Multiset Block}
    (hstart : s₀.pending = false) (h : Session s₀ σ out s) :
    Balanced s₀ σ out s ∧ (s.pending = false → ∀ e : Entry, e.Admissible →
      Meets jvm s (e.run σ) (e.Post σ s) ∧ ∃ r t, Exec jvm s (e.run σ) r t) := by
  have hbalanced := session_balanced hstart h
  refine ⟨hbalanced, fun hpending e he => ?_⟩
  have hwp := Entry.wp_run hpending hbalanced.valid he
  obtain ⟨r, t, hexec, -⟩ := hwp.exec jvm_answers
  exact ⟨meets_iff.mpr hwp, r, t, hexec⟩

/-- A thread that holds nothing. -/
def idle : State := ⟨0, 0, fun _ => .other, 0, fun _ => .other, false, false, false, []⟩

/-- The static variables once the class of the registry has the global reference 1. -/
def registered : Statics :=
  ⟨none, some ⟨1, ⟨registryClassName, ascii "create", createSig⟩,
    ⟨registryClassName, ascii "create", createLineSig⟩,
    ⟨registryClassName, ascii "remove", removeSig⟩,
    ⟨registryClassName, ascii "getStats", getStatsSig⟩⟩⟩

def registeredState : State :=
  ((idle.addLocal 0 (.cls registryClassName)).addGlobal 1 (.cls registryClassName)).dropLocal 0

theorem exec_jniProfilerInitRefs :
    Exec jvm idle (Entry.jniProfilerInitRefs.run ⟨none, none⟩) (.code 0, registered)
      registeredState := by
  let found := idle.addLocal 0 (.cls registryClassName)
  have hfound : jvm.may (.make (.findClass registryClassName)) idle (some 0) found :=
    ⟨by decide, rfl⟩
  have hglobal : jvm.may (.newGlobalRef 0) found (some 1)
      (found.addGlobal 1 (.cls registryClassName)) := ⟨by decide, rfl⟩
  have hdelete : jvm.may (.deleteLocalRef 0) (found.addGlobal 1 (.cls registryClassName)) ()
      registeredState := rfl
  have hmethod (name signature : List UInt8) :
      jvm.may (.getStaticMethodID 1 name signature) registeredState
        (some ⟨registryClassName, name, signature⟩) registeredState := ⟨rfl, rfl, rfl, rfl⟩
  refine .act hfound (.act hglobal (.act hdelete ?_))
  refine .act (hmethod (ascii "create") createSig) ?_
  refine .act (hmethod (ascii "create") createLineSig) ?_
  refine .act (hmethod (ascii "remove") removeSig) ?_
  exact .act (hmethod (ascii "getStats") getStatsSig) .done

theorem session_meets_registered :
    Balanced idle registered 0 registeredState ∧ ∀ e : Entry, e.Admissible →
      Meets jvm registeredState (e.run registered) (e.Post registered registeredState) ∧
        ∃ r t, Exec jvm registeredState (e.run registered) r t := by
  have hsession : Session idle registered (0 + 0) registeredState :=
    .call .jniProfilerInitRefs .start rfl trivial exec_jniProfilerInitRefs
  have hmeets := session_meets rfl hsession
  exact ⟨hmeets.1, hmeets.2 rfl⟩

end JautoProf.Jni
