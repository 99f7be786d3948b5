import JautoProf.Jni

/-!
# Calls of the registry (`jni/jni-profiler.c`)

The functions through which the event thread reaches `ProfilerRegistry`. The class and its methods
are looked up once; before that, each function fails without a call.

Results:
1. `wp_jniProfilerInitRefs`: the references are set together or not at all.
2. `wp_jniCreateProfiler`, `wp_jniCreateLineProfiler`, `wp_jniRemoveProfiler`,
   `wp_jniGetProfilerStats`, `wp_jniStopProfilerCollector`: the calls are legal, what was made for
   them is released, and the result says how the method ended.
-/

namespace JautoProf.Jni

open Script Body

/-! ## The references -/

/-- `REGISTRY_CLASS`. -/
def registryClassName : List UInt8 := ascii "app/autoprofiler/ProfilerRegistry"

/-- `CREATE_SIG`. -/
def createSig : List UInt8 := ascii "(JLjava/lang/String;Ljava/lang/String;)I"

/-- `CREATE_LINE_SIG`. -/
def createLineSig : List UInt8 := ascii "(JLjava/lang/String;Ljava/lang/String;II)I"

/-- `REMOVE_SIG`. -/
def removeSig : List UInt8 := ascii "(I)V"

/-- `GET_STATS_SIG`. -/
def getStatsSig : List UInt8 := ascii "()[B"

/-- The static variables; between calls all are set or none. -/
structure RegistryRefs where
  registryClass : Ref
  createMethod : MethodId
  createLineMethod : MethodId
  removeMethod : MethodId
  getStatsMethod : MethodId

/-- A method of the class, or `fail`. -/
def getMethod (cls : Ref) (name signature : List UInt8) : Body Fn Unit MethodId := do
  match ← lift (call (.getStaticMethodID cls name signature)) with
  | none => giveUp
  | some method => pure method

def getMethods (registryClass : Ref) : Body Fn Unit RegistryRefs := do
  let createMethod ← getMethod registryClass (ascii "create") createSig
  let createLineMethod ← getMethod registryClass (ascii "create") createLineSig
  let removeMethod ← getMethod registryClass (ascii "remove") removeSig
  let getStatsMethod ← getMethod registryClass (ascii "getStats") getStatsSig
  pure ⟨registryClass, createMethod, createLineMethod, removeMethod, getStatsMethod⟩

/-- `jni_profiler_init_refs`; it succeeds if the references are set after it. -/
def jniProfilerInitRefs : Option RegistryRefs → Script Fn (Option RegistryRefs)
  | some refs => pure (some refs)
  | none => do
    match ← call (.make (.findClass registryClassName)) with
    | none => pure none
    | some localClass => do
      match ← newGlobalClass localClass with
      | none => pure none
      | some registryClass => do
        let found ← getMethods registryClass ()
        match found.1 with
        | some refs => pure (some refs)
        | none => do
          call (.deleteGlobalRef registryClass)
          pure none

/-! ## The functions -/

/-- The end of a call: an exception is cleared and comes to the code `threw`. -/
def checkThrown (result threw : Int32) : Script Fn Int32 := do
  if ← call .exceptionCheck then do
    call .exceptionClear
    pure threw
  else pure result

/-- What `jni_create_profiler` and `jni_create_line_profiler` share: a call with two strings. -/
def createProfiler (registryClass : Ref) (method : MethodId) (first second : CStr)
    (args : Ref → Ref → List Arg) : Script Fn Int32 := do
  match ← call (.make (.newStringUTF first)) with
  | none => pure (-1)
  | some jFirst => do
    match ← call (.make (.newStringUTF second)) with
    | none => do
      call (.deleteLocalRef jFirst)
      pure (-1)
    | some jSecond => do
      let result ← call (.callStaticIntMethod registryClass method (args jFirst jSecond))
      call (.deleteLocalRef jSecond)
      call (.deleteLocalRef jFirst)
      checkThrown result (-2)

def jniCreateProfiler (refs : Option RegistryRefs) (instrumentId : UInt64)
    (className methodSig : CStr) : Script Fn Int32 :=
  match refs with
  | none => pure (-1)
  | some refs => createProfiler refs.registryClass refs.createMethod className methodSig
      fun jClassName jMethodSig => [.long instrumentId, .object jClassName, .object jMethodSig]

def jniCreateLineProfiler (refs : Option RegistryRefs) (instrumentId : UInt64)
    (entryClass exitClass : CStr) (entryLine exitLine : Int32) : Script Fn Int32 :=
  match refs with
  | none => pure (-1)
  | some refs => createProfiler refs.registryClass refs.createLineMethod entryClass exitClass
      fun jEntryClass jExitClass => [.long instrumentId, .object jEntryClass, .object jExitClass,
        .int entryLine, .int exitLine]

def jniRemoveProfiler (refs : Option RegistryRefs) (profilerId : Int32) : Script Fn Int32 :=
  match refs with
  | none => pure (-1)
  | some refs => do
    call (.callStaticVoidMethod refs.registryClass refs.removeMethod [.int profilerId])
    checkThrown 0 (-1)

/-- The copy of the array that `getStats` returned. -/
def copyStats (result : Ref) : Script Fn (Option (Block × Nat)) := do
  let len ← call (.getArrayLength result)
  match ← call (.malloc len) with
  | none => do
    call (.deleteLocalRef result)
    pure none
  | some buf => do
    call (.getByteArrayRegion result 0 len buf)
    call (.deleteLocalRef result)
    pure (some (buf, len))

/-- `jni_get_profiler_stats`: the buffer and its length. -/
def jniGetProfilerStats (refs : Option RegistryRefs) : Script Fn (Option (Block × Nat)) :=
  match refs with
  | none => pure none
  | some refs => do
    let result ← call (.callStaticObjectMethod refs.registryClass refs.getStatsMethod [])
    if ← call .exceptionCheck then do
      call .exceptionDescribe
      call .exceptionClear
      pure none
    else
      match result with
      | none => pure none
      | some result => copyStats result

def jniStopProfilerCollector (refs : Option RegistryRefs) : Script Fn Int32 :=
  match refs with
  | none => pure (-1)
  | some refs => do
    match ← call (.getStaticMethodID refs.registryClass (ascii "stopCollector") (ascii "()V")) with
    | none => pure (-1)
    | some stopMethod => do
      call (.callStaticVoidMethod refs.registryClass stopMethod [])
      checkThrown 0 (-1)

/-! ## The references, proved -/

/-- The references are those of the class and of the methods that they are named after. -/
structure RegistryRefs.Valid (refs : RegistryRefs) (s : State) : Prop where
  mem : refs.registryClass ∈ s.globals
  cls : s.value refs.registryClass = .cls registryClassName
  create : refs.createMethod = ⟨registryClassName, ascii "create", createSig⟩
  createLine : refs.createLineMethod = ⟨registryClassName, ascii "create", createLineSig⟩
  remove : refs.removeMethod = ⟨registryClassName, ascii "remove", removeSig⟩
  getStats : refs.getStatsMethod = ⟨registryClassName, ascii "getStats", getStatsSig⟩

/-- The global references that the variables hold. -/
def RegistryRefs.held : Option RegistryRefs → Multiset Ref
  | some refs => {refs.registryClass}
  | none => 0

/-- What `jni_profiler_init_refs` does to the state. -/
structure RegistryRefs.Set (s : State) (before after : Option RegistryRefs) (t : State) : Prop
    extends Refreshed s (held before) (held after) t where
  valid : ∀ refs ∈ after, refs.Valid t
  pending : after.isSome → t.pending = false
  failed : after = none → t.failed = true ∧ t.refused = true

section

variable {s t : State}

theorem RegistryRefs.held_le {refs : Option RegistryRefs} (h : ∀ r ∈ refs, r.Valid s) :
    held refs ≤ s.globals := by
  cases refs with
  | none => exact Multiset.zero_le _
  | some refs => exact Multiset.singleton_le.mpr (h refs rfl).mem

theorem RegistryRefs.set_none (h : Refreshed s 0 0 t) (hfailed : t.failed = true)
    (hrefused : t.refused = true) :
    RegistryRefs.Set s none none t :=
  { h with
    valid := fun _ h => absurd h (Option.not_mem_none _)
    pending := fun h => absurd h (by decide)
    failed := fun _ => ⟨hfailed, hrefused⟩ }

/-- A method is found, or the state is that of a failure. -/
theorem upto_getMethod {cls : Ref} {clsName name signature : List UInt8}
    (hpending : s.pending = false) (hlive : s.Live cls) (hcls : s.value cls = .cls clsName) :
    Upto jvm (fun _ t => ∃ p, t = s.fail p) () s (getMethod cls name signature) fun method _ t =>
      method = ⟨clsName, name, signature⟩ ∧ t = s :=
  upto_bind.mpr (upto_lift.mpr
    (wp_getStaticMethodID hpending hlive hcls (fun p => ⟨p, rfl⟩) ⟨rfl, rfl⟩))

theorem upto_getMethods {g : Ref} (hmem : g ∈ s.globals) (hcls : s.value g = .cls registryClassName)
    (hpending : s.pending = false) :
    Upto jvm (fun _ t => ∃ p, t = s.fail p) () s (getMethods g) fun refs _ t =>
      t = s ∧ refs.registryClass = g ∧ refs.Valid s := by
  refine (upto_getMethod hpending (.inr hmem) hcls).bind ?_
  rintro create _ _ ⟨rfl, rfl⟩
  refine (upto_getMethod hpending (.inr hmem) hcls).bind ?_
  rintro createLine _ _ ⟨rfl, rfl⟩
  refine (upto_getMethod hpending (.inr hmem) hcls).bind ?_
  rintro remove _ _ ⟨rfl, rfl⟩
  refine (upto_getMethod hpending (.inr hmem) hcls).bind ?_
  rintro getStats _ _ ⟨rfl, rfl⟩
  exact ⟨rfl, rfl, hmem, hcls, rfl, rfl, rfl, rfl⟩

theorem wp_jniProfilerInitRefs {refs : Option RegistryRefs} (hpending : s.pending = false)
    (hvalid : ∀ r ∈ refs, r.Valid s) :
    Wp jvm s (jniProfilerInitRefs refs) (RegistryRefs.Set s refs) := by
  cases refs with
  | some refs =>
    have hrefl := Refreshed.refl (RegistryRefs.held_le hvalid)
    exact ⟨hrefl, hvalid, fun _ => hpending, fun h => absurd h (Option.some_ne_none _)⟩
  | none =>
    have hsame : Refreshed s 0 0 s := Refreshed.refl (Multiset.zero_le _)
    refine wp_bind.mpr (wp_make hpending trivial (fun p => ?_) fun l hl => ?_)
    · exact RegistryRefs.set_none (hsame.fail p) rfl rfl
    · refine wp_bind.mpr (wp_newGlobalClass hpending hl (fun t ht hfailed hrefused => ?_)
        fun g t ht hpending hcls => ?_)
      · exact RegistryRefs.set_none ht hfailed hrefused
      · refine Upto.cleanup (f := fun found _ => match found with
            | some refs => pure (some refs)
            | none => do
              call (.deleteGlobalRef g)
              pure none)
          (upto_getMethods ht.mem hcls hpending) (fun refs _ t' hfound => ?_) fun _ t' hlost => ?_
        · obtain ⟨rfl, hg, hrefs⟩ := hfound
          subst hg
          refine ⟨ht, fun refs' hrefs' => ?_, fun _ => hpending,
            fun h => absurd h (Option.some_ne_none _)⟩
          obtain rfl := Option.mem_some_iff.mp hrefs'
          exact hrefs
        · obtain ⟨p, rfl⟩ := hlost
          refine wp_bind.mpr (wp_deleteGlobalRef ht.mem ?_)
          exact RegistryRefs.set_none (ht.fail p).dropGlobal rfl rfl

end

/-! ## The functions, proved -/

/-- A function of the registry leaves its static variables, and makes these calls. -/
structure Ended (s : State) (calls : List Invocation) (made : Multiset Block) (t : State) : Prop
    extends Leaves s 0 0 made t where
  invocations : t.invocations = s.invocations ++ calls

/-- The code of a method that returns an `int`. -/
inductive IntCode (method : MethodId) (given : List Given) : Int32 → List Invocation → Prop
  | notCalled : IntCode method given (-1) []
  | threw : IntCode method given (-2) [⟨method, given, .threw⟩]
  | returned (i : Int32) : IntCode method given i [⟨method, given, .int i⟩]

/-- The code of a method that returns nothing. -/
inductive VoidCode (method : MethodId) (given : List Given) : Int32 → List Invocation → Prop
  | notCalled : VoidCode method given (-1) []
  | threw : VoidCode method given (-1) [⟨method, given, .threw⟩]
  | returned : VoidCode method given 0 [⟨method, given, .void⟩]

section

variable {s t : State} {method : MethodId}

theorem Ended.nothing (hpending : s.pending = true → s.refused = true) : Ended s [] 0 s :=
  ⟨⟨rfl, ⟨s.globals, (zero_add _).symm, (zero_add _).symm, fun _ _ _ h => h⟩, (zero_add _).symm,
    hpending⟩, (List.append_nil _).symm⟩

theorem Ended.fail (pending : Bool) : Ended s [] 0 (s.fail pending) :=
  ⟨⟨rfl, ⟨s.globals, (zero_add _).symm, (zero_add _).symm, fun _ _ _ h => h⟩, (zero_add _).symm,
    fun _ => rfl⟩, (List.append_nil _).symm⟩

/-- The state after a call, once the local references for it are deleted. -/
theorem Called.ended {base : State} {args : List Arg} {outcome : Outcome} {given : List Given}
    (hc : Called s method args outcome t) (hgiven : args.map (Arg.given s) = given)
    (hvalue : ∀ r, base.Live r → s.value r = base.value r) (hglobals : s.globals = base.globals)
    (hblocks : s.blocks = base.blocks) (hinvocations : s.invocations = base.invocations)
    {t' : State} {made : Multiset Block} (hlocals : t'.locals = base.locals)
    (hglobals' : t'.globals = t.globals) (hvalue' : ∀ r, base.Live r → t'.value r = t.value r)
    (hblocks' : t'.blocks = made + t.blocks) (hinvocations' : t'.invocations = t.invocations)
    (hpending : t'.pending = true → t'.refused = true) :
    Ended base [⟨method, given, outcome⟩] made t' := by
  refine ⟨⟨hlocals, ⟨base.globals, (zero_add _).symm, ?_, fun r hr name hname => ?_⟩, ?_,
    hpending⟩, ?_⟩
  · rw [hglobals', hc.globals, hglobals, zero_add]
  · have hlike := hc.value r
    rw [hvalue r (.inr hr), hname] at hlike
    exact (hvalue' r (.inr hr)).trans hlike.cls
  · rw [hblocks', hc.blocks, hblocks]
  · rw [hinvocations', hc.invocations, hinvocations, hgiven]

theorem wp_checkThrown {result threw : Int32} {Q : Int32 → State → Prop}
    (hreturned : s.pending = false → Q result s) (hthrew : s.pending = true → Q threw s.clear) :
    Wp jvm s (checkThrown result threw) Q := by
  refine wp_bind.mpr (wp_exceptionCheck (wp_ite (fun h => ?_) fun h => ?_))
  · exact wp_bind.mpr (wp_exceptionClear (hthrew h))
  · exact hreturned (Bool.eq_false_iff.mpr h)

/-- The two strings are those of the call, and are deleted in every case. -/
theorem wp_createProfiler {cls : Ref} (hpending : s.pending = false) (hmem : cls ∈ s.globals)
    (hcls : s.value cls = .cls method.cls) {first second : CStr} {args : Ref → Ref → List Arg}
    {given : List Given}
    (hgiven : ∀ (s : State) a b, s.value a = .string first.val → s.value b = .string second.val →
      (args a b).map (Arg.given s) = given)
    (hlive : ∀ (s : State) a b, s.Live a → s.Live b → ∀ x ∈ args a b, x.Live s)
    (hsignature : method.signature = methodDescriptor given (ascii "I")) :
    Wp jvm s (createProfiler cls method first second args) fun i t =>
      ∃ calls, IntCode method given i calls ∧ Ended s calls 0 t := by
  refine wp_bind.mpr (wp_make hpending trivial (fun p => ?_) fun a ha => ?_)
  · exact ⟨[], .notCalled, .fail p⟩
  have herase : (a ::ₘ s.locals).erase a = s.locals := Multiset.erase_cons_head a _
  have hvalue {r : Ref} (hr : s.Live r) :
      (s.addLocal a (.string first.val)).value r = s.value r :=
    State.value_addLocal_of_live ha hr
  refine wp_bind.mpr (wp_make hpending trivial (fun p => ?_) fun b hb => ?_)
  · refine wp_bind.mpr (wp_deleteLocalRef (Multiset.mem_cons_self a _) ?_)
    exact ⟨[], .notCalled, ⟨⟨herase, ⟨s.globals, (zero_add _).symm, (zero_add _).symm,
      fun r hr name hname => (hvalue (.inr hr)).trans hname⟩, (zero_add _).symm, fun _ => rfl⟩,
      (List.append_nil _).symm⟩⟩
  · let called := (s.addLocal a (.string first.val)).addLocal b (.string second.val)
    have ha' : called.Live a := State.live_addLocal.addLocal
    have hb' : called.Live b := State.live_addLocal
    have hvalue' (r : Ref) (hr : s.Live r) : called.value r = s.value r :=
      (State.value_addLocal_of_live hb hr.addLocal).trans (hvalue hr)
    have hfirst : called.value a = .string first.val :=
      (State.value_addLocal_of_live hb State.live_addLocal).trans State.value_addLocal_self
    have hargs := hgiven called a b hfirst State.value_addLocal_self
    have hinvokes : Invokes called cls method (args a b) (ascii "I") :=
      ⟨.inr hmem, (hvalue' cls (.inr hmem)).trans hcls, hlive called a b ha' hb',
        hargs.symm ▸ hsignature⟩
    have hended {outcome : Outcome} {t t' : State} (hc : Called called method (args a b) outcome t)
        (hlocals : t'.locals = (t.locals.erase b).erase a) (hglobals : t'.globals = t.globals)
        (hvalues : t'.value = t.value) (hblocks : t'.blocks = t.blocks)
        (hinvocations : t'.invocations = t.invocations) (hpending : t'.pending = false) :
        Ended s [⟨method, given, outcome⟩] 0 t' := by
      refine hc.ended hargs hvalue' rfl rfl rfl ?_ hglobals (fun _ _ => congrFun hvalues _)
        (hblocks.trans (zero_add _).symm) hinvocations
        fun h => absurd (hpending.symm.trans h) (by decide)
      rw [hlocals, hc.locals]
      exact (congrArg (·.erase a) (Multiset.erase_cons_head b _)).trans herase
    have hdeletes {i : Int32} {outcome : Outcome} {t : State}
        (hc : Called called method (args a b) outcome t) {Q : Int32 → State → Prop}
        (hQ : Wp jvm ((t.dropLocal b).dropLocal a) (checkThrown i (-2)) Q) :
        Wp jvm t (do
          call (.deleteLocalRef b)
          call (.deleteLocalRef a)
          checkThrown i (-2)) Q := by
      have hlocals : t.locals = b ::ₘ a ::ₘ s.locals := hc.locals
      refine wp_bind.mpr (wp_deleteLocalRef (hlocals ▸ Multiset.mem_cons_self b _) ?_)
      refine wp_bind.mpr (wp_deleteLocalRef ?_ hQ)
      rw [State.dropLocal_locals, hlocals, Multiset.erase_cons_head]
      exact Multiset.mem_cons_self a _
    refine wp_bind.mpr (wp_callStaticIntMethod hpending hinvokes (fun i t hc => hdeletes hc ?_)
      fun i t hc => hdeletes hc ?_)
    · have hthrown : t.pending = true := hc.pending
      refine wp_checkThrown (fun h => absurd (hthrown.symm.trans h) (by decide)) fun _ => ?_
      exact ⟨_, .threw, hended hc rfl rfl rfl rfl rfl rfl⟩
    · have hreturned : t.pending = false := hc.pending
      refine wp_checkThrown (fun _ => ?_) fun h => absurd (hreturned.symm.trans h) (by decide)
      exact ⟨_, .returned i, hended hc rfl rfl rfl rfl rfl hreturned⟩

end

/-! ## Each function -/

/-- What `jni_create_profiler` passes on. -/
def createGiven (instrumentId : UInt64) (className methodSig : CStr) : List Given :=
  [.long instrumentId, .object (.string className.val), .object (.string methodSig.val)]

/-- What `jni_create_line_profiler` passes on. -/
def createLineGiven (instrumentId : UInt64) (entryClass exitClass : CStr)
    (entryLine exitLine : Int32) : List Given :=
  createGiven instrumentId entryClass exitClass ++ [.int entryLine, .int exitLine]

/-- The result of `jni_get_profiler_stats`: nothing, or the bytes that `getStats` returned. -/
inductive StatsResult (t : State) : Option (Block × Nat) → List Invocation → Prop
  | notCalled : StatsResult t none []
  | nothing (outcome : Outcome) :
      StatsResult t none [⟨⟨registryClassName, ascii "getStats", getStatsSig⟩, [], outcome⟩]
  | copied {b : Block} {bs : List UInt8} (hsize : b.size = bs.length)
      (hstored : t.stored b = .bytes bs) : StatsResult t (some (b, bs.length))
        [⟨⟨registryClassName, ascii "getStats", getStatsSig⟩, [], .object (.bytes bs)⟩]

section

variable {s : State} {refs : Option RegistryRefs}

theorem wp_jniCreateProfiler (hpending : s.pending = false) (hvalid : ∀ r ∈ refs, r.Valid s)
    (instrumentId : UInt64) (className methodSig : CStr) :
    Wp jvm s (jniCreateProfiler refs instrumentId className methodSig) fun i t => ∃ calls,
      IntCode ⟨registryClassName, ascii "create", createSig⟩
        (createGiven instrumentId className methodSig) i calls ∧ Ended s calls 0 t := by
  cases refs with
  | none =>
    exact ⟨[], .notCalled, Ended.nothing fun h => absurd (hpending.symm.trans h) (by decide)⟩
  | some refs =>
    have hrefs := hvalid refs rfl
    rw [← hrefs.create]
    refine wp_createProfiler hpending hrefs.mem (hrefs.create ▸ hrefs.cls)
      (fun s a b ha hb => ?_) (fun s a b ha hb x hx => ?_) (hrefs.create ▸ rfl)
    · show [Given.long instrumentId, .object (s.value a), .object (s.value b)] = _
      rw [ha, hb]
      rfl
    · simp only [List.mem_cons, List.not_mem_nil, or_false] at hx
      rcases hx with rfl | rfl | rfl
      · trivial
      · exact ha
      · exact hb

theorem wp_jniCreateLineProfiler (hpending : s.pending = false) (hvalid : ∀ r ∈ refs, r.Valid s)
    (instrumentId : UInt64) (entryClass exitClass : CStr) (entryLine exitLine : Int32) :
    Wp jvm s (jniCreateLineProfiler refs instrumentId entryClass exitClass entryLine exitLine)
      fun i t => ∃ calls, IntCode ⟨registryClassName, ascii "create", createLineSig⟩
        (createLineGiven instrumentId entryClass exitClass entryLine exitLine) i calls ∧
          Ended s calls 0 t := by
  cases refs with
  | none =>
    exact ⟨[], .notCalled, Ended.nothing fun h => absurd (hpending.symm.trans h) (by decide)⟩
  | some refs =>
    have hrefs := hvalid refs rfl
    rw [← hrefs.createLine]
    refine wp_createProfiler hpending hrefs.mem (hrefs.createLine ▸ hrefs.cls)
      (fun s a b ha hb => ?_) (fun s a b ha hb x hx => ?_) (hrefs.createLine ▸ rfl)
    · show [Given.long instrumentId, .object (s.value a), .object (s.value b), .int entryLine,
        .int exitLine] = _
      rw [ha, hb]
      rfl
    · simp only [List.mem_cons, List.not_mem_nil, or_false] at hx
      rcases hx with rfl | rfl | rfl | rfl | rfl
      · trivial
      · exact ha
      · exact hb
      · trivial
      · trivial

/-- A call of a static method without references, and the check after it. -/
theorem wp_callVoid {cls : Ref} {method : MethodId} {args : List Arg} {given : List Given}
    (hpending : s.pending = false) (hinvokes : Invokes s cls method args (ascii "V"))
    (hgiven : args.map (Arg.given s) = given) :
    Wp jvm s (do
      call (.callStaticVoidMethod cls method args)
      checkThrown 0 (-1)) fun i t =>
        ∃ calls, VoidCode method given i calls ∧ Ended s calls 0 t := by
  refine wp_bind.mpr (wp_callStaticVoidMethod hpending hinvokes (fun t hc => ?_) fun t hc => ?_)
  · have hthrown : t.pending = true := hc.pending
    refine wp_checkThrown (fun h => absurd (hthrown.symm.trans h) (by decide)) fun _ => ?_
    exact ⟨_, .threw, hc.ended hgiven (fun _ _ => rfl) rfl rfl rfl hc.locals rfl
      (fun _ _ => rfl) (zero_add _).symm rfl fun h => absurd h Bool.false_ne_true⟩
  · have hreturned : t.pending = false := hc.pending
    refine wp_checkThrown (fun _ => ?_) fun h => absurd (hreturned.symm.trans h) (by decide)
    exact ⟨_, .returned, hc.ended hgiven (fun _ _ => rfl) rfl rfl rfl hc.locals rfl
      (fun _ _ => rfl) (zero_add _).symm rfl fun h => absurd (hreturned.symm.trans h) (by decide)⟩

theorem wp_jniRemoveProfiler (hpending : s.pending = false) (hvalid : ∀ r ∈ refs, r.Valid s)
    (profilerId : Int32) :
    Wp jvm s (jniRemoveProfiler refs profilerId) fun i t => ∃ calls,
      VoidCode ⟨registryClassName, ascii "remove", removeSig⟩ [.int profilerId] i calls ∧
        Ended s calls 0 t := by
  cases refs with
  | none =>
    exact ⟨[], .notCalled, Ended.nothing fun h => absurd (hpending.symm.trans h) (by decide)⟩
  | some refs =>
    have hrefs := hvalid refs rfl
    rw [← hrefs.remove]
    refine wp_callVoid hpending ⟨.inr hrefs.mem, hrefs.remove ▸ hrefs.cls, ?_, ?_⟩ rfl
    · intro a ha
      obtain rfl := List.mem_singleton.mp ha
      trivial
    · rw [hrefs.remove]
      rfl

theorem wp_jniStopProfilerCollector (hpending : s.pending = false)
    (hvalid : ∀ r ∈ refs, r.Valid s) :
    Wp jvm s (jniStopProfilerCollector refs) fun i t => ∃ calls,
      VoidCode ⟨registryClassName, ascii "stopCollector", ascii "()V"⟩ [] i calls ∧
        Ended s calls 0 t := by
  cases refs with
  | none =>
    exact ⟨[], .notCalled, Ended.nothing fun h => absurd (hpending.symm.trans h) (by decide)⟩
  | some refs =>
    have hrefs := hvalid refs rfl
    refine wp_bind.mpr (wp_getStaticMethodID hpending (.inr hrefs.mem) hrefs.cls (fun p => ?_) ?_)
    · exact ⟨[], .notCalled, .fail p⟩
    · refine wp_callVoid hpending ⟨.inr hrefs.mem, hrefs.cls, ?_, rfl⟩ rfl
      exact fun a ha => absurd ha List.not_mem_nil

theorem wp_jniGetProfilerStats (hpending : s.pending = false) (hvalid : ∀ r ∈ refs, r.Valid s) :
    Wp jvm s (jniGetProfilerStats refs) fun out t => ∃ calls, StatsResult t out calls ∧
      Ended s calls ↑(out.map Prod.fst).toList t := by
  cases refs with
  | none =>
    exact ⟨[], .notCalled, Ended.nothing fun h => absurd (hpending.symm.trans h) (by decide)⟩
  | some refs =>
    have hrefs := hvalid refs rfl
    have hinvokes : Invokes s refs.registryClass refs.getStatsMethod [] (ascii "[B") :=
      ⟨.inr hrefs.mem, hrefs.getStats ▸ hrefs.cls, fun a ha => absurd ha List.not_mem_nil,
        hrefs.getStats ▸ rfl⟩
    refine wp_bind.mpr (wp_callStaticObjectMethod hpending hinvokes (fun outcome t _ hc => ?_)
      fun r bs t hr hc => ?_)
    · have hended {t' : State} (hlocals : t'.locals = t.locals) (hglobals : t'.globals = t.globals)
          (hvalues : t'.value = t.value) (hblocks : t'.blocks = t.blocks)
          (hinvocations : t'.invocations = t.invocations) (hpending : t'.pending = false) :
          Ended s [⟨⟨registryClassName, ascii "getStats", getStatsSig⟩, [], outcome⟩] 0 t' := by
        rw [← hrefs.getStats]
        exact hc.ended rfl (fun _ _ => rfl) rfl rfl rfl (hlocals.trans hc.locals) hglobals
          (fun _ _ => congrFun hvalues _) (hblocks.trans (zero_add _).symm) hinvocations
          fun h => absurd (hpending.symm.trans h) (by decide)
      refine wp_bind.mpr (wp_exceptionCheck (wp_ite (fun _ => ?_) fun h => ?_))
      · refine wp_bind.mpr (wp_exceptionDescribe ?_ ?_)
        · exact wp_bind.mpr (wp_exceptionClear
            ⟨_, .nothing outcome, hended rfl rfl rfl rfl rfl rfl⟩)
        · exact wp_bind.mpr (wp_exceptionClear
            ⟨_, .nothing outcome, hended rfl rfl rfl rfl rfl rfl⟩)
      · exact ⟨_, .nothing outcome, hended rfl rfl rfl rfl rfl (Bool.eq_false_iff.mpr h)⟩
    · have hreturned : t.pending = false := hc.pending
      have hr' : ¬t.Live r := by
        unfold State.Live
        rw [hc.locals, hc.globals]
        exact hr
      have herase : (r ::ₘ t.locals).erase r = s.locals :=
        (Multiset.erase_cons_head r _).trans hc.locals
      have hvalue (q : Ref) (hq : s.Live q) : (t.addLocal r (.bytes bs)).value q = t.value q :=
        Function.update_of_ne (hq.ne hr) _ _
      have hlive : (t.addLocal r (.bytes bs)).Live r := State.live_addLocal
      refine wp_bind.mpr (wp_exceptionCheck ?_)
      rw [State.addLocal_pending, hreturned]
      refine wp_bind.mpr (wp_getArrayLength hreturned hlive State.value_addLocal_self
        (wp_bind.mpr (wp_malloc ?_ fun b hsize _ => ?_)))
      · refine wp_bind.mpr (wp_deleteLocalRef (Multiset.mem_cons_self r _) ?_)
        refine ⟨_, .nothing (.object (.bytes bs)), ?_⟩
        rw [← hrefs.getStats]
        exact hc.ended rfl (fun _ _ => rfl) rfl rfl rfl herase rfl hvalue (zero_add _).symm rfl
          fun _ => rfl
      · refine wp_bind.mpr (wp_getByteArrayRegion hreturned hlive
          State.value_addLocal_self (Multiset.mem_cons_self b _) hsize ?_)
        refine wp_bind.mpr (wp_deleteLocalRef (Multiset.mem_cons_self r _) ?_)
        refine ⟨_, .copied hsize (Function.update_self _ _ _), ?_⟩
        rw [← hrefs.getStats]
        exact hc.ended rfl (fun _ _ => rfl) rfl rfl rfl herase rfl hvalue rfl rfl
          fun h => absurd (hreturned.symm.trans h) (by decide)

end

end JautoProf.Jni
