import JautoProf.HeldReferences
import JautoProf.InstrumentHandler

/-!
# The parameters of an instrumentation (`class-info.c`, `instrument-handler.c`)

`do_instrumentation` copies the instruments of a class into arrays, and gives these to
`bc_instrument_method`. The arrays are the variables here; the body of the allocation gives up
where one of them is null.

Results:
1. `wp_classInstrumentParamsAlloc`: every array is filled in its bounds, and a failure frees all.
2. `wp_doInstrumentation`: whatever fails, the calls are legal, the transformer is given the
   instruments of the class in their order, and of what was made for it only the result is left.
-/

namespace JautoProf.Jni

open Script Body

/-! ## The parameters of a class -/

/-- `(int)type`. -/
def typeCode : InstrumentType → Int32
  | .enter => 0
  | .exit => 1

/-- What `class_instrument_params_alloc` copies; the bytecode is not copied. -/
def instrumentParams (ci : ClassInfo) : ClassInstrumentParams where
  classData := ci.bytecode
  methodSigs := ci.instrumented.map fun m => cstrOf m.methodSig
  profilerIds := ci.instrumented.map fun m => Int32.ofInt m.profilerId
  lineNumbers := ci.lines.map fun l => l.lineNumber.toInt32
  lineTypes := ci.lines.map fun l => typeCode l.type
  lineProfilerIds := ci.lines.map fun l => Int32.ofInt l.profilerId
  length_profilerIds := List.length_map _ |>.trans (List.length_map _).symm
  length_lineTypes := List.length_map _ |>.trans (List.length_map _).symm
  length_lineProfilerIds := List.length_map _ |>.trans (List.length_map _).symm

/-- No signature is null, and the lengths are those of Java arrays. -/
structure Passable (ci : ClassInfo) : Prop where
  methodSig : ∀ m ∈ ci.instrumented, m.methodSig.isSome
  bytecode : ci.bytecode.length < 2 ^ 31
  instrumented : ci.instrumented.length < 2 ^ 31
  lines : ci.lines.length < 2 ^ 31

/-! ## The arrays -/

/-- The arrays of `struct class_instrument_params`, and the structure itself, as they are freed. -/
inductive ParamVar
  | methodSigs
  | profilerIds
  | lineNumbers
  | lineTypes
  | lineProfilerIds
  | params
deriving DecidableEq

def ParamVar.all : List ParamVar :=
  [.methodSigs, .profilerIds, .lineNumbers, .lineTypes, .lineProfilerIds, .params]

/-- The pointers that are set. -/
abbrev Params : Type := ParamVar → Option Block

/-- The size of `struct class_instrument_params`. -/
def paramsSize : Nat := 72

def allocArray (x : ParamVar) (size : Nat) : Body Fn Params (Option Block) := do
  let b ← lift (call (.malloc size))
  modify (Function.update · x b)
  pure b

section

variable (p : ClassInstrumentParams)

def allocMethods : Body Fn Params Unit := do
  let methodSigs ← allocArray .methodSigs (p.count * 8)
  let profilerIds ← allocArray .profilerIds (p.count * 4)
  match methodSigs, profilerIds with
  | some methodSigs, some profilerIds => do
    lift (call (.fill methodSigs (.strings (p.methodSigs.map fun sig => some sig.val))))
    lift (call (.fill profilerIds (.ints p.profilerIds)))
  | _, _ => giveUp

def allocLines : Body Fn Params Unit :=
  if 0 < p.lineCount then do
    let lineNumbers ← allocArray .lineNumbers (p.lineCount * 4)
    let lineTypes ← allocArray .lineTypes (p.lineCount * 4)
    let lineProfilerIds ← allocArray .lineProfilerIds (p.lineCount * 4)
    match lineNumbers, lineTypes, lineProfilerIds with
    | some lineNumbers, some lineTypes, some lineProfilerIds => do
      lift (call (.fill lineNumbers (.ints p.lineNumbers)))
      lift (call (.fill lineTypes (.ints p.lineTypes)))
      lift (call (.fill lineProfilerIds (.ints p.lineProfilerIds)))
    | _, _, _ => giveUp
  else pure ()

/-- `class_instrument_params_free`. -/
def classInstrumentParamsFree (params : Params) : Script Fn Unit :=
  releaseAll (fun b => call (.free b)) params ParamVar.all

/-- `class_instrument_params_alloc`. -/
def classInstrumentParamsAlloc : Script Fn (Option Params) := do
  match ← call (.malloc paramsSize) with
  | none => pure none
  | some b => do
    let left ← (do allocMethods p; allocLines p : Body Fn Params Unit)
      (Function.update (fun _ => none) .params (some b))
    match left.1 with
    | some () => pure (some left.2)
    | none => do
      classInstrumentParamsFree left.2
      pure none

end

/-- `do_instrumentation`. -/
def doInstrumentation (refs : Option TransformerRefs) (ci : ClassInfo) :
    Script Fn (Option (Block × Nat) × Option TransformerRefs) := do
  match ← classInstrumentParamsAlloc (instrumentParams ci) with
  | none => pure (none, refs)
  | some params => do
    let result ← bcInstrumentMethod refs (instrumentParams ci)
    classInstrumentParamsFree params
    pure result

/-! ## The allocation -/

theorem ParamVar.mem_all (x : ParamVar) : x ∈ ParamVar.all := by
  cases x <;> decide

/-- Beside what was held before, the function holds the arrays that are set. -/
structure ParamsHeld (base : State) (params : Params) (s : State) : Prop where
  locals : s.locals = base.locals
  globals : s.globals = base.globals
  value : s.value = base.value
  blocks : s.blocks = ↑(ParamVar.all.filterMap params) + base.blocks
  pending : s.pending = base.pending
  invocations : s.invocations = base.invocations

section

variable {p : ClassInstrumentParams} {base s : State} {params : Params} {x : ParamVar}

theorem ParamsHeld.mem (h : ParamsHeld base params s) {b : Block} (hx : params x = some b) :
    b ∈ s.blocks := by
  rw [h.blocks]
  exact Multiset.mem_add.mpr
    (.inl (Multiset.mem_coe.mpr (List.mem_filterMap.mpr ⟨x, x.mem_all, hx⟩)))

theorem ParamsHeld.allocated (h : ParamsHeld base params s) (hnone : params x = none) (b : Block) :
    ParamsHeld base (Function.update params x (some b)) (s.addBlock b) :=
  { h with
    blocks := by
      have hperm : (ParamVar.all.filterMap (Function.update params x (some b))).Perm
          (b :: ParamVar.all.filterMap params) :=
        perm_filterMap_update hnone (by decide) x.mem_all
      show b ::ₘ s.blocks = _
      rw [h.blocks, ← Multiset.cons_add, Multiset.coe_eq_coe.mpr hperm]
      rfl }

/-- At a failure some request failed. -/
def ParamsFailed (base : State) (params : Params) (s : State) : Prop :=
  ParamsHeld base params s ∧ s.failed = true

theorem upto_allocArray (h : ParamsHeld base params s) (hnone : params x = none) (size : Nat) :
    Upto jvm (ParamsFailed base) params s (allocArray x size) fun b w t =>
      w = Function.update params x b ∧ ParamsHeld base w t ∧
        (s.failed = true ∨ b = none → t.failed = true) ∧ ∀ a, b = some a → a.size = size := by
  refine upto_bind.mpr (upto_lift.mpr (wp_malloc ?_ fun b hsize _ => ?_))
  · have hsame : Function.update params x none = params := by
      rw [← hnone, Function.update_eq_self]
    refine ⟨rfl, ?_, fun _ => rfl, fun _ h => absurd h.symm (Option.some_ne_none _)⟩
    show ParamsHeld base (Function.update params x none) _
    rw [hsame]
    exact ⟨h.locals, h.globals, h.value, h.blocks, h.pending, h.invocations⟩
  · refine ⟨rfl, h.allocated hnone b, ?_, fun a ha => ?_⟩
    · rintro (hfailed | hb)
      · exact hfailed
      · exact absurd hb (Option.some_ne_none _)
    · cases ha
      exact hsize

theorem upto_fill (h : ParamsHeld base params s) {b : Block} (hx : params x = some b) {v : Value}
    (hsize : v.size ≤ b.size) :
    Upto jvm (ParamsFailed base) params s (lift (call (.fill b v))) fun _ w t =>
      w = params ∧ ParamsHeld base params t :=
  upto_lift.mpr (wp_fill (h.mem hx) hsize
    ⟨rfl, h.locals, h.globals, h.value, h.blocks, h.pending, h.invocations⟩)

theorem upto_allocMethods (h : ParamsHeld base params s)
    (hnone : ∀ x ≠ .params, params x = none) :
    Upto jvm (ParamsFailed base) params s (allocMethods p) fun _ w t =>
      ParamsHeld base w t ∧ ∀ x ∈ [ParamVar.lineNumbers, .lineTypes, .lineProfilerIds],
        w x = none := by
  refine (upto_allocArray h (hnone _ (by decide)) _).bind fun sigs w t halloc => ?_
  obtain ⟨rfl, ht, hfailed, hsigs⟩ := halloc
  have hids : Function.update params .methodSigs sigs .profilerIds = none :=
    (Function.update_of_ne (by decide) _ _).trans (hnone .profilerIds (by decide))
  refine (upto_allocArray ht hids _).bind fun ids w t' halloc => ?_
  obtain ⟨rfl, ht', hfailed', hids'⟩ := halloc
  cases sigs with
  | none => exact ⟨ht', hfailed' (.inl (hfailed (.inr rfl)))⟩
  | some sigs =>
    cases ids with
    | none => exact ⟨ht', hfailed' (.inr rfl)⟩
    | some ids =>
      refine (upto_fill (x := .methodSigs) ht' rfl ?_).bind fun _ w t₂ hfill => ?_
      · rw [hsigs sigs rfl, Nat.mul_comm]
        exact Nat.mul_le_mul_left 8 (List.length_map _).le
      · obtain ⟨rfl, ht₂⟩ := hfill
        refine (upto_fill (x := .profilerIds) ht₂ rfl ?_).mono fun _ w t₃ hfill => ?_
        · rw [hids' ids rfl, Nat.mul_comm]
          exact Nat.mul_le_mul_left 4 p.length_profilerIds.le
        · obtain ⟨rfl, ht₃⟩ := hfill
          refine ⟨ht₃, ?_⟩
          simp only [List.mem_cons, List.not_mem_nil, or_false]
          rintro x (rfl | rfl | rfl)
          · exact hnone .lineNumbers (by decide)
          · exact hnone .lineTypes (by decide)
          · exact hnone .lineProfilerIds (by decide)

theorem upto_allocLines (h : ParamsHeld base params s)
    (hnone : ∀ x ∈ [ParamVar.lineNumbers, .lineTypes, .lineProfilerIds], params x = none) :
    Upto jvm (ParamsFailed base) params s (allocLines p) fun _ w t => ParamsHeld base w t := by
  unfold allocLines
  split
  · refine (upto_allocArray h (hnone _ (by decide)) _).bind fun nums w t halloc => ?_
    obtain ⟨rfl, ht, hfailed, hnums⟩ := halloc
    have hnoTypes : Function.update params .lineNumbers nums .lineTypes = none :=
      (Function.update_of_ne (by decide) _ _).trans (hnone .lineTypes (by decide))
    refine (upto_allocArray ht hnoTypes _).bind fun types w t' halloc => ?_
    obtain ⟨rfl, ht', hfailed', htypes⟩ := halloc
    have hnoIds : Function.update (Function.update params .lineNumbers nums) .lineTypes types
        .lineProfilerIds = none :=
      (Function.update_of_ne (by decide) _ _).trans
        ((Function.update_of_ne (by decide) _ _).trans (hnone .lineProfilerIds (by decide)))
    refine (upto_allocArray ht' hnoIds _).bind fun ids w t'' halloc => ?_
    obtain ⟨rfl, ht'', hfailed'', hids⟩ := halloc
    cases nums with
    | none => exact ⟨ht'', hfailed'' (.inl (hfailed' (.inl (hfailed (.inr rfl)))))⟩
    | some nums =>
      cases types with
      | none => exact ⟨ht'', hfailed'' (.inl (hfailed' (.inr rfl)))⟩
      | some types =>
        cases ids with
        | none => exact ⟨ht'', hfailed'' (.inr rfl)⟩
        | some ids =>
          refine (upto_fill (x := .lineNumbers) ht'' rfl ?_).bind fun _ w t₁ hfill => ?_
          · rw [hnums nums rfl, Nat.mul_comm]
            exact Nat.le_refl _
          obtain ⟨rfl, ht₁⟩ := hfill
          refine (upto_fill (x := .lineTypes) ht₁ rfl ?_).bind fun _ w t₂ hfill => ?_
          · rw [htypes types rfl, Nat.mul_comm]
            exact Nat.mul_le_mul_left 4 p.length_lineTypes.le
          obtain ⟨rfl, ht₂⟩ := hfill
          refine (upto_fill (x := .lineProfilerIds) ht₂ rfl ?_).mono fun _ w t₃ hfill => ?_
          · rw [hids ids rfl, Nat.mul_comm]
            exact Nat.mul_le_mul_left 4 p.length_lineProfilerIds.le
          obtain ⟨rfl, ht₃⟩ := hfill
          exact ht₃
  · exact h

theorem wp_classInstrumentParamsFree {left : Multiset Block}
    (hblocks : s.blocks = ↑(ParamVar.all.filterMap params) + left) {Q : Unit → State → Prop}
    (hQ : Q () { s with blocks := left }) :
    Wp jvm s (classInstrumentParamsFree params) Q := by
  have hall : s = { s with blocks := ↑(ParamVar.all.filterMap params) + left } := by
    rw [← hblocks]
  refine (wp_releaseAll (P := fun bs t => t = { s with blocks := ↑bs + left }) ?_ hall).mono ?_
  · rintro b bs t rfl
    refine wp_free ?_ ?_
    · rw [← Multiset.cons_coe, Multiset.cons_add]
      exact Multiset.mem_cons_self b _
    · show State.mk _ _ _ _ _ _ _ _ _ = _
      rw [← Multiset.cons_coe, Multiset.cons_add, Multiset.erase_cons_head]
  · rintro _ t rfl
    rwa [Multiset.coe_nil, zero_add]

/-- After a failure nothing is held. -/
theorem wp_classInstrumentParamsAlloc :
    Wp jvm s (classInstrumentParamsAlloc p) fun r t =>
      ParamsHeld s (r.getD fun _ => none) t ∧ (r = none → t.failed = true) := by
  refine wp_bind.mpr (wp_malloc ?_ fun b _ _ => ?_)
  · exact ⟨⟨rfl, rfl, rfl, (zero_add _).symm, rfl, rfl⟩, fun _ => rfl⟩
  · have hself : ParamsHeld s (Function.update (fun _ => none) .params (some b)) (s.addBlock b) :=
      ⟨rfl, rfl, rfl, rfl, rfl, rfl⟩
    refine Upto.cleanup (I := ParamsFailed s) (Q := fun _ w t => ParamsHeld s w t)
      (f := fun r w => match r with
        | some () => pure (some w)
        | none => do
          classInstrumentParamsFree w
          pure none)
      ?_ (fun _ w t ht => ⟨ht, fun h => absurd h (Option.some_ne_none _)⟩) fun w t hfailed => ?_
    · refine (upto_allocMethods hself fun x hx => Function.update_of_ne hx _ _).bind
        fun _ w t ht => ?_
      exact upto_allocLines ht.1 ht.2
    · obtain ⟨ht, hfailed⟩ := hfailed
      refine wp_bind.mpr (wp_classInstrumentParamsFree ht.blocks ?_)
      exact ⟨⟨ht.locals, ht.globals, ht.value, (zero_add _).symm, ht.pending, ht.invocations⟩,
        fun _ => hfailed⟩

end

/-! ## The instrumentation -/

section

variable {s : State} {before : Option TransformerRefs} {ci : ClassInfo}

theorem Passable.fits (h : Passable ci) : (instrumentParams ci).Fits where
  classData := h.bytecode
  count := (List.length_map _).trans_lt h.instrumented
  lineCount := (List.length_map _).trans_lt h.lines

theorem wp_doInstrumentation (hpending : s.pending = false)
    (hvalid : ∀ refs ∈ before, refs.Valid s) (hci : Passable ci) :
    Wp jvm s (doInstrumentation before ci) fun r t =>
      (instrumentParams ci).Instrumented before s r.1 r.2 t := by
  refine wp_bind.mpr (wp_classInstrumentParamsAlloc.mono fun params t halloc => ?_)
  obtain ⟨ht, hfailed⟩ := halloc
  have hvalid' : ∀ refs ∈ before, refs.Valid t := fun refs hrefs =>
    (hvalid refs hrefs).congr ht.globals ht.value
  cases params with
  | none =>
    obtain ⟨others, hothers⟩ := Multiset.le_iff_exists_add.mp (TransformerRefs.held_le hvalid)
    exact ⟨⟨ht.locals, ⟨others, hothers, ht.globals.trans hothers,
        fun r _ name hname => (congrFun ht.value r).trans hname⟩, ht.blocks,
        fun h => absurd ((ht.pending.trans hpending).symm.trans h) Bool.false_ne_true⟩,
      hvalid', ⟨[], Nat.zero_le _, ht.invocations.trans (List.append_nil _).symm⟩, fun _ => hfailed rfl,
      fun _ _ h => absurd h.symm (Option.some_ne_none _)⟩
  | some params =>
    refine wp_bind.mpr ((wp_bcInstrumentMethod (ht.pending.trans hpending) hvalid' hci.fits).mono
      fun r t' hdone => ?_)
    have hblocks : t'.blocks = ↑(ParamVar.all.filterMap params) +
        (↑(r.1.map Prod.fst).toList + s.blocks) := by
      rw [hdone.blocks, ht.blocks, add_left_comm]
      rfl
    refine wp_bind.mpr (wp_classInstrumentParamsFree hblocks ?_)
    obtain ⟨others, hbefore, hafter, hcls⟩ := hdone.globals
    obtain ⟨outcomes, hlength, hcalls⟩ := hdone.asked
    refine ⟨⟨hdone.locals.trans ht.locals, ⟨others, ht.globals.symm.trans hbefore, hafter,
        fun r hr name hname => hcls r hr name ((congrFun ht.value r).trans hname)⟩, rfl,
        hdone.pending⟩, fun refs hrefs => (hdone.valid refs hrefs).congr rfl rfl,
      ⟨outcomes, hlength, hcalls.trans (congrArg (· ++ _) ht.invocations)⟩, hdone.failed,
      fun b len hout => ?_⟩
    obtain ⟨hpending', hsize, bs, hbs, hstored, hbytes⟩ := hdone.result b len hout
    rw [ht.invocations] at hbytes
    exact ⟨hpending', hsize, bs, hbs, hstored, hbytes⟩

end

end JautoProf.Jni
