import JautoProf.BcInstrument

/-!
# What `bc_instrument_method` holds

At each point of the function the references and allocations that it made are those of the
variables that are set, so the clean-up releases them. Up to the call of the transformer each
variable is also known to refer to the value that the call needs.

Results:
1. `wp_cleanup`: the clean-up releases what the variables hold, except the result.
2. `wp_bcInstrumentMethod`: every call is legal, whatever fails; all that was made for the call is
   released, and the transformer is given the instruments of the class and nothing else.
-/

namespace JautoProf.Jni

open Script Body

/-! ## What the variables hold -/

theorem Var.mem_all (x : Var) : x ∈ Var.all := by
  cases x <;> decide

namespace Locals

/-- The references that are set. -/
def refs (v : Locals) : Multiset Ref := ↑(Var.all.filterMap v.ref)

/-- The allocations that are set. -/
def blocks (v : Locals) : Multiset Block := ↑(v.idsBuf.toList ++ (v.out.map Prod.fst).toList)

variable {v : Locals} {x : Var} {r : Ref}

theorem refs_assign (h : v.ref x = none) : (v.assign x r).refs = r ::ₘ v.refs :=
  Multiset.coe_eq_coe.mpr (perm_filterMap_update h (by decide) x.mem_all)

theorem ref_assign_self : (v.assign x r).ref x = some r := Function.update_self _ _ _

theorem ref_assign_of_ne {y : Var} (h : y ≠ x) : (v.assign x r).ref y = v.ref y :=
  Function.update_of_ne h _ _

theorem mem_refs (h : v.ref x = some r) : r ∈ v.refs :=
  Multiset.mem_coe.mpr (List.mem_filterMap.mpr ⟨x, x.mem_all, h⟩)

end Locals

/-- Beside what was held before, the function holds what its variables refer to. -/
structure Owns (base : State) (v : Locals) (s : State) : Prop where
  locals : s.locals = v.refs + base.locals
  globals : s.globals = base.globals
  blocks : s.blocks = v.blocks + base.blocks
  cls : ∀ r name, r ∈ base.globals → base.value r = .cls name → s.value r = .cls name

/-- The transformer was called at most once, and only with the instruments. -/
def Asked (p : ClassInstrumentParams) (base s : State) : Prop :=
  ∃ outcomes : List Outcome, outcomes.length ≤ 1 ∧ s.invocations = base.invocations ++
    outcomes.map fun o => ⟨⟨transformerClassName, ascii "transform", transformSig⟩, p.given, o⟩

/-- The state at a `goto cleanup`. -/
structure GaveUp (p : ClassInstrumentParams) (base : State) (v : Locals) (s : State) : Prop
    extends Owns base v s where
  out : v.out = none
  pending : s.pending = true → s.refused = true
  failed : s.failed = true
  asked : Asked p base s

/-- Before the call of the transformer a variable that is set refers to the value `val` of it. -/
structure Holds (base : State) (v : Locals) (val : Var → Value) (s : State) : Prop
    extends Owns base v s where
  out : v.out = none
  pending : s.pending = false
  invocations : s.invocations = base.invocations
  value : ∀ x r, v.ref x = some r → s.value r = val x
  inj : ∀ x y r, v.ref x = some r → v.ref y = some r → x = y
  apart : ∀ x r, v.ref x = some r → r ∉ base.globals

namespace Holds

variable {p : ClassInstrumentParams} {base s t : State} {v : Locals} {val : Var → Value} {x : Var}
  {r : Ref} {b : Block}

theorem mem (h : Holds base v val s) (hx : v.ref x = some r) : r ∈ s.locals := by
  rw [h.locals]
  exact Multiset.mem_add.mpr (.inl (Locals.mem_refs hx))

theorem live (h : Holds base v val s) (hx : v.ref x = some r) : s.Live r := .inl (h.mem hx)

theorem gaveUp (h : Holds base v val s) (pending : Bool) :
    GaveUp p base v (s.fail pending) :=
  { locals := h.locals, globals := h.globals, blocks := h.blocks, cls := h.cls, out := h.out,
    pending := fun _ => rfl, failed := rfl,
    asked := ⟨[], Nat.zero_le _, h.invocations.trans (List.append_nil _).symm⟩ }

/-- Only the values of live references matter. -/
theorem congr (h : Holds base v val s) (hlocals : t.locals = s.locals)
    (hglobals : t.globals = s.globals) (hblocks : t.blocks = s.blocks)
    (hpending : t.pending = s.pending) (hinvocations : t.invocations = s.invocations)
    (hvalue : ∀ r, s.Live r → t.value r = s.value r) : Holds base v val t where
  locals := hlocals.trans h.locals
  globals := hglobals.trans h.globals
  blocks := hblocks.trans h.blocks
  cls r name hr hname := (hvalue r (.inr (h.globals ▸ hr))).trans (h.cls r name hr hname)
  out := h.out
  pending := hpending.trans h.pending
  invocations := hinvocations.trans h.invocations
  value x r hx := (hvalue r (h.live hx)).trans (h.value x r hx)
  inj := h.inj
  apart := h.apart

/-- A new reference for a variable. -/
theorem assign (h : Holds base v val s) (hnone : v.ref x = none) (hr : ¬s.Live r) (w : Value) :
    Holds base (v.assign x r) (Function.update val x w) (s.addLocal r w) where
  locals := by
    rw [Locals.refs_assign hnone, Multiset.cons_add, ← h.locals]
    rfl
  globals := h.globals
  blocks := h.blocks
  cls q name hq hname := by
    rw [State.value_addLocal_of_live hr (.inr (h.globals ▸ hq))]
    exact h.cls q name hq hname
  out := h.out
  pending := h.pending
  invocations := h.invocations
  value y q hy := by
    by_cases hyx : y = x
    · subst hyx
      rw [Locals.assign_ref, Function.update_self] at hy
      cases hy
      rw [State.value_addLocal_self, Function.update_self]
    · rw [Locals.assign_ref, Function.update_of_ne hyx] at hy
      rw [State.value_addLocal_of_live hr (h.live hy), Function.update_of_ne hyx]
      exact h.value y q hy
  inj y z q hy hz := by
    rw [Locals.assign_ref, Function.update_apply] at hy hz
    split at hy
    · cases hy
      split at hz
      · rw [‹y = x›, ‹z = x›]
      · exact absurd (h.live hz) hr
    · split at hz
      · cases hz
        exact absurd (h.live hy) hr
      · exact h.inj y z q hy hz
  apart y q hy hq := by
    rw [Locals.assign_ref, Function.update_apply] at hy
    split at hy
    · cases hy
      exact hr (.inr (h.globals ▸ hq))
    · exact h.apart y q hy hq

/-- A write to the array of a variable. -/
theorem setValue (h : Holds base v val s) (hx : v.ref x = some r) (w : Value) :
    Holds base v (Function.update val x w) (s.setValue r w) where
  locals := h.locals
  globals := h.globals
  blocks := h.blocks
  cls q name hq hname := by
    have hqr : q ≠ r := ne_of_mem_of_not_mem hq (h.apart x r hx)
    rw [State.setValue_value, Function.update_of_ne hqr]
    exact h.cls q name hq hname
  out := h.out
  pending := h.pending
  invocations := h.invocations
  value y q hy := by
    rw [State.setValue_value]
    by_cases hyx : y = x
    · subst hyx
      rw [hx] at hy
      cases hy
      rw [Function.update_self, Function.update_self]
    · have hqr : q ≠ r := fun hqr => hyx (h.inj y x q hy (hqr ▸ hx))
      rw [Function.update_of_ne hqr, Function.update_of_ne hyx]
      exact h.value y q hy
  inj := h.inj
  apart := h.apart

theorem allocated (h : Holds base v val s) (hnone : v.idsBuf = none) (b : Block) :
    Holds base (v.setIdsBuf (some b)) val (s.addBlock b) :=
  { h with
    blocks := by
      show b ::ₘ s.blocks = _
      rw [h.blocks, ← Multiset.cons_add]
      unfold Locals.blocks
      rw [hnone]
      rfl }

theorem freed (h : Holds base v val s) (hb : v.idsBuf = some b) :
    Holds base (v.setIdsBuf none) val (s.dropBlock b) :=
  { h with
    blocks := by
      show s.blocks.erase b = _
      have hcons : v.blocks = b ::ₘ (v.setIdsBuf none).blocks := by
        unfold Locals.blocks
        rw [hb]
        rfl
      rw [h.blocks, hcons, Multiset.cons_add, Multiset.erase_cons_head] }

theorem mem_blocks (h : Holds base v val s) (hb : v.idsBuf = some b) : b ∈ s.blocks := by
  rw [h.blocks]
  refine Multiset.mem_add.mpr (.inl (Multiset.mem_coe.mpr ?_))
  rw [hb]
  exact List.mem_cons_self

end Holds

/-! ## The arrays -/

section

variable {p : ClassInstrumentParams} {base s : State} {v : Locals} {val : Var → Value} {x : Var}

theorem upto_makeVar (h : Holds base v val s) {what : Make} (hnone : v.ref x = none)
    (hlegal : what.Legal s) :
    Upto jvm (GaveUp p base) v s (makeVar x what) fun r w t =>
      w = v.assign x r ∧ Holds base (v.assign x r) (Function.update val x what.value) t := by
  refine upto_bind.mpr (upto_lift.mpr (wp_make h.pending hlegal (fun pending => ?_) fun r hr => ?_))
  · exact h.gaveUp pending
  · exact ⟨rfl, h.assign hnone hr _⟩

/-- The signatures before the index are stored. -/
theorem upto_storeSigs {jSigs : Ref} (hx : v.ref .jSigs = some jSigs) {sigs : List CStr}
    {done : List (Option (List UInt8))} {i : Nat} (hi : done.length = i)
    (h : Holds base v val s) (hval : val .jSigs =
      .strings (done ++ List.replicate sigs.length none)) :
    Upto jvm (GaveUp p base) v s (storeSigs jSigs i sigs) fun _ w t =>
      w = v ∧ Holds base v (Function.update val .jSigs
        (.strings (done ++ sigs.map fun sig => some sig.val))) t := by
  induction sigs generalizing s val done i with
  | nil =>
    refine ⟨rfl, ?_⟩
    have hsame : Function.update val .jSigs (.strings (done ++ [])) = val := by
      rw [← show val .jSigs = .strings (done ++ []) from hval, Function.update_eq_self]
    show Holds base v (Function.update val .jSigs (.strings (done ++ []))) s
    rwa [hsame]
  | cons sig sigs ih =>
    refine upto_bind.mpr (upto_lift.mpr (wp_make h.pending trivial
      (fun pending => h.gaveUp pending) fun r hr => ?_))
    have hlive := h.live hx
    have harr : (s.addLocal r (.string sig.val)).value jSigs =
        .strings (done ++ none :: List.replicate sigs.length none) :=
      (State.value_addLocal_of_live hr hlive).trans ((h.value _ _ hx).trans hval)
    have hset : (done ++ none :: List.replicate sigs.length none).set i (some sig.val) =
        (done ++ [some sig.val]) ++ List.replicate sigs.length none := by
      rw [← hi, List.set_append_right _ _ (Nat.le_refl _), Nat.sub_self, List.set_cons_zero,
        List.append_assoc]
      rfl
    have hafter : (Write.setObjectArrayElement i r).after (s.addLocal r (.string sig.val))
        ((s.addLocal r (.string sig.val)).value jSigs) =
          some (.strings ((done ++ [some sig.val]) ++ List.replicate sigs.length none)) := by
      have hlength : i < (done ++ none :: List.replicate sigs.length none).length := by
        rw [List.length_append, hi]
        exact Nat.lt_add_of_pos_right (Nat.succ_pos _)
      rw [harr, Write.after_setObjectArrayElement State.value_addLocal_self State.live_addLocal
        hlength, hset]
    refine upto_bind.mpr (upto_lift.mpr (wp_write h.pending hlive.addLocal hafter ?_))
    refine upto_bind.mpr (upto_lift.mpr (wp_deleteLocalRef (Multiset.mem_cons_self r _) ?_))
    have hnext : Holds base v (Function.update val .jSigs
        (.strings ((done ++ [some sig.val]) ++ List.replicate sigs.length none)))
        (((s.addLocal r (.string sig.val)).setValue jSigs
          (.strings ((done ++ [some sig.val]) ++ List.replicate sigs.length none))).dropLocal r) := by
      refine (h.setValue hx _).congr (Multiset.erase_cons_head r _) rfl rfl rfl rfl fun q hq => ?_
      rw [State.dropLocal_value, State.setValue_value, State.setValue_value]
      by_cases hqs : q = jSigs
      · rw [hqs, Function.update_self, Function.update_self]
      · rw [Function.update_of_ne hqs, Function.update_of_ne hqs,
          State.value_addLocal_of_live hr hq]
    refine (ih (i := i + 1) ?_ hnext (Function.update_self _ _ _)).mono fun _ w t hdone => ?_
    · rw [List.length_append, hi]
      rfl
    · obtain ⟨rfl, ht⟩ := hdone
      rw [Function.update_idem, List.append_assoc] at ht
      exact ⟨rfl, ht⟩

theorem upto_allocIdsBuf (h : Holds base v val s) (hnone : v.idsBuf = none) (count : Nat) :
    Upto jvm (GaveUp p base) v s (allocIdsBuf count) fun b w t =>
      w = v.setIdsBuf (some b) ∧ b.size = count * 4 ∧
        Holds base (v.setIdsBuf (some b)) val t := by
  refine upto_bind.mpr (upto_lift.mpr (wp_malloc ?_ fun b hsize _ => ?_))
  · exact h.gaveUp _
  · exact ⟨rfl, hsize, h.allocated hnone b⟩

theorem upto_freeIdsBuf {b : Block} (h : Holds base v val s) (hb : v.idsBuf = some b) :
    Upto jvm (GaveUp p base) v s (freeIdsBuf b) fun _ w t =>
      w = v.setIdsBuf none ∧ Holds base (v.setIdsBuf none) val t :=
  upto_bind.mpr (upto_lift.mpr (wp_free (h.mem_blocks hb) ⟨rfl, h.freed hb⟩))

/-- The buffer is filled, and then copied to the array. -/
theorem upto_storeInts {arr : Ref} {b : Block} {old xs : List Int32} (h : Holds base v val s)
    (hx : v.ref x = some arr) (hval : val x = .ints old) (hold : old.length = xs.length)
    (hb : v.idsBuf = some b) (hsize : b.size = xs.length * 4) :
    Upto jvm (GaveUp p base) v s (storeInts arr b xs) fun _ w t =>
      w = v ∧ Holds base v (Function.update val x (.ints xs)) t := by
  have hfilled : Holds base v val (s.setStored b (.ints xs)) :=
    h.congr rfl rfl rfl rfl rfl fun _ _ => rfl
  have hstored : (s.setStored b (.ints xs)).stored b = .ints xs := Function.update_self _ _ _
  have hafter : (Write.setIntArrayRegion 0 xs.length b).after (s.setStored b (.ints xs))
      ((s.setStored b (.ints xs)).value arr) = some (.ints xs) := by
    have hle : 0 + xs.length ≤ old.length := by
      rw [Nat.zero_add, hold]
    rw [hfilled.value _ _ hx, hval, Write.after_setIntArrayRegion hstored (hfilled.mem_blocks hb)
      hle (Nat.le_refl _), Nat.zero_add, List.take_zero, List.take_length, ← hold,
      List.drop_length, List.nil_append, List.append_nil]
  refine upto_bind.mpr (upto_lift.mpr (wp_fill (h.mem_blocks hb) ?_ ?_))
  · rw [hsize, Nat.mul_comm]
    exact Nat.le_refl _
  · refine upto_lift.mpr (wp_write hfilled.pending (hfilled.live hx) hafter ?_)
    exact ⟨rfl, hfilled.setValue hx _⟩

theorem upto_passClassData (h : Holds base v val s) (hnone : v.ref .inputArr = none)
    (hsize : p.classData.length < 2 ^ 31) :
    Upto jvm (GaveUp p base) v s (passClassData p) fun r w t =>
      w = v.assign .inputArr r ∧ Holds base (v.assign .inputArr r)
        (Function.update val .inputArr (.bytes p.classData)) t := by
  have hlegal : (Make.newByteArray p.classData.length).Legal s := hsize
  refine (upto_makeVar h hnone hlegal).bind fun r w t hmade => ?_
  obtain ⟨rfl, ht⟩ := hmade
  have hx : (v.assign .inputArr r).ref .inputArr = some r := Locals.ref_assign_self
  have hafter : (Write.setByteArrayRegion 0 p.classData.length p.classData).after t (t.value r) =
      some (.bytes p.classData) := by
    rw [ht.value _ _ hx, Function.update_self]
    refine (if_pos ⟨?_, Nat.le_refl _⟩).trans ?_
    · rw [Nat.zero_add, List.take_zero, List.take_length, List.drop_replicate, Nat.sub_self,
        List.nil_append]
      exact congrArg (fun bs => some (Value.bytes bs)) (List.append_nil _)
    · rw [Nat.zero_add, List.length_replicate]
  refine upto_bind.mpr (upto_lift.mpr (wp_write ht.pending (ht.live hx) hafter ⟨rfl, ?_⟩))
  have hset := ht.setValue hx (.bytes p.classData)
  rwa [Function.update_idem] at hset

theorem upto_passMethods {stringClass : Ref} (h : Holds base v val s)
    (hstring : v.ref .stringClass = some stringClass)
    (hclass : val .stringClass = .cls (ascii "java/lang/String")) (hsigs : v.ref .jSigs = none)
    (hids : v.ref .jIds = none) (hbuf : v.idsBuf = none) (hcount : p.count < 2 ^ 31) :
    Upto jvm (GaveUp p base) v s (passMethods p stringClass) fun r w t =>
      w = (v.assign .jSigs r.1).assign .jIds r.2 ∧
        Holds base w (Function.update (Function.update val .jSigs
          (.strings (p.methodSigs.map fun sig => some sig.val))) .jIds (.ints p.profilerIds)) t := by
  have hlegal : (Make.newObjectArray p.count stringClass).Legal s :=
    ⟨hcount, h.live hstring, (h.value _ _ hstring).trans hclass⟩
  refine (upto_makeVar h hsigs hlegal).bind fun jSigs w t hmade => ?_
  obtain ⟨rfl, ht⟩ := hmade
  have hnew : Function.update val .jSigs (Make.newObjectArray p.count stringClass).value .jSigs =
      .strings ([] ++ List.replicate p.methodSigs.length none) := Function.update_self _ _ _
  refine (upto_storeSigs Locals.ref_assign_self rfl ht hnew).bind fun _ w t hstored => ?_
  obtain ⟨rfl, ht⟩ := hstored
  rw [Function.update_idem, List.nil_append] at ht
  have hids' : (v.assign .jSigs jSigs).ref .jIds = none :=
    (Locals.ref_assign_of_ne (by decide)).trans hids
  have hlegal' : (Make.newIntArray p.count).Legal t := hcount
  refine (upto_makeVar ht hids' hlegal').bind fun jIds w t hmade => ?_
  obtain ⟨rfl, ht⟩ := hmade
  refine (upto_allocIdsBuf ht hbuf p.count).bind fun b w t halloc => ?_
  obtain ⟨rfl, hsize, ht⟩ := halloc
  have hlength : (List.replicate p.count (0 : Int32)).length = p.profilerIds.length :=
    List.length_replicate.trans p.length_profilerIds.symm
  refine (upto_storeInts ht (Function.update_self _ _ _) (Function.update_self _ _ _) hlength rfl
    (hsize.trans (congrArg (· * 4) p.length_profilerIds.symm))).bind fun _ w t hstored => ?_
  obtain ⟨rfl, ht⟩ := hstored
  rw [Function.update_idem] at ht
  refine (upto_freeIdsBuf ht rfl).bind fun _ w t hfreed => ?_
  obtain ⟨rfl, ht⟩ := hfreed
  have hv : (((v.assign .jSigs jSigs).assign .jIds jIds).setIdsBuf (some b)).setIdsBuf none =
      (v.assign .jSigs jSigs).assign .jIds jIds := by
    cases v
    cases hbuf
    rfl
  rw [hv] at ht ⊢
  exact ⟨rfl, ht⟩

theorem upto_storeLines {jLineNums jLineTypes jLineIds : Ref} (h : Holds base v val s)
    (hnums : v.ref .jLineNums = some jLineNums) (htypes : v.ref .jLineTypes = some jLineTypes)
    (hids : v.ref .jLineIds = some jLineIds)
    (hval : ∀ x ∈ [Var.jLineNums, .jLineTypes, .jLineIds],
      val x = .ints (List.replicate p.lineCount 0)) (hbuf : v.idsBuf = none) :
    Upto jvm (GaveUp p base) v s (storeLines p jLineNums jLineTypes jLineIds) fun _ w t =>
      w = v ∧ Holds base v (Function.update (Function.update (Function.update val
        .jLineNums (.ints p.lineNumbers)) .jLineTypes (.ints p.lineTypes))
        .jLineIds (.ints p.lineProfilerIds)) t := by
  have hzeros : (List.replicate p.lineCount (0 : Int32)).length = p.lineNumbers.length :=
    List.length_replicate
  unfold storeLines
  split
  · refine (upto_allocIdsBuf h hbuf p.lineCount).bind fun b w t halloc => ?_
    obtain ⟨rfl, hsize, ht⟩ := halloc
    refine (upto_storeInts ht hnums (hval _ (by decide)) hzeros rfl hsize).bind
      fun _ w t hstored => ?_
    obtain ⟨rfl, ht⟩ := hstored
    refine (upto_storeInts ht htypes ((Function.update_of_ne (by decide) _ _).trans
      (hval _ (by decide))) (hzeros.trans p.length_lineTypes.symm) rfl
      (hsize.trans (congrArg (· * 4) p.length_lineTypes.symm))).bind fun _ w t hstored => ?_
    obtain ⟨rfl, ht⟩ := hstored
    refine (upto_storeInts ht hids ((Function.update_of_ne (by decide) _ _).trans
      ((Function.update_of_ne (by decide) _ _).trans (hval _ (by decide))))
      (hzeros.trans p.length_lineProfilerIds.symm) rfl
      (hsize.trans (congrArg (· * 4) p.length_lineProfilerIds.symm))).bind fun _ w t hstored => ?_
    obtain ⟨rfl, ht⟩ := hstored
    refine (upto_freeIdsBuf ht rfl).mono fun _ w t hfreed => ?_
    obtain ⟨rfl, ht⟩ := hfreed
    have hv : (v.setIdsBuf (some b)).setIdsBuf none = v := by
      cases v
      cases hbuf
      rfl
    rw [hv] at ht ⊢
    exact ⟨rfl, ht⟩
  · -- without lines the new arrays are what the transformer is given
    have hzero : p.lineCount = 0 := Nat.eq_zero_of_not_pos ‹_›
    have hempty {xs : List Int32} (hxs : xs.length = p.lineNumbers.length) :
        Value.ints xs = .ints (List.replicate p.lineCount 0) := by
      rw [List.eq_nil_of_length_eq_zero (hxs.trans hzero), hzero]
      rfl
    have hsame (f : Var → Value) {y : Var} {w : Value} (hw : f y = w) :
        Function.update f y w = f := by
      rw [← hw, Function.update_eq_self]
    rw [hsame val ((hval _ (by decide)).trans (hempty rfl).symm),
      hsame val ((hval _ (by decide)).trans (hempty p.length_lineTypes).symm),
      hsame val ((hval _ (by decide)).trans (hempty p.length_lineProfilerIds).symm)]
    exact ⟨rfl, h⟩

theorem upto_passLines (h : Holds base v val s)
    (hnone : ∀ x ∈ [Var.jLineNums, .jLineTypes, .jLineIds], v.ref x = none)
    (hbuf : v.idsBuf = none) (hcount : p.lineCount < 2 ^ 31) :
    Upto jvm (GaveUp p base) v s (passLines p) fun r w t =>
      w = ((v.assign .jLineNums r.1).assign .jLineTypes r.2.1).assign .jLineIds r.2.2 ∧
        ∃ val', Holds base w val' t ∧ val' .jLineNums = .ints p.lineNumbers ∧
          val' .jLineTypes = .ints p.lineTypes ∧ val' .jLineIds = .ints p.lineProfilerIds ∧
          ∀ x ∉ [Var.jLineNums, .jLineTypes, .jLineIds], val' x = val x := by
  have hlegal (s : State) : (Make.newIntArray p.lineCount).Legal s := hcount
  refine (upto_makeVar h (hnone _ (by decide)) (hlegal s)).bind fun jLineNums w t hmade => ?_
  obtain ⟨rfl, ht⟩ := hmade
  have htypes : (v.assign .jLineNums jLineNums).ref .jLineTypes = none :=
    (Locals.ref_assign_of_ne (by decide)).trans (hnone _ (by decide))
  refine (upto_makeVar ht htypes (hlegal t)).bind fun jLineTypes w t hmade => ?_
  obtain ⟨rfl, ht⟩ := hmade
  have hids : ((v.assign .jLineNums jLineNums).assign .jLineTypes jLineTypes).ref .jLineIds = none :=
    (Locals.ref_assign_of_ne (by decide)).trans
      ((Locals.ref_assign_of_ne (by decide)).trans (hnone _ (by decide)))
  refine (upto_makeVar ht hids (hlegal t)).bind fun jLineIds w t hmade => ?_
  obtain ⟨rfl, ht⟩ := hmade
  refine (upto_storeLines ht rfl rfl rfl ?_ hbuf).bind fun _ w t hstored => ?_
  · simp only [List.mem_cons, List.not_mem_nil, or_false]
    rintro x (rfl | rfl | rfl)
    · rfl
    · rfl
    · rfl
  · obtain ⟨rfl, ht⟩ := hstored
    refine ⟨rfl, _, ht, rfl, rfl, rfl, fun x hx => ?_⟩
    simp only [List.mem_cons, List.not_mem_nil, or_false, not_or] at hx
    simp only [Function.update_of_ne hx.1, Function.update_of_ne hx.2.1,
      Function.update_of_ne hx.2.2]

end

/-! ## The call -/

/-- The transformer returned these bytes, in the array of `result_arr`. -/
structure Transformed (p : ClassInstrumentParams) (base : State) (v : Locals) (r : Ref)
    (bs : List UInt8) (s : State) : Prop extends Owns base v s where
  out : v.out = none
  pending : s.pending = false
  set : v.ref .resultArr = some r
  value : s.value r = .bytes bs
  invocations : s.invocations = base.invocations ++ [⟨⟨transformerClassName, ascii "transform",
    transformSig⟩, p.given, .object (.bytes bs)⟩]

/-- The bytes are in an allocation of their size. -/
structure Copied (p : ClassInstrumentParams) (base : State) (v : Locals) (bs : List UInt8)
    (s : State) : Prop extends Owns base v s where
  pending : s.pending = false
  out : ∃ b, v.out = some (b, bs.length) ∧ b.size = bs.length ∧ s.stored b = .bytes bs
  invocations : s.invocations = base.invocations ++ [⟨⟨transformerClassName, ascii "transform",
    transformSig⟩, p.given, .object (.bytes bs)⟩]

section

variable {p : ClassInstrumentParams} {base s t : State} {v : Locals} {val : Var → Value}
  {refs : TransformerRefs} {method : MethodId} {args : List Arg} {outcome : Outcome}

theorem Holds.called (h : Holds base v val s) (hc : Called s method args outcome t) :
    Owns base v t where
  locals := hc.locals.trans h.locals
  globals := hc.globals.trans h.globals
  blocks := hc.blocks.trans h.blocks
  cls r name hr hname := by
    have hlike := hc.value r
    rw [h.cls r name hr hname] at hlike
    exact hlike.cls

theorem Holds.invokes (h : Holds base v val s) (hrefs : refs.Valid base) {args : List Ref}
    (hlive : ∀ r ∈ args, s.Live r)
    (hgiven : (args.map Arg.object).map (Arg.given s) = p.given) :
    Invokes s refs.transformerClass refs.transformMethod (args.map .object) (ascii "[B") where
  live := .inr (h.globals ▸ hrefs.mem)
  cls := by
    rw [h.cls _ _ hrefs.mem hrefs.cls, hrefs.method]
  liveArgs := by
    intro a ha
    obtain ⟨r, hr, rfl⟩ := List.mem_map.mp ha
    exact hlive r hr
  signature := by
    rw [hgiven, hrefs.method]
    rfl

/-- What was called beside the base. -/
theorem Holds.invocations_called (h : Holds base v val s) (hrefs : refs.Valid base)
    {args : List Ref} (hgiven : (args.map Arg.object).map (Arg.given s) = p.given)
    (hc : Called s refs.transformMethod (args.map .object) outcome t) :
    t.invocations = base.invocations ++
      [⟨⟨transformerClassName, ascii "transform", transformSig⟩, p.given, outcome⟩] := by
  rw [hc.invocations, h.invocations, hgiven, hrefs.method]

theorem asked_one (h : s.invocations = base.invocations ++
    [⟨⟨transformerClassName, ascii "transform", transformSig⟩, p.given, outcome⟩]) :
    Asked p base s :=
  ⟨[outcome], Nat.le_refl _, h⟩

theorem upto_transform (h : Holds base v val s) (hrefs : refs.Valid base) {args : List Ref}
    (hlive : ∀ r ∈ args, s.Live r)
    (hgiven : (args.map Arg.object).map (Arg.given s) = p.given)
    (hnone : v.ref .resultArr = none) :
    Upto jvm (GaveUp p base) v s (transform refs args) fun r w t =>
      ∃ bs, Transformed p base w r bs t := by
  refine upto_bind.mpr (upto_lift.mpr (wp_callStaticObjectMethod h.pending
    (h.invokes hrefs hlive hgiven) (fun outcome t hfails hc => ?_) fun r bs t hr hc => ?_))
  · have hsame : (⟨Function.update v.ref .resultArr none, v.idsBuf, v.out⟩ : Locals) = v := by
      rw [← hnone, Function.update_eq_self]
    have hgaveUp {t' : State} (hlocals : t'.locals = t.locals) (hglobals : t'.globals = t.globals)
        (hvalue : t'.value = t.value) (hblocks : t'.blocks = t.blocks)
        (hpending : t'.pending = false) (hfailed : t'.failed = t.failed)
        (hinvocations : t'.invocations = t.invocations) : GaveUp p base v t' :=
      have howns := h.called hc
      { locals := hlocals.trans howns.locals
        globals := hglobals.trans howns.globals
        blocks := hblocks.trans howns.blocks
        cls := fun r name hr hname => hvalue ▸ howns.cls r name hr hname
        out := h.out
        pending := fun h => absurd (hpending.symm.trans h) Bool.false_ne_true
        failed := by
          rw [hfailed, hc.failed]
          rcases hfails with rfl | rfl
          · rw [decide_eq_true rfl, Bool.or_true, Bool.true_or]
          · rw [decide_eq_true rfl, Bool.or_true]
        asked := asked_one (hinvocations.trans (h.invocations_called hrefs hgiven hc)) }
    refine upto_bind.mpr (upto_modify.mpr ?_)
    show Upto jvm _ (⟨Function.update v.ref .resultArr none, v.idsBuf, v.out⟩ : Locals) t _ _
    rw [hsame]
    refine upto_bind.mpr (upto_lift.mpr (wp_exceptionCheck ?_))
    show Upto jvm _ v t (ite _ _ _) _
    split
    · refine upto_bind.mpr (upto_lift.mpr (wp_exceptionDescribe ?_ ?_))
      · refine upto_bind.mpr (upto_lift.mpr (wp_exceptionClear ?_))
        exact hgaveUp rfl rfl rfl rfl rfl rfl rfl
      · refine upto_bind.mpr (upto_lift.mpr (wp_exceptionClear ?_))
        exact hgaveUp rfl rfl rfl rfl rfl rfl rfl
    · exact hgaveUp rfl rfl rfl rfl (Bool.eq_false_iff.mpr ‹_›) rfl rfl
  · have hpending : t.pending = false := hc.pending.trans (decide_eq_false (by simp))
    have hr' : ¬t.Live r := by
      unfold State.Live
      rw [hc.locals, hc.globals]
      exact hr
    have howns := h.called hc
    refine upto_bind.mpr (upto_modify.mpr ?_)
    refine upto_bind.mpr (upto_lift.mpr (wp_exceptionCheck ?_))
    rw [State.addLocal_pending, hpending]
    have hinvocations := h.invocations_called hrefs hgiven hc
    refine ⟨bs, ⟨⟨?_, howns.globals, howns.blocks, fun q name hq hname => ?_⟩, h.out, hpending,
      (Locals.ref_assign_self : (v.assign .resultArr r).ref .resultArr = some r),
      State.value_addLocal_self, hinvocations⟩⟩
    · show r ::ₘ t.locals = _
      have hcons := Locals.refs_assign (v := v) (r := r) hnone
      rw [howns.locals, ← Multiset.cons_add, ← hcons]
      rfl
    · rw [State.value_addLocal_of_live hr' (.inr (howns.globals ▸ hq))]
      exact howns.cls q name hq hname

theorem upto_copyResult {r : Ref} {bs : List UInt8} (h : Transformed p base v r bs s) :
    Upto jvm (GaveUp p base) v s (copyResult r) fun _ w t => Copied p base w bs t := by
  have hlive : s.Live r := by
    refine .inl ?_
    rw [h.locals]
    exact Multiset.mem_add.mpr (.inl (Locals.mem_refs h.set))
  refine upto_bind.mpr (upto_lift.mpr (wp_getArrayLength h.pending hlive h.value ?_))
  refine upto_bind.mpr (upto_lift.mpr (wp_malloc ?_ fun b hsize _ => ?_))
  · exact ⟨⟨h.locals, h.globals, h.blocks, h.cls⟩, h.out, fun _ => rfl, rfl,
      asked_one h.invocations⟩
  · refine upto_bind.mpr (upto_lift.mpr (wp_getByteArrayRegion h.pending hlive h.value
      (Multiset.mem_cons_self b _) hsize (upto_modify.mpr ?_)))
    refine ⟨⟨h.locals, h.globals, ?_, h.cls⟩, h.pending,
      ⟨b, rfl, hsize, Function.update_self _ _ _⟩, h.invocations⟩
    show b ::ₘ s.blocks = _
    have hcons : (v.setOut b bs.length).blocks = b ::ₘ v.blocks := by
      unfold Locals.blocks
      rw [h.out]
      refine Multiset.coe_eq_coe.mpr ?_
      rw [Locals.setOut_idsBuf, Option.map_none, Option.toList_none, List.append_nil]
      exact List.perm_append_singleton b _
    rw [h.blocks, hcons, Multiset.cons_add]

/-! ## The clean-up -/

theorem wp_deleteLocalRefs {ref : Var → Option Ref} {left : Multiset Ref}
    (hlocals : s.locals = ↑(Var.all.filterMap ref) + left) {Q : Unit → State → Prop}
    (hQ : Q () { s with locals := left }) :
    Wp jvm s (releaseAll (fun r => call (.deleteLocalRef r)) ref Var.all) Q := by
  have hall : s = { s with locals := ↑(Var.all.filterMap ref) + left } := by rw [← hlocals]
  refine (wp_releaseAll (P := fun rs t => t = { s with locals := ↑rs + left }) ?_ hall).mono ?_
  · rintro r rs t rfl
    refine wp_deleteLocalRef ?_ ?_
    · rw [← Multiset.cons_coe, Multiset.cons_add]
      exact Multiset.mem_cons_self r _
    · show State.mk _ _ _ _ _ _ _ _ _ = _
      rw [← Multiset.cons_coe, Multiset.cons_add, Multiset.erase_cons_head]
  · rintro _ t rfl
    rwa [Multiset.coe_nil, zero_add]

/-- The clean-up keeps the result and releases the rest. -/
theorem wp_cleanup (h : Owns base v s) {Q : Unit → State → Prop}
    (hQ : Q () { s with
      locals := base.locals, blocks := ↑(v.out.map Prod.fst).toList + base.blocks }) :
    Wp jvm s (cleanup v) Q := by
  have hblocks := h.blocks
  unfold Locals.blocks at hblocks
  refine wp_bind.mpr ?_
  cases hb : v.idsBuf with
  | none =>
    rw [hb, Option.toList_none, List.nil_append] at hblocks
    rw [← hblocks] at hQ
    exact wp_deleteLocalRefs h.locals hQ
  | some b =>
    rw [hb, Option.toList_some, List.singleton_append, ← Multiset.cons_coe,
      Multiset.cons_add] at hblocks
    have hdrop : s.blocks.erase b = ↑(v.out.map Prod.fst).toList + base.blocks := by
      rw [hblocks, Multiset.erase_cons_head]
    have hlocals : (s.dropBlock b).locals = ↑(Var.all.filterMap v.ref) + base.locals := h.locals
    rw [← hdrop] at hQ
    exact wp_free (hblocks ▸ Multiset.mem_cons_self b _) (wp_deleteLocalRefs hlocals hQ)

end

/-! ## The function -/

/-- The lengths are those of Java arrays. -/
structure ClassInstrumentParams.Fits (p : ClassInstrumentParams) : Prop where
  classData : p.classData.length < 2 ^ 31
  count : p.count < 2 ^ 31
  lineCount : p.lineCount < 2 ^ 31

/-- The bytes of the result: those of the class where there is nothing to insert, and else those
that the transformer returned. -/
structure ClassInstrumentParams.Result (p : ClassInstrumentParams) (s : State) (b : Block)
    (len : Nat) (t : State) : Prop where
  pending : t.pending = false
  size : b.size = len
  bytes : ∃ bs, bs.length = len ∧ t.stored b = .bytes bs ∧
    if p.count = 0 ∧ p.lineCount = 0 then bs = p.classData ∧ t.invocations = s.invocations
    else t.invocations = s.invocations ++ [⟨⟨transformerClassName, ascii "transform",
      transformSig⟩, p.given, .object (.bytes bs)⟩]

/-- What `bc_instrument_method` does to the state. -/
structure ClassInstrumentParams.Instrumented (p : ClassInstrumentParams)
    (before : Option TransformerRefs) (s : State) (out : Option (Block × Nat))
    (after : Option TransformerRefs) (t : State) : Prop
    extends Leaves s (TransformerRefs.held before) (TransformerRefs.held after)
      ↑(out.map Prod.fst).toList t where
  valid : ∀ refs ∈ after, refs.Valid t
  asked : Asked p s t
  failed : out = none → t.failed = true
  result : ∀ b len, out = some (b, len) → p.Result s b len t

section

variable {p : ClassInstrumentParams} {base s : State} {refs : TransformerRefs}

theorem holds_init (hpending : base.pending = false) {stringClass : Ref}
    (hfresh : ¬base.Live stringClass) :
    ∃ val, val .stringClass = .cls (ascii "java/lang/String") ∧
      Holds base (.init stringClass) val
        (base.addLocal stringClass (.cls (ascii "java/lang/String"))) := by
  have hnone : Holds base ⟨fun _ => none, none, none⟩ (fun _ => .other) base :=
    { locals := (zero_add _).symm, globals := rfl, blocks := (zero_add _).symm,
      cls := fun _ _ _ h => h, out := rfl, pending := hpending, invocations := rfl,
      value := fun _ _ h => absurd h.symm (Option.some_ne_none _),
      inj := fun _ _ _ h => absurd h.symm (Option.some_ne_none _),
      apart := fun _ _ h => absurd h.symm (Option.some_ne_none _) }
  exact ⟨_, Function.update_self _ _ _, hnone.assign rfl hfresh _⟩

theorem upto_instrumentBody (hrefs : refs.Valid base) (hfits : p.Fits)
    (hpending : base.pending = false) {stringClass : Ref} (hfresh : ¬base.Live stringClass) :
    Upto jvm (GaveUp p base) (.init stringClass)
      (base.addLocal stringClass (.cls (ascii "java/lang/String")))
      (instrumentBody p refs stringClass) fun _ w t => ∃ bs, Copied p base w bs t := by
  obtain ⟨val, hclass, h⟩ := holds_init hpending hfresh
  refine (upto_passClassData h rfl hfits.classData).bind fun inputArr w t hpassed => ?_
  obtain ⟨rfl, ht⟩ := hpassed
  refine (upto_passMethods ht rfl hclass rfl rfl rfl hfits.count).bind fun methods w t hpassed => ?_
  obtain ⟨rfl, ht⟩ := hpassed
  refine (upto_passLines ht ?_ rfl hfits.lineCount).bind fun lines w t hpassed => ?_
  · simp only [List.mem_cons, List.not_mem_nil, or_false]
    rintro x (rfl | rfl | rfl)
    · rfl
    · rfl
    · rfl
  · obtain ⟨rfl, val', ht, hnums, htypes, hids, hothers⟩ := hpassed
    have hinput : t.value inputArr = .bytes p.classData :=
      (ht.value .inputArr inputArr rfl).trans (hothers .inputArr (by decide))
    have hsigs : t.value methods.1 = .strings (p.methodSigs.map fun sig => some sig.val) :=
      (ht.value .jSigs methods.1 rfl).trans (hothers .jSigs (by decide))
    have hprofilers : t.value methods.2 = .ints p.profilerIds :=
      (ht.value .jIds methods.2 rfl).trans (hothers .jIds (by decide))
    have hnums' := (ht.value .jLineNums lines.1 rfl).trans hnums
    have htypes' := (ht.value .jLineTypes lines.2.1 rfl).trans htypes
    have hids' := (ht.value .jLineIds lines.2.2 rfl).trans hids
    refine (upto_transform ht hrefs ?_ ?_ rfl).bind fun r w t htransformed => ?_
    · simp only [List.mem_cons, List.not_mem_nil, or_false]
      rintro r (rfl | rfl | rfl | rfl | rfl | rfl)
      · exact ht.live (x := .inputArr) rfl
      · exact ht.live (x := .jSigs) rfl
      · exact ht.live (x := .jIds) rfl
      · exact ht.live (x := .jLineNums) rfl
      · exact ht.live (x := .jLineTypes) rfl
      · exact ht.live (x := .jLineIds) rfl
    · show [Given.object (t.value inputArr), .object (t.value methods.1),
        .object (t.value methods.2), .object (t.value lines.1), .object (t.value lines.2.1),
        .object (t.value lines.2.2)] = p.given
      rw [hinput, hsigs, hprofilers, hnums', htypes', hids']
      rfl
    · obtain ⟨bs, htransformed⟩ := htransformed
      exact (upto_copyResult htransformed).mono fun _ w t hcopied => ⟨bs, hcopied⟩

/-- What is left after the clean-up. -/
theorem Owns.leaves {before after : Multiset Ref} {t : State} {v : Locals} (h : Owns base v t)
    (hbase : Refreshed s before after base) (hpending : t.pending = true → t.refused = true) :
    Leaves s before after ↑(v.out.map Prod.fst).toList
      { t with locals := base.locals, blocks := ↑(v.out.map Prod.fst).toList + base.blocks } := by
  obtain ⟨others, hbefore, hafter⟩ := hbase.globals
  refine ⟨hbase.locals, ⟨others, hbefore, h.globals.trans hafter, fun r hr name hname => ?_⟩,
    congrArg (_ + ·) hbase.blocks, hpending⟩
  have hlive : s.Live r := .inr (hbefore ▸ Multiset.mem_add.mpr (.inr hr))
  exact h.cls r name (hafter ▸ Multiset.mem_add.mpr (.inr hr)) ((hbase.value r hlive).trans hname)

/-- With nothing to insert the class itself is copied. -/
theorem wp_copyClassData {before : Option TransformerRefs} (hpending : s.pending = false)
    (hvalid : ∀ refs ∈ before, refs.Valid s) (hzero : p.count = 0 ∧ p.lineCount = 0) :
    Wp jvm s (bcInstrumentMethod before p) fun r t => p.Instrumented before s r.1 r.2 t := by
  obtain ⟨others, hothers⟩ := Multiset.le_iff_exists_add.mp (TransformerRefs.held_le hvalid)
  have hnoCall : Asked p s s := ⟨[], Nat.zero_le _, (List.append_nil _).symm⟩
  unfold bcInstrumentMethod
  rw [if_pos hzero]
  refine wp_bind.mpr (wp_malloc ?_ fun b hsize _ => ?_)
  · exact ⟨⟨rfl, ⟨others, hothers, hothers, fun _ _ _ h => h⟩, (zero_add _).symm, fun _ => rfl⟩,
      fun refs hrefs => (hvalid refs hrefs).congr rfl rfl, hnoCall, fun _ => rfl,
      fun _ _ h => absurd h.symm (Option.some_ne_none _)⟩
  · refine wp_bind.mpr (wp_fill (Multiset.mem_cons_self b _) hsize.ge ?_)
    refine ⟨⟨rfl, ⟨others, hothers, hothers, fun _ _ _ h => h⟩, rfl,
      fun h => absurd (hpending.symm.trans h) (by decide)⟩,
      fun refs hrefs => (hvalid refs hrefs).congr rfl rfl, hnoCall,
      fun h => absurd h (Option.some_ne_none _), fun b' len h => ?_⟩
    cases h
    refine ⟨hpending, hsize, p.classData, rfl, Function.update_self _ _ _, ?_⟩
    rw [if_pos hzero]
    exact ⟨rfl, rfl⟩

theorem wp_bcInstrumentMethod {before : Option TransformerRefs} (hpending : s.pending = false)
    (hvalid : ∀ refs ∈ before, refs.Valid s) (hfits : p.Fits) :
    Wp jvm s (bcInstrumentMethod before p) fun r t => p.Instrumented before s r.1 r.2 t := by
  by_cases hzero : p.count = 0 ∧ p.lineCount = 0
  · exact wp_copyClassData hpending hvalid hzero
  unfold bcInstrumentMethod
  rw [if_neg hzero]
  refine wp_bind.mpr ((wp_bcInstrumentInitRefs hpending hvalid).mono fun after t hset => ?_)
  have hinvocations := hset.invocations
  have hasked {t' : State} (h : t'.invocations = t.invocations) : Asked p s t' :=
    ⟨[], Nat.zero_le _, h.trans (hinvocations.trans (List.append_nil _).symm)⟩
  cases after with
  | none =>
    obtain ⟨hfailed, hrefused⟩ := hset.failed rfl
    exact ⟨hset.leaves fun _ => hrefused, fun _ h => absurd h (Option.not_mem_none _),
      hasked rfl, fun _ => hfailed, fun _ _ h => absurd h.symm (Option.some_ne_none _)⟩
  | some refs =>
    have hrefs := hset.valid refs rfl
    have hpending := hset.pending rfl
    refine wp_bind.mpr (wp_make hpending trivial (fun pending => ?_) fun stringClass hfresh => ?_)
    · exact ⟨(hset.fail pending).leaves fun _ => rfl, fun _ h => (hset.valid _ h).congr rfl rfl,
        hasked rfl, fun _ => rfl, fun _ _ h => absurd h.symm (Option.some_ne_none _)⟩
    · have hkept {w : Locals} {t' : State} (h : Owns t w t') : ∀ r ∈ some refs, r.Valid t' := by
        intro r hr
        obtain rfl := Option.mem_some_iff.mp hr
        exact ⟨h.globals ▸ hrefs.mem, h.cls _ _ hrefs.mem hrefs.cls, hrefs.method⟩
      refine Upto.cleanup (f := fun _ w => cleanup w >>= fun _ => pure (w.out, some refs))
        (upto_instrumentBody hrefs hfits hpending hfresh) (fun _ w t' hcopied => ?_)
        fun w t' hgaveUp => ?_
      · obtain ⟨bs, hcopied⟩ := hcopied
        refine wp_bind.mpr (wp_cleanup hcopied.toOwns ?_)
        obtain ⟨b, hout, hsize, hstored⟩ := hcopied.out
        have hcalls := hcopied.invocations
        rw [hinvocations] at hcalls
        have hleaves := hcopied.toOwns.leaves hset.toRefreshed
          fun h => absurd (hcopied.pending.symm.trans h) (by decide)
        refine ⟨hleaves, fun r hr => (hkept hcopied.toOwns r hr).congr rfl rfl, asked_one hcalls,
          fun h => absurd (hout.symm.trans h) (Option.some_ne_none _), fun b' len h => ?_⟩
        cases hout.symm.trans h
        refine ⟨hcopied.pending, hsize, bs, rfl, hstored, ?_⟩
        rw [if_neg hzero]
        exact hcalls
      · refine wp_bind.mpr (wp_cleanup hgaveUp.toOwns ?_)
        obtain ⟨outcomes, hlength, hcalls⟩ := hgaveUp.asked
        exact ⟨hgaveUp.toOwns.leaves hset.toRefreshed hgaveUp.pending,
          fun r hr => (hkept hgaveUp.toOwns r hr).congr rfl rfl,
          ⟨outcomes, hlength, hcalls.trans (congrArg (· ++ _) hinvocations)⟩,
          fun _ => hgaveUp.failed,
          fun _ _ h => absurd (h.symm.trans hgaveUp.out) (Option.some_ne_none _)⟩

end

end JautoProf.Jni
