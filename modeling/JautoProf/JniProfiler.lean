import JautoProf.World

/-!
# Retransforming a class (`jni/jni-profiler.c`)

`jni_retransform_class` looks for a class by its name and its loader among the loaded classes. It
keeps a global reference to the best class so far: one of the name, until one of the loader too
is found. The classes are references of the type `C`, and each query about one may fail.

Results:
1. `nameMatch_iff`: on a signature of the JVM the comparison of the name is exact.
2. `refs_deleted`: each global reference that was created was deleted, whatever fails.
3. `retransformTarget_eq`: among the versions of the world it retransforms `retransformTarget`.
4. `retransforms_first`: the one class that is retransformed is the first of the name and the
   loader, or else the first of the name; and without one the result is -1.
-/

namespace JautoProf

namespace JniProfiler

/-! ## The JVM's answers -/

/-- What JVMTI and JNI answer about the references `C`; `none` is an error. The loader of a class
is the identity of an object or null. -/
structure ClassQueries (C : Type) where
  loadedClasses : Option (List C)
  signature : C → Option CStr
  classLoader : C → Option (Option Nat)
  newGlobalRef : C → Bool
  retransform : C → Bool

/-- What is done with the answers. -/
inductive ClassCall (C : Type)
  | deallocateSignature (cls : C)
  | deleteLoaderRef (cls : C)
  | newGlobalRef (cls : C) (ok : Bool)
  | deleteGlobalRef (cls : C)
  | deleteLocalRef (cls : C)
  | deallocateClasses
  | warnNoLoaderMatch (className : CStr)
  | retransformClasses (cls : C)

namespace ClassCall

variable {C : Type}

/-- The class of the global reference that the call created. -/
def created : ClassCall C → Option C
  | newGlobalRef cls true => some cls
  | _ => none

def deleted : ClassCall C → Option C
  | deleteGlobalRef cls => some cls
  | _ => none

def retransformed : ClassCall C → Option C
  | retransformClasses cls => some cls
  | _ => none

end ClassCall

variable {C : Type}

/-- The program records its calls. -/
def call (c : ClassCall C) : Prog (List (ClassCall C)) Unit := .update (· ++ [c])

/-! ## The code -/

/-- `strncmp(s, t, n) == 0`; a string ends with its terminator. -/
def strncmpEq : List UInt8 → List UInt8 → Nat → Bool
  | _, _, 0 => true
  | [], [], _ + 1 => true
  | a :: s, b :: t, n + 1 => a == b && strncmpEq s t n
  | _, _, _ + 1 => false

/-- `name_match` of a signature. -/
def nameMatch (sig className : CStr) : Bool :=
  sig.val[0]? == some 76 && strncmpEq (sig.val.drop 1) className.val className.val.length &&
    sig.val[className.val.length + 1]? == some 59

variable (jvm : ClassQueries C)

/-- `check_loader_match`. -/
def checkLoaderMatch (cls : C) (loader : Option Nat) : Prog (List (ClassCall C)) Bool :=
  match jvm.classLoader cls with
  | none => pure false
  | some classLoader => do
    let isMatch :=
      match loader, classLoader with
      | none, none => true
      | some loader, some classLoader => loader == classLoader
      | _, _ => false
    if classLoader.isSome then call (.deleteLoaderRef cls) else pure ()
    pure isMatch

/-- The comparison of a class with the name. -/
def checkNameMatch (cls : C) (className : CStr) : Prog (List (ClassCall C)) Bool :=
  match jvm.signature cls with
  | none => pure false
  | some sig => do
    call (.deallocateSignature cls)
    pure (nameMatch sig className)

/-- `jni_safe_free_global_class`. -/
def jniSafeFreeGlobalClass : Option C → Prog (List (ClassCall C)) Unit
  | none => pure ()
  | some cls => call (.deleteGlobalRef cls)

def newGlobalRef (cls : C) : Prog (List (ClassCall C)) (Option C) := do
  call (.newGlobalRef cls (jvm.newGlobalRef cls))
  pure (if jvm.newGlobalRef cls then some cls else none)

/-- The body of the loop, up to its end: the best class after it, and `found_loader_match`. -/
def consider (className : CStr) (loader : Option Nat) (cls : C) (best : Option C) :
    Prog (List (ClassCall C)) (Option C × Bool) := do
  let isNameMatch ← checkNameMatch jvm cls className
  if isNameMatch then
    let isLoaderMatch ← checkLoaderMatch jvm cls loader
    if isLoaderMatch || best.isNone then
      jniSafeFreeGlobalClass best
      let best ← newGlobalRef jvm cls
      pure (best, isLoaderMatch)
    else pure (best, isLoaderMatch)
  else pure (best, false)

/-- The loop over the loaded classes. -/
def search (className : CStr) (loader : Option Nat) :
    List C → Option C → Prog (List (ClassCall C)) (Option C × Bool)
  | [], best => pure (best, false)
  | cls :: classes, best => do
    let found ← consider jvm className loader cls best
    call (.deleteLocalRef cls)
    if found.2 then pure found else search className loader classes found.1

/-- `jni_retransform_class`. -/
def jniRetransformClass (className : CStr) (loader : Option Nat) :
    Prog (List (ClassCall C)) Int :=
  match jvm.loadedClasses with
  | none => pure (-1)
  | some classes => do
    let found ← search jvm className loader classes none
    call .deallocateClasses
    match found.1 with
    | none => pure (-1)
    | some best => do
      if found.2 then pure () else call (.warnNoLoaderMatch className)
      call (.retransformClasses best)
      call (.deleteGlobalRef best)
      pure (if jvm.retransform best then 0 else -1)

/-! ## The comparison of the name -/

/-- A signature in the form of the JVM: a class, an array or a primitive type. -/
inductive IsSignature : List UInt8 → Prop
  | object {name : List UInt8} : 59 ∉ name → IsSignature (76 :: (name ++ [59]))
  | array {component : List UInt8} : IsSignature component → IsSignature (91 :: component)
  | primitive {b : UInt8} : b ∈ ascii "BCDFIJSZV" → IsSignature [b]

/-- `'L'`, the name and `';'`. -/
def classSignature (className : CStr) : CStr :=
  ⟨76 :: (className.val ++ [59]), by simpa using className.property⟩

theorem classSignature_val (className : CStr) :
    (classSignature className).val = 76 :: (className.val ++ [59]) := rfl

theorem classSignature_inj {c d : CStr} : classSignature c = classSignature d ↔ c = d := by
  refine ⟨fun h => Subtype.ext ?_, fun h => h ▸ rfl⟩
  have hval := congrArg Subtype.val h
  rw [classSignature_val, classSignature_val, List.cons.injEq] at hval
  exact List.append_cancel_right hval.2

theorem strncmpEq_iff {s t : List UInt8} : strncmpEq s t t.length = true ↔ t <+: s := by
  induction t generalizing s with
  | nil => cases s <;> simp [strncmpEq]
  | cons b t ih =>
    cases s with
    | nil => simp [strncmpEq]
    | cons a s =>
      rw [List.length_cons, strncmpEq, Bool.and_eq_true, ih, List.cons_prefix_cons, beq_iff_eq,
        eq_comm]

/-- The comparison looks for the name at the start; what follows the `';'` it does not see. -/
theorem nameMatch_iff_starts {sig className : CStr} :
    nameMatch sig className = true ↔ (classSignature className).val <+: sig.val := by
  obtain ⟨s, hs⟩ := sig
  unfold nameMatch
  rw [classSignature_val]
  simp only [Bool.and_eq_true, beq_iff_eq, strncmpEq_iff]
  cases s with
  | nil => simp
  | cons b s =>
    rw [List.cons_prefix_cons, List.getElem?_cons_zero, Option.some.injEq, List.drop_one,
      List.tail_cons, List.getElem?_cons_succ, and_assoc, eq_comm]
    refine and_congr_right fun _ => ⟨?_, ?_⟩
    · rintro ⟨⟨rest, rfl⟩, hlast⟩
      rw [List.getElem?_append_right le_rfl, Nat.sub_self] at hlast
      obtain ⟨rest, rfl⟩ : ∃ r, rest = 59 :: r := by
        cases rest with
        | nil => cases hlast
        | cons c rest => exact ⟨rest, by rw [Option.some.inj hlast]⟩
      exact ⟨rest, by simp⟩
    · rintro ⟨rest, rfl⟩
      exact ⟨⟨59 :: rest, by simp⟩, by simp⟩

/-- In a signature of the JVM nothing follows. -/
theorem nameMatch_iff {sig className : CStr} (h : IsSignature sig.val) :
    nameMatch sig className = true ↔ sig = classSignature className := by
  rw [nameMatch_iff_starts]
  refine ⟨fun hstart => Subtype.ext ?_, fun heq => heq ▸ List.prefix_rfl⟩
  rw [classSignature_val] at hstart ⊢
  generalize sig.val = s at h hstart
  generalize className.val = c at hstart
  cases h with
  | @object name hname =>
    obtain ⟨rest, hrest⟩ := (List.cons_prefix_cons.mp hstart).2
    rw [List.append_assoc, List.singleton_append] at hrest
    rcases List.append_eq_append_iff.mp hrest with ⟨as, rfl, hlast⟩ | ⟨bs, hname', hlast⟩
    · cases as with
      | nil => rw [List.append_nil]
      | cons a as =>
        rw [List.cons_append, List.cons.injEq] at hlast
        exact (hname (by simp [← hlast.1])).elim
    · have hlength := congrArg List.length hlast
      simp only [List.length_append, List.length_cons, List.length_nil] at hlength
      obtain rfl := List.length_eq_zero_iff.mp (show bs.length = 0 by omega)
      rw [hname', List.append_nil]
  | array _ => cases (List.cons_prefix_cons.mp hstart).1
  | primitive _ =>
    have hlength := hstart.length_le
    simp at hlength

/-! ## The references -/

/-- What was created and is not the best class any more was deleted. -/
def Holds (calls : List (ClassCall C)) (best : Option C) : Prop :=
  calls.filterMap ClassCall.created = calls.filterMap ClassCall.deleted ++ best.toList

open Prog

theorem holds_append {calls : List (ClassCall C)} {c : ClassCall C} {best : Option C} :
    Holds (calls ++ [c]) best ↔ calls.filterMap ClassCall.created ++ c.created.toList =
      calls.filterMap ClassCall.deleted ++ c.deleted.toList ++ best.toList := by
  unfold Holds
  rw [List.filterMap_append, List.filterMap_append]
  cases hcreated : c.created <;> cases hdeleted : c.deleted <;> simp [hcreated, hdeleted]

/-- A call that neither creates nor deletes a global reference. -/
theorem Holds.call {calls : List (ClassCall C)} {best : Option C} (h : Holds calls best)
    {c : ClassCall C} (hcreated : c.created = none) (hdeleted : c.deleted = none) :
    Holds ((call c).final calls) best := by
  rw [JniProfiler.call, final_update, holds_append, hcreated, hdeleted]
  simpa [Holds] using h

theorem Holds.free {calls : List (ClassCall C)} {best : Option C} (h : Holds calls best) :
    Holds ((jniSafeFreeGlobalClass best).final calls) none := by
  cases best with
  | none => exact h
  | some cls =>
    rw [jniSafeFreeGlobalClass, JniProfiler.call, final_update, holds_append]
    simpa [Holds, ClassCall.created, ClassCall.deleted] using h

theorem Holds.newGlobalRef {calls : List (ClassCall C)} (h : Holds calls none) (cls : C) :
    Holds ((newGlobalRef jvm cls).final calls) ((newGlobalRef jvm cls).result calls) := by
  rw [JniProfiler.newGlobalRef, final_bind, result_bind, final_pure, result_pure,
    JniProfiler.call, final_update, holds_append]
  cases jvm.newGlobalRef cls <;> simpa [Holds, ClassCall.created, ClassCall.deleted] using h

theorem Holds.checkLoaderMatch {calls : List (ClassCall C)} {best : Option C} (h : Holds calls best)
    (cls : C) (loader : Option Nat) :
    Holds ((checkLoaderMatch jvm cls loader).final calls) best := by
  unfold JniProfiler.checkLoaderMatch
  cases jvm.classLoader cls with
  | none => exact h
  | some classLoader =>
    cases classLoader with
    | none => exact h
    | some classLoader => exact h.call rfl rfl

theorem Holds.checkNameMatch {calls : List (ClassCall C)} {best : Option C} (h : Holds calls best)
    (cls : C) (className : CStr) :
    Holds ((checkNameMatch jvm cls className).final calls) best := by
  unfold JniProfiler.checkNameMatch
  cases jvm.signature cls with
  | none => exact h
  | some sig => exact h.call rfl rfl

theorem Holds.consider {calls : List (ClassCall C)} {best : Option C} (h : Holds calls best)
    (className : CStr) (loader : Option Nat) (cls : C) :
    Holds ((consider jvm className loader cls best).final calls)
      ((consider jvm className loader cls best).result calls).1 := by
  unfold JniProfiler.consider
  rw [final_bind, result_bind, final_ite, result_ite]
  have hname := h.checkNameMatch jvm cls className
  split
  · rw [final_bind, result_bind, final_ite, result_ite]
    have hloader := hname.checkLoaderMatch jvm cls loader
    split
    · exact hloader.free.newGlobalRef jvm cls
    · exact hloader
  · exact hname

theorem Holds.search {calls : List (ClassCall C)} {best : Option C} (h : Holds calls best)
    (className : CStr) (loader : Option Nat) (classes : List C) :
    Holds ((search jvm className loader classes best).final calls)
      ((search jvm className loader classes best).result calls).1 := by
  induction classes generalizing calls best with
  | nil => exact h
  | cons cls classes ih =>
    have hfound := (h.consider jvm className loader cls).call (c := .deleteLocalRef cls) rfl rfl
    rw [JniProfiler.search, final_bind, result_bind, final_bind, result_bind, final_ite, result_ite]
    split
    · exact hfound
    · exact ih hfound

/-- Each global reference that was created was deleted. -/
theorem refs_deleted (className : CStr) (loader : Option Nat) :
    ((jniRetransformClass jvm className loader).final []).filterMap ClassCall.created =
      ((jniRetransformClass jvm className loader).final []).filterMap ClassCall.deleted := by
  suffices h : Holds ((jniRetransformClass jvm className loader).final []) none by
    simpa [Holds] using h
  unfold jniRetransformClass
  cases jvm.loadedClasses with
  | none => rfl
  | some classes =>
    have hstart : Holds ([] : List (ClassCall C)) none := rfl
    have hfound := (hstart.search jvm className loader classes).call
      (c := .deallocateClasses) rfl rfl
    simp only [final_bind]
    generalize (search jvm className loader classes none).result [] = found at hfound ⊢
    generalize (call ClassCall.deallocateClasses).final _ = calls at hfound ⊢
    obtain ⟨best, isLoaderMatch⟩ := found
    cases best with
    | none => exact hfound
    | some best =>
      have hfreed {calls : List (ClassCall C)} (h : Holds calls (some best)) :
          Holds ((jniSafeFreeGlobalClass (some best)).final
            ((JniProfiler.call (.retransformClasses best)).final calls)) none :=
        (h.call rfl rfl).free
      cases isLoaderMatch with
      | true => exact hfreed hfound
      | false => exact hfreed (hfound.call (c := .warnNoLoaderMatch className) rfl rfl)

/-! ## The class that is chosen -/

/-- The class has the name: `GetClassSignature` returns its signature. -/
def Named (className : CStr) (cls : C) : Prop :=
  jvm.signature cls = some (classSignature className)

/-- The class is of the loader: `GetClassLoader` returns the same object, or both are null. -/
def LoadedBy (loader : Option Nat) (cls : C) : Prop := jvm.classLoader cls = some loader

instance (className : CStr) : DecidablePred (Named jvm className) :=
  fun _ => inferInstanceAs (Decidable (_ = _))

instance (loader : Option Nat) : DecidablePred (LoadedBy jvm loader) :=
  fun _ => inferInstanceAs (Decidable (_ = _))

/-- The first class of the name and the loader, or else the first of the name. -/
def firstMatch (classes : List C) (className : CStr) (loader : Option Nat) : Option C :=
  (classes.find? fun cls => decide (Named jvm className cls ∧ LoadedBy jvm loader cls)).or
    (classes.find? fun cls => decide (Named jvm className cls))

variable {jvm} {cls : C} {className : CStr} {loader : Option Nat}

theorem checkNameMatch_result (hsig : ∀ sig, jvm.signature cls = some sig → IsSignature sig.val)
    (calls : List (ClassCall C)) :
    (checkNameMatch jvm cls className).result calls = decide (Named jvm className cls) := by
  rw [Bool.eq_iff_iff, decide_eq_true_iff]
  unfold checkNameMatch Named
  cases h : jvm.signature cls with
  | none => exact ⟨nofun, nofun⟩
  | some sig => rw [result_bind, result_pure, nameMatch_iff (hsig sig h), Option.some.injEq]

theorem checkLoaderMatch_result (calls : List (ClassCall C)) :
    (checkLoaderMatch jvm cls loader).result calls = decide (LoadedBy jvm loader cls) := by
  rw [Bool.eq_iff_iff, decide_eq_true_iff]
  unfold checkLoaderMatch LoadedBy
  cases jvm.classLoader cls with
  | none => exact ⟨nofun, nofun⟩
  | some classLoader =>
    cases classLoader with
    | none => cases loader <;> simp
    | some classLoader =>
      cases loader with
      | none => simp
      | some loader =>
        show (loader == classLoader) = true ↔ _
        rw [beq_iff_eq, Option.some.injEq, Option.some.injEq, eq_comm]

variable (className loader) in
/-- What the body of the loop makes of the best class so far. -/
theorem consider_result (hsig : ∀ sig, jvm.signature cls = some sig → IsSignature sig.val)
    (href : jvm.newGlobalRef cls = true) (best : Option C) (calls : List (ClassCall C)) :
    (consider jvm className loader cls best).result calls =
      if Named jvm className cls then
        if LoadedBy jvm loader cls then (some cls, true) else (best.or (some cls), false)
      else (best, false) := by
  unfold consider
  rw [result_bind, checkNameMatch_result hsig, result_ite, result_bind, checkLoaderMatch_result,
    result_ite]
  by_cases hname : Named jvm className cls
  · by_cases hloader : LoadedBy jvm loader cls
    · simp [hname, hloader, newGlobalRef, href]
    · cases best <;> simp [hname, hloader, newGlobalRef, href]
  · simp [hname]

variable (className loader) in
/-- The search finds the first match of both, or else the best class it began with or the first
match of the name. -/
theorem search_result {classes : List C}
    (hsig : ∀ cls ∈ classes, ∀ sig, jvm.signature cls = some sig → IsSignature sig.val)
    (href : ∀ cls ∈ classes, jvm.newGlobalRef cls = true) (best : Option C)
    (calls : List (ClassCall C)) :
    ((search jvm className loader classes best).result calls).1 =
      (classes.find? fun cls => decide (Named jvm className cls ∧ LoadedBy jvm loader cls)).or
        (best.or (classes.find? fun cls => decide (Named jvm className cls))) := by
  induction classes generalizing best calls with
  | nil => simp [search]
  | cons cls classes ih =>
    rw [List.forall_mem_cons] at hsig href
    have hrest := ih hsig.2 href.2
    rw [search, result_bind, result_bind, result_ite,
      consider_result className loader hsig.1 href.1]
    by_cases hname : Named jvm className cls
    · by_cases hloader : LoadedBy jvm loader cls
      · simp [hname, hloader]
      · simp [hname, hloader, hrest]
    · simp [hname, hrest]

theorem firstMatch_eq_none {classes : List C} :
    firstMatch jvm classes className loader = none ↔
      ∀ cls ∈ classes, ¬ Named jvm className cls := by
  unfold firstMatch
  rw [Option.or_eq_none_iff, List.find?_eq_none, List.find?_eq_none]
  simp only [decide_eq_true_eq, not_and]
  exact ⟨fun h => h.2, fun h => ⟨fun cls hcls hname => (h cls hcls hname).elim, h⟩⟩

theorem named_of_firstMatch {classes : List C}
    (h : firstMatch jvm classes className loader = some cls) : Named jvm className cls := by
  unfold firstMatch at h
  rcases Option.or_eq_some_iff.mp h with hboth | ⟨-, hname⟩
  · have hcls := List.find?_some hboth
    exact (of_decide_eq_true hcls).1
  · have hcls := List.find?_some hname
    exact of_decide_eq_true hcls

/-! ## The search retransforms nothing -/

/-- The classes that were retransformed. -/
def retransforms (calls : List (ClassCall C)) : List C := calls.filterMap ClassCall.retransformed

theorem retransforms_append (calls : List (ClassCall C)) (c : ClassCall C) :
    retransforms (calls ++ [c]) = retransforms calls ++ c.retransformed.toList := by
  unfold retransforms
  rw [List.filterMap_append]
  cases h : c.retransformed <;> simp [h]

theorem keeps_call {c : ClassCall C} (h : c.retransformed = none) :
    Keeps retransforms (call c) := by
  intro calls
  rw [call, final_update, retransforms_append, h]
  exact List.append_nil _

variable (jvm cls className loader)

theorem keeps_consider (best : Option C) :
    Keeps retransforms (consider jvm className loader cls best) := by
  have hname : Keeps retransforms (checkNameMatch jvm cls className) := by
    unfold checkNameMatch
    cases jvm.signature cls with
    | none => exact .pure _
    | some sig => exact .bind (keeps_call rfl) fun _ => .pure _
  have hloader : Keeps retransforms (checkLoaderMatch jvm cls loader) := by
    unfold checkLoaderMatch
    cases jvm.classLoader cls with
    | none => exact .pure _
    | some classLoader => exact .ite (.bind (keeps_call rfl) fun _ => .pure _) (.pure _)
  have hfree : Keeps retransforms (jniSafeFreeGlobalClass best) := by
    cases best with
    | none => exact .pure _
    | some best => exact keeps_call rfl
  have hnew : Keeps retransforms (newGlobalRef jvm cls) := .bind (keeps_call rfl) fun _ => .pure _
  refine .bind hname fun _ => .ite (.bind hloader fun isLoaderMatch => .ite ?_ (.pure _)) (.pure _)
  exact .bind hfree fun _ => .bind hnew fun _ => .pure _

theorem keeps_search (classes : List C) (best : Option C) :
    Keeps retransforms (search jvm className loader classes best) := by
  induction classes generalizing best with
  | nil => exact .pure _
  | cons cls classes ih =>
    exact .bind (keeps_consider _ _ _ _ _) fun found =>
      .bind (keeps_call rfl) fun _ => .ite (.pure _) (ih found.1)

variable {jvm cls className loader}

variable (className loader) in
/-- What is retransformed, and what is returned, by the first match. -/
theorem jniRetransformClass_run {classes : List C} (hloaded : jvm.loadedClasses = some classes)
    (hsig : ∀ cls ∈ classes, ∀ sig, jvm.signature cls = some sig → IsSignature sig.val)
    (href : ∀ cls ∈ classes, jvm.newGlobalRef cls = true) :
    retransforms ((jniRetransformClass jvm className loader).final []) =
        (firstMatch jvm classes className loader).toList ∧
      (jniRetransformClass jvm className loader).result [] =
        ((firstMatch jvm classes className loader).map fun cls =>
          if jvm.retransform cls then 0 else -1).getD (-1) := by
  have hbest := search_result className loader hsig href none []
  have hkeeps := keeps_search jvm className loader classes none []
  rw [Option.none_or] at hbest
  unfold jniRetransformClass firstMatch
  rw [hloaded, ← hbest]
  simp only [final_bind, result_bind]
  generalize (search jvm className loader classes none).result [] = found
  generalize (search jvm className loader classes none).final [] = calls at hkeeps ⊢
  obtain ⟨best, isLoaderMatch⟩ := found
  have hdeallocated : retransforms ((call .deallocateClasses).final calls) = [] :=
    (keeps_call rfl calls).trans hkeeps
  generalize (call ClassCall.deallocateClasses).final calls = calls at hdeallocated ⊢
  cases best with
  | none => exact ⟨hdeallocated, rfl⟩
  | some best =>
    have hlast {calls : List (ClassCall C)} (h : retransforms calls = []) :
        retransforms ((call (.deleteGlobalRef best)).final
          ((call (.retransformClasses best)).final calls)) = [best] := by
      rw [keeps_call rfl, call, final_update, retransforms_append, h]
      rfl
    cases isLoaderMatch with
    | true => exact ⟨hlast hdeallocated, rfl⟩
    | false => exact ⟨hlast ((keeps_call rfl calls).trans hdeallocated), rfl⟩

/-! ## The classes of the world -/

/-- The JVM has the class versions, each with its position. -/
def versionQueries (versions : List Version) (ok : Bool) : ClassQueries (Version × Nat) where
  loadedClasses := some versions.zipIdx
  signature v := some (classSignature v.1.name)
  classLoader v := some v.1.loader
  newGlobalRef _ := true
  retransform _ := ok

theorem isSignature_versionQueries {versions : List Version} {ok : Bool}
    (hname : ∀ v ∈ versions, 59 ∉ v.name.val) :
    ∀ v ∈ versions.zipIdx, ∀ sig, (versionQueries versions ok).signature v = some sig →
      IsSignature sig.val := by
  intro v hv sig hsig
  rw [← Option.some.inj hsig, classSignature_val]
  exact .object (hname v.1 (List.fst_mem_of_mem_zipIdx hv))

/-- `retransformTarget` is the version that is retransformed. -/
theorem retransformTarget_eq (versions : List Version) (ok : Bool) (className : CStr)
    (loader : Option Nat) (hname : ∀ v ∈ versions, 59 ∉ v.name.val) :
    (retransforms
        ((jniRetransformClass (versionQueries versions ok) className loader).final [])).map Prod.snd =
      (retransformTarget versions className loader).toList := by
  have hnamed : ∀ v, Named (versionQueries versions ok) className v ↔ v.1.name = className := by
    intro v
    exact Option.some_inj.trans classSignature_inj
  have hloaded : ∀ v, LoadedBy (versionQueries versions ok) loader v ↔ v.1.loader = loader :=
    fun v => Option.some_inj
  rw [(jniRetransformClass_run className loader rfl (isSignature_versionQueries hname)
    fun _ _ => rfl).1]
  unfold retransformTarget firstMatch
  simp only [hnamed, hloaded, List.findIdx?_eq_fst_find?_zipIdx]
  rw [← Option.map_or]
  exact (Option.toList_map ..).symm

/-! ## The result -/

variable (className loader) in
/-- Where a loaded class has the name, the one class that is retransformed is the first of the name
and the loader, or else the first of the name; otherwise none is, and the result is -1. -/
theorem retransforms_first {classes : List C} (hloaded : jvm.loadedClasses = some classes)
    (hsig : ∀ cls ∈ classes, ∀ sig, jvm.signature cls = some sig → IsSignature sig.val)
    (href : ∀ cls ∈ classes, jvm.newGlobalRef cls = true) :
    ((∃ cls ∈ classes, Named jvm className cls) →
      ∃ cls, firstMatch jvm classes className loader = some cls ∧ Named jvm className cls ∧
        retransforms ((jniRetransformClass jvm className loader).final []) = [cls] ∧
        (jniRetransformClass jvm className loader).result [] =
          if jvm.retransform cls then 0 else -1) ∧
    ((∀ cls ∈ classes, ¬ Named jvm className cls) →
      retransforms ((jniRetransformClass jvm className loader).final []) = [] ∧
        (jniRetransformClass jvm className loader).result [] = -1) := by
  obtain ⟨hcalls, hret⟩ := jniRetransformClass_run className loader hloaded hsig href
  rw [hcalls, hret]
  constructor
  · rintro ⟨cls, hcls, hname⟩
    cases hfirst : firstMatch jvm classes className loader with
    | none => exact (firstMatch_eq_none.mp hfirst cls hcls hname).elim
    | some best => exact ⟨best, rfl, named_of_firstMatch hfirst, rfl, rfl⟩
  · intro hnone
    rw [firstMatch_eq_none.mpr hnone]
    exact ⟨rfl, rfl⟩

/-- The class `AB` of the loader 2, and `A` of the loaders 1 and 2. -/
def versionsOfA : List Version :=
  [⟨terminated (ascii "AB"), some 2, []⟩, ⟨terminated (ascii "A"), some 1, []⟩,
    ⟨terminated (ascii "A"), some 2, []⟩]

theorem retransforms_first_versionsOfA :
    ∃ cls, firstMatch (versionQueries versionsOfA true) versionsOfA.zipIdx (terminated (ascii "A"))
        (some 2) = some cls ∧
      Named (versionQueries versionsOfA true) (terminated (ascii "A")) cls ∧
      retransforms ((jniRetransformClass (versionQueries versionsOfA true) (terminated (ascii "A"))
        (some 2)).final []) = [cls] ∧
      (jniRetransformClass (versionQueries versionsOfA true) (terminated (ascii "A"))
        (some 2)).result [] = 0 :=
  (retransforms_first (terminated (ascii "A")) (some 2) rfl
    (isSignature_versionQueries (by decide)) fun _ _ => rfl).1
      ⟨(⟨terminated (ascii "A"), some 1, []⟩, 1), by decide, rfl⟩

end JniProfiler

end JautoProf
