import JautoProf.BytecodeTransformer
import Mathlib.Data.List.Perm.Basic
import Mathlib.Data.List.Nodup
import Mathlib.Data.List.Induction

/-!
# What a transformed class contains

`transform` compares one count with an expected one. `Instrumented` says what the count stands
for: each method asked for has its calls, and each line asked for has its call.

Results:
1. `transform_exact_iff`: `transform` returns a class exactly if it is instrumented, unless all
   is found and a method asked for has no code.
2. `transform_abstract`: a class with an abstract method that is returned unchanged.
-/

namespace JautoProf.BytecodeTransformer

variable {I T : Type}

/-! ## What is asked for -/

/-- The call stands in the code after a line number entry of the line, with nothing but added
calls in between. -/
def OccursAt (code : Emitted I T) (line : Int) (call : Emitted I T) : Prop :=
  ∃ pre start mid post, code = pre ++ (.original, .lineNumber line start) :: mid ++ call ++ post ∧
    ∀ e ∈ mid, e.1 = .inserted

/-- Each method asked for contains the calls with its profiler, the last one given for its
signature, and each line asked for has its call somewhere. -/
structure Instrumented (methods : List (String × Int)) (lines : List LineRequest)
    (out : List (MethodOut I T)) : Prop where
  methods : ∀ sig profilerId, methods.reverse.lookup sig = some profilerId →
    ∃ m ∈ out, ∃ code, m.sig = sig ∧ m.code = some code ∧
      callCode "enter" profilerId <:+: code ∧ callCode "exit" profilerId <:+: code
  lines : ∀ r ∈ lines, ∃ type, InstrumentType.fromCode r.type = .ok type ∧
    ∃ m ∈ out, ∃ code, m.code = some code ∧
      OccursAt code r.line (callCode type.call r.profilerId)

/-- Each method asked for is declared, and each line asked for is one of the class. -/
def AllFound (methods : List (String × Int)) (lines : List LineRequest)
    (cls : List (MethodInfo I T)) : Prop :=
  (∀ p ∈ methods, ∃ m ∈ cls, m.sig = p.1) ∧
    ∀ r ∈ lines, r.line ∈ cls.flatMap MethodInfo.lines

/-- Each method asked for has code, where it is declared. -/
def AllHaveCode (methods : List (String × Int)) (cls : List (MethodInfo I T)) : Prop :=
  ∀ p ∈ methods, ∀ m ∈ cls, m.sig = p.1 → m.code.isSome

/-! ## The maps -/

theorem methodMap_append (methods : List (String × Int)) (p : String × Int) :
    methodMap (methods ++ [p]) = (methodMap methods).insert p.1 p.2 := by
  unfold methodMap
  rw [List.foldl_append]
  rfl

/-- The map has the last profiler of each signature. -/
theorem lookup_methodMap (methods : List (String × Int)) (sig : String) :
    (methodMap methods).lookup sig = methods.reverse.lookup sig := by
  induction methods using List.reverseRecOn with
  | nil => exact AList.lookup_empty sig
  | append_singleton methods p ih =>
    rw [methodMap_append, List.reverse_concat, List.lookup_cons]
    by_cases h : sig = p.1
    · rw [h, AList.lookup_insert, beq_self_eq_true]
    · rw [AList.lookup_insert_ne h, ih, beq_false_of_ne h]

theorem mem_methodMap {methods : List (String × Int)} {sig : String} :
    sig ∈ methodMap methods ↔ ∃ p ∈ methods, p.1 = sig := by
  rw [← AList.lookup_isSome, lookup_methodMap, List.lookup_isSome_iff]
  constructor
  · rintro ⟨p, hp, hsig⟩
    exact ⟨p, List.mem_reverse.mp hp, (eq_of_beq hsig).symm⟩
  · rintro ⟨p, hp, rfl⟩
    exact ⟨p, List.mem_reverse.mpr hp, beq_self_eq_true _⟩

/-- The instrument of a line. -/
def LineRequest.instrument (r : LineRequest) : LineInstrument :=
  ⟨r.line, if r.type = 0 then .enter else .exit, r.profilerId, false⟩

/-- The type is one that `fromCode` knows. -/
def LineRequest.Valid (r : LineRequest) : Prop := r.type = 0 ∨ r.type = 1

theorem LineRequest.Valid.fromCode {r : LineRequest} (h : r.Valid) :
    InstrumentType.fromCode r.type = .ok r.instrument.type := by
  unfold InstrumentType.fromCode instrument
  rcases h with h | h
  · rw [if_pos h, if_pos h]
  · have h0 : r.type ≠ 0 := by omega
    rw [if_neg h0, if_pos h, if_neg h0]

theorem lineInstruments_eq {lines : List LineRequest} (h : ∀ r ∈ lines, r.Valid) :
    lineInstruments lines = .ok (lines.map LineRequest.instrument) := by
  induction lines with
  | nil => rfl
  | cons r lines ih =>
    rw [List.forall_mem_cons] at h
    unfold lineInstruments
    rw [h.1.fromCode, ih h.2]
    rfl

/-! ## The count -/

/-- The matches of methods count the signatures of the map that are declared. -/
theorem countP_counted {mi : MethodInstruments} {cls : List (MethodInfo I T)}
    (hdistinct : (cls.map MethodInfo.sig).Nodup) :
    cls.countP (counted mi) = (mi.keys.filter fun sig => sig ∈ cls.map MethodInfo.sig).length := by
  have hcounted : ∀ m : MethodInfo I T, counted mi m = true ↔ m.sig ∈ mi.keys := fun m =>
    AList.lookup_isSome
  have hperm : ((cls.map MethodInfo.sig).filter fun sig => sig ∈ mi.keys).Perm
      (mi.keys.filter fun sig => sig ∈ cls.map MethodInfo.sig) := by
    refine (List.perm_ext_iff_of_nodup (hdistinct.filter _) (mi.keys_nodup.filter _)).mpr
      fun sig => ?_
    simp only [List.mem_filter, decide_eq_true_eq]
    exact And.comm
  rw [← hperm.length_eq, ← List.countP_eq_length_filter, List.countP_map]
  exact List.countP_congr fun m _ => (hcounted m).trans decide_eq_true_iff.symm

theorem marked_visited (lines : List LineRequest) (ls : List Int) :
    marked ((lines.map LineRequest.instrument).map (.visited ls)) =
      (lines.filter fun r => r.line ∈ ls).length := by
  unfold marked
  rw [List.countP_map, List.countP_map, ← List.countP_eq_length_filter]
  refine List.countP_congr fun r _ => ?_
  unfold LineInstrument.visited LineRequest.instrument
  by_cases h : r.line ∈ ls <;> simp [h, LineInstrument.mark]

theorem marked_instrument (lines : List LineRequest) :
    marked (lines.map LineRequest.instrument) = 0 := by
  unfold marked
  rw [List.countP_map]
  exact List.countP_eq_zero.mpr fun r _ => Bool.false_ne_true

/-- The visitor of `transform`. -/
def startVisitor (methods : List (String × Int)) (lines : List LineRequest) :
    InstrumentingVisitor I T :=
  ⟨methodMap methods, lines.map LineRequest.instrument, 0, []⟩

/-- The class that is written. -/
def written (methods : List (String × Int)) (lines : List LineRequest)
    (cls : List (MethodInfo I T)) : List (MethodOut I T) :=
  cls.map (writtenMethod (methodMap methods) (lines.map LineRequest.instrument))

theorem writtenClass_eq {methods : List (String × Int)} {lines : List LineRequest}
    (h : ∀ r ∈ lines, r.Valid) (cls : List (MethodInfo I T)) :
    writtenClass methods lines cls = .ok (written methods lines cls) := by
  unfold writtenClass instrumentingVisitor
  rw [lineInstruments_eq h]
  exact congrArg Except.ok (acceptClass_spec cls (startVisitor methods lines)).1

/-- The count reaches what is expected exactly if all is found. -/
theorem allFound_iff (methods : List (String × Int)) (lines : List LineRequest)
    (cls : List (MethodInfo I T)) :
    AllFound methods lines cls ↔
      ¬ ((methodMap methods).keys.filter fun sig => sig ∈ cls.map MethodInfo.sig).length +
          (lines.filter fun r => r.line ∈ cls.flatMap MethodInfo.lines).length <
        (methodMap methods).keys.length + lines.length := by
  have hkeys := List.length_filter_le (fun sig => decide (sig ∈ cls.map MethodInfo.sig))
    (methodMap methods).keys
  have hlines := List.length_filter_le (fun r => decide (r.line ∈ cls.flatMap MethodInfo.lines))
    lines
  have hall : (¬ ((methodMap methods).keys.filter fun sig => sig ∈ cls.map MethodInfo.sig).length +
      (lines.filter fun r => r.line ∈ cls.flatMap MethodInfo.lines).length <
        (methodMap methods).keys.length + lines.length) ↔
      ((methodMap methods).keys.filter fun sig => sig ∈ cls.map MethodInfo.sig).length =
          (methodMap methods).keys.length ∧
        (lines.filter fun r => r.line ∈ cls.flatMap MethodInfo.lines).length = lines.length := by
    omega
  rw [hall, List.length_filter_eq_length_iff, List.length_filter_eq_length_iff]
  simp only [decide_eq_true_eq, List.mem_map]
  refine and_congr ⟨fun h sig hsig => ?_, fun h p hp => ?_⟩ Iff.rfl
  · obtain ⟨p, hp, rfl⟩ := mem_methodMap.mp hsig
    exact h p hp
  · exact h p.1 (mem_methodMap.mpr ⟨p, hp, rfl⟩)

/-- `transform` returns the class that was written exactly if all that was asked for is found
in the class. -/
theorem transform_eq {methods : List (String × Int)} {lines : List LineRequest}
    (h : ∀ r ∈ lines, r.Valid) {cls : List (MethodInfo I T)}
    (hdistinct : (cls.map MethodInfo.sig).Nodup) :
    ∃ r, transform methods lines cls = .ok r ∧
      (∀ out, r = some out → out = written methods lines cls) ∧
      (r.isSome ↔ AllFound methods lines cls) := by
  obtain ⟨hout, haccepted⟩ := acceptClass_spec cls (startVisitor methods lines)
  have hmatched : ((acceptClass cls).final (startVisitor methods lines)).matchedCount =
      ((methodMap methods).keys.filter fun sig => sig ∈ cls.map MethodInfo.sig).length +
        (lines.filter fun r => r.line ∈ cls.flatMap MethodInfo.lines).length := by
    have hcount := haccepted.matchedCount
    rw [haccepted.lineInstruments] at hcount
    have hstart : marked (startVisitor (I := I) (T := T) methods lines).lineInstruments = 0 :=
      marked_instrument lines
    have hmarked : marked ((startVisitor (I := I) (T := T) methods lines).lineInstruments.map
        (.visited (cls.flatMap MethodInfo.lines))) = _ := marked_visited lines _
    rw [hstart, hmarked] at hcount
    have hzero : (startVisitor (I := I) (T := T) methods lines).matchedCount = 0 := rfl
    rw [hzero, Nat.zero_add, Nat.add_zero] at hcount
    rw [hcount, ← countP_counted hdistinct]
    rfl
  -- what was asked for: each method once, and each line instrument
  have hexpected :
      ((acceptClass cls).final (startVisitor methods lines)).methodInstruments.keys.length +
      ((acceptClass cls).final (startVisitor methods lines)).lineInstruments.length =
        (methodMap methods).keys.length + lines.length := by
    rw [haccepted.methodInstruments, haccepted.lineInstruments, List.length_map]
    exact congrArg _ (List.length_map _)
  have hrun : transform methods lines cls =
      if ((acceptClass cls).final (startVisitor methods lines)).matchedCount <
        ((acceptClass cls).final (startVisitor methods lines)).methodInstruments.keys.length +
          ((acceptClass cls).final (startVisitor methods lines)).lineInstruments.length then .ok none
      else .ok (some ((acceptClass cls).result (startVisitor methods lines))) := by
    unfold transform instrumentingVisitor
    rw [lineInstruments_eq h]
    rfl
  rw [hmatched, hexpected, hout] at hrun
  rw [hrun]
  have hfound := allFound_iff methods lines cls
  split
  · next hlt =>
    exact ⟨none, rfl, fun _ h => absurd h (by simp), iff_of_false Bool.false_ne_true
      fun hall => hfound.mp hall hlt⟩
  · next hle =>
    exact ⟨_, rfl, fun _ h => (Option.some.inj h).symm, iff_of_true rfl (hfound.mpr hle)⟩

/-! ## What is written -/

/-- A method that is asked for and has code contains its calls. -/
theorem code_calls (profilerId : Int) (is : List LineInstrument) (body : List (Callback I T)) :
    callCode "enter" profilerId <:+: (Adapter.methodInstrumenting profilerId).code is body ∧
      callCode "exit" profilerId <:+: (Adapter.methodInstrumenting profilerId).code is body := by
  unfold Adapter.code
  constructor
  · refine ⟨[(.inserted, .label .startFinally)],
      body.flatMap ((Adapter.methodInstrumenting profilerId).expand is) ++
        (Adapter.methodInstrumenting profilerId).epilogue, ?_⟩
    rw [List.append_assoc (Adapter.prologue _)]
    rfl
  · refine ⟨(Adapter.methodInstrumenting profilerId).prologue ++
      body.flatMap ((Adapter.methodInstrumenting profilerId).expand is) ++
      [(.inserted, .tryCatchBlock .startFinally .endFinally .endFinally none),
        (.inserted, .label .endFinally)], [(.inserted, .instr (.insn Opcodes.athrow))], ?_⟩
    rw [List.append_assoc, List.append_assoc _ [_, _]]
    rfl

/-- The code is added by the adapter. -/
def Inserted (code : Emitted I T) : Prop := ∀ e ∈ code, e.1 = .inserted

theorem inserted_callCode (name : String) (profilerId : Int) :
    Inserted (callCode name profilerId : Emitted I T) := by
  simp [Inserted, callCode]

theorem inserted_calls (is : List LineInstrument) :
    Inserted (is.flatMap fun i => callCode i.type.call i.profilerId : Emitted I T) := by
  intro e he
  obtain ⟨i, -, hi⟩ := List.mem_flatMap.mp he
  exact inserted_callCode _ _ e hi

theorem Adapter.inserted_exitCode (a : Adapter) (i : Instr I) :
    Inserted (a.exitCode i : Emitted I T) := by
  unfold exitCode
  split
  · split
    · exact inserted_callCode _ _
    · exact fun _ h => absurd h List.not_mem_nil
  · exact fun _ h => absurd h List.not_mem_nil

theorem Adapter.inserted_prologue (a : Adapter) : Inserted (a.prologue : Emitted I T) := by
  cases a <;> simp [Inserted, prologue, callCode]

theorem Adapter.inserted_epilogue (a : Adapter) : Inserted (a.epilogue : Emitted I T) := by
  cases a <;> simp [Inserted, epilogue, callCode]

/-- What is passed on comes from the body. -/
theorem mem_body_of_original {a : Adapter} {is : List LineInstrument}
    {body : List (Callback I T)} {c : Callback I T} (h : (.original, c) ∈ a.code is body) :
    c ∈ body := by
  rcases List.mem_append.mp h with h | h
  · rcases List.mem_append.mp h with h | h
    · cases a.inserted_prologue _ h
    · obtain ⟨c', hc', hmem⟩ := List.mem_flatMap.mp h
      have hsame : c = c' := by
        cases c' with
        | lineNumber line start =>
          rcases List.mem_cons.mp hmem with heq | hmem
          · exact congrArg Prod.snd heq
          · cases inserted_calls _ _ hmem
        | instr i =>
          rcases List.mem_append.mp hmem with hmem | hmem
          · cases a.inserted_exitCode i _ hmem
          · exact congrArg Prod.snd (List.mem_singleton.mp hmem)
        | _ => exact congrArg Prod.snd (List.mem_singleton.mp hmem)
      exact hsame ▸ hc'
  · cases a.inserted_epilogue _ h

/-- The call of an instrument stands at each line number entry of its line. -/
theorem occursAt_code {a : Adapter} {is : List LineInstrument} {body : List (Callback I T)}
    {i : LineInstrument} (hi : i ∈ is) (hline : i.line ∈ body.flatMap Callback.lines) :
    OccursAt (a.code is body) i.line (callCode i.type.call i.profilerId) := by
  obtain ⟨c, hc, hmem⟩ := List.mem_flatMap.mp hline
  cases c with
  | lineNumber line start =>
    cases List.mem_singleton.mp hmem
    obtain ⟨body₁, body₂, rfl⟩ := List.append_of_mem hc
    have hfilter : i ∈ is.filter fun j => j.line = i.line :=
      List.mem_filter.mpr ⟨hi, decide_eq_true rfl⟩
    obtain ⟨is₁, is₂, his⟩ := List.append_of_mem hfilter
    refine ⟨a.prologue ++ body₁.flatMap (a.expand is), start,
      is₁.flatMap fun j => callCode j.type.call j.profilerId,
      (is₂.flatMap fun j => callCode j.type.call j.profilerId) ++ body₂.flatMap (a.expand is) ++
        a.epilogue, ?_, inserted_calls is₁⟩
    have hexpand : (a.expand is (.lineNumber i.line start) : Emitted I T) =
        (.original, .lineNumber i.line start) ::
          ((is₁ ++ i :: is₂).flatMap fun j => callCode j.type.call j.profilerId) := by
      rw [← his]
      rfl
    unfold Adapter.code
    rw [List.flatMap_append, List.flatMap_cons, hexpand, List.flatMap_append, List.flatMap_cons]
    simp only [List.append_assoc, List.cons_append]
  | _ => exact absurd hmem List.not_mem_nil

/-- A line number entry that is written is one of the method. -/
theorem line_of_occursAt {a : Adapter} {is : List LineInstrument} {body : List (Callback I T)}
    {line : Int} {call : Emitted I T} (h : OccursAt (a.code is body) line call) :
    line ∈ body.flatMap Callback.lines := by
  obtain ⟨pre, start, mid, post, hcode, -⟩ := h
  have hmem : (Origin.original, Callback.lineNumber line start) ∈ a.code is body := by
    rw [hcode]
    simp
  exact List.mem_flatMap.mpr ⟨_, mem_body_of_original hmem, List.mem_singleton_self line⟩

theorem mem_written {methods : List (String × Int)} {lines : List LineRequest}
    {cls : List (MethodInfo I T)} {o : MethodOut I T} {code : Emitted I T}
    (ho : o ∈ written methods lines cls) (hcode : o.code = some code) :
    ∃ m ∈ cls, ∃ body, m.sig = o.sig ∧ m.code = some body ∧
      code = (adapterOf (methodMap methods) m).code (lines.map LineRequest.instrument) body := by
  obtain ⟨m, hm, rfl⟩ := List.mem_map.mp ho
  obtain ⟨body, hbody, hcode⟩ := Option.map_eq_some_iff.mp hcode
  exact ⟨m, hm, body, rfl, hbody, hcode.symm⟩

/-- What is written of a method with code. -/
theorem written_mem (methods : List (String × Int)) (lines : List LineRequest)
    {cls : List (MethodInfo I T)} {m : MethodInfo I T} {body : List (Callback I T)}
    (hm : m ∈ cls) (hbody : m.code = some body) :
    ∃ o ∈ written methods lines cls, o.sig = m.sig ∧ o.code =
      some ((adapterOf (methodMap methods) m).code (lines.map LineRequest.instrument) body) := by
  refine ⟨_, List.mem_map_of_mem hm, rfl, ?_⟩
  rw [writtenMethod, hbody]
  rfl

theorem mem_lines {cls : List (MethodInfo I T)} {line : Int} :
    line ∈ cls.flatMap MethodInfo.lines ↔
      ∃ m ∈ cls, ∃ body, m.code = some body ∧ line ∈ body.flatMap Callback.lines := by
  rw [List.mem_flatMap]
  refine exists_congr fun m => and_congr_right fun _ => ?_
  unfold MethodInfo.lines
  cases m.code with
  | none =>
    refine ⟨fun h => absurd h List.not_mem_nil, fun h => ?_⟩
    obtain ⟨body, hbody, -⟩ := h
    cases hbody
  | some body =>
    refine ⟨fun h => ⟨body, rfl, h⟩, fun h => ?_⟩
    obtain ⟨body', hbody, h⟩ := h
    cases hbody
    exact h

theorem lookup_of_mem {methods : List (String × Int)} {p : String × Int} (h : p ∈ methods) :
    ∃ profilerId, methods.reverse.lookup p.1 = some profilerId :=
  Option.isSome_iff_exists.mp
    (List.lookup_isSome_iff.mpr ⟨p, List.mem_reverse.mpr h, beq_self_eq_true _⟩)

/-- The class that is written is instrumented exactly if all is found, and no method that was
asked for is without code. -/
theorem instrumented_iff {methods : List (String × Int)} {lines : List LineRequest}
    (h : ∀ r ∈ lines, r.Valid) {cls : List (MethodInfo I T)}
    (hdistinct : (cls.map MethodInfo.sig).Nodup) :
    Instrumented methods lines (written methods lines cls) ↔
      AllFound methods lines cls ∧ AllHaveCode methods cls := by
  constructor
  · intro hall
    -- a method that calls its profiler was written from one with code
    have hmethod : ∀ p ∈ methods, ∃ m ∈ cls, m.sig = p.1 ∧ m.code.isSome := by
      intro p hp
      obtain ⟨profilerId, hlookup⟩ := lookup_of_mem hp
      obtain ⟨o, ho, code, hsig, hcode, -⟩ := hall.methods p.1 profilerId hlookup
      obtain ⟨m, hm, body, hsame, hbody, -⟩ := mem_written ho hcode
      exact ⟨m, hm, hsame.trans hsig, Option.isSome_iff_exists.mpr ⟨body, hbody⟩⟩
    refine ⟨⟨fun p hp => ?_, fun r hr => ?_⟩, fun p hp m hm hsig => ?_⟩
    · obtain ⟨m, hm, hsig, -⟩ := hmethod p hp
      exact ⟨m, hm, hsig⟩
    · obtain ⟨type, -, o, ho, code, hcode, hoccurs⟩ := hall.lines r hr
      obtain ⟨m, hm, body, -, hbody, rfl⟩ := mem_written ho hcode
      exact mem_lines.mpr ⟨m, hm, body, hbody, line_of_occursAt hoccurs⟩
    · obtain ⟨m', hm', hsig', hcode⟩ := hmethod p hp
      rwa [List.inj_on_of_nodup_map hdistinct hm hm' (hsig.trans hsig'.symm)]
  · rintro ⟨⟨hmethods, hlines⟩, hcode⟩
    refine ⟨fun sig profilerId hlookup => ?_, fun r hr => ?_⟩
    · have hlookup' : (methodMap methods).lookup sig = some profilerId :=
        (lookup_methodMap methods sig).trans hlookup
      obtain ⟨p, hp, rfl⟩ := mem_methodMap.mp (AList.lookup_isSome.mp
        (Option.isSome_iff_exists.mpr ⟨profilerId, hlookup'⟩))
      obtain ⟨m, hm, hsig⟩ := hmethods p hp
      obtain ⟨body, hbody⟩ := Option.isSome_iff_exists.mp (hcode p hp m hm hsig)
      have hadapter : adapterOf (methodMap methods) m = .methodInstrumenting profilerId := by
        unfold adapterOf
        rw [hsig, hlookup']
      obtain ⟨o, ho, hosig, hocode⟩ := written_mem methods lines hm hbody
      rw [hadapter] at hocode
      exact ⟨o, ho, _, hosig.trans hsig, hocode, code_calls profilerId _ body⟩
    · obtain ⟨m, hm, body, hbody, hline⟩ := mem_lines.mp (hlines r hr)
      obtain ⟨o, ho, -, hocode⟩ := written_mem methods lines hm hbody
      exact ⟨r.instrument.type, (h r hr).fromCode, o, ho, _, hocode,
        occursAt_code (i := r.instrument) (List.mem_map_of_mem hr) hline⟩

/-- For every class and all that may be asked for: `transform` returns a class if and only if
the class that was written is instrumented, exactly unless all is found and some method that
was asked for has no code. -/
theorem transform_exact_iff (methods : List (String × Int)) (lines : List LineRequest)
    (cls : List (MethodInfo I T)) (hdistinct : (cls.map MethodInfo.sig).Nodup)
    (hvalid : ∀ r ∈ lines, r.Valid) :
    ∃ out r, writtenClass methods lines cls = .ok out ∧ transform methods lines cls = .ok r ∧
      (∀ o, r = some o → o = out) ∧
      ((r.isSome ↔ Instrumented methods lines out) ↔
        ¬ AllFound methods lines cls ∨ AllHaveCode methods cls) := by
  obtain ⟨r, hrun, hout, hsome⟩ := transform_eq hvalid hdistinct
  refine ⟨_, r, writtenClass_eq hvalid cls, hrun, hout, ?_⟩
  rw [hsome, instrumented_iff hvalid hdistinct]
  constructor
  · intro hiff
    by_cases hfound : AllFound methods lines cls
    · exact .inr (hiff.mp hfound).2
    · exact .inl hfound
  · rintro (hnot | hcode)
    · exact iff_of_false hnot fun h => hnot h.1
    · exact ⟨fun h => ⟨h, hcode⟩, And.left⟩

/-- A class with `f`, which has one line, and the abstract `g`. -/
def abstractClass : List (MethodInfo Unit Unit) :=
  [⟨"f", "()V", some [.label (.read 0), .lineNumber 3 (.read 0), .instr (.insn Opcodes.return')]⟩,
    ⟨"g", "()V", none⟩]

theorem transform_exact_line :
    ∃ out r, writtenClass [("f:()V", 7)] [⟨3, 0, 8⟩] abstractClass = .ok out ∧
      transform [("f:()V", 7)] [⟨3, 0, 8⟩] abstractClass = .ok r ∧
      (∀ o, r = some o → o = out) ∧
      ((r.isSome ↔ Instrumented [("f:()V", 7)] [⟨3, 0, 8⟩] out) ↔
        ¬ AllFound [("f:()V", 7)] [⟨3, 0, 8⟩] abstractClass ∨
          AllHaveCode [("f:()V", 7)] abstractClass) :=
  transform_exact_iff [("f:()V", 7)] [⟨3, 0, 8⟩] abstractClass (by decide)
    fun _ hr => .inl (by rw [List.mem_singleton.mp hr])

/-- The abstract `g` is asked for: `transform` returns the class, and no method of it calls the
profiler. -/
theorem transform_abstract :
    ∃ out, transform [("g:()V", 7)] [] abstractClass = .ok (some out) ∧
      writtenClass [("g:()V", 7)] [] abstractClass = .ok out ∧
      ¬ Instrumented [("g:()V", 7)] [] out := by
  have hvalid : ∀ r ∈ ([] : List LineRequest), r.Valid := fun r hr => absurd hr List.not_mem_nil
  refine ⟨written [("g:()V", 7)] [] abstractClass, rfl, writtenClass_eq hvalid _, fun h => ?_⟩
  have hcode := ((instrumented_iff hvalid (by decide)).mp h).2
  have hg : (⟨"g", "()V", none⟩ : MethodInfo Unit Unit) ∈ abstractClass :=
    List.mem_cons_of_mem _ (List.mem_singleton_self _)
  exact absurd (hcode ("g:()V", 7) (List.mem_singleton_self _) _ hg rfl) Bool.false_ne_true

end JautoProf.BytecodeTransformer
