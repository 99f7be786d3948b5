import JautoProf.Lib.Prog
import Mathlib.Data.List.AList

/-!
# The bytecode transformer (`BytecodeTransformer.java`)

ASM reads a class and calls a visitor, method by method; the visitor passes the calls on to
the writer and adds some of its own. A `Callback` is a call between `visitCode` and
`visitMaxs`. Those that the transformer passes on as they come are `other`, and calls that
leave no trace in the code (annotations, local variables) are left out. The writer keeps what
it is given, in order, and beside each call we note whether it came from the class.

Results:
1. `visitBody_result`: what the writer is given for the body of a method.
2. `acceptClass_result`, `acceptClass_final`: what it is given for a class, and which matches
   were counted on the way.
-/

namespace JautoProf.BytecodeTransformer

/-! ## The visitor interface -/

/-- A label of the class, or one of the two that `MethodInstrumentingAdapter` creates for a
method. -/
inductive Label
  | read (n : Nat)
  | startFinally
  | endFinally
deriving DecidableEq

/-- `visitInsn` and the other calls for an instruction. -/
inductive Instr (I : Type)
  | insn (opcode : Nat)
  | intInsn (opcode : Nat) (operand : Int)
  | ldcInsn (value : Int)
  | methodInsn (opcode : Nat) (owner name descriptor : String) (isInterface : Bool)
  | other (i : I)
deriving DecidableEq

inductive Callback (I T : Type)
  | tryCatchBlock (start finish handler : Label) (type : Option T)
  | label (l : Label)
  | lineNumber (line : Int) (start : Label)
  | instr (i : Instr I)
deriving DecidableEq

/-- Whether a call is passed on or added. -/
inductive Origin
  | original
  | inserted
deriving DecidableEq

/-- What the writer of a method is given. -/
abbrev Emitted (I T : Type) : Type := List (Origin × Callback I T)

/-- A method of the class that is read. -/
structure MethodInfo (I T : Type) where
  name : String
  descriptor : String
  code : Option (List (Callback I T))

/-- A method of the class that is written. -/
structure MethodOut (I T : Type) where
  name : String
  descriptor : String
  code : Option (Emitted I T)

variable {I T : Type}

def MethodInfo.sig (m : MethodInfo I T) : String := m.name ++ ":" ++ m.descriptor

def MethodOut.sig (m : MethodOut I T) : String := m.name ++ ":" ++ m.descriptor

/-! ## Opcodes -/

namespace Opcodes

def iconst0 : Nat := 3

def bipush : Nat := 16

def sipush : Nat := 17

def ireturn : Nat := 172

def return' : Nat := 177

def invokestatic : Nat := 184

def athrow : Nat := 191

end Opcodes

/-- `REGISTRY`. -/
def registry : String := "app/autoprofiler/ProfilerRegistry"

/-! ## The instruments -/

inductive InstrumentType
  | enter
  | exit
deriving DecidableEq

def InstrumentType.fromCode (code : Int) : Except String InstrumentType :=
  if code = 0 then .ok .enter
  else if code = 1 then .ok .exit
  else .error ("Invalid instrument type code " ++ toString code)

/-- An entry of `lineNumbers`, `lineTypes` and `lineProfilerIds`. -/
structure LineRequest where
  line : Int
  type : Int
  profilerId : Int

/-- A `LineInstrument` with the line under which the map has it. -/
structure LineInstrument where
  line : Int
  type : InstrumentType
  profilerId : Int
  markFlag : Bool
deriving DecidableEq

/-- `LineInstrument.mark`: the result, and the instrument after it. -/
def LineInstrument.mark (i : LineInstrument) : Bool × LineInstrument :=
  (!i.markFlag, { i with markFlag := true })

/-- The map from a signature to the profiler of its `MethodInstrument`. -/
abbrev MethodInstruments : Type := AList fun _ : String => Int

/-- `InstrumentingVisitor`, with what the writer of the current method was given. The lists of
the map `lineInstruments` are one list; a line has those that carry it, in their order. -/
structure InstrumentingVisitor (I T : Type) where
  methodInstruments : MethodInstruments
  lineInstruments : List LineInstrument
  matchedCount : Nat
  mv : Emitted I T

abbrev VisitM (I T : Type) := Prog (InstrumentingVisitor I T)

def emit (origin : Origin) (c : Callback I T) : VisitM I T Unit :=
  .update fun v => { v with mv := v.mv ++ [(origin, c)] }

def countMatch : VisitM I T Unit := .update fun v => { v with matchedCount := v.matchedCount + 1 }

/-! ## The adapters -/

/-- The call that `pushInt` makes. -/
def pushInt (value : Int) : Instr I :=
  if -1 ≤ value ∧ value ≤ 5 then .insn (Opcodes.iconst0 + value).toNat
  else if -128 ≤ value ∧ value ≤ 127 then .intInsn Opcodes.bipush value
  else if -32768 ≤ value ∧ value ≤ 32767 then .intInsn Opcodes.sipush value
  else .ldcInsn value

/-- A call of a static method of the registry that takes an int. -/
def registryCall (name : String) : Instr I :=
  .methodInsn Opcodes.invokestatic registry name "(I)V" false

/-- `emitEnter`, `emitExit`, `emitEnterLine` and `emitExitLine`. The `visitInsn` of the adapter
adds nothing to a constant. -/
def emitCall (name : String) (profilerId : Int) : VisitM I T Unit := do
  emit .inserted (.instr (pushInt profilerId))
  emit .inserted (.instr (registryCall name))

/-- The method of the registry that an instrument of a line calls. -/
def InstrumentType.call : InstrumentType → String
  | enter => "enterLine"
  | exit => "exitLine"

/-- The body of the loop of `visitLineNumber`, with the instrument as it leaves it. The line
has the instruments that carry it. -/
def visitInstrument (line : Int) (i : LineInstrument) : VisitM I T LineInstrument :=
  if i.line = line then do
    emitCall i.type.call i.profilerId
    let (ret, i) := i.mark
    if ret then do
      countMatch
      pure i
    else pure i
  else pure i

/-- The loop of `visitLineNumber`. -/
def visitInstruments (line : Int) : List LineInstrument → VisitM I T (List LineInstrument)
  | [] => pure []
  | i :: is => do
    let i ← visitInstrument line i
    let is ← visitInstruments line is
    pure (i :: is)

/-- `LineInstrumentingAdapter.visitLineNumber`. -/
def visitLineNumber (line : Int) (start : Label) : VisitM I T Unit := do
  emit .original (.lineNumber line start)
  let instruments ← .read InstrumentingVisitor.lineInstruments
  let instruments ← visitInstruments line instruments
  .update fun v => { v with lineInstruments := instruments }

/-- `LineInstrumentingAdapter`, or `MethodInstrumentingAdapter` with its profiler. -/
inductive Adapter
  | lineInstrumenting
  | methodInstrumenting (profilerId : Int)

/-- `visitCode`; what the writer's own adds to the code is nothing. -/
def Adapter.visitCode : Adapter → VisitM I T Unit
  | lineInstrumenting => pure ()
  | methodInstrumenting profilerId => do
    emit .inserted (.label .startFinally)
    emitCall "enter" profilerId

def isReturn (opcode : Nat) : Bool := Opcodes.ireturn ≤ opcode && opcode ≤ Opcodes.return'

/-- `MethodInstrumentingAdapter.visitInsn`. -/
def visitInsn (profilerId : Int) (opcode : Nat) : VisitM I T Unit := do
  if isReturn opcode then do
    emitCall "exit" profilerId
    emit .original (.instr (.insn opcode))
  else emit .original (.instr (.insn opcode))

/-- The calls between `visitCode` and `visitMaxs`. -/
def Adapter.visit : Adapter → Callback I T → VisitM I T Unit
  | _, .lineNumber line start => visitLineNumber line start
  | .methodInstrumenting profilerId, .instr (.insn opcode) => visitInsn profilerId opcode
  | _, c => emit .original c

def Adapter.visitAll (a : Adapter) : List (Callback I T) → VisitM I T Unit
  | [] => pure ()
  | c :: cs => do
    a.visit c
    a.visitAll cs

/-- `visitMaxs`. -/
def Adapter.visitMaxs : Adapter → VisitM I T Unit
  | lineInstrumenting => pure ()
  | methodInstrumenting profilerId => do
    emit .inserted (.tryCatchBlock .startFinally .endFinally .endFinally none)
    emit .inserted (.label .endFinally)
    emitCall "exit" profilerId
    emit .inserted (.instr (.insn Opcodes.athrow))

/-- The calls for the body of a method, and what the writer was given. -/
def Adapter.visitBody (a : Adapter) (body : List (Callback I T)) : VisitM I T (Emitted I T) := do
  .update fun v => { v with mv := [] }
  a.visitCode
  a.visitAll body
  a.visitMaxs
  .read InstrumentingVisitor.mv

/-! ## The class -/

/-- `InstrumentingVisitor.visitMethod`; the constructor of `MethodInstrumentingAdapter` counts
a match. -/
def visitMethod (m : MethodInfo I T) : VisitM I T Adapter := do
  let instruments ← .read InstrumentingVisitor.methodInstruments
  match AList.lookup m.sig instruments with
  | some profilerId => do
    countMatch
    pure (.methodInstrumenting profilerId)
  | none => pure .lineInstrumenting

/-- The calls for a method. One without code gets no call of its adapter. -/
def acceptMethod (m : MethodInfo I T) : VisitM I T (MethodOut I T) := do
  let a ← visitMethod m
  match m.code with
  | none => pure ⟨m.name, m.descriptor, none⟩
  | some body => do
    let code ← a.visitBody body
    pure ⟨m.name, m.descriptor, some code⟩

/-- `ClassReader.accept`. -/
def acceptClass : List (MethodInfo I T) → VisitM I T (List (MethodOut I T))
  | [] => pure []
  | m :: ms => do
    let o ← acceptMethod m
    let os ← acceptClass ms
    pure (o :: os)

/-- The loop over the signatures. -/
def methodMap (methods : List (String × Int)) : MethodInstruments :=
  methods.foldl (fun m p => m.insert p.1 p.2) ∅

/-- The loop over the line numbers. -/
def lineInstruments : List LineRequest → Except String (List LineInstrument)
  | [] => .ok []
  | r :: rs => do
    let type ← InstrumentType.fromCode r.type
    let is ← lineInstruments rs
    .ok (⟨r.line, type, r.profilerId, false⟩ :: is)

/-- The visitor that `transform` creates; the pairs are `methodSigs` and `methodProfilerIds`. -/
def instrumentingVisitor (methods : List (String × Int)) (lines : List LineRequest) :
    Except String (InstrumentingVisitor I T) := do
  let is ← lineInstruments lines
  .ok ⟨methodMap methods, is, 0, []⟩

/-- What `cw` was given. -/
def writtenClass (methods : List (String × Int)) (lines : List LineRequest)
    (cls : List (MethodInfo I T)) : Except String (List (MethodOut I T)) := do
  let v ← instrumentingVisitor methods lines
  .ok ((acceptClass cls).result v)

/-- `BytecodeTransformer.transform`; the error is an exception, and `none` is null. -/
def transform (methods : List (String × Int)) (lines : List LineRequest)
    (cls : List (MethodInfo I T)) : Except String (Option (List (MethodOut I T))) := do
  let v ← instrumentingVisitor methods lines
  let iv := (acceptClass cls).final v
  let expectedInstruments := iv.methodInstruments.keys.length + iv.lineInstruments.length
  if iv.matchedCount < expectedInstruments then .ok none
  else .ok (some ((acceptClass cls).result v))

/-! ## What an adapter adds -/

/-- A constant and a call that takes it. -/
def callCode (name : String) (profilerId : Int) : Emitted I T :=
  [(.inserted, .instr (pushInt profilerId)), (.inserted, .instr (registryCall name))]

/-- The calls for a line. -/
def lineCode (is : List LineInstrument) (line : Int) : Emitted I T :=
  (is.filter fun i => i.line = line).flatMap fun i => callCode i.type.call i.profilerId

/-- What is added before an instruction. -/
def Adapter.exitCode : Adapter → Instr I → Emitted I T
  | methodInstrumenting profilerId, .insn opcode =>
    if isReturn opcode then callCode "exit" profilerId else []
  | _, _ => []

/-- What the writer is given for a callback. -/
def Adapter.expand (is : List LineInstrument) (a : Adapter) : Callback I T → Emitted I T
  | .lineNumber line start => (.original, .lineNumber line start) :: lineCode is line
  | .instr i => a.exitCode i ++ [(.original, .instr i)]
  | c => [(.original, c)]

def Adapter.prologue : Adapter → Emitted I T
  | lineInstrumenting => []
  | methodInstrumenting profilerId =>
    (.inserted, .label .startFinally) :: callCode "enter" profilerId

def Adapter.epilogue : Adapter → Emitted I T
  | lineInstrumenting => []
  | methodInstrumenting profilerId =>
    (.inserted, .tryCatchBlock .startFinally .endFinally .endFinally none) ::
      (.inserted, .label .endFinally) :: callCode "exit" profilerId ++
        [(.inserted, .instr (.insn Opcodes.athrow))]

/-- What the writer is given for a body. -/
def Adapter.code (a : Adapter) (is : List LineInstrument) (body : List (Callback I T)) :
    Emitted I T :=
  a.prologue ++ body.flatMap (a.expand is) ++ a.epilogue

/-- The lines of a callback. -/
def Callback.lines : Callback I T → List Int
  | lineNumber line _ => [line]
  | _ => []

/-- An instrument after the lines were visited. -/
def LineInstrument.visited (ls : List Int) (i : LineInstrument) : LineInstrument :=
  if i.line ∈ ls then i.mark.2 else i

/-- The number of instruments that are marked. -/
def marked (is : List LineInstrument) : Nat := is.countP (·.markFlag)

/-- From `v` to `v'` the writer is given `out`, and the instruments of `ls` are marked, each
counted when its mark is new. -/
structure Visited (v v' : InstrumentingVisitor I T) (out : Emitted I T) (ls : List Int) :
    Prop where
  mv : v'.mv = v.mv ++ out
  methodInstruments : v'.methodInstruments = v.methodInstruments
  lineInstruments : v'.lineInstruments = v.lineInstruments.map (.visited ls)
  matchedCount : v'.matchedCount + marked v.lineInstruments =
    v.matchedCount + marked v'.lineInstruments

@[simp] theorem LineInstrument.visited_nil (i : LineInstrument) : i.visited [] = i := rfl

theorem LineInstrument.visited_visited (ls ls' : List Int) (i : LineInstrument) :
    (i.visited ls).visited ls' = i.visited (ls ++ ls') := by
  unfold visited
  by_cases h : i.line ∈ ls <;> by_cases h' : i.line ∈ ls' <;> simp [h, h', mark]

theorem Visited.trans {v v' v'' : InstrumentingVisitor I T} {out out' : Emitted I T}
    {ls ls' : List Int} (h : Visited v v' out ls) (h' : Visited v' v'' out' ls') :
    Visited v v'' (out ++ out') (ls ++ ls') where
  mv := by rw [h'.mv, h.mv, List.append_assoc]
  methodInstruments := h'.methodInstruments.trans h.methodInstruments
  lineInstruments := by
    rw [h'.lineInstruments, h.lineInstruments, List.map_map]
    exact List.map_congr_left fun i _ => i.visited_visited ls ls'
  matchedCount := by
    have := h.matchedCount
    have := h'.matchedCount
    omega

theorem visited_emit (origin : Origin) (c : Callback I T) (v : InstrumentingVisitor I T) :
    Visited v ((emit origin c).final v) [(origin, c)] [] :=
  ⟨rfl, rfl, (List.map_id' _).symm, rfl⟩

theorem emitCall_eq (name : String) (profilerId : Int) (v : InstrumentingVisitor I T) :
    emitCall name profilerId v = ((), { v with mv := v.mv ++ callCode name profilerId }) := by
  show ((), { v with mv := (v.mv ++ [_]) ++ [_] }) = _
  rw [List.append_assoc]
  rfl

theorem visited_emitCall (name : String) (profilerId : Int) (v : InstrumentingVisitor I T) :
    Visited v ((emitCall name profilerId).final v) (callCode name profilerId) [] :=
  (visited_emit _ _ v).trans (visited_emit _ _ _)

/-! ## What a line does -/

theorem visitInstrument_eq {line : Int} {i : LineInstrument} (h : i.line = line)
    (v : InstrumentingVisitor I T) :
    visitInstrument line i v = (i.mark.2, { v with
      mv := v.mv ++ callCode i.type.call i.profilerId
      matchedCount := v.matchedCount + if i.markFlag then 0 else 1 }) := by
  unfold visitInstrument
  rw [if_pos h]
  refine Prog.bind_eq.mpr ⟨(), _, emitCall_eq _ _ v, ?_⟩
  obtain ⟨line, type, profilerId, markFlag⟩ := i
  cases markFlag <;> rfl

theorem marked_cons (i : LineInstrument) (is : List LineInstrument) :
    marked (i :: is) = marked is + if i.markFlag then 1 else 0 :=
  List.countP_cons

/-- The loop of `visitLineNumber` marks the instruments of the line, and counts those that it
is the first to mark. -/
theorem visitInstruments_eq (line : Int) (is : List LineInstrument)
    (v : InstrumentingVisitor I T) :
    ∃ n, visitInstruments line is v = (is.map (.visited [line]),
        { v with mv := v.mv ++ lineCode is line, matchedCount := v.matchedCount + n }) ∧
      n + marked is = marked (is.map (.visited [line])) := by
  induction is generalizing v with
  | nil =>
    refine ⟨0, ?_, rfl⟩
    rw [lineCode, List.filter_nil, List.flatMap_nil, List.append_nil]
    rfl
  | cons i is ih =>
    by_cases hline : i.line = line
    · obtain ⟨n, hrun, hn⟩ := ih { v with
        mv := v.mv ++ callCode i.type.call i.profilerId
        matchedCount := v.matchedCount + if i.markFlag then 0 else 1 }
      have hvisited : i.visited [line] = i.mark.2 := if_pos (List.mem_singleton.mpr hline)
      refine ⟨(if i.markFlag then 0 else 1) + n, ?_, ?_⟩
      · refine Prog.bind_eq.mpr ⟨_, _, visitInstrument_eq hline v, Prog.bind_eq.mpr
          ⟨_, _, hrun, Prog.pure_eq.mpr ⟨?_, ?_⟩⟩⟩
        · rw [List.map_cons, hvisited]
        · rw [lineCode, lineCode, List.filter_cons_of_pos (by simpa using hline),
            List.flatMap_cons, List.append_assoc, Nat.add_assoc]
      · rw [List.map_cons, hvisited, marked_cons, marked_cons, ← hn]
        cases i.markFlag <;> simp [LineInstrument.mark] <;> omega
    · -- an instrument of another line is passed over
      obtain ⟨n, hrun, hn⟩ := ih v
      have hvisited : i.visited [line] = i := if_neg fun h => hline (List.mem_singleton.mp h)
      refine ⟨n, ?_, ?_⟩
      · have hskip : visitInstrument line i v = (i, v) := by
          unfold visitInstrument
          rw [if_neg hline]
          rfl
        refine Prog.bind_eq.mpr ⟨_, _, hskip, Prog.bind_eq.mpr
          ⟨_, _, hrun, Prog.pure_eq.mpr ⟨?_, ?_⟩⟩⟩
        · rw [List.map_cons, hvisited]
        · rw [lineCode, lineCode, List.filter_cons_of_neg (by simpa using hline)]
      · rw [List.map_cons, hvisited, marked_cons, marked_cons, ← hn]
        omega

theorem visited_visitLineNumber (line : Int) (start : Label) (v : InstrumentingVisitor I T) :
    Visited v ((visitLineNumber line start).final v)
      ((.original, .lineNumber line start) :: lineCode v.lineInstruments line) [line] := by
  obtain ⟨n, hrun, hn⟩ := visitInstruments_eq line v.lineInstruments
    ((emit .original (.lineNumber line start)).final v)
  have hfinal : visitLineNumber line start v = ((), { v with
      mv := v.mv ++ [(.original, .lineNumber line start)] ++ lineCode v.lineInstruments line
      matchedCount := v.matchedCount + n
      lineInstruments := v.lineInstruments.map (.visited [line]) }) :=
    Prog.bind_eq.mpr ⟨_, _, rfl, Prog.bind_eq.mpr ⟨_, _, rfl, Prog.bind_eq.mpr
      ⟨_, _, hrun, rfl⟩⟩⟩
  unfold Prog.final
  rw [hfinal]
  refine ⟨?_, rfl, rfl, ?_⟩
  · show v.mv ++ [_] ++ _ = _
    rw [List.append_assoc]
    rfl
  · show v.matchedCount + n + marked v.lineInstruments = _
    rw [Nat.add_assoc, hn]

/-! ## What a body does -/

theorem lineCode_visited (is : List LineInstrument) (ls : List Int) (line : Int) :
    (lineCode (is.map (.visited ls)) line : Emitted I T) = lineCode is line := by
  have hsame : ∀ i : LineInstrument, (i.visited ls).line = i.line ∧
      (i.visited ls).type = i.type ∧ (i.visited ls).profilerId = i.profilerId := by
    intro i
    unfold LineInstrument.visited
    split <;> exact ⟨rfl, rfl, rfl⟩
  induction is with
  | nil => rfl
  | cons i is ih =>
    obtain ⟨hline, htype, hid⟩ := hsame i
    unfold lineCode at ih ⊢
    rw [List.map_cons, List.filter_cons, List.filter_cons, hline]
    split
    · rw [List.flatMap_cons, List.flatMap_cons, ih, htype, hid]
    · exact ih

theorem Adapter.expand_visited (a : Adapter) (is : List LineInstrument) (ls : List Int)
    (c : Callback I T) : a.expand (is.map (.visited ls)) c = a.expand is c := by
  cases c with
  | lineNumber line start => rw [expand, expand, lineCode_visited]
  | _ => rfl

theorem visited_visitInsn (profilerId : Int) (opcode : Nat) (v : InstrumentingVisitor I T) :
    Visited v ((visitInsn profilerId opcode).final v)
      ((Adapter.methodInstrumenting profilerId).expand v.lineInstruments (.instr (.insn opcode)))
      [] := by
  have hexpand : ((Adapter.methodInstrumenting profilerId).expand v.lineInstruments
      (.instr (.insn opcode)) : Emitted I T) =
        (if isReturn opcode then callCode "exit" profilerId else []) ++
          [(.original, .instr (.insn opcode))] := rfl
  rw [hexpand]
  unfold visitInsn
  split
  · exact (visited_emitCall "exit" profilerId v).trans (visited_emit _ _ _)
  · exact visited_emit _ _ v

theorem Adapter.visited_visit (a : Adapter) (c : Callback I T) (v : InstrumentingVisitor I T) :
    Visited v ((a.visit c).final v) (a.expand v.lineInstruments c) c.lines := by
  cases c with
  | lineNumber line start => cases a <;> exact visited_visitLineNumber line start v
  | instr i =>
    cases a with
    | lineInstrumenting => cases i <;> exact visited_emit _ _ v
    | methodInstrumenting profilerId =>
      cases i with
      | insn opcode => exact visited_visitInsn profilerId opcode v
      | _ => exact visited_emit _ _ v
  | _ => cases a <;> exact visited_emit _ _ v

theorem Adapter.visited_visitAll (a : Adapter) (body : List (Callback I T))
    (v : InstrumentingVisitor I T) :
    Visited v ((a.visitAll body).final v) (body.flatMap (a.expand v.lineInstruments))
      (body.flatMap Callback.lines) := by
  induction body generalizing v with
  | nil => exact ⟨(List.append_nil _).symm, rfl, (List.map_id' _).symm, rfl⟩
  | cons c body ih =>
    have hc := a.visited_visit c v
    have hrest := ih ((a.visit c).final v)
    have hexpand : (a.expand ((a.visit c).final v).lineInstruments : Callback I T → _) =
        a.expand v.lineInstruments := by
      funext c'
      rw [hc.lineInstruments, a.expand_visited]
    rw [hexpand] at hrest
    exact hc.trans hrest

theorem Adapter.visited_visitCode (a : Adapter) (v : InstrumentingVisitor I T) :
    Visited v ((a.visitCode : VisitM I T Unit).final v) a.prologue [] := by
  cases a with
  | lineInstrumenting => exact ⟨(List.append_nil _).symm, rfl, (List.map_id' _).symm, rfl⟩
  | methodInstrumenting profilerId =>
    exact (visited_emit _ _ v).trans (visited_emitCall "enter" profilerId _)

theorem Adapter.visited_visitMaxs (a : Adapter) (v : InstrumentingVisitor I T) :
    Visited v ((a.visitMaxs : VisitM I T Unit).final v) a.epilogue [] := by
  cases a with
  | lineInstrumenting => exact ⟨(List.append_nil _).symm, rfl, (List.map_id' _).symm, rfl⟩
  | methodInstrumenting profilerId =>
    exact (((visited_emit _ _ v).trans (visited_emit _ _ _)).trans
      (visited_emitCall "exit" profilerId _)).trans (visited_emit _ _ _)

theorem Adapter.visited_visitBody' (a : Adapter) (body : List (Callback I T))
    (v : InstrumentingVisitor I T) :
    Visited v (a.visitMaxs.final ((a.visitAll body).final (a.visitCode.final v)))
      (a.code v.lineInstruments body) (body.flatMap Callback.lines) := by
  have hcode := a.visited_visitCode v
  have hall := a.visited_visitAll body (a.visitCode.final v)
  have hinstruments : (a.visitCode.final v).lineInstruments = v.lineInstruments :=
    hcode.lineInstruments.trans (List.map_id' _)
  rw [hinstruments] at hall
  have h := (hcode.trans hall).trans (a.visited_visitMaxs _)
  rwa [List.nil_append, List.append_nil] at h

/-- The calls for a body mark and count the instruments of its lines, and the writer is given
the body with what the adapter adds to it. -/
theorem Adapter.visited_visitBody (a : Adapter) (body : List (Callback I T))
    (v : InstrumentingVisitor I T) :
    Visited { v with mv := [] } ((a.visitBody body).final v) (a.code v.lineInstruments body)
      (body.flatMap Callback.lines) :=
  a.visited_visitBody' body { v with mv := [] }

theorem Adapter.visitBody_result (a : Adapter) (body : List (Callback I T))
    (v : InstrumentingVisitor I T) :
    (a.visitBody body).result v = a.code v.lineInstruments body :=
  (a.visited_visitBody body v).mv

/-! ## What a class does -/

/-- The adapter of a method. -/
def adapterOf (methodInstruments : MethodInstruments) (m : MethodInfo I T) : Adapter :=
  match AList.lookup m.sig methodInstruments with
  | some profilerId => .methodInstrumenting profilerId
  | none => .lineInstrumenting

/-- What the writer makes of a method. -/
def writtenMethod (methodInstruments : MethodInstruments) (is : List LineInstrument)
    (m : MethodInfo I T) : MethodOut I T :=
  ⟨m.name, m.descriptor, m.code.map ((adapterOf methodInstruments m).code is)⟩

/-- The lines of a method. -/
def MethodInfo.lines (m : MethodInfo I T) : List Int := (m.code.getD []).flatMap Callback.lines

/-- Whether the constructor of an adapter counts a match for the method. -/
def counted (methodInstruments : MethodInstruments) (m : MethodInfo I T) : Bool :=
  (AList.lookup m.sig methodInstruments).isSome

theorem visitMethod_eq (m : MethodInfo I T) (v : InstrumentingVisitor I T) :
    visitMethod m v = (adapterOf v.methodInstruments m, { v with
      matchedCount := v.matchedCount + if counted v.methodInstruments m then 1 else 0 }) := by
  refine Prog.bind_eq.mpr ⟨_, _, rfl, ?_⟩
  unfold adapterOf counted
  cases AList.lookup m.sig v.methodInstruments <;> rfl

/-- What a class does to the visitor: the instruments of its lines are marked, and the matches
are counted, those of lines where their marks are new. -/
structure Accepted (v v' : InstrumentingVisitor I T) (ls : List Int) (n : Nat) : Prop where
  methodInstruments : v'.methodInstruments = v.methodInstruments
  lineInstruments : v'.lineInstruments = v.lineInstruments.map (.visited ls)
  matchedCount : v'.matchedCount + marked v.lineInstruments =
    v.matchedCount + n + marked v'.lineInstruments

theorem acceptMethod_spec (m : MethodInfo I T) (v : InstrumentingVisitor I T) :
    (acceptMethod m).result v = writtenMethod v.methodInstruments v.lineInstruments m ∧
      Accepted v ((acceptMethod m).final v) m.lines
        (if counted v.methodInstruments m then 1 else 0) := by
  have hvisit := visitMethod_eq m v
  have hadapter : (visitMethod m).result v = adapterOf v.methodInstruments m :=
    congrArg Prod.fst hvisit
  have hfinal : (visitMethod m).final v = { v with
      matchedCount := v.matchedCount + if counted v.methodInstruments m then 1 else 0 } :=
    congrArg Prod.snd hvisit
  unfold acceptMethod writtenMethod MethodInfo.lines
  rw [Prog.result_bind, Prog.final_bind, hadapter, hfinal]
  cases m.code with
  | none => exact ⟨rfl, rfl, (List.map_id' _).symm, rfl⟩
  | some body =>
    have hbody := (adapterOf v.methodInstruments m).visited_visitBody body { v with
      matchedCount := v.matchedCount + if counted v.methodInstruments m then 1 else 0 }
    refine ⟨?_, hbody.methodInstruments, hbody.lineInstruments, hbody.matchedCount⟩
    exact congrArg (fun code => MethodOut.mk m.name m.descriptor (some code)) hbody.mv

theorem writtenMethod_visited (methodInstruments : MethodInstruments)
    (is : List LineInstrument) (ls : List Int) (m : MethodInfo I T) :
    writtenMethod methodInstruments (is.map (.visited ls)) m =
      writtenMethod methodInstruments is m := by
  unfold writtenMethod Adapter.code
  have hexpand : ((adapterOf methodInstruments m).expand (is.map (.visited ls)) :
      Callback I T → _) = (adapterOf methodInstruments m).expand is :=
    funext fun c => Adapter.expand_visited _ is ls c
  rw [hexpand]

/-- What the writer is given for a class, and what was counted on the way. -/
theorem acceptClass_spec (cls : List (MethodInfo I T)) (v : InstrumentingVisitor I T) :
    (acceptClass cls).result v = cls.map (writtenMethod v.methodInstruments v.lineInstruments) ∧
      Accepted v ((acceptClass cls).final v) (cls.flatMap MethodInfo.lines)
        (cls.countP (counted v.methodInstruments)) := by
  induction cls generalizing v with
  | nil => exact ⟨rfl, rfl, (List.map_id' _).symm, rfl⟩
  | cons m cls ih =>
    obtain ⟨hm, hstep⟩ := acceptMethod_spec m v
    obtain ⟨hcls, hrest⟩ := ih ((acceptMethod m).final v)
    rw [hstep.methodInstruments] at hcls hrest
    rw [hstep.lineInstruments] at hcls
    refine ⟨?_, hrest.methodInstruments.trans hstep.methodInstruments, ?_, ?_⟩
    · refine (congrArg₂ List.cons hm hcls).trans ?_
      rw [List.map_cons]
      congr 1
      exact List.map_congr_left fun m' _ => writtenMethod_visited _ _ _ m'
    · refine hrest.lineInstruments.trans ?_
      rw [hstep.lineInstruments, List.map_map]
      exact List.map_congr_left fun i _ => i.visited_visited _ _
    · have h := hstep.matchedCount
      have h' := hrest.matchedCount
      have hfinal : (acceptClass (m :: cls)).final v =
          (acceptClass cls).final ((acceptMethod m).final v) := rfl
      rw [List.countP_cons, hfinal]
      omega

end JautoProf.BytecodeTransformer
