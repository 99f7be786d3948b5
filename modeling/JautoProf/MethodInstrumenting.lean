import JautoProf.BytecodeTransformer
import JautoProf.Lib.Code
import Mathlib.Data.List.Find

/-!
# What an instrumented method does

A body is executed on a JVM of which we know what the added instructions do: constants are
pushed, `athrow` throws, and a call of the registry takes its argument and returns. What the
other instructions may do is arbitrary, but that a return returns and nothing else does.

Results:
1. `instrumented_body`: a method that is instrumented calls `enter` once, before anything of
   the original, and `exit` once, and otherwise does what the original does.
-/

namespace JautoProf.BytecodeTransformer

open Code

variable {I T V S : Type}

/-! ## Execution -/

/-- The number that an instruction pushes: `ICONST_M1` to `ICONST_5`, `BIPUSH`, `SIPUSH` and
`LDC` of an int. -/
def Instr.pushed : Instr I → Option Int
  | insn opcode => if 2 ≤ opcode ∧ opcode ≤ 8 then some ((opcode : Int) - 3) else none
  | intInsn opcode operand =>
    if opcode = Opcodes.bipush ∧ -128 ≤ operand ∧ operand ≤ 127 ∨
        opcode = Opcodes.sipush ∧ -32768 ≤ operand ∧ operand ≤ 32767 then some operand
    else none
  | ldcInsn value => some value
  | _ => none

def Instr.IsReturn : Instr I → Prop
  | insn opcode => isReturn opcode = true
  | _ => False

def IsRet : Outcome Label V S → Prop
  | .ret _ _ => True
  | _ => False

/-- The methods of the registry that are called. -/
def registryMethods : List String := ["enter", "exit", "enterLine", "exitLine"]

/-- A JVM: what an instruction may do in a frame, and which exceptions a type catches. -/
structure Semantics (I T V S : Type) where
  exec : Instr I → Frame V S → Outcome Label V S → Prop
  catches : T → V → Bool
  ofInt : Int → V
  IsException : V → Prop
  push_iff : ∀ i n f o, Instr.pushed i = some n →
    (exec i f o ↔ o = .next ⟨f.state, ofInt n :: f.stack⟩)
  /-- The calls of the registry return normally. -/
  registry_iff : ∀ name ∈ registryMethods, ∀ s v stack o,
    exec (registryCall name) ⟨s, v :: stack⟩ o ↔ o = .next ⟨s, stack⟩
  isException : ∀ i f v s, exec i f (.throw v s) → IsException v
  athrow_iff : ∀ v, IsException v → ∀ s stack o,
    exec (.insn Opcodes.athrow) ⟨s, v :: stack⟩ o ↔ o = .throw v s
  /-- A return instruction returns, so it does not throw, and no other instruction returns. -/
  ret_iff : ∀ i f o, exec i f o → (IsRet o ↔ i.IsReturn)
  /-- The labels of an instruction are those of the class. -/
  jump_read : ∀ i f l f', exec i f (.jump l f') → ∃ n, l = .read n

/-- What is observed of a run: an instruction of the original, or a call that was added, with
its argument. -/
inductive Event (I V : Type)
  | original (i : Instr I)
  | call (name : String) (arg : Option V)

def observe : Origin × Instr I → Frame V S → List (Event I V)
  | (.original, i), _ => [.original i]
  | (.inserted, .methodInsn _ _ name _ _), f => [.call name f.stack.head?]
  | (.inserted, _), _ => []

def Semantics.machine (M : Semantics I T V S) :
    Machine Label T (Origin × Instr I) V S (Event I V) where
  exec := fun i => M.exec i.2
  catches := M.catches
  event := observe

/-- The place of a call in the code that is written. -/
def item : Origin × Callback I T → Item Label T (Origin × Instr I)
  | (_, .tryCatchBlock start finish handler type) => .tryCatch start finish handler type
  | (_, .label l) => .label l
  | (_, .lineNumber _ _) => .note
  | (origin, .instr i) => .instr (origin, i)

/-- The code of a body that is not instrumented. -/
def originalCode (body : List (Callback I T)) : List (Item Label T (Origin × Instr I)) :=
  body.map fun c => item (.original, c)

def writtenCode (e : Emitted I T) : List (Item Label T (Origin × Instr I)) := e.map item

/-! ## Bodies -/

def Label.IsRead : Label → Prop
  | read _ => True
  | _ => False

/-- The labels of the callback come from the class: those that the adapter creates are new. -/
def Callback.IsRead : Callback I T → Prop
  | tryCatchBlock start finish handler _ => start.IsRead ∧ finish.IsRead ∧ handler.IsRead
  | label l => l.IsRead
  | _ => True

/-- An instruction follows. -/
def Live (rest : List (Callback I T)) : Prop := ∃ i, .instr i ∈ rest

/-- What the verifier checks of a body: its execution does not fall off the end. -/
structure Verified (M : Semantics I T V S) (body : List (Callback I T)) : Prop where
  start : Live body
  falls : ∀ i rest f f', (.instr i :: rest) <:+ body → M.exec i f (.next f') → Live rest
  jumps : ∀ i f l f' rest, .instr i ∈ body → M.exec i f (.jump l f') → rest <:+ body →
    target l (originalCode body) = some (originalCode rest) → Live rest
  handlers : ∀ e ∈ table (originalCode body), ∀ rest, rest <:+ body →
    target e.handler (originalCode body) = some (originalCode rest) → Live rest

/-! ## What is compared -/

/-- The instructions of the original in a trace. -/
def originals : List (Event I V) → List (Instr I)
  | [] => []
  | .original i :: tr => i :: originals tr
  | .call _ _ :: tr => originals tr

/-- The calls of `enter` and `exit` in a trace. -/
def profilerCalls : List (Event I V) → List (String × Option V)
  | [] => []
  | .original _ :: tr => profilerCalls tr
  | .call name arg :: tr =>
    if name = "enter" ∨ name = "exit" then (name, arg) :: profilerCalls tr else profilerCalls tr

/-- The trace `tr'` starts with the one call of `enter`, has one call of `exit`, and the
instructions of the original as `tr` has them. -/
structure Wrapped (M : Semantics I T V S) (profilerId : Int) (tr tr' : List (Event I V)) :
    Prop where
  first : tr'.head? = some (.call "enter" (some (M.ofInt profilerId)))
  calls : profilerCalls tr' =
    [("enter", some (M.ofInt profilerId)), ("exit", some (M.ofInt profilerId))]
  originals : originals tr' = originals tr

/-! ## The added code -/

theorem pushed_pushInt (n : Int) : (pushInt n : Instr I).pushed = some n := by
  unfold pushInt
  split
  · next h =>
    have hcode : ((Opcodes.iconst0 : Int) + n).toNat = (n + 3).toNat := by
      rw [Int.add_comm]
      rfl
    rw [hcode, Instr.pushed, if_pos (by omega)]
    congr 1
    omega
  · split
    · next h => exact if_pos (.inl ⟨rfl, h⟩)
    · split
      · next h => exact if_pos (.inr ⟨rfl, h⟩)
      · rfl

theorem observe_pushInt (n : Int) (f : Frame V S) :
    observe (.inserted, (pushInt n : Instr I)) f = [] := by
  unfold pushInt
  split
  · rfl
  · split
    · rfl
    · split <;> rfl

section

variable {M : Semantics I T V S} {code rest : List (Item Label T (Origin × Instr I))}
  {f : Frame V S} {tr : List (Event I V)} {fin : Final V S} {n : Nat}

/-- A run through a call of the registry. -/
theorem exec_callCode {name : String} (hname : name ∈ registryMethods) (profilerId : Int) :
    Exec M.machine code n (writtenCode (callCode name profilerId) ++ rest) f tr fin ↔
      ∃ m tr', n = m + 2 ∧ tr = .call name (some (M.ofInt profilerId)) :: tr' ∧
        Exec M.machine code m rest f tr' fin := by
  have hpush : ∀ o, M.machine.exec (.inserted, pushInt profilerId) f o ↔
      o = .next ⟨f.state, M.ofInt profilerId :: f.stack⟩ := fun o =>
    M.push_iff _ _ f o (pushed_pushInt profilerId)
  have hcall : ∀ o, M.machine.exec (.inserted, registryCall name)
      ⟨f.state, M.ofInt profilerId :: f.stack⟩ o ↔ o = .next f := fun o =>
    M.registry_iff name hname f.state (M.ofInt profilerId) f.stack o
  have hnone : M.machine.event (.inserted, pushInt profilerId) f = [] := observe_pushInt _ f
  refine (Exec.next_iff hpush).trans ?_
  rw [hnone]
  constructor
  · rintro ⟨m, tr', rfl, rfl, hrest⟩
    obtain ⟨m', tr'', rfl, rfl, hrest'⟩ := (Exec.next_iff hcall).mp hrest
    exact ⟨m', tr'', rfl, rfl, hrest'⟩
  · rintro ⟨m, tr', rfl, rfl, hrest⟩
    exact ⟨m + 1, _, rfl, rfl, (Exec.next_iff hcall).mpr ⟨m, tr', rfl, rfl, hrest⟩⟩

/-- What is observed of the calls for a line. -/
def lineEvents (M : Semantics I T V S) (is : List LineInstrument) : List (Event I V) :=
  is.map fun i => .call i.type.call (some (M.ofInt i.profilerId))

theorem call_mem (type : InstrumentType) : type.call ∈ registryMethods := by
  cases type <;> decide

/-- A run through the calls for a line. -/
theorem exec_calls (is : List LineInstrument) :
    (∀ tr', (∃ m, Exec M.machine code m rest f tr' fin) → ∃ n, Exec M.machine code n
      (writtenCode (is.flatMap fun i => callCode i.type.call i.profilerId) ++ rest) f
        (lineEvents M is ++ tr') fin) ∧
    ∀ n tr, Exec M.machine code n
      (writtenCode (is.flatMap fun i => callCode i.type.call i.profilerId) ++ rest) f tr fin →
        ∃ m tr', m ≤ n ∧ tr = lineEvents M is ++ tr' ∧ Exec M.machine code m rest f tr' fin := by
  induction is with
  | nil => exact ⟨fun tr' h => h, fun n tr h => ⟨n, tr, Nat.le_refl n, rfl, h⟩⟩
  | cons i is ih =>
    have hsplit : writtenCode ((i :: is).flatMap fun i => callCode i.type.call i.profilerId :
        Emitted I T) ++ rest = writtenCode (callCode i.type.call i.profilerId) ++
          (writtenCode (is.flatMap fun i => callCode i.type.call i.profilerId) ++ rest) := by
      rw [List.flatMap_cons, writtenCode, List.map_append, List.append_assoc]
      rfl
    rw [hsplit]
    constructor
    · intro tr' h
      obtain ⟨m, h⟩ := ih.1 tr' h
      exact ⟨m + 2, (exec_callCode (call_mem i.type) i.profilerId).mpr ⟨m, _, rfl, rfl, h⟩⟩
    · intro n tr h
      obtain ⟨m, tr', rfl, rfl, hcalls⟩ := (exec_callCode (call_mem i.type) i.profilerId).mp h
      obtain ⟨m', tr'', hle, rfl, hrest⟩ := ih.2 m tr' hcalls
      exact ⟨m', tr'', by omega, rfl, hrest⟩

/-- The code of the handler, behind its label. -/
def handlerCode (profilerId : Int) : List (Item Label T (Origin × Instr I)) :=
  writtenCode (callCode "exit" profilerId) ++ [.instr (.inserted, .insn Opcodes.athrow)]

/-- A run of the handler calls `exit` and throws on. -/
theorem exec_handlerCode {v : V} {s : S} (hv : M.IsException v) (profilerId : Int) :
    Exec M.machine code n (handlerCode profilerId) ⟨s, [v]⟩ tr fin ↔
      (∃ m, n = m + 3) ∧ tr = [.call "exit" (some (M.ofInt profilerId))] ∧ fin = .threw v s := by
  have hthrow : ∀ o, M.machine.exec (.inserted, .insn Opcodes.athrow) ⟨s, [v]⟩ o ↔
      o = .throw v s := fun o => M.athrow_iff v hv s [] o
  have hnone : handler M.machine code [.instr (.inserted, .insn Opcodes.athrow)] v = none := by
    unfold handler
    rw [List.find?_eq_none.mpr]
    · rfl
    · intro e _
      simp [Entry.covers, labels]
  have hexit : "exit" ∈ registryMethods := by decide
  refine (exec_callCode hexit profilerId).trans ?_
  constructor
  · rintro ⟨m, tr', rfl, rfl, h⟩
    obtain ⟨⟨m', rfl⟩, rfl, rfl⟩ := (Exec.throw_iff hthrow hnone).mp h
    exact ⟨⟨m', rfl⟩, rfl, rfl⟩
  · rintro ⟨⟨m, rfl⟩, rfl, rfl⟩
    exact ⟨m + 1, _, rfl, rfl, (Exec.throw_iff hthrow hnone).mpr ⟨⟨m, rfl⟩, rfl, rfl⟩⟩

end

/-! ## The labels and the table of the instrumented code -/

/-- What is written for a callback. -/
def expandCode (is : List LineInstrument) (profilerId : Int) (c : Callback I T) :
    List (Item Label T (Origin × Instr I)) :=
  writtenCode ((Adapter.methodInstrumenting profilerId).expand is c)

/-- What is written for the rest of a body, and after it. -/
def tailCode (is : List LineInstrument) (profilerId : Int) (rest : List (Callback I T)) :
    List (Item Label T (Origin × Instr I)) :=
  rest.flatMap (expandCode is profilerId) ++
    writtenCode (Adapter.methodInstrumenting profilerId).epilogue

/-- What is written for a body. -/
def instrumentedCode (is : List LineInstrument) (profilerId : Int) (body : List (Callback I T)) :
    List (Item Label T (Origin × Instr I)) :=
  writtenCode ((Adapter.methodInstrumenting profilerId).code is body)

variable (is : List LineInstrument) (profilerId : Int)

theorem instrumentedCode_eq (body : List (Callback I T)) :
    instrumentedCode is profilerId body =
      writtenCode (Adapter.methodInstrumenting profilerId).prologue ++
        tailCode is profilerId body := by
  unfold instrumentedCode tailCode Adapter.code writtenCode
  rw [List.map_append, List.map_append, List.map_flatMap, List.append_assoc]
  rfl

theorem labels_calls (is : List LineInstrument) :
    labels (writtenCode (is.flatMap fun i => callCode i.type.call i.profilerId : Emitted I T)) = [] ∧
    table (writtenCode (is.flatMap fun i => callCode i.type.call i.profilerId : Emitted I T)) =
      [] := by
  induction is with
  | nil => exact ⟨rfl, rfl⟩
  | cons i is ih =>
    rw [List.flatMap_cons, writtenCode, List.map_append]
    exact ih

theorem labels_exitCode (a : Adapter) (i : Instr I) :
    labels (writtenCode (a.exitCode i : Emitted I T)) = [] ∧
      table (writtenCode (a.exitCode i : Emitted I T)) = [] := by
  unfold Adapter.exitCode
  split
  · split <;> exact ⟨rfl, rfl⟩
  · exact ⟨rfl, rfl⟩

/-- What is added has no label and is not in the table. -/
theorem labels_expandCode (c : Callback I T) :
    labels (expandCode is profilerId c) = labels (originalCode [c]) ∧
      table (expandCode is profilerId c) = table (originalCode [c]) := by
  cases c with
  | lineNumber line start => exact labels_calls _
  | instr i =>
    have hexit := labels_exitCode (T := T) (.methodInstrumenting profilerId) i
    unfold expandCode Adapter.expand writtenCode at *
    rw [List.map_append, labels_append, table_append, hexit.1, hexit.2]
    exact ⟨rfl, rfl⟩
  | _ => exact ⟨rfl, rfl⟩

theorem tailCode_cons (c : Callback I T) (rest : List (Callback I T)) :
    tailCode is profilerId (c :: rest) =
      expandCode is profilerId c ++ tailCode is profilerId rest := by
  unfold tailCode
  rw [List.flatMap_cons, List.append_assoc]

theorem labels_tailCode (rest : List (Callback I T)) :
    labels (tailCode is profilerId rest) = labels (originalCode rest) ++ [.endFinally] ∧
      table (tailCode is profilerId rest) =
        table (originalCode rest) ++ [⟨.startFinally, .endFinally, .endFinally, none⟩] := by
  induction rest with
  | nil => exact ⟨rfl, rfl⟩
  | cons c rest ih =>
    have hcode : originalCode (c :: rest) = originalCode [c] ++ originalCode rest := rfl
    obtain ⟨hlabels, htable⟩ := labels_expandCode is profilerId c
    rw [tailCode_cons, hcode, labels_append, labels_append, table_append, table_append, ih.1, ih.2,
      hlabels, htable, List.append_assoc, List.append_assoc]
    exact ⟨rfl, rfl⟩

theorem labels_instrumentedCode (body : List (Callback I T)) :
    labels (instrumentedCode is profilerId body) =
        .startFinally :: (labels (originalCode body) ++ [.endFinally]) ∧
      table (instrumentedCode is profilerId body) =
        table (originalCode body) ++ [⟨.startFinally, .endFinally, .endFinally, none⟩] := by
  obtain ⟨hlabels, htable⟩ := labels_tailCode is profilerId body
  rw [instrumentedCode_eq, labels_append, table_append, hlabels, htable]
  exact ⟨rfl, rfl⟩

variable {body : List (Callback I T)}

theorem isRead_of_mem_labels (hread : ∀ c ∈ body, c.IsRead) {l : Label}
    (h : l ∈ labels (originalCode body)) : l.IsRead := by
  induction body with
  | nil => exact absurd h List.not_mem_nil
  | cons c body ih =>
    rw [List.forall_mem_cons] at hread
    cases c with
    | label l' =>
      rcases List.mem_cons.mp h with rfl | h
      · exact hread.1
      · exact ih hread.2 h
    | _ => exact ih hread.2 h

theorem isRead_of_mem_table (hread : ∀ c ∈ body, c.IsRead) {e : Entry Label T}
    (h : e ∈ table (originalCode body)) :
    e.start.IsRead ∧ e.finish.IsRead ∧ e.handler.IsRead := by
  induction body with
  | nil => exact absurd h List.not_mem_nil
  | cons c body ih =>
    rw [List.forall_mem_cons] at hread
    cases c with
    | tryCatchBlock start finish handler type =>
      rcases List.mem_cons.mp h with rfl | h
      · exact hread.1
      · exact ih hread.2 h
    | _ => exact ih hread.2 h

/-- A label of the class leads to the same place. -/
theorem target_read {l : Label} (hl : l.IsRead) (body : List (Callback I T)) :
    (target l (originalCode body) = none ∧
        target l (instrumentedCode is profilerId body) = none) ∨
      ∃ rest, rest <:+ body ∧ target l (originalCode body) = some (originalCode rest) ∧
        target l (instrumentedCode is profilerId body) = some (tailCode is profilerId rest) := by
  have hpre : l ∉ labels (writtenCode (Adapter.methodInstrumenting profilerId).prologue :
      List (Item Label T (Origin × Instr I))) := by
    intro h
    cases List.mem_singleton.mp h
    exact hl
  have hpost : l ∉ labels (writtenCode (Adapter.methodInstrumenting profilerId).epilogue :
      List (Item Label T (Origin × Instr I))) := by
    intro h
    cases List.mem_singleton.mp h
    exact hl
  rw [instrumentedCode_eq, target_append hpre]
  refine target_expand (fun c => ?_) hpost body
  have hlabels := (labels_expandCode is profilerId c).1
  cases c with
  | label l' => exact .inl ⟨l', rfl, rfl⟩
  | _ => exact .inr ⟨rfl, hlabels⟩

theorem target_read_some {l : Label} (hl : l.IsRead)
    {rest : List (Item Label T (Origin × Instr I))}
    (h : target l (originalCode body) = some rest) :
    ∃ rest', rest' <:+ body ∧ rest = originalCode rest' ∧
      target l (instrumentedCode is profilerId body) = some (tailCode is profilerId rest') := by
  rcases target_read is profilerId hl body with ⟨hnone, -⟩ | ⟨rest', hrest', hsome, htarget⟩
  · rw [hnone] at h
    cases h
  · exact ⟨rest', hrest', Option.some.inj (h.symm.trans hsome), htarget⟩

theorem target_some_read {l : Label} (hl : l.IsRead)
    {rest : List (Item Label T (Origin × Instr I))}
    (h : target l (instrumentedCode is profilerId body) = some rest) :
    ∃ rest', rest' <:+ body ∧ rest = tailCode is profilerId rest' ∧
      target l (originalCode body) = some (originalCode rest') := by
  rcases target_read is profilerId hl body with ⟨-, hnone⟩ | ⟨rest', hrest', htarget, hsome⟩
  · rw [hnone] at h
    cases h
  · exact ⟨rest', hrest', Option.some.inj (h.symm.trans hsome), htarget⟩

/-- The label `endFinally` leads to the handler. -/
theorem target_endFinally (hread : ∀ c ∈ body, c.IsRead) :
    target .endFinally (instrumentedCode is profilerId body) = some (handlerCode profilerId) := by
  have hpre : Label.endFinally ∉ labels
      (writtenCode (Adapter.methodInstrumenting profilerId).prologue :
        List (Item Label T (Origin × Instr I))) := fun h => by
    cases List.mem_singleton.mp h
  have hbody : Label.endFinally ∉ labels (body.flatMap (expandCode is profilerId)) := by
    have hlabels := (labels_tailCode is profilerId body).1
    unfold tailCode at hlabels
    rw [labels_append] at hlabels
    rw [List.append_cancel_right hlabels]
    exact fun h => isRead_of_mem_labels hread h
  rw [instrumentedCode_eq, target_append hpre, tailCode, target_append hbody]
  rfl

/-- Where the original does not handle an exception, the added handler does. -/
theorem handler_instr (M : Semantics I T V S) (hread : ∀ c ∈ body, c.IsRead)
    {rest : List (Callback I T)} (hrest : rest <:+ body) (i : Instr I) (v : V) :
    handler M.machine (instrumentedCode is profilerId body)
        (.instr (.original, i) :: tailCode is profilerId rest) v =
      some ((handler M.machine (originalCode body)
        (.instr (.original, i) :: originalCode rest) v).getD .endFinally) := by
  obtain ⟨hcode, htable⟩ := labels_instrumentedCode is profilerId body
  have htail := (labels_tailCode is profilerId rest).1
  have hreadRest : ∀ c ∈ rest, c.IsRead := fun c hc => hread c (hrest.mem hc)
  have hmem : ∀ {l : Label}, l.IsRead →
      (l ∈ labels (instrumentedCode is profilerId body) ↔ l ∈ labels (originalCode body)) ∧
      (l ∈ labels (tailCode is profilerId rest) ↔ l ∈ labels (originalCode rest)) := by
    intro l hl
    cases l with
    | read n => simp [hcode, htail]
    | startFinally => exact hl.elim
    | endFinally => exact hl.elim
  have hsame : ∀ e ∈ table (originalCode body),
      (e.covers (instrumentedCode is profilerId body)
        (.instr (.original, i) :: tailCode is profilerId rest) && e.catches M.machine v) =
      (e.covers (originalCode body) (.instr (.original, i) :: originalCode rest) &&
        e.catches M.machine v) := by
    intro e he
    obtain ⟨hstart, hfinish, -⟩ := isRead_of_mem_table hread he
    congr 1
    rw [Bool.eq_iff_iff, Entry.covers_iff, Entry.covers_iff]
    exact and_congr (hmem hstart).1
      (and_congr (not_congr (hmem hstart).2) (hmem hfinish).2)
  -- the added entry covers the whole body and catches everything, and it is the last one
  have hall : ((⟨.startFinally, .endFinally, .endFinally, none⟩ : Entry Label T).covers
      (instrumentedCode is profilerId body) (.instr (.original, i) :: tailCode is profilerId rest) &&
        (⟨.startFinally, .endFinally, .endFinally, none⟩ : Entry Label T).catches M.machine v) =
      true := by
    have hnot : Label.startFinally ∉ labels (originalCode rest) := fun h =>
      isRead_of_mem_labels hreadRest h
    rw [Bool.and_eq_true, Entry.covers_iff, hcode]
    refine ⟨⟨List.mem_cons_self, ?_, ?_⟩, rfl⟩
    · simp [labels, htail, hnot]
    · simp [labels, htail]
  unfold handler
  rw [htable, List.find?_append, List.find?_congr hsame, List.find?_singleton, hall]
  cases (table (originalCode body)).find? _ <;> rfl

theorem handler_some {M : Semantics I T V S} (hread : ∀ c ∈ body, c.IsRead)
    {rest : List (Callback I T)} (hrest : rest <:+ body) {i : Instr I} {v : V} {l : Label}
    (h : handler M.machine (originalCode body) (.instr (.original, i) :: originalCode rest) v =
      some l) :
    handler M.machine (instrumentedCode is profilerId body)
      (.instr (.original, i) :: tailCode is profilerId rest) v = some l := by
  rw [handler_instr is profilerId M hread hrest, h]
  rfl

theorem handler_none {M : Semantics I T V S} (hread : ∀ c ∈ body, c.IsRead)
    {rest : List (Callback I T)} (hrest : rest <:+ body) {i : Instr I} {v : V}
    (h : handler M.machine (originalCode body) (.instr (.original, i) :: originalCode rest) v =
      none) :
    handler M.machine (instrumentedCode is profilerId body)
      (.instr (.original, i) :: tailCode is profilerId rest) v = some .endFinally := by
  rw [handler_instr is profilerId M hread hrest, h]
  rfl

/-! ## The two runs -/

/-- From some position on: the instructions of the original are those of `tr`, and `exit` is
called once. -/
structure Leaves (M : Semantics I T V S) (profilerId : Int) (tr tr' : List (Event I V)) :
    Prop where
  originals : originals tr' = originals tr
  calls : profilerCalls tr' = [("exit", some (M.ofInt profilerId))]

namespace Leaves

variable {M : Semantics I T V S} {tr tr' : List (Event I V)}

theorem original (i : Instr I) (h : Leaves M profilerId tr tr') :
    Leaves M profilerId (.original i :: tr) (.original i :: tr') :=
  ⟨congrArg (List.cons i) h.originals, h.calls⟩

/-- A return instruction, with the call before it. -/
theorem returns (i : Instr I) :
    Leaves M profilerId [.original i] [.call "exit" (some (M.ofInt profilerId)), .original i] :=
  ⟨rfl, rfl⟩

/-- An instruction that throws, with the call of the added handler. -/
theorem escapes (i : Instr I) :
    Leaves M profilerId [.original i] [.original i, .call "exit" (some (M.ofInt profilerId))] :=
  ⟨rfl, rfl⟩

theorem lineEvents_append (is : List LineInstrument) (tr : List (Event I V)) :
    BytecodeTransformer.originals (lineEvents M is ++ tr) =
        BytecodeTransformer.originals tr ∧
      profilerCalls (lineEvents M is ++ tr) = profilerCalls tr := by
  induction is with
  | nil => exact ⟨rfl, rfl⟩
  | cons i is ih =>
    refine ⟨ih.1, Eq.trans ?_ ih.2⟩
    cases htype : i.type <;> simp [lineEvents, profilerCalls, htype, InstrumentType.call]

/-- The calls for a line are neither. -/
theorem line_iff (is : List LineInstrument) :
    Leaves M profilerId tr (lineEvents M is ++ tr') ↔ Leaves M profilerId tr tr' := by
  obtain ⟨horiginals, hcalls⟩ := lineEvents_append (M := M) is tr'
  constructor
  · rintro ⟨h₁, h₂⟩
    exact ⟨horiginals.symm.trans h₁, hcalls.symm.trans h₂⟩
  · rintro ⟨h₁, h₂⟩
    exact ⟨horiginals.trans h₁, hcalls.trans h₂⟩

end Leaves

theorem exitCode_of_return {i : Instr I} (h : i.IsReturn) :
    ((Adapter.methodInstrumenting profilerId).exitCode i : Emitted I T) =
      callCode "exit" profilerId := by
  cases i with
  | insn opcode => exact if_pos h
  | _ => exact h.elim

theorem exitCode_of_not_return {i : Instr I} (h : ¬ i.IsReturn) :
    ((Adapter.methodInstrumenting profilerId).exitCode i : Emitted I T) = [] := by
  cases i with
  | insn opcode => exact if_neg h
  | _ => rfl

/-- What is written for an instruction, with what follows. -/
theorem tailCode_instr (i : Instr I) (rest : List (Callback I T)) :
    tailCode is profilerId (.instr i :: rest) =
      writtenCode ((Adapter.methodInstrumenting profilerId).exitCode i) ++
        (.instr (.original, i) :: tailCode is profilerId rest) := by
  rw [tailCode_cons, expandCode, Adapter.expand, writtenCode, List.map_append,
    List.append_assoc]
  rfl

section

variable {M : Semantics I T V S} {rest : List (Callback I T)} {f : Frame V S}
  {tr : List (Event I V)} {fin : Final V S} {n : Nat}

/-- A run of the body is followed by the instrumented body. -/
theorem instrumented_follows (hread : ∀ c ∈ body, c.IsRead) (hrest : rest <:+ body)
    (h : Exec M.machine (originalCode body) n (originalCode rest) f tr fin) :
    ∃ n' tr', Exec M.machine (instrumentedCode is profilerId body) n'
      (tailCode is profilerId rest) f tr' fin ∧ Leaves M profilerId tr tr' := by
  induction n generalizing rest f tr with
  | zero => cases h
  | succ n ih =>
    cases rest with
    | nil => cases h
    | cons c rest =>
      have hnext : rest <:+ body := (List.suffix_cons c rest).trans hrest
      cases c with
      | lineNumber line start =>
        obtain ⟨m, hm, h⟩ := (Exec.skip_iff id).mp h
        cases hm
        obtain ⟨n', tr', hrun, hleaves⟩ := ih hnext h
        -- the calls of the line run first
        obtain ⟨n'', hrun'⟩ := (exec_calls (is.filter fun i => i.line = line)).1 tr' ⟨n', hrun⟩
        rw [tailCode_cons]
        exact ⟨n'' + 1, _, (Exec.skip_iff id).mpr ⟨n'', rfl, hrun'⟩,
          (Leaves.line_iff profilerId _).mpr hleaves⟩
      | instr i =>
        rw [tailCode_instr]
        cases h with
        | skip hitem _ => exact (hitem trivial).elim
        | next hexec h =>
          rw [exitCode_of_not_return profilerId fun hret => (M.ret_iff i f _ hexec).mpr hret]
          obtain ⟨n', tr', hrun, hleaves⟩ := ih hnext h
          exact ⟨n' + 1, _, .next hexec hrun, hleaves.original profilerId i⟩
        | jump hexec htarget h =>
          rw [exitCode_of_not_return profilerId fun hret => (M.ret_iff i f _ hexec).mpr hret]
          obtain ⟨k, rfl⟩ := M.jump_read i f _ _ hexec
          obtain ⟨rest', hrest', rfl, htarget'⟩ :=
            target_read_some is profilerId (l := .read k) trivial htarget
          obtain ⟨n', tr', hrun, hleaves⟩ := ih hrest' h
          exact ⟨n' + 1, _, .jump hexec htarget' hrun, hleaves.original profilerId i⟩
        | caught hexec hhandler htarget h =>
          rw [exitCode_of_not_return profilerId fun hret => (M.ret_iff i f _ hexec).mpr hret]
          obtain ⟨e, he, rfl⟩ := handler_mem hhandler
          obtain ⟨rest', hrest', rfl, htarget'⟩ :=
            target_read_some is profilerId (isRead_of_mem_table hread he).2.2 htarget
          obtain ⟨n', tr', hrun, hleaves⟩ := ih hrest' h
          exact ⟨n' + 1, _, .caught hexec (handler_some is profilerId hread hnext hhandler) htarget'
            hrun, hleaves.original profilerId i⟩
        -- what escapes the original is caught by the added handler, which calls and throws it again
        | escapes hexec hhandler =>
          rw [exitCode_of_not_return profilerId fun hret => (M.ret_iff i f _ hexec).mpr hret]
          exact ⟨_, _, .caught hexec (handler_none is profilerId hread hnext hhandler)
            (target_endFinally is profilerId hread)
            ((exec_handlerCode (M.isException i f _ _ hexec) profilerId).mpr
              ⟨⟨0, rfl⟩, rfl, rfl⟩), .escapes profilerId i⟩
        | returns hexec =>
          rw [exitCode_of_return profilerId ((M.ret_iff i f _ hexec).mp trivial)]
          exact ⟨_, _, (exec_callCode (by decide) profilerId).mpr
            ⟨_, _, rfl, rfl, .returns (n := 0) hexec⟩, .returns profilerId i⟩
      | _ =>
        obtain ⟨m, hm, h⟩ := (Exec.skip_iff id).mp h
        cases hm
        obtain ⟨n', tr', hrun, hleaves⟩ := ih hnext h
        exact ⟨n' + 1, tr', (Exec.skip_iff id).mpr ⟨n', rfl, hrun⟩, hleaves⟩

theorem Live.of_cons {c : Callback I T} (h : Live (c :: rest))
    (hc : ∀ i : Instr I, c ≠ .instr i) : Live rest := by
  obtain ⟨i, hi⟩ := h
  rcases List.mem_cons.mp hi with heq | hi
  · exact (hc i heq.symm).elim
  · exact ⟨i, hi⟩

/-- A run that is at a return instruction. -/
theorem exec_return {code rest : List (Item Label T (Origin × Instr I))} {i : Instr I}
    (hret : i.IsReturn)
    (h : Exec M.machine code n (.instr (.original, i) :: rest) f tr fin) :
    ∃ v s, tr = [.original i] ∧ fin = .returned v s ∧ M.exec i f (.ret v s) := by
  cases h with
  | skip hitem _ => exact (hitem trivial).elim
  | next hexec _ => exact ((M.ret_iff i f _ hexec).mpr hret).elim
  | jump hexec _ _ => exact ((M.ret_iff i f _ hexec).mpr hret).elim
  | caught hexec _ _ _ => exact ((M.ret_iff i f _ hexec).mpr hret).elim
  | escapes hexec _ => exact ((M.ret_iff i f _ hexec).mpr hret).elim
  | returns hexec => exact ⟨_, _, rfl, rfl, hexec⟩

/-- And the instrumented body has no other runs. -/
theorem original_follows (hread : ∀ c ∈ body, c.IsRead) (hverified : Verified M body)
    (hrest : rest <:+ body) (hlive : Live rest) {tr' : List (Event I V)}
    (h : Exec M.machine (instrumentedCode is profilerId body) n (tailCode is profilerId rest) f
      tr' fin) :
    ∃ n' tr, Exec M.machine (originalCode body) n' (originalCode rest) f tr fin ∧
      Leaves M profilerId tr tr' := by
  induction n using Nat.strong_induction_on generalizing rest f tr' with
  | _ n ih =>
    cases rest with
    | nil => exact absurd hlive (by rintro ⟨i, hi⟩; cases hi)
    | cons c rest =>
      have hnext : rest <:+ body := (List.suffix_cons c rest).trans hrest
      cases c with
      | lineNumber line start =>
        rw [tailCode_cons] at h
        obtain ⟨m, rfl, hcalls⟩ := (Exec.skip_iff id).mp h
        -- the calls take steps of their own, so the induction is on shorter runs
        obtain ⟨m', tr'', hle, rfl, hrun'⟩ :=
          (exec_calls (is.filter fun i => i.line = line)).2 m tr' hcalls
        obtain ⟨n', tr, hrun, hleaves⟩ :=
          ih m' (Nat.lt_succ_of_le hle) hnext (hlive.of_cons fun i => by rintro ⟨⟩) hrun'
        exact ⟨n' + 1, tr, (Exec.skip_iff id).mpr ⟨n', rfl, hrun⟩,
          (Leaves.line_iff profilerId _).mpr hleaves⟩
      | instr i =>
        rw [tailCode_instr] at h
        by_cases hret : i.IsReturn
        · rw [exitCode_of_return profilerId hret] at h
          obtain ⟨m, tr'', rfl, rfl, hrun'⟩ := (exec_callCode (by decide) profilerId).mp h
          obtain ⟨v, s, rfl, rfl, hexec⟩ := exec_return hret hrun'
          exact ⟨1, _, .returns hexec, .returns profilerId i⟩
        · rw [exitCode_of_not_return profilerId hret] at h
          cases h with
          | skip hitem _ => exact (hitem trivial).elim
          | @next m _ _ _ _ _ _ hexec hrun' =>
            obtain ⟨n', tr, hrun, hleaves⟩ := ih m (Nat.lt_succ_self m) hnext
              (hverified.falls i rest f _ hrest hexec) hrun'
            exact ⟨n' + 1, _, .next hexec hrun, hleaves.original profilerId i⟩
          | @jump m _ _ _ _ _ _ _ _ hexec htarget hrun' =>
            obtain ⟨k, rfl⟩ := M.jump_read i f _ _ hexec
            obtain ⟨rest', hrest', rfl, htarget'⟩ :=
              target_some_read is profilerId (l := .read k) trivial htarget
            obtain ⟨n', tr, hrun, hleaves⟩ := ih m (Nat.lt_succ_self m) hrest'
              (hverified.jumps i f _ _ rest' (hrest.mem List.mem_cons_self) hexec hrest' htarget')
              hrun'
            exact ⟨n' + 1, _, .jump hexec htarget' hrun, hleaves.original profilerId i⟩
          | @caught m _ _ _ _ v _ _ _ _ hexec hhandler htarget hrun' =>
            cases horiginal : handler M.machine (originalCode body)
              (.instr (.original, i) :: originalCode rest) v with
            | some l' =>
              rw [handler_some is profilerId hread hnext horiginal] at hhandler
              cases hhandler
              obtain ⟨e, he, rfl⟩ := handler_mem horiginal
              obtain ⟨rest', hrest', rfl, htarget'⟩ :=
                target_some_read is profilerId (isRead_of_mem_table hread he).2.2 htarget
              obtain ⟨n', tr, hrun, hleaves⟩ := ih m (Nat.lt_succ_self m) hrest'
                (hverified.handlers e he rest' hrest' htarget') hrun'
              exact ⟨n' + 1, _, .caught hexec horiginal htarget' hrun,
                hleaves.original profilerId i⟩
            | none =>
              rw [handler_none is profilerId hread hnext horiginal] at hhandler
              cases hhandler
              cases htarget.symm.trans (target_endFinally is profilerId hread)
              obtain ⟨-, rfl, rfl⟩ :=
                (exec_handlerCode (M.isException i f v _ hexec) profilerId).mp hrun'
              exact ⟨1, _, .escapes hexec horiginal, .escapes profilerId i⟩
          | escapes hexec hhandler =>
            cases horiginal : handler M.machine (originalCode body)
              (.instr (.original, i) :: originalCode rest) _ with
            | some l' =>
              rw [handler_some is profilerId hread hnext horiginal] at hhandler
              cases hhandler
            | none =>
              rw [handler_none is profilerId hread hnext horiginal] at hhandler
              cases hhandler
          | returns hexec => exact (hret ((M.ret_iff i f _ hexec).mp trivial)).elim
      | _ =>
        obtain ⟨m, rfl, hrun'⟩ := (Exec.skip_iff id).mp h
        obtain ⟨n', tr, hrun, hleaves⟩ :=
          ih m (Nat.lt_succ_self m) hnext (hlive.of_cons fun i => by rintro ⟨⟩) hrun'
        exact ⟨n' + 1, tr, (Exec.skip_iff id).mpr ⟨n', rfl, hrun⟩, hleaves⟩

end

/-! ## The method -/

theorem exec_prologue {M : Semantics I T V S} {code : List (Item Label T (Origin × Instr I))}
    {f : Frame V S} {tr : List (Event I V)} {fin : Final V S} {n : Nat} :
    Exec M.machine code n (instrumentedCode is profilerId body) f tr fin ↔
      ∃ m tr', n = m + 3 ∧ tr = .call "enter" (some (M.ofInt profilerId)) :: tr' ∧
        Exec M.machine code m (tailCode is profilerId body) f tr' fin := by
  have henter : "enter" ∈ registryMethods := by decide
  rw [instrumentedCode_eq]
  refine (Exec.skip_iff id).trans ?_
  constructor
  · rintro ⟨m, rfl, h⟩
    obtain ⟨m', tr', rfl, rfl, hrun⟩ := (exec_callCode henter profilerId).mp h
    exact ⟨m', tr', rfl, rfl, hrun⟩
  · rintro ⟨m, tr', rfl, rfl, hrun⟩
    exact ⟨m + 2, rfl, (exec_callCode henter profilerId).mpr ⟨m, tr', rfl, rfl, hrun⟩⟩

/-- **The instrumented method.** For every run of a body that leaves the method, the body that
the adapter writes has a run that calls `enter` first, calls `exit` once before it leaves, and
otherwise does what the original does; and of a body that the verifier accepts all runs are
such. -/
theorem instrumented_body (M : Semantics I T V S) (v : InstrumentingVisitor I T)
    (hread : ∀ c ∈ body, c.IsRead) (f : Frame V S) (fin : Final V S) :
    (∀ tr, Runs M.machine (originalCode body) f tr fin → ∃ tr',
      Runs M.machine
        (writtenCode (((Adapter.methodInstrumenting profilerId).visitBody body).result v))
        f tr' fin ∧ Wrapped M profilerId tr tr') ∧
    (Verified M body → ∀ tr',
      Runs M.machine
        (writtenCode (((Adapter.methodInstrumenting profilerId).visitBody body).result v))
        f tr' fin →
      ∃ tr, Runs M.machine (originalCode body) f tr fin ∧ Wrapped M profilerId tr tr') := by
  rw [Adapter.visitBody_result]
  constructor
  · rintro tr ⟨n, h⟩
    obtain ⟨n', tr', hrun, hleaves⟩ :=
      instrumented_follows v.lineInstruments profilerId hread (List.suffix_refl body) h
    exact ⟨_, ⟨n' + 3, (exec_prologue v.lineInstruments profilerId).mpr ⟨n', tr', rfl, rfl, hrun⟩⟩,
      rfl, congrArg (List.cons _) hleaves.calls, hleaves.originals⟩
  · rintro hverified tr' ⟨n, h⟩
    obtain ⟨m, tr'', rfl, rfl, hrun'⟩ := (exec_prologue v.lineInstruments profilerId).mp h
    obtain ⟨n', tr, hrun, hleaves⟩ := original_follows v.lineInstruments profilerId hread
      hverified (List.suffix_refl body) hverified.start hrun'
    exact ⟨tr, ⟨n', hrun⟩, rfl, congrArg (List.cons _) hleaves.calls, hleaves.originals⟩

/-! ## A method with a handler -/

/-- A small machine: a call takes its argument, and another instruction jumps to its label or,
without one, throws 7. -/
def smallStep (i : Instr (Option Nat)) (f : Frame Int Unit) : Option (Outcome Label Int Unit) :=
  match i.pushed with
  | some n => some (.next ⟨f.state, n :: f.stack⟩)
  | none =>
    match i, f.stack with
    | .other (some l), _ => some (.jump (.read l) f)
    | .other none, _ => some (.throw 7 f.state)
    | .methodInsn _ _ _ _ _, _ :: stack => some (.next ⟨f.state, stack⟩)
    | .insn opcode, v :: _ =>
      if isReturn opcode then some (.ret (some v) f.state) else some (.throw v f.state)
    | _, _ => none

theorem smallStep_pushed {i : Instr (Option Nat)} {n : Int} (h : i.pushed = some n)
    (f : Frame Int Unit) : smallStep i f = some (.next ⟨f.state, n :: f.stack⟩) := by
  unfold smallStep
  rw [h]

theorem not_return_of_pushed {i : Instr I} {n : Int} (h : i.pushed = some n) : ¬ i.IsReturn := by
  cases i with
  | insn opcode =>
    intro hret
    have hge : 172 ≤ opcode := of_decide_eq_true (Bool.and_eq_true_iff.mp hret).1
    have hnone : (Instr.insn opcode : Instr I).pushed = none := if_neg (by omega)
    cases hnone.symm.trans h
  | _ => exact id

theorem smallStep_cases {i : Instr (Option Nat)} {f : Frame Int Unit}
    {o : Outcome Label Int Unit} (h : smallStep i f = some o) :
    (∃ v, o = .ret v f.state ∧ i.IsReturn) ∨
      ¬ i.IsReturn ∧ ((∃ f', o = .next f') ∨ (∃ v, o = .throw v f.state) ∨
        ∃ l, i = .other (some l) ∧ o = .jump (.read l) f) := by
  cases hpushed : i.pushed with
  | some n =>
    cases (smallStep_pushed hpushed f).symm.trans h
    exact .inr ⟨not_return_of_pushed hpushed, .inl ⟨_, rfl⟩⟩
  | none =>
    obtain ⟨s, stack⟩ := f
    unfold smallStep at h
    rw [hpushed] at h
    cases i with
    | insn opcode =>
      cases stack with
      | nil => cases h
      | cons v stack =>
        -- a return, or an instruction that throws what is on the stack
        rcases ite_eq_iff.mp h with ⟨hret, h⟩ | ⟨hret, h⟩
        · cases h
          exact .inl ⟨_, rfl, hret⟩
        · cases h
          exact .inr ⟨hret, .inr (.inl ⟨_, rfl⟩)⟩
    | methodInsn opcode owner name descriptor isInterface =>
      cases stack with
      | nil => cases h
      | cons v stack =>
        cases h
        exact .inr ⟨id, .inl ⟨_, rfl⟩⟩
    | other l =>
      cases l with
      | none =>
        cases h
        exact .inr ⟨id, .inr (.inl ⟨_, rfl⟩)⟩
      | some l =>
        cases h
        exact .inr ⟨id, .inr (.inr ⟨_, rfl, rfl⟩)⟩
    | _ => cases h

def smallMachine : Semantics (Option Nat) Unit Int Unit where
  exec := fun i f o => smallStep i f = some o
  catches := fun _ _ => true
  ofInt := id
  IsException := fun _ => True
  push_iff := by
    intro i n f o hpushed
    rw [smallStep_pushed hpushed]
    exact ⟨fun h => (Option.some.inj h).symm, fun h => congrArg some h.symm⟩
  registry_iff := fun _ _ _ _ _ _ =>
    ⟨fun h => (Option.some.inj h).symm, fun h => congrArg some h.symm⟩
  isException := fun _ _ _ _ _ => trivial
  athrow_iff := fun _ _ _ _ _ =>
    ⟨fun h => (Option.some.inj h).symm, fun h => congrArg some h.symm⟩
  ret_iff := by
    intro i f o h
    rcases smallStep_cases h with ⟨v, rfl, hret⟩ | ⟨hret, ⟨f', rfl⟩ | ⟨v, rfl⟩ | ⟨l, -, rfl⟩⟩
    · exact ⟨fun _ => hret, fun _ => trivial⟩
    all_goals exact ⟨False.elim, fun h => hret h⟩
  jump_read := by
    intro i f l f' h
    rcases smallStep_cases h with ⟨v, ho, -⟩ | ⟨-, ⟨f', ho⟩ | ⟨v, ho⟩ | ⟨l, -, ho⟩⟩ <;> cases ho
    exact ⟨l, rfl⟩

/-- A method whose handler jumps to its end. -/
def smallBody : List (Callback (Option Nat) Unit) :=
  [.tryCatchBlock (.read 0) (.read 1) (.read 2) (some ()), .label (.read 0), .instr (.other none),
    .label (.read 1), .instr (.insn Opcodes.return'), .label (.read 2),
    .instr (.other (some 1))]

theorem live_of_mem {rest : List (Callback I T)} {i : Instr I}
    (h : .instr (.original, i) ∈ originalCode rest) : Live rest := by
  obtain ⟨c, hc, heq⟩ := List.mem_map.mp h
  cases c with
  | instr i' => exact ⟨i', hc⟩
  | _ => cases heq

theorem instr_mem_smallBody {i : Instr (Option Nat)} (h : .instr i ∈ smallBody) :
    i = .other none ∨ i = .insn Opcodes.return' ∨ i = .other (some 1) := by
  simpa [smallBody] using h

theorem smallBody_verified : Verified smallMachine smallBody where
  start := ⟨.other none, by decide⟩
  falls := by
    intro i rest f f' hrest h
    rcases instr_mem_smallBody (hrest.mem List.mem_cons_self) with rfl | rfl | rfl
    · cases h
    · obtain ⟨s, _ | _⟩ := f <;> cases h
    · cases h
  jumps := by
    intro i f l f' rest hi h _ htarget
    rcases instr_mem_smallBody hi with rfl | rfl | rfl
    · cases h
    · obtain ⟨s, _ | _⟩ := f <;> cases h
    · cases h
      have hcode := Option.some.inj htarget
      exact live_of_mem (i := .insn Opcodes.return') (hcode ▸ List.mem_cons_self)
  handlers := by
    intro e he rest _ htarget
    cases List.mem_singleton.mp he
    have hcode := Option.some.inj htarget
    exact live_of_mem (i := .other (some 1)) (hcode ▸ List.mem_cons_self)

/-- The exception is caught and the method returns, with the calls around it, and the
instrumented method does nothing else. -/
theorem instrumented_body_caught :
    (∃ tr', Runs smallMachine.machine
      (writtenCode (((Adapter.methodInstrumenting 3).visitBody smallBody).result
        ⟨∅, [], 0, []⟩)) ⟨(), []⟩ tr' (.returned (some 7) ()) ∧
      Wrapped smallMachine 3 [.original (.other none), .original (.other (some 1)),
        .original (.insn Opcodes.return')] tr') ∧
    ∀ fin tr', Runs smallMachine.machine
      (writtenCode (((Adapter.methodInstrumenting 3).visitBody smallBody).result
        ⟨∅, [], 0, []⟩)) ⟨(), []⟩ tr' fin →
      ∃ tr, Runs smallMachine.machine (originalCode smallBody) ⟨(), []⟩ tr fin ∧
        Wrapped smallMachine 3 tr tr' := by
  have hread : ∀ c ∈ smallBody, c.IsRead := by
    simp [smallBody, Callback.IsRead, Label.IsRead]
  have hbody := instrumented_body 3 smallMachine ⟨∅, [], 0, []⟩ hread ⟨(), []⟩
  refine ⟨(hbody _).1 _ ⟨7, ?_⟩, fun fin => (hbody fin).2 smallBody_verified⟩
  have hthrow : smallMachine.machine.exec (.original, .other none) ⟨(), []⟩ (.throw 7 ()) := rfl
  have hjump : smallMachine.machine.exec (.original, .other (some 1)) ⟨(), [7]⟩
      (.jump (.read 1) ⟨(), [7]⟩) := rfl
  have hreturn : smallMachine.machine.exec (.original, .insn Opcodes.return') ⟨(), [7]⟩
      (.ret (some 7) ()) := rfl
  refine .skip id (.skip id ?_)
  refine .caught (l := .read 2) hthrow rfl rfl ?_
  exact .jump hjump rfl (.returns hreturn)

end JautoProf.BytecodeTransformer
