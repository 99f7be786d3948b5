import JautoProf.HashTab
import JautoProf.Util

/-!
# The master table of instruments (`master-instruments.c`)

`MasterInstruments` is `struct master_instruments`. Its ids count up from 1 and are given
out once, which is part of the structure: every id in the table is below `nextId`.

Results:
1. `find_miInsert`, `find_miRemove`, `find_miModify`: what each operation does to `miFind`.
2. `miFindMethodByName_some`, `miFindMethodByName_none`: the search by name finds a method
   of that class and name exactly when there is one.
-/

namespace JautoProf

/-- The union of `struct mi_entry`, tagged with `enum mi_type`. -/
inductive MiBody
  | method (methodName : Pstring) (deferred : Bool)
  | line (exitClassName : Pstring) (entryLineNumber exitLineNumber : UInt32)
      (entryDeferred exitDeferred : Bool)
  | varBind (varName : Pstring) (lineNumber : UInt32) (deferred : Bool)
deriving DecidableEq

/-- `struct mi_entry`. -/
structure MiEntry where
  entryClassName : Pstring
  body : MiBody
deriving DecidableEq

instance : Inhabited MiEntry := ⟨⟨default, .method default false⟩⟩

/-- A `struct mi_entry *`: the id under which the entry was inserted. -/
abbrev MiPtr := Nat

/-- `struct mi_val`. -/
structure MiVal where
  id : Nat
  entry : Option MiPtr
deriving DecidableEq

namespace MiEntry

/-- `mi_type_is_user_visible`. -/
def isUserVisible (e : MiEntry) : Bool :=
  match e.body with
  | .method .. | .line .. => true
  | .varBind .. => false

def isMethod (e : MiEntry) : Bool :=
  match e.body with
  | .method .. => true
  | _ => false

/-- `entry->method.method_name`. -/
def methodName (e : MiEntry) : Pstring :=
  match e.body with
  | .method n _ => n
  | _ => default

/-- `entry->line.exit_class_name`. -/
def exitClassName (e : MiEntry) : Pstring :=
  match e.body with
  | .line x _ _ _ _ => x
  | _ => default

/-- `entry->line.entry_line_number`. -/
def entryLineNumber (e : MiEntry) : UInt32 :=
  match e.body with
  | .line _ l _ _ _ => l
  | _ => 0

/-- `entry->line.exit_line_number`. -/
def exitLineNumber (e : MiEntry) : UInt32 :=
  match e.body with
  | .line _ _ l _ _ => l
  | _ => 0

/-- `mi_line_is_ready`. -/
def lineIsReady (e : MiEntry) : Bool :=
  match e.body with
  | .line _ _ _ entryDeferred exitDeferred => !entryDeferred && !exitDeferred
  | _ => false

/-- What `mi_mark_method_applied` writes. -/
def methodApplied (e : MiEntry) : MiEntry :=
  match e.body with
  | .method n _ => { e with body := .method n false }
  | _ => e

/-- What `mi_mark_line_entry_applied` writes. -/
def lineEntryApplied (e : MiEntry) : MiEntry :=
  match e.body with
  | .line x l l' _ exitDeferred => { e with body := .line x l l' false exitDeferred }
  | _ => e

/-- What `mi_mark_line_exit_applied` writes. -/
def lineExitApplied (e : MiEntry) : MiEntry :=
  match e.body with
  | .line x l l' entryDeferred _ => { e with body := .line x l l' entryDeferred false }
  | _ => e

/-- What `mi_mark_var_bind_applied` writes. -/
def varBindApplied (e : MiEntry) : MiEntry :=
  match e.body with
  | .varBind n l _ => { e with body := .varBind n l false }
  | _ => e

/-- What names the instrument: the entry with its deferred flags cleared. -/
def identity (e : MiEntry) : MiEntry :=
  e.methodApplied.lineEntryApplied.lineExitApplied.varBindApplied

/-- A method instrument of the class `c` and the signature `s`. -/
def isMethodOf (e : MiEntry) (c s : CStr) : Bool :=
  match e.body with
  | .method n _ => decide (e.entryClassName.cstr = c ∧ n.cstr = s)
  | _ => false

end MiEntry

/-- The options that `mi_alloc` passes, with `mi_id_hash`. -/
def miTabOpts : HashTabOpts Nat where
  capInit := hashtabCapDefault
  rehashThresh := hashtabThreshDefault
  hashFunc := UInt32.ofNat
  cap_pos := hashtabCapDefault_pos

/-- `struct master_instruments`. -/
structure MasterInstruments where
  tab : Table miTabOpts MiEntry
  nextId : Nat
  nextId_pos : 0 < nextId
  ids : ∀ id, tab.lookup id ≠ none → 0 < id ∧ id < nextId

/-- `mi_alloc`. -/
def miAlloc : MasterInstruments where
  tab := .init miTabOpts
  nextId := 1
  nextId_pos := Nat.one_pos
  ids := fun id h => absurd (Table.lookup_init id) h

/-- `mi_find`. -/
def miFind (mi : MasterInstruments) (id : Nat) : Option MiEntry := mi.tab.lookup id

/-- What `mi_insert` returns; `keyOk` and `tabOk` say whether the allocations of the key and
of a larger table succeed. -/
def miInsertVal (mi : MasterInstruments) (e : MiEntry) (keyOk tabOk : Bool) : MiVal :=
  if (mi.tab.addResult mi.nextId e keyOk tabOk).err then ⟨0, none⟩ else ⟨mi.nextId, some mi.nextId⟩

/-- The table after `mi_insert`. -/
def miInsert (mi : MasterInstruments) (e : MiEntry) (keyOk tabOk : Bool) : MasterInstruments :=
  if h : (mi.tab.addResult mi.nextId e keyOk tabOk).err then mi
  else
    { tab := mi.tab.add mi.nextId e keyOk tabOk
      nextId := mi.nextId + 1
      nextId_pos := Nat.succ_pos _
      ids := fun id hid => by
        rw [Table.lookup_add (by simpa using h)] at hid
        split at hid
        · next heq => exact ⟨heq ▸ mi.nextId_pos, by omega⟩
        · have := mi.ids id hid
          exact ⟨this.1, Nat.lt_succ_of_lt this.2⟩ }

/-- `mi_remove`. -/
def miRemove (mi : MasterInstruments) (id : Nat) : MasterInstruments where
  tab := mi.tab.remove id
  nextId := mi.nextId
  nextId_pos := mi.nextId_pos
  ids := fun id' h => mi.ids id' fun hnone => h (by
    rw [Table.lookup_remove]
    split
    · rfl
    · exact hnone)

/-- A write to the entry that `mi_find_mut` returned. -/
def miModify (mi : MasterInstruments) (id : Nat) (f : MiEntry → MiEntry) : MasterInstruments where
  tab := mi.tab.modify id f
  nextId := mi.nextId
  nextId_pos := mi.nextId_pos
  ids := fun id' h => mi.ids id' fun hnone => h (by
    rw [Table.lookup_modify]
    split
    · next heq => rw [← heq, hnone]; rfl
    · exact hnone)

/-- `mi_find_method_by_name`, the loop over `mi_iterate`. -/
def miFindMethodByName (mi : MasterInstruments) (className methodSig : CStr) : MiVal :=
  match mi.tab.entries.find? fun kv => kv.2.isMethodOf className methodSig with
  | some kv => ⟨kv.1, some kv.1⟩
  | none => ⟨0, none⟩

/-! ## What the operations do -/

variable {mi : MasterInstruments}

theorem find_miAlloc (id : Nat) : miFind miAlloc id = none := Table.lookup_init id

theorem find_nextId (mi : MasterInstruments) : miFind mi mi.nextId = none := by
  by_contra h
  exact absurd (mi.ids _ h).2 (Nat.lt_irrefl _)

/-- An insertion fails and changes nothing, or gives out the next id. -/
theorem miInsert_cases (mi : MasterInstruments) (e : MiEntry) (keyOk tabOk : Bool) :
    (miInsertVal mi e keyOk tabOk = ⟨0, none⟩ ∧ miInsert mi e keyOk tabOk = mi) ∨
      (miInsertVal mi e keyOk tabOk = ⟨mi.nextId, some mi.nextId⟩ ∧
        (miInsert mi e keyOk tabOk).nextId = mi.nextId + 1 ∧
        ∀ id, miFind (miInsert mi e keyOk tabOk) id =
          if id = mi.nextId then some e else miFind mi id) := by
  unfold miInsertVal miInsert
  by_cases h : (mi.tab.addResult mi.nextId e keyOk tabOk).err
  · exact .inl (by simp [h])
  · exact .inr ⟨by simp [h], by simp [h], fun id => by
      simp only [h]
      exact Table.lookup_add (by simpa using h) id⟩

theorem miInsertVal_ok (mi : MasterInstruments) (e : MiEntry) :
    miInsertVal mi e true true = ⟨mi.nextId, some mi.nextId⟩ := by
  simp [miInsertVal]

theorem find_miRemove (mi : MasterInstruments) (id id' : Nat) :
    miFind (miRemove mi id) id' = if id' = id then none else miFind mi id' :=
  Table.lookup_remove _ _ _

theorem find_miModify (mi : MasterInstruments) (id id' : Nat) (f : MiEntry → MiEntry) :
    miFind (miModify mi id f) id' = if id' = id then (miFind mi id).map f else miFind mi id' :=
  Table.lookup_modify _ _ _ _

theorem mem_entries_iff {id : Nat} {e : MiEntry} : (id, e) ∈ mi.tab.entries ↔ miFind mi id = some e :=
  Table.mem_entries

theorem miFindMethodByName_cases (mi : MasterInstruments) (c s : CStr) :
    (∃ id e, miFindMethodByName mi c s = ⟨id, some id⟩ ∧ miFind mi id = some e ∧
        e.isMethodOf c s = true) ∨
      (miFindMethodByName mi c s = ⟨0, none⟩ ∧
        ∀ id e, miFind mi id = some e → e.isMethodOf c s = false) := by
  unfold miFindMethodByName
  cases h : mi.tab.entries.find? fun kv => kv.2.isMethodOf c s with
  | some kv =>
    refine .inl ⟨kv.1, kv.2, rfl, mem_entries_iff.mp (List.mem_of_find?_eq_some h), ?_⟩
    simpa using List.find?_some h
  | none =>
    refine .inr ⟨rfl, fun id e he => ?_⟩
    simpa using List.find?_eq_none.mp h _ (mem_entries_iff.mpr he)

/-! ## Entries -/

theorem MiEntry.isMethodOf_iff {e : MiEntry} {c s : CStr} :
    e.isMethodOf c s = true ↔
      e.entryClassName.cstr = c ∧ ∃ n d, e.body = .method n d ∧ n.cstr = s := by
  unfold isMethodOf
  split
  · next n d h => simp [h]
  · next h =>
    constructor
    · intro hf
      cases hf
    · rintro ⟨_, n, d, hb, _⟩
      exact absurd hb (h n d)

end JautoProf
