import JautoProf.CoherentStep

/-!
# What an id denotes

An id that is given out denotes the same instrument as long as it resolves, and once it
stops to resolve it never resolves again.

Results:
1. `identity_act`: an act changes no entry but for its deferred flags, and adds none under
   an id that was given out.
2. `Later`: the relation of a ledger to those after it; `later_reaches` derives it.
-/

namespace JautoProf

open Ledger Act

namespace MiEntry

theorem identity_methodApplied (e : MiEntry) : e.methodApplied.identity = e.identity := by
  obtain ⟨c, b⟩ := e
  cases b <;> rfl

theorem identity_lineEntryApplied (e : MiEntry) : e.lineEntryApplied.identity = e.identity := by
  obtain ⟨c, b⟩ := e
  cases b <;> rfl

theorem identity_lineExitApplied (e : MiEntry) : e.lineExitApplied.identity = e.identity := by
  obtain ⟨c, b⟩ := e
  cases b <;> rfl

theorem identity_applied (e : MiEntry) : e.applied.identity = e.identity := by
  rw [applied, identity_lineExitApplied, identity_lineEntryApplied, identity_methodApplied]

theorem identity_markHalf (q : QueuedInstr) (e : MiEntry) : (q.markHalf e).identity = e.identity := by
  unfold QueuedInstr.markHalf
  cases q.body with
  | lineEnter => exact identity_lineEntryApplied e
  | lineExit => exact identity_lineExitApplied e
  | method => rfl
  | varBind => rfl

end MiEntry

variable {L : Ledger}

theorem nextId_act (a : Act) : L.nextId ≤ (apply L a).nextId := by
  cases a <;> first | exact Nat.le_succ _ | exact Nat.le_refl _

/-- Under an id that was given out, an act leaves the instrument or removes it. -/
theorem identity_act {a : Act} (he : Enabled L a) {id : Nat} {e : MiEntry} (hlt : id < L.nextId)
    (h : (apply L a).entry id = some e) :
    ∃ e₀, L.entry id = some e₀ ∧ e.identity = e₀.identity := by
  -- an entry is changed in what is no part of its identity
  have hmod : ∀ id' f, (∀ e : MiEntry, (f e).identity = e.identity) →
      (L.modEntry id' f).entry id = some e → ∃ e₀, L.entry id = some e₀ ∧ e.identity = e₀.identity := by
    intro id' f hf hm
    rw [modEntry_entry] at hm
    split at hm
    · next heq =>
      obtain ⟨e₀, he₀, rfl⟩ := Option.map_eq_some_iff.mp hm
      exact ⟨e₀, heq ▸ he₀, hf e₀⟩
    · exact ⟨e, hm, rfl⟩
  have hset : ∀ id' e', (L.setEntry id' e').entry id = some e →
      (id = id' ∧ e' = some e) ∨ L.entry id = some e := by
    intro id' e' hm
    rw [setEntry_entry] at hm
    split at hm
    · next heq => exact .inl ⟨heq, hm⟩
    · exact .inr hm
  cases a with
  | hide e' =>
    rcases hset _ _ h with ⟨rfl, -⟩ | h
    · exact absurd hlt (Nat.lt_irrefl _)
    · exact ⟨e, h, rfl⟩
  | start e' name =>
    rcases hset _ _ h with ⟨rfl, -⟩ | h
    · exact absurd hlt (Nat.lt_irrefl _)
    · exact ⟨e, h, rfl⟩
  | enqueue f qs e' =>
    obtain ⟨-, -, -, ⟨e₀, he₀, hid⟩, -⟩ := he
    rcases hset _ _ h with ⟨rfl, heq⟩ | h
    · cases heq
      exact ⟨e₀, he₀, hid⟩
    · exact ⟨e, h, rfl⟩
  | settle f => exact hmod f.id _ MiEntry.identity_applied h
  | abandon f ok =>
    rcases hset _ _ h with ⟨-, heq⟩ | h
    · cases heq
    · exact ⟨e, h, rfl⟩
  | markHalf c q => exact hmod _ _ (MiEntry.identity_markHalf q) h
  | dequeue c q => exact hmod _ _ (MiEntry.identity_markHalf q) h
  | burn | addMethod | dropMethod | addLine | dropLine | mark | install | unqueue | takeMethod
  | leaveLine | define | load | settled | purge | leaveMethodRec | leaveLineRec | release | clear
  | report | readStale => exact ⟨e, h, rfl⟩

/-- Every id given out in `L` denotes in `L'` what it denotes in `L`, or nothing. -/
structure Later (L L' : Ledger) : Prop where
  nextId : L.nextId ≤ L'.nextId
  identity : ∀ id e', id < L.nextId → L'.entry id = some e' →
    ∃ e, L.entry id = some e ∧ e'.identity = e.identity

theorem Later.refl (L : Ledger) : Later L L := ⟨Nat.le_refl _, fun _ e' _ h => ⟨e', h, rfl⟩⟩

theorem Later.trans {L L' L'' : Ledger} (h : Later L L') (h' : Later L' L'') : Later L L'' := by
  refine ⟨h.nextId.trans h'.nextId, fun id e hlt he => ?_⟩
  obtain ⟨e₁, he₁, hid₁⟩ := h'.identity id e (hlt.trans_le h.nextId) he
  obtain ⟨e₂, he₂, hid₂⟩ := h.identity id e₁ hlt he₁
  exact ⟨e₂, he₂, hid₁.trans hid₂⟩

theorem later_act {a : Act} (he : Enabled L a) : Later L (apply L a) :=
  ⟨nextId_act a, fun _ _ hlt h => identity_act he hlt h⟩

theorem later_reaches {P : Ledger → Act → Prop} (hP : ∀ L a, P L a → Enabled L a) {L' : Ledger}
    (h : Runs.Reaches apply P L L') : Later L L' := by
  obtain ⟨as, rfl, hok⟩ := h
  exact Runs.rel_run (fun _ => True) Later.refl (fun _ _ _ => Later.trans)
    (fun L a _ ha => ⟨trivial, later_act (hP L a ha)⟩) trivial hok

end JautoProf
