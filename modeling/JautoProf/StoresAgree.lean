import JautoProf.Refines

/-!
# The master table, the queue and the class lists agree

What a coherent ledger says between events, in the terms of the state itself: the deferred
flags of an entry count the records that wait for it, and no record outlives its entry.

Results:
1. `stores_agree`: in every state of every run the three stores agree.
-/

namespace JautoProf

open Ledger

/-- A `QI_METHOD` record of this id, class and signature. -/
def QueuedInstr.isMethodOf (id : Nat) (c s : CStr) (q : QueuedInstr) : Bool :=
  q.hasId id && decide (q.key = ⟨some c, .method (some s)⟩)

/-- A `QI_LINE_ENTER` record of this id. -/
def QueuedInstr.isLineEnterOf (id : Nat) (q : QueuedInstr) : Bool :=
  q.hasId id && match q.body with
    | .lineEnter _ => true
    | _ => false

/-- A `QI_LINE_EXIT` record of this id. -/
def QueuedInstr.isLineExitOf (id : Nat) (q : QueuedInstr) : Bool :=
  q.hasId id && match q.body with
    | .lineExit _ => true
    | _ => false

/-- A record of this id and signature. -/
def InstrumentedMethod.isMethodOf (id : Nat) (s : CStr) (m : InstrumentedMethod) : Bool :=
  m.hasId id && decide (m.key = some s)

/-- The three stores agree. -/
structure StoresAgree (w : World) : Prop where
  method : ∀ id c n d, w.entry id = some ⟨c, .method n d⟩ →
    (d = true ↔ w.queuedInstruments.countP (·.isMethodOf id c.cstr n.cstr) = 1) ∧
      (d = false ↔ ∃ ci, w.cls c.cstr = some ci ∧
        ci.instrumented.countP (·.isMethodOf id n.cstr) = 1)
  line : ∀ id c x l l' d d', w.entry id = some ⟨c, .line x l l' d d'⟩ →
    (d = true ↔ w.queuedInstruments.countP (·.isLineEnterOf id) = 1) ∧
      (d' = true ↔ w.queuedInstruments.countP (·.isLineExitOf id) = 1)
  queueIds : ∀ q ∈ w.queuedInstruments, w.entry q.instrumentId ≠ none
  recordIds : ∀ c ci, w.cls c = some ci → ∀ m ∈ ci.instrumented, w.entry m.instrumentId ≠ none
  absent : ∀ q ∈ w.queuedInstruments, ∀ c : Pstring, q.className = some c → w.cls c.cstr = none

/-! ## Counting records -/

/-- Records of a list that a test on their key singles out, counted among the keys. -/
theorem countP_key {α κ : Type} (l : List α) (r : α → Bool) (key : α → κ) (g : κ → Bool) :
    l.countP (fun a => r a && g (key a)) = ((l.filter r).map key).countP g := by
  rw [List.countP_map, List.countP_filter]
  exact List.countP_congr fun a _ => by simp [and_comm]

section

variable {w : World} (h : Coherent w.ledger)

include h

theorem Coherent.queueKeys_eq (id : Nat) :
    (w.queuedInstruments.filter (·.hasId id)).map QueuedInstr.key = queueKeys (w.entry id) :=
  (h.queue id).trans (queueKeysOf_none rfl id)

theorem Coherent.methodKeys_eq {c : CStr} {ci : ClassInfo} (hci : w.cls c = some ci) (id : Nat) :
    (ci.instrumented.filter (·.hasId id)).map InstrumentedMethod.key = appliedKeys c (w.entry id) :=
  (h.methods_eq rfl hci id).trans (methodKeysOf_none rfl c id)

theorem Coherent.count_queuedMethod (id : Nat) (c s : CStr) :
    w.queuedInstruments.countP (·.isMethodOf id c s) =
      (queueKeys (w.entry id)).count ⟨some c, .method (some s)⟩ := by
  rw [← h.queueKeys_eq id]
  refine (countP_key _ _ QueuedInstr.key fun k => decide (k = ⟨some c, .method (some s)⟩)).trans ?_
  exact List.countP_congr fun k _ => by simp

theorem Coherent.count_lineEnter (id : Nat) :
    w.queuedInstruments.countP (·.isLineEnterOf id) =
      (queueKeys (w.entry id)).countP fun k => match k.kind with
        | .lineEnter _ => true
        | _ => false := by
  rw [← h.queueKeys_eq id, ← countP_key]
  refine List.countP_congr fun q _ => ?_
  obtain ⟨i, p, cn, b⟩ := q
  cases b <;> rfl

theorem Coherent.count_lineExit (id : Nat) :
    w.queuedInstruments.countP (·.isLineExitOf id) =
      (queueKeys (w.entry id)).countP fun k => match k.kind with
        | .lineExit _ => true
        | _ => false := by
  rw [← h.queueKeys_eq id, ← countP_key]
  refine List.countP_congr fun q _ => ?_
  obtain ⟨i, p, cn, b⟩ := q
  cases b <;> rfl

theorem Coherent.count_method {c : CStr} {ci : ClassInfo} (hci : w.cls c = some ci) (id : Nat)
    (s : CStr) :
    ci.instrumented.countP (·.isMethodOf id s) = (appliedKeys c (w.entry id)).count (some s) := by
  rw [← h.methodKeys_eq hci id]
  refine (countP_key _ _ InstrumentedMethod.key fun k => decide (k = some s)).trans ?_
  exact List.countP_congr fun k _ => by simp

/-! ## The three stores -/

theorem Coherent.method_agrees {id : Nat} {c n : Pstring} {d : Bool}
    (he : w.entry id = some ⟨c, .method n d⟩) :
    (d = true ↔ w.queuedInstruments.countP (·.isMethodOf id c.cstr n.cstr) = 1) ∧
      (d = false ↔ ∃ ci, w.cls c.cstr = some ci ∧
        ci.instrumented.countP (·.isMethodOf id n.cstr) = 1) := by
  rw [h.count_queuedMethod, he]
  refine ⟨by cases d <;> simp [queueKeys], fun hd => ?_, fun ⟨ci, hci, hcount⟩ => ?_⟩
  · subst hd
    have hcls : w.cls c.cstr ≠ none :=
      h.applied id _ c.cstr n.cstr he (flying_none rfl id) (by simp [MiEntry.isMethodOf]) rfl
    obtain ⟨ci, hci⟩ := Option.ne_none_iff_exists'.mp hcls
    refine ⟨ci, hci, ?_⟩
    rw [h.count_method hci, he]
    simp [appliedKeys_some, MiEntry.isApplied, methodKeys]
  · rw [h.count_method hci, he] at hcount
    cases d with
    | false => rfl
    | true => simp [appliedKeys_some, MiEntry.isApplied] at hcount

theorem Coherent.line_agrees {id : Nat} {c x : Pstring} {l l' : UInt32} {d d' : Bool}
    (he : w.entry id = some ⟨c, .line x l l' d d'⟩) :
    (d = true ↔ w.queuedInstruments.countP (·.isLineEnterOf id) = 1) ∧
      (d' = true ↔ w.queuedInstruments.countP (·.isLineExitOf id) = 1) := by
  rw [h.count_lineEnter, h.count_lineExit, he]
  cases d <;> cases d' <;> simp [queueKeys]

theorem Coherent.storesAgree : StoresAgree w where
  method _ _ _ _ he := h.method_agrees he
  line _ _ _ _ _ _ _ he := h.line_agrees he
  queueIds q hq hnone := by
    obtain ⟨e, he, -⟩ := not_isApplied_of_mem h rfl hq
    exact absurd (hnone.symm.trans he) nofun
  recordIds c ci hci m hm := h.entry_of_mem rfl rfl hci hm
  absent q hq c hc := by
    by_contra hne
    exact absurd (h.absent q hq c.cstr (by simp [QueuedInstr.hasClass, hc]) hne) nofun

end

/-- In every state that the server reaches the three stores agree, whatever fails. -/
theorem stores_agree (env : Env) (evs : List Event) : StoresAgree (serve env evs) :=
  (serve_inv env evs).coherent.storesAgree

end JautoProf
