import JautoProf.Identity

/-!
# The slots of the registry and their owners

Every record of an instrument carries a profiler id. `Slotted` says that they all carry the
id of one active slot, the slot of that instrument; `Lined` says that the line records in
the classes are those the entries call for, in their order. Both are kept by the acts that
take no line record of another instrument (`Own`).

Results:
1. `slotted_act`, `lined_act`: every enabled act that meets `Own` keeps the two.
2. `owned_act`: when the removal of a profiler always succeeds, every active slot belongs to
   an instrument of the master table.
-/

namespace JautoProf

open Ledger Act

/-! ## The registry -/

/-- Where `ProfilerRegistry.create` puts a profiler was free, and the rest is as it was. -/
theorem registryCreate_get (slots : List Slot) (s : Slot) (j : Nat) :
    (registryCreate slots s)[j]? = if j = registryCreateId slots then some s else slots[j]? := by
  unfold registryCreate registryCreateId
  cases h : slots.findIdx? fun s => !s.active with
  | none =>
    simp only [Option.getD_none, List.getElem?_append]
    split
    · next hlt => rw [if_neg (by omega)]
    · next hge =>
      split
      · next heq => simp [heq]
      · next hne =>
        rw [List.getElem?_eq_none (by simp only [List.length_singleton]; omega),
          List.getElem?_eq_none (by omega)]
  | some i =>
    have hi := (List.findIdx?_eq_some_iff_getElem.mp h).1
    simp only [Option.getD_some, List.getElem?_set]
    split
    · next heq => simp [heq]
    · next hne => rw [if_neg (Ne.symm hne)]

theorem registryCreateId_free {slots : List Slot} {s : Slot}
    (h : slots[registryCreateId slots]? = some s) : s.active = false := by
  unfold registryCreateId at h
  cases hi : slots.findIdx? fun s => !s.active with
  | none => simp [hi] at h
  | some i =>
    obtain ⟨hlt, hfree, -⟩ := List.findIdx?_eq_some_iff_getElem.mp hi
    rw [hi, Option.getD_some, List.getElem?_eq_getElem hlt, Option.some.injEq] at h
    simpa [h] using hfree

theorem registryRemove_get (slots : List Slot) (i j : Nat) :
    (registryRemove slots (.ofNat i))[j]? =
      if j = i then slots[j]?.map fun s => { s with active := false } else slots[j]? := by
  show (slots.modify i _)[j]? = _
  rw [List.getElem?_modify]
  by_cases h : i = j
  · simp [h]
  · simp [h, Ne.symm h]

/-- The profiler id is that of an active slot of the instrument. -/
def holdsSlot (slots : List Slot) (id : Nat) (pid : Int) : Prop :=
  ∃ i s, pid = .ofNat i ∧ slots[i]? = some s ∧ s.active = true ∧ s.instrumentId = id

theorem holdsSlot_create {slots : List Slot} {s : Slot} {id : Nat} {pid : Int}
    (h : holdsSlot slots id pid) : holdsSlot (registryCreate slots s) id pid := by
  obtain ⟨i, t, hpid, ht, hact, hid⟩ := h
  refine ⟨i, t, hpid, ?_, hact, hid⟩
  rw [registryCreate_get, if_neg]
  · exact ht
  · rintro rfl
    rw [registryCreateId_free ht] at hact
    cases hact

theorem holdsSlot_created (slots : List Slot) (id : Nat) (name : ProfilerName) :
    holdsSlot (registryCreate slots ⟨true, id, name⟩) id (registryCreateId slots) :=
  ⟨_, _, rfl, by rw [registryCreate_get, if_pos rfl], rfl, rfl⟩

/-- The removal of the slot of one instrument leaves those of the others. -/
theorem holdsSlot_remove {slots : List Slot} {id id' : Nat} {pid pid' : Int}
    (h : holdsSlot slots id pid) (h' : holdsSlot slots id' pid') (hne : id ≠ id') :
    holdsSlot (registryRemove slots pid') id pid := by
  obtain ⟨i, s, hpid, hs, hact, hid⟩ := h
  obtain ⟨j, t, rfl, ht, -, hid'⟩ := h'
  refine ⟨i, s, hpid, ?_, hact, hid⟩
  rw [registryRemove_get, if_neg]
  · exact hs
  · rintro rfl
    rw [hs] at ht
    cases ht
    exact hne (hid.symm.trans hid')

/-! ## Who carries which profiler id -/

/-- A record of the class carries the profiler id for the instrument. -/
def ClassInfo.carries (ci : ClassInfo) (id : Nat) (pid : Int) : Prop :=
  (∃ m ∈ ci.instrumented, m.instrumentId = id ∧ m.profilerId = pid) ∨
    ∃ r ∈ ci.lines, r.instrumentId = id ∧ r.profilerId = pid

namespace Ledger

/-- A record in the queue or in a class carries the profiler id for the instrument. -/
def carries (L : Ledger) (id : Nat) (pid : Int) : Prop :=
  (∃ q ∈ L.queue, q.instrumentId = id ∧ q.profilerId = pid) ∨
    ∃ c ci, L.cls c = some ci ∧ ci.carries id pid

/-- The instrument in flight is this one, with this profiler id. -/
def carriesFlight (L : Ledger) (id : Nat) (pid : Int) : Prop :=
  ∃ f, L.flight = some f ∧ f.id = id ∧ f.profilerId = pid

/-- The instrument in flight is this one, and records may be added for it. -/
def recordsFlight (L : Ledger) (id : Nat) (pid : Int) : Prop :=
  ∃ f, L.flight = some f ∧ f.stage ≠ .leaving ∧ f.id = id ∧ f.profilerId = pid

theorem carriesFlight_of_recordsFlight {L : Ledger} {id : Nat} {pid : Int}
    (h : L.recordsFlight id pid) : L.carriesFlight id pid :=
  let ⟨f, hf, _, hid⟩ := h
  ⟨f, hf, hid⟩

/-- The instrument whose record is the first one at the line. -/
def firstLine (L : Ledger) (c : CStr) (l : UInt32) : Option Nat :=
  (L.cls c).bind fun ci => (ci.lines.find? (·.hasLine l)).map (·.instrumentId)

end Ledger

/-- The act takes no line record of another instrument. -/
def Act.Own (L : Ledger) : Act → Prop
  | dropLine f c l => L.firstLine c l = some f.id
  | leaveLine id e _ => L.firstLine e.entryClassName.cstr e.entryLineNumber = some id
  | release _ _ => False
  | clear c => ∀ ci, L.cls c = some ci → ∀ r ∈ ci.lines, L.entry r.instrumentId = none
  | _ => True

/-- All records of an instrument carry the id of its one active slot. -/
structure Slotted (L : Ledger) : Prop where
  ids : ∀ (i : Nat) s, L.slots[i]? = some s → s.instrumentId < L.nextId
  unique : ∀ (i j : Nat) s t, L.slots[i]? = some s → L.slots[j]? = some t → s.active = true →
    t.active = true → s.instrumentId = t.instrumentId → i = j
  records : ∀ id pid, L.carries id pid → L.entry id ≠ none → holdsSlot L.slots id pid
  flight : ∀ f, L.flight = some f → L.entry f.id ≠ none ∧ holdsSlot L.slots f.id f.profilerId

variable {L : Ledger}

theorem carries_lt (h : Coherent L) {id : Nat} {pid : Int} (hc : L.carries id pid) :
    id < L.nextId := by
  rcases hc with ⟨q, hq, rfl, -⟩ | ⟨c, ci, hci, ⟨m, hm, rfl, -⟩ | ⟨r, hr, rfl, -⟩⟩
  · have hkeys := h.queue q.instrumentId
    have hmem : q.key ∈ L.queueKeysOf q.instrumentId :=
      hkeys ▸ List.mem_map_of_mem (List.mem_filter.mpr ⟨hq, by simp [QueuedInstr.hasId]⟩)
    unfold queueKeysOf at hmem
    split at hmem
    · cases hmem
    · cases he : L.entry q.instrumentId with
      | none => rw [he] at hmem; cases hmem
      | some e => exact (h.ids _ e he).2
  · exact h.methodIds c ci hci m hm
  · exact (h.lines c ci hci r hr).1

theorem carries_modCls (g : ClassInfo → ClassInfo) {c : CStr} {id : Nat} {pid : Int} {X : Prop}
    {F : Option Flight}
    (hg : ∀ ci, L.cls c = some ci → (g ci).carries id pid → ci.carries id pid ∨ X)
    (h : ((L.modCls c g).withFlight F).carries id pid) : L.carries id pid ∨ X := by
  rcases h with hq | ⟨c', ci', hc', hcar⟩
  · exact .inl (.inl hq)
  · rcases modCls_some.mp hc' with ⟨rfl, ci, hci, rfl⟩ | ⟨-, hci⟩
    · exact (hg ci hci hcar).imp_left fun h => .inr ⟨_, ci, hci, h⟩
    · exact .inl (.inr ⟨c', ci', hci, hcar⟩)

/-- A profiler id that a record carries after an act was there before it. -/
theorem carries_act {a : Act} (he : Enabled L a) {id : Nat} {pid : Int}
    (h : (apply L a).carries id pid) : L.carries id pid ∨ L.recordsFlight id pid := by
  cases a with
  | enqueue f qs e =>
    obtain ⟨hfl, hst, -, -, -, -, hqs⟩ := he
    rcases h with ⟨q, hq, hid, hpid⟩ | hc
    · rcases List.mem_append.mp hq with hq | hq
      · exact .inl (.inl ⟨q, hq, hid, hpid⟩)
      · exact .inr ⟨f, hfl, by simp [hst], (hqs q hq).1.symm.trans hid,
          (hqs q hq).2.1.symm.trans hpid⟩
    · exact .inl (.inr hc)
  | addMethod f c sig =>
    refine carries_modCls _ (fun ci _ hcar => ?_) h
    rcases hcar with ⟨m, hm, hid, hpid⟩ | hl
    · rcases List.mem_append.mp hm with hm | hm
      · exact .inl (.inl ⟨m, hm, hid, hpid⟩)
      · rw [List.mem_singleton] at hm
        subst hm
        exact .inr ⟨f, he.1, by simp [he.2.1], hid, hpid⟩
    · exact .inl (.inr hl)
  | addLine f k =>
    refine carries_modCls _ (fun ci _ hcar => ?_) h
    rcases hcar with hm | ⟨r, hr, hid, hpid⟩
    · exact .inl (.inl hm)
    · rcases List.mem_append.mp hr with hr | hr
      · exact .inl (.inr ⟨r, hr, hid, hpid⟩)
      · rw [List.mem_singleton] at hr
        subst hr
        exact .inr ⟨f, he.1, he.2.1, hid, hpid⟩
  | dropMethod f c s =>
    exact carries_modCls (ciRemoveInstrumentedBySig s) (fun ci _ hcar =>
      .inl (hcar.imp_left fun ⟨m, hm, hid⟩ => ⟨m, List.mem_of_mem_eraseP hm, hid⟩)) h
  | takeMethod c s m =>
    exact carries_modCls (L := L) (F := none) (ciRemoveInstrumentedBySig s) (fun ci _ hcar =>
      .inl (hcar.imp_left fun ⟨m, hm, hid⟩ => ⟨m, List.mem_of_mem_eraseP hm, hid⟩)) h
  | dropLine f c l =>
    exact carries_modCls (ciRemoveInstrumentedLine l) (fun ci _ hcar =>
      .inl (hcar.imp_right fun ⟨r, hr, hid⟩ => ⟨r, List.mem_of_mem_eraseP hr, hid⟩)) h
  | clear c =>
    refine carries_modCls (L := L) (F := L.flight) ciClearInstruments (fun ci _ hcar => ?_) h
    rcases hcar with ⟨m, hm, -⟩ | ⟨r, hr, -⟩
    · cases hm
    · cases hr
  | markHalf c q =>
    exact .inl (h.imp_left fun ⟨q, hq, hid⟩ => ⟨q, List.mem_of_mem_eraseP hq, hid⟩)
  | dequeue c q =>
    exact .inl (h.imp_left fun ⟨q, hq, hid⟩ => ⟨q, List.mem_of_mem_eraseP hq, hid⟩)
  | unqueue id' q =>
    refine .inl (h.imp_left fun ⟨q', hq', hid⟩ => ⟨q', ?_, hid⟩)
    -- the loop by id takes one half or both out of the queue
    have hrm : q' ∈ removeQueuedInstrById L.queue id' := hq'
    rw [removeQueuedInstrById_eq, he.2.2] at hrm
    simp only at hrm
    split at hrm
    · exact List.mem_of_mem_eraseP (List.mem_of_mem_eraseP hrm)
    · exact List.mem_of_mem_eraseP hrm
  | load ci =>
    obtain ⟨-, -, -, hm, hl, -⟩ := he
    left
    rcases h with hq | ⟨c', ci', hc', hcar⟩
    · exact .inl hq
    · have hupd : Function.update L.cls ci.name.cstr (some (loadedClass L ci)) c' = some ci' := hc'
      rw [Function.update_apply] at hupd
      split at hupd
      · cases hupd
        unfold loadedClass at hcar
        split at hcar
        · next old hold => exact .inr ⟨_, old, hold, hcar⟩
        · rcases hcar with ⟨m, hmem, -⟩ | ⟨r, hmem, -⟩
          · rw [hm] at hmem
            cases hmem
          · rw [hl] at hmem
            cases hmem
      · exact .inr ⟨c', ci', hupd, hcar⟩
  | burn | hide | start | settle | abandon | mark | install | leaveLine | define | settled | purge
  | leaveMethodRec | leaveLineRec | release | report | readStale => exact .inl h

/-- No record carries `-1`, the profiler id that stands for none. -/
structure Numbered (L : Ledger) : Prop where
  records : ∀ id pid, L.carries id pid → 0 ≤ pid
  flight : ∀ id pid, L.recordsFlight id pid → 0 ≤ pid

theorem numbered_act (h : Numbered L) {a : Act} (he : Enabled L a) : Numbered (apply L a) := by
  have hsame : ∀ {L' : Ledger} {id : Nat} {pid : Int}, L'.flight = L.flight →
      L'.recordsFlight id pid → 0 ≤ pid := by
    rintro L' id pid hf ⟨g, hg, hgs⟩
    exact h.flight id pid ⟨g, hf ▸ hg, hgs⟩
  refine ⟨fun id pid hc => (carries_act he hc).elim (h.records id pid) (h.flight id pid), ?_⟩
  intro id pid hr
  cases a with
  | start e name =>
    obtain ⟨g, hg, -, -, rfl⟩ := hr
    cases hg
    exact Int.natCast_nonneg _
  | dequeue c q =>
    obtain ⟨g, hg, -, -, rfl⟩ := hr
    cases hg
    exact h.records q.instrumentId q.profilerId
      (.inl ⟨q, List.mem_of_find?_eq_some he.2.2.2.1, rfl, rfl⟩)
  | enqueue | settle | abandon =>
    obtain ⟨g, hg, -⟩ := hr
    cases hg
  | unqueue | takeMethod | leaveLine | leaveMethodRec | leaveLineRec | dropMethod =>
    obtain ⟨g, hg, hgs, -⟩ := hr
    cases hg
    exact absurd rfl hgs
  | addMethod f c sig =>
    obtain ⟨g, hg, -, -, rfl⟩ := hr
    cases hg
    exact h.flight f.id f.profilerId ⟨f, he.1, by simp [he.2.1], rfl, rfl⟩
  | addLine f k =>
    obtain ⟨g, hg, -, -, rfl⟩ := hr
    cases hg
    exact h.flight f.id f.profilerId ⟨f, he.1, he.2.1, rfl, rfl⟩
  | dropLine f c l =>
    obtain ⟨g, hg, hgs, -, rfl⟩ := hr
    cases hg
    exact h.flight f.id f.profilerId ⟨f, he.1, hgs, rfl, rfl⟩
  | install c ci kept =>
    obtain ⟨g, hg, hgs, hid, hpid⟩ := hr
    obtain ⟨f, hf, rfl⟩ := Option.map_eq_some_iff.mp hg
    exact h.flight id pid ⟨f, hf, hgs, hid, hpid⟩
  | burn | hide | mark | markHalf | define | load | settled | purge | release | clear | report
  | readStale => exact hsame rfl hr

/-- An act that leaves the slots alone keeps each record on its slot. -/
theorem Slotted.of_slots (h : Slotted L) (hC : Coherent L) {a : Act} (he : Enabled L a)
    (hs : (apply L a).slots = L.slots)
    (hfl : ∀ f, (apply L a).flight = some f → (apply L a).entry f.id ≠ none ∧
      (L.carriesFlight f.id f.profilerId ∨
        (L.carries f.id f.profilerId ∧ L.entry f.id ≠ none))) : Slotted (apply L a) := by
  have hflight : ∀ id pid, L.carriesFlight id pid → holdsSlot L.slots id pid := by
    rintro id pid ⟨f, hf, rfl, rfl⟩
    exact (h.flight f hf).2
  refine ⟨fun i s hi => ?_, fun i j s t hi hj => ?_, fun id pid hc hne => ?_, fun f hf => ?_⟩
  · rw [hs] at hi
    exact (h.ids i s hi).trans_le (nextId_act a)
  · rw [hs] at hi hj
    exact h.unique i j s t hi hj
  · rw [hs]
    rcases carries_act he hc with hc | hc
    · obtain ⟨e, hent⟩ := Option.ne_none_iff_exists'.mp hne
      obtain ⟨e₀, he₀, -⟩ := identity_act he (carries_lt hC hc) hent
      exact h.records id pid hc (by simp [he₀])
    · exact hflight id pid (carriesFlight_of_recordsFlight hc)
  · rw [hs]
    refine ⟨(hfl f hf).1, (hfl f hf).2.elim (hflight _ _) fun hc => h.records _ _ hc.1 hc.2⟩

theorem Slotted.start (h : Slotted L) (hC : Coherent L) {e : MiEntry} {name : ProfilerName}
    (he : Enabled L (.start e name)) : Slotted (apply L (.start e name)) := by
  have hent : ∀ id, (apply L (.start e name)).entry id =
      if id = L.nextId then some e else L.entry id := fun id => setEntry_entry ..
  have hget : ∀ j : Nat, (apply L (.start e name)).slots[j]? =
      if j = registryCreateId L.slots then some ⟨true, L.nextId, name⟩ else L.slots[j]? :=
    fun j => registryCreate_get ..
  refine ⟨fun i s hi => ?_, fun i j s t hi hj hs ht hst => ?_, fun id pid hc hne => ?_, fun f hf => ?_⟩
  · rw [hget] at hi
    split at hi
    · cases hi
      exact Nat.lt_succ_self _
    · exact (h.ids i s hi).trans (Nat.lt_succ_self _)
  · rw [hget] at hi hj
    split at hi <;> split at hj
    · next h₁ h₂ => exact h₁.trans h₂.symm
    · cases hi
      exact absurd (hst ▸ h.ids j t hj) (Nat.lt_irrefl _)
    · cases hj
      exact absurd (hst ▸ h.ids i s hi) (Nat.lt_irrefl _)
    · exact h.unique i j s t hi hj hs ht hst
  · rcases carries_act he hc with hc | ⟨f, hf, -⟩
    · have hlt := carries_lt hC hc
      rw [hent, if_neg (Nat.ne_of_lt hlt)] at hne
      exact holdsSlot_create (h.records id pid hc hne)
    · rw [he.1] at hf
      cases hf
  · cases hf
    exact ⟨by simp [hent], holdsSlot_created ..⟩

theorem Slotted.abandon (h : Slotted L) {f : Flight} {ok : Bool}
    (he : Enabled L (.abandon f ok)) : Slotted (apply L (.abandon f ok)) := by
  obtain ⟨-, hslot⟩ := h.flight f he.1
  have hent : ∀ id, (apply L (.abandon f ok)).entry id = if id = f.id then none else L.entry id :=
    fun id => setEntry_entry ..
  have hback : ∀ (i : Nat) s, (apply L (.abandon f ok)).slots[i]? = some s →
      ∃ s', L.slots[i]? = some s' ∧ s'.instrumentId = s.instrumentId ∧
        (s.active = true → s'.active = true) := by
    intro i s hi
    obtain ⟨j, t, hpid, ht, -, -⟩ := hslot
    cases ok with
    | false => exact ⟨s, hi, rfl, id⟩
    | true =>
      have hi' : (registryRemove L.slots f.profilerId)[i]? = some s := hi
      rw [hpid, registryRemove_get] at hi'
      split at hi'
      · obtain ⟨s', hs', rfl⟩ := Option.map_eq_some_iff.mp hi'
        exact ⟨s', hs', rfl, fun ha => by cases ha⟩
      · exact ⟨s, hi', rfl, id⟩
  refine ⟨fun i s hi => ?_, fun i j s t hi hj hs ht hst => ?_, fun id pid hc hne => ?_,
    fun f' hf' => (nomatch hf')⟩
  · obtain ⟨s', hs', hid, -⟩ := hback i s hi
    exact hid ▸ h.ids i s' hs'
  · obtain ⟨s', hs', hid, ha⟩ := hback i s hi
    obtain ⟨t', ht', hid', ha'⟩ := hback j t hj
    exact h.unique i j s' t' hs' ht' (ha hs) (ha' ht) (hid.trans (hst.trans hid'.symm))
  · rw [hent] at hne
    split at hne
    · exact absurd rfl hne
    · next hid =>
      have hold : holdsSlot L.slots id pid := by
        rcases carries_act he hc with hc | ⟨f', hf', -, hfid, -⟩
        · exact h.records id pid hc hne
        · cases he.1.symm.trans hf'
          exact absurd hfid.symm hid
      cases ok with
      | false => exact hold
      | true => exact holdsSlot_remove hold hslot hid

/-- Every enabled act that takes only what is its own keeps each record on its slot. -/
theorem slotted_act (h : Slotted L) (hC : Coherent L) {a : Act} (he : Enabled L a)
    (ho : Own L a) : Slotted (apply L a) := by
  -- the instrument in flight keeps its entry and its slot
  have hkeep : ∀ (f f' : Flight), L.flight = some f → f'.id = f.id → f'.profilerId = f.profilerId →
      L.entry f'.id ≠ none ∧ (L.carriesFlight f'.id f'.profilerId ∨
        (L.carries f'.id f'.profilerId ∧ L.entry f'.id ≠ none)) :=
    fun f f' hf hid hpid => ⟨hid ▸ (h.flight f hf).1, .inl ⟨f, hf, hid.symm, hpid.symm⟩⟩
  cases a with
  | start e name => exact h.start hC he
  | abandon f ok => exact h.abandon he
  | release r ok => exact absurd ho id
  | hide e =>
    refine h.of_slots hC he rfl fun f hf => ?_
    have hnone : (apply L (.hide e)).flight = none := he.1
    rw [hnone] at hf
    cases hf
  | enqueue f qs e => exact h.of_slots hC he rfl fun f hf => nomatch hf
  | settle f => exact h.of_slots hC he rfl fun f hf => nomatch hf
  | addMethod f c sig =>
    refine h.of_slots hC he rfl fun f' hf' => ?_
    cases hf'
    exact hkeep f _ he.1 rfl rfl
  | dropMethod f c s =>
    refine h.of_slots hC he rfl fun f' hf' => ?_
    cases hf'
    exact hkeep f _ he.1 rfl rfl
  | addLine f k =>
    refine h.of_slots hC he rfl fun f' hf' => ?_
    cases hf'
    exact hkeep f _ he.1 rfl rfl
  | dropLine f c l =>
    refine h.of_slots hC he rfl fun f' hf' => ?_
    cases hf'
    exact hkeep f _ he.1 rfl rfl
  | install c ci kept =>
    refine h.of_slots hC he rfl fun f' hf' => ?_
    obtain ⟨f, hf, rfl⟩ := Option.map_eq_some_iff.mp hf'
    exact hkeep f _ hf rfl rfl
  | markHalf c q =>
    refine h.of_slots hC he rfl fun f hf => ?_
    have hnone : (apply L (.markHalf c q)).flight = none := he.2.1
    rw [hnone] at hf
    cases hf
  | dequeue c q =>
    refine h.of_slots hC he rfl fun f hf => ?_
    obtain ⟨-, -, -, hq, e, hent, -⟩ := he
    cases hf
    refine ⟨?_, .inr ⟨.inl ⟨q, List.mem_of_find?_eq_some hq, rfl, rfl⟩, by simp [hent]⟩⟩
    show (L.modEntry q.instrumentId q.markHalf).entry q.instrumentId ≠ none
    simp [hent]
  | unqueue id q =>
    refine h.of_slots hC he rfl fun f hf => ?_
    obtain ⟨hfl, -, hq⟩ := he
    cases hf
    have hmem := List.mem_of_find?_eq_some hq
    have hid : q.instrumentId = id := by simpa [QueuedInstr.hasId] using List.find?_some hq
    obtain ⟨e, hent, -⟩ := not_isApplied_of_mem hC hfl hmem
    have hne : L.entry id ≠ none := by simp [← hid, hent]
    exact ⟨hne, .inr ⟨.inl ⟨q, hmem, hid, rfl⟩, hne⟩⟩
  | takeMethod c s m =>
    refine h.of_slots hC he rfl fun f hf => ?_
    obtain ⟨hfl, hpu, ci, hci, hm⟩ := he
    cases hf
    obtain ⟨e, hent, -⟩ := hC.instrumentId_of_find hpu hci hm
    have hne : L.entry m.instrumentId ≠ none := by simp [hent]
    exact ⟨hne, .inr ⟨.inr ⟨c, ci, hci, .inl ⟨m, List.mem_of_find?_eq_some hm, rfl, rfl⟩⟩, hne⟩⟩
  | leaveLine id e ci =>
    refine h.of_slots hC he rfl fun f hf => ?_
    obtain ⟨-, -, hent, -, hci⟩ := he
    cases hf
    have hne : L.entry id ≠ none := by simp [hent]
    have hfirst : L.firstLine e.entryClassName.cstr e.entryLineNumber = some id := ho
    rw [firstLine, hci, Option.bind_some] at hfirst
    obtain ⟨r, hr, hid⟩ := Option.map_eq_some_iff.mp hfirst
    refine ⟨hne, .inr ⟨.inr ⟨_, ci, hci, .inr ⟨r, List.mem_of_find?_eq_some hr, hid, ?_⟩⟩, hne⟩⟩
    simp [ciInstrumentedLine, hr]
  | leaveMethodRec m =>
    refine h.of_slots hC he rfl fun f hf => ?_
    obtain ⟨-, -, hne, c, ci, -, hci, hm⟩ := he
    cases hf
    exact ⟨hne, .inr ⟨.inr ⟨c, ci, hci, .inl ⟨m, hm, rfl, rfl⟩⟩, hne⟩⟩
  | leaveLineRec r =>
    refine h.of_slots hC he rfl fun f hf => ?_
    obtain ⟨-, -, hne, c, ci, -, hci, hr⟩ := he
    cases hf
    exact ⟨hne, .inr ⟨.inr ⟨c, ci, hci, .inr ⟨r, hr, rfl, rfl⟩⟩, hne⟩⟩
  | burn | mark | define | load | settled | purge | clear | report | readStale =>
    exact h.of_slots hC he rfl fun f hf => hkeep f f hf rfl rfl

/-! ## Slots without an instrument -/

/-- The profiler of an instrument that is given up is removed. -/
def Act.Removed : Act → Prop
  | abandon _ ok => ok = true
  | _ => True

/-- A method or line instrument is in the master table under the id. -/
def Ledger.shows (L : Ledger) (id : Nat) : Prop :=
  ∃ e, L.entry id = some e ∧ e.isUserVisible = true

/-- Every active slot belongs to an instrument of the master table. -/
def Owned (L : Ledger) : Prop :=
  ∀ (i : Nat) s, L.slots[i]? = some s → s.active = true → L.shows s.instrumentId

theorem Owned.of_slots (h : Owned L) {L' : Ledger} (hs : L'.slots = L.slots)
    (hent : ∀ id, L.shows id → L'.shows id) : Owned L' := by
  intro i s hi ha
  rw [hs] at hi
  exact hent _ (h i s hi ha)

theorem shows_setEntry {id id' : Nat} {e : MiEntry} (h : L.shows id')
    (he : id' = id → e.isUserVisible = true) : (L.setEntry id (some e)).shows id' := by
  rw [shows, setEntry_entry]
  split
  · next hid => exact ⟨e, rfl, he hid⟩
  · exact h

theorem shows_modEntry {id id' : Nat} {f : MiEntry → MiEntry} (h : L.shows id')
    (hf : ∀ e, (f e).isUserVisible = e.isUserVisible) : (L.modEntry id f).shows id' := by
  obtain ⟨e, he, hv⟩ := h
  rw [shows, modEntry_entry]
  split
  · next hid => exact ⟨f e, by rw [← hid, he, Option.map_some], (hf e).trans hv⟩
  · exact ⟨e, he, hv⟩

theorem MiEntry.isUserVisible_of_identity {e e' : MiEntry} (h : e.identity = e'.identity) :
    e.isUserVisible = e'.isUserVisible := by
  have hid : ∀ e : MiEntry, e.identity.isUserVisible = e.isUserVisible := by
    rintro ⟨c, b⟩
    cases b <;> rfl
  rw [← hid e, h, hid e']

theorem MiEntry.isUserVisible_applied (e : MiEntry) : e.applied.isUserVisible = e.isUserVisible := by
  obtain ⟨c, b⟩ := e
  cases b <;> rfl

theorem MiEntry.isUserVisible_markHalf (q : QueuedInstr) (e : MiEntry) :
    (q.markHalf e).isUserVisible = e.isUserVisible := by
  obtain ⟨c, b⟩ := e
  unfold QueuedInstr.markHalf
  cases q.body <;> cases b <;> rfl

theorem owned_act (h : Owned L) (hS : Slotted L) {a : Act} (he : Enabled L a) (ho : Own L a)
    (hr : Removed a) : Owned (apply L a) := by
  cases a with
  | start e name =>
    have hvis := MiEntry.isUserVisible_of_isFresh he.2.2.2.1
    intro i s hi ha
    rw [show (apply L (.start e name)).slots[i]? = _ from registryCreate_get ..] at hi
    show (L.setEntry L.nextId (some e)).shows s.instrumentId
    split at hi
    · cases hi
      exact ⟨e, (setEntry_entry ..).trans (if_pos rfl), hvis⟩
    · exact shows_setEntry (h i s hi ha) fun _ => hvis
  | abandon f ok =>
    subst hr
    obtain ⟨-, j, t, hpid, ht, htact, hid⟩ := hS.flight f he.1
    intro i s hi ha
    have hi' : (registryRemove L.slots f.profilerId)[i]? = some s := hi
    rw [hpid, registryRemove_get] at hi'
    show (L.setEntry f.id none).shows s.instrumentId
    split at hi'
    · obtain ⟨s', -, rfl⟩ := Option.map_eq_some_iff.mp hi'
      cases ha
    · next hne =>
      rw [shows, setEntry_entry, if_neg]
      · -- the removed slot was the only one of the instrument, so the entry of this one stays
        exact h i s hi' ha
      · exact fun heq => hne (hS.unique i j s t hi' ht ha htact (heq.trans hid.symm))
  | release r ok => exact absurd ho id
  | hide e =>
    intro i s hi ha
    have hlt := hS.ids i s hi
    exact shows_setEntry (h i s hi ha) fun heq => absurd heq (by omega)
  | enqueue f qs e =>
    obtain ⟨-, -, -, ⟨e₀, he₀, hident⟩, -⟩ := he
    refine h.of_slots rfl fun id hid => shows_setEntry hid fun heq => ?_
    obtain ⟨e₁, he₁, hv⟩ := hid
    cases he₀.symm.trans (heq ▸ he₁)
    exact (MiEntry.isUserVisible_of_identity hident).trans hv
  | settle f => exact h.of_slots rfl fun _ hid => shows_modEntry hid MiEntry.isUserVisible_applied
  | markHalf c q =>
    exact h.of_slots rfl fun _ hid => shows_modEntry hid (MiEntry.isUserVisible_markHalf q)
  | dequeue c q =>
    exact h.of_slots rfl fun _ hid => shows_modEntry hid (MiEntry.isUserVisible_markHalf q)
  | burn | addMethod | dropMethod | addLine | dropLine | mark | install | unqueue | takeMethod
  | leaveLine | define | load | settled | purge | leaveMethodRec | leaveLineRec | clear
  | report | readStale => exact h.of_slots rfl fun _ => id

/-! ## The line records -/

/-- The line records that an applied entry calls for. -/
def appliedLines (e : Option MiEntry) : List LineKey :=
  if e.any MiEntry.isApplied then lineKeys e else []

/-- The line records the instrument should have. -/
def Ledger.lineRecsOf (L : Ledger) (id : Nat) : List LineKey :=
  match L.flight with
  | some f => if f.id = id then f.recs else appliedLines (L.entry id)
  | none => appliedLines (L.entry id)

theorem lineRecsOf_none (h : L.flight = none) (id : Nat) :
    L.lineRecsOf id = appliedLines (L.entry id) := by
  simp [Ledger.lineRecsOf, h]

theorem lineRecsOf_some {f : Flight} (h : L.flight = some f) (id : Nat) :
    L.lineRecsOf id = if f.id = id then f.recs else appliedLines (L.entry id) := by
  simp [Ledger.lineRecsOf, h]

/-- The line records in the classes are those the entries call for. Those of a class whose
instruments are given up may outlive their instruments. -/
structure Lined (L : Ledger) : Prop where
  lines : ∀ c ci, L.cls c = some ci → ∀ id,
    (ci.lines.filter (·.hasId id)).map (·.key c) = (L.lineRecsOf id).filter (·.cls = c) ∨
      (L.purgingAt c ∧ L.entry id = none)
  classes : ∀ id, ∀ k ∈ L.lineRecsOf id, L.cls k.cls ≠ none

theorem appliedLines_some (e : MiEntry) :
    appliedLines (some e) = if e.isApplied then lineKeys (some e) else [] := rfl

@[simp] theorem appliedLines_none : appliedLines none = [] := rfl

theorem appliedLines_of_not_isApplied {e : MiEntry} (h : e.isApplied = false) :
    appliedLines (some e) = [] := by
  rw [appliedLines_some, if_neg (by simp [h])]

theorem appliedLines_of_isMethodOf {e : MiEntry} {c s : CStr} (h : e.isMethodOf c s = true) :
    appliedLines (some e) = [] := by
  obtain ⟨hc, n, d, hb, -⟩ := MiEntry.isMethodOf_iff.mp h
  obtain ⟨c₀, b⟩ := e
  subst hb
  exact ite_self _

/-- A change that leaves the line records and what they should be. -/
theorem Lined.of_eq (h : Lined L) {L' : Ledger}
    (hcls : ∀ c ci', L'.cls c = some ci' → ∃ ci, L.cls c = some ci ∧ ci'.lines = ci.lines)
    (hmono : ∀ c, L.cls c ≠ none → L'.cls c ≠ none) (hrecs : ∀ id, L'.lineRecsOf id = L.lineRecsOf id)
    (hpurge : ∀ c id, L.purgingAt c → L.entry id = none → L'.purgingAt c ∧ L'.entry id = none) :
    Lined L' := by
  refine ⟨fun c ci' hc id => ?_, fun id k hk => hmono _ (h.classes id k (hrecs id ▸ hk))⟩
  obtain ⟨ci, hci, hl⟩ := hcls c ci' hc
  rw [hl, hrecs]
  exact (h.lines c ci hci id).imp_right fun hp => hpurge c id hp.1 hp.2

/-- With nothing given up, the line records in a class are those its entries call for. -/
theorem Lined.lines_eq (h : Lined L) (hpu : L.purging = false) {c : CStr} {ci : ClassInfo}
    (hc : L.cls c = some ci) (id : Nat) :
    (ci.lines.filter (·.hasId id)).map (·.key c) = (L.lineRecsOf id).filter (·.cls = c) :=
  (h.lines c ci hc id).resolve_right fun hp => by simp [hp.1.1] at hpu

/-- An instrument that enters has no line records yet. -/
theorem Lined.recs_of_entering (h : Lined L) (hC : Coherent L) {f : Flight} (hfl : L.flight = some f)
    (hst : f.stage = .entering) (hpu : L.purging = false) : f.recs = [] := by
  refine List.eq_nil_iff_forall_not_mem.mpr fun k hk => ?_
  have hrecs : L.lineRecsOf f.id = f.recs := by rw [lineRecsOf_some hfl, if_pos rfl]
  obtain ⟨ci, hci⟩ := Option.ne_none_iff_exists'.mp (h.classes f.id k (hrecs ▸ hk))
  have hkeys := h.lines_eq hpu hci f.id
  rw [hrecs, List.filter_eq_nil_iff.mpr fun r hr => by
    simpa [InstrumentedLine.hasId] using hC.entering f hfl hst _ ci hci r hr] at hkeys
  have hmem : k ∈ f.recs.filter (·.cls = k.cls) := List.mem_filter.mpr ⟨hk, by simp⟩
  rw [← hkeys] at hmem
  cases hmem

/-- An act on one entry, when the line records of its instrument are to stay as they are. -/
theorem Lined.setEntry (h : Lined L) {id : Nat} {e : Option MiEntry} {M : Ledger}
    (hcls : M.cls = L.cls) (hentry : M.entry = (L.setEntry id e).entry) (hpu : L.purging = false)
    (hother : ∀ f, L.flight = some f ∨ M.flight = some f → f.id = id)
    (hown : M.lineRecsOf id = L.lineRecsOf id) : Lined M := by
  refine h.of_eq (fun c ci hc => ⟨ci, hcls ▸ hc, rfl⟩) (fun c hc => hcls ▸ hc) (fun id' => ?_)
    (fun c _ hp => by simp [hp.1] at hpu)
  by_cases hid : id' = id
  · exact hid ▸ hown
  · have hL : ∀ L₀ : Ledger, (∀ f, L₀.flight = some f → f.id = id) →
        L₀.lineRecsOf id' = appliedLines (L₀.entry id') := by
      intro L₀ hf₀
      cases hf : L₀.flight with
      | none => exact lineRecsOf_none hf id'
      | some f => rw [lineRecsOf_some hf, if_neg (hf₀ f hf ▸ Ne.symm hid)]
    rw [hL L fun f hf => hother f (.inl hf), hL M fun f hf => hother f (.inr hf), hentry,
      setEntry_entry, if_neg hid]

/-- A line instrument that starts to leave should keep its records for now. -/
theorem Lined.leave (h : Lined L) (hfl : L.flight = none) {f : Flight} {M : Ledger}
    (hentry : M.entry = L.entry) (hflight : M.flight = some f)
    (hcls : ∀ c ci', M.cls c = some ci' → ∃ ci, L.cls c = some ci ∧ ci'.lines = ci.lines)
    (hmono : ∀ c, L.cls c ≠ none → M.cls c ≠ none) (hl : M.loading = L.loading)
    (hp : M.purging = L.purging) (hrecs : f.recs = appliedLines (L.entry f.id)) : Lined M := by
  refine h.of_eq hcls hmono (fun id => ?_) fun c id hpc he => ⟨⟨hp ▸ hpc.1, hl ▸ hpc.2⟩, hentry ▸ he⟩
  rw [lineRecsOf_some hflight, lineRecsOf_none hfl, hentry]
  split
  · next hid => rw [hrecs, hid]
  · rfl

theorem Lined.addLine (h : Lined L) {f : Flight} {k : LineKey} (he : Enabled L (.addLine f k)) :
    Lined (apply L (.addLine f k)) := by
  obtain ⟨hfl, -, hpu, hck, -⟩ := he
  have hfl' : (apply L (.addLine f k)).flight =
      some { f with stage := .recorded, recs := f.recs ++ [k] } := rfl
  have hrecs : ∀ id, (apply L (.addLine f k)).lineRecsOf id =
      if f.id = id then f.recs ++ [k] else L.lineRecsOf id := by
    intro id
    rw [lineRecsOf_some hfl', lineRecsOf_some hfl]
    show (if f.id = id then _ else appliedLines (L.entry id)) = _
    split <;> rfl
  -- the records in flight are the ones that the ledger owes to the instrument
  have hmine : L.lineRecsOf f.id = f.recs := by rw [lineRecsOf_some hfl, if_pos rfl]
  refine ⟨fun c ci' hc id => .inl ?_, fun id k' hk => modCls_ne_none.mpr ?_⟩
  · rw [hrecs]
    rcases modCls_some.mp hc with ⟨rfl, ci, hci, rfl⟩ | ⟨hcc, hci⟩
    · have hold := h.lines_eq hpu hci id
      show List.map _ (List.filter _ (ci.lines ++ [_])) = _
      rw [List.filter_append, List.map_append, hold]
      split
      · next hid =>
        rw [← hid, hmine]
        simp [InstrumentedLine.hasId, InstrumentedLine.key]
      · next hid => simp [InstrumentedLine.hasId, hid]
    · rw [h.lines_eq hpu hci id]
      split
      · next hid => simp [← hid, hmine, Ne.symm hcc]
      · rfl
  · rw [hrecs] at hk
    split at hk
    · next hid =>
      rcases List.mem_append.mp hk with hk | hk
      · exact h.classes f.id k' (hmine ▸ hk)
      · rw [List.mem_singleton.mp hk]
        exact hck
    · exact h.classes id k' hk

theorem Lined.dropLine (h : Lined L) (hS : Slotted L) {f : Flight} {c : CStr} {l : UInt32}
    (he : Enabled L (.dropLine f c l)) (ho : Own L (.dropLine f c l)) :
    Lined (apply L (.dropLine f c l)) := by
  obtain ⟨hfl, -⟩ := he
  have hfirst : L.firstLine c l = some f.id := ho
  have hfl' : (apply L (.dropLine f c l)).flight =
      some { f with recs := f.recs.eraseP fun k => decide (k.cls = c ∧ k.line = l) } := rfl
  have hrecs : ∀ id, (apply L (.dropLine f c l)).lineRecsOf id =
      if f.id = id then f.recs.eraseP fun k => decide (k.cls = c ∧ k.line = l)
      else L.lineRecsOf id := by
    intro id
    rw [lineRecsOf_some hfl', lineRecsOf_some hfl]
    show (if f.id = id then _ else appliedLines (L.entry id)) = _
    split <;> rfl
  have hmine : L.lineRecsOf f.id = f.recs := by rw [lineRecsOf_some hfl, if_pos rfl]
  have hne : ∀ {id}, f.id = id → L.entry id ≠ none := fun hid => hid ▸ (hS.flight f hfl).1
  refine ⟨fun c' ci' hc id => ?_, fun id k hk => modCls_ne_none.mpr ?_⟩
  · rw [hrecs]
    rcases modCls_some.mp hc with ⟨rfl, ci, hci, rfl⟩ | ⟨hcc, hci⟩
    · rw [firstLine, hci, Option.bind_some] at hfirst
      obtain ⟨r, hr, hrid⟩ := Option.map_eq_some_iff.mp hfirst
      refine (h.lines _ ci hci id).imp_left fun hkeys => ?_
      show List.map _ (List.filter _ (ci.lines.eraseP _)) = _
      -- the first record of the line is erased, and it is the one in flight
      rw [Lists.filter_eraseP hr]
      split
      · next hid =>
        have hid' : f.id = id := hrid.symm.trans (by simpa [InstrumentedLine.hasId] using hid)
        rw [if_pos hid']
        rw [← hid', hmine] at hkeys
        rw [Lists.filter_eraseP_of_imp fun k hk => by simp_all, ← hkeys, List.eraseP_map, ← hid']
        rw [Lists.eraseP_congr]
        exact fun r' _ => by simp [InstrumentedLine.hasLine, InstrumentedLine.key]
      · next hid =>
        rw [if_neg (fun h' => hid (by simp [InstrumentedLine.hasId, hrid, h']))]
        exact hkeys
    · refine (h.lines c' ci' hci id).imp_left fun hkeys => hkeys.trans ?_
      split
      · next hid =>
        rw [← hid, hmine, Lists.filter_eraseP_of_disjoint]
        intro k hk
        simp only [decide_eq_true_eq] at hk
        simp [hk.1, Ne.symm hcc]
      · rfl
  · rw [hrecs] at hk
    split at hk
    · exact h.classes f.id k (hmine ▸ List.mem_of_mem_eraseP hk)
    · exact h.classes id k hk

theorem Lined.abandon (h : Lined L) {f : Flight} {ok : Bool} (he : Enabled L (.abandon f ok)) :
    Lined (apply L (.abandon f ok)) := by
  obtain ⟨hfl, -, hrecs⟩ := he
  have hfl' : (apply L (.abandon f ok)).flight = none := rfl
  have hent : ∀ id, (apply L (.abandon f ok)).entry id = if id = f.id then none else L.entry id :=
    fun id => setEntry_entry ..
  have hmine : L.lineRecsOf f.id = f.recs := by rw [lineRecsOf_some hfl, if_pos rfl]
  have hother : ∀ id, id ≠ f.id → (apply L (.abandon f ok)).lineRecsOf id = L.lineRecsOf id := by
    intro id hid
    rw [lineRecsOf_none hfl', hent, if_neg hid, lineRecsOf_some hfl, if_neg (Ne.symm hid)]
  have hgone : (apply L (.abandon f ok)).lineRecsOf f.id = [] := by
    rw [lineRecsOf_none hfl', hent, if_pos rfl, appliedLines_none]
  refine ⟨fun c ci hc id => ?_, fun id k hk => ?_⟩
  · by_cases hid : id = f.id
    · subst hid
      rw [hgone]
      rcases h.lines c ci hc f.id with hkeys | ⟨hp, -⟩
      · rw [hkeys, hmine]
        rcases hrecs with hnil | ⟨hpu, hall⟩
        · exact .inl (by rw [hnil])
        · by_cases hlo : L.loading = some c
          · exact .inr ⟨⟨hpu, hlo⟩, (hent _).trans (if_pos rfl)⟩
          · -- the records left are in the class that is loaded
            refine .inl ?_
            rw [List.filter_nil, List.filter_eq_nil_iff]
            intro k hk
            simp only [decide_eq_true_eq]
            exact fun hkc => (hall k hk).elim (fun h => hlo (hkc ▸ h)) fun h => by
              rw [hkc] at h
              cases h.symm.trans hc
      · exact .inr ⟨hp, (hent _).trans (if_pos rfl)⟩
    · rw [hother id hid]
      exact (h.lines c ci hc id).imp_right fun hp => ⟨hp.1, by rw [hent, if_neg hid]; exact hp.2⟩
  · by_cases hid : id = f.id
    · rw [hid, hgone] at hk
      cases hk
    · exact h.classes id k (hother id hid ▸ hk)

theorem Lined.load (h : Lined L) {ci : ClassInfo} (he : Enabled L (.load ci)) :
    Lined (apply L (.load ci)) := by
  obtain ⟨hfl, -, hpu, -, hnil, -⟩ := he
  have hcls : ∀ c, (apply L (.load ci)).cls c =
      if c = ci.name.cstr then some (loadedClass L ci) else L.cls c := fun c =>
    Function.update_apply ..
  have hrecs : ∀ id, (apply L (.load ci)).lineRecsOf id = L.lineRecsOf id := fun id => by
    rw [lineRecsOf_none hfl, lineRecsOf_none (L := apply L (.load ci)) hfl]
    rfl
  refine ⟨fun c ci' hc id => .inl ?_, fun id k hk => ?_⟩
  · rw [hrecs]
    rw [hcls] at hc
    split at hc
    · next hcc =>
      cases hc
      subst hcc
      unfold loadedClass
      split
      · next old hold => exact h.lines_eq hpu hold id
      · next hold =>
        -- nothing is recorded for a class that is not in the table
        rw [hnil]
        refine (List.filter_eq_nil_iff.mpr fun k hk => ?_).symm
        simp only [decide_eq_true_eq]
        exact fun hkc => h.classes id k hk (hkc ▸ hold)
    · exact h.lines_eq hpu hc id
  · rw [hcls]
    split
    · simp
    · exact h.classes id k (hrecs id ▸ hk)

theorem Lined.clear (h : Lined L) {c : CStr} (he : Enabled L (.clear c)) (ho : Own L (.clear c)) :
    Lined (apply L (.clear c)) := by
  obtain ⟨hfl, -, hlo, -⟩ := he
  have hgone : ∀ ci, L.cls c = some ci → ∀ r ∈ ci.lines, L.entry r.instrumentId = none := ho
  have hrecs : ∀ id, (apply L (.clear c)).lineRecsOf id = L.lineRecsOf id := fun id => by
    rw [lineRecsOf_none hfl, lineRecsOf_none (L := apply L (.clear c)) hfl]
    rfl
  refine ⟨fun c' ci' hc id => .inl ?_, fun id k hk =>
    modCls_ne_none.mpr (h.classes id k (hrecs id ▸ hk))⟩
  rw [hrecs]
  rcases modCls_some.mp hc with ⟨rfl, ci, hci, rfl⟩ | ⟨hcc, hci⟩
  · show [] = _
    rcases h.lines _ ci hci id with hkeys | ⟨-, hnone⟩
    · cases hl : ci.lines.filter (·.hasId id) with
      | nil => rw [← hkeys, hl, List.map_nil]
      | cons r rest =>
        obtain ⟨hr, hid⟩ := List.mem_filter.mp (hl ▸ List.mem_cons_self)
        have hnone := hgone ci hci r hr
        rw [show r.instrumentId = id by simpa [InstrumentedLine.hasId] using hid] at hnone
        rw [lineRecsOf_none hfl, hnone, appliedLines_none, List.filter_nil]
    · rw [lineRecsOf_none hfl, hnone, appliedLines_none, List.filter_nil]
  · exact (h.lines c' ci' hci id).resolve_right fun hp => hcc (Option.some.inj (hp.1.2.symm.trans hlo))

theorem Lined.settle (h : Lined L) {f : Flight} (he : Enabled L (.settle f)) :
    Lined (apply L (.settle f)) := by
  obtain ⟨hfl, -, hpu, hrecs, e, hent, -⟩ := he
  have hfl' : (apply L (.settle f)).flight = none := rfl
  have hmod : (apply L (.settle f)).entry = (L.setEntry f.id (some e.applied)).entry := by
    show (L.modEntry f.id MiEntry.applied).entry = _
    rw [modEntry, hent]
    rfl
  refine h.setEntry rfl hmod hpu (fun f' hf' => ?_) ?_
  · rw [hfl, hfl'] at hf'
    rcases hf' with hf' | hf'
    · cases hf'
      rfl
    · cases hf'
  · rw [lineRecsOf_none hfl', lineRecsOf_some hfl, if_pos rfl, hmod, setEntry_entry, if_pos rfl, hrecs,
      hent, appliedLines_some, MiEntry.lineKeys_applied]
    split
    · rfl
    · next ha =>
      -- only an entry without line records is not applied now
      by_contra hne
      refine ha (MiEntry.applied_isApplied ?_)
      obtain ⟨c, b⟩ := e
      cases b <;> simp_all [lineKeys, MiEntry.isUserVisible]

/-- Every enabled act that takes only what is its own keeps the line records in line. -/
theorem lined_act (h : Lined L) (hC : Coherent L) (hS : Slotted L) {a : Act} (he : Enabled L a)
    (ho : Own L a) : Lined (apply L a) := by
  have hsame : ∀ {g : ClassInfo → ClassInfo} {c : CStr}, (∀ ci, (g ci).lines = ci.lines) →
      ∀ c' ci', (L.modCls c g).cls c' = some ci' → ∃ ci, L.cls c' = some ci ∧ ci'.lines = ci.lines := by
    intro g c hg c' ci' hc'
    rcases modCls_some.mp hc' with ⟨rfl, ci, hci, rfl⟩ | ⟨-, hci⟩
    · exact ⟨ci, hci, hg ci⟩
    · exact ⟨ci', hci, rfl⟩
  have hid : ∀ c ci', L.cls c = some ci' → ∃ ci, L.cls c = some ci ∧ ci'.lines = ci.lines :=
    fun c ci' hc => ⟨ci', hc, rfl⟩
  -- a half that is still queued has no line records
  have hq : ∀ {q : QueuedInstr}, L.flight = none → q ∈ L.queue →
      appliedLines (L.entry q.instrumentId) = [] := by
    intro q hfl hmem
    obtain ⟨e, hent, ha⟩ := not_isApplied_of_mem hC hfl hmem
    rw [hent, appliedLines_of_not_isApplied ha]
  cases a with
  | addLine f k => exact h.addLine he
  | dropLine f c l => exact h.dropLine hS he ho
  | abandon f ok => exact h.abandon he
  | load ci => exact h.load he
  | clear c => exact h.clear he ho
  | settle f => exact h.settle he
  | release r ok => exact absurd ho id
  | hide e =>
    obtain ⟨hfl, hpu, hvis⟩ := he
    refine h.setEntry (M := apply L (.hide e)) rfl rfl hpu (fun f hf => ?_) ?_
    · rcases hf with hf | hf <;> exact absurd (hfl.symm.trans hf) (by simp)
    · rw [lineRecsOf_none hfl, lineRecsOf_none (L := apply L (.hide e)) hfl, hC.entry_nextId,
        appliedLines_none]
      show appliedLines ((L.setEntry L.nextId (some e)).entry L.nextId) = []
      rw [setEntry_entry, if_pos rfl, appliedLines_of_not_isApplied]
      obtain ⟨c, b⟩ := e
      cases b <;> simp_all [MiEntry.isUserVisible, MiEntry.isApplied]
  | start e name =>
    obtain ⟨hfl, -, hpu, -, -⟩ := he
    refine h.setEntry (M := apply L (.start e name)) rfl rfl hpu (fun f hf => ?_) ?_
    · rcases hf with hf | hf
      · exact absurd (hfl.symm.trans hf) (by simp)
      · cases hf
        rfl
    · rw [lineRecsOf_none hfl, hC.entry_nextId, appliedLines_none]
      exact (lineRecsOf_some (L := apply L (.start e name)) rfl _).trans (if_pos rfl)
  | enqueue f qs e =>
    have hnil := h.recs_of_entering hC he.1 he.2.1 he.2.2.1
    obtain ⟨hfl, -, hpu, -, hqs, hkeys, -⟩ := he
    refine h.setEntry (M := apply L (.enqueue f qs e)) rfl rfl hpu (fun f' hf' => ?_) ?_
    · rcases hf' with hf' | hf'
      · rw [hfl] at hf'
        cases hf'
        rfl
      · cases hf'
    · rw [lineRecsOf_some hfl, if_pos rfl, hnil, lineRecsOf_none (L := apply L (.enqueue f qs e)) rfl]
      show appliedLines ((L.setEntry f.id (some e)).entry f.id) = []
      rw [setEntry_entry, if_pos rfl, appliedLines_of_not_isApplied]
      -- an applied entry has no queue records, and the flight has some
      by_contra ha
      rw [MiEntry.queueKeys_of_isApplied (by simpa using ha), List.map_eq_nil_iff] at hkeys
      exact hqs hkeys
  | addMethod f c sig =>
    refine h.of_eq (hsame fun _ => rfl) (fun c' => modCls_ne_none.mpr) (fun id => ?_)
      (fun c' id hp _ => absurd hp.1 (by simp [he.2.2.1]))
    rw [lineRecsOf_some he.1, lineRecsOf_some (L := apply L (.addMethod f c sig)) rfl]
    rfl
  | dropMethod f c s =>
    refine h.of_eq (hsame fun _ => rfl) (fun c' => modCls_ne_none.mpr) (fun id => ?_)
      (fun c' id hp _ => absurd hp.1 (by simp [he.2.2.2.1]))
    rw [lineRecsOf_some he.1, lineRecsOf_some (L := apply L (.dropMethod f c s)) rfl]
    rfl
  | install c ci kept =>
    refine h.of_eq hid (fun _ => id) (fun id => ?_) fun _ _ hp hn => ⟨hp, hn⟩
    cases hf : L.flight with
    | none =>
      rw [lineRecsOf_none hf, lineRecsOf_none (L := apply L (.install c ci kept))]
      · rfl
      · simp [apply, withFlight, hf]
    | some f =>
      rw [lineRecsOf_some hf, lineRecsOf_some (L := apply L (.install c ci kept))
        (f := { f with installed := c :: f.installed })]
      · rfl
      · simp [apply, withFlight, hf]
  | markHalf c q =>
    obtain ⟨-, hfl, hpu, hfind, hline, e, hent, ha⟩ := he
    have hL' : (apply L (.markHalf c q)).flight = none := hfl
    have hmod : (apply L (.markHalf c q)).entry =
        (L.setEntry q.instrumentId (some (q.markHalf e))).entry := by
      show (L.modEntry q.instrumentId q.markHalf).entry = _
      rw [modEntry, hent]
      rfl
    refine h.setEntry (M := apply L (.markHalf c q)) rfl hmod hpu (fun f hf => ?_) ?_
    · rcases hf with hf | hf <;> exact absurd (hfl.symm.trans hf) (by simp)
    · rw [lineRecsOf_none hL', lineRecsOf_none hfl, hq hfl (List.mem_of_find?_eq_some hfind), hmod,
        setEntry_entry, if_pos rfl, appliedLines_of_not_isApplied ha]
  | dequeue c q =>
    obtain ⟨-, hfl, hpu, hfind, e, hent, -⟩ := he
    have hmod : (apply L (.dequeue c q)).entry =
        (L.setEntry q.instrumentId (some (q.markHalf e))).entry := by
      show (L.modEntry q.instrumentId q.markHalf).entry = _
      rw [modEntry, hent]
      rfl
    refine h.setEntry (M := apply L (.dequeue c q)) rfl hmod hpu (fun f hf => ?_) ?_
    · rcases hf with hf | hf
      · exact absurd (hfl.symm.trans hf) (by simp)
      · cases hf
        rfl
    · rw [lineRecsOf_none hfl, hq hfl (List.mem_of_find?_eq_some hfind)]
      exact (lineRecsOf_some (L := apply L (.dequeue c q)) rfl _).trans (if_pos rfl)
  | unqueue id q =>
    have hid' : q.instrumentId = id := by simpa [QueuedInstr.hasId] using List.find?_some he.2.2
    refine h.leave he.1 (M := apply L (.unqueue id q)) rfl rfl hid (fun _ h => h) rfl rfl ?_
    show [] = appliedLines (L.entry id)
    rw [← hid', hq he.1 (List.mem_of_find?_eq_some he.2.2)]
  | takeMethod c s m =>
    obtain ⟨hfl, hpu, ci, hci, hm⟩ := he
    obtain ⟨e, hent, hof, -⟩ := hC.instrumentId_of_find hpu hci hm
    refine h.leave hfl (M := apply L (.takeMethod c s m)) rfl rfl (hsame fun _ => rfl)
      (fun c' => modCls_ne_none.mpr) rfl rfl ?_
    show [] = appliedLines (L.entry m.instrumentId)
    rw [hent, appliedLines_of_isMethodOf hof]
  | leaveLine id e ci =>
    obtain ⟨hfl, -, hent, hready, -⟩ := he
    refine h.leave hfl (M := apply L (.leaveLine id e ci)) rfl rfl hid (fun _ h => h) rfl rfl ?_
    show lineKeys (some e) = appliedLines (L.entry id)
    rw [hent, appliedLines_some, if_pos (MiEntry.isApplied_of_lineIsReady hready)]
  | leaveMethodRec m =>
    obtain ⟨hfl, -, hne, c, ci, -, hci, hm⟩ := he
    obtain ⟨e, s, hent, -, -, hof⟩ := hC.method_of_mem hfl hci hm hne
    refine h.leave hfl (M := apply L (.leaveMethodRec m)) rfl rfl hid (fun _ h => h) rfl rfl ?_
    show [] = appliedLines (L.entry m.instrumentId)
    rw [hent, appliedLines_of_isMethodOf hof]
  | leaveLineRec r =>
    obtain ⟨hfl, -, hne, c, ci, -, hci, hr⟩ := he
    obtain ⟨e, hent⟩ := Option.ne_none_iff_exists'.mp hne
    have ha := ((hC.lines c ci hci r hr).2 e hent).2
    rw [flying_none hfl] at ha
    refine h.leave hfl (M := apply L (.leaveLineRec r)) rfl rfl hid (fun _ h => h) rfl rfl ?_
    show lineKeys (L.entry r.instrumentId) = appliedLines (L.entry r.instrumentId)
    rw [hent, appliedLines_some, if_pos (by simpa using ha)]
  | settled =>
    exact h.of_eq hid (fun _ h => h) (fun _ => rfl) fun _ _ hp _ => absurd hp.1 (by simp [he.2.1])
  | purge => exact h.of_eq hid (fun _ h => h) (fun _ => rfl) fun _ _ hp hn => ⟨⟨rfl, hp.2⟩, hn⟩
  | burn | mark | define | report | readStale =>
    exact h.of_eq hid (fun _ h => h) (fun _ => rfl) fun _ _ hp hn => ⟨hp, hn⟩

end JautoProf
