import JautoProf.RefinesReload

/-!
# The handlers, seen as acts

A request for an instrument adds its entry, creates its profiler, and applies or defers it.
With the other events this makes every step of the server a sequence of enabled acts.

Results:
1. `step_leads`: a step leads from the ledger before it to the ledger after it.
2. `inv_run`, `leads_run`: the invariants hold in every state that a run reaches, and the
   run as a whole is a sequence of acts.
-/

namespace JautoProf

open Prog Ledger Act Vouch

variable {env : Env} {V : Vouch} {w w' : World}

/-! ## Starting an instrument -/

/-- An entry whose profiler could not be created is removed again. -/
theorem burn_leads {L : Ledger} {e : MiEntry} (hI : V.Inv L)
    (hpace : V.paced → V.request ∧ L.nextId = V.base) :
    V.Leads L ((L.insert e).setEntry L.nextId none) := by
  refine (Leads.refl _).snoc (a := .burn) ⟨trivial, fun _ => trivial, fun _ => trivial,
    fun _ => trivial, hpace⟩ ?_
  refine Ledger.ext (funext fun id => ?_) rfl rfl rfl rfl rfl rfl rfl rfl rfl rfl rfl
  show L.entry id = ((L.setEntry L.nextId (some e)).setEntry L.nextId none).entry id
  rw [setEntry_entry, setEntry_entry]
  split
  · next h => exact h ▸ hI.coherent.entry_nextId
  · rfl

/-- An entry is added and its profiler created. -/
theorem start_leads {e : MiEntry} {name : ProfilerName} {w₁ w₂ : World} (hfresh : e.isFresh = true)
    (hdouble : ∀ c s, e.isMethodOf c s = true → ∀ id e', w.entry id = some e' →
      e'.isMethodOf c s = false)
    (hpace : V.paced → V.request ∧ w.ledger.nextId = V.base) (hw₁ : w₁.ledger = w.ledger.insert e)
    (hw₂ : w₂.ledger = { w₁.ledger with
      slots := registryCreate w₁.slots ⟨true, w.masterInstruments.nextId, name⟩ }) :
    V.Leads w.ledger (w₂.ledger.amid w.queuedInstruments (some (enteringFlight
      w.masterInstruments.nextId (registryCreateId w₁.slots))) none false) := by
  have hs : w₁.slots = w.slots := congrArg Ledger.slots hw₁
  refine (Leads.refl _).snoc (a := .start e name) ⟨⟨rfl, rfl, rfl, hfresh, hdouble⟩,
    fun _ => trivial, fun _ => trivial, fun _ => trivial, hpace⟩ ?_
  rw [hw₂, hs, hw₁]
  rfl

/-! ## A method request -/

theorem instrumentLater_run {c s : CStr} {id : Nat} {pid : Int} {st : InstrumentRespStatus}
    (h : instrumentLater env c s id pid w = (st, w')) :
    (st = .deferred ∧ ∃ c' s' : Pstring, c'.cstr = c ∧ s'.cstr = s ∧ w'.ledger = { w.ledger with
        queue := w.queuedInstruments ++ [⟨id, pid, some c', .method (some s')⟩] }) ∨
      (st = .error ∧ w'.ledger = w.ledger.setEntry id none) := by
  obtain ⟨qi, w₁, r₁, h₁⟩ := bind_eq.mp h
  rcases queuedInstrMethodAdd_run r₁ with ⟨rfl, hw₁⟩ | ⟨c', s', hc, hs, rfl, hw₁⟩
  · obtain ⟨_, w₂, r₂, h₂⟩ := bind_eq.mp h₁
    obtain ⟨rfl, rfl⟩ := pure_eq.mp h₂
    exact .inr ⟨rfl, by rw [removeEntry_run r₂, hw₁]⟩
  · -- the record without a string goes again
    have hundo : ∀ {st : InstrumentRespStatus},
        (do modifyQueue fun queue => queuedInstrListRemoveAndDestroy queue (queue.length - 1)
            removeEntry id
            pure .error : M InstrumentRespStatus) w₁ = (st, w') →
        st = .error ∧ w'.ledger = w.ledger.setEntry id none := by
      intro st h
      obtain ⟨_, w₂, r₂, h₂⟩ := bind_eq.mp h
      obtain ⟨_, w₃, r₃, h₃⟩ := bind_eq.mp h₂
      obtain ⟨rfl, rfl⟩ := pure_eq.mp h₃
      have hq : w₁.queuedInstruments = w.queuedInstruments ++ [⟨id, pid, c', .method s'⟩] :=
        congrArg Ledger.queue hw₁
      refine ⟨rfl, ?_⟩
      rw [removeEntry_run r₃, modifyQueue_run r₂, hw₁, hq]
      simp [queuedInstrListRemoveAndDestroy, List.eraseIdx_append_of_length_le, World.ledger]
    cases c' with
    | none => exact .inr (hundo h₁)
    | some c' =>
      cases s' with
      | none => exact .inr (hundo h₁)
      | some s' =>
        obtain ⟨rfl, rfl⟩ := pure_eq.mp h₁
        exact .inl ⟨rfl, c', s', hc c' rfl, hs s' rfl, hw₁⟩

/-- A method request whose entry is in the master table: given up without a profiler, else an
attempt when the class is loaded, and queued, or given up for want of memory, when it is not. -/
theorem instrumentAdded_run {c s : CStr} {id : Nat} {e : MiEntry} {st : InstrumentRespStatus}
    (h : instrumentAdded env c s id id w = (st, w')) (he : w.entry id = some e) :
    st = .error ∧ w'.ledger = w.ledger.setEntry id none ∨
      ∃ w₁, w₁.ledger = { w.ledger with
          slots := registryCreate w.slots
            ⟨true, id, .method e.entryClassName.cstr e.methodName.cstr⟩ } ∧
        (w.cls c ≠ none ∧ instrumentNow env c id (registryCreateId w.slots) w₁ = (st, w') ∨
          w.cls c = none ∧
            ((st = .deferred ∧ ∃ c' s' : Pstring, c'.cstr = c ∧ s'.cstr = s ∧
                w'.ledger = { w₁.ledger with queue := w₁.queuedInstruments ++
                  [⟨id, registryCreateId w.slots, some c', .method (some s')⟩] }) ∨
              (st = .error ∧ ∃ ok, (RemoveOk env → ok = true) ∧ w'.ledger =
                (w₁.ledger.setEntry id none).release (registryCreateId w.slots) ok))) := by
  obtain ⟨pid, w₁, r₁, h₁⟩ := bind_eq.mp h
  rcases jniCreate_run (createProfilerForMethod_run r₁ he) with ⟨rfl, hw₁⟩ | ⟨rfl, hw₁⟩
  · obtain ⟨_, w₂, r₂, h₂⟩ := bind_eq.mp h₁
    obtain ⟨rfl, rfl⟩ := pure_eq.mp h₂
    exact .inl ⟨rfl, by rw [removeEntry_run r₂, hw₁]⟩
  · rw [if_neg (by omega)] at h₁
    obtain ⟨info, w₂, r₂, h₂⟩ := bind_eq.mp h₁
    obtain ⟨rfl, rfl⟩ := read_eq.mp r₂
    have hcls : w₁.cls c = w.cls c := congrFun (congrArg Ledger.cls hw₁) c
    refine .inr ⟨w₁, hw₁, ?_⟩
    rw [hcls] at h₂
    cases hci : w.cls c with
    | some ci =>
      simp only [hci] at h₂
      exact .inl ⟨nofun, h₂⟩
    | none =>
      simp only [hci] at h₂
      obtain ⟨st', w₃, r₃, h₃⟩ := bind_eq.mp h₂
      obtain ⟨_, w₄, r₄, h₄⟩ := bind_eq.mp h₃
      obtain ⟨rfl, rfl⟩ := pure_eq.mp h₄
      refine .inr ⟨rfl, ?_⟩
      rcases instrumentLater_run r₃ with ⟨rfl, hqueued⟩ | ⟨rfl, hw₃⟩
      · cases r₄
        exact .inl ⟨rfl, hqueued⟩
      · obtain ⟨ok, hok, hw'⟩ := jniRemoveProfiler_run r₄
        exact .inr ⟨rfl, ok, hok, hw₃ ▸ hw'⟩

/-- A method request, from where the entry is in the master table. -/
theorem instrumentAdded_leads {c s : CStr} {e : MiEntry} {w₁ : World} {st : InstrumentRespStatus}
    (h : instrumentAdded env c s w.masterInstruments.nextId w.masterInstruments.nextId w₁ = (st, w'))
    (hw₁ : w₁.ledger = w.ledger.insert e) (hI : V.Inv w.ledger) (hof : e.isMethodOf c s = true)
    (hfresh : e.isFresh = true)
    (hnone : ∀ id e', w.entry id = some e' → e'.isMethodOf c s = false)
    (hpace : V.paced → V.request ∧ w.ledger.nextId = V.base)
    (hr : V.removed → RemoveOk env) : V.Leads w.ledger w'.ledger := by
  have he₁ := entry_of_insert hw₁
  obtain ⟨hm, hc, hs⟩ := methodName_of_isMethodOf hof
  rcases instrumentAdded_run h he₁ with ⟨rfl, hw'⟩ | ⟨w₂, hw₂, hrun⟩
  · rw [hw', hw₁]
    -- without a profiler the entry goes again, and only its id is used up
    exact burn_leads hI hpace
  have hdouble : ∀ c' s', e.isMethodOf c' s' = true → ∀ id e', w.entry id = some e' →
      e'.isMethodOf c' s' = false := by
    intro c' s' hof' id e' he'
    obtain ⟨-, hc', hs'⟩ := methodName_of_isMethodOf hof'
    rw [← hc', ← hs', hc, hs]
    exact hnone id e' he'
  have hstart := start_leads (V := V) hfresh hdouble hpace hw₁ hw₂
  have he₂ : w₂.entry w.masterInstruments.nextId = some e :=
    (congrFun (congrArg Ledger.entry hw₂) _).trans he₁
  have hcls₂ : w₂.cls = w₁.cls := congrArg Ledger.cls hw₂
  have hq₂ : w₂.queuedInstruments = w.queuedInstruments :=
    (congrArg Ledger.queue hw₂).trans (congrArg Ledger.queue hw₁)
  rcases hrun with ⟨hci, h₂⟩ | ⟨hci, ⟨rfl, c', s', rfl, rfl, hw'⟩ | ⟨rfl, ok, hok, hw'⟩⟩
  · have hq' : w'.queuedInstruments = w.queuedInstruments :=
      (congrArg Prod.fst ((backlog_instrumentNow env c _ _).run h₂)).trans hq₂
    have hnow := instrumentNow_leads (V := V) (Q := w.queuedInstruments) (o := none) h₂ he₂ hof
      (hcls₂ ▸ hci) hr
    have hend : w'.ledger = w'.ledger.amid w.queuedInstruments none none false := by
      rw [← hq']
      rfl
    rw [hend]
    exact hstart.trans (hnow.elim (·.2) (·.2.leads))
  · -- the class is not loaded: the flight ends in the queue
    refine hstart.snoc (a := .enqueue (enteringFlight _ _) [⟨w.masterInstruments.nextId,
      registryCreateId w₁.slots, some c', .method (some s')⟩] e)
      (.plain ⟨rfl, rfl, rfl, ⟨e, he₂, rfl⟩, List.cons_ne_nil _ _, ?_, fun q hq => ?_⟩ rfl) ?_
    · obtain ⟨-, n, d, hb, hn⟩ := MiEntry.isMethodOf_iff.mp hof
      obtain ⟨c₀, b⟩ := e
      subst hb
      obtain rfl : d = true := hfresh
      exact congrArg₂ (fun x y => [(⟨some x, .method (some y)⟩ : QueueKey)]) hc.symm hn.symm
    · rw [List.mem_singleton.mp hq]
      refine ⟨rfl, rfl, fun c₀ hc₀ => ?_⟩
      have hcc : c'.cstr = c₀ := by simpa [QueuedInstr.hasClass] using hc₀
      exact hcc ▸ (congrFun hcls₂ _).trans hci
    · rw [hw', hq₂]
      have hent := congrArg Ledger.entry (setEntry_of_eq (L := w₂.ledger) he₂)
      exact Ledger.ext hent rfl rfl rfl rfl rfl rfl rfl rfl rfl rfl rfl
  · -- the record could not be queued
    refine hstart.snoc (a := .abandon (enteringFlight _ _) ok)
      (.abandon ⟨rfl, (by simp), .inl rfl⟩ fun hv => hok (hr hv)) ?_
    rw [hw', ← hq₂]
    rfl

theorem ihInstrumentMethod_leads {c s : CStr} {r : InstrumentRespStatus × Nat}
    (h : ihInstrumentMethod env c s w = (r, w')) (hI : V.Inv w.ledger)
    (hpace : V.paced → V.request ∧ w.ledger.nextId = V.base)
    (hr : V.removed → RemoveOk env) : V.Leads w.ledger w'.ledger := by
  obtain ⟨added, w₁, r₁, h₁⟩ := bind_eq.mp h
  obtain ⟨found, w₂, r₂, h₂⟩ := bind_eq.mp r₁
  obtain ⟨rfl, rfl⟩ := read_eq.mp r₂
  rcases miFindMethodByName_cases w.masterInstruments c s with ⟨id, e, hf, -, -⟩ | ⟨hf, hnone⟩
  · rw [hf] at h₂
    cases h₂
    cases h₁
    exact .refl _
  · rw [hf] at h₂
    obtain ⟨miv, w₃, r₃, h₃⟩ := bind_eq.mp h₂
    obtain ⟨rfl, rfl⟩ := pure_eq.mp h₃
    rcases miAddMethod_run r₃ with ⟨rfl, hw₃⟩ | ⟨c', m', rfl, rfl, rfl, hw₃⟩
    · cases h₁
      exact .of_eq hw₃.symm
    · have hpos : w.masterInstruments.nextId ≠ 0 := w.masterInstruments.nextId_pos.ne'
      simp only [hpos, ↓reduceIte] at h₁
      obtain ⟨st, w₄, r₄, h₄⟩ := bind_eq.mp h₁
      obtain ⟨rfl, rfl⟩ := pure_eq.mp h₄
      exact instrumentAdded_leads r₄ hw₃ hI (by simp [MiEntry.isMethodOf]) rfl hnone hpace hr

/-! ## A line request -/

/-- A half is queued under its key, or marked. -/
theorem queueHalf_run {queue : Bool} {c : CStr} {pid : Int} {id : Nat} {body : QiBody}
    {g : MiEntry → MiEntry} {b : Bool} (h : queueHalf env queue c pid id body g w = (b, w'))
    (hline : ∀ cn, QueuedInstr.isLine ⟨id, pid, cn, body⟩ = true) :
    ∃ qs : List QueuedInstr, w'.ledger =
        { w.ledger.modEntry id (if queue then fun e => e else g) with
          queue := w.queuedInstruments ++ qs } ∧
      (∀ q ∈ qs, q.instrumentId = id ∧ q.profilerId = pid ∧ q.isLine = true) ∧ qs.length ≤ 1 ∧
      (b = true → if queue then ∃ cn : Pstring, cn.cstr = c ∧ qs = [⟨id, pid, some cn, body⟩]
        else qs = []) := by
  cases queue with
  | false =>
    obtain ⟨_, w₁, r₁, h₁⟩ := bind_eq.mp h
    obtain ⟨rfl, rfl⟩ := pure_eq.mp h₁
    refine ⟨[], ?_, nofun, Nat.zero_le _, fun _ => rfl⟩
    rw [modifyEntry_run r₁, List.append_nil]
    rfl
  | true =>
    obtain ⟨qi, w₁, r₁, h₁⟩ := bind_eq.mp h
    obtain ⟨rfl, rfl⟩ := pure_eq.mp h₁
    rw [if_pos rfl, modEntry_of_fixed fun _ _ => rfl]
    rcases queuedInstrLineAdd_run r₁ with ⟨rfl, hw₁⟩ | ⟨c', hc', rfl, hw₁⟩
    · exact ⟨[], by rw [hw₁, List.append_nil]; rfl, nofun, Nat.zero_le _, nofun⟩
    · refine ⟨_, hw₁, fun q hq => ?_, Nat.le_refl _, fun hb => ?_⟩
      · rw [List.mem_singleton.mp hq]
        exact ⟨rfl, rfl, hline c'⟩
      · obtain ⟨cn, rfl⟩ := Option.isSome_iff_exists.mp hb
        exact ⟨cn, hc' cn rfl, rfl⟩

/-- The records that were just queued for an instrument are all that goes. -/
theorem removeQueuedInstrById_append {Q qs : List QueuedInstr} {id : Nat}
    (hQ : ∀ q ∈ Q, q.instrumentId ≠ id) (hqs : ∀ q ∈ qs, q.instrumentId = id ∧ q.isLine = true)
    (hlen : qs.length ≤ 2) : removeQueuedInstrById (Q ++ qs) id = Q := by
  have hQ' : ∀ q ∈ Q, q.hasId id = false := fun q hq => by simp [QueuedInstr.hasId, hQ q hq]
  have hfind : Q.find? (·.hasId id) = none :=
    List.find?_eq_none.mpr fun q hq => by simp [hQ' q hq]
  have herase : ∀ l : List QueuedInstr, (Q ++ l).eraseP (·.hasId id) = Q ++ l.eraseP (·.hasId id) :=
    fun l => List.eraseP_append_right l fun q hq => by simp [hQ' q hq]
  rw [removeQueuedInstrById_eq, List.find?_append, hfind, Option.none_or]
  cases qs with
  | nil => exact List.append_nil Q
  | cons q qs =>
    obtain ⟨hid, hl⟩ := hqs q List.mem_cons_self
    have hq : q.hasId id = true := by simp [QueuedInstr.hasId, hid]
    cases qs with
    | nil => simpa [hq, hl, herase] using hQ'
    | cons q' rest =>
      obtain rfl : rest = [] := by simpa using hlen
      have hq' : q'.hasId id = true := by
        simp [QueuedInstr.hasId, (hqs q' (List.mem_cons_of_mem _ List.mem_cons_self)).1]
      simp [hq, hq', hl, herase]

/-- The flags of a line instrument after its halves are queued. -/
def laterLine (c x : Pstring) (l l' : UInt32) (entryLoaded exitLoaded : Bool) : MiEntry :=
  ⟨c, .line x l l' (!entryLoaded) (!exitLoaded && !decide (c.cstr = x.cstr))⟩

/-- Both halves are queued or marked, or the instrument is gone. -/
theorem instrumentLaterLine_run {c x : Pstring} {l l' : UInt32} {id : Nat} {pid : Int}
    {entryLoaded exitLoaded : Bool} {st : InstrumentRespStatus}
    (h : instrumentLaterLine env id pid id entryLoaded exitLoaded w = (st, w'))
    (he : w.entry id = some ⟨c, .line x l l' true true⟩)
    (hQ : ∀ q ∈ w.queuedInstruments, q.instrumentId ≠ id) :
    (st = .deferred ∧ ∃ qs : List QueuedInstr,
        w'.ledger = { w.ledger.setEntry id (some (laterLine c x l l' entryLoaded exitLoaded)) with
          queue := w.queuedInstruments ++ qs } ∧
        qs.map QueuedInstr.key = queueKeys (some (laterLine c x l l' entryLoaded exitLoaded)) ∧
        ∀ q ∈ qs, q.instrumentId = id ∧ q.profilerId = pid) ∨
      (st = .error ∧ w'.ledger = w.ledger.setEntry id none) := by
  obtain ⟨e₁, w₁, r₁, h₁⟩ := bind_eq.mp h
  obtain ⟨rfl, rfl⟩ := deref_run r₁ he
  obtain ⟨entryOk, w₂, r₂, h₂⟩ := bind_eq.mp h₁
  obtain ⟨qs, hw₂, hqs, hlen, hok⟩ := queueHalf_run r₂ fun _ => rfl
  have hq₂ : w₂.queuedInstruments = w₁.queuedInstruments ++ qs := congrArg Ledger.queue hw₂
  have he₂ : w₂.entry id = some ⟨c, .line x l l' (!entryLoaded) true⟩ := by
    rw [show w₂.entry = _ from congrArg Ledger.entry hw₂]
    refine (modEntry_entry ..).trans ((if_pos rfl).trans ?_)
    rw [show w₁.ledger.entry id = _ from he]
    cases entryLoaded <;> rfl
  obtain ⟨e₃, w₃, r₃, h₃⟩ := bind_eq.mp h₂
  obtain ⟨rfl, rfl⟩ := deref_run r₃ he₂
  obtain ⟨exitOk, w₄, r₄, h₄⟩ := bind_eq.mp h₃
  -- what undoes the records queued so far
  have hundo : ∀ {qs' : List QueuedInstr} {w₅ : World} {g : MiEntry → MiEntry}, w₅.ledger =
      { w₁.ledger.modEntry id g with queue := w₁.queuedInstruments ++ qs' } →
      (∀ q ∈ qs', q.instrumentId = id ∧ q.isLine = true) → qs'.length ≤ 2 →
      (do modifyQueue (removeQueuedInstrById · id)
          removeEntry id
          pure .error : M InstrumentRespStatus) w₅ = (st, w') →
      st = .error ∧ w'.ledger = w₁.ledger.setEntry id none := by
    intro qs' w₅ g hw₅ hqs' hlen' h
    obtain ⟨_, w₆, r₆, h₆⟩ := bind_eq.mp h
    obtain ⟨_, w₇, r₇, h₇⟩ := bind_eq.mp h₆
    obtain ⟨rfl, rfl⟩ := pure_eq.mp h₇
    have hq₅ : w₅.queuedInstruments = w₁.queuedInstruments ++ qs' := congrArg Ledger.queue hw₅
    refine ⟨rfl, ?_⟩
    rw [removeEntry_run r₇, modifyQueue_run r₆, hq₅, removeQueuedInstrById_append hQ hqs' hlen', hw₅,
      ← modEntry_setEntry (L := w₁.ledger) id g]
    rfl
  cases entryOk with
  | false =>
    cases r₄
    exact .inr (hundo hw₂ (fun q hq => ⟨(hqs q hq).1, (hqs q hq).2.2⟩) (by omega) h₄)
  | true =>
    rw [if_pos rfl] at r₄
    obtain ⟨qs', hw₄, hqs', hlen', hok'⟩ := queueHalf_run r₄ fun _ => rfl
    have hw₄' : w₄.ledger = { w₁.ledger.modEntry id fun e =>
        (if !exitLoaded && !decide (c.cstr = x.cstr) then fun e => e else .lineExitApplied)
          ((if !entryLoaded then fun e => e else .lineEntryApplied) e) with
        queue := w₁.queuedInstruments ++ (qs ++ qs') } := by
      rw [hw₄, hq₂, hw₂, List.append_assoc]
      exact congrArg (fun L : Ledger => { L with queue := w₁.queuedInstruments ++ (qs ++ qs') })
        (modEntry_modEntry (L := w₁.ledger) id _ _)
    have hmem : ∀ q ∈ qs ++ qs', q.instrumentId = id ∧ q.profilerId = pid ∧ q.isLine = true :=
      fun q hq => (List.mem_append.mp hq).elim (hqs q) (hqs' q)
    cases exitOk with
    | false =>
      exact .inr (hundo hw₄' (fun q hq => ⟨(hmem q hq).1, (hmem q hq).2.2⟩)
        (by rw [List.length_append]; omega) h₄)
    | true =>
      obtain ⟨rfl, rfl⟩ := pure_eq.mp h₄
      refine .inl ⟨rfl, qs ++ qs', ?_, ?_, fun q hq => ⟨(hmem q hq).1, (hmem q hq).2.1⟩⟩
      · rw [hw₄', modEntry_of_some (L := w₁.ledger) he]
        have hlater : laterLine c x l l' entryLoaded exitLoaded =
            (if !exitLoaded && !decide (c.cstr = x.cstr) then fun e => e else .lineExitApplied)
              ((if !entryLoaded then fun e => e else .lineEntryApplied)
                ⟨c, .line x l l' true true⟩) := by
          cases entryLoaded <;> cases hx : !exitLoaded && !decide (c.cstr = x.cstr) <;>
            simp [laterLine, hx, MiEntry.lineExitApplied, MiEntry.lineEntryApplied]
        rw [hlater]
      · rw [List.map_append]
        refine congrArg₂ (· ++ ·) ?_ ?_
        · have hone := hok rfl
          cases entryLoaded with
          | false =>
            obtain ⟨cn, hcn, rfl⟩ := hone
            exact congrArg (fun c => [(⟨some c, .lineEnter l⟩ : QueueKey)]) hcn
          | true =>
            obtain rfl : qs = [] := hone
            rfl
        · have hone : if !exitLoaded && !decide (c.cstr = x.cstr) then
              ∃ cn : Pstring, cn.cstr = x.cstr ∧ qs' = [⟨id, pid, some cn, .lineExit l'⟩]
            else qs' = [] := hok' rfl
          split at hone
          · next hx =>
            obtain ⟨cn, hcn, rfl⟩ := hone
            rw [if_pos hx]
            exact congrArg (fun c => [(⟨some c, .lineExit l'⟩ : QueueKey)]) hcn
          · next hx =>
            rw [hone, if_neg hx]
            rfl

/-- What is queued is queued for a class that is not loaded. -/
theorem laterLine_absent {c x : Pstring} {l l' : UInt32} {cls : CStr → Option ClassInfo}
    {q : QueuedInstr} {c' : CStr}
    (hq : q.key ∈ queueKeys (some (laterLine c x l l' (cls c.cstr).isSome (cls x.cstr).isSome)))
    (hc : q.hasClass c' = true) : cls c' = none := by
  have hcn : q.key.cls = some c' := by simpa [QueuedInstr.hasClass, QueuedInstr.key] using hc
  simp only [queueKeys, laterLine, List.mem_append] at hq
  rcases hq with hq | hq
  · split at hq
    · next hd =>
      rw [List.mem_singleton.mp hq] at hcn
      cases hcn
      simpa using hd
    · cases hq
  · split at hq
    · next hd =>
      rw [List.mem_singleton.mp hq] at hcn
      cases hcn
      simp only [Bool.and_eq_true, Bool.not_eq_true', Option.isSome_eq_false_iff,
        Option.isNone_iff_eq_none] at hd
      exact hd.1
    · cases hq

theorem backlog_instrumentLineNow (env : Env) (cE cX : CStr) (id : Nat) (pid : Int) :
    Keeps World.backlog (instrumentLineNow env cE cX id pid id) := by
  refine Keeps.bind (backlog_populateClassInfoLine env cE cX id pid) fun _ => Keeps.ite ?_ ?_
  · exact Keeps.bind (backlog_performInstrumentationLine env cE cX id pid) fun _ => Keeps.pure _
  · exact Keeps.bind (backlog_jniRemoveProfiler env pid) fun _ => Keeps.bind (fun _ => rfl) fun _ =>
      Keeps.pure _

/-- A line request whose profiler is created: an attempt when both classes are loaded, else
queued, or given up for want of memory. -/
theorem instrumentLineCreated_run {c x : Pstring} {l l' : UInt32} {id : Nat} {pid : Int}
    {st : InstrumentRespStatus}
    (h : instrumentLineCreated env c.cstr x.cstr id pid id w = (st, w'))
    (he : w.entry id = some ⟨c, .line x l l' true true⟩)
    (hQ : ∀ q ∈ w.queuedInstruments, q.instrumentId ≠ id) :
    ((w.cls c.cstr).isSome ∧ (w.cls x.cstr).isSome) ∧
        instrumentLineNow env c.cstr x.cstr id pid id w = (st, w') ∨
      ¬((w.cls c.cstr).isSome ∧ (w.cls x.cstr).isSome) ∧
        ((st = .deferred ∧ ∃ qs : List QueuedInstr, w'.ledger =
            { w.ledger.setEntry id (some (laterLine c x l l' (w.cls c.cstr).isSome
                (w.cls x.cstr).isSome)) with
              queue := w.queuedInstruments ++ qs } ∧
            qs.map QueuedInstr.key = queueKeys (some (laterLine c x l l' (w.cls c.cstr).isSome
              (w.cls x.cstr).isSome)) ∧
            ∀ q ∈ qs, q.instrumentId = id ∧ q.profilerId = pid) ∨
          (st = .error ∧ ∃ ok, (RemoveOk env → ok = true) ∧
            w'.ledger = (w.ledger.setEntry id none).release pid ok)) := by
  obtain ⟨iE, w₁, r₁, h₁⟩ := bind_eq.mp h
  obtain ⟨rfl, rfl⟩ := read_eq.mp r₁
  obtain ⟨iX, w₂, r₂, h₂⟩ := bind_eq.mp h₁
  obtain ⟨rfl, rfl⟩ := read_eq.mp r₂
  split at h₂
  · next hfound => exact .inl ⟨hfound, h₂⟩
  · next hfound =>
    obtain ⟨st', w₃, r₃, h₃⟩ := bind_eq.mp h₂
    obtain ⟨_, w₄, r₄, h₄⟩ := bind_eq.mp h₃
    obtain ⟨rfl, rfl⟩ := pure_eq.mp h₄
    refine .inr ⟨hfound, ?_⟩
    rcases instrumentLaterLine_run r₃ he hQ with ⟨rfl, hqueued⟩ | ⟨rfl, hw₃⟩
    · cases r₄
      exact .inl ⟨rfl, hqueued⟩
    · obtain ⟨ok, hok, hw'⟩ := jniRemoveProfiler_run r₄
      exact .inr ⟨rfl, ok, hok, hw₃ ▸ hw'⟩

/-- A line request, from where its profiler is created. -/
theorem instrumentLineCreated_leads {c x : Pstring} {l l' : UInt32} {id : Nat} {pid : Int}
    {st : InstrumentRespStatus}
    (h : instrumentLineCreated env c.cstr x.cstr id pid id w = (st, w'))
    (he : w.entry id = some ⟨c, .line x l l' true true⟩)
    (hQ : ∀ q ∈ w.queuedInstruments, q.instrumentId ≠ id)
    (hown : V.own → (w.cls c.cstr).isSome = true → (w.cls x.cstr).isSome = true →
      attemptOwn env w ⟨c, .line x l l' true true⟩ id pid = true)
    (hr : V.removed → RemoveOk env) :
    V.Leads (w.ledger.amid w.queuedInstruments (some (enteringFlight id pid)) none false)
      w'.ledger := by
  rcases instrumentLineCreated_run h he hQ with
    ⟨hfound, h₁⟩ | ⟨hfound, ⟨rfl, qs, hw', hkeys, hqs⟩ | ⟨rfl, ok, hok, hw'⟩⟩
  · have hnow := instrumentLineNow_leads (V := V) (e := ⟨c, .line x l l' true true⟩)
      (Q := w.queuedInstruments) (o := none) h₁ he (List.cons_ne_nil _ _)
      (Option.isSome_iff_ne_none.mp hfound.1) (Option.isSome_iff_ne_none.mp hfound.2)
      (fun hv => hown hv hfound.1 hfound.2) hr
    have hq' : w'.queuedInstruments = w.queuedInstruments :=
      congrArg Prod.fst ((backlog_instrumentLineNow env c.cstr x.cstr id pid).run h₁)
    have hend : w'.ledger = w'.ledger.amid w.queuedInstruments none none false := by
      rw [← hq']
      rfl
    rw [hend]
    exact hnow.elim (·.2) (·.2.leads)
  · refine (Leads.refl _).snoc (a := .enqueue (enteringFlight id pid) qs
      (laterLine c x l l' (w.cls c.cstr).isSome (w.cls x.cstr).isSome))
      (.plain ⟨rfl, rfl, rfl, ⟨_, he, rfl⟩, ?_, hkeys, fun q hq => ⟨(hqs q hq).1, (hqs q hq).2,
        fun c' hc' => ?_⟩⟩ rfl) ?_
    · -- one of the classes is missing, so one half is queued
      rintro rfl
      refine hfound ?_
      have hnil := hkeys.symm
      by_cases hcc : c.cstr = x.cstr
      · simpa [queueKeys, laterLine, hcc, Option.isSome_iff_ne_none] using hnil
      · simpa [queueKeys, laterLine, hcc, Option.isSome_iff_ne_none] using hnil
    · exact laterLine_absent (hkeys ▸ List.mem_map_of_mem hq) hc'
    · rw [hw']
      rfl
  · refine (Leads.refl _).snoc (a := .abandon (enteringFlight id pid) ok)
      (.abandon ⟨rfl, (by simp), .inl rfl⟩ fun hv => hok (hr hv)) ?_
    rw [hw']
    rfl

theorem ihInstrumentLine_leads {c x : Pstring} {l l' : UInt32} {r : InstrumentRespStatus × Nat}
    (h : ihInstrumentLine env c x l l' w = (r, w')) (hI : V.Inv w.ledger)
    (hown : V.own → stepOwn env w (.instrumentLine c x l l') = true)
    (hpace : V.paced → V.request ∧ w.ledger.nextId = V.base)
    (hr : V.removed → RemoveOk env) : V.Leads w.ledger w'.ledger := by
  obtain ⟨miv, w₁, r₁, h₁⟩ := bind_eq.mp h
  rcases miAddLinep_run r₁ with ⟨rfl, hw₁⟩ | ⟨rfl, hw₁⟩
  · cases h₁
    exact .of_eq hw₁.symm
  · have hpos : w.masterInstruments.nextId ≠ 0 := w.masterInstruments.nextId_pos.ne'
    simp only [hpos, ↓reduceIte] at h₁
    obtain ⟨pid, w₂, r₂, h₂⟩ := bind_eq.mp h₁
    rcases jniCreate_run r₂ with ⟨rfl, hw₂⟩ | ⟨rfl, hw₂⟩
    · obtain ⟨_, w₃, r₃, h₃⟩ := bind_eq.mp h₂
      obtain ⟨rfl, rfl⟩ := pure_eq.mp h₃
      rw [removeEntry_run r₃, hw₂, hw₁]
      exact burn_leads hI hpace
    · rw [if_neg (by omega)] at h₂
      obtain ⟨st, w₃, r₃, h₃⟩ := bind_eq.mp h₂
      obtain ⟨rfl, rfl⟩ := pure_eq.mp h₃
      have hstart := start_leads (V := V) (e := ⟨c, .line x l l' true true⟩) rfl nofun hpace
        hw₁ hw₂
      have hq₂ : w₂.queuedInstruments = w.queuedInstruments :=
        (congrArg Ledger.queue hw₂).trans (congrArg Ledger.queue hw₁)
      have he₂ : w₂.entry w.masterInstruments.nextId = some ⟨c, .line x l l' true true⟩ :=
        (congrFun (congrArg Ledger.entry hw₂) _).trans (entry_of_insert hw₁)
      rw [← hq₂] at hstart
      refine hstart.trans (instrumentLineCreated_leads r₃ he₂ (fun q hq heq => ?_)
        (fun hv hE hX => ?_) hr)
      · have hlt : q.instrumentId < w.masterInstruments.nextId :=
          carries_lt hI.coherent
          (.inl ⟨q, show q ∈ w.queuedInstruments from hq₂ ▸ hq, rfl, rfl⟩)
        omega
      · -- where both classes are loaded the condition is the one on the attempt
        have hmeets := hown hv
        have hnn : ¬ (registryCreateId w₁.slots : Int) < 0 := by omega
        simpa [stepOwn, lineRequestOwn, result, final, r₁, r₂, hpos, hnn, hE, hX, he₂] using hmeets

/-! ## Every step -/

theorem miAddVarBind_leads {c n : CStr} {l : UInt32} {v : MiVal}
    (h : miAddVarBind env c n l w = (v, w'))
    (hpace : V.paced → V.request ∧ w.ledger.nextId = V.base) : V.Leads w.ledger w'.ledger := by
  rcases miAddVarBind_run h with ⟨-, hw⟩ | ⟨e, he, -, hw⟩
  · exact .of_eq hw.symm
  · refine (Leads.refl _).snoc (a := .hide e) ⟨⟨rfl, rfl, he⟩, fun _ => trivial, fun _ => trivial,
      fun _ => trivial, hpace⟩ ?_
    rw [hw]
    rfl

/-- What `V` vouches for holds of the step. -/
structure Vouch.Backs (V : Vouch) (env : Env) (w : World) (ev : Event) : Prop where
  own : V.own → stepOwn env w ev = true
  removed : V.removed → RemoveOk env
  live : V.live → stepLive env w ev = true
  request : V.paced → (ev.takesId = true → V.request) ∧ (ev.loadsClass = true → ¬ V.request)
  base : V.paced → w.masterInstruments.nextId = V.base

/-- A step of the server is a sequence of enabled acts. -/
theorem step_leads {ev : Event} (hI : V.Inv w.ledger) (hV : V.Backs env w ev) :
    V.Leads w.ledger (step env w ev).ledger := by
  obtain ⟨r, w', h⟩ : ∃ r w', handle env ev w = (r, w') := ⟨_, _, rfl⟩
  have hstep : step env w ev = w' := congrArg Prod.snd h
  rw [hstep]
  obtain ⟨hown, hr, hlive, hrequest, hbase⟩ := hV
  have hpace : ev.takesId = true → V.paced → V.request ∧ w.ledger.nextId = V.base :=
    fun hid hv => ⟨(hrequest hv).1 hid, hbase hv⟩
  cases ev with
  | classLoaded name bytecode loader =>
    obtain ⟨_, w₁, r₁, h₁⟩ := bind_eq.mp h
    obtain ⟨rfl, rfl⟩ := pure_eq.mp h₁
    exact handleClassLoaded_leads r₁ hI hown hlive (fun hv => (hrequest hv).2 rfl) hr
  | instrumentMethod c s =>
    obtain ⟨_, w₁, r₁, h₁⟩ := bind_eq.mp h
    obtain ⟨rfl, rfl⟩ := pure_eq.mp h₁
    exact ihInstrumentMethod_leads r₁ hI (hpace rfl) hr
  | instrumentLine c x l l' =>
    obtain ⟨_, w₁, r₁, h₁⟩ := bind_eq.mp h
    obtain ⟨rfl, rfl⟩ := pure_eq.mp h₁
    exact ihInstrumentLine_leads r₁ hI hown (hpace rfl) hr
  | deinstrumentMethod c s =>
    obtain ⟨_, w₁, r₁, h₁⟩ := bind_eq.mp h
    obtain ⟨rfl, rfl⟩ := pure_eq.mp h₁
    exact ihDeinstrumentMethod_leads r₁ hI hr
  | deinstrumentById id =>
    obtain ⟨_, w₁, r₁, h₁⟩ := bind_eq.mp h
    obtain ⟨rfl, rfl⟩ := pure_eq.mp h₁
    exact ihDeinstrumentById_leads r₁ hI hown hr
  | listInstruments =>
    cases h
    exact .refl _
  | addVarBind c n l =>
    obtain ⟨_, w₁, r₁, h₁⟩ := bind_eq.mp h
    obtain ⟨rfl, rfl⟩ := pure_eq.mp h₁
    exact miAddVarBind_leads r₁ (hpace rfl)

/-! ## Whole runs -/

theorem ihCtxInit_entry (id : Nat) : ihCtxInit.entry id = none := find_miAlloc id

theorem ihCtxInit_cls (c : CStr) : ihCtxInit.cls c = none := Table.lookup_init c

theorem ihCtxInit_inv : V.Inv ihCtxInit.ledger := by
  have hent : ∀ id e, ihCtxInit.ledger.entry id = some e → False := fun id e he =>
    absurd ((ihCtxInit_entry id).symm.trans he) nofun
  have hcls : ∀ c ci, ihCtxInit.ledger.cls c = some ci → False := fun c ci hc =>
    absurd ((ihCtxInit_cls c).symm.trans hc) nofun
  have hcar : ∀ id pid, ihCtxInit.ledger.carries id pid → False := by
    rintro id pid (⟨q, hq, -⟩ | ⟨c, ci, hc, -⟩)
    · cases hq
    · exact hcls c ci hc
  have hkeys : ∀ id, ihCtxInit.ledger.entry id = none := ihCtxInit_entry
  refine ⟨⟨Nat.one_pos, fun id e he => (hent id e he).elim, nofun,
    fun id _ e _ _ _ he => (hent id e he).elim, fun id => ?_, fun c ci hc => (hcls c ci hc).elim,
    fun c ci hc => (hcls c ci hc).elim, fun id e _ _ he => (hent id e he).elim,
    fun c ci hc => (hcls c ci hc).elim, nofun, nofun⟩,
    ⟨fun id pid hc => (hcar id pid hc).elim, fun id pid ⟨f, hf, _⟩ => nomatch hf⟩,
    fun _ => ⟨nofun, nofun, fun id pid hc => (hcar id pid hc).elim, nofun⟩,
    fun _ => ⟨fun c ci hc => (hcls c ci hc).elim, fun id k hk => ?_⟩, fun _ _ => nofun,
    fun _ => ⟨List.nodup_nil, fun c ci hc => (hcls c ci hc).elim,
      fun c ci _ hc => (hcls c ci hc).elim, nofun, fun c ci _ _ hc => (hcls c ci hc).elim⟩⟩
  · rw [queueKeysOf_none rfl, hkeys]
    rfl
  · rw [lineRecsOf_none rfl, hkeys] at hk
    cases hk

/-- The invariants hold in every state that a run reaches. -/
theorem inv_run {evs : List Event} (hI : V.Inv w.ledger)
    (h : Runs.Along (step env) (V.Backs env) w evs) : V.Inv (Runs.run (step env) w evs).ledger :=
  Runs.inv_run (fun w => V.Inv w.ledger) (fun _ _ hi hV => hi.leads (step_leads hi hV)) hI h

/-- A run leads from the ledger it starts with to the ledger it ends with. -/
theorem leads_run {evs : List Event} (hI : V.Inv w.ledger)
    (h : Runs.Along (step env) (V.Backs env) w evs) :
    V.Leads w.ledger (Runs.run (step env) w evs).ledger :=
  Runs.rel_run (fun w => V.Inv w.ledger) (T := fun w w' => V.Leads w.ledger w'.ledger)
    (fun _ => .refl _) (fun _ _ _ => .trans)
    (fun _ _ hi hV => ⟨hi.leads (step_leads hi hV), step_leads hi hV⟩) hI h

/-- Nothing is vouched for. -/
abbrev anyRun : Vouch := { own := False, removed := False, live := False }

/-- With nothing vouched for, every step of every run will do. -/
theorem along_trivial {evs : List Event} : Runs.Along (step env) (anyRun.Backs env) w evs := by
  induction evs generalizing w with
  | nil => trivial
  | cons ev evs ih => exact ⟨⟨False.elim, False.elim, False.elim, False.elim, False.elim⟩, ih⟩

theorem serve_inv (env : Env) (evs : List Event) : anyRun.Inv (serve env evs).ledger :=
  inv_run ihCtxInit_inv along_trivial

theorem serve_append (env : Env) (evs : List Event) (ev : Event) :
    serve env (evs ++ [ev]) = step env (serve env evs) ev := Runs.run_append ..

end JautoProf
