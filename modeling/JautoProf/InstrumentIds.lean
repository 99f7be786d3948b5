import JautoProf.Refines
import Mathlib.Data.List.Induction

/-!
# The ids of instruments

`mi_insert` counts the ids up and no operation takes an id back. What a client is answered
with denotes one instrument for good: whatever is added, removed or rehashed later, the id
resolves to that instrument or to nothing.

Results:
1. `ids_denote`: the ids of every run with fewer than `2 ^ 64` requests.
-/

namespace JautoProf

open Prog Ledger Act Vouch

/-- The entry is the instrument that the request asks for. -/
def Event.asksFor (ev : Event) (e : MiEntry) : Prop :=
  match ev with
  | .instrumentMethod c s => e.isMethodOf c s = true
  | .instrumentLine c x l l' => e.identity = ⟨c, .line x l l' false false⟩
  | _ => False

/-- What holds of the ids that the run gives out. -/
structure IdsDenote (env : Env) (evs : List Event) : Prop where
  /-- An id that is new is above all ids before it, and within `uint64_t`. -/
  given : ∀ pre ev, pre ++ [ev] <+: evs → ∀ st id,
    answer env (serve env pre) ev = .instrument st id → st = .ok ∨ st = .deferred →
    0 < id ∧ id < 2 ^ 64 ∧ (∀ pre', pre' <+: pre → (serve env pre').entry id = none) ∧
      ∀ pre' ev', pre' ++ [ev'] <+: pre → ∀ st' id',
        answer env (serve env pre') ev' = .instrument st' id' → id' < id
  /-- An id resolves to what was asked for, then and in every later state where it resolves. -/
  denotes : ∀ pre ev, pre ++ [ev] <+: evs → ∀ st id,
    answer env (serve env pre) ev = .instrument st id → st ≠ .error →
    ∃ e, (serve env (pre ++ [ev])).entry id = some e ∧ ev.asksFor e ∧
      ∀ later, pre ++ [ev] <+: later → later <+: evs →
        ∀ e', (serve env later).entry id = some e' → e'.identity = e.identity
  /-- An id that resolved and stopped to resolve never resolves again. -/
  gone : ∀ pre mid later, pre <+: mid → mid <+: later → later <+: evs → ∀ id,
    (serve env pre).entry id ≠ none → (serve env mid).entry id = none →
    (serve env later).entry id = none
  /-- A request to remove an instrument that does not resolve fails and changes nothing. -/
  deinstrument : ∀ pre, pre <+: evs → ∀ id, (serve env pre).entry id = none →
    answer env (serve env pre) (.deinstrumentById id) = .deinstrument .fail ∧
      step env (serve env pre) (.deinstrumentById id) = serve env pre

variable {env : Env} {V : Vouch} {w w' : World}

/-! ## What a request leaves under its id -/

/-- The id resolves to the instrument that `e` is, whatever its deferred flags. -/
def World.Denotes (w : World) (id : Nat) (e : MiEntry) : Prop :=
  ∃ e', w.entry id = some e' ∧ e'.identity = e.identity

theorem World.Denotes.of_some {id : Nat} {e : MiEntry} (h : w.entry id = some e) : w.Denotes id e :=
  ⟨e, h, rfl⟩

theorem World.Denotes.asksFor {id : Nat} {e : MiEntry} {ev : Event} (h : w.Denotes id e)
    (hev : ev.asksFor e) : ∃ e', w.entry id = some e' ∧ ev.asksFor e' := by
  obtain ⟨e', he', hid⟩ := h
  refine ⟨e', he', ?_⟩
  cases ev with
  | instrumentMethod c s => exact (MiEntry.isMethodOf_of_identity hid c s).trans hev
  | instrumentLine c x l l' => exact hid.trans hev
  | classLoaded | deinstrumentMethod | deinstrumentById | listInstruments | addVarBind => exact hev.elim

theorem performInstrumentation_denotes {c : CStr} {id : Nat} {pid : Int} {b : Bool} {e : MiEntry}
    (h : performInstrumentation env c id pid id w = (b, w')) (he : w.Denotes id e) :
    w'.Denotes id e := by
  obtain ⟨e₀, he₀, hid⟩ := he
  rcases performInstrumentation_run h he₀ with ⟨-, hw⟩ | ⟨-, ci, kept, -, hw⟩
  · exact ⟨e₀, (congrFun (congrArg Ledger.entry hw) id).trans he₀, hid⟩
  · refine ⟨e₀.methodApplied, ?_, (MiEntry.identity_methodApplied e₀).trans hid⟩
    refine (congrFun (congrArg Ledger.entry hw) id).trans ((modEntry_entry ..).trans ?_)
    rw [if_pos rfl]
    exact congrArg (Option.map _) he₀

theorem modifyEntry_denotes {id : Nat} {f : MiEntry → MiEntry} {u : Unit} {e : MiEntry}
    (hf : ∀ e, (f e).identity = e.identity) (h : modifyEntry id f w = (u, w'))
    (he : w.Denotes id e) : w'.Denotes id e := by
  obtain ⟨e₀, he₀, hid⟩ := he
  refine ⟨f e₀, ?_, (hf e₀).trans hid⟩
  refine (congrFun (congrArg Ledger.entry (modifyEntry_run h)) id).trans ((modEntry_entry ..).trans ?_)
  rw [if_pos rfl]
  exact congrArg (Option.map _) he₀

/-- An immediate method instrument that is answered with OK is in the table. -/
theorem instrumentNow_denotes {c : CStr} {id : Nat} {pid : Int} {st : InstrumentRespStatus}
    {e : MiEntry} (h : instrumentNow env c id pid w = (st, w')) (he : w.entry id = some e) :
    st = .error ∨ (st = .ok ∧ w'.Denotes id e) := by
  obtain ⟨populated, w₁, r₁, h₁⟩ := bind_eq.mp h
  rcases populateClassInfo_run r₁ he with ⟨rfl, -⟩ | ⟨rfl, sig, -, hw₁⟩
  · obtain ⟨_, w₂, -, h₂⟩ := bind_eq.mp h₁
    obtain ⟨_, w₃, -, h₃⟩ := bind_eq.mp h₂
    exact .inl (pure_eq.mp h₃).1.symm
  · obtain ⟨ret, w₂, r₂, h₂⟩ := bind_eq.mp h₁
    cases ret with
    | false =>
      obtain ⟨_, w₃, -, h₃⟩ := bind_eq.mp h₂
      obtain ⟨_, w₄, -, h₄⟩ := bind_eq.mp h₃
      exact .inl (pure_eq.mp h₄).1.symm
    | true =>
      obtain ⟨rfl, rfl⟩ := pure_eq.mp h₂
      have he₁ : w₁.entry id = some e := (congrFun (congrArg Ledger.entry hw₁) id).trans he
      exact .inr ⟨rfl, performInstrumentation_denotes r₂ (.of_some he₁)⟩

/-- The class lists are no part of the master table. -/
theorem entry_populateClassInfoLine (env : Env) (cE cX : CStr) (id : Nat) (pid : Int) :
    Keeps World.entry (populateClassInfoLine env cE cX id pid id) := by
  have hderef : Keeps World.entry (deref env id) := by
    intro w
    unfold final deref
    split <;> rfl
  refine Keeps.bind hderef fun _ => Keeps.bind (fun _ => rfl) fun _ => Keeps.ite ?_ (Keeps.pure false)
  refine Keeps.bind (fun _ => rfl) fun _ => Keeps.bind hderef fun _ =>
    Keeps.bind (fun _ => rfl) fun _ => Keeps.ite ?_ ?_
  · exact Keeps.bind (fun _ => rfl) fun _ => Keeps.pure true
  · exact Keeps.bind hderef fun _ => Keeps.bind (fun _ => rfl) fun _ => Keeps.pure false

theorem performInstrumentationLine_denotes {cE cX : CStr} {id : Nat} {pid : Int} {e : MiEntry}
    (h : performInstrumentationLine env cE cX id pid id w = (true, w')) (he : w.Denotes id e) :
    w'.Denotes id e := by
  obtain ⟨entryOk, w₁, r₁, h₁⟩ := bind_eq.mp h
  obtain ⟨exitOk, w₂, r₂, h₂⟩ := bind_eq.mp h₁
  have he₁ := performInstrumentation_denotes r₁ he
  have he₂ : w₂.Denotes id e := by
    split at r₂
    · exact performInstrumentation_denotes r₂ he₁
    · obtain ⟨-, rfl⟩ := pure_eq.mp r₂
      exact he₁
  cases exitOk with
  | false =>
    obtain ⟨_, w₃, -, h₃⟩ := bind_eq.mp h₂
    obtain ⟨_, w₄, -, h₄⟩ := bind_eq.mp h₃
    exact absurd (pure_eq.mp h₄).1 nofun
  | true =>
    obtain ⟨_, w₃, r₃, h₃⟩ := bind_eq.mp h₂
    obtain ⟨_, w₄, r₄, h₄⟩ := bind_eq.mp h₃
    obtain ⟨-, rfl⟩ := pure_eq.mp h₄
    exact modifyEntry_denotes MiEntry.identity_lineExitApplied r₄
      (modifyEntry_denotes MiEntry.identity_lineEntryApplied r₃ he₂)

/-- An immediate line instrument that is answered with OK is in the table. -/
theorem instrumentLineNow_denotes {cE cX : CStr} {id : Nat} {pid : Int} {st : InstrumentRespStatus}
    {e : MiEntry} (h : instrumentLineNow env cE cX id pid id w = (st, w')) (he : w.entry id = some e) :
    st = .error ∨ (st = .ok ∧ w'.Denotes id e) := by
  obtain ⟨populated, w₁, r₁, h₁⟩ := bind_eq.mp h
  have he₁ : w₁.entry id = some e :=
    (congrFun ((entry_populateClassInfoLine env cE cX id pid).run r₁) id).trans he
  cases populated with
  | false =>
    obtain ⟨_, w₂, -, h₂⟩ := bind_eq.mp h₁
    obtain ⟨_, w₃, -, h₃⟩ := bind_eq.mp h₂
    exact .inl (pure_eq.mp h₃).1.symm
  | true =>
    obtain ⟨ret, w₂, r₂, h₂⟩ := bind_eq.mp h₁
    obtain ⟨rfl, rfl⟩ := pure_eq.mp h₂
    cases ret with
    | false => exact .inl rfl
    | true => exact .inr ⟨rfl, performInstrumentationLine_denotes r₂ (.of_some he₁)⟩

/-! ## What a request is answered -/

/-- A request for an instrument takes the next id, finds the instrument under an id it has,
or has no memory for it. -/
inductive Answered (ev : Event) (w w' : World) : InstrumentRespStatus → Nat → Prop
  | added {st : InstrumentRespStatus} :
    w'.masterInstruments.nextId = w.masterInstruments.nextId + 1 → st ≠ .doubleInstrument →
    (st ≠ .error → ∃ e, w'.entry w.masterInstruments.nextId = some e ∧ ev.asksFor e) →
    Answered ev w w' st w.masterInstruments.nextId
  | double {id : Nat} {e : MiEntry} : w' = w → w.entry id = some e → ev.asksFor e →
    Answered ev w w' .doubleInstrument id
  | noMemory : Answered ev w w' .error 0

theorem jniCreate_frame {id : Nat} {name : ProfilerName} {pid : Int}
    (h : jniCreate env id name w = (pid, w')) :
    w'.masterInstruments.nextId = w.masterInstruments.nextId ∧ w'.entry = w.entry ∧
      w'.queuedInstruments = w.queuedInstruments := by
  rcases jniCreate_run h with ⟨-, hw⟩ | ⟨-, hw⟩
  · exact ⟨congrArg Ledger.nextId hw, congrArg Ledger.entry hw, congrArg Ledger.queue hw⟩
  · exact ⟨congrArg Ledger.nextId hw, congrArg Ledger.entry hw, congrArg Ledger.queue hw⟩

theorem instrumentAdded_answered {c s : CStr} {id : Nat} {st : InstrumentRespStatus} {e : MiEntry}
    (h : instrumentAdded env c s id id w = (st, w')) (he : w.entry id = some e) :
    w'.masterInstruments.nextId = w.masterInstruments.nextId ∧ st ≠ .doubleInstrument ∧
      (st ≠ .error → w'.Denotes id e) := by
  rcases instrumentAdded_run h he with
    ⟨rfl, hw'⟩ | ⟨w₁, hw₁, ⟨-, h₁⟩ | ⟨-, ⟨rfl, c', s', -, -, hw'⟩ | ⟨rfl, ok, -, hw'⟩⟩⟩
  · exact ⟨congrArg Ledger.nextId hw', nofun, fun hne => absurd rfl hne⟩
  · have he₁ : w₁.entry id = some e := (congrFun (congrArg Ledger.entry hw₁) id).trans he
    have hn₁ : w₁.masterInstruments.nextId = w.masterInstruments.nextId :=
      congrArg Ledger.nextId hw₁
    -- the class is loaded: an attempt gives no id out
    refine ⟨(congrArg Prod.snd ((backlog_instrumentNow env c id _).run h₁)).trans hn₁, ?_⟩
    rcases instrumentNow_denotes h₁ he₁ with rfl | ⟨rfl, hden⟩
    · exact ⟨nofun, fun hne => absurd rfl hne⟩
    · exact ⟨nofun, fun _ => hden⟩
  · rw [hw₁] at hw'
    exact ⟨congrArg Ledger.nextId hw', nofun, fun _ =>
      .of_some ((congrFun (congrArg Ledger.entry hw') id).trans he)⟩
  · rw [hw₁] at hw'
    exact ⟨congrArg Ledger.nextId hw', nofun, fun hne => absurd rfl hne⟩

theorem ihInstrumentMethod_answered {c s : CStr} {st : InstrumentRespStatus} {id : Nat}
    (h : ihInstrumentMethod env c s w = ((st, id), w')) :
    Answered (.instrumentMethod c s) w w' st id := by
  obtain ⟨added, w₁, r₁, h₁⟩ := bind_eq.mp h
  obtain ⟨found, w₂, r₂, h₂⟩ := bind_eq.mp r₁
  obtain ⟨rfl, rfl⟩ := read_eq.mp r₂
  rcases miFindMethodByName_cases w.masterInstruments c s with ⟨id', e, hf, he, hof⟩ | ⟨hf, -⟩
  · rw [hf] at h₂
    cases h₂
    cases h₁
    exact .double rfl he hof
  · rw [hf] at h₂
    obtain ⟨miv, w₃, r₃, h₃⟩ := bind_eq.mp h₂
    obtain ⟨rfl, rfl⟩ := pure_eq.mp h₃
    rcases miAddMethod_run r₃ with ⟨rfl, -⟩ | ⟨c', m', rfl, rfl, rfl, hw₃⟩
    · cases h₁
      exact .noMemory
    · have hpos : w.masterInstruments.nextId ≠ 0 := w.masterInstruments.nextId_pos.ne'
      simp only [hpos, ↓reduceIte] at h₁
      obtain ⟨st', w₄, r₄, h₄⟩ := bind_eq.mp h₁
      cases h₄
      have he : w₃.entry w.masterInstruments.nextId = some ⟨c', .method m' true⟩ :=
        entry_of_insert hw₃
      obtain ⟨hn, hne, hden⟩ := instrumentAdded_answered r₄ he
      refine .added (hn.trans (congrArg Ledger.nextId hw₃)) hne fun hst =>
        (hden hst).asksFor ?_
      simp [Event.asksFor, MiEntry.isMethodOf]

theorem instrumentLineCreated_answered {c x : Pstring} {l l' : UInt32} {id : Nat} {pid : Int}
    {st : InstrumentRespStatus}
    (h : instrumentLineCreated env c.cstr x.cstr id pid id w = (st, w'))
    (he : w.entry id = some ⟨c, .line x l l' true true⟩)
    (hQ : ∀ q ∈ w.queuedInstruments, q.instrumentId ≠ id) :
    w'.masterInstruments.nextId = w.masterInstruments.nextId ∧ st ≠ .doubleInstrument ∧
      (st ≠ .error → w'.Denotes id ⟨c, .line x l l' true true⟩) := by
  rcases instrumentLineCreated_run h he hQ with
    ⟨-, h₁⟩ | ⟨-, ⟨rfl, qs, hw', -⟩ | ⟨rfl, ok, -, hw'⟩⟩
  · refine ⟨congrArg Prod.snd ((backlog_instrumentLineNow env _ _ _ _).run h₁), ?_⟩
    rcases instrumentLineNow_denotes h₁ he with rfl | ⟨rfl, hden⟩
    · exact ⟨nofun, fun hne => absurd rfl hne⟩
    · exact ⟨nofun, fun _ => hden⟩
  · refine ⟨congrArg Ledger.nextId hw', nofun, fun _ =>
      ⟨laterLine c x l l' (w.cls c.cstr).isSome (w.cls x.cstr).isSome, ?_, rfl⟩⟩
    exact (congrFun (congrArg Ledger.entry hw') id).trans ((setEntry_entry ..).trans (if_pos rfl))
  · exact ⟨congrArg Ledger.nextId hw', nofun, fun hne => absurd rfl hne⟩

theorem ihInstrumentLine_answered {c x : Pstring} {l l' : UInt32} {st : InstrumentRespStatus}
    {id : Nat} (h : ihInstrumentLine env c x l l' w = ((st, id), w')) (hC : Coherent w.ledger) :
    Answered (.instrumentLine c x l l') w w' st id := by
  obtain ⟨miv, w₁, r₁, h₁⟩ := bind_eq.mp h
  rcases miAddLinep_run r₁ with ⟨rfl, -⟩ | ⟨rfl, hw₁⟩
  · cases h₁
    exact .noMemory
  · have hpos : w.masterInstruments.nextId ≠ 0 := w.masterInstruments.nextId_pos.ne'
    have he₁ : w₁.entry w.masterInstruments.nextId = some ⟨c, .line x l l' true true⟩ :=
      entry_of_insert hw₁
    simp only [hpos, ↓reduceIte] at h₁
    obtain ⟨pid, w₂, r₂, h₂⟩ := bind_eq.mp h₁
    obtain ⟨hn₂, hent₂, hq₂⟩ := jniCreate_frame r₂
    have hn : w₂.masterInstruments.nextId = w.masterInstruments.nextId + 1 :=
      hn₂.trans (congrArg Ledger.nextId hw₁)
    split at h₂
    · obtain ⟨_, w₃, r₃, h₃⟩ := bind_eq.mp h₂
      cases h₃
      exact .added ((congrArg Ledger.nextId (removeEntry_run r₃)).trans hn) nofun
        fun hne => absurd rfl hne
    · obtain ⟨st', w₃, r₃, h₃⟩ := bind_eq.mp h₂
      cases h₃
      have hfree : ∀ q ∈ w₂.queuedInstruments, q.instrumentId ≠ w.masterInstruments.nextId := by
        intro q hq
        have hq : q ∈ w.ledger.queue := (hq₂.trans (congrArg Ledger.queue hw₁)) ▸ hq
        exact (carries_lt hC (.inl ⟨q, hq, rfl, rfl⟩)).ne
      obtain ⟨hn₃, hne, hden⟩ :=
        instrumentLineCreated_answered r₃ ((congrFun hent₂ _).trans he₁) hfree
      exact .added (hn₃.trans hn) hne fun hst => (hden hst).asksFor rfl

/-- The answer to an event, in the terms of the states around it. -/
theorem answer_instrument {ev : Event} {st : InstrumentRespStatus} {id : Nat}
    (hC : Coherent w.ledger) (h : answer env w ev = .instrument st id) :
    Answered ev w (step env w ev) st id := by
  cases ev with
  | instrumentMethod c s =>
    obtain ⟨r, w', hr⟩ : ∃ r w', ihInstrumentMethod env c s w = (r, w') := ⟨_, _, rfl⟩
    have hstep : handle env (.instrumentMethod c s) w = (.instrument r.1 r.2, w') :=
      bind_eq.mpr ⟨r, w', hr, rfl⟩
    rw [answer, result, hstep] at h
    cases h
    rw [step, final, hstep]
    exact ihInstrumentMethod_answered hr
  | instrumentLine c x l l' =>
    obtain ⟨r, w', hr⟩ : ∃ r w', ihInstrumentLine env c x l l' w = (r, w') := ⟨_, _, rfl⟩
    have hstep : handle env (.instrumentLine c x l l') w = (.instrument r.1 r.2, w') :=
      bind_eq.mpr ⟨r, w', hr, rfl⟩
    rw [answer, result, hstep] at h
    cases h
    rw [step, final, hstep]
    exact ihInstrumentLine_answered hr hC
  | classLoaded | deinstrumentMethod | deinstrumentById | listInstruments | addVarBind => cases h

/-! ## Over a run -/

theorem nextId_step {ev : Event} (hI : V.Inv w.ledger) :
    (step env w ev).masterInstruments.nextId ≤
      w.masterInstruments.nextId + if ev.takesId then 1 else 0 := by
  let U : Vouch := ⟨False, False, False, True, ev.takesId = true, w.masterInstruments.nextId⟩
  have hI : U.Inv w.ledger :=
    ⟨hI.coherent, hI.numbered, False.elim, False.elim, False.elim, False.elim⟩
  have hpace : U.OnPace w.ledger := ⟨fun hne => absurd rfl hne, fun _ => rfl, Nat.le_succ _⟩
  have hleads : U.Leads _ (step env w ev).ledger := step_leads hI
    ⟨False.elim, False.elim, False.elim, fun _ => ⟨id, Event.not_takesId⟩, fun _ => rfl⟩
  have hpace := hpace.leads trivial hleads
  split
  · exact hpace.once
  · next hno => exact (hpace.steady hno).le

/-- As many ids are gone as there were requests, at most. -/
theorem nextId_serve (env : Env) (evs : List Event) :
    (serve env evs).masterInstruments.nextId ≤ 1 + evs.countP Event.takesId := by
  induction evs using List.reverseRecOn with
  | nil => exact Nat.le_refl _
  | append_singleton evs ev ih =>
    rw [serve_append, List.countP_append, List.countP_singleton]
    exact (nextId_step (serve_inv env evs)).trans (by omega)

/-- The ids of a state denote the same in every state after it. -/
theorem later_serve {env : Env} {pre evs : List Event} (h : pre <+: evs) :
    Later (serve env pre).ledger (serve env evs).ledger := by
  obtain ⟨post, rfl⟩ := h
  rw [show serve env (pre ++ post) = Runs.run (step env) (serve env pre) post from
    Runs.run_append ..]
  exact later_reaches (fun _ _ ha => ha.enabled)
    (leads_run (V := anyRun) (serve_inv env pre) along_trivial)

theorem entry_lt {id : Nat} (h : w.entry id ≠ none) : id < w.masterInstruments.nextId :=
  (w.masterInstruments.ids id h).2

theorem answered_serve {pre : List Event} {ev : Event} {st : InstrumentRespStatus} {id : Nat}
    (h : answer env (serve env pre) ev = .instrument st id) :
    Answered ev (serve env pre) (serve env (pre ++ [ev])) st id :=
  serve_append env pre ev ▸ answer_instrument (serve_inv env pre).coherent h

/-- An id that an event answers with is below the next id. -/
theorem answered_lt {pre : List Event} {ev : Event} {st : InstrumentRespStatus} {id : Nat}
    (h : answer env (serve env pre) ev = .instrument st id) :
    id < (serve env (pre ++ [ev])).masterInstruments.nextId := by
  generalize hw : serve env (pre ++ [ev]) = w
  cases hw ▸ answered_serve h with
  | added hn => omega
  | double heq he => exact entry_lt (heq ▸ he ▸ nofun)
  | noMemory => exact w.masterInstruments.nextId_pos

/-- An id that resolves twice denotes the same instrument both times. -/
theorem identity_serve {pre later : List Event} (h : pre <+: later) {id : Nat} {e e' : MiEntry}
    (he : (serve env pre).entry id = some e) (he' : (serve env later).entry id = some e') :
    e'.identity = e.identity := by
  obtain ⟨e₀, he₀, hid⟩ := (later_serve h).identity id e' (entry_lt (he ▸ nofun)) he'
  rwa [Option.some_inj.mp (he.symm.trans he₀)]

/-- An id that was given out and does not resolve never resolves again. -/
theorem gone_serve {mid later : List Event} (h : mid <+: later) {id : Nat}
    (hlt : id < (serve env mid).masterInstruments.nextId) (hnone : (serve env mid).entry id = none) :
    (serve env later).entry id = none := by
  by_contra hne
  obtain ⟨e', he'⟩ := Option.ne_none_iff_exists'.mp hne
  obtain ⟨e, he, -⟩ := (later_serve h).identity id e' hlt he'
  exact absurd (hnone.symm.trans he) nofun

/-- The next id is new, and within `uint64_t` while the requests are fewer. -/
theorem nextId_fresh {pre evs : List Event} {ev : Event} (hpre : pre ++ [ev] <+: evs)
    (h : evs.countP Event.takesId < 2 ^ 64)
    (hn : (serve env (pre ++ [ev])).masterInstruments.nextId =
      (serve env pre).masterInstruments.nextId + 1) :
    (serve env pre).masterInstruments.nextId < 2 ^ 64 ∧
      ∀ pre', pre' <+: pre →
        (serve env pre').entry (serve env pre).masterInstruments.nextId = none := by
  refine ⟨?_, fun pre' hpre' => ?_⟩
  · have hcount : (pre ++ [ev]).countP Event.takesId ≤ evs.countP Event.takesId :=
      hpre.sublist.countP_le
    have hbound := nextId_serve env (pre ++ [ev])
    omega
  · by_contra hne
    exact absurd ((entry_lt hne).trans_le (later_serve hpre').nextId) (Nat.lt_irrefl _)

theorem deinstrument_unresolved {id : Nat} (h : w.entry id = none) :
    handle env (.deinstrumentById id) w = (.deinstrument .fail, w) := by
  have hfind : findEntry id w = (none, w) := by
    rw [findEntry, Prog.read, h]
    rfl
  exact bind_eq.mpr ⟨.fail, w, bind_eq.mpr ⟨none, w, hfind, rfl⟩, rfl⟩

/-- The ids of every run of fewer than `2 ^ 64` requests denote for good what they were
given out for. -/
theorem ids_denote (env : Env) (evs : List Event) (h : evs.countP Event.takesId < 2 ^ 64) :
    IdsDenote env evs := by
  refine ⟨fun pre ev hpre st id hr hst => ?_, fun pre ev hpre st id hr hst => ?_,
    fun pre mid later hpm hml _ id hne hnone => ?_, fun pre _ id hnone => ?_⟩
  · cases answered_serve hr with
    | double => exact absurd hst (by simp)
    | noMemory => exact absurd hst (by simp)
    | added hn =>
      obtain ⟨hlt, hfresh⟩ := nextId_fresh hpre h hn
      exact ⟨(serve env pre).masterInstruments.nextId_pos, hlt, hfresh,
        fun pre' ev' hpre' st' id' hr' => (answered_lt hr').trans_le (later_serve hpre').nextId⟩
  · obtain ⟨e, he, hasks⟩ : ∃ e, (serve env (pre ++ [ev])).entry id = some e ∧ ev.asksFor e := by
      cases answered_serve hr with
      | added _ _ hent => exact hent hst
      | double heq he hasks => exact ⟨_, heq ▸ he, hasks⟩
      | noMemory => exact absurd rfl hst
    exact ⟨e, he, hasks, fun later hl _ e' he' => identity_serve hl he he'⟩
  · exact gone_serve hml ((entry_lt hne).trans_le (later_serve hpm).nextId) hnone
  · exact ⟨congrArg Prod.fst (deinstrument_unresolved hnone),
      congrArg Prod.snd (deinstrument_unresolved hnone)⟩

/-- The id of an instrument that was removed is not given to the next one. -/
theorem ids_denote_removed : IdsDenote .smooth [.instrumentMethod classA.cstr classB.cstr,
    .deinstrumentById 1, .instrumentLine classA classA 10 20, .deinstrumentById 1] :=
  ids_denote .smooth _ (by decide)

end JautoProf
