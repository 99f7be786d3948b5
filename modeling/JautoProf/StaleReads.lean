import JautoProf.Refines
import Mathlib.Data.List.Induction

/-!
# Reads of entries that left the master table

`perform_instrumentation_line` removes the entry of an instrument that it fails to apply. Its
caller for deferred instruments reads the class names of the entry after that, for the
message in the error log. No other read comes too late.

Results:
1. `reads_live`: in a run whose steps all meet `stepLive`, no entry is read after it left the
   table, and each message about a deferred instrument names that instrument.
2. `reads_stale`: a deferred line instrument whose class cannot be transformed.
-/

namespace JautoProf

open Ledger Act Vouch

/-- No entry was read after it left the table, and each failure of a deferred instrument was
reported with the names that the instrument had in a state before. -/
structure ReadsLive (env : Env) (evs : List Event) : Prop where
  reads : (serve env evs).staleReads = 0
  reports : ∀ r ∈ (serve env evs).reports, ∃ pre, pre <+: evs ∧
    ∃ e, (serve env pre).entry r.instrumentId = some e ∧ r.text = e.failureText

theorem MiEntry.failureText_of_identity {e e' : MiEntry} (h : e.identity = e'.identity) :
    e.failureText = e'.failureText := by
  have hid : ∀ e : MiEntry, e.identity.failureText = e.failureText := by
    rintro ⟨c, b⟩
    cases b <;> rfl
  rw [← hid e, h, hid e']

variable {V : Vouch} {L₀ L : Ledger}

/-! ## In one step -/

/-- What an event has done on its way from `L₀` to `L`. -/
structure Clean (L₀ L : Ledger) : Prop where
  later : Later L₀ L
  reads : L.staleReads = L₀.staleReads
  reports : ∀ r ∈ L.reports, r ∈ L₀.reports ∨
    ∃ e, L₀.entry r.instrumentId = some e ∧ r.text = e.failureText

theorem clean_act (h : Clean L₀ L) (hC : Coherent L) (hP : L.loading ≠ none → L.nextId = L₀.nextId)
    {a : Act} (he : Enabled L a) (hl : Act.Live L a) : Clean L₀ (apply L a) := by
  refine ⟨h.later.trans (later_act he), ?_, ?_⟩
  · cases a with
    | readStale => exact hl.elim
    | burn | hide | start | enqueue | addMethod | dropMethod | addLine | dropLine | settle
    | abandon | mark | install | markHalf | dequeue | unqueue | takeMethod | leaveLine | define
    | load | settled | purge | leaveMethodRec | leaveLineRec | release | clear | report =>
      exact h.reads
  · cases a with
    | report r =>
      intro r' hr'
      rcases List.mem_append.mp hr' with hr' | hr'
      · exact h.reports r' hr'
      · -- the instrument is as old as the event
        rw [List.mem_singleton.mp hr']
        obtain ⟨f, e, -, hid, hent, hlo, htext⟩ := hl
        have hlt : f.id < L₀.nextId := hP hlo ▸ (hC.ids f.id e hent).2
        obtain ⟨e₀, he₀, hident⟩ := h.later.identity f.id e hlt hent
        exact .inr ⟨e₀, hid ▸ he₀, htext.trans (MiEntry.failureText_of_identity hident)⟩
    | burn | hide | start | enqueue | addMethod | dropMethod | addLine | dropLine | settle
    | abandon | mark | install | markHalf | dequeue | unqueue | takeMethod | leaveLine | define
    | load | settled | purge | leaveMethodRec | leaveLineRec | release | clear | readStale =>
      exact h.reports

/-- An event that meets `stepLive` reads no stale entry. -/
theorem clean_step {env : Env} {w : World} {ev : Event} (hC : V.Inv w.ledger)
    (hlive : stepLive env w ev = true) : Clean w.ledger (step env w ev).ledger := by
  let U : Vouch := ⟨False, False, True, True, ev.takesId = true, w.masterInstruments.nextId⟩
  have hI : U.Inv w.ledger :=
    ⟨hC.coherent, hC.numbered, False.elim, False.elim, False.elim, False.elim⟩
  have hpace : U.OnPace w.ledger := ⟨fun hne => absurd rfl hne, fun _ => rfl, Nat.le_succ _⟩
  have hleads : U.Leads w.ledger (step env w ev).ledger :=
    step_leads hI ⟨False.elim, False.elim, fun _ => hlive, fun _ => ⟨id, Event.not_takesId⟩,
      fun _ => rfl⟩
  refine (Runs.Reaches.inv (fun L => (U.Inv L ∧ U.OnPace L) ∧ Clean w.ledger L) ?_ hleads
    ⟨⟨hI, hpace⟩, .refl _, rfl, fun _ hr => .inl hr⟩).2
  rintro L a ⟨⟨hi, hp⟩, hc⟩ ha
  exact ⟨⟨hi.act ha, hp.act (ha.paced trivial)⟩, clean_act hc hi.coherent
    (fun hne => hp.steady (hp.loading hne)) ha.enabled (ha.live trivial)⟩

/-! ## Over a run -/

/-- In a run whose class loads make no deferred line instrument ready that then fails, no
entry is read after it left the master table. -/
theorem reads_live (env : Env) (evs : List Event)
    (h : Runs.Along (step env) (fun w ev => stepLive env w ev = true) ihCtxInit evs) :
    ReadsLive env evs := by
  induction evs using List.reverseRecOn with
  | nil => exact ⟨rfl, nofun⟩
  | append_singleton evs ev ih =>
    obtain ⟨hinit, hev, -⟩ := Runs.along_append.mp h
    have hlast := serve_append env evs ev
    have hclean := clean_step (serve_inv env evs) hev
    have ih := ih hinit
    refine ⟨?_, fun r hr => ?_⟩
    · rw [hlast]
      exact hclean.reads.trans ih.reads
    · rw [hlast] at hr
      rcases hclean.reports r hr with hr | ⟨e, he, htext⟩
      · obtain ⟨pre, hpre, hent⟩ := ih.reports r hr
        exact ⟨pre, hpre.trans (List.prefix_append _ _), hent⟩
      · exact ⟨evs, List.prefix_append _ _, e, he, htext⟩

/-- A deferred method whose class cannot be transformed is reported under its name. -/
theorem reads_live_method : ReadsLive (.failing 1) [.instrumentMethod classA.cstr classB.cstr,
    .classLoaded classA.cstr [] none] :=
  have hlive : Runs.Along (step (.failing 1)) (fun w ev => stepLive (.failing 1) w ev = true)
      ihCtxInit [.instrumentMethod classA.cstr classB.cstr, .classLoaded classA.cstr [] none] :=
    ⟨by decide, by decide, trivial⟩
  reads_live (.failing 1) _ hlive

/-- A deferred line whose class cannot be transformed: both class names of the message are
read after the entry was removed. -/
theorem reads_stale : ¬ ∀ env evs, ReadsLive env evs := by
  intro h
  have hreads := (h (.failing 1) [.instrumentLine classA classA 10 20,
    .classLoaded classA.cstr [] none]).reads
  have htwo : (serve (.failing 1) [.instrumentLine classA classA 10 20,
    .classLoaded classA.cstr [] none]).staleReads = 2 := by rfl
  exact absurd (htwo.symm.trans hreads) (by decide)

end JautoProf
