import JautoProf.StoresAgree

/-!
# Instruments and the slots of the registry

A record in the queue or in a class carries the profiler id of its instrument, which is an
index into the slots of `ProfilerRegistry`. As long as every removal by line number finds a
record of the instrument it is made for, each instrument owns one slot, which is active, and
every active slot is owned. A removal that finds a record of another instrument breaks this.

Results:
1. `slots_agree`: in a run whose steps all meet `stepOwn`, the instruments of every state
   own exactly the active slots, one each, and keep them.
2. `slots_disagree`: two line instruments that start at one line, of which the second is
   removed.
-/

namespace JautoProf

open Ledger Act Vouch

/-- The instrument is in the master table, and one of its records carries the slot. -/
def World.owns (w : World) (id slot : Nat) : Prop := w.ledger.shows id ∧ w.ledger.carries id slot

/-- The instruments own the active slots, one each. -/
structure SlotsAgree (w : World) : Prop where
  one : ∀ id e, w.entry id = some e → e.isUserVisible = true → ∃! i, w.owns id i
  distinct : ∀ id id' i, w.owns id i → w.owns id' i → id = id'
  active : ∀ i, (∃ id, w.owns id i) ↔ ∃ s, w.slots[i]? = some s ∧ s.active = true

variable {L : Ledger} {V : Vouch} {w w' : World}

/-! ## In one state -/

/-- Every instrument has a record. -/
theorem carries_of_shows (hC : Coherent L) (hN : Lined L) (hfl : L.flight = none)
    (hpu : L.purging = false) {id : Nat} (h : L.shows id) : ∃ pid, L.carries id pid := by
  obtain ⟨e, he, hvis⟩ := h
  cases ha : e.isApplied with
  | false =>
    -- it is deferred, and the queue has its record
    have hkeys := hC.queue id
    rw [queueKeysOf_none hfl, he] at hkeys
    obtain ⟨q, hq⟩ := List.exists_mem_of_ne_nil (L.queue.filter (·.hasId id))
      fun hnil => queueKeys_ne_nil hvis ha (by rw [← hkeys, hnil, List.map_nil])
    obtain ⟨hmem, hid⟩ := List.mem_filter.mp hq
    exact ⟨q.profilerId, .inl ⟨q, hmem, by simpa [QueuedInstr.hasId] using hid, rfl⟩⟩
  | true =>
    obtain ⟨c, b⟩ := e
    cases b with
    | varBind => cases hvis
    | method n d =>
      have hof : MiEntry.isMethodOf ⟨c, .method n d⟩ c.cstr n.cstr = true := by
        simp [MiEntry.isMethodOf]
      obtain ⟨ci, hci⟩ := Option.ne_none_iff_exists'.mp
        (hC.applied id _ c.cstr n.cstr he (flying_none hfl id) hof ha)
      obtain ⟨m, hm, hid⟩ := hC.find_of_applied hfl hpu he hof ha hci
      exact ⟨m.profilerId, .inr ⟨c.cstr, ci, hci, .inl ⟨m, List.mem_of_find?_eq_some hm, hid, rfl⟩⟩⟩
    | line x l l' d d' =>
      -- the record at the entry line is in the class
      have hkey : (⟨c.cstr, l, .enter⟩ : LineKey) ∈ L.lineRecsOf id := by
        rw [lineRecsOf_none hfl, he, appliedLines_some, if_pos ha]
        exact List.mem_cons_self
      obtain ⟨ci, hci⟩ := Option.ne_none_iff_exists'.mp (hN.classes id _ hkey)
      have hrec : (⟨c.cstr, l, .enter⟩ : LineKey) ∈
          (ci.lines.filter (·.hasId id)).map (InstrumentedLine.key c.cstr) := by
        rw [hN.lines_eq hpu hci id]
        exact List.mem_filter.mpr ⟨hkey, by simp⟩
      obtain ⟨r, hr, -⟩ := List.mem_map.mp hrec
      obtain ⟨hmem, hid⟩ := List.mem_filter.mp hr
      exact ⟨r.profilerId, .inr ⟨c.cstr, ci, hci, .inr ⟨r, hmem,
        by simpa [InstrumentedLine.hasId] using hid, rfl⟩⟩⟩

/-- What an instrument owns is an active slot that names it. -/
theorem Slotted.of_owns (h : Slotted w.ledger) {id i : Nat} (ho : w.owns id i) :
    ∃ s, w.slots[i]? = some s ∧ s.active = true ∧ s.instrumentId = id := by
  obtain ⟨⟨e, he, -⟩, hcar⟩ := ho
  obtain ⟨j, s, hij, hs⟩ := h.records id i hcar (by simp [he])
  obtain rfl : i = j := Int.ofNat.inj hij
  exact ⟨s, hs⟩

theorem Vouch.Inv.slotsAgree (h : V.Inv w.ledger) (hown : V.own) (hrem : V.removed) :
    SlotsAgree w := by
  have hS := h.slotted hown
  have hex : ∀ id, w.ledger.shows id → ∃ i, w.owns id i := by
    intro id hid
    obtain ⟨pid, hpid⟩ := carries_of_shows h.coherent (h.lined hown) rfl rfl hid
    have hne : w.ledger.entry id ≠ none := by
      obtain ⟨e, he, -⟩ := hid
      simp [he]
    obtain ⟨i, -, rfl, -⟩ := hS.records id pid hpid hne
    exact ⟨i, hid, hpid⟩
  refine ⟨fun id e he hvis => ?_, fun id id' i ho ho' => ?_, fun i => ⟨?_, ?_⟩⟩
  · obtain ⟨i, hi⟩ := hex id ⟨e, he, hvis⟩
    refine ⟨i, hi, fun j hj => ?_⟩
    obtain ⟨s, hs, hact, hid⟩ := hS.of_owns hi
    obtain ⟨t, ht, htact, htid⟩ := hS.of_owns hj
    exact hS.unique j i t s ht hs htact hact (htid.trans hid.symm)
  · obtain ⟨s, hs, -, rfl⟩ := hS.of_owns ho
    obtain ⟨t, ht, -, rfl⟩ := hS.of_owns ho'
    rw [hs] at ht
    cases ht
    rfl
  · rintro ⟨id, ho⟩
    obtain ⟨s, hs, hact, -⟩ := hS.of_owns ho
    exact ⟨s, hs, hact⟩
  · rintro ⟨s, hs, hact⟩
    obtain ⟨j, hj⟩ := hex _ (h.owned hown hrem i s hs hact)
    obtain ⟨t, ht, htact, htid⟩ := hS.of_owns hj
    obtain rfl := hS.unique j i t s ht hs htact hact htid
    exact ⟨_, hj⟩

/-! ## From one state to the next -/

/-- An act leaves an instrument its slot unless it removes the instrument. -/
theorem holds_act (hS : Slotted L) {a : Act} (he : Enabled L a) (ho : Own L a) {id : Nat} {pid : Int}
    (h : holdsSlot L.slots id pid) (hent : (apply L a).entry id ≠ none) :
    holdsSlot (apply L a).slots id pid := by
  cases a with
  | start e name => exact holdsSlot_create h
  | abandon f ok =>
    have hne : id ≠ f.id := by
      rintro rfl
      exact hent ((setEntry_entry ..).trans (if_pos rfl))
    show holdsSlot (if ok then registryRemove L.slots f.profilerId else L.slots) id pid
    split
    · exact holdsSlot_remove h (hS.flight f he.1).2 hne
    · exact h
  | release r ok => exact absurd ho False.elim
  | burn | hide | enqueue | addMethod | dropMethod | addLine | dropLine | settle | mark | install
  | markHalf | dequeue | unqueue | takeMethod | leaveLine | define | load | settled | purge
  | leaveMethodRec | leaveLineRec | clear | report | readStale => exact h

theorem Vouch.Inv.holds_leads {L' : Ledger} (h : V.Inv L) (hown : V.own) (hl : V.Leads L L') {id : Nat}
    {p : Int} (hlt : id < L.nextId) (hh : holdsSlot L.slots id p) (hent : L'.entry id ≠ none) :
    holdsSlot L'.slots id p := by
  obtain ⟨as, rfl, hok⟩ := hl
  refine (Runs.rel_run V.Inv (T := fun L L' => Later L L' ∧ ∀ id p, id < L.nextId →
    holdsSlot L.slots id p → L'.entry id ≠ none → holdsSlot L'.slots id p)
    (fun L => ⟨.refl L, fun _ _ _ h _ => h⟩) (fun L L' L'' h h' => ⟨h.1.trans h'.1, ?_⟩)
    (fun L a hi ha => ⟨hi.act ha, later_act ha.enabled, fun id p _ hh hent =>
      holds_act (hi.slotted hown) ha.enabled (ha.own hown) hh hent⟩) h hok).2 id p hlt hh hent
  intro id p hlt hh hent
  obtain ⟨e, he⟩ := Option.ne_none_iff_exists'.mp hent
  obtain ⟨e', he', -⟩ := h'.1.identity id e (hlt.trans_le h.1.nextId) he
  exact h'.2 id p (hlt.trans_le h.1.nextId) (h.2 id p hlt hh (by simp [he'])) hent

/-! ## Over a run -/

/-- What is known of a run whose removals by line number find what they are made for. -/
abbrev ownRun : Vouch := { own := True, removed := True, live := False }

theorem backs_ownRun {env : Env} {evs : List Event} (hr : RemoveOk env)
    (h : Runs.Along (step env) (fun w ev => stepOwn env w ev = true) w evs) :
    Runs.Along (step env) (ownRun.Backs env) w evs :=
  h.mono fun _ _ ho => ⟨fun _ => ho, fun _ => hr, False.elim, False.elim, False.elim⟩

/-- In a run whose removals by line number all find a record of the instrument they are made
for, the instruments of every state own the active slots, and no step takes the slot of an
instrument that it does not remove. -/
theorem slots_agree (env : Env) (hr : RemoveOk env) (evs : List Event)
    (h : Runs.Along (step env) (fun w ev => stepOwn env w ev = true) ihCtxInit evs) :
    SlotsAgree (serve env evs) ∧ ∀ pre ev, pre ++ [ev] <+: evs → ∀ id i, (serve env pre).owns id i →
      (serve env (pre ++ [ev])).entry id ≠ none → (serve env (pre ++ [ev])).owns id i := by
  have hinv : ∀ pre, pre <+: evs → ownRun.Inv (serve env pre).ledger := by
    rintro pre ⟨post, rfl⟩
    exact inv_run ihCtxInit_inv (backs_ownRun hr (Runs.along_append.mp h).1)
  refine ⟨(hinv evs List.prefix_rfl).slotsAgree trivial trivial, ?_⟩
  rintro pre ev ⟨post, rfl⟩ id i ho hent
  have hI := hinv pre ⟨[ev] ++ post, by simp⟩
  have hI' := hinv (pre ++ [ev]) ⟨post, rfl⟩
  have hstep := serve_append env pre ev
  have hev : stepOwn env (serve env pre) ev = true :=
    (Runs.along_append.mp (Runs.along_append.mp h).1).2.1
  obtain ⟨s, hs, hact, hid⟩ := (hI.slotted trivial).of_owns ho
  have hlt : id < (serve env pre).ledger.nextId := hid ▸ (hI.slotted trivial).ids i s hs
  have hleads := step_leads hI ⟨fun _ => hev, fun _ => hr, False.elim, False.elim, False.elim⟩
  rw [← hstep] at hleads
  obtain ⟨j, t, hij, ht, htact, htid⟩ := hI.holds_leads trivial hleads (p := i) hlt
    ⟨i, s, rfl, hs, hact, hid⟩ hent
  obtain rfl : i = j := Int.ofNat.inj hij
  -- the slot is active, so it is owned, and by the instrument it names
  obtain ⟨id', ho'⟩ := ((hI'.slotsAgree trivial trivial).active i).mpr ⟨t, ht, htact⟩
  obtain ⟨u, hu, -, huid⟩ := (hI'.slotted trivial).of_owns ho'
  cases ht.symm.trans hu
  exact (htid.symm.trans huid) ▸ ho'

/-- A line instrument is applied in a loaded class and removed again. -/
theorem slots_agree_removed : SlotsAgree (serve .smooth [.classLoaded classA.cstr [] none,
    .instrumentLine classA classA 10 20, .deinstrumentById 1]) :=
  have hown : Runs.Along (step .smooth) (fun w ev => stepOwn .smooth w ev = true) ihCtxInit
      [.classLoaded classA.cstr [] none, .instrumentLine classA classA 10 20, .deinstrumentById 1] :=
    ⟨by decide, by decide, by decide, trivial⟩
  (slots_agree .smooth (fun _ _ => rfl) _ hown).1

/-- Two line instruments that start at one line, of which the second is removed. -/
def sharedLine : List Event :=
  [.classLoaded classA.cstr [] none, .instrumentLine classA classA 10 20,
    .instrumentLine classA classA 10 30, .deinstrumentById 2]

/-- The removal takes the first record of the line, and with it the slot of the first
instrument. -/
theorem slots_disagree : ¬ ∀ env, RemoveOk env → ∀ evs, SlotsAgree (serve env evs) := by
  intro h
  have hagree := h .smooth (fun _ _ => rfl) sharedLine
  -- the record for the exit line of the first instrument carries the slot
  have hrec : (serve .smooth sharedLine).ledger.cls classA.cstr =
      some ⟨classA, [], none, [], [], [⟨20, 0, 1, .exit⟩, ⟨10, 1, 2, .enter⟩]⟩ := by rfl
  have howns : (serve .smooth sharedLine).owns 1 0 :=
    ⟨⟨⟨classA, .line classA 10 20 false false⟩, by rfl, rfl⟩, .inr ⟨classA.cstr, _, hrec,
      .inr ⟨⟨20, 0, 1, .exit⟩, List.mem_cons_self, rfl, rfl⟩⟩⟩
  obtain ⟨s, hs, hact⟩ := (hagree.active 0).mp ⟨1, howns⟩
  have hslot : (serve .smooth sharedLine).slots[0]?.map Slot.active = some false := by rfl
  rw [hs] at hslot
  cases hslot.symm.trans (congrArg some hact)

end JautoProf
