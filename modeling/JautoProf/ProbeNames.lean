import JautoProf.ProfGraph
import JautoProf.Refines

/-!
# The names of the probes (`instrument-handler.c`, `ProfilerRegistry.java`, `prof_graph.py`)

The profiler of a method is named after its class and its signature, that of a line after the
class and the line that it enters at. A second request for a method is refused while it is
instrumented, one for a line is not.

Results:
1. `probe_names`: as long as no profiler is created under the name of an active one, the names
   that the client reads identify the probes. `probe_names_shared`: two instruments of one line.
-/

namespace JautoProf

open Prog Ledger Act Vouch ProfClient

/-! ## The names -/

/-- The name of a profiler; `utf` is what `NewStringUTF` makes of a string. -/
def ProfilerName.toJava (utf : CStr → JString) : ProfilerName → JString
  | method className methodSig => ProfilerRegistry.methodName (utf className) (utf methodSig)
  | line entryClass entryLine => ProfilerRegistry.lineName (utf entryClass) entryLine.toInt32.toInt

/-- The name as the client reads it. -/
def ProfilerName.text (utf : CStr → JString) (name : ProfilerName) : List UInt8 :=
  Utf8.toUtf8 (name.toJava utf)

/-- The entries of the registry, with what was recorded of the profilers that are active. -/
def Shown (utf : CStr → JString) : List Slot → List ProfilerEntry → Prop :=
  List.Forall₂ fun s e => e.profiler.active = s.active ∧
    e.profiler.instrumentId = UInt64.ofNat s.instrumentId ∧ e.profiler.name = s.name.toJava utf

/-- The name of the profiler that a request creates. -/
def Event.creates (w : World) : Event → Option ProfilerName
  | .instrumentMethod c s =>
    if (miFindMethodByName w.masterInstruments c s).entry.isNone then some (.method c s) else none
  | .instrumentLine c _ l _ => some (.line c.cstr l)
  | _ => none

/-- No active profiler has the name of the one that the event creates. -/
def stepNamed (utf : CStr → JString) (w : World) (ev : Event) : Prop :=
  ∀ name ∈ ev.creates w, ∀ s ∈ w.slots, s.active = true → s.name.text utf ≠ name.text utf

/-- No two active slots have one name. -/
def NamesApart (utf : CStr → JString) (slots : List Slot) : Prop :=
  ∀ (i j : Nat) (s t : Slot), slots[i]? = some s → slots[j]? = some t → s.active = true →
    t.active = true → s.name.text utf = t.name.text utf → i = j

/-! ## Slots that are added and removed -/

section

variable {utf : CStr → JString} {slots slots' : List Slot}

theorem NamesApart.create (h : NamesApart utf slots) {s : Slot}
    (hnew : ∀ t ∈ slots, t.active = true → t.name.text utf ≠ s.name.text utf) :
    NamesApart utf (registryCreate slots s) := by
  intro i j t t' hi hj hact hact' hname
  rw [registryCreate_get] at hi hj
  split at hi
  · next hi' =>
    cases hi
    split at hj
    · next hj' => rw [hi', hj']
    · exact absurd hname.symm (hnew t' (List.mem_of_getElem? hj) hact')
  · split at hj
    · cases hj
      exact absurd hname (hnew t (List.mem_of_getElem? hi) hact)
    · exact h i j t t' hi hj hact hact' hname

theorem NamesApart.lower (h : NamesApart utf slots)
    (hlower : ∀ (i : Nat) (s : Slot), slots'[i]? = some s → s.active = true →
      slots[i]? = some s) :
    NamesApart utf slots' := fun i j s t hi hj hact hact' =>
  h i j s t (hlower i s hi hact) (hlower j t hj hact') hact hact'

theorem registryRemove_lower {pid : Int} {i : Nat} {s : Slot}
    (h : (registryRemove slots pid)[i]? = some s) (hact : s.active = true) :
    slots[i]? = some s := by
  cases pid with
  | negSucc n => exact h
  | ofNat n =>
    rw [registryRemove_get] at h
    split at h
    · obtain ⟨t, -, rfl⟩ := Option.map_eq_some_iff.mp h
      cases hact
    · exact h

/-- The names that the client reads are apart when those of the slots are. -/
theorem names_nodup {entries : List ProfilerEntry} (h : NamesApart utf slots)
    (hshown : Shown utf slots entries) :
    (((ProfilerRegistry.activeEntries entries).map probeOf).map Probe.name).Nodup := by
  obtain ⟨hlength, hentry⟩ := List.forall₂_iff_get.mp hshown
  rw [List.map_map, List.Nodup, List.pairwise_map, ProfilerRegistry.activeEntries,
    List.pairwise_filter, List.pairwise_iff_getElem]
  intro i j hi hj hlt hact hact' hname
  obtain ⟨hact₁, -, hname₁⟩ := hentry i (hlength ▸ hi) hi
  obtain ⟨hact₂, -, hname₂⟩ := hentry j (hlength ▸ hj) hj
  refine hlt.ne (h i j _ _ (List.getElem?_eq_getElem (hlength ▸ hi))
    (List.getElem?_eq_getElem (hlength ▸ hj)) (hact₁ ▸ hact) (hact₂ ▸ hact') ?_)
  have htext : Utf8.toUtf8 (entries.get ⟨i, hi⟩).profiler.name =
      Utf8.toUtf8 (entries.get ⟨j, hj⟩).profiler.name := hname
  rwa [hname₁, hname₂] at htext

end

/-! ## Events that create no profiler -/

/-- The world has the active slot at this place. -/
def HoldsAt (w : World) (t : Nat × Slot) : Prop := w.slots[t.1]? = some t.2 ∧ t.2.active = true

theorem NamesApart.lowers {utf : CStr → JString} {w w' : World} (h : NamesApart utf w.slots)
    (hlower : ∀ t, HoldsAt w' t → HoldsAt w t) : NamesApart utf w'.slots :=
  h.lower fun i s hs hact => (hlower (i, s) ⟨hs, hact⟩).1

theorem slots_act {L : Ledger} {base : Nat} {a : Act} (ha : Act.Paced False base L a) {i : Nat}
    {s : Slot} (h : (apply L a).slots[i]? = some s) (hact : s.active = true) :
    L.slots[i]? = some s := by
  have hrelease : ∀ {pid : Int} {ok : Bool},
      (if ok then registryRemove L.slots pid else L.slots)[i]? = some s → L.slots[i]? = some s := by
    intro pid ok h
    cases ok with
    | true => exact registryRemove_lower h hact
    | false => exact h
  cases a with
  | burn | hide | start => exact ha.1.elim
  | abandon f ok => exact hrelease h
  | release r ok => exact hrelease h
  | load | settled | enqueue | addMethod | dropMethod | addLine | dropLine | settle | mark | install
  | markHalf | dequeue | unqueue | takeMethod | leaveLine | define | purge | leaveMethodRec
  | leaveLineRec | clear | report | readStale => exact h

variable {env : Env} {w w' : World}

theorem holdsAt_step {ev : Event} (hI : Vouch.Inv anyRun w.ledger) (hev : ev.takesId = false)
    {t : Nat × Slot} (h : HoldsAt (step env w ev) t) : HoldsAt w t := by
  let U : Vouch := ⟨False, False, False, True, False, w.masterInstruments.nextId⟩
  have hU : U.Inv w.ledger :=
    ⟨hI.coherent, hI.numbered, False.elim, False.elim, False.elim, False.elim⟩
  have hleads : U.Leads w.ledger (step env w ev).ledger := step_leads hU
    ⟨False.elim, False.elim, False.elim, fun _ => ⟨by simp [hev], fun _ => id⟩, fun _ => rfl⟩
  have hlower := Runs.Reaches.inv (fun L => L.slots[t.1]? = some t.2 → w.slots[t.1]? = some t.2)
    (fun L a hL ha hs => hL (slots_act (ha.paced trivial) hs h.2)) hleads id
  exact ⟨hlower h.1, h.2⟩

/-! ## What is left of a request, once its profiler is created -/

section

variable (env)

theorem slots_deref (p : MiPtr) : Keeps World.slots (deref env p) := by
  intro w
  unfold final deref
  split <;> rfl

theorem slots_performInstrumentation (c : CStr) (p : MiPtr) (id : Nat) (pid : Int) :
    Keeps World.slots (performInstrumentation env c p pid id) := by
  have hbc : Keeps World.slots (doInstrumentation env c) := by
    refine Keeps.bind (Keeps.read _) fun info => ?_
    cases info with
    | none => exact Keeps.pure none
    | some ci =>
      refine Keeps.bind (fun _ => rfl) fun _ => Keeps.ite ?_ (Keeps.pure none)
      exact Keeps.ite (Keeps.bind (fun _ => rfl) fun _ => Keeps.pure _)
        (Keeps.bind (fun _ => rfl) fun _ => Keeps.pure _)
  have hhook : Keeps World.slots (psHandleRetransform env c) := Keeps.bind (Keeps.read _) fun _ =>
    Keeps.ite (Keeps.bind (fun _ => rfl) fun _ => Keeps.pure _) (Keeps.pure none)
  have hinstall : ∀ loader, Keeps World.slots (jniRetransformClass env c loader) := by
    intro loader
    refine Keeps.bind (Keeps.read _) fun target => ?_
    cases target with
    | none => exact Keeps.pure false
    | some i =>
      exact Keeps.bind (Keeps.read _) fun _ => Keeps.bind (fun _ => rfl) fun _ => Keeps.ite
        (Keeps.bind hhook fun _ => Keeps.bind (fun _ => rfl) fun _ => Keeps.pure true)
        (Keeps.pure false)
  refine Keeps.bind (slots_deref env p) fun e => Keeps.bind hbc ?_
  rintro (_ | bc)
  · exact Keeps.pure false
  · refine Keeps.bind (Keeps.read _) fun _ => Keeps.bind (Keeps.bind (fun _ => rfl) fun _ =>
      Keeps.bind (hinstall _) fun _ => Keeps.bind (fun _ => rfl) fun _ => Keeps.pure _) fun _ =>
        Keeps.ite ?_ (Keeps.pure false)
    exact Keeps.bind (slots_deref env p) fun _ => Keeps.bind
      (Keeps.ite (fun _ => rfl) (Keeps.pure ())) fun _ => Keeps.pure true

theorem slots_populateClassInfo (c : CStr) (p : MiPtr) (id : Nat) (pid : Int) :
    Keeps World.slots (populateClassInfo env c p pid id) := by
  refine Keeps.bind (slots_deref env p) fun e => Keeps.bind (fun _ => rfl) fun _ =>
    Keeps.ite ?_ (Keeps.pure false)
  refine Keeps.bind (fun _ => rfl) fun sig => Keeps.bind (fun _ => rfl) fun _ => ?_
  cases sig with
  | none => exact Keeps.bind (fun _ => rfl) fun _ => Keeps.pure false
  | some _ => exact Keeps.pure true

theorem slots_populateClassInfoLine (cE cX : CStr) (p : MiPtr) (id : Nat) (pid : Int) :
    Keeps World.slots (populateClassInfoLine env cE cX p pid id) := by
  refine Keeps.bind (slots_deref env p) fun _ => Keeps.bind (fun _ => rfl) fun _ =>
    Keeps.ite ?_ (Keeps.pure false)
  refine Keeps.bind (fun _ => rfl) fun _ => Keeps.bind (slots_deref env p) fun _ =>
    Keeps.bind (fun _ => rfl) fun _ => Keeps.ite ?_ ?_
  · exact Keeps.bind (fun _ => rfl) fun _ => Keeps.pure true
  · exact Keeps.bind (slots_deref env p) fun _ => Keeps.bind (fun _ => rfl) fun _ =>
      Keeps.pure false

theorem slots_instrumentLater (c s : CStr) (id : Nat) (pid : Int) :
    Keeps World.slots (instrumentLater env c s id pid) := by
  refine Keeps.bind ?_ fun qi => ?_
  · exact Keeps.bind (fun _ => rfl) fun _ => Keeps.ite (Keeps.bind (fun _ => rfl) fun _ =>
      Keeps.bind (fun _ => rfl) fun _ => Keeps.bind (fun _ => rfl) fun _ => Keeps.pure _)
      (Keeps.pure none)
  · split
    · exact Keeps.pure _
    · exact Keeps.bind (fun _ => rfl) fun _ => Keeps.bind (fun _ => rfl) fun _ => Keeps.pure _
    · exact Keeps.bind (fun _ => rfl) fun _ => Keeps.pure _

theorem slots_queueHalf (queue : Bool) (c : CStr) (pid : Int) (id : Nat) (body : QiBody)
    (applied : MiEntry → MiEntry) :
    Keeps World.slots (queueHalf env queue c pid id body applied) := by
  refine Keeps.ite (Keeps.bind ?_ fun _ => Keeps.pure _)
    (Keeps.bind (fun _ => rfl) fun _ => Keeps.pure true)
  exact Keeps.bind (fun _ => rfl) fun _ => Keeps.ite (Keeps.bind (fun _ => rfl) fun _ =>
    Keeps.bind (fun _ => rfl) fun _ => Keeps.pure _) (Keeps.pure none)

theorem slots_instrumentLaterLine (p : MiPtr) (id : Nat) (pid : Int) (b b' : Bool) :
    Keeps World.slots (instrumentLaterLine env p pid id b b') := by
  refine Keeps.bind (slots_deref env p) fun _ => Keeps.bind (slots_queueHalf env _ _ _ _ _ _) fun _ =>
    Keeps.bind (slots_deref env p) fun _ => Keeps.bind
      (Keeps.ite (slots_queueHalf env _ _ _ _ _ _) (Keeps.pure false)) fun _ =>
        Keeps.ite (Keeps.pure _) ?_
  exact Keeps.bind (fun _ => rfl) fun _ => Keeps.bind (fun _ => rfl) fun _ => Keeps.pure _

theorem lowers_of_slots {α : Type} {x : M α} (h : Keeps World.slots x) : Lowers HoldsAt x := by
  refine .of_keeps h fun w w' t heq ht => ?_
  unfold HoldsAt at ht ⊢
  rwa [← heq]

theorem lowers_jniRemoveProfiler (pid : Int) : Lowers HoldsAt (jniRemoveProfiler env pid) := by
  refine Lowers.bind (lowers_of_slots fun _ => rfl) fun ok => Lowers.ite ?_ (.pure ())
  exact fun w t ht => ⟨registryRemove_lower ht.1 ht.2, ht.2⟩

theorem lowers_instrumentNow (c : CStr) (id : Nat) (pid : Int) :
    Lowers HoldsAt (instrumentNow env c id pid) := by
  refine Lowers.bind (lowers_of_slots (slots_populateClassInfo env c id id pid)) fun _ =>
    Lowers.ite ?_ ?_
  · refine Lowers.bind (lowers_of_slots (slots_performInstrumentation env c id id pid)) fun _ =>
      Lowers.ite (.pure _) ?_
    exact Lowers.bind (lowers_of_slots (Keeps.bind (slots_deref env id) fun _ =>
      Keeps.bind (fun _ => rfl) fun _ _ => rfl)) fun _ =>
        Lowers.bind (lowers_jniRemoveProfiler env pid) fun _ => .pure _
  · exact Lowers.bind (lowers_jniRemoveProfiler env pid) fun _ =>
      Lowers.bind (lowers_of_slots fun _ => rfl) fun _ => .pure _

theorem lowers_performInstrumentationLine (cE cX : CStr) (p : MiPtr) (id : Nat) (pid : Int) :
    Lowers HoldsAt (performInstrumentationLine env cE cX p pid id) := by
  refine Lowers.bind (lowers_of_slots (slots_performInstrumentation env cE p id pid)) fun _ =>
    Lowers.bind (Lowers.ite (lowers_of_slots (slots_performInstrumentation env cX p id pid))
      (.pure _)) fun _ => Lowers.ite ?_ ?_
  · exact lowers_of_slots (Keeps.bind (fun _ => rfl) fun _ => Keeps.bind (fun _ => rfl) fun _ =>
      Keeps.pure true)
  · refine Lowers.bind (Lowers.ite (lowers_of_slots fun _ => rfl) (.pure ())) fun _ =>
      Lowers.bind ?_ fun _ => .pure false
    exact Lowers.bind (lowers_of_slots (slots_deref env p)) fun _ =>
      Lowers.bind (lowers_of_slots fun _ => rfl) fun _ =>
        Lowers.bind (lowers_of_slots (slots_deref env p)) fun _ =>
          Lowers.bind (lowers_of_slots fun _ => rfl) fun _ =>
            Lowers.bind (lowers_jniRemoveProfiler env pid) fun _ => lowers_of_slots fun _ => rfl

theorem lowers_instrumentLineCreated (cE cX : CStr) (p : MiPtr) (id : Nat) (pid : Int) :
    Lowers HoldsAt (instrumentLineCreated env cE cX p pid id) := by
  refine Lowers.bind (.read _) fun _ => Lowers.bind (.read _) fun _ => Lowers.ite ?_ ?_
  · refine Lowers.bind (lowers_of_slots (slots_populateClassInfoLine env cE cX p id pid)) fun _ =>
      Lowers.ite ?_ ?_
    · exact Lowers.bind (lowers_performInstrumentationLine env cE cX p id pid) fun _ => .pure _
    · exact Lowers.bind (lowers_jniRemoveProfiler env pid) fun _ =>
        Lowers.bind (lowers_of_slots fun _ => rfl) fun _ => .pure _
  · exact Lowers.bind (lowers_of_slots (slots_instrumentLaterLine env p id pid _ _)) fun _ =>
      Lowers.bind (Lowers.ite (lowers_jniRemoveProfiler env pid) (.pure ())) fun _ => .pure _

end

/-! ## Requests -/

variable {utf : CStr → JString}

/-- The profiler is created under a new name, or not at all. -/
theorem NamesApart.jniCreate {id : Nat} {name : ProfilerName} {pid : Int}
    (h : NamesApart utf w.slots)
    (hnew : ∀ s ∈ w.slots, s.active = true → s.name.text utf ≠ name.text utf)
    (hrun : jniCreate env id name w = (pid, w')) : NamesApart utf w'.slots := by
  rcases jniCreate_run hrun with ⟨-, hw⟩ | ⟨-, hw⟩
  · rw [show w'.slots = w.slots from congrArg Ledger.slots hw]
    exact h
  · rw [show w'.slots = registryCreate w.slots ⟨true, id, name⟩ from congrArg Ledger.slots hw]
    exact h.create hnew

theorem NamesApart.instrumentAdded {c s : CStr} {id : Nat} {e : MiEntry}
    {st : InstrumentRespStatus} (h : NamesApart utf w.slots)
    (hrun : instrumentAdded env c s id id w = (st, w')) (he : w.entry id = some e)
    (hof : e.isMethodOf c s = true)
    (hnew : ∀ t ∈ w.slots, t.active = true →
      t.name.text utf ≠ (ProfilerName.method c s).text utf) :
    NamesApart utf w'.slots := by
  obtain ⟨-, hc, hs⟩ := methodName_of_isMethodOf hof
  obtain ⟨pid, w₁, r₁, h₁⟩ := bind_eq.mp hrun
  have hjni := createProfilerForMethod_run r₁ he
  rw [hc, hs] at hjni
  have hcreated := h.jniCreate hnew hjni
  refine hcreated.lowers fun t ht => Lowers.run ?_ h₁ ht
  refine Lowers.ite ?_ (Lowers.bind (.read _) fun info => ?_)
  · exact Lowers.bind (lowers_of_slots fun _ => rfl) fun _ => .pure _
  · cases info with
    | none =>
      exact Lowers.bind (lowers_of_slots (slots_instrumentLater env c s id pid)) fun _ =>
        Lowers.bind (Lowers.ite (lowers_jniRemoveProfiler env pid) (.pure ())) fun _ => .pure _
    | some _ => exact lowers_instrumentNow env c id pid

theorem NamesApart.instrumentMethod {c s : CStr} (h : NamesApart utf w.slots)
    (hnamed : stepNamed utf w (.instrumentMethod c s)) :
    NamesApart utf (step env w (.instrumentMethod c s)).slots := by
  obtain ⟨r, w', hrun⟩ : ∃ r w', ihInstrumentMethod env c s w = (r, w') := ⟨_, _, rfl⟩
  have hstep : handle env (.instrumentMethod c s) w = (.instrument r.1 r.2, w') :=
    bind_eq.mpr ⟨r, w', hrun, rfl⟩
  rw [step, final, hstep]
  obtain ⟨added, w₁, r₁, h₁⟩ := bind_eq.mp hrun
  obtain ⟨found, w₂, r₂, h₂⟩ := bind_eq.mp r₁
  obtain ⟨rfl, rfl⟩ := read_eq.mp r₂
  rcases miFindMethodByName_cases w.masterInstruments c s with ⟨id, e, hf, he, hof⟩ | ⟨hf, -⟩
  · rw [hf] at h₂
    cases h₂
    cases h₁
    exact h
  · have hnew := hnamed (.method c s) (by simp [Event.creates, hf])
    rw [hf] at h₂
    obtain ⟨miv, w₃, r₃, h₃⟩ := bind_eq.mp h₂
    obtain ⟨rfl, rfl⟩ := pure_eq.mp h₃
    rcases miAddMethod_run r₃ with ⟨rfl, hw₃⟩ | ⟨c', m', rfl, rfl, rfl, hw₃⟩
    · cases h₁
      rw [show w'.slots = w.slots from congrArg Ledger.slots hw₃]
      exact h
    · have hpos : w.masterInstruments.nextId ≠ 0 := w.masterInstruments.nextId_pos.ne'
      simp only [hpos, ↓reduceIte] at h₁
      obtain ⟨st, w₄, r₄, h₄⟩ := bind_eq.mp h₁
      cases h₄
      have hslots : w₃.slots = w.slots := congrArg Ledger.slots hw₃
      have he : w₃.entry w.masterInstruments.nextId = some ⟨c', .method m' true⟩ :=
        entry_of_insert hw₃
      rw [← hslots] at h hnew
      exact h.instrumentAdded r₄ he (by simp [MiEntry.isMethodOf]) hnew

theorem NamesApart.instrumentLine {c x : Pstring} {l l' : UInt32} (h : NamesApart utf w.slots)
    (hnamed : stepNamed utf w (.instrumentLine c x l l')) :
    NamesApart utf (step env w (.instrumentLine c x l l')).slots := by
  obtain ⟨r, w', hrun⟩ : ∃ r w', ihInstrumentLine env c x l l' w = (r, w') := ⟨_, _, rfl⟩
  have hstep : handle env (.instrumentLine c x l l') w = (.instrument r.1 r.2, w') :=
    bind_eq.mpr ⟨r, w', hrun, rfl⟩
  rw [step, final, hstep]
  obtain ⟨miv, w₁, r₁, h₁⟩ := bind_eq.mp hrun
  have hnew := hnamed (.line c.cstr l) rfl
  rcases miAddLinep_run r₁ with ⟨rfl, hw₁⟩ | ⟨rfl, hw₁⟩
  · cases h₁
    rw [show w'.slots = w.slots from congrArg Ledger.slots hw₁]
    exact h
  · have hpos : w.masterInstruments.nextId ≠ 0 := w.masterInstruments.nextId_pos.ne'
    simp only [hpos, ↓reduceIte] at h₁
    obtain ⟨pid, w₂, r₂, h₂⟩ := bind_eq.mp h₁
    have hslots : w₁.slots = w.slots := congrArg Ledger.slots hw₁
    rw [← hslots] at h hnew
    have hcreated := h.jniCreate hnew r₂
    refine hcreated.lowers fun t ht => Lowers.run ?_ h₂ ht
    refine Lowers.ite ?_ ?_
    · exact Lowers.bind (lowers_of_slots fun _ => rfl) fun _ => .pure _
    · exact Lowers.bind (lowers_instrumentLineCreated env _ _ _ _ _) fun _ => .pure _

theorem namesApart_step {ev : Event} (hI : Vouch.Inv anyRun w.ledger)
    (h : NamesApart utf w.slots) (hnamed : stepNamed utf w ev) :
    NamesApart utf (step env w ev).slots := by
  cases ev with
  | instrumentMethod c s => exact h.instrumentMethod hnamed
  | instrumentLine c x l l' => exact h.instrumentLine hnamed
  | addVarBind c n l =>
    obtain ⟨v, w', hrun⟩ : ∃ v w', miAddVarBind env c n l w = (v, w') := ⟨_, _, rfl⟩
    have hstep : handle env (.addVarBind c n l) w = (.none, w') :=
      bind_eq.mpr ⟨v, w', hrun, rfl⟩
    rw [step, final, hstep]
    have hslots : w'.slots = w.slots := by
      rcases miAddVarBind_run hrun with ⟨-, hw⟩ | ⟨e, -, -, hw⟩ <;> exact congrArg Ledger.slots hw
    rw [hslots]
    exact h
  | classLoaded | deinstrumentMethod | deinstrumentById | listInstruments =>
    exact h.lowers fun t => holdsAt_step hI rfl

/-- **Probe names.** In a run in which no request creates a profiler under the name of an
active one, the names that the client reads in every state identify the probes. -/
theorem probe_names (env : Env) (utf : CStr → JString) (evs : List Event)
    (h : Runs.Along (step env) (stepNamed utf) ihCtxInit evs) (entries : List ProfilerEntry)
    (hshown : Shown utf (serve env evs).slots entries) :
    NamesIdentify ((ProfilerRegistry.activeEntries entries).map probeOf) := by
  have hstart : anyRun.Inv ihCtxInit.ledger ∧ NamesApart utf ihCtxInit.slots :=
    ⟨ihCtxInit_inv, by rintro i j s t ⟨⟩⟩
  have hstep : ∀ w ev, anyRun.Inv w.ledger ∧ NamesApart utf w.slots → stepNamed utf w ev →
      anyRun.Inv (step env w ev).ledger ∧ NamesApart utf (step env w ev).slots :=
    fun w ev hw hnamed => ⟨hw.1.leads (step_leads hw.1
      ⟨False.elim, False.elim, False.elim, False.elim, False.elim⟩), namesApart_step hw.1 hw.2 hnamed⟩
  have hrun := Runs.inv_run (fun w => anyRun.Inv w.ledger ∧ NamesApart utf w.slots) hstep hstart h
  exact names_identify (names_nodup hrun.2 hshown)

/-! ## Two instruments of one line -/

/-- `NewStringUTF` on ASCII. -/
def asciiUtf (c : CStr) : JString := c.val.map fun b => UInt16.ofNat b.toNat

/-- The entry of a slot, without snapshots. -/
def entryOf (s : Slot) : ProfilerEntry :=
  ⟨⟨UInt64.ofNat s.instrumentId, s.name.toJava asciiUtf, s.active⟩, []⟩

theorem shown_entryOf (slots : List Slot) : Shown asciiUtf slots (slots.map entryOf) :=
  List.forall₂_map_right_iff.mpr (List.forall₂_same.mpr fun _ _ => ⟨rfl, rfl, rfl⟩)

/-- Three instruments of one class. -/
def apartRun : List Event :=
  [.instrumentLine classA classA 10 20, .instrumentMethod classA.cstr classB.cstr,
    .instrumentLine classA classA 20 30]

/-- They have names of their own. -/
theorem probe_names_three : NamesIdentify ((ProfilerRegistry.activeEntries
    ((serve .smooth apartRun).slots.map entryOf)).map probeOf) := by
  have hnamed : Runs.Along (step .smooth) (stepNamed asciiUtf) ihCtxInit apartRun := by
    refine ⟨?_, ?_, ?_, trivial⟩ <;> (rintro name ⟨⟩; decide)
  exact probe_names .smooth asciiUtf apartRun hnamed _ (shown_entryOf _)

/-- Two instruments that enter at one line. -/
def sharedRun : List Event :=
  [.instrumentLine classA classA 10 20, .instrumentLine classA classA 10 30]

/-- Both probes are `A:10`; the one client summarises the first and the other plots the
second. -/
theorem probe_names_shared : ∃ p q : Probe, p.instrumentId = 1 ∧ q.instrumentId = 2 ∧
    (ProfilerRegistry.activeEntries ((serve .smooth sharedRun).slots.map entryOf)).map probeOf =
      [p, q] ∧
    summaryEntry [p, q] (ascii "A:10") = .ok p ∧
    graphProbes [p, q] (some [ascii "A:10"]) = .ok [q] := by
  have hslots : (serve .smooth sharedRun).slots =
      [⟨true, 1, .line classA.cstr 10⟩, ⟨true, 2, .line classA.cstr 10⟩] := by decide
  have hprobes : (ProfilerRegistry.activeEntries ([⟨true, 1, .line classA.cstr 10⟩,
      ⟨true, 2, .line classA.cstr 10⟩].map entryOf)).map probeOf =
        [⟨1, ascii "A:10", []⟩, ⟨2, ascii "A:10", []⟩] := by decide
  have hselect : summaryEntry [⟨1, ascii "A:10", []⟩, ⟨2, ascii "A:10", []⟩] (ascii "A:10") =
        .ok ⟨1, ascii "A:10", []⟩ ∧
      graphProbes [⟨1, ascii "A:10", []⟩, ⟨2, ascii "A:10", []⟩] (some [ascii "A:10"]) =
        .ok [⟨2, ascii "A:10", []⟩] := select_different [] rfl
  exact ⟨_, _, rfl, rfl, hslots ▸ hprobes, hselect⟩

end JautoProf
