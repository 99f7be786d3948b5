import JautoProf.Owned

/-!
# The deployed code

`Deployed` says of each loaded class what calls the version that the server tracks for it
may contain: those of the records of the class, unless the class lost a record and was not
installed since (`outdated`). A version that another loader defined is not tracked any more
when a class of the same name is loaded again.

Results:
1. `deployed_act`: every enabled act that meets `Own` keeps it.
-/

namespace JautoProf

open Ledger Act

/-- What tells two versions apart. -/
def Version.key (v : Version) : CStr × Option Nat := (v.name, v.loader)

/-- The server tracks the version for the class. -/
def Ledger.tracks (L : Ledger) (c : CStr) (ci : ClassInfo) (v : Version) : Prop :=
  v ∈ L.versions ∧ v.key = (c, ci.loader)

structure Deployed (L : Ledger) : Prop where
  unique : (L.versions.map Version.key).Nodup
  tracked : ∀ c ci, L.cls c = some ci → ∃ v, L.tracks c ci v
  calls : ∀ c ci v, L.cls c = some ci → L.tracks c ci v → c ∉ L.outdated →
    ∀ k ∈ v.calls, k ∈ instrumentCalls ci
  fresh : ∀ f c ci v, L.flight = some f → f.stage ≠ .leaving → L.cls c = some ci →
    L.tracks c ci v → c ∉ L.outdated → c ∉ f.installed → ∀ k ∈ v.calls, k.instrumentId ≠ f.id
  purged : ∀ c ci v, L.purgingAt c → L.cls c = some ci → L.tracks c ci v → v.calls = []

variable {L : Ledger}

/-! ## Versions -/

theorem key_inj {versions : List Version} (h : (versions.map Version.key).Nodup) {i j : Nat}
    {v w : Version} (hi : versions[i]? = some v) (hj : versions[j]? = some w) (hk : v.key = w.key) :
    i = j := by
  have hlt : i < (versions.map Version.key).length := by
    rw [List.length_map]
    exact (List.getElem?_eq_some_iff.mp hi).1
  refine (List.getElem?_inj hlt h).mp ?_
  rw [List.getElem?_map, List.getElem?_map, hi, hj, Option.map_some, Option.map_some, hk]

theorem mem_inj {versions : List Version} (h : (versions.map Version.key).Nodup) {v w : Version}
    (hv : v ∈ versions) (hw : w ∈ versions) (hk : v.key = w.key) : v = w := by
  obtain ⟨i, hi⟩ := List.mem_iff_getElem?.mp hv
  obtain ⟨j, hj⟩ := List.mem_iff_getElem?.mp hw
  rw [key_inj h hi hj hk] at hi
  exact Option.some.inj (hi.symm.trans hj)

theorem map_key_installCode (versions : List Version) (i : Nat) (bc : Option Bytecode) :
    (installCode versions i bc).map Version.key = versions.map Version.key := by
  refine List.ext_getElem? fun j => ?_
  unfold installCode
  rw [List.getElem?_map, List.getElem?_map, List.getElem?_modify]
  cases versions[j]? with
  | none => rfl
  | some v =>
    show Option.map _ (some _) = _
    split <;> rfl

/-- A version after an installation is one from before it, with new calls at the index. -/
theorem mem_installCode {versions : List Version} {i : Nat} {bc : Option Bytecode} {w : Version}
    (h : w ∈ installCode versions i bc) :
    ∃ (j : Nat) (v : Version), versions[j]? = some v ∧ w.key = v.key ∧
      ((j = i ∧ w.calls = (bc.map Bytecode.calls).getD []) ∨ (j ≠ i ∧ w = v)) := by
  obtain ⟨j, hj⟩ := List.mem_iff_getElem?.mp h
  rw [installCode, List.getElem?_modify] at hj
  obtain ⟨v, hv, hw⟩ := Option.map_eq_some_iff.mp hj
  refine ⟨j, v, hv, ?_⟩
  split at hw
  · next hij =>
    subst hw
    exact ⟨rfl, .inl ⟨hij.symm, rfl⟩⟩
  · next hij =>
    subst hw
    exact ⟨rfl, .inr ⟨Ne.symm hij, rfl⟩⟩

/-- The target of a retransformation is the version of the loader, when there is one. -/
theorem retransformTarget_of_mem {versions : List Version} {c : CStr} {loader : Option Nat}
    {v : Version} (hv : v ∈ versions) (hk : v.key = (c, loader)) :
    ∃ (i : Nat) (w : Version), retransformTarget versions c loader = some i ∧ versions[i]? = some w ∧
      w.key = (c, loader) := by
  have hk' : v.name = c ∧ v.loader = loader := by simpa [Version.key] using hk
  cases h : versions.findIdx? fun v => decide (v.name = c ∧ v.loader = loader) with
  | none =>
    have hno := List.findIdx?_eq_none_iff.mp h v hv
    simp [hk'] at hno
  | some i =>
    obtain ⟨hlt, hp, -⟩ := List.findIdx?_eq_some_iff_getElem.mp h
    refine ⟨i, versions[i], ?_, List.getElem?_eq_getElem hlt, ?_⟩
    · rw [retransformTarget, h]
      rfl
    · simpa [Version.key] using hp

theorem nodup_defineVersion {versions : List Version} (h : (versions.map Version.key).Nodup)
    (name : CStr) (loader : Option Nat) :
    ((defineVersion versions name loader).map Version.key).Nodup := by
  unfold defineVersion
  rw [List.map_append, List.nodup_append]
  refine ⟨h.sublist (List.filter_sublist.map _), by simp, ?_⟩
  rintro a ha b hb rfl
  simp only [List.map_cons, List.map_nil, List.mem_singleton] at hb
  obtain ⟨v, hv, hk⟩ := List.mem_map.mp ha
  obtain ⟨-, hne⟩ := List.mem_filter.mp hv
  rw [hb] at hk
  simp only [Version.key, Prod.mk.injEq] at hk
  simp [hk] at hne

/-! ## Calls and records -/

theorem mem_instrumentCalls {ci : ClassInfo} {k : Call} (h : k ∈ instrumentCalls ci) :
    ci.carries k.instrumentId k.profilerId := by
  rcases List.mem_append.mp h with h | h
  · obtain ⟨m, hm, rfl⟩ := List.mem_map.mp h
    exact .inl ⟨m, hm, rfl, rfl⟩
  · obtain ⟨r, hr, rfl⟩ := List.mem_map.mp h
    exact .inr ⟨r, hr, rfl, rfl⟩

/-- The calls of the other instruments stay when the first record of a signature goes. -/
theorem instrumentCalls_removeBySig {ci : ClassInfo} {s : CStr} {m : InstrumentedMethod}
    (hm : ci.instrumented.find? (·.hasSig s) = some m) {k : Call} (hk : k ∈ instrumentCalls ci)
    (hne : k.instrumentId ≠ m.instrumentId) : k ∈ instrumentCalls (ciRemoveInstrumentedBySig s ci) := by
  rcases List.mem_append.mp hk with h | h
  · obtain ⟨m', hm', rfl⟩ := List.mem_map.mp h
    exact List.mem_append_left _ (List.mem_map.mpr
      ⟨m', Lists.mem_eraseP_of_ne hm hm' (fun heq => hne (heq ▸ rfl)), rfl⟩)
  · exact List.mem_append_right _ h

/-- The calls of the other instruments stay when the first record of a line goes. -/
theorem instrumentCalls_removeLine {ci : ClassInfo} {l : UInt32} {r : InstrumentedLine}
    (hr : ci.lines.find? (·.hasLine l) = some r) {k : Call} (hk : k ∈ instrumentCalls ci)
    (hne : k.instrumentId ≠ r.instrumentId) : k ∈ instrumentCalls (ciRemoveInstrumentedLine l ci) := by
  rcases List.mem_append.mp hk with h | h
  · exact List.mem_append_left _ h
  · obtain ⟨r', hr', rfl⟩ := List.mem_map.mp h
    exact List.mem_append_right _ (List.mem_map.mpr
      ⟨r', Lists.mem_eraseP_of_ne hr hr' (fun heq => hne (heq ▸ rfl)), rfl⟩)

theorem instrumentCalls_addMethod (m : InstrumentedMethod) (ci : ClassInfo) :
    ∀ k ∈ instrumentCalls ci, k ∈ instrumentCalls (ciAddInstrumentedMethod m ci) := by
  intro k hk
  simp only [instrumentCalls, ciAddInstrumentedMethod, List.map_append, List.mem_append] at hk ⊢
  exact hk.imp_left .inl

theorem instrumentCalls_addLine (r : InstrumentedLine) (ci : ClassInfo) :
    ∀ k ∈ instrumentCalls ci, k ∈ instrumentCalls (ciAddInstrumentedLine r ci) := by
  intro k hk
  simp only [instrumentCalls, ciAddInstrumentedLine, List.map_append, List.mem_append] at hk ⊢
  exact hk.imp_right .inl

/-! ## Acts -/

/-- No record in a class is one of the instrument. -/
def Ledger.recordless (L : Ledger) (id : Nat) : Prop :=
  ∀ c ci, L.cls c = some ci → ∀ k ∈ instrumentCalls ci, k.instrumentId ≠ id

/-- A change that leaves the versions. -/
theorem Deployed.change (h : Deployed L) {L' : Ledger} (hv : L'.versions = L.versions)
    (hout : ∀ c, c ∉ L'.outdated → c ∉ L.outdated)
    (hcls : ∀ c ci', L'.cls c = some ci' → ∃ ci, L.cls c = some ci ∧ ci'.loader = ci.loader ∧
      (c ∉ L'.outdated → ∀ v, L.tracks c ci v → ∀ k ∈ v.calls, k ∈ instrumentCalls ci →
        k ∈ instrumentCalls ci'))
    (hfl : ∀ f', L'.flight = some f' → f'.stage ≠ .leaving →
      (∃ f, L.flight = some f ∧ f.id = f'.id ∧ f.stage ≠ .leaving ∧
        ∀ c ∈ f.installed, c ∈ f'.installed) ∨ L.recordless f'.id)
    (hp : ∀ c ci v, L'.purgingAt c → L.cls c = some ci → L.tracks c ci v →
      L.purgingAt c ∨ v.calls = []) : Deployed L' := by
  have htr : ∀ {c ci ci' v}, ci'.loader = ci.loader → L'.tracks c ci' v → L.tracks c ci v := by
    intro c ci ci' v hl ht
    exact ⟨hv ▸ ht.1, by rw [ht.2, hl]⟩
  refine ⟨hv ▸ h.unique, fun c ci' hc => ?_, fun c ci' v hc ht hno k hk => ?_,
    fun f' c ci' v hf hst hc ht hno hni k hk => ?_, fun c ci' v hpc hc ht => ?_⟩
  · obtain ⟨ci, hci, hl, -⟩ := hcls c ci' hc
    obtain ⟨v, hmem, hkey⟩ := h.tracked c ci hci
    exact ⟨v, hv.symm ▸ hmem, by rw [hkey, hl]⟩
  · obtain ⟨ci, hci, hl, hsub⟩ := hcls c ci' hc
    exact hsub hno v (htr hl ht) k hk (h.calls c ci v hci (htr hl ht) (hout c hno) k hk)
  · obtain ⟨ci, hci, hl, -⟩ := hcls c ci' hc
    rcases hfl f' hf hst with ⟨f, hf₀, hid, hst₀, hins⟩ | hrec
    · rw [← hid]
      exact h.fresh f c ci v hf₀ hst₀ hci (htr hl ht) (hout c hno) (fun hm => hni (hins c hm)) k hk
    · exact hrec c ci hci k (h.calls c ci v hci (htr hl ht) (hout c hno) k hk)
  · obtain ⟨ci, hci, hl, -⟩ := hcls c ci' hc
    exact (hp c ci v hpc hci (htr hl ht)).elim (fun hpc => h.purged c ci v hpc hci (htr hl ht)) id

theorem recordless_nextId (hC : Coherent L) : L.recordless L.nextId := by
  intro c ci hci k hk
  exact Nat.ne_of_lt (carries_lt hC (.inr ⟨c, ci, hci, mem_instrumentCalls hk⟩))

/-- What waits in the queue has no record in a class. -/
theorem recordless_of_mem (hC : Coherent L) (hfl : L.flight = none)
    {q : QueuedInstr} (hq : q ∈ L.queue) : L.recordless q.instrumentId := by
  obtain ⟨e, hent, ha⟩ := not_isApplied_of_mem hC hfl hq
  intro c ci hci k hk hid
  rcases mem_instrumentCalls hk with ⟨m, hm, hmid, -⟩ | ⟨r, hr, hrid, -⟩
  · obtain ⟨e', s, he', -, ha', -⟩ := hC.method_of_mem hfl hci hm (by simp [hmid, hid, hent])
    rw [hmid, hid, hent] at he'
    cases he'
    rw [ha] at ha'
    cases ha'
  · have ha' := ((hC.lines c ci hci r hr).2 e (by rw [hrid, hid, hent])).2
    rw [ha, flying_none hfl] at ha'
    simp at ha'

theorem Deployed.install (h : Deployed L) {c : CStr} {ci : ClassInfo} {kept : Bool}
    (he : Enabled L (.install c ci kept)) : Deployed (apply L (.install c ci kept)) := by
  obtain ⟨hci, hpu⟩ := he
  obtain ⟨v₀, hv₀, hk₀⟩ := h.tracked c ci hci
  obtain ⟨i, w₀, htarget, hw₀, hkw₀⟩ := retransformTarget_of_mem hv₀ hk₀
  have hvs : (apply L (.install c ci kept)).versions = installCode L.versions i (callsOf ci kept) := by
    show (L.install c ci kept).versions = _
    rw [Ledger.install, htarget]
  have hout : ∀ c', c' ≠ c → c' ∉ (apply L (.install c ci kept)).outdated → c' ∉ L.outdated := by
    intro c' hne hno hmem
    exact hno (List.mem_filter.mpr ⟨hmem, by simpa using hne⟩)
  -- a version tracked afterwards is the one installed, or one tracked before for another class
  have hback : ∀ c' ci' v, L.cls c' = some ci' → (apply L (.install c ci kept)).tracks c' ci' v →
      (c' = c ∧ ci' = ci ∧ ∀ k ∈ v.calls, k ∈ instrumentCalls ci) ∨ (c' ≠ c ∧ L.tracks c' ci' v) := by
    intro c' ci' v hci' ht
    have hmem : v ∈ installCode L.versions i (callsOf ci kept) := hvs ▸ ht.1
    obtain ⟨j, w, hw, hkw, ⟨rfl, hcalls⟩ | ⟨hji, rfl⟩⟩ := mem_installCode hmem
    · rw [hw₀] at hw
      cases hw
      have hkk : (c', ci'.loader) = (c, ci.loader) := by rw [← ht.2, hkw, hkw₀]
      simp only [Prod.mk.injEq] at hkk
      obtain ⟨rfl, -⟩ := hkk
      cases hci.symm.trans hci'
      refine .inl ⟨rfl, rfl, fun k hk => ?_⟩
      rw [hcalls] at hk
      cases kept with
      | true => exact hk
      | false => cases hk
    · refine .inr ⟨fun hcc => hji ?_, List.mem_of_getElem? hw, ht.2⟩
      subst hcc
      cases hci.symm.trans hci'
      exact key_inj h.unique hw hw₀ (ht.2.trans hkw₀.symm)
  refine ⟨?_, fun c' ci' hc' => ?_, fun c' ci' v hc' ht hno k hk => ?_,
    fun f' c' ci' v hf hst hc' ht hno hni k hk => ?_, fun c' ci' v hpc hc' ht => ?_⟩
  · rw [hvs, map_key_installCode]
    exact h.unique
  · obtain ⟨v, hv, hkv⟩ := h.tracked c' ci' hc'
    have hkeys : (c', ci'.loader) ∈ (installCode L.versions i (callsOf ci kept)).map Version.key := by
      rw [map_key_installCode, ← hkv]
      exact List.mem_map_of_mem hv
    obtain ⟨w, hw, hkw⟩ := List.mem_map.mp hkeys
    exact ⟨w, by rw [hvs]; exact hw, hkw⟩
  · rcases hback c' ci' v hc' ht with ⟨-, rfl, hcalls⟩ | ⟨hne, ht'⟩
    · exact hcalls k hk
    · exact h.calls c' ci' v hc' ht' (hout c' hne hno) k hk
  · obtain ⟨f, hf₀, rfl⟩ := Option.map_eq_some_iff.mp hf
    simp only [List.mem_cons, not_or] at hni
    obtain ⟨hne, ht'⟩ := (hback c' ci' v hc' ht).resolve_left fun h => hni.1 h.1
    exact h.fresh f c' ci' v hf₀ hst hc' ht' (hout c' hne hno) hni.2 k hk
  · have hne : c' ≠ c := by
      rintro rfl
      have hpu' : L.purging = true := hpc.1
      rw [hpu hpc.2] at hpu'
      cases hpu'
    obtain ⟨-, ht'⟩ := (hback c' ci' v hc' ht).resolve_left fun h => hne h.1
    exact h.purged c' ci' v hpc hc' ht'

theorem Deployed.define (h : Deployed L) {name : CStr} {loader : Option Nat}
    (he : Enabled L (.define name loader)) : Deployed (apply L (.define name loader)) := by
  have hfl : L.flight = none := he
  have hback : ∀ c ci v, (apply L (.define name loader)).tracks c ci v →
      v.calls = [] ∨ L.tracks c ci v := by
    rintro c ci v ⟨hmem, hkey⟩
    rcases List.mem_append.mp hmem with hmem | hmem
    · exact .inr ⟨(List.mem_filter.mp hmem).1, hkey⟩
    · rw [List.mem_singleton.mp hmem]
      exact .inl rfl
  refine ⟨nodup_defineVersion h.unique name loader, fun c ci hc => ?_, fun c ci v hc ht hno k hk => ?_,
    fun f c ci v hf => ?_, fun c ci v hpc hc ht => ?_⟩
  · obtain ⟨v, hv, hkv⟩ := h.tracked c ci hc
    by_cases hnew : v.name = name ∧ v.loader = loader
    · refine ⟨⟨name, loader, []⟩, List.mem_append_right _ List.mem_cons_self, ?_⟩
      rw [← hkv, ← hnew.1, ← hnew.2]
      rfl
    · exact ⟨v, List.mem_append_left _ (List.mem_filter.mpr ⟨hv, by simp [hnew]⟩), hkv⟩
  · rcases hback c ci v ht with hnil | ht'
    · rw [hnil] at hk
      cases hk
    · exact h.calls c ci v hc ht' hno k hk
  · exact absurd (hfl.symm.trans hf) (by simp)
  · exact (hback c ci v ht).elim id (h.purged c ci v hpc hc)

theorem Deployed.load (h : Deployed L) {ci : ClassInfo} (he : Enabled L (.load ci)) :
    Deployed (apply L (.load ci)) := by
  obtain ⟨hfl, -, hpu, -, -, v₀, hv₀, hname, hloader, hnil⟩ := he
  have hk₀ : v₀.key = (ci.name.cstr, ci.loader) := by rw [Version.key, hname, hloader]
  have hcls : ∀ c, (apply L (.load ci)).cls c =
      if c = ci.name.cstr then some (loadedClass L ci) else L.cls c := fun c =>
    Function.update_apply ..
  have hload : (loadedClass L ci).loader = ci.loader := by
    unfold loadedClass
    split <;> rfl
  have hout : ∀ c, c ≠ ci.name.cstr → c ∉ (apply L (.load ci)).outdated → c ∉ L.outdated := by
    intro c hne hno hmem
    exact hno (List.mem_filter.mpr ⟨hmem, by simpa using hne⟩)
  refine ⟨h.unique, fun c ci' hc => ?_, fun c ci' v hc ht hno k hk => ?_,
    fun f c ci v hf => absurd (hfl.symm.trans hf) (by simp),
    fun c ci' v hpc => absurd hpc.1 (by simp [apply, hpu])⟩
  · rw [hcls] at hc
    split at hc
    · next hcc =>
      cases hc
      exact ⟨v₀, hv₀, by rw [hk₀, hcc, hload]⟩
    · exact h.tracked c ci' hc
  · rw [hcls] at hc
    split at hc
    · next hcc =>
      cases hc
      have hveq : v = v₀ := mem_inj h.unique ht.1 hv₀ (by rw [ht.2, hk₀, hcc, hload])
      rw [hveq, hnil] at hk
      cases hk
    · next hcc => exact h.calls c ci' v hc ht (hout c hcc hno) k hk

/-- Every enabled act that takes only what is its own keeps the deployed code in line. -/
theorem deployed_act (h : Deployed L) (hC : Coherent L) {a : Act} (he : Enabled L a)
    (ho : Own L a) : Deployed (apply L a) := by
  -- the classes are as they were, or the records of one of them are changed
  have hid : ∀ {out : List CStr} (c : CStr) (ci' : ClassInfo), L.cls c = some ci' →
      ∃ ci, L.cls c = some ci ∧ ci'.loader = ci.loader ∧ (c ∉ out → ∀ v, L.tracks c ci v →
        ∀ k ∈ v.calls, k ∈ instrumentCalls ci → k ∈ instrumentCalls ci') :=
    fun c ci' hc => ⟨ci', hc, rfl, fun _ _ _ _ _ hk => hk⟩
  have hmod : ∀ {g : ClassInfo → ClassInfo} {c : CStr} {out : List CStr},
      (∀ ci, (g ci).loader = ci.loader) →
      (∀ ci v, L.cls c = some ci → L.tracks c ci v → c ∉ out → ∀ k ∈ v.calls,
        k ∈ instrumentCalls ci → k ∈ instrumentCalls (g ci)) →
      ∀ c' ci', (L.modCls c g).cls c' = some ci' →
        ∃ ci, L.cls c' = some ci ∧ ci'.loader = ci.loader ∧ (c' ∉ out → ∀ v, L.tracks c' ci v →
          ∀ k ∈ v.calls, k ∈ instrumentCalls ci → k ∈ instrumentCalls ci') := by
    intro g c out hload hg c' ci' hc'
    rcases modCls_some.mp hc' with ⟨rfl, ci, hci, rfl⟩ | ⟨-, hci⟩
    · exact ⟨ci, hci, hload ci, fun hno v ht => hg ci v hci ht hno⟩
    · exact hid c' ci' hci
  have hsame : ∀ {f f' : Flight}, L.flight = some f → f'.id = f.id → f.stage ≠ .leaving →
      (∀ c ∈ f.installed, c ∈ f'.installed) →
      (∃ f, L.flight = some f ∧ f.id = f'.id ∧ f.stage ≠ .leaving ∧
        ∀ c ∈ f.installed, c ∈ f'.installed) ∨ L.recordless f'.id :=
    fun {f _} hf hid hst hins => .inl ⟨f, hf, hid.symm, hst, hins⟩
  cases a with
  | install c ci kept => exact h.install he
  | define name loader => exact h.define he
  | load ci => exact h.load he
  | release r ok => exact absurd ho id
  | start e name =>
    refine h.change rfl (fun _ h => h) hid (fun f hf _ => ?_) (fun _ _ _ hp _ _ => .inl hp)
    cases hf
    exact .inr (recordless_nextId hC)
  | enqueue f qs e =>
    exact h.change rfl (fun _ h => h) hid (fun f hf => by cases hf) (fun _ _ _ hp _ _ => .inl hp)
  | addMethod f c sig =>
    refine h.change rfl (fun _ h => h) (hmod (fun _ => rfl) fun ci v _ _ _ k _ =>
      instrumentCalls_addMethod _ ci k) (fun f' hf _ => ?_) (fun _ _ _ hp _ _ => .inl hp)
    cases hf
    exact hsame he.1 rfl (by simp [he.2.1]) fun _ h => h
  | addLine f k =>
    refine h.change rfl (fun _ h => h) (hmod (fun _ => rfl) fun ci v _ _ _ k _ =>
      instrumentCalls_addLine _ ci k) (fun f' hf _ => ?_) (fun _ _ _ hp _ _ => .inl hp)
    cases hf
    exact hsame he.1 rfl he.2.1 fun _ h => h
  | dropMethod f c s =>
    obtain ⟨hfl, hst, hni, hpu, e, hent, hof⟩ := he
    refine h.change rfl (fun _ h => h) (hmod (fun _ => rfl) fun ci v hci ht hno k hk hmem => ?_)
      (fun f' hf hst' => ?_) (fun _ _ _ hp _ _ => .inl hp)
    · cases hm : ci.instrumented.find? (·.hasSig s) with
      | none =>
        show k ∈ instrumentCalls { ci with instrumented := ci.instrumented.eraseP _ }
        rwa [Lists.eraseP_of_find?_eq_none hm]
      | some m =>
        -- the record that is dropped is the one of the instrument in flight, which no version calls
        refine instrumentCalls_removeBySig hm hmem ?_
        obtain ⟨e', hent', hof', -⟩ := hC.instrumentId_of_find hpu hci hm
        rw [hC.unique _ _ _ _ c s hent' hent hof' hof]
        exact h.fresh f c ci v hfl (by simp [hst]) hci ht hno hni k hk
    · cases hf
      exact absurd rfl hst'
  | dropLine f c l =>
    obtain ⟨hfl, hst, hout, -⟩ := he
    have hfirst : L.firstLine c l = some f.id := ho
    refine h.change rfl (fun _ h => h) (hmod (fun _ => rfl) fun ci v hci ht hno k hk hmem => ?_)
      (fun f' hf hst' => ?_) (fun _ _ _ hp _ _ => .inl hp)
    · rw [firstLine, hci, Option.bind_some] at hfirst
      obtain ⟨r, hr, hrid⟩ := Option.map_eq_some_iff.mp hfirst
      refine instrumentCalls_removeLine hr hmem ?_
      rw [hrid]
      refine h.fresh f c ci v hfl (fun hl => hno (hout (.inr hl))) hci ht hno
        (fun hi => hno (hout (.inl hi))) k hk
    · cases hf
      exact hsame hfl rfl hst' fun _ h => h
  | settle f =>
    exact h.change rfl (fun _ h => h) hid (fun f hf => by cases hf) (fun _ _ _ hp _ _ => .inl hp)
  | abandon f ok =>
    exact h.change rfl (fun _ h => h) hid (fun f hf => by cases hf) (fun _ _ _ hp _ _ => .inl hp)
  | mark c =>
    exact h.change rfl (fun _ h hm => h (List.mem_cons_of_mem c hm)) hid
      (fun f hf hst => hsame hf rfl hst fun _ h => h) (fun _ _ _ hp _ _ => .inl hp)
  | markHalf c q =>
    have hnone : (apply L (.markHalf c q)).flight = none := he.2.1
    exact h.change rfl (fun _ h => h) hid (fun f hf => absurd (hnone.symm.trans hf) (by simp))
      (fun _ _ _ hp _ _ => .inl hp)
  | dequeue c q =>
    refine h.change rfl (fun _ h => h) hid (fun f hf _ => ?_) (fun _ _ _ hp _ _ => .inl hp)
    cases hf
    exact .inr (recordless_of_mem hC he.2.1 (List.mem_of_find?_eq_some he.2.2.2.1))
  | unqueue id q =>
    refine h.change rfl (fun _ h => h) hid (fun f hf hst => ?_) (fun _ _ _ hp _ _ => .inl hp)
    cases hf
    exact absurd rfl hst
  | takeMethod c s m =>
    refine h.change rfl (fun _ h hm => h (List.mem_cons_of_mem c hm))
      (hmod (fun _ => rfl) fun ci v _ _ hno => absurd List.mem_cons_self hno) (fun f hf hst => ?_)
      (fun _ _ _ hp _ _ => .inl hp)
    cases hf
    exact absurd rfl hst
  | leaveLine id e ci =>
    refine h.change rfl (fun _ h => h) hid (fun f hf hst => ?_) (fun _ _ _ hp _ _ => .inl hp)
    cases hf
    exact absurd rfl hst
  | leaveMethodRec m =>
    refine h.change rfl (fun _ h => h) hid (fun f hf hst => ?_) (fun _ _ _ hp _ _ => .inl hp)
    cases hf
    exact absurd rfl hst
  | leaveLineRec r =>
    refine h.change rfl (fun _ h => h) hid (fun f hf hst => ?_) (fun _ _ _ hp _ _ => .inl hp)
    cases hf
    exact absurd rfl hst
  | purge =>
    obtain ⟨hfl, c₀, ci₀, hlo, hci₀, hnil⟩ := he
    refine h.change rfl (fun _ h => h) hid (fun f hf => absurd (hfl.symm.trans hf) (by simp))
      (fun c ci v hp hci ht => .inr ?_)
    -- the class that is purged has no version with code
    cases Option.some.inj (hlo.symm.trans hp.2)
    cases hci₀.symm.trans hci
    have hkey := ht.2
    simp only [Version.key, Prod.mk.injEq] at hkey
    exact hnil v ht.1 hkey.1 hkey.2
  | clear c =>
    obtain ⟨hfl, hpu, hlo, -⟩ := he
    refine h.change rfl (fun _ h => h) (hmod (fun _ => rfl) fun ci v hci ht _ k hk => ?_)
      (fun f hf => absurd (hfl.symm.trans hf) (by simp)) (fun _ _ _ hp _ _ => by cases hp.1)
    rw [h.purged c ci v ⟨hpu, hlo⟩ hci ht] at hk
    cases hk
  | hide e =>
    exact h.change rfl (fun _ h => h) hid (fun f hf => absurd (he.1.symm.trans hf) (by simp))
      (fun _ _ _ hp _ _ => .inl hp)
  | settled =>
    exact h.change rfl (fun _ h => h) hid (fun f hf hst => hsame hf rfl hst fun _ h => h)
      (fun _ _ _ hp _ _ => by cases hp.2)
  | burn | report | readStale =>
    exact h.change rfl (fun _ h => h) hid (fun f hf hst => hsame hf rfl hst fun _ h => h)
      (fun _ _ _ hp _ _ => .inl hp)

end JautoProf
