import JautoProf.RefinesDeinstrument

/-!
# A class load, seen as acts

A class that is loaded again takes over the records of the class before it. When its code
cannot be installed with them, `ih_reapply_instruments` gives all their instruments up, one
after the other. After that the deferred instruments of the class are applied.

Results:
1. `handleClassLoaded_leads`.
-/

namespace JautoProf

open Prog Ledger Act Vouch

variable {env : Env} {V : Vouch} {w w' : World} {c : CStr} {Q : List QueuedInstr}

/-! ## The records of a class that is given up -/

theorem Coherent.entry_of_mem {L : Ledger} (h : Coherent L) (hfl : L.flight = none)
    (hpu : L.purging = false) {ci : ClassInfo} (hci : L.cls c = some ci) {m : InstrumentedMethod}
    (hm : m ∈ ci.instrumented) : L.entry m.instrumentId ≠ none := by
  intro hnone
  have hkeys := h.methods_eq hpu hci m.instrumentId
  rw [methodKeysOf_none hfl, hnone, appliedKeys_none, List.map_eq_nil_iff] at hkeys
  exact absurd (List.filter_eq_nil_iff.mp hkeys m hm) (by simp [InstrumentedMethod.hasId])

/-- Each instrument has at most one record in a class. -/
theorem Coherent.nodup {L : Ledger} (h : Coherent L) (hfl : L.flight = none)
    (hpu : L.purging = false) {ci : ClassInfo} (hci : L.cls c = some ci) :
    (ci.instrumented.map (·.instrumentId)).Nodup := by
  refine List.nodup_iff_count.mpr fun id => ?_
  have hkeys := congrArg List.length (h.methods_eq hpu hci id)
  rw [List.length_map, methodKeysOf_none hfl] at hkeys
  have hcount : (ci.instrumented.map (·.instrumentId)).count id =
      (ci.instrumented.filter (·.hasId id)).length := by
    rw [List.count, List.countP_map, List.countP_eq_length_filter]
    rfl
  rw [hcount, hkeys]
  cases he : L.entry id with
  | none => exact Nat.zero_le _
  | some e =>
    rw [appliedKeys_some]
    split
    · obtain ⟨c', b⟩ := e
      cases b with
      | method n d =>
        simp only [methodKeys]
        split <;> simp
      | line => exact Nat.zero_le _
      | varBind => exact Nat.zero_le _
    · exact Nat.zero_le _

theorem removeMethods_leads {ms : List InstrumentedMethod} {u : Unit} {ci : ClassInfo}
    (h : removeMethods env ms w = (u, w')) (hci : w.cls c = some ci)
    (hsub : ∀ m ∈ ms, m ∈ ci.instrumented) (hent : ∀ m ∈ ms, w.entry m.instrumentId ≠ none)
    (hnd : (ms.map (·.instrumentId)).Nodup) (hr : V.removed → RemoveOk env) :
    V.Leads (w.ledger.amid Q none (some c) true) (w'.ledger.amid Q none (some c) true) ∧
      w'.cls = w.cls ∧ w'.queuedInstruments = w.queuedInstruments ∧
      (∀ id, (∀ m ∈ ms, m.instrumentId ≠ id) → w'.entry id = w.entry id) ∧
      ∀ m ∈ ms, w'.entry m.instrumentId = none := by
  induction ms generalizing w with
  | nil =>
    cases h
    exact ⟨.refl _, rfl, rfl, fun _ _ => rfl, nofun⟩
  | cons m ms ih =>
    obtain ⟨_, w₁, r₁, h₁⟩ := bind_eq.mp h
    obtain ⟨_, w₂, r₂, h₂⟩ := bind_eq.mp h₁
    obtain ⟨ok, hok, hw₂⟩ := jniRemoveProfiler_run r₂
    rw [removeEntry_run r₁] at hw₂
    have hentry : ∀ id, w₂.entry id = if id = m.instrumentId then none else w.entry id := fun id => by
      rw [show w₂.entry = _ from congrArg Ledger.entry hw₂]
      exact setEntry_entry ..
    have hcls : w₂.cls = w.cls := congrArg Ledger.cls hw₂
    obtain ⟨hnotin, hnd'⟩ := List.nodup_cons.mp hnd
    -- each record belongs to another instrument, so the entries of the rest are still there
    have hne : ∀ m' ∈ ms, m'.instrumentId ≠ m.instrumentId := fun m' hm' heq =>
      hnotin (List.mem_map.mpr ⟨m', hm', heq⟩)
    obtain ⟨hrest, hcls', hq', hsame, hnone⟩ := ih h₂ (hcls ▸ hci)
      (fun m' hm' => hsub m' (List.mem_cons_of_mem _ hm'))
      (fun m' hm' => by
        rw [hentry, if_neg (hne m' hm')]
        exact hent m' (List.mem_cons_of_mem _ hm')) hnd'
    refine ⟨?_, hcls'.trans hcls, hq'.trans (congrArg Ledger.queue hw₂), fun id hid => ?_,
      fun m' hm' => ?_⟩
    · refine (((Leads.refl _).snoc (a := .leaveMethodRec m)
        (.plain ⟨rfl, rfl, hent m List.mem_cons_self, c, ci, rfl, hci, hsub m List.mem_cons_self⟩ rfl)
        rfl).snoc (a := .abandon ⟨m.instrumentId, m.profilerId, .leaving, [], []⟩ ok)
        (.abandon ⟨rfl, nofun, .inl rfl⟩ fun hv => hok (hr hv)) ?_).trans hrest
      rw [hw₂]
      rfl
    · rw [hsame id fun m' hm' => hid m' (List.mem_cons_of_mem _ hm'), hentry,
        if_neg (hid m List.mem_cons_self).symm]
    · by_cases hin : ∃ m'' ∈ ms, m''.instrumentId = m'.instrumentId
      · obtain ⟨m'', hm'', heq⟩ := hin
        rw [← heq]
        exact hnone m'' hm''
      · have hm : m' = m := (List.mem_cons.mp hm').resolve_right fun hin' => hin ⟨m', hin', rfl⟩
        rw [hsame _ fun m'' hm'' heq => hin ⟨m'', hm'', heq⟩, hentry, hm, if_pos rfl]

/-! ## Line records -/

/-- Without the half in the other class, the half in this class remains. -/
theorem lineKeys_eraseP_other {e : MiEntry} {k k' : LineKey} (hk : k ∈ lineKeys (some e))
    (hk' : k' ∈ lineKeys (some e)) (hne : k.cls ≠ k'.cls) :
    ((lineKeys (some e)).eraseP fun x => decide (x.cls = k'.cls ∧ x.line = k'.line)) = [k] := by
  rw [lineKeys_eq (List.ne_nil_of_mem hk)] at *
  simp only [List.mem_cons, List.not_mem_nil, or_false] at hk hk'
  rcases hk with rfl | rfl <;> rcases hk' with rfl | rfl <;> simp_all

/-- What `cleanup_dangling` takes away is the half of the instrument in the other class. -/
theorem cleanupDangling_leads {id : Nat} {n : Int} {e : MiEntry} {k k' : LineKey} {u : Unit}
    (h : cleanupDangling env id k'.type w = (u, w')) (he : w.entry id = some e)
    (hk : k ∈ lineKeys (some e)) (hk' : k' ∈ lineKeys (some e)) (hne : k.cls ≠ k'.cls)
    (hkeys : ∀ x ∈ lineKeys (some e), x.cls = k.cls ∨ x.cls = k'.cls)
    (hown : V.own → w.ledger.firstLine k'.cls k'.line = some id) :
    ∃ f : Flight, f.id = id ∧ f.profilerId = n ∧ f.stage = .leaving ∧
      (∀ x ∈ f.recs, some k.cls = some x.cls ∨ w'.cls x.cls = none) ∧ w'.entry = w.entry ∧
      w'.cls k.cls = w.cls k.cls ∧ w'.queuedInstruments = w.queuedInstruments ∧
      V.Leads (w.ledger.amid Q (some ⟨id, n, .leaving, lineKeys (some e), []⟩) (some k.cls) true)
        (w'.ledger.amid Q (some f) (some k.cls) true) := by
  obtain ⟨e₁, w₁, r₁, h₁⟩ := bind_eq.mp h
  obtain ⟨rfl, rfl⟩ := deref_run r₁ he
  -- what is done with the class of the other half, if it is found
  obtain ⟨cleanup, habsent, hfound, hhalf⟩ : ∃ cleanup : Option ClassInfo → M Unit,
      cleanup none = pure () ∧
      (∀ ci, cleanup (some ci) = do
        let _ ← takeLine k'.cls k'.line
        let _ ← restoreClass env k'.cls k'.cls
        pure ()) ∧ (Prog.read (·.cls k'.cls) >>= cleanup) w₁ = (u, w') := by
    rw [lineKeys_eq (List.ne_nil_of_mem hk)] at hk'
    rcases List.mem_cons.mp hk' with rfl | hk'
    · exact ⟨_, rfl, fun _ => rfl, h₁⟩
    · obtain rfl := List.mem_singleton.mp hk'
      exact ⟨_, rfl, fun _ => rfl, h₁⟩
  obtain ⟨info, w₂, r₂, h₂⟩ := bind_eq.mp hhalf
  obtain ⟨rfl, rfl⟩ := read_eq.mp r₂
  cases hci : w₁.cls k'.cls with
  | none =>
    rw [hci, habsent] at h₂
    cases h₂
    refine ⟨_, rfl, rfl, rfl, fun x hx => ?_, rfl, rfl, rfl, .refl _⟩
    rcases hkeys x hx with heq | heq
    · exact .inl (congrArg some heq.symm)
    · exact .inr ((congrArg _ heq).trans hci)
  | some ci =>
    rw [hci, hfound] at h₂
    obtain ⟨p, w₃, r₃, h₃⟩ := bind_eq.mp h₂
    obtain ⟨r, w₄, r₄, h₄⟩ := bind_eq.mp h₃
    cases h₄
    have hw₃ := (takeLine_run r₃).1
    have hcls₃ : w₃.cls k.cls = w₁.cls k.cls := by
      rw [show w₃.cls = _ from congrArg Ledger.cls hw₃]
      exact (modCls_cls ..).trans (if_neg hne)
    have hdrop : V.Leads
        (w₁.ledger.amid Q (some ⟨id, n, .leaving, lineKeys (some e₁), []⟩) (some k.cls) true)
        (w₃.ledger.amid Q (some ⟨id, n, .leaving, [k], []⟩) (some k.cls) true) := by
      refine ((Leads.refl _).snoc (a := .mark k'.cls) (.plain trivial rfl) rfl).snoc
        (a := .dropLine _ k'.cls k'.line)
        (.owning ⟨rfl, (by simp), fun _ => List.mem_cons_self, ?_⟩ hown rfl) ?_
      · show lineKeys (w₁.entry id) ≠ []
        rw [he]
        exact List.ne_nil_of_mem hk
      · rw [hw₃]
        simp only [apply, lineKeys_eraseP_other hk hk' hne]
        rfl
    obtain ⟨I, hrestore, hent, hcls, hq⟩ := restoreClass_leads (V := V) (Q := Q)
      (f := ⟨id, n, .leaving, [k], []⟩) (o := some k.cls) (p := true) r₄
      (fun heq => absurd (Option.some.inj heq) hne)
    refine ⟨_, rfl, rfl, rfl, fun x hx => .inl ?_, hent.trans ?_, (congrFun hcls _).trans hcls₃,
      hq.trans (congrArg Ledger.queue hw₃), hdrop.trans hrestore⟩
    · rw [List.mem_singleton.mp hx]
    · rw [hw₃]
      rfl

/-- What a round of the loop over the line records leaves of the state. -/
structure CleanedUp (c : CStr) (r : InstrumentedLine) (w w' : World) : Prop where
  cls : w'.cls c = w.cls c
  queue : w'.queuedInstruments = w.queuedInstruments
  others : ∀ id, id ≠ r.instrumentId → w'.entry id = w.entry id
  own : ∀ e, w'.entry r.instrumentId = some e → w.entry r.instrumentId = some e ∧
    r.type = .exit ∧ e.entryClassName.cstr = e.exitClassName.cstr

/-- A round of the loop over the line records: the instrument of a record is given up, but
for the second half of an instrument in one class. -/
theorem cleanupFailedLine_leads {r : InstrumentedLine} {u : Unit} {ci : ClassInfo}
    (h : cleanupFailedLine env r w = (u, w')) (hI : V.Inv (w.ledger.amid Q none (some c) true))
    (hci : w.cls c = some ci) (hmem : r ∈ ci.lines)
    (hent : V.own → r.type = .enter → w.entry r.instrumentId ≠ none)
    (hown : V.own → cleanupOwn w r = true) (hr : V.removed → RemoveOk env) :
    V.Leads (w.ledger.amid Q none (some c) true) (w'.ledger.amid Q none (some c) true) ∧
      CleanedUp c r w w' := by
  obtain ⟨found, w₁, r₁, h₁⟩ := bind_eq.mp h
  obtain ⟨rfl, rfl⟩ := findEntry_run r₁
  obtain ⟨crossClass, w₂, r₂, h₂⟩ := bind_eq.mp h₁
  cases he : w₁.entry r.instrumentId with
  | none =>
    rw [he] at r₂
    cases r₂
    obtain ⟨_, w₃, r₃, h₃⟩ := bind_eq.mp h₂
    cases r₃
    split at h₃
    · next htype =>
      obtain ⟨_, w₄, r₄, r₅⟩ := bind_eq.mp h₃
      obtain ⟨ok, hok, hw'⟩ := jniRemoveProfiler_run r₅
      rw [removeEntry_run r₄, setEntry_of_eq he] at hw'
      have hentry : w'.entry = w₁.entry := congrArg Ledger.entry hw'
      refine ⟨(Leads.refl _).snoc (a := .release r ok)
        (.owning ⟨rfl, he, c, ci, rfl, hci, hmem⟩ (fun hv => ?_) rfl) ?_,
        congrFun (congrArg Ledger.cls hw') c, congrArg Ledger.queue hw',
        fun id _ => congrFun hentry id, fun e he' => ?_⟩
      · exact hent hv (htype.resolve_right nofun) he
      · rw [hw']
        rfl
      · rw [hentry, he] at he'
        cases he'
    · cases h₃
      exact ⟨.refl _, rfl, rfl, fun _ _ => rfl, fun e he' => absurd (he.symm.trans he') nofun⟩
  | some e =>
    rw [he] at r₂
    obtain ⟨e₁, w₃, r₃, r₄⟩ := bind_eq.mp r₂
    obtain ⟨rfl, rfl⟩ := deref_run r₃ he
    obtain ⟨rfl, rfl⟩ := pure_eq.mp r₄
    have hk : r.key c ∈ lineKeys (some e₁) := ((hI.coherent.lines c ci hci r hmem).2 e₁ he).1
    have hkeys := lineKeys_eq (List.ne_nil_of_mem hk)
    have hleave : V.Leads (w₃.ledger.amid Q none (some c) true) (w₃.ledger.amid Q
        (some ⟨r.instrumentId, r.profilerId, .leaving, lineKeys (some e₁), []⟩) (some c) true) := by
      refine (Leads.refl _).snoc (a := .leaveLineRec r)
        (.plain ⟨rfl, rfl, ?_, c, ci, rfl, hci, hmem⟩ rfl) ?_
      · show w₃.entry r.instrumentId ≠ none
        simp [he]
      · show w₃.ledger.amid Q (some ⟨_, _, _, lineKeys (w₃.entry r.instrumentId), _⟩) _ _ = _
        rw [he]
        rfl
    -- the end of every round that gives the instrument up
    have hgive : ∀ {w₁ : World} {f : Flight}, f.id = r.instrumentId → f.profilerId = r.profilerId →
        f.stage = .leaving → (∀ x ∈ f.recs, some c = some x.cls ∨ w₁.cls x.cls = none) →
        w₁.entry = w₃.entry → w₁.cls c = w₃.cls c → w₁.queuedInstruments = w₃.queuedInstruments →
        V.Leads (w₃.ledger.amid Q none (some c) true) (w₁.ledger.amid Q (some f) (some c) true) →
        (do removeEntry r.instrumentId
            jniRemoveProfiler env r.profilerId : M Unit) w₁ = (u, w') →
        V.Leads (w₃.ledger.amid Q none (some c) true) (w'.ledger.amid Q none (some c) true) ∧
          CleanedUp c r w₃ w' := by
      intro w₁ f hid hpid hst hrecs hentry hcls hq hl h
      obtain ⟨_, w₂, r₂, r₃⟩ := bind_eq.mp h
      obtain ⟨ok, hok, hw'⟩ := jniRemoveProfiler_run r₃
      rw [removeEntry_run r₂] at hw'
      have hentry' : ∀ id, w'.entry id = if id = r.instrumentId then none else w₃.entry id := by
        intro id
        rw [show w'.entry = _ from congrArg Ledger.entry hw', ← hentry]
        exact setEntry_entry ..
      refine ⟨hl.snoc (a := .abandon f ok)
        (.abandon ⟨rfl, fun h => ?_, .inr ⟨rfl, hrecs⟩⟩ fun hv => hok (hr hv)) ?_,
        (congrFun (congrArg Ledger.cls hw') c).trans hcls,
        (congrArg Ledger.queue hw').trans hq, fun id hne => ?_, fun e he' => ?_⟩
      · rw [hst] at h
        cases h
      · rw [hw']
        simp only [apply, hid, hpid]
        rfl
      · rw [hentry', if_neg hne]
      · rw [hentry', if_pos rfl] at he'
        cases he'
    obtain ⟨_, w₄, r₅, h₄⟩ := bind_eq.mp h₂
    by_cases hcross : e₁.entryClassName.cstr = e₁.exitClassName.cstr
    · -- both halves are in this class
      rw [if_neg (by simpa using hcross)] at r₅
      cases r₅
      have hall : ∀ x ∈ lineKeys (some e₁), x.cls = c := by
        rw [hkeys] at hk ⊢
        intro x hx
        rcases List.mem_cons.mp hk with hk | hk <;> rcases List.mem_cons.mp hx with rfl | hx
        · exact (congrArg LineKey.cls hk).symm
        · rw [List.mem_singleton.mp hx]
          exact hcross.symm.trans (congrArg LineKey.cls hk).symm
        · exact hcross.trans (congrArg LineKey.cls (List.mem_singleton.mp hk)).symm
        · rw [List.mem_singleton.mp hx]
          exact (congrArg LineKey.cls (List.mem_singleton.mp hk)).symm
      split at h₄
      · exact hgive rfl rfl rfl (fun x hx => .inl (congrArg some (hall x hx).symm)) rfl rfl rfl
          hleave h₄
      · next htype =>
        cases h₄
        refine ⟨.refl _, rfl, rfl, fun _ _ => rfl, fun e he' => ?_⟩
        cases he.symm.trans he'
        refine ⟨he, ?_, hcross⟩
        cases ht : r.type with
        | enter => exact absurd (.inl ht) htype
        | exit => rfl
    · rw [if_pos (by simpa using hcross)] at r₅
      rw [if_pos (.inr (by simpa using hcross))] at h₄
      obtain ⟨k', hk', htype, hne, hpair, hfirst⟩ : ∃ k' ∈ lineKeys (some e₁),
          k'.type = (if r.type = .enter then .exit else .enter) ∧ c ≠ k'.cls ∧
            (∀ x ∈ lineKeys (some e₁), x.cls = c ∨ x.cls = k'.cls) ∧
            (V.own → w₃.ledger.firstLine k'.cls k'.line = some r.instrumentId) := by
        have htake := hown
        simp only [cleanupOwn, he, Option.all_some, Bool.or_eq_true, decide_eq_true_eq, hcross,
          false_or] at htake
        rw [hkeys] at hk ⊢
        rcases List.mem_cons.mp hk with hk | hk
        · obtain ⟨rfl, -, ht⟩ : c = _ ∧ _ ∧ r.type = _ := by simpa [InstrumentedLine.key] using hk
          rw [ht] at htake ⊢
          exact ⟨_, List.mem_cons_of_mem _ List.mem_cons_self, rfl, hcross, by simp, htake⟩
        · obtain ⟨rfl, -, ht⟩ : c = _ ∧ _ ∧ r.type = _ := by simpa [InstrumentedLine.key] using hk
          rw [ht] at htake ⊢
          exact ⟨_, List.mem_cons_self, rfl, Ne.symm hcross, by simp, htake⟩
      rw [← htype] at r₅
      obtain ⟨f, hid, hpid, hst, hrecs, hentry, hcls, hq, hl⟩ := cleanupDangling_leads (V := V)
        (Q := Q) (n := r.profilerId) r₅ he hk hk' hne hpair hfirst
      exact hgive hid hpid hst hrecs hentry hcls hq (hleave.trans hl) h₄

/-- An instrument has its record for the entry line before the one for the exit line. -/
theorem Lined.pairwise {L : Ledger} (h : Lined L) (hfl : L.flight = none) (hpu : L.purging = false)
    {ci : ClassInfo} (hci : L.cls c = some ci) :
    ci.lines.Pairwise fun r r' => r'.type = .enter → r.instrumentId ≠ r'.instrumentId := by
  refine List.pairwise_iff_forall_sublist.mpr fun {r r'} hsub htype heq => ?_
  have hkeys := h.lines_eq hpu hci r'.instrumentId
  have hpair : [r.key c, r'.key c].Sublist (L.lineRecsOf r'.instrumentId) := by
    refine List.Sublist.trans ?_ (hkeys ▸ List.filter_sublist)
    have hfilter := (hsub.filter (·.hasId r'.instrumentId)).map (InstrumentedLine.key c)
    simpa [InstrumentedLine.hasId, heq] using hfilter
  rw [lineRecsOf_none hfl] at hpair
  cases he : L.entry r'.instrumentId with
  | none =>
    rw [he] at hpair
    cases hpair
  | some e =>
    rw [he, appliedLines_some] at hpair
    split at hpair
    · have hne : lineKeys (some e) ≠ [] := List.ne_nil_of_mem (hpair.subset List.mem_cons_self)
      rw [lineKeys_eq hne] at hpair
      have hlist := hpair.eq_of_length rfl
      simp [InstrumentedLine.key, htype] at hlist
    · cases hpair

theorem Lined.entry_of_mem {L : Ledger} (h : Lined L) (hfl : L.flight = none)
    (hpu : L.purging = false) {ci : ClassInfo} (hci : L.cls c = some ci) {r : InstrumentedLine}
    (hr : r ∈ ci.lines) : L.entry r.instrumentId ≠ none := by
  intro hnone
  have hkeys := h.lines_eq hpu hci r.instrumentId
  rw [lineRecsOf_none hfl, hnone, appliedLines_none, List.filter_nil, List.map_eq_nil_iff] at hkeys
  exact absurd (List.filter_eq_nil_iff.mp hkeys r hr) (by simp [InstrumentedLine.hasId])

theorem cleanupLinesFrom_leads {rs : List InstrumentedLine} {i : Nat} {u : Unit} {ci : ClassInfo}
    (h : cleanupLinesFrom env c rs.length i w = (u, w')) (hrs : ci.lines.drop i = rs)
    (hI : V.Inv (w.ledger.amid Q none (some c) true)) (hci : w.cls c = some ci)
    (hpair : V.own → rs.Pairwise fun r r' => r'.type = .enter → r.instrumentId ≠ r'.instrumentId)
    (hent : V.own → ∀ r ∈ rs, r.type = .enter → w.entry r.instrumentId ≠ none)
    (hown : V.own → cleanupsOwn env c rs.length i w = true) (hr : V.removed → RemoveOk env) :
    V.Leads (w.ledger.amid Q none (some c) true) (w'.ledger.amid Q none (some c) true) ∧
      w'.cls c = some ci ∧ w'.queuedInstruments = w.queuedInstruments ∧
      (∀ id e, w'.entry id = some e → w.entry id = some e) ∧
      ∀ r ∈ rs, ∀ e, w'.entry r.instrumentId = some e →
        r.type = .exit ∧ e.entryClassName.cstr = e.exitClassName.cstr := by
  induction rs generalizing w i with
  | nil =>
    cases h
    exact ⟨.refl _, hci, rfl, fun _ _ he => he, nofun⟩
  | cons r rs ih =>
    have hget : ci.lines[i]? = some r := by
      rw [← Nat.add_zero i, ← List.getElem?_drop, hrs]
      rfl
    have hmem : r ∈ ci.lines := List.mem_of_getElem? hget
    obtain ⟨info, w₁, r₁, h₁⟩ := bind_eq.mp h
    obtain ⟨rfl, rfl⟩ := read_eq.mp r₁
    simp only [hci, Option.map_some, Option.bind_some, hget] at h₁
    obtain ⟨_, w₂, r₂, h₂⟩ := bind_eq.mp h₁
    have hround : V.own → cleanupOwn w r = true ∧ cleanupsOwn env c rs.length (i + 1) w₂ = true := by
      intro hv
      have hmeets := hown hv
      simpa only [List.length_cons, cleanupsOwn, hci, Option.map_some, Option.bind_some, hget,
        final, r₂, Bool.and_eq_true] using hmeets
    obtain ⟨hl, hclean⟩ := cleanupFailedLine_leads r₂ hI hci hmem
      (fun hv => hent hv r List.mem_cons_self) (fun hv => (hround hv).1) hr
    -- a round removes the entry of its record, if any
    have hmono : ∀ id e, w₂.entry id = some e → w.entry id = some e := fun id e he => by
      by_cases hid : id = r.instrumentId
      · exact hid ▸ (hclean.own e (hid ▸ he)).1
      · exact hclean.others id hid ▸ he
    obtain ⟨hl', hci', hq', hmono', hdone⟩ := ih h₂
      (by rw [← List.drop_drop, hrs]; rfl) (hI.leads hl) (hclean.cls.trans hci)
      (fun hv => (List.pairwise_cons.mp (hpair hv)).2)
      (fun hv r' hr' ht => by
        rw [hclean.others _ ((List.pairwise_cons.mp (hpair hv)).1 r' hr' ht).symm]
        exact hent hv r' (List.mem_cons_of_mem _ hr') ht)
      (fun hv => (hround hv).2)
    refine ⟨hl.trans hl', hci', hq'.trans hclean.queue, fun id e he => hmono id e (hmono' id e he),
      fun r' hr' e he => ?_⟩
    rcases List.mem_cons.mp hr' with rfl | hr'
    · exact (hclean.own e (hmono' _ e he)).2
    · exact hdone r' hr' e he

/-! ## The reapply -/

/-- The `fail` exit of `ih_reapply_instruments`. -/
theorem reapplyFailed_leads {u : Unit} {ci : ClassInfo} (h : reapplyFailed env c w = (u, w'))
    (hI : V.Inv (w.ledger.amid Q none (some c) false)) (hci : w.cls c = some ci)
    (hcalls : ∀ v ∈ w.versions, v.name = c → v.loader = ci.loader → v.calls = [])
    (hown : V.own →
      let w₁ := (profErrLogPrintf env (reapplyText c)).final w
      let w₂ := (removeMethods env (((w₁.cls c).map ClassInfo.instrumented).getD [])).final w₁
      cleanupsOwn env c (((w₂.cls c).map ClassInfo.lines).getD []).length 0 w₂ = true)
    (hr : V.removed → RemoveOk env) :
    V.Leads (w.ledger.amid Q none (some c) false) (w'.ledger.amid Q none (some c) false) ∧
      w'.queuedInstruments = w.queuedInstruments := by
  obtain ⟨_, w₁, r₁, h₁⟩ := bind_eq.mp h
  have hw₁ := profErrLogPrintf_run r₁
  have hci₁ : w₁.cls c = some ci := (congrFun (congrArg Ledger.cls hw₁) c).trans hci
  obtain ⟨info, w₂, r₂, h₂⟩ := bind_eq.mp h₁
  obtain ⟨rfl, rfl⟩ := read_eq.mp r₂
  simp only [hci₁, Option.map_some, Option.getD_some] at h₂
  obtain ⟨_, w₃, r₃, h₃⟩ := bind_eq.mp h₂
  obtain ⟨info, w₄, r₄, h₄⟩ := bind_eq.mp h₃
  obtain ⟨rfl, rfl⟩ := read_eq.mp r₄
  have hpurge : V.Leads (w.ledger.amid Q none (some c) false)
      (w₁.ledger.amid Q none (some c) true) := by
    refine (Leads.refl _).snoc (a := .purge) (.plain ⟨rfl, c, ci, rfl, hci, hcalls⟩ rfl) ?_
    rw [hw₁]
    rfl
  have hent₁ : w₁.entry = w.entry := congrArg Ledger.entry hw₁
  obtain ⟨hmethods, hcls₃, hq₃, hsame, hnone⟩ := removeMethods_leads (V := V) (Q := Q) r₃ hci₁
    (fun _ hm => hm) (fun m hm => hent₁ ▸ hI.coherent.entry_of_mem rfl rfl hci hm)
    (hI.coherent.nodup rfl rfl hci) hr
  have hci₃ : w₃.cls c = some ci := hcls₃ ▸ hci₁
  simp only [hci₃, Option.map_some, Option.getD_some] at h₄
  obtain ⟨_, w₅, r₅, r₆⟩ := bind_eq.mp h₄
  have hI₃ := (hI.leads hpurge).leads hmethods
  -- no line record belongs to one of the methods
  have hline : ∀ r ∈ ci.lines, w.entry r.instrumentId ≠ none → w₃.entry r.instrumentId ≠ none := by
    intro r hmem hne hgone
    by_cases hm : ∃ m ∈ ci.instrumented, m.instrumentId = r.instrumentId
    · obtain ⟨m, hm, hid⟩ := hm
      obtain ⟨e, he⟩ := Option.ne_none_iff_exists'.mp hne
      have hk := ((hI.coherent.lines c ci hci r hmem).2 e he).1
      obtain ⟨e', s, he', -, -, hof⟩ := hI.coherent.method_of_mem rfl hci hm
        (hI.coherent.entry_of_mem rfl rfl hci hm)
      rw [hid] at he'
      cases he'.symm.trans he
      rw [lineKeys_of_isMethod (methodName_of_isMethodOf hof).1] at hk
      cases hk
    · rw [hsame _ fun m hm' heq => hm ⟨m, hm', heq⟩, hent₁] at hgone
      exact hne hgone
  have hmeets : V.own → cleanupsOwn env c ci.lines.length 0 w₃ = true := by
    intro hv
    have hmeets := hown hv
    simpa only [final, r₁, hci₁, Option.map_some, Option.getD_some, r₃, hci₃] using hmeets
  obtain ⟨hlines, hci₅, hq₅, hmono, hdone⟩ := cleanupLinesFrom_leads (V := V) (Q := Q) r₅ List.drop_zero
    hI₃ hci₃ (fun hv => (hI.lined hv).pairwise rfl rfl hci)
    (fun hv r hmem _ => hline r hmem ((hI.lined hv).entry_of_mem rfl rfl hci hmem)) hmeets hr
  have hI₅ := hI₃.leads hlines
  refine ⟨((hpurge.trans hmethods).trans hlines).snoc (a := .clear c)
    (.owning ⟨rfl, rfl, rfl, ?_⟩ (fun hv => ?_) rfl) ?_, ?_⟩
  · intro ci' hci' m hm
    cases hci'.symm.trans hci₅
    cases he : w₅.entry m.instrumentId with
    | none => exact he
    | some e => exact absurd ((hnone m hm).symm.trans (hmono _ e he)) (by simp)
  · intro ci' hci' r hmem
    cases hci'.symm.trans hci₅
    cases he : w₅.entry r.instrumentId with
    | none => exact he
    | some e =>
      -- of an instrument in one class the record for the entry line was there too
      obtain ⟨htype, hsc⟩ := hdone r hmem e he
      have hk := ((hI₅.coherent.lines c ci hci₅ r hmem).2 e he).1
      have hkeys := ((hI₅.lined hv).lines c ci hci₅ r.instrumentId).resolve_right fun hp =>
        absurd (he.symm.trans hp.2) (by simp)
      have ha : e.isApplied = true := by
        have ha := ((hI₅.coherent.lines c ci hci₅ r hmem).2 e he).2
        rw [flying_none rfl] at ha
        simpa using ha
      rw [lineRecsOf_none rfl, show (w₅.ledger.amid Q none (some c) true).entry r.instrumentId = some e
        from he, appliedLines_some, if_pos ha] at hkeys
      have hlk := lineKeys_eq (List.ne_nil_of_mem hk)
      rw [hlk] at hk hkeys
      have hc : c = e.entryClassName.cstr := by
        simp only [List.mem_cons, List.not_mem_nil, or_false] at hk
        rcases hk with hk | hk
        · exact congrArg LineKey.cls hk
        · exact (congrArg LineKey.cls hk).trans hsc.symm
      have henter : (⟨c, e.entryLineNumber, .enter⟩ : LineKey) ∈
          (ci.lines.filter (·.hasId r.instrumentId)).map (InstrumentedLine.key c) := by
        rw [hkeys]
        exact List.mem_filter.mpr ⟨by simp [hc], by simp⟩
      obtain ⟨r', hr', hk'⟩ := List.mem_map.mp henter
      obtain ⟨hmem', hid⟩ := List.mem_filter.mp hr'
      have hid' : r'.instrumentId = r.instrumentId := by simpa [InstrumentedLine.hasId] using hid
      have htype' := (hdone r' hmem' e (hid' ▸ he)).1
      rw [show r'.type = .enter from congrArg LineKey.type hk'] at htype'
      cases htype'
  · rw [modifyClass_run r₆]
    rfl
  · rw [show w'.queuedInstruments = w₅.queuedInstruments from
      congrArg Ledger.queue (modifyClass_run r₆), hq₅, hq₃]
    exact congrArg Ledger.queue hw₁

theorem ihReapplyInstruments_leads {u : Unit} {ci : ClassInfo}
    (h : ihReapplyInstruments env c w = (u, w')) (hI : V.Inv (w.ledger.amid Q none (some c) false))
    (hci : w.cls c = some ci)
    (hcalls : ∀ v ∈ w.versions, v.name = c → v.loader = ci.loader → v.calls = [])
    (hown : V.own → reapplyOwn env c w = true) (hr : V.removed → RemoveOk env) :
    V.Leads (w.ledger.amid Q none (some c) false) (w'.ledger.amid Q none (some c) false) ∧
      w'.queuedInstruments = w.queuedInstruments := by
  obtain ⟨info, w₁, r₁, h₁⟩ := bind_eq.mp h
  obtain ⟨rfl, rfl⟩ := read_eq.mp r₁
  simp only [hci] at h₁
  split at h₁
  · cases h₁
    exact ⟨.refl _, rfl⟩
  · next hne =>
    obtain ⟨restored, w₂, r₂, h₂⟩ := bind_eq.mp h₁
    rcases restoreClass_run r₂ with ⟨hfalse, hw₂⟩ | ⟨rfl, ci', kept, hci', hw₂⟩
    · rw [if_neg (by simp [hfalse])] at h₂
      have hci₂ : w₂.cls c = some ci := (congrFun (congrArg Ledger.cls hw₂) c).trans hci
      have hq₂ : w₂.queuedInstruments = w.queuedInstruments := congrArg Ledger.queue hw₂
      have hv₂ : w₂.versions = w.versions := congrArg Ledger.versions hw₂
      rw [← hw₂, ← hq₂]
      refine reapplyFailed_leads h₂ (hw₂ ▸ hI) hci₂ (hv₂ ▸ hcalls) (fun hv => ?_) hr
      have hmeets := hown hv
      simpa [reapplyOwn, hci, hne, result, final, r₂, hfalse] using hmeets
    · rw [if_pos rfl] at h₂
      cases h₂
      refine ⟨(Leads.refl _).snoc (a := .install c ci' kept) (.plain ⟨hci', fun _ => rfl⟩ rfl) ?_,
        congrArg Ledger.queue hw₂⟩
      rw [hw₂]
      rfl

/-! ## The event -/

theorem queue_addClass (env : Env) (ci : ClassInfo) :
    Keeps World.queuedInstruments (addClass env ci) :=
  Keeps.bind (fun _ => rfl) fun _ => Keeps.bind (fun _ => rfl) fun _ _ => rfl

theorem loadedClass_loader {L : Ledger} {ci : ClassInfo} :
    (loadedClass L ci).loader = ci.loader := by
  unfold loadedClass
  split <;> rfl

/-- A class is added to the table, and its load begins. -/
theorem addClass_leads {added : CiListAdd} {ci : ClassInfo} (h : addClass env ci w = (added, w'))
    (hne : added ≠ .err) (hnil : ci.instrumented = [] ∧ ci.lines = [])
    (hnew : ∃ v ∈ w.versions, v.name = ci.name.cstr ∧ v.loader = ci.loader ∧ v.calls = [])
    (hpace : V.paced → ¬ V.request) :
    V.Leads w.ledger (w'.ledger.amid w'.queuedInstruments none (some ci.name.cstr) false) ∧
      w'.queuedInstruments = w.queuedInstruments ∧ w'.versions = w.versions ∧
      w'.ledger.cls = Function.update w.ledger.cls ci.name.cstr (some (loadedClass w.ledger ci)) ∧
      w'.slots = w.slots := by
  have hq : w'.queuedInstruments = w.queuedInstruments := (queue_addClass env ci).run h
  rcases addClass_run h with ⟨hr, -⟩ | ⟨-, -, hw'⟩
  · exact absurd hr hne
  · have happly := hw' w.queuedInstruments none
    refine ⟨?_, hq, congrArg Ledger.versions happly, congrArg Ledger.cls happly,
      congrArg Ledger.slots happly⟩
    refine (Leads.refl _).snoc (a := .load ci) ⟨⟨rfl, rfl, rfl, hnil.1, hnil.2, hnew⟩,
      fun _ => trivial, fun _ => trivial, fun _ => trivial, hpace⟩ ?_
    rw [hq, happly]
    rfl

/-- The conditions on a class load are conditions on its two parts. -/
theorem classAllocatedMeets_run {added : CiListAdd} {ci : ClassInfo} {w₁ w₂ : World} {u : Unit}
    {reapply : CStr → World → Bool} {attempt : World → MiEntry → Nat → Int → Bool}
    (h : classAllocatedMeets env reapply attempt ci w = true)
    (r₁ : addClass env ci w = (added, w₁)) (hne : added ≠ .err)
    (r₂ : (if added = .duplicate then ihReapplyInstruments env ci.name.cstr else pure () : M Unit)
      w₁ = (u, w₂)) :
    (added = .duplicate → reapply ci.name.cstr w₁ = true) ∧
      deferredMeets env attempt ci.name.cstr w₂.queuedInstruments.length w₂ = true := by
  have hw₂ : (if added = .duplicate then (ihReapplyInstruments env ci.name.cstr).final w₁ else w₁) =
      w₂ := by
    split at r₂
    · next hd => rw [if_pos hd, final, r₂]
    · next hd =>
      rw [if_neg hd]
      exact congrArg Prod.snd r₂
  simp only [classAllocatedMeets, result, final, r₁, hne, decide_false, Bool.false_or,
    Bool.and_eq_true, Bool.or_eq_true, Bool.not_eq_true', decide_eq_false_iff_not] at h
  exact ⟨fun hd => h.1.resolve_left fun hnd => hnd hd, hw₂ ▸ h.2⟩

/-- What follows when the class is in the table: the records it took over are applied again, and
then what waits for it. -/
theorem classAdded_leads {added : CiListAdd} {ci : ClassInfo} {w₁ : World} {u u' : Unit}
    (r₂ : (if added = .duplicate then ihReapplyInstruments env c else pure () : M Unit) w = (u, w₁))
    (r₃ : doDeferredInstrumentations env c w₁ = (u', w'))
    (hI : V.Inv (w.ledger.amid w.queuedInstruments none (some c) false))
    (hci : w.cls c = some ci)
    (hcalls : ∀ v ∈ w.versions, v.name = c → v.loader = ci.loader → v.calls = [])
    (hreapply : V.own → added = .duplicate → reapplyOwn env c w = true)
    (hown : V.own → deferredMeets env (attemptOwn env) c w₁.queuedInstruments.length w₁ = true)
    (hlive : V.live → deferredMeets env (attemptLive env) c w₁.queuedInstruments.length w₁ = true)
    (hr : V.removed → RemoveOk env) :
    V.Leads (w.ledger.amid w.queuedInstruments none (some c) false) w'.ledger := by
  -- only a class that replaces one has instruments to apply again
  obtain ⟨hreapply, hq₁⟩ : V.Leads (w.ledger.amid w.queuedInstruments none (some c) false)
      (w₁.ledger.amid w.queuedInstruments none (some c) false) ∧
      w₁.queuedInstruments = w.queuedInstruments := by
    split at r₂
    · next hd => exact ihReapplyInstruments_leads r₂ hI hci hcalls (fun hv => hreapply hv hd) hr
    · cases r₂
      exact ⟨.refl _, rfl⟩
  rw [← hq₁] at hreapply hI ⊢
  refine hreapply.trans (doDeferredInstrumentations_leads r₃ (hI.leads hreapply) ?_ hown hlive hr)
  exact hreapply.cls (c := c) (by simp [hci, amid, World.ledger])

/-- The JVM defines a class, and the server makes its class info. -/
theorem defineClass_leads {name : CStr} {bytecode : List UInt8} {loader : Option Nat}
    {r : Option ClassInfo} (h : allocClassInfo env name bytecode loader
      { w with versions := defineVersion w.versions name loader } = (r, w')) :
    V.Leads w.ledger w'.ledger := by
  refine (Leads.refl _).snoc (a := .define name loader) (.plain rfl rfl) ?_
  rw [(allocClassInfo_run h).1]
  rfl

/-- A class load begins with the definition of the version and the entry in the table; no class is
added to the table in what follows. -/
theorem handleClassLoaded_split {name : CStr} {bytecode : List UInt8} {loader : Option Nat}
    {u : Unit} (h : handleClassLoaded env name bytecode loader w = (u, w'))
    (hown : V.own → stepOwn env w (.classLoaded name bytecode loader) = true)
    (hlive : V.live → stepLive env w (.classLoaded name bytecode loader) = true)
    (hpace : V.paced → ¬ V.request) (hr : V.removed → RemoveOk env) :
    ∃ L, V.Leads w.ledger L ∧ L.versions = defineVersion w.versions name loader ∧
      ∀ V' : Vouch, V'.Inv L → (V'.own → V.own) → (V'.live → V.live) → (V'.removed → V.removed) →
        V'.Leads L w'.ledger := by
  obtain ⟨_, w₁, r₁, h₁⟩ := bind_eq.mp h
  have hw₁ := update_eq.mp r₁
  obtain ⟨r, w₂, r₂, h₂⟩ := bind_eq.mp h₁
  obtain ⟨hw₂, hnew⟩ := allocClassInfo_run r₂
  have hdefine : V.Leads w.ledger w₂.ledger := defineClass_leads (hw₁ ▸ r₂)
  have hv₂ : w₂.versions = defineVersion w.versions name loader := by
    rw [show w₂.versions = w₁.versions from congrArg Ledger.versions hw₂, ← hw₁]
  cases r with
  | none =>
    cases h₂
    exact ⟨_, hdefine, hv₂, fun _ _ _ _ _ => .refl _⟩
  | some ci =>
    obtain ⟨hname, hlo, hm, hl⟩ := hnew ci rfl
    obtain ⟨added, w₃, r₃, h₃⟩ := bind_eq.mp h₂
    rcases addClass_run r₃ with ⟨rfl, hw₃⟩ | ⟨hne, -⟩
    · cases h₃
      rw [hw₃]
      exact ⟨_, hdefine, hv₂, fun _ _ _ _ _ => .refl _⟩
    · rw [if_neg hne] at h₃
      obtain ⟨_, w₄, r₄, r₅⟩ := bind_eq.mp h₃
      obtain ⟨hload, -, hv₃, hcls, -⟩ := addClass_leads (V := V) r₃ hne ⟨hm, hl⟩
        ⟨⟨name, loader, []⟩, hv₂ ▸ List.mem_append_right _ List.mem_cons_self, hname.symm, hlo.symm,
          rfl⟩ hpace
      have hci : w₃.cls ci.name.cstr = some (loadedClass w₂.ledger ci) :=
        (congrFun hcls ci.name.cstr).trans (Function.update_self ..)
      have hmeets : ∀ {reapply attempt},
          loadMeets env reapply attempt name bytecode loader w = true →
          (added = .duplicate → reapply ci.name.cstr w₃ = true) ∧
            deferredMeets env attempt ci.name.cstr w₄.queuedInstruments.length w₄ = true := by
        intro reapply attempt hmeets
        refine classAllocatedMeets_run ?_ r₃ hne r₄
        simpa [loadMeets, hw₁, result, final, r₂] using hmeets
      refine ⟨_, hdefine.trans hload, hv₃.trans hv₂, fun V' hI' hown' hlive' hrem' => ?_⟩
      refine classAdded_leads r₄ r₅ hI' hci ?_ (fun hv => (hmeets (hown (hown' hv))).1)
        (fun hv => (hmeets (hown (hown' hv))).2) (fun hv => (hmeets (hlive (hlive' hv))).2)
        fun hv => hr (hrem' hv)
      -- the class is defined anew, so its code is that of the class file
      intro v hmem hvn hvl
      rw [hv₃, hv₂] at hmem
      rw [hname] at hvn
      rw [loadedClass_loader, hlo] at hvl
      rcases List.mem_append.mp hmem with hmem | hmem
      · simp [hvn, hvl] at hmem
      · rw [List.mem_singleton.mp hmem]

theorem handleClassLoaded_leads {name : CStr} {bytecode : List UInt8} {loader : Option Nat} {u : Unit}
    (h : handleClassLoaded env name bytecode loader w = (u, w')) (hI : V.Inv w.ledger)
    (hown : V.own → stepOwn env w (.classLoaded name bytecode loader) = true)
    (hlive : V.live → stepLive env w (.classLoaded name bytecode loader) = true)
    (hpace : V.paced → ¬ V.request)
    (hr : V.removed → RemoveOk env) : V.Leads w.ledger w'.ledger := by
  obtain ⟨L, hl, -, hrest⟩ := handleClassLoaded_split h hown hlive hpace hr
  exact hl.trans (hrest V (hI.leads hl) id id id)

end JautoProf
