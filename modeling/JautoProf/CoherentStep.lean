import JautoProf.Coherent

/-!
# Every act keeps the ledger coherent

One lemma for each act; `coherent_act` collects them.
-/

namespace JautoProf

open Ledger Act

variable {L : Ledger}

/-! ## Lists of records of one instrument -/

theorem filter_hasId_append_of_ne {l : List InstrumentedMethod} {m : InstrumentedMethod} {id : Nat}
    (h : m.instrumentId ≠ id) : (l ++ [m]).filter (·.hasId id) = l.filter (·.hasId id) := by
  rw [List.filter_append, List.filter_cons_of_neg (by simpa [InstrumentedMethod.hasId] using h),
    List.filter_nil, List.append_nil]

theorem modCls_some {c c' : CStr} {f : ClassInfo → ClassInfo} {ci' : ClassInfo} :
    (L.modCls c f).cls c' = some ci' ↔
      (c' = c ∧ ∃ ci, L.cls c = some ci ∧ f ci = ci') ∨ (c' ≠ c ∧ L.cls c' = some ci') := by
  rw [modCls_cls]
  split
  · next h => simp [h]
  · next h => simp [h]

theorem modCls_ne_none {c c' : CStr} {f : ClassInfo → ClassInfo} :
    (L.modCls c f).cls c' ≠ none ↔ L.cls c' ≠ none := by
  rw [modCls_cls]
  split
  · next h => simp [h]
  · rfl

/-- What is found first is erased by its key, when no two keys are the same. -/
theorem map_eraseP_of_find? {α β : Type} [DecidableEq β] {p : α → Bool} {f : α → β} {a : α} :
    ∀ {l : List α}, (l.map f).Nodup → l.find? p = some a →
      (l.eraseP p).map f = (l.map f).erase (f a)
  | [], _, h => by simp at h
  | b :: l, hnd, h => by
    obtain ⟨hnotin, hnd'⟩ := List.nodup_cons.mp hnd
    rw [List.find?_cons] at h
    split at h
    · next hp =>
      cases h
      rw [List.eraseP_cons_of_pos hp, List.map_cons, List.erase_cons_head]
    · next hp =>
      have hmem : f a ∈ l.map f := List.mem_map_of_mem (List.mem_of_find?_eq_some h)
      have hne : f b ≠ f a := fun heq => hnotin (heq ▸ hmem)
      rw [List.eraseP_cons_of_neg (by simp [hp]), List.map_cons, List.map_cons,
        List.erase_cons_tail (by simpa using hne), map_eraseP_of_find? hnd' h]

theorem queueKeys_nodup (e : Option MiEntry) : (queueKeys e).Nodup := by
  unfold queueKeys
  split
  · simp
  · split <;> split <;> simp
  · exact List.nodup_nil

/-- The half that a record of a line is for is deferred until it is done with. -/
theorem queueKeys_markHalf {e : MiEntry} {q : QueuedInstr} (hkey : q.key ∈ queueKeys (some e))
    (hline : q.isLine = true) :
    queueKeys (some (q.markHalf e)) = (queueKeys (some e)).erase q.key := by
  obtain ⟨c, b⟩ := e
  obtain ⟨i, p, cn, qb⟩ := q
  cases qb with
  | method s => cases hline
  | varBind => cases hline
  | lineEnter n =>
    cases b with
    | method n d => cases d <;> simp [queueKeys, QueuedInstr.key] at hkey
    | varBind n l d => simp [queueKeys] at hkey
    | line x l l' d d' =>
      cases d with
      | false => cases d' <;> simp [queueKeys, QueuedInstr.key] at hkey
      | true =>
        have hkey' : QueuedInstr.key ⟨i, p, cn, .lineEnter n⟩ = ⟨some c.cstr, .lineEnter l⟩ := by
          cases d' <;> simpa [queueKeys, QueuedInstr.key] using hkey
        rw [hkey']
        exact (List.erase_cons_head ..).symm
  | lineExit n =>
    cases b with
    | method n d => cases d <;> simp [queueKeys, QueuedInstr.key] at hkey
    | varBind n l d => simp [queueKeys] at hkey
    | line x l l' d d' =>
      cases d' with
      | false => cases d <;> simp [queueKeys, QueuedInstr.key] at hkey
      | true =>
        have hkey' : QueuedInstr.key ⟨i, p, cn, .lineExit n⟩ = ⟨some x.cstr, .lineExit l'⟩ := by
          cases d <;> simpa [queueKeys, QueuedInstr.key] using hkey
        rw [hkey']
        cases d with
        | false => exact (List.erase_cons_head ..).symm
        | true => simp [queueKeys, QueuedInstr.markHalf, MiEntry.lineExitApplied]

/-- The records of a line instrument after one of them is done with. -/
theorem keys_markHalf {l : List QueuedInstr} {e : MiEntry} {c : CStr} {q : QueuedInstr}
    (hl : l.map QueuedInstr.key = queueKeys (some e)) (hq : l.find? (·.hasClass c) = some q)
    (hline : q.isLine = true) :
    (l.eraseP (·.hasClass c)).map QueuedInstr.key = queueKeys (some (q.markHalf e)) := by
  have hkey : q.key ∈ queueKeys (some e) :=
    hl ▸ List.mem_map_of_mem (List.mem_of_find?_eq_some hq)
  rw [map_eraseP_of_find? (hl ▸ queueKeys_nodup _) hq, hl, queueKeys_markHalf hkey hline]

/-- A record that is not one of a line is its instrument's only one. -/
theorem keys_single {l : List QueuedInstr} {e : MiEntry} {q : QueuedInstr}
    (hl : l.map QueuedInstr.key = queueKeys (some e)) (hmem : q ∈ l) (hline : q.isLine = false) :
    l = [q] ∧ e.isMethod = true := by
  obtain ⟨c₀, b⟩ := e
  have hkey : q.key ∈ queueKeys (some ⟨c₀, b⟩) := hl ▸ List.mem_map_of_mem hmem
  obtain ⟨i, p, cn, qb⟩ := q
  cases b with
  | method n d =>
    cases d
    · simp [queueKeys] at hkey
    · simp only [queueKeys, List.map_eq_singleton_iff] at hl
      obtain ⟨q₁, rfl, -⟩ := hl
      simp only [List.mem_singleton] at hmem
      exact ⟨by rw [hmem], rfl⟩
  | varBind n l d => simp [queueKeys] at hkey
  | line x lE lX d d' =>
    cases qb <;> simp_all [QueuedInstr.isLine, queueKeys, QueuedInstr.key]

/-- An instrument has two records at most. -/
theorem keys_length {e : Option MiEntry} {l : List QueuedInstr}
    (hl : l.map QueuedInstr.key = queueKeys e) : l.length ≤ 2 := by
  have hlen : l.length = (queueKeys e).length := by rw [← hl, List.length_map]
  rw [hlen]
  unfold queueKeys
  split
  · simp
  · next d d' => cases d <;> cases d' <;> simp
  · simp

/-! ## Requests -/

theorem Coherent.burn (h : Coherent L) : Coherent (apply L .burn) where
  pos := Nat.succ_pos _
  ids id e he := ⟨(h.ids id e he).1, Nat.lt_succ_of_lt (h.ids id e he).2⟩
  flightId f hf := Nat.lt_succ_of_lt (h.flightId f hf)
  unique := h.unique
  queue := h.queue
  methods := h.methods
  methodIds c ci hc m hm := Nat.lt_succ_of_lt (h.methodIds c ci hc m hm)
  applied := h.applied
  lines c ci hc r hr := ⟨Nat.lt_succ_of_lt (h.lines c ci hc r hr).1, (h.lines c ci hc r hr).2⟩
  entering := h.entering
  absent := h.absent

/-- An id that was not given out yet has no records. -/
theorem Coherent.nextId_fresh (h : Coherent L) : L.flying L.nextId = false := by
  cases hf : L.flight with
  | none => exact flying_none hf _
  | some f =>
    rw [flying_some hf]
    exact decide_eq_false (Nat.ne_of_lt (h.flightId f hf))

theorem Coherent.start (h : Coherent L) {e : MiEntry} {name : ProfilerName}
    (he : Enabled L (.start e name)) : Coherent (apply L (.start e name)) := by
  obtain ⟨hfl, -, hpu, hfresh, hnew⟩ := he
  have hfl' : (apply L (.start e name)).flight =
      some ⟨L.nextId, registryCreateId L.slots, .entering, [], []⟩ := rfl
  have hent : ∀ id, (apply L (.start e name)).entry id =
      if id = L.nextId then some e else L.entry id := fun id => setEntry_entry ..
  have hnone := h.entry_nextId
  refine ⟨Nat.succ_pos _, fun id e' he' => ?_, fun f hf => ?_,
    fun id id' e₁ e₂ c s h₁ h₂ hm₁ hm₂ => ?_, fun id => ?_, fun c ci hc id => ?_,
    fun c ci hc m hm => Nat.lt_succ_of_lt (h.methodIds c ci hc m hm),
    fun id e' c s he' hfly hm ha => ?_, fun c ci hc r hr => ?_,
    fun f hf _ c ci hc r hr => ?_, h.absent⟩
  · rw [hent] at he'
    split at he'
    · next heq =>
      exact ⟨heq ▸ h.pos, heq ▸ Nat.lt_succ_self _⟩
    · exact ⟨(h.ids id e' he').1, Nat.lt_succ_of_lt (h.ids id e' he').2⟩
  · cases hfl'.symm.trans hf
    exact Nat.lt_succ_self _
  · rw [hent] at h₁ h₂
    split at h₁ <;> split at h₂
    · next i₁ i₂ => rw [i₁, i₂]
    · cases h₁
      -- a second entry of the method is refused before it starts
      exact absurd hm₂ (by simp [hnew c s hm₁ id' e₂ h₂])
    · cases h₂
      exact absurd hm₁ (by simp [hnew c s hm₂ id e₁ h₁])
    · exact h.unique id id' e₁ e₂ c s h₁ h₂ hm₁ hm₂
  · have hq := h.queue id
    rw [queueKeysOf_none hfl] at hq
    rw [queueKeysOf_some hfl', hent]
    refine hq.trans ?_
    by_cases hid : id = L.nextId
    · simp [hid, hnone, queueKeys]
    · simp [hid, Ne.symm hid]
  · left
    have hm := h.methods_eq hpu hc id
    rw [methodKeysOf_none hfl] at hm
    rw [methodKeysOf_some hfl', hent]
    refine hm.trans ?_
    by_cases hid : id = L.nextId
    · simp [hid, hnone, appliedKeys_none]
    · simp [hid, Ne.symm hid]
  · rw [hent] at he'
    rw [flying_some hfl', decide_eq_false_iff_not] at hfly
    rw [if_neg (Ne.symm hfly)] at he'
    exact h.applied id e' c s he' (flying_none hfl id) hm ha
  · obtain ⟨hlt, hkey⟩ := h.lines c ci hc r hr
    refine ⟨Nat.lt_succ_of_lt hlt, fun e' he' => ?_⟩
    rw [hent, if_neg (Nat.ne_of_lt hlt)] at he'
    obtain ⟨hk, ha⟩ := hkey e' he'
    rw [flying_none hfl] at ha
    exact ⟨hk, .inl (by simpa using ha)⟩
  · cases hfl'.symm.trans hf
    exact Nat.ne_of_lt (h.lines c ci hc r hr).1

theorem MiEntry.not_isMethodOf_of_hidden {e : MiEntry} (he : e.isUserVisible = false) (c s : CStr) :
    e.isMethodOf c s = false := by
  obtain ⟨c', b⟩ := e
  cases b <;> simp_all [isUserVisible, isMethodOf]

theorem Coherent.hide (h : Coherent L) {e : MiEntry} (he : Enabled L (.hide e)) :
    Coherent (apply L (.hide e)) := by
  obtain ⟨hfl, hpu, hvis⟩ := he
  have hfl' : (apply L (.hide e)).flight = none := hfl
  have hent : ∀ id, (apply L (.hide e)).entry id = if id = L.nextId then some e else L.entry id :=
    fun id => setEntry_entry ..
  have hnone := h.entry_nextId
  -- a hidden entry calls for no records
  have hkeys : queueKeys (some e) = [] := by
    obtain ⟨c, b⟩ := e
    cases b <;> simp_all [MiEntry.isUserVisible, queueKeys]
  have happ : ∀ c, appliedKeys c (some e) = [] := by
    intro c
    obtain ⟨c', b⟩ := e
    cases b <;> simp_all [MiEntry.isUserVisible, appliedKeys, methodKeys]
  refine ⟨Nat.succ_pos _, fun id e' he' => ?_, fun f hf => Nat.lt_succ_of_lt (h.flightId f hf),
    fun id id' e₁ e₂ c s h₁ h₂ hm₁ hm₂ => ?_, fun id => (h.queue id).trans ?_,
    fun c ci hc id => .inl ((h.methods_eq hpu hc id).trans ?_),
    fun c ci hc m hm => Nat.lt_succ_of_lt (h.methodIds c ci hc m hm),
    fun id e' c s he' hfly hm ha => ?_, fun c ci hc r hr => ?_, h.entering, h.absent⟩
  · rw [hent] at he'
    split at he'
    · next heq => exact ⟨heq ▸ h.pos, heq ▸ Nat.lt_succ_self _⟩
    · exact ⟨(h.ids id e' he').1, Nat.lt_succ_of_lt (h.ids id e' he').2⟩
  · rw [hent] at h₁ h₂
    split at h₁ <;> split at h₂
    · next i₁ i₂ => rw [i₁, i₂]
    · cases h₁
      exact absurd hm₁ (by simp [MiEntry.not_isMethodOf_of_hidden hvis])
    · cases h₂
      exact absurd hm₂ (by simp [MiEntry.not_isMethodOf_of_hidden hvis])
    · exact h.unique id id' e₁ e₂ c s h₁ h₂ hm₁ hm₂
  · rw [queueKeysOf_none hfl, queueKeysOf_none hfl', hent]
    split
    · next hid => rw [hid, hnone, hkeys, queueKeys_none]
    · rfl
  · rw [methodKeysOf_none hfl, methodKeysOf_none hfl', hent]
    split
    · next hid => rw [hid, hnone, happ, appliedKeys_none]
    · rfl
  · rw [hent] at he'
    split at he'
    · cases he'
      exact absurd hm (by simp [MiEntry.not_isMethodOf_of_hidden hvis])
    · exact h.applied id e' c s he' hfly hm ha
  · obtain ⟨hlt, hkey⟩ := h.lines c ci hc r hr
    refine ⟨Nat.lt_succ_of_lt hlt, fun e' he' => ?_⟩
    rw [hent, if_neg (Nat.ne_of_lt hlt)] at he'
    exact hkey e' he'

theorem Coherent.enqueue (h : Coherent L) {f : Flight} {qs : List QueuedInstr} {e : MiEntry}
    (he : Enabled L (.enqueue f qs e)) : Coherent (apply L (.enqueue f qs e)) := by
  obtain ⟨hfl, hst, hpu, ⟨e₀, he₀, hid₀⟩, hne, hkeys, hqs⟩ := he
  have hfl' : (apply L (.enqueue f qs e)).flight = none := rfl
  have hent : ∀ id, (apply L (.enqueue f qs e)).entry id = if id = f.id then some e else L.entry id :=
    fun id => setEntry_entry ..
  have hnot : e.isApplied = false := by
    by_contra ha
    rw [MiEntry.queueKeys_of_isApplied (by simpa using ha)] at hkeys
    exact hne (List.map_eq_nil_iff.mp hkeys)
  -- the new entry names the same instrument as the one it replaces
  have hold : ∀ id e', (apply L (.enqueue f qs e)).entry id = some e' →
      ∃ e'', L.entry id = some e'' ∧ e'.identity = e''.identity := by
    intro id e' he'
    rw [hent] at he'
    split at he'
    · next hid => cases he'; exact ⟨e₀, hid ▸ he₀, hid₀⟩
    · exact ⟨e', he', rfl⟩
  refine ⟨h.pos, fun id e' he' => ?_, fun f' hf' => (nomatch hf'),
    fun id id' e₁ e₂ c s h₁ h₂ hm₁ hm₂ => ?_, fun id => ?_,
    fun c ci hc id => .inl ((h.methods_eq hpu hc id).trans ?_), h.methodIds,
    fun id e' c s he' hfly hm ha => ?_, fun c ci hc r hr => ?_, fun f' hf' => (nomatch hf'),
    fun q hq c hqc hc => ?_⟩
  · obtain ⟨e'', he'', _⟩ := hold id e' he'
    exact h.ids id e'' he''
  · obtain ⟨e₁', h₁', i₁⟩ := hold id e₁ h₁
    obtain ⟨e₂', h₂', i₂⟩ := hold id' e₂ h₂
    rw [MiEntry.isMethodOf_of_identity i₁] at hm₁
    rw [MiEntry.isMethodOf_of_identity i₂] at hm₂
    exact h.unique id id' e₁' e₂' c s h₁' h₂' hm₁ hm₂
  · have hq := h.queue id
    rw [queueKeysOf_some hfl] at hq
    rw [queueKeysOf_none hfl', hent]
    show List.map _ (List.filter _ (L.queue ++ qs)) = _
    rw [List.filter_append, List.map_append, hq]
    by_cases hid : id = f.id
    · have hall : qs.filter (·.hasId id) = qs :=
        List.filter_eq_self.mpr fun q hq => by simp [QueuedInstr.hasId, (hqs q hq).1, hid]
      rw [hall, if_pos hid.symm, if_pos hid, List.nil_append, hkeys]
    · have hnil : qs.filter (·.hasId id) = [] :=
        List.filter_eq_nil_iff.mpr fun q hq => by
          simp [QueuedInstr.hasId, (hqs q hq).1, Ne.symm hid]
      rw [hnil, if_neg (Ne.symm hid), if_neg hid, List.map_nil, List.append_nil]
  · rw [methodKeysOf_some hfl, methodKeysOf_none hfl', hent]
    by_cases hid : id = f.id
    · simp [hid, hst, appliedKeys_some, hnot]
    · simp [hid, Ne.symm hid]
  · rw [hent] at he'
    split at he'
    · cases he'
      rw [hnot] at ha
      cases ha
    · next hid =>
      exact h.applied id e' c s he' (by rw [flying_some hfl]; simp [Ne.symm hid]) hm ha
  · obtain ⟨hlt, hkey⟩ := h.lines c ci hc r hr
    have hne' := h.entering f hfl hst c ci hc r hr
    refine ⟨hlt, fun e' he' => ?_⟩
    rw [hent, if_neg hne'] at he'
    obtain ⟨hk, ha⟩ := hkey e' he'
    rw [flying_some hfl] at ha
    exact ⟨hk, .inl (by simpa [Ne.symm hne'] using ha)⟩
  · rcases List.mem_append.mp hq with hq | hq
    · exact h.absent q hq c hqc hc
    · exact absurd ((hqs q hq).2.2 c hqc) hc

/-! ## Adding and dropping the records of the instrument in flight -/

theorem InstrumentedMethod.key_hasSig {m : InstrumentedMethod} {s : CStr} :
    m.hasSig s = true ↔ m.key = some s := by
  simp [hasSig, key]

/-- A change of the records of a class that moves those of the instrument in flight only. -/
theorem Coherent.rerecord (h : Coherent L) {f : Flight} (hfl : L.flight = some f) (f' : Flight)
    (hid : f'.id = f.id) (hst : f'.stage ≠ .entering) {c : CStr} {g : ClassInfo → ClassInfo}
    (hmethods : ∀ ci, L.cls c = some ci → ∀ id,
      ((g ci).instrumented.filter (·.hasId id)).map InstrumentedMethod.key =
          ((L.modCls c g).withFlight (some f')).methodKeysOf c id ∨ (L.purgingAt c ∧ L.gone id))
    (hother : ∀ c', c' ≠ c →
      ((L.modCls c g).withFlight (some f')).methodKeysOf c' f.id = L.methodKeysOf c' f.id)
    (hids : ∀ ci, L.cls c = some ci → ∀ m ∈ (g ci).instrumented, m.instrumentId < L.nextId)
    (hlines : ∀ ci, L.cls c = some ci → ∀ r ∈ (g ci).lines, r ∈ ci.lines ∨
      (r.instrumentId = f.id ∧ r.key c ∈ lineKeys (L.entry f.id))) :
    Coherent ((L.modCls c g).withFlight (some f')) := by
  have hfl' : ((L.modCls c g).withFlight (some f')).flight = some f' := rfl
  have hfly : ∀ id, ((L.modCls c g).withFlight (some f')).flying id = L.flying id := fun id => by
    rw [flying_some hfl', flying_some hfl, hid]
  refine ⟨h.pos, h.ids, fun f'' hf' => ?_, h.unique, fun id => (h.queue id).trans ?_,
    fun c' ci' hc' id => ?_, fun c' ci' hc' m hm' => ?_, fun id e' c' s he' hf ha hap => ?_,
    fun c' ci' hc' r hr => ?_, fun f'' hf' hst' => ?_, fun q hq c' hqc hc' => ?_⟩
  · cases hfl'.symm.trans hf'
    exact hid ▸ h.flightId f hfl
  · unfold queueKeysOf
    rw [hfly]
    rfl
  · unfold gone
    rw [hfly]
    rcases modCls_some.mp hc' with ⟨rfl, ci, hci, rfl⟩ | ⟨hcc, hci⟩
    · exact hmethods ci hci id
    · refine (h.methods c' ci' hci id).imp_left fun hm => hm.trans ?_
      -- in another class only the keys of the instrument in flight could differ
      by_cases hidf : f.id = id
      · exact hidf ▸ (hother c' hcc).symm
      · rw [methodKeysOf_some hfl, methodKeysOf_some hfl', hid, if_neg hidf, if_neg hidf]
        rfl
  · rcases modCls_some.mp hc' with ⟨rfl, ci, hci, rfl⟩ | ⟨_, hci⟩
    · exact hids ci hci m hm'
    · exact h.methodIds c' ci' hci m hm'
  · rw [hfly] at hf
    exact modCls_ne_none.mpr (h.applied id e' c' s he' hf ha hap)
  · simp only [hfly]
    rcases modCls_some.mp hc' with ⟨rfl, ci, hci, rfl⟩ | ⟨_, hci⟩
    · rcases hlines ci hci r hr with hold | ⟨hrid, hkey⟩
      · exact h.lines _ ci hci r hold
      · rw [hrid]
        refine ⟨h.flightId f hfl, fun e he => ⟨?_, .inr (by simp [flying_some hfl])⟩⟩
        rw [← he]
        exact hkey
    · exact h.lines c' ci' hci r hr
  · cases hfl'.symm.trans hf'
    exact absurd hst' hst
  · exact h.absent q hq c' hqc (modCls_ne_none.mp hc')

theorem methodKeysOf_cases (L : Ledger) (c : CStr) (id : Nat) :
    L.methodKeysOf c id = methodKeys c (L.entry id) ∨ L.methodKeysOf c id = [] := by
  unfold methodKeysOf appliedKeys
  split
  · split
    · split
      · exact .inl rfl
      · exact .inr rfl
    · split
      · exact .inl rfl
      · exact .inr rfl
  · split
    · exact .inl rfl
    · exact .inr rfl

theorem Coherent.addMethod (h : Coherent L) {f : Flight} {c : CStr} {sig : Pstring}
    (he : Enabled L (.addMethod f c sig)) : Coherent (apply L (.addMethod f c sig)) := by
  obtain ⟨hfl, hst, hpu, -, e, hef, hm⟩ := he
  refine h.rerecord hfl { f with stage := .recorded } rfl (by simp) (fun ci hci id => .inl ?_)
    (fun c' hcc => ?_) (fun ci hci m hm' => ?_) (fun ci _ r hr => .inl hr)
  · have hold := h.methods_eq hpu hci id
    rw [methodKeysOf_some hfl] at hold
    rw [methodKeysOf_some rfl]
    show List.map _ (List.filter _ (ci.instrumented ++ [_])) =
      if f.id = id then methodKeys c (L.entry id) else appliedKeys c (L.entry id)
    by_cases hid : f.id = id
    · subst hid
      simp only [hst, ↓reduceIte, reduceCtorEq, List.map_eq_nil_iff] at hold
      rw [List.filter_append, hold, if_pos rfl, hef, MiEntry.methodKeys_of_isMethodOf hm]
      simp [InstrumentedMethod.hasId, InstrumentedMethod.key]
    · rw [if_neg hid] at hold ⊢
      rw [← hold, filter_hasId_append_of_ne hid]
  · rw [methodKeysOf_some hfl, methodKeysOf_some rfl]
    show (if f.id = f.id then methodKeys c' (L.entry f.id) else _) = _
    simp [hst, hef, MiEntry.methodKeys_of_isMethodOf hm, Ne.symm hcc]
  · rcases List.mem_append.mp hm' with hm' | hm'
    · exact h.methodIds c ci hci m hm'
    · rw [List.mem_singleton] at hm'
      exact hm' ▸ h.flightId f hfl

/-- The first record of a signature belongs to the one instrument of that signature. -/
theorem Coherent.instrumentId_of_find (h : Coherent L) (hpu : L.purging = false) {c s : CStr}
    {ci : ClassInfo} (hci : L.cls c = some ci) {m : InstrumentedMethod}
    (hm : ci.instrumented.find? (·.hasSig s) = some m) :
    ∃ e, L.entry m.instrumentId = some e ∧ e.isMethodOf c s = true ∧
      (ci.instrumented.filter (·.hasId m.instrumentId)) = [m] := by
  have hkeys := h.methods_eq hpu hci m.instrumentId
  have hmem : m ∈ ci.instrumented.filter (·.hasId m.instrumentId) :=
    List.mem_filter.mpr ⟨List.mem_of_find?_eq_some hm, by simp [InstrumentedMethod.hasId]⟩
  have hsig : m.key = some s := InstrumentedMethod.key_hasSig.mp (List.find?_some hm)
  have hkey : m.key ∈ L.methodKeysOf c m.instrumentId := hkeys ▸ List.mem_map_of_mem hmem
  have hmk : L.methodKeysOf c m.instrumentId = methodKeys c (L.entry m.instrumentId) :=
    (methodKeysOf_cases L c m.instrumentId).resolve_right fun hnil => by rw [hnil] at hkey; cases hkey
  rw [hmk] at hkey hkeys
  cases he : L.entry m.instrumentId with
  | none => rw [he] at hkey; cases hkey
  | some e =>
    rw [he] at hkey hkeys
    obtain ⟨s', hs', hof⟩ := MiEntry.isMethodOf_of_methodKeys hkey
    rw [hsig] at hs'
    cases hs'
    refine ⟨e, rfl, hof, ?_⟩
    rw [MiEntry.methodKeys_of_isMethodOf hof, if_pos rfl, List.map_eq_singleton_iff] at hkeys
    obtain ⟨m', hl, _⟩ := hkeys
    rw [hl] at hmem ⊢
    rw [List.mem_singleton.mp hmem]

theorem Coherent.dropMethod (h : Coherent L) {f : Flight} {c s : CStr}
    (he : Enabled L (.dropMethod f c s)) : Coherent (apply L (.dropMethod f c s)) := by
  obtain ⟨hfl, hst, -, hpu, e, hef, hof⟩ := he
  refine h.rerecord hfl { f with stage := .leaving } rfl (by simp) (fun ci hci id => .inl ?_)
    (fun c' hcc => ?_) (fun ci hci m hm' => h.methodIds c ci hci m (List.mem_of_mem_eraseP hm'))
    (fun ci _ r hr => .inl hr)
  · have hold := h.methods_eq hpu hci id
    rw [methodKeysOf_some hfl] at hold
    rw [methodKeysOf_some rfl]
    show List.map _ (List.filter _ (ci.instrumented.eraseP _)) =
      if f.id = id then [] else appliedKeys c (L.entry id)
    cases hm : ci.instrumented.find? (·.hasSig s) with
    | none =>
      rw [Lists.eraseP_of_find?_eq_none hm, hold]
      by_cases hid : f.id = id
      · -- the record that the attempt added has the signature
        subst hid
        rw [if_pos rfl, if_pos hst, hef, MiEntry.methodKeys_of_isMethodOf hof, if_pos rfl,
          List.map_eq_singleton_iff] at hold
        obtain ⟨m, hl, hk⟩ := hold
        have hmem : m ∈ ci.instrumented := (List.mem_filter.mp (hl ▸ List.mem_singleton_self m)).1
        exact absurd (InstrumentedMethod.key_hasSig.mpr hk) (List.find?_eq_none.mp hm m hmem)
      · simp [hid]
    | some m =>
      obtain ⟨e', he', hof', hsingle⟩ := h.instrumentId_of_find hpu hci hm
      have hid' : m.instrumentId = f.id := h.unique _ _ _ _ _ _ he' hef hof' hof
      rw [Lists.filter_eraseP hm]
      by_cases hid : f.id = id
      · subst hid
        rw [if_pos (by simp [InstrumentedMethod.hasId, hid']), ← hid', hsingle, if_pos rfl,
          List.eraseP_cons_of_pos (List.find?_some hm), List.map_nil]
      · rw [if_neg (by simp [InstrumentedMethod.hasId, hid', hid]), hold]
        simp [hid]
  · rw [methodKeysOf_some hfl, methodKeysOf_some rfl]
    show (if f.id = f.id then [] else _) = _
    simp [hst, hef, MiEntry.methodKeys_of_isMethodOf hof, Ne.symm hcc]

/-- The entry of line records has no method records. -/
theorem methodKeys_of_lineKeys {e : Option MiEntry} (h : lineKeys e ≠ []) (c : CStr) :
    methodKeys c e = [] := by
  cases e with
  | none => rfl
  | some e => exact MiEntry.methodKeys_of_lineKeys h

/-- While the line instrument in flight moves its records, it has no method records. -/
theorem methodKeysOf_flight_line {f : Flight} (hfl : L.flight = some f)
    (hk : lineKeys (L.entry f.id) ≠ []) (c : CStr) : L.methodKeysOf c f.id = [] := by
  rw [methodKeysOf_some hfl, if_pos rfl, methodKeys_of_lineKeys hk, ite_self]

theorem Coherent.rerecord_line (h : Coherent L) {f : Flight} (hfl : L.flight = some f) (f' : Flight)
    (hid : f'.id = f.id) (hst : f'.stage ≠ .entering) (hk : lineKeys (L.entry f.id) ≠ []) {c : CStr}
    {g : ClassInfo → ClassInfo} (hg : ∀ ci, (g ci).instrumented = ci.instrumented)
    (hlines : ∀ ci, L.cls c = some ci → ∀ r ∈ (g ci).lines, r ∈ ci.lines ∨
      (r.instrumentId = f.id ∧ r.key c ∈ lineKeys (L.entry f.id))) :
    Coherent ((L.modCls c g).withFlight (some f')) := by
  have hkeys : ∀ c' id, ((L.modCls c g).withFlight (some f')).methodKeysOf c' id =
      L.methodKeysOf c' id := by
    intro c' id
    by_cases hidf : f.id = id
    · rw [← hidf, methodKeysOf_flight_line hfl hk, ← hid]
      exact methodKeysOf_flight_line rfl (by rw [hid]; exact hk) c'
    · rw [methodKeysOf_some hfl, methodKeysOf_some rfl, hid, if_neg hidf, if_neg hidf]
      rfl
  refine h.rerecord hfl f' hid hst (fun ci hci id => ?_) (fun c' _ => hkeys c' f.id)
    (fun ci hci m hm => h.methodIds c ci hci m (hg ci ▸ hm)) hlines
  rw [hkeys, hg]
  exact h.methods c ci hci id

theorem Coherent.addLine (h : Coherent L) {f : Flight} {k : LineKey}
    (he : Enabled L (.addLine f k)) : Coherent (apply L (.addLine f k)) := by
  obtain ⟨hfl, -, -, -, hk⟩ := he
  refine h.rerecord_line hfl { f with stage := .recorded, recs := f.recs ++ [k] } rfl (by simp)
    (List.ne_nil_of_mem hk) (fun _ => rfl) fun ci _ r hr => ?_
  rcases List.mem_append.mp hr with hr | hr
  · exact .inl hr
  · rw [List.mem_singleton] at hr
    subst hr
    exact .inr ⟨rfl, hk⟩

theorem Coherent.dropLine (h : Coherent L) {f : Flight} {c : CStr} {l : UInt32}
    (he : Enabled L (.dropLine f c l)) : Coherent (apply L (.dropLine f c l)) := by
  obtain ⟨hfl, hst, -, hk⟩ := he
  exact h.rerecord_line hfl
    { f with recs := f.recs.eraseP fun k => decide (k.cls = c ∧ k.line = l) } rfl
    hst hk (fun _ => rfl) fun ci _ r hr => .inl (List.mem_of_mem_eraseP hr)

/-! ## The end of a flight -/

theorem queueKeys_applied (e : MiEntry) : queueKeys (some e.applied) = [] := by
  obtain ⟨c, b⟩ := e
  cases b <;> rfl

theorem appliedKeys_applied (c : CStr) (e : MiEntry) :
    appliedKeys c (some e.applied) = methodKeys c (some e) := by
  obtain ⟨c', b⟩ := e
  cases b <;> simp [appliedKeys_some, MiEntry.applied, MiEntry.methodApplied,
    MiEntry.lineEntryApplied, MiEntry.lineExitApplied, MiEntry.isApplied, methodKeys]

theorem Coherent.settle (h : Coherent L) {f : Flight} (he : Enabled L (.settle f)) :
    Coherent (apply L (.settle f)) := by
  obtain ⟨hfl, hst, hpu, -, e, hef, hcls⟩ := he
  have hfl' : (apply L (.settle f)).flight = none := rfl
  have hent : ∀ id, (apply L (.settle f)).entry id =
      if id = f.id then some e.applied else L.entry id := fun id => by
    show (L.modEntry f.id MiEntry.applied).entry id = _
    rw [modEntry_entry, hef]
    rfl
  -- the entry is marked as applied, and is the same method or line
  have hold : ∀ id e', (apply L (.settle f)).entry id = some e' → ∃ e'', L.entry id = some e'' ∧
      (∀ c s, e'.isMethodOf c s = e''.isMethodOf c s) ∧ lineKeys (some e') = lineKeys (some e'') := by
    intro id e' he'
    rw [hent] at he'
    split at he'
    · next hid =>
      cases he'
      exact ⟨e, hid ▸ hef, MiEntry.applied_isMethodOf, MiEntry.lineKeys_applied⟩
    · exact ⟨e', he', fun _ _ => rfl, rfl⟩
  refine ⟨h.pos, fun id e' he' => ?_, fun f' hf' => (nomatch hf'),
    fun id id' e₁ e₂ c s h₁ h₂ hm₁ hm₂ => ?_, fun id => (h.queue id).trans ?_,
    fun c ci hc id => .inl ((h.methods_eq hpu hc id).trans ?_), h.methodIds,
    fun id e' c s he' _ hm ha => ?_, fun c ci hc r hr => ?_, fun f' hf' => (nomatch hf'), h.absent⟩
  · obtain ⟨e'', he'', -⟩ := hold id e' he'
    exact h.ids id e'' he''
  · obtain ⟨e₁', h₁', i₁, -⟩ := hold id e₁ h₁
    obtain ⟨e₂', h₂', i₂, -⟩ := hold id' e₂ h₂
    rw [i₁] at hm₁
    rw [i₂] at hm₂
    exact h.unique id id' e₁' e₂' c s h₁' h₂' hm₁ hm₂
  · rw [queueKeysOf_some hfl, queueKeysOf_none hfl', hent]
    by_cases hid : id = f.id
    · rw [if_pos hid.symm, if_pos hid, queueKeys_applied]
    · rw [if_neg (Ne.symm hid), if_neg hid]
  · rw [methodKeysOf_some hfl, methodKeysOf_none hfl', hent]
    by_cases hid : id = f.id
    · rw [if_pos hid.symm, if_pos hst, if_pos hid, hid, hef, appliedKeys_applied]
    · rw [if_neg (Ne.symm hid), if_neg hid]
  · by_cases hid : id = f.id
    · obtain ⟨e'', he'', hm', -⟩ := hold id e' he'
      rw [hid, hef] at he''
      cases he''
      exact hcls c s (hm' c s ▸ hm)
    · rw [hent, if_neg hid] at he'
      exact h.applied id e' c s he' (by simp [flying_some hfl, Ne.symm hid]) hm ha
  · obtain ⟨hlt, hkey⟩ := h.lines c ci hc r hr
    refine ⟨hlt, fun e' he' => ?_⟩
    obtain ⟨e'', he'', -, hk⟩ := hold _ e' he'
    obtain ⟨hkm, ha⟩ := hkey e'' he''
    refine ⟨hk ▸ hkm, .inl ?_⟩
    by_cases hid : r.instrumentId = f.id
    · rw [hent, if_pos hid] at he'
      cases he'
      rw [hid, hef] at he''
      cases he''
      refine MiEntry.applied_isApplied ?_
      obtain ⟨c', b⟩ := e
      cases b <;> simp_all [lineKeys, MiEntry.isUserVisible]
    · rw [hent, if_neg hid, he''] at he'
      cases he'
      rw [flying_some hfl] at ha
      simpa [Ne.symm hid] using ha

theorem Coherent.abandon (h : Coherent L) {f : Flight} {ok : Bool} (he : Enabled L (.abandon f ok)) :
    Coherent (apply L (.abandon f ok)) := by
  obtain ⟨hfl, hst, -⟩ := he
  have hfl' : (apply L (.abandon f ok)).flight = none := rfl
  have hent : ∀ id, (apply L (.abandon f ok)).entry id = if id = f.id then none else L.entry id :=
    fun id => setEntry_entry ..
  -- the entry in flight is gone, and the others are as they were
  have hold : ∀ id e', (apply L (.abandon f ok)).entry id = some e' →
      id ≠ f.id ∧ L.entry id = some e' := by
    intro id e' he'
    rw [hent] at he'
    split at he'
    · cases he'
    · next hid => exact ⟨hid, he'⟩
  have hfly : ∀ id, id ≠ f.id → L.flying id = false := fun id hid => by
    simp [flying_some hfl, Ne.symm hid]
  refine ⟨h.pos, fun id e' he' => h.ids id e' (hold id e' he').2, fun f' hf' => (nomatch hf'),
    fun id id' e₁ e₂ c s h₁ h₂ => h.unique id id' e₁ e₂ c s (hold id e₁ h₁).2 (hold id' e₂ h₂).2,
    fun id => (h.queue id).trans ?_, fun c ci hc id => ?_, h.methodIds,
    fun id e' c s he' _ hm ha => ?_, fun c ci hc r hr => ?_, fun f' hf' => (nomatch hf'), h.absent⟩
  · rw [queueKeysOf_some hfl, queueKeysOf_none hfl', hent]
    by_cases hid : id = f.id
    · rw [if_pos hid.symm, if_pos hid, queueKeys_none]
    · rw [if_neg (Ne.symm hid), if_neg hid]
  · rcases h.methods c ci hc id with hm | hp
    · refine .inl (hm.trans ?_)
      rw [methodKeysOf_some hfl, methodKeysOf_none hfl', hent]
      by_cases hid : id = f.id
      · rw [if_pos hid.symm, if_pos hid, appliedKeys_none, hid]
        split
        · next hrec => exact methodKeys_of_lineKeys (hst hrec) c
        · rfl
      · rw [if_neg (Ne.symm hid), if_neg hid]
    · refine .inr ⟨hp.1, .inl ?_⟩
      rw [hent]
      split
      · rfl
      · next hid => exact hp.2.resolve_right (by simp [hfly id hid])
  · obtain ⟨hid, he''⟩ := hold id e' he'
    exact h.applied id e' c s he'' (hfly id hid) hm ha
  · obtain ⟨hlt, hkey⟩ := h.lines c ci hc r hr
    refine ⟨hlt, fun e' he' => ?_⟩
    obtain ⟨hid, he''⟩ := hold _ e' he'
    obtain ⟨hk, ha⟩ := hkey e' he''
    exact ⟨hk, .inl (ha.resolve_right (by simp [hfly _ hid]))⟩

/-! ## Acts beside the three stores -/

/-- The invariant does not speak of the slots, the versions and the stale reads. -/
theorem Coherent.of_eq (h : Coherent L) {L' : Ledger} (he : L'.entry = L.entry)
    (hn : L'.nextId = L.nextId) (hq : L'.queue = L.queue) (hc : L'.cls = L.cls)
    (hf : L'.flight = L.flight) (hl : L'.loading = L.loading) (hp : L'.purging = L.purging) :
    Coherent L' := by
  obtain ⟨entry, nextId, queue, cls, slots, versions, outdated, stale, reports, flight, loading,
    purging⟩ := L'
  cases he; cases hn; cases hq; cases hc; cases hf; cases hl; cases hp
  exact ⟨h.pos, h.ids, h.flightId, h.unique, h.queue, h.methods, h.methodIds, h.applied, h.lines,
    h.entering, h.absent⟩

theorem Coherent.install (h : Coherent L) {c : CStr} {ci : ClassInfo} {kept : Bool} :
    Coherent (apply L (.install c ci kept)) := by
  cases hfl : L.flight with
  | none => exact h.of_eq rfl rfl rfl rfl (by simp [apply, withFlight, hfl]) rfl rfl
  | some f =>
    have hfl' : (apply L (.install c ci kept)).flight =
        some { f with installed := c :: f.installed } := by
      simp [apply, withFlight, hfl]
    have hfly : ∀ id, (apply L (.install c ci kept)).flying id = L.flying id := fun id => by
      rw [flying_some hfl, flying_some hfl']
    refine ⟨h.pos, h.ids, fun f' hf' => ?_, h.unique, fun id => (h.queue id).trans ?_,
      fun c' ci' hc' id => ?_, h.methodIds, fun id e c' s he hf => ?_, fun c' ci' hc' r hr => ?_,
      fun f' hf' hst => ?_, h.absent⟩
    · cases hfl'.symm.trans hf'
      exact h.flightId f hfl
    · unfold queueKeysOf
      rw [hfly]
      rfl
    · unfold gone
      rw [hfly, methodKeysOf_some hfl']
      have := h.methods c' ci' hc' id
      rw [methodKeysOf_some hfl] at this
      exact this
    · rw [hfly] at hf
      exact h.applied id e c' s he hf
    · simp only [hfly]
      exact h.lines c' ci' hc' r hr
    · cases hfl'.symm.trans hf'
      exact h.entering f hfl hst

theorem Coherent.settled (h : Coherent L) (he : Enabled L .settled) :
    Coherent (apply L .settled) := by
  obtain ⟨hfl, hpu, hq⟩ := he
  refine ⟨h.pos, h.ids, h.flightId, h.unique, h.queue, fun c ci hc id => .inl (h.methods_eq hpu hc id),
    h.methodIds, h.applied, h.lines, h.entering, fun q hqm c hqc hc => ?_⟩
  exact absurd (h.absent q hqm c hqc hc) (hq q hqm c hqc)

theorem Coherent.purge (h : Coherent L) : Coherent (apply L .purge) :=
  ⟨h.pos, h.ids, h.flightId, h.unique, h.queue,
    fun c ci hc id => (h.methods c ci hc id).imp_right fun hp => ⟨⟨rfl, hp.1.2⟩, hp.2⟩,
    h.methodIds, h.applied, h.lines, h.entering, h.absent⟩

theorem Coherent.load (h : Coherent L) {ci : ClassInfo} (he : Enabled L (.load ci)) :
    Coherent (apply L (.load ci)) := by
  obtain ⟨hfl, hlo, hpu, hms, hls, -⟩ := he
  have hcls : ∀ c, (apply L (.load ci)).cls c =
      if c = ci.name.cstr then some (loadedClass L ci) else L.cls c := fun c => Function.update_apply ..
  -- the records are those of the class that had the name, or none
  have hrecs : (∃ old, L.cls ci.name.cstr = some old ∧
      (loadedClass L ci).instrumented = old.instrumented ∧ (loadedClass L ci).lines = old.lines) ∨
      (L.cls ci.name.cstr = none ∧ (loadedClass L ci).instrumented = [] ∧
        (loadedClass L ci).lines = []) := by
    unfold loadedClass
    cases hc : L.cls ci.name.cstr with
    | none => exact .inr ⟨rfl, hms, hls⟩
    | some old => exact .inl ⟨old, rfl, rfl, rfl⟩
  have hne : ∀ c, L.cls c ≠ none → (apply L (.load ci)).cls c ≠ none := by
    intro c hc
    rw [hcls]
    split
    · simp
    · exact hc
  have hkeys : ∀ c id, (apply L (.load ci)).methodKeysOf c id = L.methodKeysOf c id := fun c id => by
    rw [methodKeysOf_none hfl, methodKeysOf_none (show (apply L (.load ci)).flight = none from hfl)]
    rfl
  refine ⟨h.pos, h.ids, h.flightId, h.unique, h.queue, fun c ci' hc id => .inl ?_,
    fun c ci' hc m hm => ?_, fun id e c s he hf hm ha => hne c (h.applied id e c s he hf hm ha),
    fun c ci' hc r hr => ?_, fun f hf => ?_, fun q hq c hqc hc => ?_⟩
  · rw [hkeys]
    rw [hcls] at hc
    split at hc
    · next hcc =>
      cases hc
      subst hcc
      rcases hrecs with ⟨old, hold, hm, -⟩ | ⟨hnone, hm, -⟩
      · rw [hm]
        exact h.methods_eq hpu hold id
      · rw [hm, methodKeysOf_none hfl]
        cases he : L.entry id with
        | none => rfl
        | some e =>
          refine (List.eq_nil_iff_forall_not_mem.mpr fun k hk => ?_).symm
          rw [appliedKeys_some] at hk
          split at hk
          · next ha =>
            obtain ⟨s, -, hof⟩ := MiEntry.isMethodOf_of_methodKeys hk
            exact h.applied id e _ s he (flying_none hfl id) hof ha hnone
          · cases hk
    · exact h.methods_eq hpu hc id
  · rw [hcls] at hc
    split at hc
    · cases hc
      rcases hrecs with ⟨old, hold, hm', -⟩ | ⟨-, hm', -⟩
      · exact h.methodIds _ old hold m (hm' ▸ hm)
      · rw [hm'] at hm
        cases hm
    · exact h.methodIds c ci' hc m hm
  · rw [hcls] at hc
    split at hc
    · next hcc =>
      cases hc
      rcases hrecs with ⟨old, hold, -, hl⟩ | ⟨-, -, hl⟩
      · exact hcc ▸ h.lines _ old hold r (hl ▸ hr)
      · rw [hl] at hr
        cases hr
    · exact h.lines c ci' hc r hr
  · exact absurd (hfl.symm.trans hf) (by simp)
  · rw [hcls] at hc
    split at hc
    · next hcc => rw [hcc]; rfl
    · exact absurd (h.absent q hq c hqc hc) (by simp [hlo])

/-! ## Instruments that leave -/

/-- An instrument starts to leave when it has no queue records and, outside the classes that
are given up, no method records. -/
theorem Coherent.leave (h : Coherent L) (hfl : L.flight = none) {f : Flight}
    (hst : f.stage = .leaving) (hid : f.id < L.nextId) (hq : queueKeys (L.entry f.id) = [])
    (hm : ∀ c, L.purgingAt c ∨ appliedKeys c (L.entry f.id) = []) :
    Coherent (L.withFlight (some f)) := by
  have hfl' : (L.withFlight (some f)).flight = some f := rfl
  have hfly : ∀ id, f.id ≠ id → (L.withFlight (some f)).flying id = false := fun id hne => by
    simp [flying_some hfl', hne]
  refine ⟨h.pos, h.ids, fun f' hf' => ?_, h.unique, fun id => (h.queue id).trans ?_,
    fun c ci hc id => ?_, h.methodIds, fun id e c s he hf => h.applied id e c s he (flying_none hfl id),
    fun c ci hc r hr => ⟨(h.lines c ci hc r hr).1, fun e he => ?_⟩, fun f' hf' hst' => ?_, h.absent⟩
  · cases hfl'.symm.trans hf'
    exact hid
  · rw [queueKeysOf_none hfl, queueKeysOf_some hfl']
    split
    · next heq => exact heq ▸ hq
    · rfl
  · rw [methodKeysOf_some hfl']
    rcases h.methods c ci hc id with hkeys | hp
    · rw [methodKeysOf_none hfl] at hkeys
      by_cases heq : f.id = id
      · subst heq
        -- its method records are gone, or go with the class
        rcases hm c with hpu | hnil
        · exact .inr ⟨hpu, .inr (by simp [flying_some hfl'])⟩
        · rw [if_pos rfl, if_neg (by simp [hst]), ← hnil]
          exact .inl hkeys
      · rw [if_neg heq]
        exact .inl hkeys
    · refine .inr ⟨hp.1, hp.2.imp_right fun hf => ?_⟩
      rw [flying_none hfl] at hf
      cases hf
  · obtain ⟨hk, ha⟩ := (h.lines c ci hc r hr).2 e he
    rw [flying_none hfl] at ha
    exact ⟨hk, .inl (by simpa using ha)⟩
  · cases hfl'.symm.trans hf'
    rw [hst] at hst'
    cases hst'

theorem appliedKeys_of_lineKeys {e : Option MiEntry} (hk : lineKeys e ≠ []) (c : CStr) :
    appliedKeys c e = [] := by
  rw [appliedKeys, methodKeys_of_lineKeys hk, ite_self]

theorem Coherent.leaveLine (h : Coherent L) {id : Nat} {e : MiEntry} {ci : ClassInfo}
    (he : Enabled L (.leaveLine id e ci)) : Coherent (apply L (.leaveLine id e ci)) := by
  obtain ⟨hfl, -, hent, hready, -⟩ := he
  refine h.leave hfl rfl (h.ids id e hent).2 ?_ fun c => .inr ?_
  · show queueKeys (L.entry id) = []
    rw [hent]
    exact MiEntry.queueKeys_of_isApplied (MiEntry.isApplied_of_lineIsReady hready)
  · show appliedKeys c (L.entry id) = []
    rw [hent]
    exact appliedKeys_of_lineKeys (MiEntry.lineKeys_of_lineIsReady hready) c

/-- A method record of an instrument in the table is one of an applied method. -/
theorem Coherent.method_of_mem (h : Coherent L) (hfl : L.flight = none) {c : CStr} {ci : ClassInfo}
    (hci : L.cls c = some ci) {m : InstrumentedMethod} (hm : m ∈ ci.instrumented)
    (hne : L.entry m.instrumentId ≠ none) : ∃ e s, L.entry m.instrumentId = some e ∧
      m.key = some s ∧ e.isApplied = true ∧ e.isMethodOf c s = true := by
  obtain ⟨e, hent⟩ := Option.ne_none_iff_exists'.mp hne
  have hkeys := (h.methods c ci hci m.instrumentId).resolve_right fun hp =>
    hne (hp.2.resolve_right (by simp [flying_none hfl]))
  have hkey : m.key ∈ appliedKeys c (some e) := by
    rw [← hent, ← methodKeysOf_none hfl, ← hkeys]
    exact List.mem_map_of_mem (List.mem_filter.mpr ⟨hm, by simp [InstrumentedMethod.hasId]⟩)
  rw [appliedKeys_some] at hkey
  split at hkey
  · next ha =>
    obtain ⟨s, hs, hof⟩ := MiEntry.isMethodOf_of_methodKeys hkey
    exact ⟨e, s, hent, hs, ha, hof⟩
  · cases hkey

theorem Coherent.leaveMethodRec (h : Coherent L) {m : InstrumentedMethod}
    (he : Enabled L (.leaveMethodRec m)) : Coherent (apply L (.leaveMethodRec m)) := by
  obtain ⟨hfl, hpu, hne, c, ci, hlo, hci, hm⟩ := he
  obtain ⟨e, s, hent, -, ha, hof⟩ := h.method_of_mem hfl hci hm hne
  refine h.leave hfl rfl (h.ids _ e hent).2 ?_ fun c' => ?_
  · show queueKeys (L.entry m.instrumentId) = []
    rw [hent, MiEntry.queueKeys_of_isApplied ha]
  · show _ ∨ appliedKeys c' (L.entry m.instrumentId) = []
    by_cases hcc : c' = c
    · exact .inl ⟨hpu, hcc ▸ hlo⟩
    · exact .inr (by
        rw [hent, appliedKeys_some, MiEntry.methodKeys_of_isMethodOf hof, if_neg (Ne.symm hcc),
          ite_self])

theorem Coherent.leaveLineRec (h : Coherent L) {r : InstrumentedLine}
    (he : Enabled L (.leaveLineRec r)) : Coherent (apply L (.leaveLineRec r)) := by
  obtain ⟨hfl, hpu, hne, c, ci, hlo, hci, hr⟩ := he
  obtain ⟨hlt, hkey⟩ := h.lines c ci hci r hr
  obtain ⟨e, he⟩ := Option.ne_none_iff_exists'.mp hne
  obtain ⟨hk, ha⟩ := hkey e he
  rw [flying_none hfl] at ha
  refine h.leave hfl rfl hlt ?_ fun c' => .inr ?_
  · show queueKeys (L.entry r.instrumentId) = []
    rw [he]
    exact MiEntry.queueKeys_of_isApplied (by simpa using ha)
  · show appliedKeys c' (L.entry r.instrumentId) = []
    rw [he]
    exact appliedKeys_of_lineKeys (List.ne_nil_of_mem hk) c'

theorem Coherent.takeMethod (h : Coherent L) {c s : CStr} {m : InstrumentedMethod}
    (he : Enabled L (.takeMethod c s m)) : Coherent (apply L (.takeMethod c s m)) := by
  obtain ⟨hfl, hpu, ci, hci, hm⟩ := he
  obtain ⟨e, hent, hof, hsingle⟩ := h.instrumentId_of_find hpu hci hm
  have hfl' : (apply L (.takeMethod c s m)).flight =
      some ⟨m.instrumentId, m.profilerId, .leaving, [], []⟩ := rfl
  -- its record in the class is why the instrument counts as applied
  have ha : e.isApplied = true := by
    have hkeys := h.methods_eq hpu hci m.instrumentId
    rw [methodKeysOf_none hfl, hent, appliedKeys_some, hsingle] at hkeys
    by_contra ha
    rw [if_neg ha] at hkeys
    cases hkeys
  have hq : queueKeys (L.entry m.instrumentId) = [] := by
    rw [hent]
    exact MiEntry.queueKeys_of_isApplied ha
  refine ⟨h.pos, h.ids, fun f' hf' => ?_, h.unique, fun id => (h.queue id).trans ?_,
    fun c' ci' hc' id => .inl ?_, fun c' ci' hc' m' hm' => ?_,
    fun id e c' s he hf hm ha => modCls_ne_none.mpr (h.applied id e c' s he (flying_none hfl id) hm ha),
    fun c' ci' hc' r hr => ?_, fun f' hf' hst => ?_,
    fun q hq c' hqc hc' => h.absent q hq c' hqc (modCls_ne_none.mp hc')⟩
  · cases hfl'.symm.trans hf'
    exact (h.ids _ e hent).2
  · rw [queueKeysOf_none hfl, queueKeysOf_some hfl']
    split
    · next heq => exact heq ▸ hq
    · rfl
  · rw [methodKeysOf_some hfl']
    show _ = if m.instrumentId = id then [] else appliedKeys c' (L.entry id)
    rcases modCls_some.mp hc' with ⟨rfl, ci', hci', rfl⟩ | ⟨hcc, hci'⟩
    · cases hci.symm.trans hci'
      show List.map _ (List.filter _ (ci.instrumented.eraseP _)) = _
      rw [Lists.filter_eraseP hm]
      by_cases hid : m.instrumentId = id
      · subst hid
        rw [if_pos (by simp [InstrumentedMethod.hasId]), hsingle,
          List.eraseP_cons_of_pos (List.find?_some hm), if_pos rfl, List.map_nil]
      · rw [if_neg (by simp [InstrumentedMethod.hasId, hid]), if_neg hid,
          h.methods_eq hpu hci id, methodKeysOf_none hfl]
    · rw [h.methods_eq hpu hci' id, methodKeysOf_none hfl]
      split
      · next hid =>
        rw [← hid, hent, appliedKeys_some, MiEntry.methodKeys_of_isMethodOf hof, if_neg (Ne.symm hcc),
          ite_self]
      · rfl
  · rcases modCls_some.mp hc' with ⟨rfl, ci', hci', rfl⟩ | ⟨_, hci'⟩
    · exact h.methodIds _ ci' hci' m' (List.mem_of_mem_eraseP hm')
    · exact h.methodIds c' ci' hci' m' hm'
  · obtain ⟨ci₀, hci₀, hl⟩ : ∃ ci₀, L.cls c' = some ci₀ ∧ ci'.lines = ci₀.lines := by
      rcases modCls_some.mp hc' with ⟨rfl, ci₀, hci₀, rfl⟩ | ⟨_, hci₀⟩
      · exact ⟨ci₀, hci₀, rfl⟩
      · exact ⟨ci', hci₀, rfl⟩
    obtain ⟨hlt, hkey⟩ := h.lines c' ci₀ hci₀ r (hl ▸ hr)
    refine ⟨hlt, fun e he => ?_⟩
    obtain ⟨hk, ha⟩ := hkey e he
    rw [flying_none hfl] at ha
    exact ⟨hk, .inl (by simpa using ha)⟩
  · cases hfl'.symm.trans hf'
    cases hst

/-! ## Taking records out of the queue -/

theorem MiEntry.isMethodOf_markHalf (q : QueuedInstr) (e : MiEntry) (c s : CStr) :
    (q.markHalf e).isMethodOf c s = e.isMethodOf c s := by
  obtain ⟨c', b⟩ := e
  unfold QueuedInstr.markHalf
  cases q.body <;> cases b <;> rfl

theorem MiEntry.lineKeys_markHalf (q : QueuedInstr) (e : MiEntry) :
    lineKeys (some (q.markHalf e)) = lineKeys (some e) := by
  obtain ⟨c', b⟩ := e
  unfold QueuedInstr.markHalf
  cases q.body <;> cases b <;> rfl

theorem isApplied_of_isMethodOf_markHalf (q : QueuedInstr) {e : MiEntry} {c s : CStr}
    (hof : e.isMethodOf c s = true) (ha : (q.markHalf e).isApplied = true) : e.isApplied = true := by
  obtain ⟨hc, n, d, hb, -⟩ := MiEntry.isMethodOf_iff.mp hof
  obtain ⟨c', b⟩ := e
  subst hb
  unfold QueuedInstr.markHalf at ha
  cases hq : q.body <;> rw [hq] at ha <;> exact ha

/-- An instrument that is not applied loses queue records: all of them when it is in flight
afterwards, or else those that its entry stopped to call for. -/
theorem Coherent.takeQueued (h : Coherent L) (hfl : L.flight = none) {id : Nat} {e e' : MiEntry}
    (hent : L.entry id = some e) (ha : e.isApplied = false)
    (hof : ∀ c s, e'.isMethodOf c s = e.isMethodOf c s)
    (ha' : ∀ c s, e.isMethodOf c s = true → e'.isApplied = false) {F : Option Flight}
    (hfl' : ∀ f, F = some f → f.id = id ∧ f.stage ≠ .recorded) {Q : List QueuedInstr}
    (hsub : ∀ q ∈ Q, q ∈ L.queue)
    (hother : ∀ id', id' ≠ id → Q.filter (·.hasId id') = L.queue.filter (·.hasId id'))
    (hown : (Q.filter (·.hasId id)).map QueuedInstr.key =
      if F.isSome then [] else queueKeys (some e')) :
    Coherent { L.setEntry id (some e') with queue := Q, flight := F } := by
  have hentry : ∀ id', ({ L.setEntry id (some e') with queue := Q, flight := F } : Ledger).entry
      id' = if id' = id then some e' else L.entry id' := fun id' => setEntry_entry id id' _
  have hnil : ∀ c, appliedKeys c (some e) = [] := fun c => by
    rw [appliedKeys_some, if_neg (by simp [ha])]
  have hnil' : ∀ c, appliedKeys c (some e') = [] := fun c => by
    rw [appliedKeys_some]
    split
    · next hap =>
      refine List.eq_nil_iff_forall_not_mem.mpr fun k hk => ?_
      obtain ⟨s, -, hm⟩ := MiEntry.isMethodOf_of_methodKeys hk
      rw [ha' c s (hof c s ▸ hm)] at hap
      cases hap
    · rfl
  -- a line record would make the instrument an applied one
  have hline : ∀ c ci, L.cls c = some ci → ∀ r ∈ ci.lines, r.instrumentId ≠ id := by
    rintro c ci hci r hr rfl
    have hap := ((h.lines c ci hci r hr).2 e hent).2
    rw [ha, flying_none hfl] at hap
    simp at hap
  refine ⟨h.pos, fun id' e₁ he₁ => ?_, fun f hf => ?_, fun id₁ id₂ e₁ e₂ c s h₁ h₂ hm₁ hm₂ => ?_,
    fun id' => ?_, fun c ci hci id' => ?_, h.methodIds, fun id' e₁ c s he₁ _ hm hap => ?_,
    fun c ci hci r hr => ⟨(h.lines c ci hci r hr).1, fun e₁ he₁ => ?_⟩, fun f hf _ c ci hci r hr => ?_,
    fun q hq => h.absent q (hsub q hq)⟩
  · rw [hentry] at he₁
    split at he₁
    · next heq => exact heq ▸ h.ids id e hent
    · exact h.ids id' e₁ he₁
  · rw [(hfl' f hf).1]
    exact (h.ids id e hent).2
  · have back : ∀ i a, ({ L.setEntry id (some e') with queue := Q, flight := F } : Ledger).entry
        i = some a → a.isMethodOf c s = true →
        ∃ a', L.entry i = some a' ∧ a'.isMethodOf c s = true := by
      intro i a hi hm
      rw [hentry] at hi
      split at hi
      · next heq =>
        cases hi
        exact ⟨e, heq ▸ hent, hof c s ▸ hm⟩
      · exact ⟨a, hi, hm⟩
    obtain ⟨a₁, ha₁, hm₁'⟩ := back _ _ h₁ hm₁
    obtain ⟨a₂, ha₂, hm₂'⟩ := back _ _ h₂ hm₂
    exact h.unique _ _ _ _ c s ha₁ ha₂ hm₁' hm₂'
  · have hold := h.queue id'
    rw [queueKeysOf_none hfl] at hold
    by_cases hid : id' = id
    · subst hid
      rw [hown, queueKeysOf, hentry, if_pos rfl]
      cases F with
      | none => simp [flying]
      | some f => simp [flying, (hfl' f rfl).1]
    · rw [hother id' hid, hold, queueKeysOf, hentry, if_neg hid]
      cases F with
      | none => simp [flying]
      | some f => simp [flying, (hfl' f rfl).1, Ne.symm hid]
  · rcases h.methods c ci hci id' with hkeys | hp
    · left
      rw [hkeys, methodKeysOf_none hfl, methodKeysOf, hentry]
      by_cases hid : id' = id
      · subst hid
        rw [hent, hnil, if_pos rfl]
        cases F with
        | none => exact (hnil' c).symm
        | some f => simp [(hfl' f rfl).1, (hfl' f rfl).2]
      · rw [if_neg hid]
        cases F with
        | none => rfl
        | some f => simp [(hfl' f rfl).1, Ne.symm hid]
    · refine .inr ⟨hp.1, .inl ?_⟩
      have hgone : L.entry id' = none := hp.2.resolve_right (by simp [flying_none hfl])
      rw [hentry, if_neg (fun heq => by rw [heq, hent] at hgone; cases hgone)]
      exact hgone
  · rw [hentry] at he₁
    split at he₁
    · cases he₁
      rw [ha' c s (hof c s ▸ hm)] at hap
      cases hap
    · exact h.applied id' e₁ c s he₁ (flying_none hfl id') hm hap
  · rw [hentry, if_neg (hline c ci hci r hr)] at he₁
    obtain ⟨hk, hap⟩ := (h.lines c ci hci r hr).2 e₁ he₁
    rw [flying_none hfl] at hap
    exact ⟨hk, .inl (by simpa using hap)⟩
  · rw [(hfl' f hf).1]
    exact hline c ci hci r hr

/-- A record in the queue is one that an entry calls for. -/
theorem Coherent.entry_of_queued (h : Coherent L) (hfl : L.flight = none) {q : QueuedInstr}
    (hq : q ∈ L.queue) : ∃ e, L.entry q.instrumentId = some e ∧ q.key ∈ queueKeys (some e) := by
  have hkeys := h.queue q.instrumentId
  rw [queueKeysOf_none hfl] at hkeys
  have hmem : q.key ∈ queueKeys (L.entry q.instrumentId) :=
    hkeys ▸ List.mem_map_of_mem (List.mem_filter.mpr ⟨hq, by simp [QueuedInstr.hasId]⟩)
  cases he : L.entry q.instrumentId with
  | none => rw [he] at hmem; cases hmem
  | some e => exact ⟨e, rfl, he ▸ hmem⟩

theorem not_isApplied_of_mem (h : Coherent L) (hfl : L.flight = none) {q : QueuedInstr}
    (hq : q ∈ L.queue) : ∃ e, L.entry q.instrumentId = some e ∧ e.isApplied = false := by
  obtain ⟨e, he, hmem⟩ := h.entry_of_queued hfl hq
  refine ⟨e, he, ?_⟩
  by_contra ha
  rw [MiEntry.queueKeys_of_isApplied (by simpa using ha)] at hmem
  cases hmem

/-- What the record of the instrument leaves in the queue when a load takes it out. -/
theorem keys_eraseP (h : Coherent L) (hfl : L.flight = none) {c : CStr} {q : QueuedInstr}
    {e : MiEntry} (hq : L.queue.find? (·.hasClass c) = some q)
    (hent : L.entry q.instrumentId = some e) :
    ((L.queue.eraseP (·.hasClass c)).filter (·.hasId q.instrumentId)).map QueuedInstr.key =
      if q.isLine then queueKeys (some (q.markHalf e)) else [] := by
  have hkeys := h.queue q.instrumentId
  have hown : q.hasId q.instrumentId = true := by simp [QueuedInstr.hasId]
  rw [queueKeysOf_none hfl, hent] at hkeys
  have hfind := Lists.find?_filter (r := (·.hasId q.instrumentId)) hq hown
  rw [Lists.filter_eraseP hq, if_pos hown]
  cases hline : q.isLine with
  | true => exact keys_markHalf hkeys hfind hline
  | false =>
    rw [(keys_single hkeys (List.mem_of_find?_eq_some hfind) hline).1,
      List.eraseP_cons_of_pos (List.find?_some hq)]
    rfl

theorem Coherent.takeByClass (h : Coherent L) {c : CStr} {q : QueuedInstr} (hfl : L.flight = none)
    (hq : L.queue.find? (·.hasClass c) = some q) {e : MiEntry}
    (hent : L.entry q.instrumentId = some e) {F : Option Flight}
    (hfl' : ∀ f, F = some f → f.id = q.instrumentId ∧ f.stage ≠ .recorded)
    (hkeys : (if q.isLine then queueKeys (some (q.markHalf e)) else []) =
      if F.isSome then [] else queueKeys (some (q.markHalf e))) :
    Coherent { L.modEntry q.instrumentId q.markHalf with
      queue := L.queue.eraseP (·.hasClass c), flight := F } := by
  obtain ⟨e', he', ha⟩ := not_isApplied_of_mem h hfl (List.mem_of_find?_eq_some hq)
  cases hent.symm.trans he'
  rw [modEntry, hent, Option.map_some]
  refine h.takeQueued hfl hent ha (MiEntry.isMethodOf_markHalf q e) (fun c s hof => ?_) hfl'
    (fun q' hq' => List.mem_of_mem_eraseP hq') (fun id' hid => ?_)
    ((keys_eraseP h hfl hq hent).trans hkeys)
  · by_contra hap
    rw [isApplied_of_isMethodOf_markHalf q hof (by simpa using hap)] at ha
    cases ha
  · rw [Lists.filter_eraseP hq, if_neg (by simp [QueuedInstr.hasId, Ne.symm hid])]

theorem Coherent.markHalf (h : Coherent L) {c : CStr} {q : QueuedInstr}
    (he : Enabled L (.markHalf c q)) : Coherent (apply L (.markHalf c q)) := by
  obtain ⟨-, hfl, -, hq, hline, e, hent, -⟩ := he
  have hmark := h.takeByClass (F := none) hfl hq hent (by simp) (by simp [hline])
  rw [← hfl] at hmark
  exact hmark

theorem Coherent.dequeue (h : Coherent L) {c : CStr} {q : QueuedInstr}
    (he : Enabled L (.dequeue c q)) : Coherent (apply L (.dequeue c q)) := by
  obtain ⟨-, hfl, -, hq, e, hent, ha⟩ := he
  refine h.takeByClass hfl hq hent (fun f hf => by cases hf; simp) ?_
  rw [if_pos (Option.isSome_some)]
  split
  · next hline => exact MiEntry.queueKeys_of_isApplied (ha hline)
  · rfl

theorem Coherent.unqueue (h : Coherent L) {id : Nat} {q : QueuedInstr}
    (he : Enabled L (.unqueue id q)) : Coherent (apply L (.unqueue id q)) := by
  obtain ⟨hfl, -, hq⟩ := he
  have hid : q.instrumentId = id := by simpa [QueuedInstr.hasId] using List.find?_some hq
  obtain ⟨e, hent, ha⟩ := not_isApplied_of_mem h hfl (List.mem_of_find?_eq_some hq)
  rw [hid] at hent
  have hkeys := h.queue id
  rw [queueKeysOf_none hfl] at hkeys
  have hset : L.setEntry id (some e) = L := by
    rw [← hent]
    exact Ledger.ext (Function.update_eq_self _ _) rfl rfl rfl rfl rfl rfl rfl rfl rfl rfl rfl
  have hrm := removeQueuedInstrById_eq L.queue id
  rw [hq] at hrm
  have hmain := h.takeQueued hfl hent ha (fun _ _ => rfl) (fun _ _ _ => ha)
    (F := some ⟨id, q.profilerId, .leaving, [], []⟩) (Q := removeQueuedInstrById L.queue id)
    (fun f hf => by cases hf; simp) (fun q' hq' => ?_) (fun id' hne => ?_) ?_
  · rw [hset] at hmain
    exact hmain
  · rw [hrm] at hq'
    simp only at hq'
    split at hq'
    · exact List.mem_of_mem_eraseP (List.mem_of_mem_eraseP hq')
    · exact List.mem_of_mem_eraseP hq'
  · have hother : ∀ l : List QueuedInstr,
        (l.eraseP (·.hasId id)).filter (·.hasId id') = l.filter (·.hasId id') := by
      intro l
      cases hf : l.find? (·.hasId id) with
      | none => rw [Lists.eraseP_of_find?_eq_none hf]
      | some x =>
        have hx : x.instrumentId = id := by simpa [QueuedInstr.hasId] using List.find?_some hf
        rw [Lists.filter_eraseP hf, if_neg (by simp [QueuedInstr.hasId, hx, Ne.symm hne])]
    rw [hrm]
    simp only
    split
    · rw [hother, hother]
    · rw [hother]
  · rw [if_pos Option.isSome_some, List.map_eq_nil_iff]
    -- of the at most two records of the instrument both are erased
    have hown : ∀ l : List QueuedInstr,
        (l.eraseP (·.hasId id)).filter (·.hasId id) = (l.filter (·.hasId id)).tail := by
      intro l
      cases hf : l.find? (·.hasId id) with
      | none =>
        rw [Lists.eraseP_of_find?_eq_none hf,
          List.filter_eq_nil_iff.mpr fun a ha => by simpa using List.find?_eq_none.mp hf a ha]
        rfl
      | some x =>
        rw [Lists.filter_eraseP hf, if_pos (List.find?_some hf)]
        cases hl : l.filter (·.hasId id) with
        | nil => rfl
        | cons a l' =>
          have ha : a.hasId id = true := (List.mem_filter.mp (hl ▸ List.mem_cons_self)).2
          rw [List.eraseP_cons_of_pos ha]
          rfl
    rw [hrm]
    simp only
    have hmem : q ∈ L.queue.filter (·.hasId id) :=
      List.mem_filter.mpr ⟨List.mem_of_find?_eq_some hq, List.find?_some hq⟩
    split
    · rw [hown, hown]
      have := keys_length hkeys
      exact List.eq_nil_of_length_eq_zero (by simp only [List.length_tail]; omega)
    · next hline =>
      rw [hown, (keys_single (hent ▸ hkeys) hmem (by simpa using hline)).1]
      rfl

theorem Coherent.clear (h : Coherent L) {c : CStr} (he : Enabled L (.clear c)) :
    Coherent (apply L (.clear c)) := by
  obtain ⟨hfl, hpu, hlo, hgone⟩ := he
  have hcls : ∀ c' ci', (apply L (.clear c)).cls c' = some ci' →
      (c' = c ∧ ci'.instrumented = [] ∧ ci'.lines = [] ∧ ∃ ci, L.cls c = some ci) ∨
        (c' ≠ c ∧ L.cls c' = some ci') := by
    intro c' ci' hc'
    rcases modCls_some.mp hc' with ⟨rfl, ci, hci, rfl⟩ | hne
    · exact .inl ⟨rfl, rfl, rfl, ci, hci⟩
    · exact .inr hne
  refine ⟨h.pos, h.ids, h.flightId, h.unique, h.queue, fun c' ci' hc' id => .inl ?_,
    fun c' ci' hc' m hm => ?_,
    fun id e c' s he hf hm ha => modCls_ne_none.mpr (h.applied id e c' s he hf hm ha),
    fun c' ci' hc' r hr => ?_, fun f hf => ?_,
    fun q hq c' hqc hc' => h.absent q hq c' hqc (modCls_ne_none.mp hc')⟩
  · show _ = (apply L (.clear c)).methodKeysOf c' id
    rw [methodKeysOf_none (L := apply L (.clear c)) hfl]
    show _ = appliedKeys c' (L.entry id)
    rcases hcls c' ci' hc' with ⟨rfl, hnil, -, ci, hci⟩ | ⟨hne, hci'⟩
    · rw [hnil, List.filter_nil, List.map_nil]
      rcases h.methods _ ci hci id with hkeys | ⟨-, hg⟩
      · rw [methodKeysOf_none hfl] at hkeys
        -- a record there is one of an entry that left
        refine (List.eq_nil_iff_forall_not_mem.mpr fun k hk => ?_).symm
        rw [← hkeys] at hk
        obtain ⟨m, hm, -⟩ := List.mem_map.mp hk
        obtain ⟨hm, hid⟩ := List.mem_filter.mp hm
        have hnone := hgone ci hci m hm
        rw [show m.instrumentId = id by simpa [InstrumentedMethod.hasId] using hid] at hnone
        rw [hnone] at hkeys
        rw [hkeys] at hk
        cases hk
      · rw [hg.resolve_right (by simp [flying_none hfl]), appliedKeys_none]
    · rw [← methodKeysOf_none hfl]
      refine (h.methods c' ci' hci' id).resolve_right fun hp => ?_
      exact hne (Option.some.inj (hp.1.2.symm.trans hlo))
  · rcases hcls c' ci' hc' with ⟨-, hnil, -⟩ | ⟨-, hci'⟩
    · rw [hnil] at hm
      cases hm
    · exact h.methodIds c' ci' hci' m hm
  · rcases hcls c' ci' hc' with ⟨-, -, hnil, -⟩ | ⟨-, hci'⟩
    · rw [hnil] at hr
      cases hr
    · exact h.lines c' ci' hci' r hr
  · exact absurd (hfl.symm.trans hf) (by simp)

/-! ## All acts -/

/-- Every enabled act keeps the ledger coherent. -/
theorem coherent_act (h : Coherent L) {a : Act} (he : Enabled L a) : Coherent (apply L a) := by
  cases a with
  | burn => exact h.burn
  | hide => exact h.hide he
  | start => exact h.start he
  | enqueue => exact h.enqueue he
  | addMethod => exact h.addMethod he
  | dropMethod => exact h.dropMethod he
  | addLine => exact h.addLine he
  | dropLine => exact h.dropLine he
  | settle => exact h.settle he
  | abandon => exact h.abandon he
  | mark => exact h.of_eq rfl rfl rfl rfl rfl rfl rfl
  | install => exact h.install
  | markHalf => exact h.markHalf he
  | dequeue => exact h.dequeue he
  | unqueue => exact h.unqueue he
  | takeMethod => exact h.takeMethod he
  | leaveLine => exact h.leaveLine he
  | define => exact h.of_eq rfl rfl rfl rfl rfl rfl rfl
  | load => exact h.load he
  | settled => exact h.settled he
  | purge => exact h.purge
  | leaveMethodRec => exact h.leaveMethodRec he
  | leaveLineRec => exact h.leaveLineRec he
  | release => exact h.of_eq rfl rfl rfl rfl rfl rfl rfl
  | clear => exact h.clear he
  | report => exact h.of_eq rfl rfl rfl rfl rfl rfl rfl
  | readStale => exact h.of_eq rfl rfl rfl rfl rfl rfl rfl

end JautoProf
