import JautoProf.HonestJvm
import JautoProf.Refines
import Mathlib.Data.List.Nodup

/-!
# The instruments that a ledger shows

What method requests and class loads leave behind: the signatures that each class lists,
the requests that wait for their class, and as many active profilers as there are of both.

Results:
1. `instrumentNow_shows`: a request for a loaded class is listed or refused.
2. `deferredLoop_shows`: a class load lists or refuses every request that waits for it, in
   the order of the queue.
-/

namespace JautoProf

open Prog Ledger

variable {L : Ledger} {w w' : World}

/-! ## Active slots -/

/-- The profiler id is that of an active slot. -/
def activeAt (slots : List Slot) (pid : Int) : Prop := ∃ id, holdsSlot slots id pid

/-- How many profilers are active. -/
def activeSlots (slots : List Slot) : Nat := slots.countP (·.active)

theorem activeAt_create {slots : List Slot} {pid : Int} (s : Slot) (h : activeAt slots pid) :
    activeAt (registryCreate slots s) pid ∧ pid ≠ registryCreateId slots := by
  obtain ⟨id, h⟩ := h
  refine ⟨⟨id, holdsSlot_create h⟩, ?_⟩
  rintro rfl
  obtain ⟨i, t, hpid, ht, hact, -⟩ := h
  obtain rfl : registryCreateId slots = i := Int.ofNat.inj hpid
  rw [registryCreateId_free ht] at hact
  cases hact

theorem activeAt_remove {slots : List Slot} {pid pid' : Int} (h : activeAt slots pid)
    (h' : activeAt slots pid') (hne : pid ≠ pid') : activeAt (registryRemove slots pid') pid := by
  obtain ⟨id, i, s, rfl, hs, hact, hid⟩ := h
  obtain ⟨-, j, -, rfl, -⟩ := h'
  refine ⟨id, i, s, rfl, ?_, hact, hid⟩
  rw [registryRemove_get, if_neg fun hij => hne (congrArg Int.ofNat hij)]
  exact hs

theorem activeSlots_create (slots : List Slot) {s : Slot} (h : s.active = true) :
    activeSlots (registryCreate slots s) = activeSlots slots + 1 := by
  unfold registryCreate activeSlots
  cases hi : slots.findIdx? fun s => !s.active with
  | none => simp [h]
  | some i =>
    obtain ⟨hlt, hfree, -⟩ := List.findIdx?_eq_some_iff_getElem.mp hi
    simp only [Bool.not_eq_true'] at hfree
    rw [List.countP_set hlt, if_neg (by simp [hfree]), if_pos h, Nat.sub_zero]

theorem activeSlots_remove {slots : List Slot} {pid : Int} (h : activeAt slots pid) :
    activeSlots (registryRemove slots pid) + 1 = activeSlots slots := by
  obtain ⟨-, i, s, rfl, hs, hact, -⟩ := h
  obtain ⟨hlt, rfl⟩ := List.getElem?_eq_some_iff.mp hs
  have hpos : 0 < activeSlots slots := List.countP_pos_iff.mpr ⟨_, List.getElem_mem hlt, hact⟩
  have hset : registryRemove slots (.ofNat i) = slots.set i { slots[i] with active := false } := by
    refine List.ext_getElem? fun j => ?_
    rw [registryRemove_get, List.getElem?_set]
    by_cases hij : j = i
    · simp [hij, hlt]
    · rw [if_neg hij, if_neg (Ne.symm hij)]
  rw [hset]
  unfold activeSlots at hpos ⊢
  rw [List.countP_set hlt, if_pos hact, if_neg (by simp)]
  omega

/-! ## What a ledger shows -/

/-- The key of the queue record of a request. -/
def waitingKey (x : CStr × CStr) : QueueKey := ⟨some x.1, .method (some x.2)⟩

/-- An entry calls for the record when it is the method, and deferred. -/
theorem waitingKey_mem {c s : CStr} {e : MiEntry} :
    waitingKey (c, s) ∈ queueKeys (some e) ↔ e.isMethodOf c s = true ∧ e.isApplied = false := by
  obtain ⟨c', b⟩ := e
  cases b with
  | method n d =>
    cases d with
    | true =>
      simp only [queueKeys, waitingKey, MiEntry.isMethodOf, MiEntry.isApplied, List.mem_singleton,
        QueueKey.mk.injEq, Option.some.injEq, QueueKind.method.injEq, decide_eq_true_eq]
      exact ⟨fun h => ⟨⟨h.1.symm, h.2.symm⟩, rfl⟩, fun h => ⟨h.1.1.symm, h.1.2.symm⟩⟩
    | false => simp [queueKeys, MiEntry.isApplied]
  | line x l l' d d' =>
    cases d <;> cases d' <;> simp [queueKeys, waitingKey, MiEntry.isMethodOf]
  | varBind => simp [queueKeys, MiEntry.isMethodOf]

/-- The classes list the signatures `I`, the requests `Q` wait, and `n` profilers are
active. -/
structure Shows (L : Ledger) (I : CStr → List CStr) (Q : List (CStr × CStr)) (n : Nat) : Prop where
  classes : ∀ c ci, L.cls c = some ci → ci.name.cstr = c ∧ ci.lines = [] ∧
    ci.instrumented.map (·.key) = (I c).map some
  versions : ∀ c, L.cls c ≠ none → ∃ v ∈ L.versions, v.name = c
  queue : L.queue.map (·.key) = Q.map waitingKey
  active : ∀ q ∈ L.queue, activeAt L.slots q.profilerId
  distinct : (L.queue.map (·.profilerId)).Nodup
  slots : activeSlots L.slots = n

variable {I : CStr → List CStr} {Q : List (CStr × CStr)} {n : Nat}

theorem Shows.of_eq (h : Shows L I Q n) {L' : Ledger} (hc : L'.cls = L.cls)
    (hv : L'.versions = L.versions) (hq : L'.queue = L.queue) (hs : L'.slots = L.slots) :
    Shows L' I Q n := by
  obtain ⟨h₁, h₂, h₃, h₄, h₅, h₆⟩ := h
  rw [← hc] at h₁ h₂
  rw [← hv] at h₂
  rw [← hq] at h₃ h₄ h₅
  rw [← hs] at h₄ h₆
  exact ⟨h₁, h₂, h₃, h₄, h₅, h₆⟩

/-- A profiler is created, in a slot that no waiting request has. -/
theorem Shows.created (h : Shows L I Q n) {s : Slot} (hs : s.active = true) :
    Shows { L with slots := registryCreate L.slots s } I Q (n + 1) ∧
      activeAt (registryCreate L.slots s) (registryCreateId L.slots) ∧
      ∀ q ∈ L.queue, q.profilerId ≠ registryCreateId L.slots := by
  refine ⟨⟨h.classes, h.versions, h.queue, fun q hq => (activeAt_create s (h.active q hq)).1,
    h.distinct, (activeSlots_create L.slots hs).trans (congrArg (· + 1) h.slots)⟩, ?_,
    fun q hq => (activeAt_create s (h.active q hq)).2⟩
  exact ⟨s.instrumentId, _, s, rfl, by rw [registryCreate_get, if_pos rfl], hs, rfl⟩

/-- An instrument that is refused leaves with its profiler. -/
theorem Shows.refused (h : Shows L I Q (n + 1)) {id : Nat} {pid : Int} (hpid : activeAt L.slots pid)
    (hq : ∀ q ∈ L.queue, q.profilerId ≠ pid) : Shows (L.refused id pid) I Q n :=
  ⟨h.classes, h.versions, h.queue, fun q hq' => activeAt_remove (h.active q hq') hpid (hq q hq'),
    h.distinct, Nat.succ.inj ((activeSlots_remove hpid).trans h.slots)⟩

/-- An instrument that is applied is listed in its class, behind the others. -/
theorem Shows.applied (h : Shows L I Q n) {c s : CStr} {m : InstrumentedMethod} (hm : m.key = some s)
    (ci : ClassInfo) (kept : Bool) :
    Shows (L.applied c m ci kept) (Function.update I c (I c ++ [s])) Q n := by
  refine ⟨fun c' ci' hc' => ?_, fun c' hc' => ?_, h.queue, h.active, h.distinct, h.slots⟩
  · rcases modCls_some.mp hc' with ⟨rfl, ci₀, hci₀, rfl⟩ | ⟨hne, hci'⟩
    · obtain ⟨hname, hl, hkeys⟩ := h.classes c' ci₀ hci₀
      refine ⟨hname, hl, ?_⟩
      rw [Function.update_self, List.map_append, ← hkeys]
      exact (List.map_append).trans (by rw [List.map_singleton, hm]; rfl)
    · rw [Function.update_of_ne hne]
      exact h.classes c' ci' hci'
  · obtain ⟨v, hv, hname⟩ := h.versions c' (modCls_ne_none.mp hc')
    show ∃ v ∈ (L.install c ci kept).versions, v.name = c'
    unfold Ledger.install
    cases retransformTarget L.versions c ci.loader with
    | none => exact ⟨v, hv, hname⟩
    | some i =>
      obtain ⟨j, hj, rfl⟩ := List.getElem_of_mem hv
      refine ⟨_, List.getElem_mem (n := j) (by simpa [installCode] using hj), ?_⟩
      simp only [installCode, List.getElem_modify]
      split <;> exact hname

/-- A request that has to wait is put behind the others. -/
theorem Shows.enqueued (h : Shows L I Q n) {q : QueuedInstr} {x : CStr × CStr}
    (hx : q.key = waitingKey x) (hact : activeAt L.slots q.profilerId)
    (hpid : ∀ q' ∈ L.queue, q'.profilerId ≠ q.profilerId) :
    Shows { L with queue := L.queue ++ [q] } I (Q ++ [x]) n := by
  refine ⟨h.classes, h.versions, ?_, fun q' hq' => ?_, ?_, h.slots⟩
  · show (L.queue ++ [q]).map _ = _
    rw [List.map_append, List.map_append, h.queue, List.map_singleton, hx]
    rfl
  · rcases List.mem_append.mp hq' with hq' | hq'
    · exact h.active q' hq'
    · exact List.mem_singleton.mp hq' ▸ hact
  · show ((L.queue ++ [q]).map _).Nodup
    rw [List.map_append, List.nodup_append]
    refine ⟨h.distinct, List.nodup_singleton _, fun p hp p' hp' => ?_⟩
    obtain ⟨q', hq', rfl⟩ := List.mem_map.mp hp
    obtain rfl := List.mem_singleton.mp hp'
    exact hpid q' hq'

/-- The first request of a class is taken out of the queue. -/
theorem Shows.dequeued (h : Shows L I Q n) {c : CStr} {q : QueuedInstr}
    (hq : L.queue.find? (·.hasClass c) = some q) :
    ∃ s, Q.find? (·.1 = c) = some (c, s) ∧ q.key = waitingKey (c, s) ∧ activeAt L.slots q.profilerId ∧
      (∀ q' ∈ L.queue.eraseP (·.hasClass c), q'.profilerId ≠ q.profilerId) ∧
      Shows { L with queue := L.queue.eraseP (·.hasClass c) } I (Q.eraseP (·.1 = c)) n := by
  have hmem := List.mem_of_find?_eq_some hq
  -- the queue and the requests are searched for the same keys
  have hkeyed : ∀ q : QueuedInstr, q.hasClass c = (fun k : QueueKey => decide (k.cls = some c)) q.key :=
    fun _ => rfl
  have hasked : ∀ x : CStr × CStr,
      decide (x.1 = c) = (fun k : QueueKey => decide (k.cls = some c)) (waitingKey x) :=
    fun x => by simp [waitingKey]
  have hfind : (Q.find? fun x => decide (x.1 = c)).map waitingKey = some q.key := by
    rw [funext hasked, ← Function.comp_def (fun k : QueueKey => decide (k.cls = some c)) waitingKey,
      ← List.find?_map, ← h.queue, List.find?_map, Function.comp_def]
    exact congrArg _ hq
  obtain ⟨⟨c', s⟩, hx, hkey⟩ := Option.map_eq_some_iff.mp hfind
  obtain rfl : c' = c := by simpa using List.find?_some hx
  refine ⟨s, hx, hkey.symm, h.active q hmem, ?_, h.classes, h.versions, ?_,
    fun q' hq' => h.active q' (List.eraseP_subset hq'), ?_, h.slots⟩
  · obtain ⟨l₁, l₂, hl, herase, -⟩ := Lists.eraseP_split hq
    have hdis := h.distinct
    rw [hl, List.map_append, List.map_cons] at hdis
    rw [herase]
    intro q' hq' heq
    refine (List.nodup_cons.mp (List.nodup_middle.mp hdis)).1 ?_
    rw [← List.map_append]
    exact List.mem_map.mpr ⟨q', hq', heq⟩
  · show (L.queue.eraseP _).map _ = _
    rw [funext hkeyed, ← Function.comp_def (fun k : QueueKey => decide (k.cls = some c')),
      ← List.eraseP_map, h.queue, List.eraseP_map, Function.comp_def, ← funext hasked]
  · exact h.distinct.sublist (List.eraseP_sublist.map _)

/-- The JVM defines a class. -/
theorem Shows.defined (h : Shows L I Q n) (c : CStr) (loader : Option Nat) :
    Shows { L with versions := defineVersion L.versions c loader } I Q n := by
  refine ⟨h.classes, fun c' hc' => ?_, h.queue, h.active, h.distinct, h.slots⟩
  obtain ⟨v, hv, rfl⟩ := h.versions c' hc'
  by_cases hc : v.name = c
  · exact ⟨⟨c, loader, []⟩, List.mem_append_right _ (List.mem_singleton_self _), hc.symm⟩
  · exact ⟨v, List.mem_append_left _ (List.mem_filter.mpr ⟨hv, by simp [hc]⟩), rfl⟩

/-- A class that is loaded for the first time lists nothing yet. -/
theorem Shows.loaded (h : Shows L I Q n) {ci : ClassInfo} (hm : ci.instrumented = [])
    (hl : ci.lines = []) (hver : ∃ v ∈ L.versions, v.name = ci.name.cstr) :
    Shows { L with cls := Function.update L.cls ci.name.cstr (some ci) }
      (Function.update I ci.name.cstr []) Q n := by
  refine ⟨fun c ci' hc => ?_, fun c hc => ?_, h.queue, h.active, h.distinct, h.slots⟩
  · by_cases hcc : c = ci.name.cstr
    · subst hcc
      obtain rfl : ci = ci' := by simpa using hc
      exact ⟨rfl, hl, by rw [hm, Function.update_self]; rfl⟩
    · rw [Function.update_of_ne hcc]
      exact h.classes c ci' ((Function.update_of_ne hcc _ _).symm.trans hc)
  · by_cases hcc : c = ci.name.cstr
    · exact hcc ▸ hver
    · exact h.versions c fun hno => hc ((Function.update_of_ne hcc _ _).trans hno)

/-! ## An attempt -/

variable {env : Env} {has : List UInt8 → CStr → Bool}

/-- The class file of a loaded class. -/
def World.classFile (w : World) (c : CStr) : Option (List UInt8) := (w.cls c).map (·.bytecode)

theorem classFile_of_cls (h : w'.cls = w.cls) : w'.classFile = w.classFile :=
  funext fun c => congrArg (Option.map _) (congrFun h c)

/-- An attempt at a method of a loaded class, with the queue that it leaves alone. -/
theorem instrumentNow_shows (hH : env.Honest has) (hA : env.Ample) {c s : CStr} {id : Nat}
    {pid : Int} {st : InstrumentRespStatus} {e : MiEntry} {data : List UInt8} {q : List QueuedInstr}
    (h : instrumentNow env c id pid w = (st, w')) (he : w.entry id = some e)
    (hof : e.isMethodOf c s = true) (hfile : w.classFile c = some data)
    (hS : Shows { w.ledger with queue := q } I Q (n + 1)) (hpid : activeAt w.slots pid)
    (hq : ∀ q' ∈ q, q'.profilerId ≠ pid) (hhas : ∀ t ∈ I c, has data t = true) (hnew : s ∉ I c) :
    w'.classFile = w.classFile ∧
      ((has data s = true ∧ st = .ok ∧
          Shows { w'.ledger with queue := q } (Function.update I c (I c ++ [s])) Q (n + 1)) ∨
        (has data s = false ∧ st = .error ∧ Shows { w'.ledger with queue := q } I Q n)) := by
  obtain ⟨ci, hci, rfl⟩ := Option.map_eq_some_iff.mp hfile
  obtain ⟨hname, hl, hkeys⟩ := hS.classes c ci hci
  have hlisted : ∀ m ∈ ci.instrumented, ∃ t ∈ I c, m.key = some t := by
    intro m hm
    obtain ⟨t, ht, hmt⟩ := List.mem_map.mp (hkeys ▸ List.mem_map_of_mem hm)
    exact ⟨t, ht, hmt.symm⟩
  -- the records of the class are those of the requests kept for it
  have hhas' : ∀ m ∈ ci.instrumented, m.methodSig.any (fun t => has ci.bytecode t.cstr) = true := by
    intro m hm
    obtain ⟨t, ht, hk⟩ := hlisted m hm
    obtain ⟨p, hp, rfl⟩ := Option.map_eq_some_iff.mp hk
    simpa [hp] using hhas _ ht
  have hnew' : ∀ m ∈ ci.instrumented, m.key ≠ some s := by
    intro m hm hk
    obtain ⟨t, ht, hk'⟩ := hlisted m hm
    rw [hk, Option.some.injEq] at hk'
    exact hnew (hk' ▸ ht)
  have hver : ∃ v ∈ w.versions, v.name = c := hS.versions c fun hnone => by
    cases hnone.symm.trans hci
  rcases instrumentNow_honest hH hA h he hof hci hname hl hver hhas' hnew' with
    ⟨hs, rfl, sig, ci', kept, rfl, hw'⟩ | ⟨hs, rfl, hw'⟩
  · refine ⟨funext fun c' => ?_, .inl ⟨hs, rfl, ?_⟩⟩
    · rw [World.classFile, show w'.cls = _ from congrArg Ledger.cls hw']
      show Option.map _ ((w.ledger.modCls c _).cls c') = _
      rw [modCls_cls]
      split
      · next hc => rw [hc, Option.map_map]; rfl
      · rfl
    · rw [hw']
      exact hS.applied (m := ⟨some sig, pid, id⟩) rfl ci' kept
  · refine ⟨?_, .inr ⟨hs, rfl, ?_⟩⟩
    · rw [show w'.classFile = fun c' => (w'.ledger.cls c').map (·.bytecode) from rfl, hw']
      rfl
    · rw [hw']
      exact hS.refused hpid hq

/-! ## A class load -/

theorem Shows.pos (h : Shows L I Q n) {q : QueuedInstr} (hq : q ∈ L.queue) : n ≠ 0 := by
  obtain ⟨-, i, s, -, hs, hact, -⟩ := h.active q hq
  rw [← h.slots]
  exact (List.countP_pos_iff.mpr ⟨s, List.mem_of_getElem? hs, hact⟩).ne'

/-- A round of the loop looks at the first request of the class. -/
theorem deferredRound_shows (hH : env.Honest has) (hA : env.Ample) {c : CStr} {idx : Nat}
    {q : QueuedInstr} {u : Unit} {data : List UInt8} (h : deferredRound env c idx q w = (u, w'))
    (hidx : queuedInstrListFindByClass w.queuedInstruments c = some idx)
    (hget : w.queuedInstruments[idx]? = some q)
    (hI : Coherent (w.ledger.amid w.queuedInstruments none (some c) false))
    (hfile : w.classFile c = some data) (hS : Shows w.ledger I Q n)
    (hhas : ∀ t ∈ I c, has data t = true)
    (hnew : ∀ s, Q.find? (·.1 = c) = some (c, s) → s ∉ I c) :
    ∃ s m, Q.find? (·.1 = c) = some (c, s) ∧ n = m + 1 ∧ w'.classFile = w.classFile ∧
      ((has data s = true ∧
          Shows w'.ledger (Function.update I c (I c ++ [s])) (Q.eraseP (·.1 = c)) (m + 1)) ∨
        (has data s = false ∧ Shows w'.ledger I (Q.eraseP (·.1 = c)) m)) := by
  have hfind : w.queuedInstruments.find? (·.hasClass c) = some q :=
    (Lists.getElem?_of_findIdx? hidx).symm.trans hget
  have hmem := List.mem_of_find?_eq_some hfind
  obtain ⟨m, rfl⟩ := Nat.exists_eq_succ_of_ne_zero (hS.pos hmem)
  obtain ⟨s, hs, hkey, hact, hpid, hS'⟩ := hS.dequeued hfind
  refine ⟨s, m, hs, rfl, ?_⟩
  obtain ⟨_, w₁, r₁, r₂⟩ := bind_eq.mp h
  have hw' := modifyQueue_run r₂
  have hq₁ : w₁.queuedInstruments = w.queuedInstruments :=
    congrArg Prod.fst ((backlog_doDeferredInstrument env c q).run r₁)
  rw [hq₁, queuedInstrListRemoveAndDestroy, Lists.eraseIdx_of_findIdx? hidx] at hw'
  -- the entry of the request
  obtain ⟨e, he, hmemKeys⟩ := hI.entry_of_queued rfl hmem
  rw [hkey, waitingKey_mem] at hmemKeys
  have hof := hmemKeys.1
  obtain ⟨i, p, cn, body⟩ := q
  cases body with
  | lineEnter l => cases congrArg QueueKey.kind hkey
  | lineExit l => cases congrArg QueueKey.kind hkey
  | varBind v l => cases congrArg QueueKey.kind hkey
  | method sig =>
    obtain ⟨st, w₂, r₃, r₄⟩ := bind_eq.mp r₁
    obtain ⟨hfiles, ⟨hhave, rfl, hS₂⟩ | ⟨hlack, rfl, hS₂⟩⟩ :=
      instrumentNow_shows hH hA r₃ he hof hfile hS' hact hpid hhas (hnew s hs)
    · obtain ⟨-, rfl⟩ := pure_eq.mp r₄
      refine ⟨Eq.trans ?_ hfiles, .inl ⟨hhave, hw' ▸ hS₂⟩⟩
      exact classFile_of_cls (congrArg Ledger.cls hw')
    · have hw₁ := reportFailure_run r₄
      rw [hw₁] at hw'
      refine ⟨Eq.trans ?_ hfiles, .inr ⟨hlack, hw' ▸ hS₂.of_eq rfl rfl rfl rfl⟩⟩
      exact classFile_of_cls (congrArg Ledger.cls hw')

/-- The signatures of the class that wait. -/
def waiting (Q : List (CStr × CStr)) (c : CStr) : List CStr :=
  (Q.filter fun x => decide (x.1 = c)).map Prod.snd

theorem waiting_of_find {c s : CStr} (h : Q.find? (·.1 = c) = some (c, s)) :
    waiting Q c = s :: waiting (Q.eraseP (·.1 = c)) c ∧
      (Q.filter fun x => decide (x.1 ≠ c)) =
        (Q.eraseP (·.1 = c)).filter fun x => decide (x.1 ≠ c) := by
  obtain ⟨Q₁, Q₂, rfl, herase, hQ₁⟩ := Lists.eraseP_split h
  have hnone : (Q₁.filter fun x => decide (x.1 = c)) = [] :=
    List.filter_eq_nil_iff.mpr fun x hx => by simpa using hQ₁ x hx
  rw [herase]
  simp [waiting, hnone]

/-- With no record of the class in the queue, no request for the class waits. -/
theorem Shows.waiting_eq_nil (h : Shows L I Q n) {c : CStr}
    (hq : ∀ q ∈ L.queue, q.hasClass c = false) :
    waiting Q c = [] ∧ (Q.filter fun x => decide (x.1 ≠ c)) = Q := by
  have hne : ∀ x ∈ Q, x.1 ≠ c := by
    rintro x hx rfl
    obtain ⟨q, hqm, hkey⟩ := List.mem_map.mp (h.queue ▸ List.mem_map_of_mem (f := waitingKey) hx)
    have hhas : q.hasClass x.1 = decide (q.key.cls = some x.1) := rfl
    simp [hq q hqm, hkey, waitingKey] at hhas
  refine ⟨?_, List.filter_eq_self.mpr fun x hx => by simpa using hne x hx⟩
  rw [waiting, List.filter_eq_nil_iff.mpr fun x hx => by simpa using hne x hx, List.map_nil]

/-- Where nothing waits for the class the loop is done. -/
theorem Shows.loop_done (h : Shows L I Q n) {c : CStr} {d : List UInt8}
    (hq : ∀ q ∈ L.queue, q.hasClass c = false) :
    n = n + ((waiting Q c).filter (!has d ·)).length ∧
      Shows L (Function.update I c (I c ++ (waiting Q c).filter (has d ·)))
        (Q.filter fun x => decide (x.1 ≠ c)) n := by
  obtain ⟨hwait, hQ⟩ := h.waiting_eq_nil hq
  refine ⟨by rw [hwait]; rfl, ?_⟩
  rw [hwait, hQ, List.filter_nil, List.append_nil, Function.update_eq_self]
  exact h

/-- The loop looks at every request of the class, in order. -/
theorem deferredLoop_shows (hH : env.Honest has) (hA : env.Ample) {c : CStr} {rounds : Nat} {u : Unit}
    {data : List UInt8} (h : deferredLoop env c rounds w = (u, w'))
    (hlen : w.queuedInstruments.length ≤ rounds)
    (hI : anyRun.Inv (w.ledger.amid w.queuedInstruments none (some c) false))
    (hfile : w.classFile c = some data) (hS : Shows w.ledger I Q n)
    (hhas : ∀ t ∈ I c, has data t = true) (hnodup : (I c ++ waiting Q c).Nodup) :
    ∃ m, n = m + ((waiting Q c).filter (!has data ·)).length ∧ w'.classFile = w.classFile ∧
      Shows w'.ledger (Function.update I c (I c ++ (waiting Q c).filter (has data ·)))
        (Q.filter fun x => decide (x.1 ≠ c)) m := by
  induction rounds generalizing w I Q n with
  | zero =>
    cases h
    have hempty : w'.ledger.queue = [] := List.eq_nil_of_length_eq_zero (Nat.le_zero.mp hlen)
    obtain ⟨hn, hS⟩ := hS.loop_done (d := data) (by simp [hempty])
    exact ⟨n, hn, rfl, hS⟩
  | succ rounds ih =>
    obtain ⟨queue, w₁, r₁, h₁⟩ := bind_eq.mp h
    obtain ⟨rfl, rfl⟩ := read_eq.mp r₁
    cases hidx : queuedInstrListFindByClass w.queuedInstruments c with
    | none =>
      rw [hidx] at h₁
      cases h₁
      obtain ⟨hn, hS⟩ := hS.loop_done (d := data) fun q hq => by
        simpa using List.find?_eq_none.mp (Lists.findIdx?_eq_none.mp hidx) q hq
      exact ⟨n, hn, rfl, hS⟩
    | some idx =>
      simp only [hidx] at h₁
      have hlt := (List.findIdx?_eq_some_iff_getElem.mp hidx).1
      have hget := List.getElem?_eq_getElem hlt
      rw [hget] at h₁
      obtain ⟨_, w₂, r₂, h₂⟩ := bind_eq.mp h₁
      have hcls : w.cls c ≠ none := fun hnone => by simp [World.classFile, hnone] at hfile
      obtain ⟨hround, hqueue⟩ :=
        deferredRound_leads r₂ hidx hget hI hcls False.elim False.elim False.elim
      obtain ⟨s, m, hs, rfl, hfile₂, hcases⟩ := deferredRound_shows hH hA r₂ hidx hget hI.coherent hfile
        hS hhas fun s hs hmem => by
          rw [(waiting_of_find hs).1] at hnodup
          exact (List.nodup_append.mp hnodup).2.2 s hmem s List.mem_cons_self rfl
      obtain ⟨hwait, hQ⟩ := waiting_of_find hs
      rw [hwait] at hnodup ⊢
      rw [hQ]
      have hlen₂ : w₂.queuedInstruments.length ≤ rounds := by
        rw [hqueue, List.length_eraseIdx_of_lt hlt]
        omega
      -- the request at the head is kept when the class has the method, and given up when not
      rcases hcases with ⟨hhave, hS₂⟩ | ⟨hlack, hS₂⟩
      · have hI₂ : Function.update I c (I c ++ [s]) c = I c ++ [s] := Function.update_self ..
        obtain ⟨k, hk, hfile', hS'⟩ := ih h₂ hlen₂ (hI.leads hround) (hfile₂ ▸ hfile) hS₂
          (by rw [hI₂]; simpa [hhave, or_imp, forall_and] using hhas)
          (by rw [hI₂, List.append_assoc]; exact hnodup)
        refine ⟨k, by simpa [hhave] using hk, hfile'.trans hfile₂, ?_⟩
        rw [hI₂, Function.update_idem, List.append_assoc] at hS'
        rw [List.filter_cons_of_pos hhave]
        exact hS'
      · obtain ⟨k, hk, hfile', hS'⟩ := ih h₂ hlen₂ (hI.leads hround) (hfile₂ ▸ hfile) hS₂ hhas
          ((List.sublist_cons_self s _).append_left _ |> hnodup.sublist)
        refine ⟨k, ?_, hfile'.trans hfile₂, ?_⟩
        · rw [List.filter_cons_of_pos (by simp [hlack]), List.length_cons, hk]
          omega
        · rw [List.filter_cons_of_neg (by simp [hlack])]
          exact hS'

end JautoProf
