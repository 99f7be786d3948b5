import JautoProf.Lib.Deferral
import JautoProf.Waiting

/-!
# Requests before and after the load of their class

A request for a method of a class that is not loaded waits in the queue, and is looked at
when the class is loaded; one for a loaded class is looked at at once. With memory, a
registry that lets go of profilers, and a JVM that accepts a method when the class has it,
both come to the same, in whatever order the requests and the loads arrive.

Results:
1. `shows_serve`: a run of requests and loads keeps what `Deferral.run` keeps.
2. `interleavings_agree`: two interleavings end with the same instruments.
3. `interleavings_disagree`: without memory, or with a registry that does not let go of a
   profiler, they need not.
-/

namespace JautoProf

open Prog Ledger Act

variable {env : Env} {has : List UInt8 → CStr → Bool} {w w' : World}

/-! ## What a world shows of the requests -/

/-- Requests by class and signature, and class files. -/
abbrev Requests := Deferral.State CStr CStr (List UInt8)

/-- The requests whose class is not loaded. -/
def Requests.unknown (a : Requests) : List (CStr × CStr) :=
  a.kept.filter fun x => (a.known x.1).isNone

/-- The world shows the requests that are kept: those of a loaded class are listed in it, the
others wait, and each has a profiler. -/
structure Keeping (w : World) (a : Requests) : Prop where
  files : w.classFile = a.known
  shows : Shows w.ledger (waiting a.kept) a.unknown a.kept.length

/-- What a class lists counts when the class is loaded. -/
theorem Shows.congr {L : Ledger} {I I' : CStr → List CStr} {Q : List (CStr × CStr)} {n : Nat}
    (h : Shows L I Q n) (hI : ∀ c, L.cls c ≠ none → I' c = I c) : Shows L I' Q n :=
  ⟨fun c ci hc => hI c (by simp [hc]) ▸ h.classes c ci hc, h.versions, h.queue, h.active,
    h.distinct, h.slots⟩

theorem keeping_init : Keeping ihCtxInit Deferral.init where
  files := funext fun c => congrArg (Option.map _) (Table.lookup_init (o := classTabOpts) c)
  shows := by
    have hnone : ∀ c, ihCtxInit.ledger.cls c = none := Table.lookup_init (o := classTabOpts)
    exact ⟨fun c ci hc => absurd ((hnone c).symm.trans hc) nofun, fun c hc => absurd (hnone c) hc,
      rfl, nofun, List.nodup_nil, rfl⟩

variable {a : Requests}

theorem Keeping.known_isSome (h : Keeping w a) (c : CStr) :
    (a.known c).isSome = true ↔ w.cls c ≠ none := by
  rw [← h.files]
  simp [World.classFile, Option.isSome_iff_ne_none]

theorem mem_waiting {Q : List (CStr × CStr)} {c s : CStr} : s ∈ waiting Q c ↔ (c, s) ∈ Q := by
  simp [waiting]

/-- The master table has the requests that are kept, applied where their class is loaded. -/
theorem Keeping.entry_iff (h : Keeping w a) (hC : Coherent w.ledger) {c s : CStr} {b : Bool} :
    (∃ id e, w.entry id = some e ∧ e.isMethodOf c s = true ∧ e.isApplied = b) ↔
      (c, s) ∈ a.kept ∧ (a.known c).isSome = b := by
  refine ⟨?_, ?_⟩
  · rintro ⟨id, e, he, hof, rfl⟩
    cases ha : e.isApplied with
    | true =>
      -- an applied entry has a record in its class, which shows the requests kept for it
      have hcls := hC.applied id e c s he (flying_none rfl id) hof ha
      obtain ⟨ci, hci⟩ := Option.ne_none_iff_exists'.mp hcls
      obtain ⟨m, hm, -⟩ := hC.find_of_applied rfl rfl he hof ha hci
      have hkey := InstrumentedMethod.key_hasSig.mp (List.find?_some hm)
      have hmem : m.key ∈ (waiting a.kept c).map some :=
        (h.shows.classes c ci hci).2.2 ▸ List.mem_map_of_mem (List.mem_of_find?_eq_some hm)
      rw [hkey, List.mem_map] at hmem
      obtain ⟨t, ht, hts⟩ := hmem
      exact ⟨mem_waiting.mp (Option.some.inj hts ▸ ht), (h.known_isSome c).mpr hcls⟩
    | false =>
      -- an entry that is not applied has a record in the queue
      have hone : waitingKey (c, s) ∈ (w.ledger.queue.filter (·.hasId id)).map (·.key) := by
        rw [hC.queue id, queueKeysOf_none rfl, show w.ledger.entry id = _ from he]
        exact waitingKey_mem.mpr ⟨hof, ha⟩
      have hmem : waitingKey (c, s) ∈ a.unknown.map waitingKey := by
        rw [← h.shows.queue]
        obtain ⟨q, hq, hk⟩ := List.mem_map.mp hone
        exact hk ▸ List.mem_map_of_mem (List.mem_filter.mp hq).1
      obtain ⟨⟨c', s'⟩, hx, hxk⟩ := List.mem_map.mp hmem
      obtain ⟨rfl, rfl⟩ : c' = c ∧ s' = s := by simpa [waitingKey] using hxk
      obtain ⟨hkept, hnone⟩ := List.mem_filter.mp hx
      exact ⟨hkept, by simpa using hnone⟩
  · rintro ⟨hkept, rfl⟩
    cases hk : a.known c with
    | some data =>
      have hcls := (h.known_isSome c).mp (by rw [hk]; rfl)
      obtain ⟨ci, hci⟩ := Option.ne_none_iff_exists'.mp hcls
      have hmem : some s ∈ ci.instrumented.map (·.key) :=
        (h.shows.classes c ci hci).2.2 ▸ List.mem_map_of_mem (mem_waiting.mpr hkept)
      obtain ⟨m, hm, hkey⟩ := List.mem_map.mp hmem
      obtain ⟨e, t, he, ht, ha, hof⟩ := hC.method_of_mem rfl hci hm (hC.entry_of_mem rfl rfl hci hm)
      rw [hkey, Option.some.injEq] at ht
      exact ⟨_, e, he, ht ▸ hof, ha⟩
    | none =>
      have hmem : waitingKey (c, s) ∈ w.ledger.queue.map (·.key) :=
        h.shows.queue ▸ List.mem_map_of_mem (List.mem_filter.mpr ⟨hkept, by simp [hk]⟩)
      obtain ⟨q, hq, hkey⟩ := List.mem_map.mp hmem
      obtain ⟨e, he, hq⟩ := hC.entry_of_queued rfl hq
      exact ⟨_, e, he, waitingKey_mem.mp (hkey ▸ hq)⟩

theorem Keeping.of_ledger (h : Keeping w a) (hw : w'.ledger = w.ledger) : Keeping w' a :=
  ⟨(classFile_of_cls (congrArg Ledger.cls hw)).trans h.files, hw ▸ h.shows⟩

/-! ## A request -/

/-- A name that fits a `struct pstring`. -/
def CStr.fits (s : CStr) : Prop := s.val.length ≤ pstrMax

instance (s : CStr) : Decidable s.fits := inferInstanceAs (Decidable (_ ≤ _))

theorem waiting_append (Q : List (CStr × CStr)) (c s : CStr) :
    waiting (Q ++ [(c, s)]) = Function.update (waiting Q) c (waiting Q c ++ [s]) := by
  funext c'
  rw [Function.update_apply]
  by_cases hc : c' = c
  · simp [waiting, hc]
  · simp [waiting, hc, Ne.symm hc]

/-- A request that is in no table is added, with its profiler. -/
theorem instrumentAdded_keeps (hH : env.Honest has) (hA : env.Ample) {c s : CStr} {id : Nat}
    {e : MiEntry} {st : InstrumentRespStatus} (h : instrumentAdded env c s id id w = (st, w'))
    (he : w.entry id = some e) (hof : e.isMethodOf c s = true) (hc : c.fits) (hs : s.fits)
    (hK : Keeping w a) (hok : ∀ x ∈ a.kept, Deferral.ok has a.known x = true)
    (hnew : (c, s) ∉ a.kept) : Keeping w' (Deferral.step has a (.ask c s)) := by
  obtain ⟨pid, w₁, r₁, h₁⟩ := bind_eq.mp h
  obtain ⟨rfl, hw₁⟩ := jniCreate_honest hH (createProfilerForMethod_run r₁ he)
  obtain ⟨hS₁, hact, hpid⟩ := hK.shows.created
    (s := ⟨true, id, .method e.entryClassName.cstr e.methodName.cstr⟩) rfl
  have hS₁' := hw₁.symm ▸ hS₁
  have hfile₁ : w₁.classFile = a.known := (classFile_of_cls (congrArg Ledger.cls hw₁)).trans hK.files
  have he₁ : w₁.entry id = some e := (congrFun (congrArg Ledger.entry hw₁) id).trans he
  rw [if_neg (by omega)] at h₁
  obtain ⟨info, w₅, r₆, h₅⟩ := bind_eq.mp h₁
  obtain ⟨rfl, rfl⟩ := read_eq.mp r₆
  have hq₁ : w₁.queuedInstruments = w.queuedInstruments := congrArg Ledger.queue hw₁
  have hact₁ : activeAt w₁.slots (registryCreateId w.slots) := by
    rw [show w₁.slots = _ from congrArg Ledger.slots hw₁]
    exact hact
  have hpid₁ : ∀ q ∈ w₁.queuedInstruments, q.profilerId ≠ registryCreateId w.slots := by
    rw [hq₁]
    exact hpid
  cases hci : w₁.cls c with
  | none =>
    simp only [hci] at h₅
    obtain ⟨st', w₆, r₇, h₆⟩ := bind_eq.mp h₅
    obtain ⟨_, w₇, r₈, h₇⟩ := bind_eq.mp h₆
    obtain ⟨rfl, rfl⟩ := pure_eq.mp h₇
    obtain ⟨rfl, c', s', rfl, rfl, hw₆⟩ := instrumentLater_ample hA r₇ hc hs
    cases r₈
    -- the class is not loaded: the request waits in both
    have hknown : a.known c'.cstr = none := by
      rw [← hfile₁, World.classFile, hci]
      rfl
    have hstep : Deferral.step has a (.ask c'.cstr s'.cstr) =
        { a with kept := a.kept ++ [(c'.cstr, s'.cstr)] } :=
      if_neg (by simp [hnew, Deferral.ok, hknown])
    rw [hstep]
    refine ⟨(classFile_of_cls (congrArg Ledger.cls hw₆)).trans hfile₁, ?_⟩
    have hunknown : Requests.unknown { a with kept := a.kept ++ [(c'.cstr, s'.cstr)] } =
        a.unknown ++ [(c'.cstr, s'.cstr)] := by
      simp [Requests.unknown, List.filter_append, hknown]
    rw [hunknown, hw₆, waiting_append, List.length_append]
    have hlater := hS₁'.enqueued (q := ⟨id, registryCreateId w.slots, some c', .method (some s')⟩)
      (x := (c'.cstr, s'.cstr)) rfl hact₁ hpid₁
    refine (hlater.congr fun c₀ hc₀ => ?_).of_eq rfl rfl rfl rfl
    refine Function.update_of_ne ?_ _ _
    rintro rfl
    exact hc₀ hci
  | some ci =>
    simp only [hci] at h₅
    have hfile : w₁.classFile c = some ci.bytecode := by rw [World.classFile, hci]; rfl
    have hknown : a.known c = some ci.bytecode := hfile₁ ▸ hfile
    -- the class is loaded: the request is kept if the class has the method
    have hall : ∀ t ∈ waiting a.kept c, has ci.bytecode t = true := by
      intro t ht
      simpa [Deferral.ok, hknown] using hok (c, t) (mem_waiting.mp ht)
    have hqueue : w'.queuedInstruments = w₁.queuedInstruments :=
      congrArg Prod.fst ((backlog_instrumentNow env c _ _).run h₅)
    obtain ⟨hfiles, ⟨hhave, -, hS⟩ | ⟨hlack, -, hS⟩⟩ := instrumentNow_shows hH hA h₅ he₁ hof hfile hS₁'
      hact₁ hpid₁ hall fun hmem => hnew (mem_waiting.mp hmem)
    · have hstep : Deferral.step has a (.ask c s) = { a with kept := a.kept ++ [(c, s)] } :=
        if_neg (by simp [hnew, Deferral.ok, hknown, hhave])
      have hunknown : Requests.unknown { a with kept := a.kept ++ [(c, s)] } = a.unknown := by
        simp [Requests.unknown, List.filter_append, hknown]
      rw [hstep]
      refine ⟨hfiles.trans hfile₁, ?_⟩
      rw [hunknown, waiting_append, List.length_append]
      exact hS.of_eq rfl rfl hqueue rfl
    · have hstep : Deferral.step has a (.ask c s) = a :=
        if_pos (.inr (by simp [Deferral.ok, hknown, hlack]))
      rw [hstep]
      exact ⟨hfiles.trans hfile₁, hS.of_eq rfl rfl hqueue rfl⟩

/-- A request does what the abstract one does, or nothing when a name is too long. -/
theorem ihInstrumentMethod_keeps (hH : env.Honest has) (hA : env.Ample) {c s : CStr}
    {r : InstrumentRespStatus × Nat} (h : ihInstrumentMethod env c s w = (r, w'))
    (hC : Coherent w.ledger) (hK : Keeping w a)
    (hok : ∀ x ∈ a.kept, Deferral.ok has a.known x = true) :
    Keeping w' (if c.fits ∧ s.fits then Deferral.step has a (.ask c s) else a) := by
  obtain ⟨added, w₁, r₁, h₁⟩ := bind_eq.mp h
  obtain ⟨found, w₂, r₂, h₂⟩ := bind_eq.mp r₁
  obtain ⟨rfl, rfl⟩ := read_eq.mp r₂
  rcases miFindMethodByName_cases w.masterInstruments c s with ⟨id, e, hf, he, hof⟩ | ⟨hf, hnone⟩
  · -- the method is instrumented already
    rw [hf] at h₂
    cases h₂
    cases h₁
    have hkept : (c, s) ∈ a.kept := (hK.entry_iff hC).mp ⟨id, e, he, hof, rfl⟩ |>.1
    have hstep : Deferral.step has a (.ask c s) = a := if_pos (.inl hkept)
    rw [hstep, ite_self]
    exact hK
  · rw [hf] at h₂
    obtain ⟨miv, w₃, r₃, h₃⟩ := bind_eq.mp h₂
    obtain ⟨rfl, rfl⟩ := pure_eq.mp h₃
    have hnew : (c, s) ∉ a.kept := by
      intro hkept
      obtain ⟨id, e, he, hof, -⟩ := (hK.entry_iff hC).mpr ⟨hkept, rfl⟩
      simp [hnone id e he] at hof
    by_cases hfit : c.fits ∧ s.fits
    · rw [if_pos hfit]
      obtain ⟨c', s', rfl, rfl, rfl, hw₃⟩ := miAddMethod_ample hA r₃ hfit.1 hfit.2
      have hpos : w.masterInstruments.nextId ≠ 0 := w.masterInstruments.nextId_pos.ne'
      simp only [hpos, ↓reduceIte] at h₁
      obtain ⟨st, w₄, r₄, h₄⟩ := bind_eq.mp h₁
      obtain ⟨rfl, rfl⟩ := pure_eq.mp h₄
      have he₃ : w₃.entry w.masterInstruments.nextId = some ⟨c', .method s' true⟩ :=
        entry_of_insert hw₃
      have hK₃ : Keeping w₃ a := ⟨(classFile_of_cls (congrArg Ledger.cls hw₃)).trans hK.files,
        hw₃ ▸ hK.shows.of_eq rfl rfl rfl rfl⟩
      exact instrumentAdded_keeps hH hA r₄ he₃ (by simp [MiEntry.isMethodOf]) hfit.1 hfit.2 hK₃ hok hnew
    · rw [if_neg hfit]
      obtain ⟨rfl, hw₃⟩ := miAddMethod_long r₃ hfit
      cases h₁
      exact hK.of_ledger hw₃

/-! ## A load -/

/-- The requests after the class file of `c` is known. -/
abbrev Requests.revealed (has : List UInt8 → CStr → Bool) (a : Requests) (c : CStr)
    (data : List UInt8) : Requests :=
  Deferral.step has a (.reveal c data)

theorem ok_update {known : CStr → Option (List UInt8)} {c : CStr} {data : List UInt8}
    (x : CStr × CStr) : Deferral.ok has (Function.update known c (some data)) x =
      if x.1 = c then has data x.2 else Deferral.ok has known x := by
  unfold Deferral.ok
  rw [Function.update_apply]
  split <;> rfl

theorem waiting_nodup {Q : List (CStr × CStr)} (h : Q.Nodup) (c : CStr) : (waiting Q c).Nodup := by
  refine (h.filter _).map_on fun x hx y hy hxy => Prod.ext ?_ hxy
  have hx := (List.mem_filter.mp hx).2
  have hy := (List.mem_filter.mp hy).2
  simp only [decide_eq_true_eq] at hx hy
  rw [hx, hy]

theorem waiting_filter (Q : List (CStr × CStr)) (p : CStr × CStr → Bool) (c : CStr) :
    waiting (Q.filter p) c = (waiting Q c).filter fun s => p (c, s) := by
  rw [waiting, waiting, List.filter_map, List.filter_filter, List.filter_filter]
  refine congrArg _ (List.filter_congr fun x _ => ?_)
  obtain ⟨c', s⟩ := x
  by_cases hc : c' = c
  · simp [hc]
  · simp [hc]

section

variable {c : CStr} {data : List UInt8} (hok : ∀ x ∈ a.kept, Deferral.ok has a.known x = true)

theorem waiting_unknown (hfresh : a.known c = none) : waiting a.unknown c = waiting a.kept c := by
  rw [Requests.unknown, waiting_filter, List.filter_eq_self]
  simp [hfresh]

include hok

/-- What is kept of a class when its class file is known. -/
theorem waiting_revealed (c' : CStr) : waiting (a.revealed has c data).kept c' =
    if c' = c then (waiting a.kept c).filter (has data ·) else waiting a.kept c' := by
  rw [show (a.revealed has c data).kept = a.kept.filter _ from rfl, waiting_filter]
  split
  · next hc =>
    subst hc
    exact List.filter_congr fun s _ => (ok_update _).trans (if_pos rfl)
  · next hc =>
    refine List.filter_eq_self.mpr fun s hs => ?_
    rw [ok_update, if_neg hc]
    exact hok _ (mem_waiting.mp hs)

theorem unknown_revealed :
    (a.revealed has c data).unknown = a.unknown.filter fun x => decide (x.1 ≠ c) := by
  show ((a.kept.filter _).filter fun x => (Function.update a.known c (some data) x.1).isNone) = _
  rw [Requests.unknown, List.filter_filter, List.filter_filter]
  refine List.filter_congr fun x hx => ?_
  rw [ok_update, Function.update_apply]
  by_cases hc : x.1 = c
  · simp [hc]
  · simp [hc, hok x hx]

theorem length_revealed : a.kept.length =
    (a.revealed has c data).kept.length + ((waiting a.kept c).filter (!has data ·)).length := by
  have hrefused : ((waiting a.kept c).filter (!has data ·)).length =
      (a.kept.filter fun x => !Deferral.ok has (Function.update a.known c (some data)) x).length := by
    rw [waiting, List.filter_map, List.length_map, List.filter_filter]
    refine congrArg _ (List.filter_congr fun x hx => ?_)
    rw [ok_update]
    by_cases hc : x.1 = c
    · simp [hc]
    · simp [hc, hok x hx]
  rw [hrefused]
  exact List.length_eq_length_filter_add _

end

/-- The first load of a class does what the abstract one does, or nothing when its name is
too long. -/
theorem handleClassLoaded_keeps (hH : env.Honest has) (hA : env.Ample) {c : CStr} {data : List UInt8}
    {loader : Option Nat} {u : Unit} (h : handleClassLoaded env c data loader w = (u, w'))
    (hI : anyRun.Inv w.ledger) (hK : Keeping w a)
    (hok : ∀ x ∈ a.kept, Deferral.ok has a.known x = true) (hnodup : a.kept.Nodup)
    (hfresh : a.known c = none) : Keeping w' (if c.fits then a.revealed has c data else a) := by
  obtain ⟨_, w₁, r₁, h₁⟩ := bind_eq.mp h
  have hw₁ := update_eq.mp r₁
  obtain ⟨r, w₂, r₂, h₂⟩ := bind_eq.mp h₁
  obtain ⟨hw₂, hnew⟩ := allocClassInfo_run r₂
  rw [← hw₁] at r₂ hw₂
  by_cases hfit : c.fits
  · rw [if_pos hfit]
    obtain ⟨ci, rfl, rfl⟩ := allocClassInfo_ample hA r₂ hfit
    obtain ⟨rfl, hlo, hm, hl⟩ := hnew ci rfl
    obtain ⟨added, w₃, r₃, h₃⟩ := bind_eq.mp h₂
    have hcls₂ : w₂.cls = w.cls := congrArg Ledger.cls hw₂
    have hnone : w₂.cls ci.name.cstr = none := by
      have hfile : w.classFile ci.name.cstr = none := (congrFun hK.files _).trans hfresh
      rw [hcls₂]
      exact Option.map_eq_none_iff.mp hfile
    obtain rfl := addClass_ample hA r₃ hnone
    obtain ⟨_, w₄, r₄, h₄⟩ := bind_eq.mp h₃
    cases r₄
    obtain ⟨queue, w₅, r₅, h₅⟩ := bind_eq.mp h₄
    obtain ⟨rfl, rfl⟩ := read_eq.mp r₅
    have hversions : w₂.versions = defineVersion w.versions ci.name.cstr loader :=
      congrArg Ledger.versions hw₂
    obtain ⟨hload, hq₃, hv₃, hcls₃, hs₃⟩ := addClass_leads (V := anyRun) r₃ (by simp) ⟨hm, hl⟩
      ⟨⟨ci.name.cstr, loader, []⟩, hversions ▸ List.mem_append_right _ (List.mem_singleton_self _), rfl,
        hlo.symm, rfl⟩ False.elim
    have hself : loadedClass w₂.ledger ci = ci := by
      rw [loadedClass, show w₂.ledger.cls ci.name.cstr = none from hnone]
    rw [hself] at hcls₃
    have hfile₃ : w₃.classFile = Function.update a.known ci.name.cstr (some ci.bytecode) := by
      funext c
      rw [World.classFile, show w₃.cls = _ from hcls₃, show w₂.ledger.cls = _ from hcls₂, ← hK.files]
      simp only [Function.update_apply]
      split <;> rfl
    have hver : ∃ v ∈ w₂.versions, v.name = ci.name.cstr :=
      ⟨⟨ci.name.cstr, loader, []⟩, hversions ▸ List.mem_append_right _ (List.mem_singleton_self _), rfl⟩
    have hS₂ : Shows w₂.ledger (waiting a.kept) a.unknown a.kept.length := by
      rw [hw₂]
      exact hK.shows.defined ci.name.cstr loader
    have hS₃ := (hS₂.loaded hm hl hver).of_eq hcls₃ hv₃ hq₃ hs₃
    have hI₃ := (hI.leads (defineClass_leads r₂)).leads hload
    -- the loop applies what waits for the class and the class has
    obtain ⟨m, hlen, hfile', hS'⟩ := deferredLoop_shows hH hA h₅ (Nat.le_refl _) hI₃
      ((congrFun hfile₃ _).trans (Function.update_self ..)) hS₃
      (by rw [Function.update_self]; simp)
      (by rw [Function.update_self, waiting_unknown hfresh]; exact waiting_nodup hnodup _)
    refine ⟨hfile'.trans hfile₃, ?_⟩
    rw [waiting_unknown hfresh, Function.update_self, List.nil_append, Function.update_idem] at hS'
    rw [waiting_unknown hfresh, length_revealed hok] at hlen
    rw [unknown_revealed hok, Nat.add_right_cancel hlen]
    refine hS'.congr fun c _ => ?_
    rw [waiting_revealed hok, Function.update_apply]
  · rw [if_neg hfit]
    cases r with
    | some ci =>
      obtain ⟨rfl, -⟩ := hnew ci rfl
      -- a name that does not fit makes no class info
      exact absurd ci.name.cstr_length hfit
    | none =>
      cases h₂
      refine ⟨(classFile_of_cls (congrArg Ledger.cls hw₂)).trans hK.files, ?_⟩
      rw [hw₂]
      exact hK.shows.defined c loader

/-! ## A run -/

/-- The class and the signature that the event asks for. -/
def Event.request : Event → Option (CStr × CStr)
  | .instrumentMethod c s => some (c, s)
  | _ => none

/-- The class that the event loads, with its class file. -/
def Event.load : Event → Option (CStr × List UInt8)
  | .classLoaded c data _ => some (c, data)
  | _ => none

/-- The event asks for a method, or loads a class. -/
def Event.isAskOrLoad (ev : Event) : Bool := ev.request.isSome || ev.load.isSome

/-- The abstract event, if the names fit. -/
def Event.op : Event → Option (Deferral.Op CStr CStr (List UInt8))
  | .instrumentMethod c s => if c.fits ∧ s.fits then some (.ask c s) else none
  | .classLoaded c data _ => if c.fits then some (.reveal c data) else none
  | _ => none

theorem asked_ops (evs : List Event) : Deferral.asked (evs.filterMap Event.op) =
    (evs.filterMap Event.request).filter fun x => decide (x.1.fits ∧ x.2.fits) := by
  rw [Deferral.asked, List.filterMap_filterMap, List.filter_filterMap]
  refine congrArg (List.filterMap · evs) (funext fun ev => ?_)
  cases ev with
  | instrumentMethod c s =>
    simp only [Event.op, Event.request, Option.filter_some, decide_eq_true_eq]
    split <;> rfl
  | classLoaded c data loader =>
    simp only [Event.op, Event.request]
    split <;> rfl
  | instrumentLine | deinstrumentMethod | deinstrumentById | listInstruments | addVarBind => rfl

theorem revealed_ops (evs : List Event) : Deferral.revealed (evs.filterMap Event.op) =
    (evs.filterMap Event.load).filter fun x => decide x.1.fits := by
  rw [Deferral.revealed, List.filterMap_filterMap, List.filter_filterMap]
  refine congrArg (List.filterMap · evs) (funext fun ev => ?_)
  cases ev with
  | instrumentMethod c s =>
    simp only [Event.op, Event.load]
    split <;> rfl
  | classLoaded c data loader =>
    simp only [Event.op, Event.load, Option.filter_some, decide_eq_true_eq]
    split <;> rfl
  | instrumentLine | deinstrumentMethod | deinstrumentById | listInstruments | addVarBind => rfl

theorem revealed_ops_nodup {evs : List Event} (h : ((evs.filterMap Event.load).map Prod.fst).Nodup) :
    ((Deferral.revealed (evs.filterMap Event.op)).map Prod.fst).Nodup := by
  rw [revealed_ops]
  exact h.sublist (List.filter_sublist.map _)

/-- A run of requests and loads keeps what the abstract run keeps. -/
theorem keeping_serve (hH : env.Honest has) (hA : env.Ample) {evs : List Event}
    (hkind : ∀ ev ∈ evs, ev.isAskOrLoad = true)
    (hone : ((evs.filterMap Event.load).map Prod.fst).Nodup) :
    Keeping (serve env evs) (Deferral.run has (evs.filterMap Event.op)) := by
  induction evs using List.reverseRecOn with
  | nil => exact keeping_init
  | append_singleton evs ev ih =>
    have hone' := hone
    rw [List.filterMap_append, List.map_append] at hone
    have hone₁ := (List.nodup_append.mp hone).1
    have hops := revealed_ops_nodup hone₁
    have hK := ih (fun ev hev => hkind ev (List.mem_append_left _ hev)) hone₁
    have hI := serve_inv env evs
    have hok : ∀ x ∈ (Deferral.run has (evs.filterMap Event.op)).kept,
        Deferral.ok has (Deferral.run has (evs.filterMap Event.op)).known x = true :=
      fun x => Deferral.run_kept_ok hops
    rw [serve_append, List.filterMap_append]
    have hev := hkind ev (by simp)
    cases ev with
    | instrumentMethod c s =>
      obtain ⟨r, w₁, r₁, r₂⟩ := bind_eq.mp (show handle env (.instrumentMethod c s) (serve env evs) =
        (_, step env (serve env evs) (.instrumentMethod c s)) from rfl)
      obtain ⟨-, rfl⟩ := pure_eq.mp r₂
      have hstep := ihInstrumentMethod_keeps hH hA r₁ hI.coherent hK hok
      by_cases hfit : c.fits ∧ s.fits
      · rw [if_pos hfit] at hstep
        simpa [Event.op, hfit, Deferral.run_append] using hstep
      · rw [if_neg hfit] at hstep
        simpa [Event.op, hfit] using hstep
    | classLoaded c data loader =>
      obtain ⟨u, w₁, r₁, r₂⟩ := bind_eq.mp (show handle env (.classLoaded c data loader)
        (serve env evs) = (_, step env (serve env evs) (.classLoaded c data loader)) from rfl)
      obtain ⟨-, rfl⟩ := pure_eq.mp r₂
      have hfresh : (Deferral.run has (evs.filterMap Event.op)).known c = none := by
        -- a class that is known was loaded before, and each is loaded once
        by_contra hne
        obtain ⟨d, hd⟩ := Option.ne_none_iff_exists'.mp hne
        have hmem := (Deferral.run_known hops c d).mp hd
        rw [revealed_ops] at hmem
        exact (List.nodup_append.mp hone).2.2 c
          (List.mem_map_of_mem (List.mem_filter.mp hmem).1) c (by simp [Event.load]) rfl
      have hstep := handleClassLoaded_keeps hH hA r₁ hI hK hok (Deferral.run_kept_nodup hops) hfresh
      by_cases hfit : c.fits
      · rw [if_pos hfit] at hstep
        simpa [Event.op, hfit, Deferral.run_append] using hstep
      · rw [if_neg hfit] at hstep
        simpa [Event.op, hfit] using hstep
    | instrumentLine | deinstrumentMethod | deinstrumentById | listInstruments | addVarBind => cases hev

/-! ## Two interleavings -/

/-- The instruments of a state by class and signature, and whether each is deferred. -/
def World.methods (w : World) : Set (CStr × CStr × Bool) :=
  {x | ∃ id c n d, w.entry id = some ⟨c, .method n d⟩ ∧ x = (c.cstr, n.cstr, d)}

/-- The signatures that a class lists, in order. -/
def World.listed (w : World) (c : CStr) : Option (List (Option CStr)) :=
  (w.cls c).map fun ci => ci.instrumented.map (·.key)

/-- The states end with the same instruments, up to their ids. -/
structure SameInstruments (w w' : World) : Prop where
  methods : w.methods = w'.methods
  listed : ∀ c, w.listed c = w'.listed c
  slots : activeSlots w.slots = activeSlots w'.slots

theorem Keeping.mem_methods (hK : Keeping w a) (hC : Coherent w.ledger) {c s : CStr} {d : Bool} :
    (c, s, d) ∈ w.methods ↔ (c, s) ∈ a.kept ∧ (a.known c).isSome = !d := by
  rw [← hK.entry_iff hC]
  refine ⟨?_, ?_⟩
  · rintro ⟨id, c', n, d', he, heq⟩
    obtain ⟨rfl, rfl, rfl⟩ : c = c'.cstr ∧ s = n.cstr ∧ d = d' := by simpa using heq
    exact ⟨id, _, he, by simp [MiEntry.isMethodOf], rfl⟩
  · rintro ⟨id, e, he, hof, ha⟩
    obtain ⟨hc, n, d', hb, hs⟩ := MiEntry.isMethodOf_iff.mp hof
    obtain ⟨c', b⟩ := e
    subst hb hc hs
    have hd : d' = d := by simpa [MiEntry.isApplied] using ha
    exact ⟨id, c', n, d', he, by rw [hd]⟩

/-- What is kept decides the instruments. -/
theorem Keeping.same (hK : Keeping w a) (hK' : Keeping w' a) (hC : Coherent w.ledger)
    (hC' : Coherent w'.ledger) : SameInstruments w w' where
  methods := by
    ext ⟨c, s, d⟩
    rw [hK.mem_methods hC, hK'.mem_methods hC']
  listed c := by
    have hfile : (w.cls c).map (·.bytecode) = (w'.cls c).map (·.bytecode) :=
      congrFun (hK.files.trans hK'.files.symm) c
    unfold World.listed
    cases hc : w.cls c with
    | none =>
      rw [hc] at hfile
      rw [Option.map_eq_none_iff.mp hfile.symm]
    | some ci =>
      rw [hc] at hfile
      obtain ⟨ci', hci', -⟩ := Option.map_eq_some_iff.mp hfile.symm
      rw [hci', Option.map_some, Option.map_some, (hK.shows.classes c ci hc).2.2,
        (hK'.shows.classes c ci' hci').2.2]
  slots := hK.shows.slots.trans hK'.shows.slots.symm

/-- Two interleavings of the same requests with the same loads, one of each class, end with
the same instruments, when memory suffices, profilers can be created and removed, and a class
takes the methods that it has. -/
theorem interleavings_agree {env₁ env₂ : Env} {has : List UInt8 → CStr → Bool}
    (hH₁ : env₁.Honest has) (hH₂ : env₂.Honest has) (hA₁ : env₁.Ample) (hA₂ : env₂.Ample)
    {evs₁ evs₂ : List Event} (hkind₁ : ∀ ev ∈ evs₁, ev.isAskOrLoad = true)
    (hkind₂ : ∀ ev ∈ evs₂, ev.isAskOrLoad = true)
    (hreqs : evs₁.filterMap Event.request = evs₂.filterMap Event.request)
    (hloads : (evs₁.filterMap Event.load).Perm (evs₂.filterMap Event.load))
    (hone : ((evs₁.filterMap Event.load).map Prod.fst).Nodup) :
    SameInstruments (serve env₁ evs₁) (serve env₂ evs₂) := by
  have hone₂ : ((evs₂.filterMap Event.load).map Prod.fst).Nodup :=
    (hloads.map Prod.fst).nodup_iff.mp hone
  have hrun : Deferral.run has (evs₁.filterMap Event.op) =
      Deferral.run has (evs₂.filterMap Event.op) := by
    refine Deferral.run_congr ?_ ?_ (revealed_ops_nodup hone)
    · rw [asked_ops, asked_ops, hreqs]
    · rw [revealed_ops, revealed_ops]
      exact hloads.filter _
  exact (keeping_serve hH₁ hA₁ hkind₁ hone).same (hrun ▸ keeping_serve hH₂ hA₂ hkind₂ hone₂)
    (serve_inv env₁ evs₁).coherent (serve_inv env₂ evs₂).coherent

/-- The class `A` has the method `B` only. The requests for it and for a method that it does
not have are made before and after the load. -/
theorem interleavings_agree_missing :
    SameInstruments
      (serve (.installing fun _ s => decide (s = classB.cstr))
        [.instrumentMethod classA.cstr classB.cstr, .instrumentMethod classA.cstr classA.cstr,
          .instrumentMethod classA.cstr classB.cstr, .classLoaded classA.cstr [] none])
      (serve (.installing fun _ s => decide (s = classB.cstr))
        [.classLoaded classA.cstr [] none, .instrumentMethod classA.cstr classB.cstr,
          .instrumentMethod classA.cstr classA.cstr, .instrumentMethod classA.cstr classB.cstr]) :=
  interleavings_agree (installing_honest _) (installing_honest _) (installing_ample _)
    (installing_ample _) (by simp [Event.isAskOrLoad, Event.request, Event.load])
    (by simp [Event.isAskOrLoad, Event.request, Event.load]) rfl (.refl _) (List.nodup_singleton _)

/-- Any two interleavings of the same requests with the same loads, one of each class, end
with the same instruments. -/
def Confluent (env : Env) : Prop :=
  ∀ evs₁ evs₂ : List Event, (∀ ev ∈ evs₁, ev.isAskOrLoad = true) →
    (∀ ev ∈ evs₂, ev.isAskOrLoad = true) →
    evs₁.filterMap Event.request = evs₂.filterMap Event.request →
    (evs₁.filterMap Event.load).Perm (evs₂.filterMap Event.load) →
    ((evs₁.filterMap Event.load).map Prod.fst).Nodup →
    SameInstruments (serve env evs₁) (serve env evs₂)

/-- The registry does not let go of a profiler. -/
def Env.clinging : Env :=
  { Env.installing fun _ _ => false with
    jvm := fun n c => match c with
      | .removeProfiler _ => false
      | _ => (Env.installing fun _ _ => false).jvm n c }

/-- The first allocation fails. -/
def Env.starved : Env := { Env.installing fun _ _ => true with alloc := fun n => decide (n ≠ 0) }

/-- A registry that keeps the profilers of refused instruments has one for each refusal, and
the second request for a method is refused once or twice. Where an allocation fails, it
depends on the order what goes missing. -/
theorem interleavings_disagree :
    (¬ ∀ env has, env.Honest has → (∀ n, env.alloc n = true) → (∀ n, env.tabAlloc n = true) →
        Confluent env) ∧
      ¬ ∀ env has, env.Honest has → RemoveOk env → Confluent env := by
  refine ⟨fun h => ?_, fun h => ?_⟩
  · have hH : Env.clinging.Honest fun _ _ => false :=
      ⟨fun _ _ => rfl, fun n ci _ _ => Bool.and_true _⟩
    have hsame := h _ _ hH (fun _ => rfl) (fun _ => rfl)
      [.instrumentMethod classA.cstr classB.cstr, .instrumentMethod classA.cstr classB.cstr,
        .classLoaded classA.cstr [] none]
      [.classLoaded classA.cstr [] none, .instrumentMethod classA.cstr classB.cstr,
        .instrumentMethod classA.cstr classB.cstr]
      (by simp [Event.isAskOrLoad, Event.request, Event.load])
      (by simp [Event.isAskOrLoad, Event.request, Event.load]) rfl (.refl _) (List.nodup_singleton _)
    have hone : (1 : Nat) = 2 := hsame.slots
    cases hone
  · have hH : Env.starved.Honest fun _ _ => true :=
      ⟨fun _ _ => rfl, fun n ci _ _ => Bool.and_true _⟩
    have hsame := h _ _ hH (fun _ _ => rfl)
      [.instrumentMethod classA.cstr classB.cstr, .classLoaded classA.cstr [] none]
      [.classLoaded classA.cstr [] none, .instrumentMethod classA.cstr classB.cstr]
      (by simp [Event.isAskOrLoad, Event.request, Event.load])
      (by simp [Event.isAskOrLoad, Event.request, Event.load]) rfl (.refl _) (List.nodup_singleton _)
    have hlisted : some [] = none := hsame.listed classA.cstr
    cases hlisted

end JautoProf
