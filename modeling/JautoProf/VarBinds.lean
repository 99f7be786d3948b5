import JautoProf.BlindHandlers
import JautoProf.InstrumentIds
import JautoProf.StoresAgree
import Mathlib.Data.List.Nodup

/-!
# Variable bindings are invisible to users

A run goes on from a state with variable bindings in the master table, and from the same
state without them. Every request is answered alike in both, and the bindings stay.

Results:
1. `Alike.step`: one request.
2. `var_binds_invisible`: every sequence of requests.
-/

namespace JautoProf

open Prog Ledger Act Vouch

/-- The event adds a variable binding; users cannot ask for one. -/
def Event.isVarBind : Event → Bool
  | .addVarBind .. => true
  | _ => false

/-- The master table without its variable bindings. -/
def miDropVarBinds (mi : MasterInstruments) : MasterInstruments :=
  (mi.tab.entries.filter fun kv => !kv.2.isUserVisible).foldl (fun mi kv => miRemove mi kv.1) mi

def World.dropVarBinds (w : World) : World :=
  { w with masterInstruments := miDropVarBinds w.masterInstruments }

/-- The variable bindings of the master table. -/
def World.varBinds (w : World) (id : Nat) : Option MiEntry :=
  (w.entry id).filter fun e => !e.isUserVisible

/-- The two answers tell a user the same; a list of instruments may be in another order. -/
def Reply.Same : Reply → Reply → Prop
  | .instruments l, .instruments l' => l.Perm l'
  | r, r' => r = r'

variable {hid : Nat → Option MiEntry} {env : Env}

/-! ## The state without the bindings -/

theorem miDropVarBinds_nextId (mi : MasterInstruments) : (miDropVarBinds mi).nextId = mi.nextId := by
  unfold miDropVarBinds
  generalize mi.tab.entries.filter _ = l
  induction l generalizing mi with
  | nil => rfl
  | cons kv l ih => exact ih (miRemove mi kv.1)

theorem find_foldl_miRemove (l : List (Nat × MiEntry)) (mi : MasterInstruments) (id : Nat) :
    miFind (l.foldl (fun mi kv => miRemove mi kv.1) mi) id =
      if id ∈ l.map Prod.fst then none else miFind mi id := by
  induction l generalizing mi with
  | nil => simp
  | cons kv l ih =>
    rw [List.foldl_cons, ih, find_miRemove, List.map_cons]
    by_cases hl : id ∈ l.map Prod.fst
    · rw [if_pos hl, if_pos (List.mem_cons_of_mem _ hl)]
    · by_cases hk : id = kv.1
      · simp [hk]
      · simp [hl, hk]

theorem dropVarBinds_entry (w : World) (id : Nat) :
    w.dropVarBinds.entry id = if w.varBinds id = none then w.entry id else none := by
  have hmem : id ∈ (w.masterInstruments.tab.entries.filter fun kv => !kv.2.isUserVisible).map Prod.fst ↔
      w.varBinds id ≠ none := by
    rw [Option.ne_none_iff_exists', List.mem_map]
    constructor
    · rintro ⟨⟨id, e⟩, he, rfl⟩
      obtain ⟨hmem, hvis⟩ := List.mem_filter.mp he
      exact ⟨e, Option.filter_eq_some_iff.mpr ⟨mem_entries_iff.mp hmem, hvis⟩⟩
    · rintro ⟨e, he⟩
      obtain ⟨hent, hvis⟩ := Option.filter_eq_some_iff.mp he
      exact ⟨(id, e), List.mem_filter.mpr ⟨mem_entries_iff.mpr hent, hvis⟩, rfl⟩
  refine (find_foldl_miRemove _ _ id).trans ?_
  by_cases h : w.varBinds id = none
  · rw [if_pos h, if_neg (fun hm => hmem.mp hm h)]
    rfl
  · rw [if_neg h, if_pos (hmem.mpr h)]

theorem varBinds_of_visible {w : World} {id : Nat}
    (h : ∀ e, w.entry id = some e → e.isUserVisible = true) : w.varBinds id = none := by
  rw [World.varBinds, Option.filter_eq_none_iff]
  intro e he
  simp [h e he]

/-- No record belongs to a variable binding. -/
theorem Coherent.alike_dropVarBinds {w : World} (h : Coherent w.ledger) :
    Alike w.varBinds w w.dropVarBinds where
  rest := rfl
  nextId := miDropVarBinds_nextId _
  hidden id e he := by
    refine ⟨(Option.filter_eq_some_iff.mp he).1, ?_⟩
    rw [dropVarBinds_entry, if_neg (he ▸ nofun)]
  entry id he := by rw [dropVarBinds_entry, if_pos he]
  queue q hq := by
    refine varBinds_of_visible fun e he => ?_
    obtain ⟨e', he', hmem⟩ := h.entry_of_queued rfl hq
    obtain rfl : e' = e := Option.some.inj (he'.symm.trans he)
    obtain ⟨c, b⟩ := e'
    cases b with
    | method | line => rfl
    | varBind => cases hmem
  records c ci hci := by
    refine ⟨fun m hm => varBinds_of_visible fun e he => ?_,
      fun r hr => varBinds_of_visible fun e he => ?_⟩
    · have hkeys := h.methodKeys_eq hci m.instrumentId
      have hmem : m.key ∈ appliedKeys c (w.entry m.instrumentId) :=
        hkeys ▸ List.mem_map_of_mem (List.mem_filter.mpr ⟨hm, by simp [InstrumentedMethod.hasId]⟩)
      rw [he, appliedKeys_some] at hmem
      obtain ⟨c, b⟩ := e
      cases b with
      | method | line => rfl
      | varBind => simp [MiEntry.isApplied] at hmem
    · have hmem := ((h.lines c ci hci r hr).2 e he).1
      obtain ⟨c, b⟩ := e
      cases b with
      | method | line => rfl
      | varBind => cases hmem

/-! ## What a user can see -/

theorem Reply.Same.of_eq {r r' : Reply} (h : r = r') : r.Same r' := by
  subst h
  cases r with
  | instruments l => exact List.Perm.refl l
  | none | instrument | deinstrument => rfl

theorem MiEntry.isUserVisible_of_isMethodOf {e : MiEntry} {c m : CStr}
    (h : e.isMethodOf c m = true) : e.isUserVisible = true := by
  obtain ⟨-, n, d, hb, -⟩ := MiEntry.isMethodOf_iff.mp h
  rw [isUserVisible, hb]

section

variable {s t : World} (hR : Alike hid s t)
  (hinv : ∀ id e, hid id = some e → e.isUserVisible = false)

include hR hinv

/-- An entry that users see is in both tables or in neither. -/
theorem Alike.visible {id : Nat} {e : MiEntry} (he : e.isUserVisible = true) :
    t.entry id = some e ↔ s.entry id = some e := by
  cases hh : hid id with
  | none => rw [hR.entry id hh]
  | some e' =>
    obtain ⟨hs, ht⟩ := hR.hidden id e' hh
    rw [hs, ht]
    refine ⟨nofun, fun heq => ?_⟩
    rw [← Option.some_inj.mp heq, hinv id e' hh] at he
    cases he

/-- The search by name finds the same, since no two instruments have one class and name. -/
theorem Alike.miFindMethodByName (hC : Coherent s.ledger) (c m : CStr) :
    miFindMethodByName t.masterInstruments c m = miFindMethodByName s.masterInstruments c m := by
  have hvis : ∀ {e : MiEntry}, e.isMethodOf c m = true → e.isUserVisible = true :=
    MiEntry.isUserVisible_of_isMethodOf
  rcases miFindMethodByName_cases s.masterInstruments c m with ⟨id, e, hs, he, hof⟩ | ⟨hs, hnone⟩
  · rcases miFindMethodByName_cases t.masterInstruments c m with ⟨id', e', ht, he', hof'⟩ | ⟨ht, hnone⟩
    · have he' : s.entry id' = some e' := (hR.visible hinv (hvis hof')).mp he'
      rw [hs, ht, hC.unique id' id e' e c m he' he hof' hof]
    · have he : t.entry id = some e := (hR.visible hinv (hvis hof)).mpr he
      exact absurd ((hnone id e he).symm.trans hof) nofun
  · rcases miFindMethodByName_cases t.masterInstruments c m with ⟨id', e', ht, he', hof'⟩ | ⟨ht, -⟩
    · have he' : s.entry id' = some e' := (hR.visible hinv (hvis hof')).mp he'
      exact absurd ((hnone id' e' he').symm.trans hof') nofun
    · rw [hs, ht]

theorem Alike.listInstruments :
    (listInstruments s.masterInstruments).Perm (listInstruments t.masterInstruments) := by
  have hnodup : ∀ mi : MasterInstruments, (JautoProf.listInstruments mi).Nodup := fun mi =>
    (List.Nodup.of_map _ mi.tab.entries_nodup).filter _
  refine (List.perm_ext_iff_of_nodup (hnodup _) (hnodup _)).mpr fun ⟨id, e⟩ => ?_
  rw [JautoProf.listInstruments, JautoProf.listInstruments, List.mem_filter, List.mem_filter,
    mem_entries_iff, mem_entries_iff]
  exact and_congr_left fun he => (hR.visible hinv he).symm

end

/-! ## One request -/

section

variable (env)

/-- `ih_instrument_method` from where no such instrument is found. -/
def requestMethod (c m : CStr) : M (InstrumentRespStatus × Nat) := do
  let miv ← miAddMethod env c m
  let status := if miv.id = 0 then InstrumentRespStatus.error else .ok
  if status = .ok then
    let status ← instrumentAdded env c m (miv.entry.getD 0) miv.id
    pure (status, miv.id)
  else pure (status, miv.id)

theorem ihInstrumentMethod_found {c m : CStr} {w : World} {id : Nat}
    (h : miFindMethodByName w.masterInstruments c m = ⟨id, some id⟩) :
    ihInstrumentMethod env c m w = ((.doubleInstrument, id), w) :=
  bind_eq.mpr ⟨(.doubleInstrument, ⟨id, some id⟩), w,
    bind_eq.mpr ⟨_, w, read_eq.mpr ⟨h, rfl⟩, rfl⟩, rfl⟩

theorem ihInstrumentMethod_new {c m : CStr} {w : World}
    (h : miFindMethodByName w.masterInstruments c m = ⟨0, none⟩) :
    ihInstrumentMethod env c m w = requestMethod env c m w := by
  have hadd : addMasterMethod env c m w = (do
      let miv ← miAddMethod env c m
      pure (if miv.id = 0 then InstrumentRespStatus.error else .ok, miv)) w := by
    rw [addMasterMethod, read_bind, h]
  exact bind_congr_left hadd _

theorem ihDeinstrumentMethod_found {c m : CStr} {w : World} {id : Nat}
    (h : miFindMethodByName w.masterInstruments c m = ⟨id, some id⟩) :
    ihDeinstrumentMethod env c m w = deinstrumentMethodById env id id w := by
  rw [ihDeinstrumentMethod, read_bind, h]

theorem ihDeinstrumentMethod_none {c m : CStr} {w : World}
    (h : miFindMethodByName w.masterInstruments c m = ⟨0, none⟩) :
    ihDeinstrumentMethod env c m w = (.fail, w) := by
  rw [ihDeinstrumentMethod, read_bind, h]
  rfl

/-- A removal by the id of a variable binding fails, and changes nothing. -/
theorem ihDeinstrumentById_invisible {w : World} {id : Nat}
    (h : ∀ e, w.entry id = some e → e.isUserVisible = false) :
    ihDeinstrumentById env id w = (.fail, w) := by
  cases he : w.entry id with
  | none => exact bind_eq.mpr ⟨none, w, read_eq.mpr ⟨by simp [he], rfl⟩, rfl⟩
  | some e =>
    have hderef : deref env id w = (e, w) := by
      unfold deref
      rw [he]
    refine bind_eq.mpr ⟨some id, w, read_eq.mpr ⟨by simp [he], rfl⟩, bind_eq.mpr ⟨e, w, hderef, ?_⟩⟩
    obtain ⟨c, b⟩ := e
    cases b with
    | method | line => exact absurd (h _ he) nofun
    | varBind => rfl

theorem blind_requestMethod (hgrow : ∀ n, env.tabAlloc n = true) (c m : CStr) :
    Blind hid (requestMethod env c m) := by
  refine (blind_miAddMethod env hgrow c m).bind_of (MiVal.Free hid)
    (fun s _ hR => hR.free ((miAddMethod_run rfl).imp_right fun ⟨_, _, _, _, h⟩ => ⟨_, h⟩)) ?_
  rintro miv ⟨hptr, hfree⟩
  rw [hptr]
  exact .ite ((blind_instrumentAdded env hfree c m).bind fun _ => .pure _) (.pure _)

theorem blind_ihDeinstrumentById {id : Nat} (h : hid id = none) :
    Blind hid (ihDeinstrumentById env id) := by
  refine (blind_findEntry h).bind_of (fun found => ∀ p, found = some p → p = id)
    (fun s _ _ => findEntry_result s) ?_
  rintro (_ | p) hp
  · exact .pure _
  · obtain rfl := hp p rfl
    refine (blind_deref env h).bind fun e => ?_
    split
    · exact blind_deinstrumentMethodById env h
    · exact blind_deinstrumentLineById env h
    · exact .pure _

end

/-- A handler that does what a blind program does. -/
theorem step_of_blind {α : Type} {s t : World} {ev : Event} {x y : M α} {f : α → Reply}
    (hx : Blind hid x) (hR : Alike hid s t) (hev : handle env ev = y >>= fun r => pure (f r))
    (hs : y s = x s) (ht : y t = x t) :
    (answer env s ev).Same (answer env t ev) ∧ Alike hid (step env s ev) (step env t ev) := by
  obtain ⟨hr, hR'⟩ := (hx.bind fun r => Blind.pure (f r)) s t hR
  unfold answer step
  rw [hev, result, final, final, result, bind_congr_left hs, bind_congr_left ht]
  exact ⟨.of_eq hr, hR'⟩

/-- A request is answered alike in both worlds, and keeps them alike. -/
theorem Alike.step {s t : World} (hR : Alike hid s t)
    (hinv : ∀ id e, hid id = some e → e.isUserVisible = false) (hC : Coherent s.ledger)
    (hgrow : ∀ n, env.tabAlloc n = true) {ev : Event} (hev : ev.isVarBind = false) :
    (answer env s ev).Same (answer env t ev) ∧
      Alike hid (JautoProf.step env s ev) (JautoProf.step env t ev) := by
  cases ev with
  | classLoaded name bytecode loader =>
    exact step_of_blind (f := fun _ => .none) (blind_handleClassLoaded env name bytecode loader) hR rfl
      rfl rfl
  | instrumentMethod c m =>
    have hfind := hR.miFindMethodByName hinv hC c m
    rcases miFindMethodByName_cases s.masterInstruments c m with ⟨id, e, hs, -, -⟩ | ⟨hs, -⟩
    · exact step_of_blind (f := fun r => .instrument r.1 r.2) (Blind.pure (.doubleInstrument, id)) hR
        rfl (ihInstrumentMethod_found env hs) (ihInstrumentMethod_found env (hfind.trans hs))
    · exact step_of_blind (f := fun r => .instrument r.1 r.2) (blind_requestMethod env hgrow c m) hR rfl
        (ihInstrumentMethod_new env hs) (ihInstrumentMethod_new env (hfind.trans hs))
  | instrumentLine c x l l' =>
    exact step_of_blind (f := fun r => .instrument r.1 r.2) (blind_ihInstrumentLine env hgrow c x l l')
      hR rfl rfl rfl
  | deinstrumentMethod c m =>
    have hfind := hR.miFindMethodByName hinv hC c m
    rcases miFindMethodByName_cases s.masterInstruments c m with ⟨id, e, hs, he, hof⟩ | ⟨hs, -⟩
    · -- a method that a request finds is visible, so it is not a hidden entry
      have hfree : hid id = none := by
        cases hh : hid id with
        | none => rfl
        | some e' =>
          have hvis := hinv id e' hh
          rw [Option.some_inj.mp ((hR.hidden id e' hh).1.symm.trans he),
            MiEntry.isUserVisible_of_isMethodOf hof] at hvis
          cases hvis
      exact step_of_blind (f := .deinstrument) (blind_deinstrumentMethodById env hfree) hR rfl
        (ihDeinstrumentMethod_found env hs) (ihDeinstrumentMethod_found env (hfind.trans hs))
    · exact step_of_blind (f := .deinstrument) (Blind.pure .fail) hR rfl
        (ihDeinstrumentMethod_none env hs) (ihDeinstrumentMethod_none env (hfind.trans hs))
  | deinstrumentById id =>
    cases hh : hid id with
    | none => exact step_of_blind (f := .deinstrument) (blind_ihDeinstrumentById env hh) hR rfl rfl rfl
    | some e =>
      obtain ⟨hs, ht⟩ := hR.hidden id e hh
      have hvis : ∀ e', s.entry id = some e' → e'.isUserVisible = false := fun e' he' =>
        Option.some_inj.mp (hs.symm.trans he') ▸ hinv id e hh
      exact step_of_blind (f := .deinstrument) (Blind.pure .fail) hR rfl
        (ihDeinstrumentById_invisible env hvis)
        (ihDeinstrumentById_invisible env fun e' he' => absurd (ht.symm.trans he') nofun)
  | listInstruments => exact ⟨hR.listInstruments hinv, hR⟩
  | addVarBind => cases hev

/-! ## Every sequence of requests -/

theorem Alike.run {s t : World} (hR : Alike hid s t)
    (hinv : ∀ id e, hid id = some e → e.isUserVisible = false) (hI : anyRun.Inv s.ledger)
    (hgrow : ∀ n, env.tabAlloc n = true) {reqs : List Event}
    (hreqs : ∀ ev ∈ reqs, ev.isVarBind = false) :
    Alike hid (Runs.run (JautoProf.step env) s reqs) (Runs.run (JautoProf.step env) t reqs) := by
  induction reqs generalizing s t with
  | nil => exact hR
  | cons ev reqs ih =>
    have hI' : anyRun.Inv (Runs.run (JautoProf.step env) s [ev]).ledger :=
      inv_run hI along_trivial
    exact ih (hR.step hinv hI.coherent hgrow (hreqs ev List.mem_cons_self)).2 hI'
      fun ev' h => hreqs ev' (List.mem_cons_of_mem ev h)

/-- From a state that any run reaches, requests are answered as from the same state without
the variable bindings, and no request changes a binding, as long as the master table can
grow. -/
theorem var_binds_invisible (env₀ env : Env) (evs reqs : List Event)
    (hgrow : ∀ n, env.tabAlloc n = true) (hreqs : ∀ ev ∈ reqs, ev.isVarBind = false) :
    (∀ pre ev, pre ++ [ev] <+: reqs →
      (answer env (Runs.run (step env) (serve env₀ evs) pre) ev).Same
        (answer env (Runs.run (step env) (serve env₀ evs).dropVarBinds pre) ev)) ∧
    ∀ pre, pre <+: reqs → ∀ id e, (serve env₀ evs).entry id = some e → e.isUserVisible = false →
      (Runs.run (step env) (serve env₀ evs) pre).entry id = some e := by
  have hI := serve_inv env₀ evs
  have hR := hI.coherent.alike_dropVarBinds
  have hinv : ∀ id e, (serve env₀ evs).varBinds id = some e → e.isUserVisible = false := by
    intro id e he
    simpa using (Option.filter_eq_some_iff.mp he).2
  have hrun : ∀ pre, pre <+: reqs → Alike (serve env₀ evs).varBinds
      (Runs.run (step env) (serve env₀ evs) pre)
      (Runs.run (step env) (serve env₀ evs).dropVarBinds pre) := fun pre hpre =>
    hR.run hinv hI hgrow fun ev hev => hreqs ev (hpre.subset hev)
  refine ⟨fun pre ev hpre => ?_, fun pre hpre id e he hvis => ?_⟩
  · have hinvr : anyRun.Inv (Runs.run (step env) (serve env₀ evs) pre).ledger :=
      inv_run hI along_trivial
    refine ((hrun pre ((List.prefix_append _ _).trans hpre)).step hinv hinvr.coherent hgrow ?_).1
    exact hreqs ev (hpre.subset (by simp))
  · exact ((hrun pre hpre).hidden id e (Option.filter_eq_some_iff.mpr ⟨he, by simp [hvis]⟩)).1

/-- A binding of the class and name of a method does not keep the method from being
instrumented, and stays when its id is removed. -/
theorem var_binds_invisible_method :
    (serve .smooth [.addVarBind classA.cstr classB.cstr 5]).entry 1 =
        some ⟨classA, .varBind classB 5 true⟩ ∧
      (Runs.run (step .smooth) (serve .smooth [.addVarBind classA.cstr classB.cstr 5])
        [.instrumentMethod classA.cstr classB.cstr, .deinstrumentById 1]).entry 1 =
          some ⟨classA, .varBind classB 5 true⟩ :=
  have hent : (serve .smooth [.addVarBind classA.cstr classB.cstr 5]).entry 1 =
      some ⟨classA, .varBind classB 5 true⟩ := by rfl
  ⟨hent, (var_binds_invisible .smooth .smooth _ [.instrumentMethod classA.cstr classB.cstr,
    .deinstrumentById 1] (fun _ => rfl) (by decide)).2 _ List.prefix_rfl 1 _ hent rfl⟩

end JautoProf
