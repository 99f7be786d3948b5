import JautoProf.Deployed
import JautoProf.Effects

/-!
# Sequences of acts

`Vouch` names what is known of a run besides the code. `V.Leads L L'` says that enabled acts
which meet what `V` vouches for lead from `L` to `L'`. The invariants that the handlers rely
on come with every ledger on the way.

Results:
1. `Vouch.Inv.leads`: the invariants hold at the end when they hold at the start.
-/

namespace JautoProf

open Act

/-- The text with which the failure of a deferred instrument is reported. -/
def MiEntry.failureText (e : MiEntry) : List UInt8 :=
  match e.body with
  | .method n _ => deferredMethodText e.entryClassName.cstr n.cstr
  | .line x _ _ _ _ => deferredLineText e.entryClassName.cstr x.cstr
  | .varBind .. => []

/-- The act reads no entry that left the table, and reports what failed under its name. -/
def Act.Live (L : Ledger) : Act → Prop
  | report r => ∃ f e, L.flight = some f ∧ f.id = r.instrumentId ∧ L.entry f.id = some e ∧
      L.loading ≠ none ∧ r.text = e.failureText
  | readStale => False
  | _ => True

/-- Only a request gives out an id, one, and only a class load adds a class. -/
def Act.Paced (request : Prop) (base : Nat) (L : Ledger) : Act → Prop
  | burn | hide _ | start _ _ => request ∧ L.nextId = base
  | load _ => ¬ request
  | _ => True

/-- The act is one of which nothing is asked but that it is enabled. -/
def Act.isPlain : Act → Bool
  | burn | hide _ | start _ _ | dropLine .. | abandon .. | leaveLine .. => false
  | load _ | release .. | clear _ | report _ | readStale => false
  | _ => true

/-- The act removes records of lines. -/
def Act.removesLines : Act → Bool
  | dropLine .. | leaveLine .. | release .. | clear _ => true
  | _ => false

/-- What is known of a run: that removals by line number find what is their own, that
profilers are removed, that no deferred line instrument fails half-way; and of one event,
whether it asks for an instrument, and the next id when it begins. -/
structure Vouch where
  own : Prop
  removed : Prop
  live : Prop
  paced : Prop := False
  request : Prop := False
  base : Nat := 0

namespace Vouch

variable (V : Vouch)

structure Allows (L : Ledger) (a : Act) : Prop where
  enabled : Enabled L a
  own : V.own → Own L a
  removed : V.removed → Removed a
  live : V.live → Act.Live L a
  paced : V.paced → Act.Paced V.request V.base L a

/-- Acts that `V` allows lead from the one ledger to the other. -/
def Leads (L L' : Ledger) : Prop := Runs.Reaches apply V.Allows L L'

/-- What holds of every ledger on the way. -/
structure Inv (L : Ledger) : Prop where
  coherent : Coherent L
  numbered : Numbered L
  slotted : V.own → Slotted L
  lined : V.own → Lined L
  owned : V.own → V.removed → Owned L
  deployed : V.own → Deployed L

variable {V} {L L' L'' : Ledger}

theorem Allows.plain {a : Act} (h : Enabled L a) (ha : a.isPlain = true) : V.Allows L a := by
  refine ⟨h, fun _ => ?_, fun _ => ?_, fun _ => ?_, fun _ => ?_⟩ <;> cases a <;> trivial

theorem Allows.owning {a : Act} (h : Enabled L a) (hown : V.own → Own L a)
    (ha : a.removesLines = true) : V.Allows L a := by
  refine ⟨h, hown, fun _ => ?_, fun _ => ?_, fun _ => ?_⟩ <;> cases a <;> trivial

theorem Allows.abandon {f : Flight} {ok : Bool} (h : Enabled L (.abandon f ok))
    (hok : V.removed → ok = true) : V.Allows L (.abandon f ok) :=
  ⟨h, fun _ => trivial, hok, fun _ => trivial, fun _ => trivial⟩

theorem Inv.act (h : V.Inv L) {a : Act} (ha : V.Allows L a) : V.Inv (apply L a) where
  coherent := coherent_act h.coherent ha.enabled
  numbered := numbered_act h.numbered ha.enabled
  slotted hv := slotted_act (h.slotted hv) h.coherent ha.enabled (ha.own hv)
  lined hv := lined_act (h.lined hv) h.coherent (h.slotted hv) ha.enabled (ha.own hv)
  owned hv hr := owned_act (h.owned hv hr) (h.slotted hv) ha.enabled (ha.own hv) (ha.removed hr)
  deployed hv := deployed_act (h.deployed hv) h.coherent ha.enabled (ha.own hv)

theorem Inv.leads (h : V.Inv L) (hl : V.Leads L L') : V.Inv L' :=
  Runs.Reaches.inv V.Inv (fun _ _ hi ha => hi.act ha) hl h

theorem Leads.refl (L : Ledger) : V.Leads L L := Runs.Reaches.refl L

theorem Leads.trans (h : V.Leads L L') (h' : V.Leads L' L'') : V.Leads L L'' :=
  Runs.Reaches.trans h h'

theorem Leads.one {a : Act} (h : V.Allows L a) : V.Leads L (apply L a) := Runs.Reaches.one h

/-- One more act at the end. -/
theorem Leads.snoc (h : V.Leads L L') {a : Act} (ha : V.Allows L' a) (he : apply L' a = L'') :
    V.Leads L L'' :=
  he ▸ h.trans (.one ha)

theorem Leads.of_eq (h : L = L') : V.Leads L L' := h ▸ .refl L

/-- No class leaves the table. -/
theorem Leads.cls (h : V.Leads L L') {c : CStr} (hc : L.cls c ≠ none) : L'.cls c ≠ none := by
  refine Runs.Reaches.inv (fun L => L.cls c ≠ none) (fun L a hc _ => ?_) h hc
  cases a with
  | addMethod | dropMethod | addLine | dropLine | takeMethod | clear => exact modCls_ne_none.mpr hc
  | load ci =>
    show Function.update L.cls ci.name.cstr (some (loadedClass L ci)) c ≠ none
    rw [Function.update_apply]
    split
    · simp
    · exact hc
  | burn | hide | start | enqueue | settle | abandon | mark | install | markHalf | dequeue | unqueue
  | leaveLine | define | settled | purge | leaveMethodRec | leaveLineRec | release | report
  | readStale => exact hc

/-- What the pace of an event comes to on its way: a class load gives out no id, a request
one at most. -/
structure OnPace (V : Vouch) (L : Ledger) : Prop where
  loading : L.loading ≠ none → ¬ V.request
  steady : ¬ V.request → L.nextId = V.base
  once : L.nextId ≤ V.base + 1

theorem OnPace.act (h : V.OnPace L) {a : Act} (ha : Act.Paced V.request V.base L a) :
    V.OnPace (apply L a) := by
  cases a with
  | burn | hide | start =>
    exact ⟨h.loading, fun hno => absurd ha.1 hno, Nat.succ_le_succ (Nat.le_of_eq ha.2)⟩
  | load ci => exact ⟨fun _ => ha, h.steady, h.once⟩
  | settled => exact ⟨fun hne => absurd rfl hne, h.steady, h.once⟩
  | enqueue | addMethod | dropMethod | addLine | dropLine | settle | abandon | mark | install
  | markHalf | dequeue | unqueue | takeMethod | leaveLine | define | purge | leaveMethodRec
  | leaveLineRec | release | clear | report | readStale => exact ⟨h.loading, h.steady, h.once⟩

theorem OnPace.leads (h : V.OnPace L) (hp : V.paced) (hl : V.Leads L L') : V.OnPace L' :=
  Runs.Reaches.inv V.OnPace (fun _ _ hi ha => hi.act (ha.paced hp)) hl h

/-- The acts lead to where the instrument in flight is given up, which leads to `L'`. -/
def GivesUp (V : Vouch) (L L' : Ledger) (id : Nat) (e : MiEntry) : Prop :=
  ∃ L₁ f ok, V.Leads L L₁ ∧ V.Allows L₁ (.abandon f ok) ∧ f.id = id ∧ L₁.entry id = some e ∧
    L₁.loading = L.loading ∧ apply L₁ (.abandon f ok) = L'

theorem GivesUp.leads {id : Nat} {e : MiEntry} (h : V.GivesUp L L' id e) : V.Leads L L' :=
  let ⟨_, _, _, hl, ha, _, _, _, heq⟩ := h
  hl.snoc ha heq

theorem GivesUp.trans {id : Nat} {e : MiEntry} (h : V.Leads L L') (hl : L'.loading = L.loading)
    (h' : V.GivesUp L' L'' id e) : V.GivesUp L L'' id e :=
  let ⟨L₁, f, ok, hl', ha, hid, he, hlo, heq⟩ := h'
  ⟨L₁, f, ok, h.trans hl', ha, hid, he, hlo.trans hl, heq⟩

/-- An instrument in flight without records can be given up at once. -/
theorem givesUp_now {f : Flight} {e : MiEntry} {ok : Bool} (hfl : L.flight = some f)
    (he : L.entry f.id = some e) (hrecs : f.recs = [])
    (hst : f.stage = .recorded → lineKeys (some e) ≠ []) (hok : V.removed → ok = true) :
    V.GivesUp L (apply L (.abandon f ok)) f.id e :=
  ⟨L, f, ok, .refl L, .abandon ⟨hfl, fun h => he ▸ hst h, .inl hrecs⟩ hok, rfl, he, rfl, rfl⟩

theorem GivesUp.entry {id : Nat} {e : MiEntry} (h : V.GivesUp L L' id e) : L'.entry id = none := by
  obtain ⟨L₁, f, ok, -, -, rfl, -, -, rfl⟩ := h
  exact (Ledger.setEntry_entry ..).trans (if_pos rfl)

/-- The failure is reported under the name of the instrument that is given up. -/
theorem GivesUp.report {id : Nat} {e : MiEntry} (h : V.GivesUp L L' id e) (hlo : L.loading ≠ none) :
    V.Leads L { L' with reports := L'.reports ++ [⟨id, e.failureText⟩] } := by
  obtain ⟨L₁, f, ok, hl, ha, rfl, he, hl₁, rfl⟩ := h
  have hfl : L₁.flight = some f := ha.enabled.1
  refine (hl.snoc (a := .report ⟨f.id, e.failureText⟩) ⟨trivial, fun _ => trivial, fun _ => trivial,
    fun _ => ⟨f, e, hfl, rfl, he, hl₁ ▸ hlo, rfl⟩, fun _ => trivial⟩ rfl).snoc
      (a := .abandon f ok) ?_ rfl
  exact .abandon ha.enabled ha.removed

end Vouch

end JautoProf
