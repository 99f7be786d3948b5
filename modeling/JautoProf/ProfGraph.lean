import JautoProf.ProfilerRegistry
import Mathlib.Data.List.Induction
import Mathlib.Data.List.Nodup

/-!
# Probes by their names (`prof_client.py`, `prof_graph.py`)

`compute_stat_summary` looks a probe up in the list that `get_stats` returns, and takes the
first one of the name; `generate_stats_graph` puts the list in a dict first, where the last
one of a name stays.

Results:
1. `names_identify`: where no two probes have one name, both select the same probe by every
   name, and every probe by its own. `select_different`: where two have, they select different
   ones.
-/

namespace JautoProf.ProfClient

/-! ## The selections -/

/-- A `ValueError` with its text, in UTF-8. -/
abbrev Selected (α : Type) : Type := Except (List UInt8) α

/-- The loop of `compute_stat_summary`. -/
def findEntry (name : List UInt8) : List Probe → Option Probe
  | [] => none
  | e :: es => if e.name = name then some e else findEntry name es

/-- The probe that `compute_stat_summary` summarises. -/
def summaryEntry (probes : List Probe) (name : List UInt8) : Selected Probe :=
  match findEntry name probes with
  | some entry => .ok entry
  | none => .error (ascii "profiler not found in stats: " ++ name)

/-- `by_name`. -/
def byName (probes : List Probe) : List UInt8 → Option Probe :=
  probes.foldl (fun d p => Function.update d p.name (some p)) fun _ => none

/-- The probes that `generate_stats_graph` plots. -/
def graphProbes (probes : List Probe) (names : Option (List (List UInt8))) :
    Selected (List Probe) := do
  let probes ← selectNames probes names
  if probes.isEmpty then .error (ascii "no probes to graph") else .ok probes
where
  selectNames (probes : List Probe) : Option (List (List UInt8)) → Selected (List Probe)
    | none => .ok probes
    | some names =>
      let missing := names.filter fun n => (byName probes n).isNone
      if missing.isEmpty then .ok (names.filterMap (byName probes))
      else .error (ascii "probe(s) not found in stats: " ++ (ascii ", ").intercalate missing)

/-- Names select probes: the two selections agree, and reach every probe. -/
structure NamesIdentify (probes : List Probe) : Prop where
  distinct : (probes.map Probe.name).Nodup
  agree : ∀ name p, summaryEntry probes name = .ok p ↔ graphProbes probes (some [name]) = .ok [p]
  selected : ∀ p ∈ probes, summaryEntry probes p.name = .ok p

/-! ## The first and the last of a name -/

theorem findEntry_eq (name : List UInt8) (probes : List Probe) :
    findEntry name probes = probes.find? fun p => p.name = name := by
  induction probes with
  | nil => rfl
  | cons p probes ih =>
    rw [findEntry, List.find?_cons, ih]
    by_cases h : p.name = name <;> simp [h]

theorem byName_eq (name : List UInt8) (probes : List Probe) :
    byName probes name = probes.reverse.find? fun p => p.name = name := by
  induction probes using List.reverseRecOn with
  | nil => rfl
  | append_singleton probes p ih =>
    rw [byName, List.foldl_append, List.reverse_append, List.reverse_singleton,
      List.singleton_append, List.find?_cons]
    show Function.update (byName probes) p.name (some p) name = _
    by_cases h : name = p.name
    · subst h
      simp
    · rw [Function.update_of_ne h, ih]
      simp [Ne.symm h]

theorem find?_name_iff {probes : List Probe} (h : (probes.map Probe.name).Nodup)
    {name : List UInt8} {p : Probe} :
    (probes.find? fun q => q.name = name) = some p ↔ p ∈ probes ∧ p.name = name := by
  constructor
  · intro hfind
    exact ⟨List.mem_of_find?_eq_some hfind, by simpa using List.find?_some hfind⟩
  · rintro ⟨hmem, rfl⟩
    obtain ⟨q, hq⟩ : ∃ q, (probes.find? fun q => q.name = p.name) = some q :=
      Option.isSome_iff_exists.mp (List.find?_isSome.mpr ⟨p, hmem, by simp⟩)
    have hname : q.name = p.name := by simpa using List.find?_some hq
    rw [hq, List.inj_on_of_nodup_map h (List.mem_of_find?_eq_some hq) hmem hname]

theorem summaryEntry_iff {probes : List Probe} {name : List UInt8} {p : Probe} :
    summaryEntry probes name = .ok p ↔ findEntry name probes = some p := by
  unfold summaryEntry
  cases findEntry name probes <;> simp

theorem graphProbes_iff {probes : List Probe} {name : List UInt8} {p : Probe} :
    graphProbes probes (some [name]) = .ok [p] ↔ byName probes name = some p := by
  unfold graphProbes graphProbes.selectNames
  cases h : byName probes name with
  | none => simp [h, bind, Except.bind]
  | some q => simp [h, bind, Except.bind]

theorem names_identify {probes : List Probe} (h : (probes.map Probe.name).Nodup) :
    NamesIdentify probes where
  distinct := h
  agree := fun name p => by
    have hrev : (probes.reverse.map Probe.name).Nodup := by
      rw [List.map_reverse]
      exact List.nodup_reverse.mpr h
    rw [summaryEntry_iff, graphProbes_iff, findEntry_eq, byName_eq, find?_name_iff h,
      find?_name_iff hrev, List.mem_reverse]
  selected := fun p hp => by
    rw [summaryEntry_iff, findEntry_eq]
    exact (find?_name_iff h).mpr ⟨hp, rfl⟩

/-- Of two probes of one name the one selects the first and the other the last. -/
theorem select_different {p q : Probe} (probes : List Probe) (h : p.name = q.name) :
    summaryEntry (p :: (probes ++ [q])) q.name = .ok p ∧
      graphProbes (p :: (probes ++ [q])) (some [q.name]) = .ok [q] := by
  rw [summaryEntry_iff, graphProbes_iff, findEntry_eq, byName_eq]
  simp [h]

end JautoProf.ProfClient
