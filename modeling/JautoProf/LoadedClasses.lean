import JautoProf.HashTabMap
import JautoProf.ListedStrings

/-!
# Lists of loaded classes and of methods (`class-info-list.c`, `uif-response.c`)

`ClassTab` is the list of the loaded classes on the hash table with its links, under the bytes
that `ci->name->size` counts. A response takes its count from the counter of the table, its size
from one iteration, and its strings from another.

Results:
1. `SameTab.add`, `SameTab.respond`: as long as names hold no NUL, the table and its response
   are those of `ClassInfoList`.
2. `class_lists_sent`: after every sequence of loads the responses hold what they announce, and
   the client reads the names of the loaded classes, each once, and the methods of every class.
-/

namespace JautoProf

open Probing Wire ProfClient

/-! ## The table -/

/-- The options of `hash_tab_init(NULL)`, over the bytes of a key. -/
def loadedTabOpts : HashTabOpts (List UInt8) where
  capInit := hashtabCapDefault
  rehashThresh := hashtabThreshDefault
  hashFunc := fun key => murmur3HashX8632 key 560392091
  cap_pos := hashtabCapDefault_pos

/-- `struct class_info_list`, with the links of the table. -/
abbrev ClassTab := LinkedTab (List UInt8) ClassInfo

namespace ClassTab

/-- `ci_list_init`. -/
def ciListInit : ClassTab := .hashTabInit loadedTabOpts

/-- `ci_list_size`. -/
def ciListSize (t : ClassTab) : Nat := t.hashTabSize

/-- The calls of `ci_list_iterate` until it returns `NULL`. -/
def ciListIterate (t : ClassTab) : Option (List ClassInfo) := t.hashTabIterate.map (·.map Prod.snd)

/-- `ci_list_add`; the instruments are stolen through the pointer that the table holds. -/
def ciListAdd (t : ClassTab) (ci : ClassInfo) (keyOk tabOk : Bool) :
    Option (CiListAdd × ClassTab) :=
  (t.hashTabAdd loadedTabOpts ci.name.str ci keyOk tabOk).map fun r =>
    match r.1.prev with
    | some old =>
      (.duplicate, r.2.hashTabModify loadedTabOpts ci.name.str (ciStealInstruments · old))
    | none => (if r.1.err then .err else .ok, r.2)

/-- `ci_list_find_by_name`, for the bytes of a name. -/
def ciListFindByName (t : ClassTab) (name : List UInt8) : Option ClassInfo :=
  t.hashTabLookup loadedTabOpts name

/-- `uif_respond_loaded_classes`; it runs for ever where one of its iterations does. -/
def uifRespondLoadedClasses (t : ClassTab) (ok : Bool) : Option (Option UserMsg) :=
  t.ciListIterate.bind fun sized =>
    t.ciListIterate.map fun copied =>
      sizedResponse .responseLoadedClasses (4 + stringsSize (sized.map ClassInfo.name))
        (le 4 t.ciListSize ++ writeStrings (copied.map ClassInfo.name)) ok

end ClassTab

/-- `_parse_string_list`; the strings are the bytes that are passed to `decode`. -/
def ProfClient.parseStringList (body : List UInt8) : Except PyError (List (List UInt8)) :=
  (counted pstring).run body

/-! ## Names without NUL -/

/-- The table is the list that is kept under C strings, but for the keys. -/
def SameTab (t : ClassTab) (l : ClassInfoList) : Prop :=
  Refines t (l.raw.mapKeys fun name : CStr => name.val)

theorem renames_val : Renames (fun name : CStr => name.val) classTabOpts loadedTabOpts :=
  ⟨Subtype.val_injective, fun _ => rfl, rfl⟩

namespace SameTab

variable {t : ClassTab} {l : ClassInfoList}

/-- A class whose name is a C string, as `ci_alloc` makes it. -/
theorem add (h : SameTab t l) {ci : ClassInfo} (hname : (0 : UInt8) ∉ ci.name.str)
    (keyOk tabOk : Bool) :
    ∃ t', t.ciListAdd ci keyOk tabOk = some (ciListAddResult l ci keyOk tabOk, t') ∧
      SameTab t' (ciListAdd l ci keyOk tabOk) := by
  have hkey : ci.name.str = ci.name.cstr.val := by
    refine (List.takeWhile_eq_self_iff.mpr fun b hb => ?_).symm
    exact decide_eq_true fun h0 => hname (h0 ▸ hb)
  obtain ⟨c, hc, href⟩ :=
    Refines.add h (renames_val.valid l.valid) ci.name.cstr.val ci keyOk tabOk
  rw [renames_val.hashTabAdd] at hc href
  unfold ClassTab.ciListAdd ciListAddResult ciListAdd Table.addResult
  rw [hkey, hc, Option.map_some]
  cases hprev : (hashTabAdd classTabOpts l.raw ci.name.cstr ci keyOk tabOk).1.prev with
  | none =>
    simp only [hprev]
    exact ⟨c, rfl, href⟩
  | some old =>
    simp only [hprev]
    have hmod := href.modify (o := loadedTabOpts) ci.name.cstr.val (ciStealInstruments · old)
    rw [renames_val.hashTabModify] at hmod
    exact ⟨_, rfl, hmod⟩

theorem respond (h : SameTab t l) (ok : Bool) :
    t.uifRespondLoadedClasses ok = some (uifRespondLoadedClasses l ok) := by
  have hv := renames_val.valid l.valid
  have hnames : (t.ciListIterate).map (·.map ClassInfo.name) = some (loadedClassNames l) := by
    rw [ClassTab.ciListIterate, Refines.iterate h hv.linked hv.count_lt, HashTab.mapKeys_entries]
    simp [loadedClassNames, Table.entries]
  obtain ⟨cs, hcs, hmap⟩ := Option.map_eq_some_iff.mp hnames
  rw [ClassTab.uifRespondLoadedClasses, hcs]
  simp only [Option.bind_some, Option.map_some, hmap]
  rw [ClassTab.ciListSize, LinkedTab.hashTabSize, h.count]
  rfl

end SameTab

/-! ## What is loaded -/

/-- A call of `ci_list_add`, with the answers of the allocator. -/
structure Load where
  ci : ClassInfo
  keyOk : Bool
  tabOk : Bool

/-- The calls in turn, each with what it returned. -/
def ClassTab.loads (t : ClassTab) : List Load → Option (List (Load × CiListAdd) × ClassTab)
  | [] => some ([], t)
  | l :: ls => (t.ciListAdd l.ci l.keyOk l.tabOk).bind fun r =>
      (r.2.loads ls).map fun rs => ((l, r.1) :: rs.1, rs.2)

/-- The methods of the classes by their names. -/
abbrev LoadedMethods := List UInt8 → Option (List Pstring)

/-- A call that did not fail loads its class under the name, in place of the one before. -/
def LoadedMethods.load (m : LoadedMethods) (c : Load × CiListAdd) : LoadedMethods :=
  if c.2 = .err then m else Function.update m c.1.ci.name.str (some c.1.ci.methods)

/-- What is loaded after the calls. -/
def loadedMethods (calls : List (Load × CiListAdd)) : LoadedMethods :=
  calls.foldl LoadedMethods.load fun _ => none

/-- The fields are those of a valid table, which holds for every name the class that was loaded
last. -/
structure KeepsLoaded (t : ClassTab) (h : HashTab (List UInt8) ClassInfo) (m : LoadedMethods) :
    Prop where
  refines : Refines t h
  valid : h.Valid loadedTabOpts
  named : ∀ s ci, hashTabLookup loadedTabOpts h s = some ci → ci.name.str = s
  methods : ∀ s, (hashTabLookup loadedTabOpts h s).map ClassInfo.methods = m s

theorem keepsLoaded_init :
    KeepsLoaded .ciListInit (.blank loadedTabOpts.capInit) fun _ => none where
  refines := .blank _
  valid := HashTab.valid_blank _ _ loadedTabOpts.cap_pos
  named s ci hci := by
    rw [hashTabLookup_blank] at hci
    cases hci
  methods s := by rw [hashTabLookup_blank]; rfl

namespace KeepsLoaded

variable {t : ClassTab} {h : HashTab (List UInt8) ClassInfo} {m : LoadedMethods}

/-- Where the class of a name is another one, the rest is as it was. -/
theorem update (hk : KeepsLoaded t h m) (ci : ClassInfo) {t' : ClassTab}
    {h' : HashTab (List UInt8) ClassInfo} (href : Refines t' h') (hvalid : h'.Valid loadedTabOpts)
    (hlookup : ∀ s, hashTabLookup loadedTabOpts h' s =
      if s = ci.name.str then some ci else hashTabLookup loadedTabOpts h s) :
    KeepsLoaded t' h' (Function.update m ci.name.str (some ci.methods)) where
  refines := href
  valid := hvalid
  named s c hc := by
    rw [hlookup] at hc
    split at hc
    · next hs =>
      cases hc
      exact hs.symm
    · exact hk.named s c hc
  methods s := by
    rw [hlookup, Function.update_apply]
    split
    · rfl
    · exact hk.methods s

/-- One call; it fails only where an allocation does. -/
theorem add (hk : KeepsLoaded t h m) (l : Load) :
    ∃ r t' h', t.ciListAdd l.ci l.keyOk l.tabOk = some (r, t') ∧ KeepsLoaded t' h' (m.load (l, r)) ∧
      (r = .err → l.keyOk = false ∨ l.tabOk = false) := by
  obtain ⟨ci, keyOk, tabOk⟩ := l
  obtain ⟨c, hc, href⟩ := hk.refines.add hk.valid ci.name.str ci keyOk tabOk
  unfold ClassTab.ciListAdd
  rw [hc, Option.map_some]
  rcases hk.valid.add ci.name.str ci keyOk tabOk with hfail | ⟨hok, hvalid, hlookup⟩
  · have herr := congrArg (fun r => r.1.err) hfail
    rw [hfail] at href ⊢
    refine ⟨.err, c, h, rfl, ⟨href, hk.valid, hk.named, hk.methods⟩, fun _ => ?_⟩
    by_contra hboth
    rw [not_or, Bool.not_eq_false, Bool.not_eq_false] at hboth
    obtain ⟨rfl, rfl⟩ := hboth
    rw [hashTabAdd_err] at herr
    cases herr
  · rw [hok]
    cases hold : hashTabLookup loadedTabOpts h ci.name.str with
    | none => exact ⟨.ok, c, _, rfl, hk.update ci href hvalid hlookup, fun he => nomatch he⟩
    | some old =>
      -- the class takes over the instruments of the one that it replaces, and keeps its name
      obtain ⟨hvalid', hlookup'⟩ := hvalid.modify ci.name.str (ciStealInstruments · old)
      refine ⟨.duplicate, _, _, rfl, hk.update (ciStealInstruments ci old) (href.modify _ _) hvalid'
        fun s => ?_, fun he => nomatch he⟩
      rw [hlookup', hlookup, if_pos rfl, hlookup]
      show (if s = ci.name.str then _ else _) = if s = ci.name.str then _ else _
      split <;> rfl

theorem loads (hk : KeepsLoaded t h m) (ls : List Load) :
    ∃ cs t' h', t.loads ls = some (cs, t') ∧ cs.map Prod.fst = ls ∧
      KeepsLoaded t' h' (cs.foldl LoadedMethods.load m) ∧
      ∀ c ∈ cs, c.2 = .err → c.1.keyOk = false ∨ c.1.tabOk = false := by
  induction ls generalizing t h m with
  | nil => exact ⟨[], t, h, rfl, rfl, hk, fun c hc => nomatch hc⟩
  | cons l ls ih =>
    obtain ⟨r, t₁, h₁, ht₁, hk₁, herr⟩ := hk.add l
    obtain ⟨cs, t', h', ht', hls, hk', herrs⟩ := ih hk₁
    refine ⟨(l, r) :: cs, t', h', ?_, by rw [List.map_cons, hls], hk', ?_⟩
    · simp only [ClassTab.loads, ht₁, Option.bind_some, ht', Option.map_some]
    · intro c hc
      rcases List.mem_cons.mp hc with rfl | hc
      · exact herr
      · exact herrs c hc

theorem find (hk : KeepsLoaded t h m) (s : List UInt8) :
    t.ciListFindByName s = hashTabLookup loadedTabOpts h s :=
  hk.refines.lookup s

theorem iterate (hk : KeepsLoaded t h m) : t.ciListIterate = some (h.entries.map Prod.snd) := by
  rw [ClassTab.ciListIterate, hk.refines.iterate hk.valid.linked hk.valid.count_lt]
  rfl

theorem size (hk : KeepsLoaded t h m) : t.ciListSize = (h.entries.map Prod.snd).length := by
  rw [List.length_map, entries_length hk.valid.linked]
  exact hk.refines.count

/-- The names of the classes that an iteration yields are the keys. -/
theorem names (hk : KeepsLoaded t h m) :
    (h.entries.map Prod.snd).map (fun ci => ci.name.str) = h.entries.map Prod.fst := by
  rw [List.map_map]
  refine List.map_congr_left fun e he => ?_
  exact hk.named e.1 e.2
    ((lookup_eq_some hk.valid.probed).mpr ((mem_entries hk.valid.linked).mp he))

end KeepsLoaded

/-! ## The responses -/

/-- After `skip` bytes the body has a count of the strings and the strings, the size in the header
is that of the body, and the client reads the strings. -/
structure SendsStrings (msg : UserMsg) (skip : Nat) (l : List Pstring) : Prop where
  size : msg.size.toNat = msg.body.length
  count : ofLe ((msg.body.drop skip).take 4) = l.length
  written : (msg.body.drop skip).drop 4 = writeStrings l
  parsed : parseStringList (msg.body.drop skip) = .ok (l.map Pstring.str)

theorem sends_counted (type : UserMsgType) (head : List UInt8) (l : List Pstring) {bodySize : Nat}
    (hsize : head.length + 4 + stringsSize l = bodySize) (hfits : bodySize ≤ uint32Max) :
    ∃ msg, sizedResponse type bodySize (head ++ (le 4 l.length ++ writeStrings l)) true = some msg ∧
      SendsStrings msg head.length l := by
  have hlength : (head ++ (le 4 l.length ++ writeStrings l)).length = bodySize := by
    rw [List.length_append, List.length_append, le_length, writeStrings_length]
    omega
  -- every string has at least the two bytes of its size
  have hcount : l.length < 256 ^ 4 := by
    have hle := length_le_stringsSize l
    unfold uint32Max at hfits
    omega
  refine ⟨_, sizedResponse_eq hfits type _, ?_, ?_, ?_, ?_⟩
  · rw [hlength, UInt32.toNat_ofNat']
    exact Nat.mod_eq_of_lt (Nat.lt_succ_of_le hfits)
  · rw [List.drop_left, List.take_left' (le_length 4 _), ofLe_le hcount]
  · rw [List.drop_left, List.drop_left' (le_length 4 _)]
  · rw [List.drop_left]
    exact counted_run (fun p _ => reads_pstring p) hcount

variable {t : ClassTab} {h : HashTab (List UInt8) ClassInfo} {m : LoadedMethods}

/-- The names are sent in the order of the iteration. -/
theorem KeepsLoaded.respond (hk : KeepsLoaded t h m)
    (hfits : 4 + stringsSize ((h.entries.map Prod.snd).map ClassInfo.name) ≤ uint32Max) :
    ∃ msg, t.uifRespondLoadedClasses true = some (some msg) ∧
      SendsStrings msg 0 ((h.entries.map Prod.snd).map ClassInfo.name) := by
  obtain ⟨msg, hmsg, hsends⟩ := sends_counted .responseLoadedClasses []
    ((h.entries.map Prod.snd).map ClassInfo.name) (by rw [List.length_nil, Nat.zero_add]) hfits
  have hcount : ((h.entries.map Prod.snd).map ClassInfo.name).length =
      (h.entries.map Prod.snd).length := List.length_map _
  refine ⟨msg, ?_, hsends⟩
  rw [ClassTab.uifRespondLoadedClasses, hk.iterate, hk.size, ← hmsg, hcount]
  rfl

theorem respond_methods (ci : ClassInfo) (hfits : 8 + stringsSize ci.methods ≤ uint32Max) :
    ∃ msg, uifRespondClassMethods (some ci) true = some msg ∧ SendsStrings msg 4 ci.methods :=
  sends_counted .responseClassMethods (le 4 classMethodsRpOk) ci.methods rfl hfits

/-- After every sequence of loads, replaced ones included and whatever the allocator answers: no
call and no iteration runs for ever or fails an assertion, and a load fails only where an
allocation does. The names in the response are those of the loaded classes, each once; the methods
in the response for a class are those of the class that was loaded last under the name, in order.
Each response that fits in 32 bits is sent as it is announced, and the client reads its strings. -/
theorem class_lists_sent (ls : List Load) :
    ∃ cs t names, ClassTab.ciListInit.loads ls = some (cs, t) ∧ cs.map Prod.fst = ls ∧
      (∀ c ∈ cs, c.2 = .err → c.1.keyOk = false ∨ c.1.tabOk = false) ∧
      (names.map Pstring.str).Nodup ∧
      (∀ s, s ∈ names.map Pstring.str ↔ (loadedMethods cs s).isSome) ∧
      (4 + stringsSize names ≤ uint32Max →
        ∃ msg, t.uifRespondLoadedClasses true = some (some msg) ∧ SendsStrings msg 0 names) ∧
      (∀ s, (t.ciListFindByName s).map ClassInfo.methods = loadedMethods cs s) ∧
      ∀ s ci, t.ciListFindByName s = some ci → 8 + stringsSize ci.methods ≤ uint32Max →
        ∃ msg, uifRespondClassMethods (some ci) true = some msg ∧ SendsStrings msg 4 ci.methods := by
  obtain ⟨cs, t, h, ht, hls, hk, herrs⟩ := keepsLoaded_init.loads ls
  have hkeys : ((h.entries.map Prod.snd).map ClassInfo.name).map Pstring.str =
      h.entries.map Prod.fst := by
    rw [← hk.names, List.map_map]
    rfl
  refine ⟨cs, t, (h.entries.map Prod.snd).map ClassInfo.name, ht, hls, herrs, ?_, fun s => ?_,
    hk.respond, fun s => ?_, fun s ci _ => respond_methods ci⟩
  · rw [hkeys]
    exact entries_nodup hk.valid.linked hk.valid.probed.distinct
  · have hmethods : (hashTabLookup loadedTabOpts h s).map ClassInfo.methods = loadedMethods cs s :=
      hk.methods s
    rw [hkeys, ← hmethods, Option.isSome_map, Option.isSome_iff_exists, List.mem_map]
    constructor
    · rintro ⟨⟨k, ci⟩, he, rfl⟩
      exact ⟨ci, (lookup_eq_some hk.valid.probed).mpr ((mem_entries hk.valid.linked).mp he)⟩
    · rintro ⟨ci, hci⟩
      have hentry := (lookup_eq_some hk.valid.probed).mp hci
      exact ⟨(s, ci), (mem_entries hk.valid.linked).mpr hentry, rfl⟩
  · rw [hk.find]
    exact hk.methods s

end JautoProf
