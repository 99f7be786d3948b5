import JautoProf.AcceptedClasses
import JautoProf.Lib.Decoding
import JautoProf.PackedRequests

/-!
# Listed names that are passed back (`prof_client.py`)

The JVM's names are modified UTF-8, and the server lists their bytes. `pstring.__init__` decodes
them with replacement, and `pstring.pack` encodes what a caller passes back.

Results:
1. `loaded_classes_read_back`, `class_methods_read_back`: the client reads the listed bytes.
2. `listed_passed_back`: `instrument_method` makes the server receive what it listed, and that is
   the name and the descriptor of the method, exactly if no unit of a name is zero or a surrogate
   and the signature has at most 65535 bytes. `listed_passed_back_supplementary`: a name outside
   the basic plane.
-/

namespace JautoProf

open Wire Utf8 Peek ProfClient

/-! ## `get_class_methods` -/

namespace ProfClient

/-- The exceptions of `get_class_methods`: those of its reads, and a `RuntimeError` with its
text. -/
inductive ClassMethodsError
  | read (e : PyError)
  | runtimeError (text : Str)
deriving DecidableEq

theorem toNat_char_lt (c : Char) : c.toNat < 0x110000 := by
  rcases c.valid with h | ⟨-, h⟩
  · exact Nat.lt_trans h (by decide)
  · exact h

/-- A literal of Python. -/
def literal (s : String) : Str := s.toList.map fun c => ⟨c.toNat, toNat_char_lt c⟩

/-- `_CLASS_METHODS_STATUS_OK`. -/
def classMethodsStatusOk : Nat := 0

/-- `_CLASS_METHODS_STATUS_NOT_LOADED`. -/
def classMethodsStatusNotLoaded : Nat := 1

/-- `get_class_methods`, for the class that was asked for. -/
def getClassMethods (className : Str) (resp : UserMsg) :
    Except ClassMethodsError (List (List UInt8)) := do
  let body ← (expect .responseClassMethods resp).mapError .read
  if body.length < 4 then .error (.read (.valueError "response body too short"))
  else
    let status := ofLe (body.take 4)
    if status = classMethodsStatusNotLoaded then
      .error (.runtimeError (literal "no such class loaded: " ++ className))
    else if status ≠ classMethodsStatusOk then
      .error (.runtimeError (literal "get_class_methods failed"))
    else ((counted pstring).run (body.drop 4)).mapError .read

/-- The response for a class that is loaded. -/
theorem getClassMethods_ok (className : Str) (size : UInt32) (items : List UInt8) :
    getClassMethods className ⟨UserMsgType.responseClassMethods.code, size,
      le 4 classMethodsStatusOk ++ items⟩ = ((counted pstring).run items).mapError .read := by
  have hlen : ¬ (le 4 classMethodsStatusOk ++ items).length < 4 := by
    rw [List.length_append, le_length]
    omega
  rw [getClassMethods, expect, if_pos rfl]
  show (if (le 4 classMethodsStatusOk ++ items).length < 4 then
      .error (ClassMethodsError.read (.valueError "response body too short"))
    else ((counted pstring).run ((le 4 classMethodsStatusOk ++ items).drop 4)).mapError
      ClassMethodsError.read) = _
  rw [if_neg hlen, List.drop_left' (le_length 4 _)]

end ProfClient

/-! ## What the client reads -/

theorem length_le_stringsSize (l : List Pstring) : l.length ≤ stringsSize l := by
  induction l with
  | nil => exact Nat.zero_le 0
  | cons p l ih =>
    unfold stringsSize Pstring.totalSize at ih ⊢
    rw [List.length_cons, List.map_cons, List.sum_cons]
    omega

theorem bodySize_le {type : UserMsgType} {bodySize : Nat} {body : List UInt8} {ok : Bool}
    {msg : UserMsg} (h : sizedResponse type bodySize body ok = some msg) :
    bodySize ≤ uint32Max ∧ msg = ⟨type.code, UInt32.ofNat bodySize, body⟩ := by
  unfold sizedResponse at h
  split_ifs at h with hle hok
  exact ⟨Nat.not_lt.mp hle, (Option.some.inj h).symm⟩

/-- The client reads the names of all classes on the list. -/
theorem loaded_classes_read_back {classes : ClassInfoList} {ok : Bool} {msg : UserMsg}
    (h : uifRespondLoadedClasses classes ok = some msg) :
    getLoadedClasses msg = .ok ((loadedClassNames classes).map Pstring.str) := by
  obtain ⟨hsize, rfl⟩ := bodySize_le h
  have hlen : (loadedClassNames classes).length = classes.raw.count :=
    (List.length_map _).trans (entries_length classes.valid.linked)
  have hlt : (loadedClassNames classes).length < 256 ^ 4 := by
    have hle := length_le_stringsSize (loadedClassNames classes)
    unfold uint32Max at hsize
    omega
  rw [← hlen]
  exact listed_eq (fun p _ => reads_pstring p) hlt _ _

/-- The client reads the signatures of all methods of a class. -/
theorem class_methods_read_back {ci : ClassInfo} {ok : Bool} {msg : UserMsg} (className : Str)
    (h : uifRespondClassMethods (some ci) ok = some msg) :
    getClassMethods className msg = .ok (ci.methods.map Pstring.str) := by
  obtain ⟨hsize, rfl⟩ := bodySize_le h
  have hlt : ci.methods.length < 256 ^ 4 := by
    have hle := length_le_stringsSize ci.methods
    have hsize : 8 + stringsSize ci.methods ≤ uint32Max := hsize
    unfold uint32Max at hsize
    omega
  have hread := counted_run (fun p (_ : p ∈ ci.methods) => reads_pstring p) hlt
  refine (getClassMethods_ok className _ (le 4 ci.methods.length ++ writeStrings ci.methods)).trans ?_
  rw [writeStrings, hread]
  rfl

/-! ## What the server receives -/

variable {C : Type} (client : C)

/-- The call packs a request, and the server reads from it the names with these bytes. -/
def InstrumentReceived (className methodSig : Str) (c m : List UInt8) : Prop :=
  ∃ body, (Call.instrumentMethod className methodSig).pack = .ok body ∧
    ∀ mem : Nat → UInt8, bytesAt mem 0 body.length = body → ∃ c' m' : CStr, c'.val = c ∧ m'.val = m ∧
      run mem (psUifHandler client UserMsgType.requestInstrumentMethod.code body.length) =
        some (.usrRq client (.instrumentMethod c' m'))

variable {client} {s t : Str}

theorem pstringPack_eq {p : Pstring} (h : p.Encodes s) : pstringPack s = .ok p.bytes := by
  have hlen : packUnsigned 2 p.str.length = .ok (le 2 p.str.length) :=
    if_pos ⟨Int.natCast_nonneg _, by exact_mod_cast Nat.lt_succ_of_le p.size_le⟩
  rw [pstringPack, h]
  show (packUnsigned 2 p.str.length >>= fun len => pure (len ++ p.str)) = _
  rw [hlen]
  rfl

/-- A buffer with the bytes. -/
theorem bytesAt_getD (bs : List UInt8) : bytesAt (fun off => bs.getD off 0) 0 bs.length = bs := by
  refine bytesAt_of_getElem fun off hlt => ?_
  rw [List.getD, List.getElem?_eq_getElem hlt]
  rfl

theorem run_instrumentMethod {mem : Nat → UInt8} {p q : Pstring}
    (h : bytesAt mem 0 (p.bytes ++ q.bytes).length = p.bytes ++ q.bytes) :
    run mem (psUifHandler client UserMsgType.requestInstrumentMethod.code
      (p.bytes ++ q.bytes).length) = some (.usrRq client (.instrumentMethod p.cstr q.cstr)) := by
  refine psUifHandler_eq_some.mpr ⟨.instrumentMethod p q, rfl, ?_, rfl⟩
  rw [h]
  exact List.prefix_refl _

/-- The names are received as the encodings of the strings, up to a zero byte. -/
theorem instrumentReceived_iff {c m : List UInt8} :
    InstrumentReceived client s t c m ↔ ∃ p q : Pstring,
      p.Encodes s ∧ q.Encodes t ∧ p.cstr.val = c ∧ q.cstr.val = m := by
  constructor
  · rintro ⟨body, hpack, hreceived⟩
    obtain ⟨p, q, hp, hq, rfl⟩ := pstringPack_two hpack
    have hmem := bytesAt_getD (p.bytes ++ q.bytes)
    obtain ⟨c', m', rfl, rfl, hrun⟩ := hreceived _ hmem
    rw [run_instrumentMethod hmem] at hrun
    cases hrun
    exact ⟨p, q, hp, hq, rfl, rfl⟩
  · rintro ⟨p, q, hp, hq, rfl, rfl⟩
    refine ⟨p.bytes ++ q.bytes, ?_,
      fun mem hmem => ⟨p.cstr, q.cstr, rfl, rfl, run_instrumentMethod hmem⟩⟩
    show (pstringPack s >>= fun cs => pstringPack t >>= fun ms => pure (cs ++ ms)) = _
    rw [pstringPack_eq hp, pstringPack_eq hq]
    rfl

theorem Pstring.Encodes.plain {p : Pstring} {s : List UInt16} (h : p.Encodes t)
    (hc : p.cstr.val = modified s) : ∀ u ∈ s, IsPlain u := by
  have hsplit : modified s ++ p.str.dropWhile (· ≠ 0) = p.str := by
    rw [← hc]
    exact List.takeWhile_append_dropWhile
  exact plain_of_encode (h.trans (congrArg some hsplit.symm))

theorem encodes_plain {p : Pstring} {s : List UInt16} (hp : p.str = modified s)
    (h : ∀ u ∈ s, IsPlain u) : p.Encodes (decode (modified s)) ∧ p.cstr.val = modified s := by
  constructor
  · rw [Pstring.Encodes, hp]
    exact encode_decode_iff.mpr ⟨_, encode_modified h⟩
  · show p.str.takeWhile (· ≠ 0) = modified s
    rw [hp]
    exact List.takeWhile_eq_self_iff.mpr fun b hb => decide_eq_true (modified_ne_zero b hb)

/-! ## Passing back what was listed -/

/-- A name of the JVM as the C string that the server has of it. -/
def jvmName (s : List UInt16) : CStr := ⟨modified s, fun h => modified_ne_zero 0 h rfl⟩

/-- A method of a class on the list, and the responses by which the client is told of both; the
class has the methods that were found in its bytecode. `asked` is the argument of
`get_class_methods`. -/
structure Listing where
  classes : ClassInfoList
  classAt : Nat
  key : CStr
  ci : ClassInfo
  class_at : classes.entries[classAt]? = some (key, ci)
  heap : BcHeap
  listed : List RawPstring
  extracted : bcExtractMethods heap ci.bytecode [] = some (0, listed)
  methods : ci.methods = listed.map RawPstring.sent
  methodAt : Nat
  className : List UInt16
  name : List UInt16
  descriptor : List UInt16
  class_name : ci.name.str = modified className
  method_at : listed[methodAt]? = some (rawSignature (jvmName name) (jvmName descriptor))
  loadedClasses : UserMsg
  loaded_classes : uifRespondLoadedClasses classes true = some loadedClasses
  asked : Str
  classMethods : UserMsg
  class_methods : uifRespondClassMethods (some ci) true = some classMethods

namespace Listing

/-- The string that `get_loaded_classes` returns for the class. -/
def returnedClass (l : Listing) : Option Str := do
  let names ← (getLoadedClasses l.loadedClasses).toOption
  let value ← names[l.classAt]?
  return decode value

/-- The string that `get_class_methods` returns for the method. -/
def returnedSig (l : Listing) : Option Str := do
  let sigs ← (getClassMethods l.asked l.classMethods).toOption
  let value ← sigs[l.methodAt]?
  return decode value

/-- The bytes that are listed for the method. -/
def sent (l : Listing) : List UInt8 :=
  (rawSignature (jvmName l.name) (jvmName l.descriptor)).sent.str

/-- The returned strings make the server receive the bytes that it listed, and these are the name
and the descriptor of the method. -/
def PassedBack (l : Listing) (client : C) : Prop :=
  ∃ className methodSig, l.returnedClass = some className ∧ l.returnedSig = some methodSig ∧
    InstrumentReceived client className methodSig l.ci.name.str l.sent ∧
    l.sent = modified l.name ++ 58 :: modified l.descriptor

variable (l : Listing)

theorem returnedClass_eq : l.returnedClass = some (decode (modified l.className)) := by
  have hat : ((loadedClassNames l.classes).map Pstring.str)[l.classAt]? = some l.ci.name.str := by
    rw [loadedClassNames, List.getElem?_map, List.getElem?_map, l.class_at]
    rfl
  rw [returnedClass, loaded_classes_read_back l.loaded_classes, ← l.class_name]
  show (((loadedClassNames l.classes).map Pstring.str)[l.classAt]?).bind _ = _
  rw [hat]
  rfl

theorem returnedSig_eq : l.returnedSig = some (decode l.sent) := by
  have hat : (l.ci.methods.map Pstring.str)[l.methodAt]? = some l.sent := by
    rw [l.methods, List.getElem?_map, List.getElem?_map, l.method_at]
    rfl
  rw [returnedSig, class_methods_read_back l.asked l.class_methods]
  show ((l.ci.methods.map Pstring.str)[l.methodAt]?).bind _ = _
  rw [hat]
  rfl

theorem passedBack_iff : l.PassedBack client ↔
    InstrumentReceived client (decode (modified l.className)) (decode l.sent)
      (modified l.className) l.sent ∧ l.sent = modified l.name ++ 58 :: modified l.descriptor := by
  unfold PassedBack
  rw [returnedClass_eq, returnedSig_eq, l.class_name]
  simp only [Option.some.injEq]
  constructor
  · rintro ⟨_, _, rfl, rfl, h⟩
    exact h
  · exact fun h => ⟨_, _, rfl, rfl, h⟩

/-- The listed bytes are the whole signature, if their number fits. -/
theorem sent_whole : l.sent = modified l.name ++ 58 :: modified l.descriptor ↔
    (modified l.name).length + 1 + (modified l.descriptor).length ≤ pstrMax := by
  constructor
  · intro h
    have hle : l.sent.length ≤ pstrMax := Pstring.size_le _
    rw [h, List.length_append, List.length_cons] at hle
    omega
  · exact fun h => RawPstring.sent_str ((rawSignature_exact (jvmName _) (jvmName _)).mpr h)

/-- The colon is plain. -/
theorem modified_signature (s s' : List UInt16) :
    modified s ++ 58 :: modified s' = modified (s ++ 58 :: s') := by
  rw [modified, modified, modified, List.flatMap_append, List.flatMap_cons]
  rfl

theorem plain_of_passedBack (h : l.PassedBack client) :
    ∀ u ∈ l.className ++ (l.name ++ 58 :: l.descriptor), IsPlain u := by
  obtain ⟨hreceived, hwhole⟩ := l.passedBack_iff.mp h
  obtain ⟨p, q, hp, hq, hclass, hsig⟩ := instrumentReceived_iff.mp hreceived
  rw [hwhole, modified_signature] at hsig
  exact List.forall_mem_append.mpr ⟨hp.plain hclass, hq.plain hsig⟩

end Listing

/-- For every method that was listed to the client: what `get_loaded_classes` and
`get_class_methods` return for it makes `instrument_method` send to the server the bytes that the
server listed, and these are the name and the descriptor of the method, exactly if no unit of the
names and of the descriptor is zero or a surrogate and the signature has at most 65535 bytes. -/
theorem listed_passed_back (client : C) (l : Listing) :
    l.PassedBack client ↔ (∀ u ∈ l.className ++ (l.name ++ 58 :: l.descriptor), IsPlain u) ∧
      (modified l.name).length + 1 + (modified l.descriptor).length ≤ pstrMax := by
  constructor
  · exact fun h => ⟨l.plain_of_passedBack h, l.sent_whole.mp (l.passedBack_iff.mp h).2⟩
  · rintro ⟨hplain, hsize⟩
    obtain ⟨hclass, hsig⟩ := List.forall_mem_append.mp hplain
    have hwhole := l.sent_whole.mpr hsize
    have hsent := hwhole.trans (Listing.modified_signature _ _)
    obtain ⟨hp, hpc⟩ := encodes_plain l.class_name hclass
    obtain ⟨hq, hqc⟩ := encodes_plain (p := (rawSignature (jvmName l.name)
      (jvmName l.descriptor)).sent) hsent hsig
    rw [← hsent] at hq hqc
    exact l.passedBack_iff.mpr
      ⟨instrumentReceived_iff.mpr ⟨_, _, hp, hq, hpc, hqc⟩, hwhole⟩

/-! ## A name outside the basic plane -/

/-- U+1D465, as its two surrogates. -/
def italicX : List UInt16 := [0xD835, 0xDC65]

theorem italicX_lt : (jvmName italicX).val.length < 65536 := by decide

/-- A class file with the one method, and the descriptor `()V`. -/
def italicMethod : ClassFile := oneMethod (jvmName italicX) voidDesc italicX_lt voidDesc_lt

/-- The string that is listed for the method. -/
def italicSignature : RawPstring := rawSignature (jvmName italicX) (jvmName [40, 41, 86])

/-- The class `A` with the method. -/
def italicClass : ClassInfo := ciAlloc classA italicMethod.encode [italicSignature.sent] none

/-- The class `A` is the only one on the list. -/
def italicClasses : ClassInfoList := ciListAdd (.init classTabOpts) italicClass true true

theorem italicClass_at : italicClasses.entries[0]? = some (classA.cstr, italicClass) := by decide

theorem italicClass_extracted :
    bcExtractMethods ampleHeap italicMethod.encode [] = some (0, [italicSignature]) :=
  bcExtractMethods_oneMethod _ _ _ _

theorem italicClasses_listed : uifRespondLoadedClasses italicClasses true =
    some ⟨UserMsgType.responseLoadedClasses.code, 7, [1, 0, 0, 0, 1, 0, 65]⟩ := by decide

theorem italicMethods_listed : uifRespondClassMethods (some italicClass) true =
    some ⟨UserMsgType.responseClassMethods.code, 20, [0, 0, 0, 0, 1, 0, 0, 0, 10, 0,
      0xED, 0xA0, 0xB5, 0xED, 0xB1, 0xA5, 58, 40, 41, 86]⟩ := by decide

def italicListing : Listing where
  classes := italicClasses
  classAt := 0
  key := classA.cstr
  ci := italicClass
  class_at := italicClass_at
  heap := ampleHeap
  listed := [italicSignature]
  extracted := italicClass_extracted
  methods := rfl
  methodAt := 0
  className := [65]
  name := italicX
  descriptor := [40, 41, 86]
  class_name := rfl
  method_at := rfl
  loadedClasses := _
  loaded_classes := italicClasses_listed
  asked := [pointOf 65]
  classMethods := _
  class_methods := italicMethods_listed

/-- The method cannot be instrumented by its listed signature. -/
theorem listed_passed_back_supplementary : ¬ italicListing.PassedBack () := by
  intro h
  have hplain := italicListing.plain_of_passedBack h
  exact absurd (hplain 0xD835 (by decide)) (by decide)

end JautoProf
