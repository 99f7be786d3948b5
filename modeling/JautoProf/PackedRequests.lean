import JautoProf.ProfClient
import JautoProf.PsUifHandler

/-!
# Requests from the Python client to the event

Results:
1. `pack_body`: a packed body is the body of a request with the arguments of the call.
2. `request_decoding`: what the decoders read, what they accept, and that the event
   carries what the client packed.
-/

namespace JautoProf

open Wire Utf8 Peek ProfClient

/-! ## The packed bodies -/

/-- The string holds the encoding of a string of the client. -/
def Pstring.Encodes (p : Pstring) (s : Str) : Prop := encode s = some p.str

/-- The request has the arguments of the call. -/
inductive Request.Packs : Request → Call → Prop
  | getLoadedClasses : Packs .loadedClasses .getLoadedClasses
  | getClassMethods {c : Pstring} {s : Str} (h : c.Encodes s) :
    Packs (.classMethods c) (.getClassMethods s)
  | instrumentMethod {c m : Pstring} {s t : Str} (hs : c.Encodes s) (ht : m.Encodes t) :
    Packs (.instrumentMethod c m) (.instrumentMethod s t)
  | getStats : Packs .getStats .getStats
  | deinstrumentMethod {c m : Pstring} {s t : Str} (hs : c.Encodes s) (ht : m.Encodes t) :
    Packs (.deinstrumentMethod c m) (.deinstrumentMethod s t)
  | shutdown : Packs .shutdown .shutdown
  | resume : Packs .resume .resume
  | pauseThreads : Packs .pauseThreads .pauseThreads
  | getInstruments : Packs .listInstrumented .getInstruments
  | getAsyncErrors : Packs .getAsyncErrors .getAsyncErrors
  | deinstrumentById (i : UInt64) : Packs (.deinstrumentById i) (.deinstrumentById i.toNat)
  | instrumentLine {c d : Pstring} {s t : Str} (hs : c.Encodes s) (ht : d.Encodes t)
      (entryLine exitLine : UInt32) :
    Packs (.instrumentLine entryLine exitLine c d)
      (.instrumentLine s t entryLine.toNat exitLine.toNat)
  | getStatus : Packs .getStatus .getStatus

theorem bind_eq_ok {ε α β : Type} {x : Except ε α} {f : α → Except ε β} {b : β} :
    (x >>= f) = .ok b ↔ ∃ a, x = .ok a ∧ f a = .ok b := by
  cases x <;> simp [Bind.bind, Except.bind]

theorem pure_eq_ok {ε α : Type} {a b : α} : (pure a : Except ε α) = .ok b ↔ a = b := by
  simp [pure, Except.pure]

theorem packUnsigned_ok {n : Nat} {x : Int} {bs : List UInt8} (h : packUnsigned n x = .ok bs) :
    ∃ k : Nat, k < 256 ^ n ∧ x = k ∧ bs = le n k := by
  unfold packUnsigned at h
  split at h
  · rename_i hx
    obtain ⟨k, rfl⟩ := Int.eq_ofNat_of_zero_le hx.1
    refine ⟨k, ?_, rfl, (Except.ok.inj h).symm⟩
    exact_mod_cast hx.2
  · cases h

theorem pstringPack_ok {s : Str} {bs : List UInt8} (h : pstringPack s = .ok bs) :
    ∃ p : Pstring, p.Encodes s ∧ bs = p.bytes := by
  unfold pstringPack at h
  split at h
  · cases h
  · rename_i encoded hs
    obtain ⟨len, hlen, hbs⟩ := bind_eq_ok.mp h
    obtain ⟨k, hk, hlk, rfl⟩ := packUnsigned_ok hlen
    obtain rfl : encoded.length = k := by exact_mod_cast hlk
    have hle : encoded.length ≤ pstrMax := Nat.le_of_lt_succ hk
    exact ⟨⟨encoded, hle⟩, hs, (pure_eq_ok.mp hbs).symm⟩

theorem pstringPack_two {s t : Str} {bs : List UInt8}
    (h : (do return (← pstringPack s) ++ (← pstringPack t)) = Except.ok bs) :
    ∃ c m : Pstring, c.Encodes s ∧ m.Encodes t ∧ bs = c.bytes ++ m.bytes := by
  obtain ⟨cs, hcs, h⟩ := bind_eq_ok.mp h
  obtain ⟨ms, hms, h⟩ := bind_eq_ok.mp h
  obtain ⟨c, hc, rfl⟩ := pstringPack_ok hcs
  obtain ⟨m, hm, rfl⟩ := pstringPack_ok hms
  exact ⟨c, m, hc, hm, (pure_eq_ok.mp h).symm⟩

/-- A packed body is the body of a request with the arguments of the call. -/
theorem pack_body {call : Call} {body : List UInt8} (h : call.pack = .ok body) :
    ∃ r : Request, r.Packs call ∧ r.type = call.type ∧ r.body = body := by
  cases call with
  | getLoadedClasses => exact ⟨_, .getLoadedClasses, rfl, Except.ok.inj h⟩
  | getStats => exact ⟨_, .getStats, rfl, Except.ok.inj h⟩
  | shutdown => exact ⟨_, .shutdown, rfl, Except.ok.inj h⟩
  | resume => exact ⟨_, .resume, rfl, Except.ok.inj h⟩
  | pauseThreads => exact ⟨_, .pauseThreads, rfl, Except.ok.inj h⟩
  | getInstruments => exact ⟨_, .getInstruments, rfl, Except.ok.inj h⟩
  | getAsyncErrors => exact ⟨_, .getAsyncErrors, rfl, Except.ok.inj h⟩
  | getStatus => exact ⟨_, .getStatus, rfl, Except.ok.inj h⟩
  | getClassMethods className =>
    obtain ⟨p, hp, rfl⟩ := pstringPack_ok h
    exact ⟨_, .getClassMethods hp, rfl, rfl⟩
  | instrumentMethod className methodSig =>
    obtain ⟨c, m, hc, hm, rfl⟩ := pstringPack_two h
    exact ⟨_, .instrumentMethod hc hm, rfl, rfl⟩
  | deinstrumentMethod className methodSig =>
    obtain ⟨c, m, hc, hm, rfl⟩ := pstringPack_two h
    exact ⟨_, .deinstrumentMethod hc hm, rfl, rfl⟩
  | deinstrumentById instrumentId =>
    obtain ⟨k, hk, rfl, rfl⟩ := packUnsigned_ok h
    have hid : (UInt64.ofNat k).toNat = k := UInt64.toNat_ofNat_of_lt' hk
    have hpacks := Request.Packs.deinstrumentById (UInt64.ofNat k)
    rw [hid] at hpacks
    exact ⟨_, hpacks, rfl, by rw [Request.body, hid]⟩
  | instrumentLine entryClass exitClass entryLine exitLine =>
    obtain ⟨es, hes, h⟩ := bind_eq_ok.mp h
    obtain ⟨xs, hxs, h⟩ := bind_eq_ok.mp h
    obtain ⟨cs, hcs, h⟩ := bind_eq_ok.mp h
    obtain ⟨ds, hds, h⟩ := bind_eq_ok.mp h
    obtain ⟨e, he, rfl, rfl⟩ := packUnsigned_ok hes
    obtain ⟨x, hx, rfl, rfl⟩ := packUnsigned_ok hxs
    obtain ⟨c, hc, rfl⟩ := pstringPack_ok hcs
    obtain ⟨d, hd, rfl⟩ := pstringPack_ok hds
    have hpacks := Request.Packs.instrumentLine hc hd (UInt32.ofNat e) (UInt32.ofNat x)
    have het : (UInt32.ofNat e).toNat = e := UInt32.toNat_ofNat_of_lt' he
    have hxt : (UInt32.ofNat x).toNat = x := UInt32.toNat_ofNat_of_lt' hx
    rw [het, hxt] at hpacks
    refine ⟨_, hpacks, rfl, ?_⟩
    rw [Request.body, het, hxt, ← pure_eq_ok.mp h]
    simp only [List.append_assoc]

/-! ## The events -/

/-- The strings among the arguments. -/
def ProfClient.Call.strings : Call → List Str
  | .getClassMethods className => [className]
  | .instrumentMethod className methodSig => [className, methodSig]
  | .deinstrumentMethod className methodSig => [className, methodSig]
  | .instrumentLine entryClass exitClass _ _ => [entryClass, exitClass]
  | _ => []

/-- The event carries the arguments of the call. -/
inductive PsMsg.Carries {C : Type} (client : C) : PsMsg C → Call → Prop
  | getLoadedClasses : Carries client (.usrRq client .loadedClasses) .getLoadedClasses
  | getClassMethods {c : CStr} {s : Str} (hs : encode s = some c.val) :
    Carries client (.usrRq client (.classMethods c)) (.getClassMethods s)
  | instrumentMethod {c m : CStr} {s t : Str} (hs : encode s = some c.val)
      (ht : encode t = some m.val) :
    Carries client (.usrRq client (.instrumentMethod c m)) (.instrumentMethod s t)
  | getStats : Carries client (.usrRq client .getStats) .getStats
  | deinstrumentMethod {c m : CStr} {s t : Str} (hs : encode s = some c.val)
      (ht : encode t = some m.val) :
    Carries client (.usrRq client (.deinstrumentMethod c m)) (.deinstrumentMethod s t)
  | shutdown : Carries client (.shutdownRequest 0 usrShutdownMsg) .shutdown
  | resume : Carries client (.usrRq client .resume) .resume
  | pauseThreads : Carries client (.usrRq client .pauseThreads) .pauseThreads
  | getInstruments : Carries client (.usrRq client .listInstrumented) .getInstruments
  | getAsyncErrors : Carries client (.usrRq client .getAsyncErrors) .getAsyncErrors
  | deinstrumentById (i : Nat) :
    Carries client (.usrRq client (.deinstrumentById i)) (.deinstrumentById i)
  | instrumentLine {c d : Pstring} {s t : Str} (hs : encode s = some c.str)
      (ht : encode t = some d.str) (entryLine exitLine : UInt32) :
    Carries client (.usrRq client (.instrumentLine c d entryLine exitLine))
      (.instrumentLine s t entryLine.toNat exitLine.toNat)
  | getStatus : Carries client (.usrRq client .getStatus) .getStatus

/-- A string without U+0000 is not cut when it becomes a C string. -/
theorem Pstring.Encodes.cstr {p : Pstring} {s : Str} (h : p.Encodes s) (h0 : ∀ c ∈ s, c ≠ 0) :
    encode s = some p.cstr.val := by
  have hne := encode_ne_zero h h0
  have hall : p.cstr.val = p.str := by
    refine List.takeWhile_eq_self_iff.mpr fun b hb => ?_
    simpa using hne b hb
  rw [h, hall]

theorem Request.Packs.carries {C : Type} (client : C) {r : Request} {call : Call}
    (h : r.Packs call) (h0 : ∀ s ∈ call.strings, ∀ c ∈ s, c ≠ 0) :
    (r.event client).Carries client call := by
  cases h with
  | getClassMethods hs => exact .getClassMethods (hs.cstr (h0 _ List.mem_cons_self))
  | instrumentMethod hs ht =>
    exact .instrumentMethod (hs.cstr (h0 _ List.mem_cons_self))
      (ht.cstr (h0 _ (List.mem_cons_of_mem _ List.mem_cons_self)))
  | deinstrumentMethod hs ht =>
    exact .deinstrumentMethod (hs.cstr (h0 _ List.mem_cons_self))
      (ht.cstr (h0 _ (List.mem_cons_of_mem _ List.mem_cons_self)))
  | deinstrumentById i => exact .deinstrumentById i.toNat
  | instrumentLine hs ht entryLine exitLine => exact .instrumentLine hs ht entryLine exitLine
  | _ => constructor

/-- The decoders of the server, on any buffer: they read the declared bytes only; they
enqueue an event exactly when these start with the fields of a request of the type, and
then the event of that request; nothing behind the declared bytes changes that. On a body
that the Python client packed from strings without U+0000 they enqueue an event that
carries the arguments of the call. -/
theorem request_decoding {C : Type} (client : C) (mem : Nat → UInt8) (size : Nat) :
    (∀ type : UInt32,
      (∀ off ∈ (psUifHandler client type size).reads mem, off < size) ∧
      (∀ ev, run mem (psUifHandler client type size) = some ev ↔ ∃ r : Request,
        r.type.code = type ∧ r.body <+: bytesAt mem 0 size ∧ r.event client = ev) ∧
      ∀ mem' : Nat → UInt8, (∀ off < size, mem' off = mem off) →
        run mem' (psUifHandler client type size) = run mem (psUifHandler client type size)) ∧
    ∀ call : Call, call.pack = .ok (bytesAt mem 0 size) →
      (∀ s ∈ call.strings, ∀ c ∈ s, c ≠ 0) →
      ∃ ev, run mem (psUifHandler client call.type.code size) = some ev ∧
        ev.Carries client call := by
  refine ⟨fun type => ⟨below_psUifHandler client mem type size, fun ev => psUifHandler_eq_some,
    fun mem' h => psUifHandler_congr client type h⟩, fun call hpack h0 => ?_⟩
  obtain ⟨r, hpacks, htype, hbody⟩ := pack_body hpack
  refine ⟨r.event client, ?_, hpacks.carries client h0⟩
  exact psUifHandler_eq_some.mpr ⟨r, by rw [htype], hbody ▸ List.prefix_refl _, rfl⟩

/-- A buffer whose body is followed by bytes of an earlier message. -/
def staleBuffer (body : List UInt8) (off : Nat) : UInt8 := body.getD off 255

theorem request_decoding_line :
    ∃ ev, run (staleBuffer [1, 0, 0, 0, 2, 0, 0, 0, 1, 0, 65, 1, 0, 66])
        (psUifHandler () UserMsgType.requestInstrumentLine.code 14) = some ev ∧
      ev.Carries () (.instrumentLine [65] [66] 1 2) :=
  (request_decoding () _ 14).2 (.instrumentLine [65] [66] 1 2) rfl (by
    simp only [Call.strings, List.forall_mem_cons, List.not_mem_nil]
    simp)

end JautoProf
