import JautoProf.Lib.Retry
import JautoProf.ProfErrLog

/-!
# The log (`util/log.c`)

`log_write` prints a prefix and then the message into one buffer, `log_buf`, which it doubles and
prints to again while a text does not fit. A byte stored outside the buffer, and a sum that an
`int` cannot hold, are undefined. The buffer stays for the next call of the thread. What the code
passes to `write` is modelled; how much of it `write` takes, which the code does not look at, is not.

Results:
1. `LogBuf.Sized.logWrite`: the capacities that a call leaves behind, whatever fails in it.
2. `log_write_exact_iff`: where the allocations succeed a call ends, stores within the buffer and
   writes the prefix, the message and a newline, unless their length is more than an `int` can
   hold. `log_write_overflow`: such a message.
-/

namespace JautoProf

/-- `enum log_level`. -/
inductive LogLevel
  | off
  | error
  | warn
  | info
  | debug
deriving DecidableEq

namespace LogLevel

def value : LogLevel → Int
  | off => -1
  | error => 0
  | warn => 1
  | info => 2
  | debug => 3

/-- `level_str`; its default is for no level of the enumeration. -/
def str : LogLevel → List UInt8
  | off => ascii "OFF"
  | error => ascii "ERROR"
  | warn => ascii "WARN "
  | info => ascii "INFO "
  | debug => ascii "DEBUG"

end LogLevel

/-- `log_buf` and `log_buf_cap`. -/
structure LogBuf where
  buf : Option (List UInt8)
  cap : Nat
  length_buf : (buf.getD []).length = cap

namespace LogBuf

/-- The buffer of a thread that has not logged yet. -/
def empty : LogBuf := ⟨none, 0, rfl⟩

def bytes (b : LogBuf) : List UInt8 := b.buf.getD []

/-- The block with the bytes stored from `off` on. -/
def overwrite (off : Nat) (bs p : List UInt8) : List UInt8 :=
  p.take off ++ bs ++ p.drop (off + bs.length)

theorem length_overwrite {off : Nat} {bs p : List UInt8} (h : off + bs.length ≤ p.length) :
    (overwrite off bs p).length = p.length := by
  unfold overwrite
  rw [List.length_append, List.length_append, List.length_take, List.length_drop]
  omega

theorem take_overwrite {off k : Nat} {bs p : List UInt8} (hoff : off ≤ p.length)
    (hk : k ≤ bs.length) : (overwrite off bs p).take (off + k) = p.take off ++ bs.take k := by
  have hlength : (p.take off).length = off := List.length_take_of_le hoff
  unfold overwrite
  rw [List.append_assoc]
  nth_rewrite 1 [← hlength]
  rw [List.take_length_add_append, List.take_append_of_le_length hk]

/-- Store the bytes from `off` on; `none` when one of them is outside the buffer. -/
def store (b : LogBuf) (off : Nat) (bs : List UInt8) : Option LogBuf :=
  if h : off + bs.length ≤ b.cap then
    some ⟨some (overwrite off bs b.bytes), b.cap,
      (length_overwrite (h.trans_eq b.length_buf.symm)).trans b.length_buf⟩
  else none

theorem length_bytes (b : LogBuf) : b.bytes.length = b.cap := b.length_buf

theorem store_eq {b : LogBuf} {off : Nat} {bs : List UInt8} (h : off + bs.length ≤ b.cap) :
    ∃ b', b.store off bs = some b' ∧ b'.cap = b.cap ∧
      ∀ k ≤ bs.length, b'.bytes.take (off + k) = b.bytes.take off ++ bs.take k := by
  unfold store
  rw [dif_pos h]
  refine ⟨_, rfl, rfl, fun k hk => take_overwrite ?_ hk⟩
  rw [b.length_bytes]
  omega

end LogBuf

/-- `realloc`, with what is documented of it; a null pointer is a block without bytes. -/
structure Allocator where
  realloc : List UInt8 → Nat → Option (List UInt8)
  length_realloc : ∀ {p size q}, realloc p size = some q → q.length = size
  take_realloc : ∀ {p size q}, realloc p size = some q → q.take p.length = p.take size

/-- The allocations succeed. -/
def Allocator.Succeeds (a : Allocator) : Prop := ∀ p size, size < 2 ^ 63 → (a.realloc p size).isSome

/-- Why `log_write` does not write: it returns, and leaves the buffer, or is undefined. -/
inductive LogExit
  | returned (b : LogBuf)
  | undefined

/-- What a call of `log_write` prints: the time as `strftime` prints it, the tag, and the expansion
of the format. -/
structure LogCall where
  level : LogLevel
  time : CStr
  tvNsec : Nat
  tag : CStr
  msg : List UInt8

/-- `"%s.%03ld %s [%s] "`. -/
def LogCall.prefixText (c : LogCall) : List UInt8 :=
  c.time.val ++ ascii "." ++ List.leftpad 3 48 (ascii (toString (c.tvNsec / 1000000))) ++
    ascii " " ++ c.level.str ++ ascii " [" ++ c.tag.val ++ ascii "] "

namespace Log

open Retry ErrLog

/-! ## The code -/

/-- `LOG_INITIAL_BUF`. -/
def logInitialBuf : Nat := 1024

/-- `grow_buf`; the capacity is a `size_t`. -/
def growBuf (a : Allocator) (b : LogBuf) : Option LogBuf :=
  let newCap := if b.cap = 0 then logInitialBuf else b.cap * 2 % 2 ^ 64
  match h : a.realloc b.bytes newCap with
  | none => none
  | some p => some ⟨some p, newCap, a.length_realloc h⟩

/-- `snprintf(log_buf + off, size, ..)`: the buffer after it and its result, if that is not
negative. Nothing reads what a failed one leaves in the buffer. -/
def snprintf (b : LogBuf) (off size : Nat) (text : List UInt8) : Option (LogBuf × Option Nat) :=
  match vsnprintf size text with
  | none => some (b, none)
  | some (len, printed) =>
    (b.store off (if size = 0 then [] else printed ++ [0])).map fun b => (b, some len)

/-- A round of a loop of `log_write`; `fits` says whether the text fits. -/
def printRound (a : Allocator) (text : List UInt8) (off : Nat) (size : Nat → Nat)
    (fits : Nat → Nat → Bool) (b : LogBuf) : Round LogBuf (LogBuf × Nat) LogExit :=
  match snprintf b off (size b.cap) text with
  | none => .exit .undefined
  | some (b, none) => .exit (.returned b)
  | some (b, some len) =>
    if fits len b.cap then .done (b, len)
    else
      match growBuf a b with
      | none => .exit (.returned b)
      | some b => .again b

/-- The first loop. -/
def prefixRound (a : Allocator) (text : List UInt8) :
    LogBuf → Round LogBuf (LogBuf × Nat) LogExit :=
  printRound a text 0 (fun cap => cap) fun prefixLen cap => decide (prefixLen < cap)

/-- `msg_cap`, a `size_t`. -/
def msgCap (cap prefixLen : Nat) : Nat := (cap + 2 ^ 64 - (prefixLen + 1)) % 2 ^ 64

/-- The second loop. -/
def messageRound (a : Allocator) (text : List UInt8) (prefixLen : Nat) :
    LogBuf → Round LogBuf (LogBuf × Nat) LogExit :=
  printRound a text prefixLen (fun cap => (msgCap cap prefixLen + 1) % 2 ^ 64)
    fun msgLen cap => decide (msgLen ≤ msgCap cap prefixLen)

/-- The sum of two numbers of the type `int` that are not negative. -/
def addInt (m n : Nat) : ExceptT LogExit Option Nat :=
  if m + n ≤ intMax then pure (m + n) else throw .undefined

/-- What comes after the loops; the result is what is passed to `write`. -/
def finishLine (b : LogBuf) (prefixLen msgLen : Nat) :
    ExceptT LogExit Option (LogBuf × List UInt8) := do
  let total ← addInt prefixLen msgLen
  match b.store total [10] with
  | none => throw .undefined
  | some b => do
    let size ← addInt total 1
    pure (b, b.bytes.take size)

/-- The loops and what comes after them. -/
def printLine (a : Allocator) (prefixText msg : List UInt8) (fuel : Nat) (b : LogBuf) :
    ExceptT LogExit Option (LogBuf × List UInt8) := do
  let r ← loop (prefixRound a prefixText) fuel b
  let s ← loop (messageRound a msg r.2) fuel r.1
  finishLine s.1 r.2 s.2

/-- `log_write`, with at most `fuel` rounds of each loop. -/
def logWrite (a : Allocator) (threshold : LogLevel) (c : LogCall) (fuel : Nat) (b : LogBuf) :
    ExceptT LogExit Option (LogBuf × List UInt8) :=
  if threshold.value < c.level.value then throw (.returned b)
  else
    match if b.buf.isNone then growBuf a b else some b with
    | none => throw (.returned b)
    | some b => printLine a c.prefixText c.msg fuel b

/-! ## The buffer -/

/-- The capacities of a buffer that was allocated: it grows only while two texts whose lengths are
`int`s do not fit in it. -/
def Allocated (b : LogBuf) : Prop := logInitialBuf ≤ b.cap ∧ b.cap < 2 ^ 33

theorem Allocated.of_cap {b b' : LogBuf} (h : Allocated b) (hcap : b'.cap = b.cap) :
    Allocated b' := by
  unfold Allocated
  rwa [hcap]

theorem growBuf_eq {a : Allocator} {b b' : LogBuf} (h : growBuf a b = some b') :
    b'.cap = (if b.cap = 0 then logInitialBuf else b.cap * 2 % 2 ^ 64) ∧
      b'.bytes.take b.cap = b.bytes.take b'.cap := by
  unfold growBuf at h
  simp only at h
  split at h
  · cases h
  · next p hp =>
    obtain rfl := Option.some.inj h
    have htake := a.take_realloc hp
    rw [b.length_bytes] at htake
    exact ⟨rfl, htake⟩

/-- `grow_buf` doubles the capacity and keeps the bytes. -/
theorem growBuf_allocated {a : Allocator} {b b' : LogBuf} (hb : Allocated b)
    (h : growBuf a b = some b') : b'.cap = 2 * b.cap ∧ b'.bytes.take b.cap = b.bytes := by
  obtain ⟨hcap, htake⟩ := growBuf_eq h
  obtain ⟨hlow, hhigh⟩ := hb
  unfold logInitialBuf at hlow
  rw [if_neg (by omega), Nat.mod_eq_of_lt (by omega)] at hcap
  refine ⟨by omega, htake.trans (List.take_of_length_le ?_)⟩
  rw [b.length_bytes]
  omega

theorem growBuf_isSome {a : Allocator} (ha : a.Succeeds) {b : LogBuf} (hb : b.cap < 2 ^ 33) :
    (growBuf a b).isSome := by
  have hsize : (if b.cap = 0 then logInitialBuf else b.cap * 2 % 2 ^ 64) < 2 ^ 63 := by
    unfold logInitialBuf
    split <;> omega
  have hp := ha b.bytes _ hsize
  unfold growBuf
  simp only
  split
  · next hnone => rw [hnone] at hp; cases hp
  · rfl

/-! ## A round -/

/-- The text is printed into what the buffer has from `off` on, and fits with its terminator. -/
def Suits (off : Nat) (size : Nat → Nat) (fits : Nat → Nat → Bool) : Prop :=
  ∀ cap, off < cap → cap < 2 ^ 33 →
    size cap = cap - off ∧ ∀ len, fits len cap = decide (off + len < cap)

theorem prefix_suits : Suits 0 (fun cap => cap) fun len cap => decide (len < cap) := by
  intro cap _ _
  simp

/-- The byte that the second loop reserves for the newline is the one of the terminator. -/
theorem message_suits (prefixLen : Nat) :
    Suits prefixLen (fun cap => (msgCap cap prefixLen + 1) % 2 ^ 64)
      fun len cap => decide (len ≤ msgCap cap prefixLen) := by
  intro cap hlow hhigh
  have hmsg : msgCap cap prefixLen = cap - (prefixLen + 1) := by
    unfold msgCap
    omega
  refine ⟨?_, fun len => ?_⟩
  · show (msgCap cap prefixLen + 1) % 2 ^ 64 = _
    omega
  · show decide (len ≤ msgCap cap prefixLen) = _
    rw [hmsg, decide_eq_decide]
    omega

theorem snprintf_eq {b : LogBuf} {off : Nat} {text : List UInt8} (hoff : off < b.cap)
    (hlen : text.length ≤ intMax) :
    ∃ b', snprintf b off (b.cap - off) text = some (b', some text.length) ∧ b'.cap = b.cap ∧
      b'.bytes.take off = b.bytes.take off ∧
      (off + text.length < b.cap →
        b'.bytes.take (off + text.length) = b.bytes.take off ++ text) := by
  unfold snprintf vsnprintf
  rw [if_pos hlen]
  simp only
  rw [if_neg (by omega)]
  have hfit : off + (text.take (b.cap - off - 1) ++ [0]).length ≤ b.cap := by
    rw [List.length_append, List.length_take, List.length_singleton]
    omega
  obtain ⟨b', hstore, hcap, htake⟩ := LogBuf.store_eq hfit
  rw [hstore]
  refine ⟨b', rfl, hcap, ?_, fun hroom => ?_⟩
  · simpa using htake 0 (Nat.zero_le _)
  · rw [List.take_of_length_le (show text.length ≤ b.cap - off - 1 by omega)] at htake
    simpa using htake text.length (by simp)

section Rounds

variable {a : Allocator} {text : List UInt8} {off : Nat} {size : Nat → Nat}
  {fits : Nat → Nat → Bool} {b : LogBuf}

/-- A text that is too long for an `int` ends the loop. -/
theorem printRound_long (hlen : intMax < text.length) :
    printRound a text off size fits b = .exit (.returned b) := by
  unfold printRound snprintf vsnprintf
  rw [if_neg (Nat.not_le.mpr hlen)]

/-- Another one is printed: it fits, or the buffer grows. -/
theorem printRound_cases (hsuits : Suits off size fits) (hoff : off < b.cap) (hcap : b.cap < 2 ^ 33)
    (hlen : text.length ≤ intMax) :
    ∃ b₁, b₁.cap = b.cap ∧ b₁.bytes.take off = b.bytes.take off ∧
      ((off + text.length < b.cap ∧
          b₁.bytes.take (off + text.length) = b.bytes.take off ++ text ∧
          printRound a text off size fits b = .done (b₁, text.length)) ∨
        (b.cap ≤ off + text.length ∧ printRound a text off size fits b =
          match growBuf a b₁ with
          | none => .exit (.returned b₁)
          | some b₂ => .again b₂)) := by
  obtain ⟨hsize, hfits⟩ := hsuits b.cap hoff hcap
  obtain ⟨b₁, hprint, hcap₁, hkept, hroom⟩ := snprintf_eq hoff hlen
  refine ⟨b₁, hcap₁, hkept, ?_⟩
  unfold printRound
  rw [hsize, hprint]
  simp only [hcap₁, hfits, decide_eq_true_eq]
  by_cases hfit : off + text.length < b.cap
  · exact .inl ⟨hfit, hroom hfit, if_pos hfit⟩
  · exact .inr ⟨Nat.not_lt.mp hfit, if_neg hfit⟩

/-- The buffer is allocated, and `off` bytes of it have been printed. -/
def Printed (off : Nat) (kept : List UInt8) (b : LogBuf) : Prop :=
  Allocated b ∧ off < b.cap ∧ b.bytes.take off = kept

theorem Printed.grow {kept : List UInt8} (h : Printed off kept b) {b' : LogBuf}
    (hsmall : b.cap ≤ off + text.length) (hoff : off ≤ intMax) (hlen : text.length ≤ intMax)
    (hgrow : growBuf a b = some b') : Printed off kept b' ∧ b.cap < b'.cap := by
  obtain ⟨hb, hlow, hkept⟩ := h
  obtain ⟨hcap, htake⟩ := growBuf_allocated hb hgrow
  obtain ⟨hinit, -⟩ := hb
  unfold intMax at hoff hlen
  -- the buffer was too small for two lengths of the type `int`, so twice of it is below 2 ^ 33
  refine ⟨⟨⟨by omega, by omega⟩, by omega, ?_⟩, by unfold logInitialBuf at hinit; omega⟩
  rw [← hkept, ← htake, List.take_take, Nat.min_eq_left hlow.le]

/-- The text was printed after what was printed before. -/
def PrintedNext (text : List UInt8) (off : Nat) (kept : List UInt8) (r : LogBuf × Nat) : Prop :=
  r.2 = text.length ∧ text.length ≤ intMax ∧ Printed (off + text.length) (kept ++ text) r.1

/-- An exit that leaves an allocated buffer, if any, and that `good` excludes. -/
def Fails (good : Prop) (e : LogExit) : Prop := (∀ b, e = .returned b → Allocated b) ∧ ¬ good

theorem Fails.mono {good good' : Prop} {e : LogExit} (h : Fails good e) (himp : good' → good) :
    Fails good' e :=
  ⟨h.1, fun h' => h.2 (himp h')⟩

theorem fails_returned {good : Prop} (hb : Allocated b) (h : ¬ good) : Fails good (.returned b) :=
  ⟨fun b' heq => by cases heq; exact hb, h⟩

theorem fails_undefined {good : Prop} (h : ¬ good) : Fails good .undefined := ⟨nofun, h⟩

variable (a text) {kept : List UInt8}

/-- A round prints the text, or the buffer was too small and has grown, or something failed. -/
theorem printRound_leaves (hsuits : Suits off size fits) (hoff : off ≤ intMax)
    (hb : Printed off kept b) :
    (printRound a text off size fits b).Leaves
      (fun b' => Printed off kept b' ∧
        off + text.length + 1 - b'.cap < off + text.length + 1 - b.cap)
      (PrintedNext text off kept) (Fails (a.Succeeds ∧ text.length ≤ intMax)) := by
  obtain ⟨hallocated, hlow, hkept⟩ := hb
  rcases Nat.lt_or_ge intMax text.length with hlong | hlen
  · rw [printRound_long hlong]
    exact fails_returned hallocated fun h => Nat.not_le.mpr hlong h.2
  · obtain ⟨b₁, hcap, hkept₁, ⟨hfit, htake, hdone⟩ | ⟨hsmall, hgrow⟩⟩ :=
      printRound_cases (a := a) hsuits hlow hallocated.2 hlen
    · rw [hdone]
      exact ⟨rfl, hlen, hallocated.of_cap hcap, hfit.trans_eq hcap.symm, hkept ▸ htake⟩
    · have hb₁ : Printed off kept b₁ :=
        ⟨hallocated.of_cap hcap, hlow.trans_eq hcap.symm, hkept₁.trans hkept⟩
      rw [hgrow]
      cases hb₂ : growBuf a b₁ with
      | none =>
        refine fails_returned hb₁.1 fun h => ?_
        have hsome := growBuf_isSome h.1 hb₁.1.2
        rw [hb₂] at hsome
        cases hsome
      | some b₂ =>
        obtain ⟨hprinted, hlt⟩ := hb₁.grow (hcap.trans_le hsmall) hoff hlen hb₂
        exact ⟨hprinted, by omega⟩

theorem loop_meets (hsuits : Suits off size fits) (hoff : off ≤ intMax) (hb : Printed off kept b)
    (fuel : Nat) :
    Meets (loop (printRound a text off size fits) fuel b) (off + text.length < fuel)
      (PrintedNext text off kept) (Fails (a.Succeeds ∧ text.length ≤ intMax)) := by
  have hlow := hb.2.1
  exact (Meets.loop (Printed off kept) (fun b => off + text.length + 1 - b.cap)
    (fun _ h => printRound_leaves a text hsuits hoff h) fuel hb).mono
    (fun hfuel => by omega) (fun _ h => h) fun _ h => h

end Rounds

/-! ## A line -/

theorem addInt_meets {enough : Prop} (m n : Nat) :
    Meets (addInt m n) enough (fun k => m + n ≤ intMax ∧ k = m + n) (Fails (m + n ≤ intMax)) := by
  unfold addInt
  split
  · next h => exact .pure ⟨h, rfl⟩
  · next h => exact .throw (fails_undefined h)

/-- The newline takes the place of the terminator; only a sum can go wrong. -/
theorem finishLine_meets {enough : Prop} {b : LogBuf} {m n : Nat} (hroom : m + n < b.cap) :
    Meets (finishLine b m n) enough
      (fun r => m + n < intMax ∧ r.1.cap = b.cap ∧ r.2 = b.bytes.take (m + n) ++ [10])
      (Fails (m + n < intMax)) := by
  obtain ⟨b', hstore, hcap, htake⟩ :=
    LogBuf.store_eq (show m + n + [10].length ≤ b.cap from hroom)
  refine ((addInt_meets m n).mono id (fun _ h => h) fun _ h => h.mono Nat.le_of_lt).bind ?_
  rintro total ⟨-, rfl⟩
  rw [hstore]
  refine (addInt_meets (m + n) 1).bind ?_
  rintro size ⟨hsum, rfl⟩
  exact .pure ⟨hsum, hcap, htake 1 le_rfl⟩

section Line

variable (a : Allocator) (prefixText msg : List UInt8) {b : LogBuf}

/-- A line is written, unless something fails or it is too long. -/
theorem printLine_meets (hb : Allocated b) (fuel : Nat) :
    Meets (printLine a prefixText msg fuel b) (prefixText.length + msg.length < fuel)
      (fun r => prefixText.length + msg.length < intMax ∧ Allocated r.1 ∧
        r.2 = prefixText ++ msg ++ [10])
      (Fails (a.Succeeds ∧ prefixText.length + msg.length < intMax)) := by
  have hpos : 0 < b.cap := by
    have hinit := hb.1
    unfold logInitialBuf at hinit
    omega
  have hstart : Printed 0 [] b := ⟨hb, hpos, List.take_zero⟩
  refine ((loop_meets a prefixText prefix_suits (Nat.zero_le _) hstart fuel).mono
    (fun h => by omega) (fun _ h => h) fun _ h => h.mono fun h => ⟨h.1, by omega⟩).bind ?_
  rintro ⟨b₁, m⟩ ⟨hm, hlen, hb₁⟩
  rw [Nat.zero_add, List.nil_append] at hb₁
  obtain rfl : m = prefixText.length := hm
  -- the second loop keeps the prefix, also where `realloc` moves the buffer
  refine ((loop_meets a msg (message_suits prefixText.length) hlen hb₁ fuel).mono
    id (fun _ h => h) fun _ h => h.mono fun h => ⟨h.1, by omega⟩).bind ?_
  rintro ⟨b₂, n⟩ ⟨hn, -, hallocated, hroom, hline⟩
  obtain rfl : n = msg.length := hn
  refine (finishLine_meets hroom).mono id ?_ fun _ h => h.mono And.right
  rintro r ⟨hsum, hcap, hr⟩
  exact ⟨hsum, hallocated.of_cap hcap, hline ▸ hr⟩

end Line

/-! ## Any call -/

/-- The buffers of a thread: none yet, or an allocated one. -/
def Sized (b : LogBuf) : Prop := b.buf = none ∨ Allocated b

theorem Sized.lt {b : LogBuf} (hb : Sized b) : b.cap < 2 ^ 33 := by
  rcases hb with hnone | hb
  · rw [← b.length_buf, hnone]
    decide
  · exact hb.2

/-- What the call starts with. -/
theorem Sized.start {a : Allocator} {b b' : LogBuf} (hb : Sized b)
    (h : (if b.buf.isNone then growBuf a b else some b) = some b') : Allocated b' := by
  split at h
  · next hnone =>
    have hcap : b.cap = 0 := by
      rw [← b.length_buf, Option.isNone_iff_eq_none.mp hnone]
      rfl
    have hgrown := (growBuf_eq h).1
    rw [if_pos hcap] at hgrown
    unfold Allocated
    rw [hgrown]
    exact ⟨le_rfl, by decide⟩
  · next hsome =>
    obtain rfl := Option.some.inj h
    exact hb.resolve_left fun hnone => hsome (Option.isNone_iff_eq_none.mpr hnone)

theorem Sized.start_ne_none {a : Allocator} (ha : a.Succeeds) {b : LogBuf} (hb : Sized b) :
    (if b.buf.isNone then growBuf a b else some b) ≠ none := by
  split
  · exact Option.isSome_iff_ne_none.mp (growBuf_isSome ha hb.lt)
  · exact Option.some_ne_none b

/-- What a call does: it writes its line, unless it is not of the level, something fails or the line
is too long. -/
theorem logWrite_meets (a : Allocator) (threshold : LogLevel) (c : LogCall) {b : LogBuf}
    (hb : Sized b) (fuel : Nat) :
    Meets (logWrite a threshold c fuel b) (c.prefixText.length + c.msg.length < fuel)
      (fun r => c.prefixText.length + c.msg.length < intMax ∧ Sized r.1 ∧
        r.2 = c.prefixText ++ c.msg ++ [10])
      (fun e => (∀ b', e = .returned b' → Sized b') ∧
        ¬ (a.Succeeds ∧ c.level.value ≤ threshold.value ∧
          c.prefixText.length + c.msg.length < intMax)) := by
  unfold logWrite
  split
  · next hlevel =>
    exact .throw ⟨fun b' heq => by cases heq; exact hb, fun h => Int.not_le.mpr hlevel h.2.1⟩
  · cases hstart : (if b.buf.isNone then growBuf a b else some b) with
    | none =>
      exact .throw ⟨fun b' heq => by cases heq; exact hb, fun h => hb.start_ne_none h.1 hstart⟩
    | some b₁ =>
      exact (printLine_meets a c.prefixText c.msg (hb.start hstart) fuel).mono id
        (fun r hr => ⟨hr.1, .inr hr.2.1, hr.2.2⟩)
        fun e he => ⟨fun b' heq => .inr (he.1 b' heq), fun h => he.2 ⟨h.1, h.2.2⟩⟩

/-- The buffers that a thread has after calls of `log_write`, whatever failed in them. -/
inductive Reachable : LogBuf → Prop
  | start : Reachable .empty
  | wrote {a : Allocator} {threshold : LogLevel} {c : LogCall} {fuel : Nat} {b : LogBuf}
      {r : LogBuf × List UInt8} :
      Reachable b → Returns (logWrite a threshold c fuel b) r → Reachable r.1
  | returned {a : Allocator} {threshold : LogLevel} {c : LogCall} {fuel : Nat} {b b' : LogBuf} :
      Reachable b → Exits (logWrite a threshold c fuel b) (.returned b') → Reachable b'

theorem Reachable.sized {b : LogBuf} (h : Reachable b) : Sized b := by
  induction h with
  | start => exact .inl rfl
  | wrote _ hr ih => exact ((logWrite_meets _ _ _ ih _).returns _ hr).2.1
  | returned _ he ih => exact ((logWrite_meets _ _ _ ih _).exits _ he).1 _ rfl

/-- Both loops of a call end, whatever fails. -/
theorem logWrite_ends (a : Allocator) (threshold : LogLevel) (c : LogCall) {b : LogBuf}
    (hb : Reachable b) : ∃ rounds, ∀ fuel > rounds,
      (∃ r, Returns (logWrite a threshold c fuel b) r) ∨
        ∃ e, Exits (logWrite a threshold c fuel b) e :=
  ⟨_, fun fuel hfuel => (logWrite_meets a threshold c hb.sized fuel).ends hfuel⟩

/-- What a call should do: end, store nothing outside the buffer on the way, and write the prefix,
the message and a newline. -/
def WritesLine (a : Allocator) (threshold : LogLevel) (c : LogCall) (b : LogBuf) : Prop :=
  ∃ rounds, ∀ fuel > rounds, ∃ b',
    Returns (logWrite a threshold c fuel b) (b', c.prefixText ++ c.msg ++ [10])

theorem WritesLine.short {a : Allocator} {threshold : LogLevel} {c : LogCall} {b : LogBuf}
    (h : WritesLine a threshold c b) (hb : Reachable b) :
    c.prefixText.length + c.msg.length < intMax := by
  obtain ⟨rounds, h⟩ := h
  obtain ⟨b', hr⟩ := h (rounds + 1) (Nat.lt_succ_self rounds)
  exact ((logWrite_meets a threshold c hb.sized _).returns _ hr).1

/-- From any buffer that earlier calls left a call writes its line if and only if an `int` can hold
the length of the line with its newline. -/
theorem log_write_exact_iff {a : Allocator} (ha : a.Succeeds) {b : LogBuf} (hb : Reachable b)
    {threshold : LogLevel} {c : LogCall} (hlevel : c.level.value ≤ threshold.value) :
    WritesLine a threshold c b ↔ c.prefixText.length + c.msg.length < intMax := by
  have hmeets := logWrite_meets a threshold c hb.sized
  refine ⟨fun h => h.short hb, fun hsum => ⟨c.prefixText.length + c.msg.length, ?_⟩⟩
  intro fuel hfuel
  rcases (hmeets fuel).ends hfuel with ⟨⟨b', out⟩, hr⟩ | ⟨e, he⟩
  · obtain ⟨-, -, rfl⟩ := (hmeets fuel).returns _ hr
    exact ⟨b', hr⟩
  · exact (((hmeets fuel).exits e he).2 ⟨ha, hlevel, hsum⟩).elim

/-- An allocator that has memory. -/
def roomy : Allocator where
  realloc p size := some (p.take size ++ List.replicate (size - p.length) 0)
  length_realloc h := by
    rw [← Option.some.inj h, List.length_append, List.length_take, List.length_replicate]
    omega
  take_realloc {p size _} h := by
    rw [← Option.some.inj h]
    rcases Nat.le_total size p.length with hle | hle
    · rw [Nat.sub_eq_zero_of_le hle, List.replicate_zero, List.append_nil]
      exact List.take_of_length_le ((List.length_take_le _ _).trans hle)
    · rw [List.take_of_length_le hle, List.take_left]

/-- The call `LOG_WARN("%*s", n, "")`. -/
def padded (n : Nat) : LogCall :=
  ⟨.warn, terminated (ascii "2026-01-01T00:00:00"), 0, terminated (ascii "log"),
    List.replicate n 32⟩

theorem length_padded (n : Nat) :
    (padded n).prefixText.length + (padded n).msg.length = 36 + n := by
  have htext : (padded n).prefixText = (padded 0).prefixText := rfl
  have hlength : (padded 0).prefixText.length = 36 := by decide
  rw [htext, hlength, padded, List.length_replicate]

theorem log_write_exact_padded : WritesLine roomy .info (padded 5000) .empty :=
  (log_write_exact_iff (fun _ _ _ => rfl) .start (by decide)).mpr (by rw [length_padded]; decide)

/-- A message of 2147483647 spaces. -/
theorem log_write_overflow : ¬ WritesLine roomy .info (padded 2147483647) .empty := by
  intro h
  have hshort := h.short .start
  rw [length_padded] at hshort
  exact absurd hshort (by decide)

end Log

end JautoProf
