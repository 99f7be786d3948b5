import JautoProf.Lib.Proc
import JautoProf.Lib.Runs
import JautoProf.ProfClient
import Mathlib.Logic.Function.Basic

/-!
# The client's side of a connection (`prof_client.py`)

The methods of `ProfClient` as programs of single calls of the socket. A byte is sent at a time,
and each call can end in an error: the connection is lost, or the time is over. Between two calls
anything can happen elsewhere. Each byte is kept with the attempt that sent it: the call whose
request it is, and which of its attempts.

Results:
1. `safe_sendRequest`: `_send_request` makes a second attempt only after an error, and on a new
   connection.
2. `Inv.step`: a call makes two attempts at most, and an attempt sends no byte twice.
-/

namespace JautoProf.Requests

open ProfClient

/-! ## What is sent -/

/-- The header and the body that a method passes to `sendall`. -/
def message (call : Call) : Except PyError (List UInt8) := do
  let body ← call.pack
  let hdr := (← packUnsigned 4 call.type.code.toNat) ++ (← packUnsigned 4 body.length)
  return hdr ++ body

/-- A call, and which of its attempts. -/
abbrev Tag : Type := Nat × Nat

/-- An attempt to send a request: the connection, what had been sent on it before, the message, and
the attempts that had ended in an error when it began. -/
structure Try where
  conn : Nat
  before : List (Tag × UInt8)
  bytes : List UInt8
  failed : List Tag

/-- `self._sock` and the connections that were made, with what was sent on each; the calls, their
attempts, and the attempts that ended in an error. -/
structure Client where
  sock : Option Nat
  nextConn : Nat
  stream : Nat → List (Tag × UInt8)
  calls : List Call
  tries : Nat → List Try
  errors : List Tag

/-- The client after `__init__`. -/
def Client.init (connects : Bool) : Client where
  sock := if connects then some 0 else none
  nextConn := if connects then 1 else 0
  stream _ := []
  calls := []
  tries _ := []
  errors := []

/-! ## The methods -/

/-- The calls of the socket that a method makes, and the start of an attempt. -/
inductive Act
  /-- `_connect`, where there is no socket. -/
  | ensure
  /-- `_connect`. -/
  | connect
  | start (call : Nat) (bytes : List UInt8)
  | send (call : Nat) (b : UInt8)
  /-- `_recv_msg`. -/
  | recv (call : Nat)
deriving DecidableEq

abbrev Thread (α : Type) : Type := Proc Act Bool α

/-- `sendall`. -/
def sendall (call : Nat) : List UInt8 → Thread Bool
  | [] => pure true
  | b :: bs => do
    if ← Proc.call (.send call b) then sendall call bs else pure false

/-- `sendall` and `_recv_msg`; whether a message is returned. -/
def attempt (call : Nat) (bytes : List UInt8) : Thread Bool := do
  let _ ← Proc.call (.start call bytes)
  if ← sendall call bytes then Proc.call (.recv call) else pure false

/-- `_send_request`. -/
def sendRequest (call : Nat) (bytes : List UInt8) : Thread Bool := do
  if ← Proc.call .ensure then
    if ← attempt call bytes then pure true
    else if ← Proc.call .connect then attempt call bytes
    else pure false
  else pure false

/-- `shutdown`. -/
def shutdown (call : Nat) (bytes : List UInt8) : Thread Bool := do
  if ← Proc.call .ensure then
    let _ ← Proc.call (.start call bytes)
    sendall call bytes
  else pure false

/-- The method of a call. -/
def method (call : Call) : Nat → List UInt8 → Thread Bool :=
  if call = .shutdown then shutdown else sendRequest

/-! ## The actions -/

namespace Client

/-- `_connect` drops the socket first. -/
def connect (s : Client) (ok : Bool) : Bool × Client :=
  if ok then (true, { s with sock := some s.nextConn, nextConn := s.nextConn + 1 })
  else (false, { s with sock := none })

/-- The attempt that a call is at. -/
def current (s : Client) (call : Nat) : Tag := (call, (s.tries call).length - 1)

/-- The attempt ends in an error. -/
def fails (s : Client) (call : Nat) : Client := { s with errors := s.errors ++ [s.current call] }

def start (s : Client) (call : Nat) (bytes : List UInt8) (i : Nat) : Client :=
  { s with
    tries := Function.update s.tries call (s.tries call ++ [⟨i, s.stream i, bytes, s.errors⟩]) }

def sent (s : Client) (call : Nat) (b : UInt8) (i : Nat) : Client :=
  { s with stream := Function.update s.stream i (s.stream i ++ [(s.current call, b)]) }

/-- An action; `ok` is how a call of the socket comes out. -/
def perform (s : Client) (ok : Bool) : Act → Bool × Client
  | .ensure => if s.sock.isSome then (true, s) else s.connect ok
  | .connect => s.connect ok
  | .start call bytes => (true, s.sock.elim s (s.start call bytes))
  | .send call b => if ok then (true, s.sock.elim s (s.sent call b)) else (false, s.fails call)
  | .recv call => (ok, if ok then s else s.fails call)

end Client

/-- The client and the rest of the call that it is in. -/
structure State where
  client : Client
  thread : Option (Thread Bool)

def State.init (connects : Bool) : State := ⟨.init connects, none⟩

inductive Step
  | call (call : Call)
  | close
  | act (ok : Bool)

/-- A call is made after the one before it. What cannot be packed raises an exception before
anything is sent. -/
def step (s : State) : Step → State
  | .call call =>
    match s.thread with
    | some _ => s
    | none =>
      ⟨{ s.client with calls := s.client.calls ++ [call] },
        (message call).toOption.map (method call s.client.calls.length)⟩
  | .close =>
    match s.thread with
    | some _ => s
    | none => { s with client := { s.client with sock := none } }
  | .act ok =>
    match s.thread with
    | none => s
    | some (.done _) => { s with thread := none }
    | some (.act a k) =>
      let (r, client) := s.client.perform ok a
      ⟨client, some (k r)⟩

/-! ## What a thread knows of its call -/

/-- The number of attempts so far; whether the last one ended in an error; whether there is a
socket, and whether it was made since, so that nothing was sent on it; and the bytes of the
attempt that are left to be sent. -/
structure Own where
  tried : Nat
  failed : Bool
  sock : Bool
  clean : Bool
  left : List UInt8

/-- What an action needs, in the call `n` with this message. -/
def pre (n : Nat) (bytes : List UInt8) : Act → Own → Prop
  | .ensure, _ => True
  | .connect, _ => True
  | .start call bytes', own => call = n ∧ bytes' = bytes ∧ own.sock = true ∧
      (own.tried = 0 ∨ own.tried = 1 ∧ own.failed = true ∧ own.clean = true)
  | .send call b, own => call = n ∧ own.left.head? = some b
  | .recv call, own => call = n ∧ 0 < own.tried

def post : Act → Bool → Own → Own
  | .ensure, ok, own => { own with sock := ok, clean := false, left := [] }
  | .connect, ok, own => { own with sock := ok, clean := ok, left := [] }
  | .start _ bytes, _, own => ⟨own.tried + 1, false, own.sock, false, bytes⟩
  | .send _ _, ok, own =>
    if ok then { own with clean := false, left := own.left.tail }
    else { own with failed := true, left := [] }
  | .recv _, ok, own => { own with failed := !ok, left := [] }

section Programs

variable {n : Nat} {bytes : List UInt8} {own : Own}

theorem safe_sendall {bs : List UInt8} (hleft : own.left = bs) :
    Proc.Safe (pre n bytes) post own (sendall n bs) fun ok own' =>
      own'.tried = own.tried ∧ (ok = false → own'.failed = true) := by
  induction bs generalizing own with
  | nil => exact ⟨rfl, fun hok => nomatch hok⟩
  | cons b bs ih =>
    refine ⟨⟨rfl, by rw [hleft]; rfl⟩, fun ok => ?_⟩
    cases ok with
    | false => exact ⟨rfl, fun _ => rfl⟩
    | true =>
      have hnext : (post (.send n b) true own).left = bs := by
        show own.left.tail = bs
        rw [hleft]
        rfl
      exact ih hnext

theorem safe_attempt (hpre : pre n bytes (.start n bytes) own) :
    Proc.Safe (pre n bytes) post own (attempt n bytes) fun ok own' =>
      own'.tried = own.tried + 1 ∧ (ok = false → own'.failed = true) := by
  refine .call hpre fun _ => .bind ((safe_sendall rfl).mono ?_)
  rintro ok own' ⟨htried, hfailed⟩
  cases ok with
  | false => exact ⟨htried, fun _ => hfailed rfl⟩
  | true =>
    refine ⟨⟨rfl, htried ▸ Nat.succ_pos _⟩, fun ok => ⟨htried, ?_⟩⟩
    rintro rfl
    rfl

/-- There is a second attempt only after the first one ended in an error, on a connection that was
made since. -/
theorem safe_sendRequest (htried : own.tried = 0) :
    Proc.Safe (pre n bytes) post own (sendRequest n bytes) fun _ _ => True := by
  refine .call trivial fun ok => ?_
  cases ok with
  | false => trivial
  | true =>
    have hfirst : pre n bytes (.start n bytes) (post .ensure true own) :=
      ⟨rfl, rfl, rfl, .inl htried⟩
    refine .bind ((safe_attempt hfirst).mono ?_)
    rintro ok own' ⟨htried', hfailed⟩
    cases ok with
    | true => trivial
    | false =>
      refine .call trivial fun ok => ?_
      cases ok with
      | false => trivial
      | true =>
        have hone : own'.tried = 1 := htried'.trans (congrArg (· + 1) htried)
        have hagain : pre n bytes (.start n bytes) (post .connect true own') :=
          ⟨rfl, rfl, rfl, .inr ⟨hone, hfailed rfl, rfl⟩⟩
        exact (safe_attempt hagain).mono fun _ _ _ => trivial

theorem safe_shutdown (htried : own.tried = 0) :
    Proc.Safe (pre n bytes) post own (shutdown n bytes) fun _ _ => True := by
  refine .call trivial fun ok => ?_
  cases ok with
  | false => trivial
  | true =>
    refine .call ⟨rfl, rfl, rfl, .inl htried⟩ fun _ => (safe_sendall rfl).mono ?_
    exact fun _ _ _ => trivial

theorem safe_method (call : Call) (htried : own.tried = 0) :
    Proc.Safe (pre n bytes) post own (method call n bytes) fun _ _ => True := by
  unfold method
  split
  · exact safe_shutdown htried
  · exact safe_sendRequest htried

end Programs

/-! ## The attempts of a run -/

/-- The attempts of a call: the second one comes after an error of the first, on a newer
connection, on which nothing had been sent. -/
def Resent (n : Nat) : List Try → Prop
  | [] | [_] => True
  | [t, t'] => (n, 0) ∈ t'.failed ∧ t.conn < t'.conn ∧ t'.before = []
  | _ => False

/-- The bytes on a connection that an attempt sent. -/
def bytesOf (tag : Tag) (stream : List (Tag × UInt8)) : Nat := stream.countP fun e => e.1 = tag

/-- What holds of the client at every moment. -/
structure Client.Inv (s : Client) : Prop where
  unsent : ∀ i, s.nextConn ≤ i → s.stream i = []
  sock : ∀ i ∈ s.sock, i < s.nextConn
  tags : ∀ i, ∀ e ∈ s.stream i, ∃ t, (s.tries e.1.1)[e.1.2]? = some t ∧ t.conn = i
  sent : ∀ n j t, (s.tries n)[j]? = some t → bytesOf (n, j) (s.stream t.conn) ≤ t.bytes.length
  conn : ∀ n, ∀ t ∈ s.tries n, t.conn < s.nextConn
  message : ∀ n, ∀ t ∈ s.tries n, ∃ call, s.calls[n]? = some call ∧ message call = .ok t.bytes
  resent : ∀ n, Resent n (s.tries n)

/-- The client is in the call `n`, and `own` is what the thread knows of it. -/
structure Client.In (s : Client) (n : Nat) (bytes : List UInt8) (own : Own) : Prop where
  asked : ∃ call, s.calls[n]? = some call ∧ JautoProf.Requests.message call = .ok bytes
  tried : (s.tries n).length = own.tried
  failed : own.failed = true → own.tried = 1 → (n, 0) ∈ s.errors
  sock : own.sock = true → s.sock.isSome
  clean : own.clean = true → ∀ i ∈ s.sock, s.stream i = [] ∧ ∀ t ∈ s.tries n, t.conn < i
  left : own.left ≠ [] → ∃ j t, own.tried = j + 1 ∧ (s.tries n)[j]? = some t ∧
    s.sock = some t.conn ∧ bytesOf (n, j) (s.stream t.conn) + own.left.length ≤ t.bytes.length

section Actions

variable {s : Client} {n : Nat} {bytes : List UInt8} {own : Own}

theorem Client.connect_fst (s : Client) (ok : Bool) : (s.connect ok).1 = ok := by cases ok <;> rfl

theorem Client.Inv.connect (h : s.Inv) (ok : Bool) : (s.connect ok).2.Inv := by
  cases ok with
  | false => exact { h with sock := fun i hi => nomatch hi }
  | true =>
    refine { h with unsent := fun i hi => h.unsent i (Nat.le_of_succ_le hi), sock := ?_, conn := ?_ }
    · rintro i hi
      cases hi
      exact Nat.lt_succ_self _
    · exact fun n t ht => Nat.lt_succ_of_lt (h.conn n t ht)

theorem Client.In.connect (h : s.Inv) (hin : s.In n bytes own) (ok : Bool) :
    (s.connect ok).2.In n bytes (post .connect ok own) := by
  cases ok with
  | false =>
    exact { hin with
      sock := fun hsock => absurd hsock Bool.false_ne_true
      clean := fun hclean => absurd hclean Bool.false_ne_true
      left := fun hleft => absurd rfl hleft }
  | true =>
    refine { hin with sock := fun _ => rfl, clean := ?_, left := fun hleft => absurd rfl hleft }
    rintro - i hi
    cases hi
    exact ⟨h.unsent _ (Nat.le_refl _), h.conn n⟩

/-- An error of the attempt. -/
theorem Client.In.fails (hin : s.In n bytes own) :
    (s.fails n).In n bytes { own with failed := true, left := [] } := by
  refine { hin with failed := fun _ hone => ?_, left := fun hleft => absurd rfl hleft }
  have hone : own.tried = 1 := hone
  refine List.mem_append_right _ (List.mem_singleton.mpr ?_)
  rw [Client.current, hin.tried, hone]

theorem mem_tries_start {i m : Nat} {t : Try} (h : t ∈ (s.start n bytes i).tries m) :
    t ∈ s.tries m ∨ m = n ∧ t = ⟨i, s.stream i, bytes, s.errors⟩ := by
  have h : t ∈ Function.update s.tries n _ m := h
  by_cases hm : m = n
  · subst hm
    rw [Function.update_self] at h
    rcases List.mem_append.mp h with h | h
    · exact .inl h
    · exact .inr ⟨rfl, List.mem_singleton.mp h⟩
  · rw [Function.update_of_ne hm] at h
    exact .inl h

/-- The attempts before keep their numbers, and the new one has the next number. -/
theorem getElem?_tries_start {i m j : Nat} {t : Try} :
    ((s.start n bytes i).tries m)[j]? = some t ↔ (s.tries m)[j]? = some t ∨
      m = n ∧ j = (s.tries n).length ∧ ⟨i, s.stream i, bytes, s.errors⟩ = t := by
  show (Function.update s.tries n _ m)[j]? = some t ↔ _
  by_cases hm : m = n
  · subst hm
    rw [Function.update_self, List.getElem?_append]
    split
    · next hlt => exact ⟨.inl, fun hor => hor.elim id fun hnew => absurd hnew.2.1 (Nat.ne_of_lt hlt)⟩
    · next hge =>
      rw [List.getElem?_eq_none (Nat.le_of_not_lt hge), List.getElem?_singleton]
      have hle := Nat.le_of_not_lt hge
      constructor
      · intro h
        split at h
        · next hzero =>
          exact .inr ⟨rfl, Nat.le_antisymm (Nat.sub_eq_zero_iff_le.mp hzero) hle, Option.some.inj h⟩
        · cases h
      · rintro (h | ⟨-, rfl, rfl⟩)
        · cases h
        · rw [Nat.sub_self, if_pos rfl]
  · rw [Function.update_of_ne hm]
    exact ⟨.inl, fun hor => hor.elim id fun hnew => absurd hnew.1 hm⟩

/-- No byte was sent by an attempt to come. -/
theorem Client.Inv.bytesOf_next (h : s.Inv) (n i : Nat) :
    bytesOf (n, (s.tries n).length) (s.stream i) = 0 := by
  refine List.countP_eq_zero.mpr fun e he heq => ?_
  obtain ⟨t, ht, -⟩ := h.tags i e he
  rw [of_decide_eq_true heq, List.getElem?_eq_none (Nat.le_refl _)] at ht
  cases ht

theorem Client.Inv.start (h : s.Inv) (hin : s.In n bytes own)
    (hpre : pre n bytes (.start n bytes) own) {i : Nat} (hi : s.sock = some i) :
    (s.start n bytes i).Inv := by
  refine ⟨h.unsent, h.sock, fun i' e he => ?_, fun m j t ht => ?_, fun m t ht => ?_,
    fun m t ht => ?_, fun m => ?_⟩
  · obtain ⟨t, ht, hconn⟩ := h.tags i' e he
    exact ⟨t, getElem?_tries_start.mpr (.inl ht), hconn⟩
  · rcases getElem?_tries_start.mp ht with ht | ⟨rfl, rfl, rfl⟩
    · exact h.sent m j t ht
    · exact h.bytesOf_next m i ▸ Nat.zero_le _
  · rcases mem_tries_start ht with ht | ⟨-, rfl⟩
    · exact h.conn m t ht
    · exact h.sock i hi
  · rcases mem_tries_start ht with ht | ⟨rfl, rfl⟩
    · exact h.message m t ht
    · exact hin.asked
  · show Resent m (Function.update s.tries n _ m)
    by_cases hm : m = n
    · subst hm
      rw [Function.update_self]
      have hlen := hin.tried
      rcases hpre.2.2.2 with hzero | ⟨hone, hfailed, hclean⟩
      · rw [hzero] at hlen
        rw [List.eq_nil_of_length_eq_zero hlen]
        trivial
      · rw [hone] at hlen
        obtain ⟨t, ht⟩ := List.length_eq_one_iff.mp hlen
        obtain ⟨hnil, hlt⟩ := hin.clean hclean i hi
        rw [ht]
        exact ⟨hin.failed hfailed hone, hlt t (ht ▸ List.mem_singleton_self t), hnil⟩
    · rw [Function.update_of_ne hm]
      exact h.resent m

theorem Client.In.start (h : s.Inv) (hin : s.In n bytes own) {i : Nat} (hi : s.sock = some i) :
    (s.start n bytes i).In n bytes (post (.start n bytes) true own) := by
  have htries : (s.start n bytes i).tries n = s.tries n ++ [⟨i, s.stream i, bytes, s.errors⟩] :=
    Function.update_self ..
  have hnew : ((s.start n bytes i).tries n)[(s.tries n).length]? =
      some ⟨i, s.stream i, bytes, s.errors⟩ := getElem?_tries_start.mpr (.inr ⟨rfl, rfl, rfl⟩)
  refine ⟨hin.asked, ?_, fun hfailed => absurd hfailed Bool.false_ne_true,
    fun _ => Option.isSome_iff_exists.mpr ⟨i, hi⟩,
    fun hclean => absurd hclean Bool.false_ne_true, fun _ => ?_⟩
  · rw [htries, List.length_append, hin.tried]
    rfl
  · refine ⟨(s.tries n).length, _, congrArg (· + 1) hin.tried.symm, hnew, hi, ?_⟩
    show bytesOf (n, (s.tries n).length) (s.stream i) + bytes.length ≤ bytes.length
    rw [h.bytesOf_next, Nat.zero_add]

theorem Client.In.current (hin : s.In n bytes own) {j : Nat} (hj : own.tried = j + 1) :
    s.current n = (n, j) := by
  rw [Client.current, hin.tried, hj]
  rfl

theorem Client.Inv.sends (h : s.Inv) (hin : s.In n bytes own) {b : UInt8} {j : Nat} {t : Try}
    (hj : own.tried = j + 1) (ht : (s.tries n)[j]? = some t) (hi : s.sock = some t.conn)
    (hroom : bytesOf (n, j) (s.stream t.conn) < t.bytes.length) : (s.sent n b t.conn).Inv := by
  have hcur := hin.current hj
  refine { h with unsent := fun i hle => ?_, tags := fun i e he => ?_, sent := fun m j' t' ht' => ?_ }
  · have hlt := h.sock t.conn hi
    exact (Function.update_of_ne (Nat.ne_of_gt (Nat.lt_of_lt_of_le hlt hle)) _ _).trans
      (h.unsent i hle)
  · have he : e ∈ Function.update s.stream t.conn _ i := he
    by_cases heq : i = t.conn
    · subst heq
      rw [Function.update_self] at he
      rcases List.mem_append.mp he with he | he
      · exact h.tags t.conn e he
      · rw [List.mem_singleton.mp he, hcur]
        exact ⟨t, ht, rfl⟩
    · rw [Function.update_of_ne heq] at he
      exact h.tags i e he
  · show bytesOf (m, j') (Function.update s.stream t.conn _ t'.conn) ≤ _
    by_cases heq : t'.conn = t.conn
    · rw [heq, Function.update_self, hcur, bytesOf, List.countP_append, List.countP_singleton]
      split
      · next htag =>
        cases of_decide_eq_true htag
        cases ht.symm.trans ht'
        exact hroom
      · exact heq ▸ h.sent m j' t' ht'
    · rw [Function.update_of_ne heq]
      exact h.sent m j' t' ht'

theorem Client.In.sends (hin : s.In n bytes own) {b : UInt8} {j : Nat} {t : Try}
    (hb : own.left.head? = some b) (hj : own.tried = j + 1) (ht : (s.tries n)[j]? = some t)
    (hi : s.sock = some t.conn)
    (hroom : bytesOf (n, j) (s.stream t.conn) + own.left.length ≤ t.bytes.length) :
    (s.sent n b t.conn).In n bytes (post (.send n b) true own) := by
  refine { hin with
    clean := fun hclean => absurd hclean Bool.false_ne_true
    left := fun _ => ⟨j, t, hj, ht, hi, ?_⟩ }
  obtain ⟨bs, hleft⟩ := List.head?_eq_some_iff.mp hb
  show bytesOf (n, j) (Function.update s.stream t.conn _ t.conn) + own.left.tail.length ≤ _
  rw [Function.update_self, hin.current hj, bytesOf, List.countP_append, hleft]
  rw [hleft, List.length_cons] at hroom
  rw [List.countP_singleton, if_pos (decide_eq_true rfl), Nat.add_assoc, Nat.add_comm 1]
  exact hroom

/-- What one action does. -/
theorem perform_spec (h : s.Inv) (hin : s.In n bytes own) {a : Act} (hpre : pre n bytes a own)
    (ok : Bool) :
    (s.perform ok a).2.Inv ∧ (s.perform ok a).2.In n bytes (post a (s.perform ok a).1 own) := by
  cases a with
  | ensure =>
    rw [Client.perform]
    by_cases hsome : s.sock.isSome
    · rw [if_pos hsome]
      exact ⟨h, { hin with
        sock := fun _ => hsome
        clean := fun hclean => absurd hclean Bool.false_ne_true
        left := fun hleft => absurd rfl hleft }⟩
    · have hin' := hin.connect h ok
      rw [if_neg hsome, Client.connect_fst]
      exact ⟨h.connect ok, { hin' with clean := fun hclean => absurd hclean Bool.false_ne_true }⟩
  | connect =>
    rw [Client.perform, Client.connect_fst]
    exact ⟨h.connect ok, hin.connect h ok⟩
  | start call bytes' =>
    obtain ⟨i, hi⟩ := Option.isSome_iff_exists.mp (hin.sock hpre.2.2.1)
    obtain ⟨rfl, rfl, -⟩ := id hpre
    rw [Client.perform, hi]
    exact ⟨h.start hin hpre hi, hin.start h hi⟩
  | send call b =>
    obtain ⟨rfl, hb⟩ := hpre
    obtain ⟨bs, hleft⟩ := List.head?_eq_some_iff.mp hb
    obtain ⟨j, t, hj, ht, hi, hroom⟩ := hin.left (hleft ▸ List.cons_ne_nil b bs)
    cases ok with
    | false => exact ⟨{ h with }, hin.fails⟩
    | true =>
      have hlt : bytesOf (call, j) (s.stream t.conn) < t.bytes.length := by
        rw [hleft, List.length_cons, Nat.add_succ] at hroom
        exact Nat.lt_of_le_of_lt (Nat.le_add_right _ _) hroom
      rw [Client.perform, if_pos rfl, hi]
      exact ⟨h.sends hin hj ht hi hlt, hin.sends hb hj ht hi hroom⟩
  | recv call =>
    obtain ⟨rfl, -⟩ := hpre
    cases ok with
    | false => exact ⟨{ h with }, hin.fails⟩
    | true => exact ⟨h, { hin with
        failed := fun hfailed => absurd hfailed Bool.false_ne_true
        left := fun hleft => absurd rfl hleft }⟩

end Actions

/-! ## Runs -/

/-- What holds of the client and its thread at every moment. -/
structure Inv (s : State) : Prop where
  client : s.client.Inv
  thread : ∀ p, s.thread = some p → ∃ n bytes own, s.client.In n bytes own ∧
    Proc.Safe (pre n bytes) post own p fun _ _ => True

/-- A call that was not made has made no attempt. -/
theorem Client.Inv.tries_nil {s : Client} (h : s.Inv) {n : Nat} (hn : s.calls.length ≤ n) :
    s.tries n = [] := by
  refine List.eq_nil_iff_forall_not_mem.mpr fun t ht => ?_
  obtain ⟨call, hcall, -⟩ := h.message n t ht
  rw [List.getElem?_eq_none hn] at hcall
  cases hcall

theorem Client.Inv.call {s : Client} (h : s.Inv) (call : Call) :
    Client.Inv { s with calls := s.calls ++ [call] } := by
  refine { h with message := fun n t ht => ?_ }
  obtain ⟨call', hcall', hmessage⟩ := h.message n t ht
  refine ⟨call', ?_, hmessage⟩
  rw [List.getElem?_append_left (List.getElem?_eq_some_iff.mp hcall').1, hcall']

theorem Inv.step {s : State} (h : Inv s) (st : Step) : Inv (step s st) := by
  cases st with
  | call call =>
    rw [Requests.step]
    split
    · exact h
    · refine ⟨h.client.call call, fun p hp => ?_⟩
      obtain ⟨bytes, hbytes, rfl⟩ := Option.map_eq_some_iff.mp hp
      have hmessage : message call = .ok bytes := by
        cases hm : message call with
        | error e => rw [hm] at hbytes; cases hbytes
        | ok bytes' => rw [hm] at hbytes; cases hbytes; rfl
      have hnil := h.client.tries_nil (Nat.le_refl s.client.calls.length)
      refine ⟨s.client.calls.length, bytes, ⟨0, false, false, false, []⟩, ?_, safe_method call rfl⟩
      exact ⟨⟨call, List.getElem?_concat_length, hmessage⟩, congrArg List.length hnil,
        fun hfailed => absurd hfailed Bool.false_ne_true,
        fun hsock => absurd hsock Bool.false_ne_true,
        fun hclean => absurd hclean Bool.false_ne_true, fun hleft => absurd rfl hleft⟩
  | close =>
    rw [Requests.step]
    split
    · exact h
    · next hnone =>
      refine ⟨{ h.client with sock := fun i hi => nomatch hi }, fun p hp => ?_⟩
      rw [hnone] at hp
      cases hp
  | act ok =>
    rw [Requests.step]
    split
    · exact h
    · exact ⟨h.client, fun p hp => nomatch hp⟩
    · next a k hthread =>
      obtain ⟨n, bytes, own, hin, hpre, hsafe⟩ := h.thread _ hthread
      obtain ⟨hclient, hin'⟩ := perform_spec h.client hin hpre ok
      refine ⟨hclient, fun p hp => ?_⟩
      cases hp
      exact ⟨n, bytes, _, hin', hsafe _⟩

/-- What was sent stays sent. -/
theorem Client.stream_perform (s : Client) (ok : Bool) (a : Act) (i : Nat) :
    s.stream i <+: (s.perform ok a).2.stream i := by
  have hconnect : s.stream i <+: (s.connect ok).2.stream i := by cases ok <;> exact List.prefix_rfl
  cases a with
  | ensure =>
    rw [Client.perform]
    split
    · exact List.prefix_rfl
    · exact hconnect
  | connect => exact hconnect
  | start call bytes =>
    rw [Client.perform]
    cases s.sock <;> exact List.prefix_rfl
  | send call b =>
    rw [Client.perform]
    split
    · cases s.sock with
      | none => exact List.prefix_rfl
      | some i' =>
        show s.stream i <+: Function.update s.stream i' _ i
        by_cases heq : i = i'
        · subst heq
          rw [Function.update_self]
          exact List.prefix_append _ _
        · exact ⟨[], (List.append_nil _).trans (Function.update_of_ne heq _ _).symm⟩
    · exact List.prefix_rfl
  | recv call =>
    rw [Client.perform]
    split <;> exact List.prefix_rfl

theorem stream_step (s : State) (st : Step) (i : Nat) :
    s.client.stream i <+: (step s st).client.stream i := by
  cases st with
  | call call =>
    rw [step]
    split <;> exact List.prefix_rfl
  | close =>
    rw [step]
    split <;> exact List.prefix_rfl
  | act ok =>
    rw [step]
    split
    · exact List.prefix_rfl
    · exact List.prefix_rfl
    · exact Client.stream_perform s.client ok _ i

theorem inv_init (connects : Bool) : Inv (.init connects) where
  client :=
    { unsent := fun _ _ => rfl
      sock := by
        cases connects with
        | false => exact fun i hi => nomatch hi
        | true =>
          rintro i hi
          cases hi
          exact Nat.zero_lt_one
      tags := fun i e he => absurd he List.not_mem_nil
      sent := fun n j t ht => nomatch ht
      conn := fun n t ht => absurd ht List.not_mem_nil
      message := fun n t ht => absurd ht List.not_mem_nil
      resent := fun n => trivial }
  thread p hp := nomatch hp

end JautoProf.Requests
