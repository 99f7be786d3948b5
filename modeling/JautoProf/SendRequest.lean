import JautoProf.ProfClient
import JautoProf.Lib.Runs

/-!
# Requests and their answers (`prof_client.py`)

`_send_request` sends a request and reads one message. When that ends in an error it connects
again and does the same once more. A connection is what the server has answered on it and the
client has not read yet: the answer to a request is appended when the request reaches the server,
and arrives in pieces, or not at all. Each byte is kept with the number of the call whose request
it answers.

Results:
1. `own_answers`: in every run of calls each call that returns a message returns the answer to
   its own request, if and only if no first attempt succeeds on a connection where bytes of an
   earlier answer are left.
2. `undisturbed_of_retries`: no bytes are left when no second attempt fails whose request reached
   the server.
-/

namespace JautoProf.ProfClient

open Wire Runs

/-- A byte that the server sent, and the call whose request it answers. -/
abbrev Sent := Nat × UInt8

/-- The bytes of the answer to the request of a call. -/
def sent (call : Nat) (m : UserMsg) : List Sent := m.wire.map (call, ·)

/-- A connection: the bytes that were sent and not read, and whether it was lost, so that nothing
more reaches the server. -/
structure Connection where
  unread : List Sent
  lost : Bool

/-- What becomes of `sendall`. -/
inductive Sending
  | delivered
  /-- It returns, and the connection was lost. -/
  | swallowed
  | raised
deriving DecidableEq

/-- An attempt: what becomes of `sendall`, what the server answers if the request reaches it, and
the number of bytes that each `recv` finds; it finds none when the connection was closed or the
time is over. -/
structure Attempt where
  sending : Sending
  answer : { m : UserMsg // m.body.length = m.size.toNat }
  chunks : List Nat

/-! ## `_recv_msg` -/

/-- The loop around `recv`, for `size` bytes: what it has read, or `none` for an exception, the
chunks after that, and the bytes not read. -/
def recvLoop : List Nat → Nat → List Sent → Option (List Sent) × List Nat × List Sent
  | chunks, 0, unread => (some [], chunks, unread)
  | [], _ + 1, unread => (none, [], unread)
  | k :: chunks, size + 1, unread =>
    let chunk := unread.take (min k (size + 1))
    if chunk = [] then (none, chunks, unread)
    else
      let (rest, after) := recvLoop chunks (size + 1 - chunk.length) (unread.drop chunk.length)
      (rest.map (chunk ++ ·), after)

/-- `_HDR_SIZE`. -/
def hdrSize : Nat := 8

/-- `body_size`, from the bytes of the header. -/
def bodySize (hdr : List Sent) : Nat := ofLe ((hdr.map Prod.snd).drop 4)

/-- `_recv_msg`: the bytes of the message, and the bytes not read. -/
def recvMsg (chunks : List Nat) (unread : List Sent) : Option (List Sent) × List Sent :=
  match recvLoop chunks hdrSize unread with
  | (none, _, unread) => (none, unread)
  | (some hdr, chunks, unread) =>
    match recvLoop chunks (bodySize hdr) unread with
    | (none, _, unread) => (none, unread)
    | (some body, _, unread) => (some (hdr ++ body), unread)

/-! ## `_send_request` -/

/-- `self._sock`, and the number of calls so far. -/
structure Session where
  sock : Option Connection
  calls : Nat

namespace Session

/-- The client after `__init__`. -/
def init (connects : Bool) : Session :=
  ⟨if connects then some ⟨[], false⟩ else none, 0⟩

/-- `_connect`. -/
def connect (s : Session) (ok : Bool) : Session :=
  { s with sock := if ok then some ⟨[], false⟩ else none }

/-- `sendall`; whether it returns. -/
def sendall (s : Session) (c : Connection) (a : Attempt) : Bool × Session :=
  match a.sending with
  | .delivered =>
    if c.lost then (true, s)
    else (true, { s with sock := some { c with unread := c.unread ++ sent s.calls a.answer.val } })
  | .swallowed => (true, { s with sock := some { c with lost := true } })
  | .raised => (false, { s with sock := some { c with lost := true } })

/-- `_recv_msg`, on the socket. -/
def recv (s : Session) (chunks : List Nat) : Option (List Sent) × Session :=
  match s.sock with
  | none => (none, s)
  | some c =>
    let (m, unread) := recvMsg chunks c.unread
    (m, { s with sock := some { c with unread := unread } })

/-- `sendall` and `_recv_msg`. -/
def attempt (s : Session) (c : Connection) (a : Attempt) : Option (List Sent) × Session :=
  let (ok, s) := s.sendall c a
  if ok then s.recv a.chunks else (none, s)

end Session

/-- The course of a call: whether `_connect` succeeds when there is no socket, the first attempt,
whether `_connect` succeeds after it, and the second attempt. -/
structure Course where
  connects : Bool
  first : Attempt
  reconnects : Bool
  second : Attempt

namespace Session

/-- `_connect`, when there is no socket. -/
def ensure (s : Session) (ok : Bool) : Session := if s.sock.isNone then s.connect ok else s

/-- The `except` clause of `_send_request`. -/
def retry (s : Session) (c : Course) : Option (List Sent) × Session :=
  let s := s.connect c.reconnects
  match s.sock with
  | none => (none, s)
  | some conn => s.attempt conn c.second

/-- `_send_request`, after the first `_connect`. -/
def exchange (s : Session) (c : Course) : Option (List Sent) × Session :=
  match s.sock with
  | none => (none, s)
  | some conn =>
    match s.attempt conn c.first with
    | (some m, s) => (some m, s)
    | (none, s) => s.retry c

/-- `_send_request`. -/
def sendRequest (s : Session) (c : Course) : Option (List Sent) × Session :=
  (s.ensure c.connects).exchange c

/-- `shutdown`, which sends a message that the server does not answer. -/
def shutdown (s : Session) (connects : Bool) (sending : Sending) : Session :=
  let s := s.ensure connects
  match s.sock with
  | none => s
  | some c => if sending = .delivered then s else { s with sock := some { c with lost := true } }

/-- `close`. -/
def close (s : Session) : Session := { s with sock := none }

/-- The bytes of earlier answers that are left on the connection. -/
def unread (s : Session) : List Sent := s.sock.elim [] Connection.unread

end Session

/-- A call of a method that sends a request, of `shutdown` or of `close`. -/
inductive Step
  | request (c : Course)
  | shutdown (connects : Bool) (sending : Sending)
  | close

namespace Session

def step (s : Session) : Step → Session
  | .request c => { (s.sendRequest c).2 with calls := s.calls + 1 }
  | .shutdown connects sending => s.shutdown connects sending
  | .close => s.close

/-- Where `_send_request` returns a message it returns what the server answered to the request of
the call. The method looks at the type of the message after that, and raises an exception where it
is another one. -/
def Answered (s : Session) : Step → Prop
  | .request c => ∀ m, (s.sendRequest c).1 = some m →
      m = sent s.calls c.first.answer ∨ m = sent s.calls c.second.answer
  | _ => True

/-- No bytes are left on the connection when the call is made, or its first attempt fails. -/
def Undisturbed (s : Session) : Step → Prop
  | .request c => ∀ conn, s.sock = some conn →
      conn.unread = [] ∨ (s.attempt conn c.first).1 = none
  | _ => True

end Session

/-! ## What is read -/

variable {chunks chunks' : List Nat} {size : Nat} {unread l m rest : List Sent}

/-- What is left is a rest of what was there. -/
theorem recvLoop_suffix (chunks : List Nat) (size : Nat) (unread : List Sent) :
    (recvLoop chunks size unread).2.2 <:+ unread := by
  induction chunks generalizing size unread with
  | nil => cases size <;> exact List.suffix_rfl
  | cons k chunks ih =>
    cases size with
    | zero => exact List.suffix_rfl
    | succ size =>
      unfold recvLoop
      dsimp only
      split
      · exact List.suffix_rfl
      · exact (ih _ _).trans (List.drop_suffix _ _)

theorem recvLoop_some (h : recvLoop chunks size unread = (some l, chunks', rest)) :
    l ++ rest = unread ∧ l.length = size := by
  induction chunks generalizing size unread l with
  | nil =>
    cases size with
    | zero =>
      cases h
      exact ⟨rfl, rfl⟩
    | succ size => cases h
  | cons k chunks ih =>
    cases size with
    | zero =>
      cases h
      exact ⟨rfl, rfl⟩
    | succ size =>
      have hprefix := List.take_prefix (min k (size + 1)) unread
      have hle := List.length_take_le (min k (size + 1)) unread
      unfold recvLoop at h
      dsimp only at h
      -- a chunk is a start of what is unread, and no longer than what is missing
      generalize unread.take (min k (size + 1)) = chunk at h hprefix hle
      obtain ⟨t, rfl⟩ := hprefix
      rw [List.drop_left] at h
      split at h
      · cases h
      · cases hr : recvLoop chunks (size + 1 - chunk.length) t with
        | mk read after =>
          rw [hr] at h
          cases read with
          | none => cases h
          | some l' =>
            cases h
            obtain ⟨happ, hlen⟩ := ih hr
            refine ⟨by rw [List.append_assoc, happ], ?_⟩
            rw [List.length_append, hlen]
            exact Nat.add_sub_cancel' (Nat.le_trans hle (Nat.min_le_right _ _))

theorem recvMsg_suffix (chunks : List Nat) (unread : List Sent) :
    (recvMsg chunks unread).2 <:+ unread := by
  have hhdr := recvLoop_suffix chunks hdrSize unread
  unfold recvMsg
  cases hr : recvLoop chunks hdrSize unread with
  | mk hdr after =>
    rw [hr] at hhdr
    cases hdr with
    | none => exact hhdr
    | some hdr =>
      have hbody := (recvLoop_suffix after.1 (bodySize hdr) after.2).trans hhdr
      dsimp only
      cases hr' : recvLoop after.1 (bodySize hdr) after.2 with
      | mk body after' =>
        rw [hr'] at hbody
        cases body <;> exact hbody

theorem recvMsg_some (h : recvMsg chunks unread = (some m, rest)) :
    ∃ hdr body, m = hdr ++ body ∧ hdr.length = hdrSize ∧ body.length = bodySize hdr ∧
      hdr ++ (body ++ rest) = unread := by
  unfold recvMsg at h
  cases hr : recvLoop chunks hdrSize unread with
  | mk hdr after =>
    rw [hr] at h
    cases hdr with
    | none => cases h
    | some hdr =>
      obtain ⟨happ, hlen⟩ := recvLoop_some hr
      dsimp only at h
      cases hr' : recvLoop after.1 (bodySize hdr) after.2 with
      | mk body after' =>
        rw [hr'] at h
        cases body with
        | none => cases h
        | some body =>
          cases h
          obtain ⟨happ', hlen'⟩ := recvLoop_some hr'
          exact ⟨hdr, body, rfl, hlen, hlen', by rw [happ', happ]⟩

/-- Of one answer `_recv_msg` reads all. -/
theorem recvMsg_sent {call : Nat} {a : UserMsg} (ha : a.body.length = a.size.toNat)
    (h : recvMsg chunks (sent call a) = (some m, rest)) : m = sent call a ∧ rest = [] := by
  obtain ⟨hdr, body, rfl, hhdr, hbody, happ⟩ := recvMsg_some h
  have hwire : sent call a = (le 4 a.type.toNat ++ le 4 a.size.toNat).map (call, ·) ++
      a.body.map (call, ·) := by
    rw [← List.map_append, List.append_assoc]
    rfl
  obtain ⟨rfl, hrest⟩ := List.append_inj (happ.trans hwire) (by simp [hhdr, hdrSize])
  have hsize : bodySize ((le 4 a.type.toNat ++ le 4 a.size.toNat).map (call, ·)) =
      a.size.toNat := by
    unfold bodySize
    rw [List.map_map, show Prod.snd ∘ (fun b : UInt8 => (call, b)) = id from rfl, List.map_id,
      List.drop_left' (le_length 4 _), ofLe_le a.size.toNat_lt]
  have hnil : rest = [] := by
    have hlen := congrArg List.length hrest
    rw [List.length_append, hbody, hsize, List.length_map, ha] at hlen
    exact List.eq_nil_of_length_eq_zero (Nat.add_left_cancel hlen)
  subst hnil
  rw [List.append_nil] at hrest
  exact ⟨by rw [hwire, hrest], rfl⟩

theorem recvMsg_nil (chunks : List Nat) : recvMsg chunks [] ≠ (some m, rest) := by
  intro h
  obtain ⟨hdr, body, -, hhdr, -, happ⟩ := recvMsg_some h
  rw [(List.append_eq_nil_iff.mp happ).1] at hhdr
  cases hhdr

/-- The first byte of a message is the first that was not read. -/
theorem head_recvMsg {b : Sent} (h : recvMsg chunks (b :: unread) = (some m, rest)) : b ∈ m := by
  obtain ⟨hdr, body, rfl, hhdr, -, happ⟩ := recvMsg_some h
  cases hdr with
  | nil => cases hhdr
  | cons b' hdr =>
    cases happ
    exact List.mem_cons_self

namespace Session

variable {s : Session} {c : Connection} {a : Attempt}

/-! ## An attempt -/

/-- What `sendall` leaves on the connection. -/
theorem sendall_sock (hs : s.sock = some c) (a : Attempt) :
    ∃ conn, (s.sendall c a).2.sock = some conn ∧ (s.sendall c a).2.calls = s.calls ∧
      (conn.unread = c.unread ∨ conn.unread = c.unread ++ sent s.calls a.answer) := by
  unfold sendall
  cases a.sending with
  | raised => exact ⟨_, rfl, rfl, .inl rfl⟩
  | swallowed => exact ⟨_, rfl, rfl, .inl rfl⟩
  | delivered =>
    dsimp only
    split
    · exact ⟨c, hs, rfl, .inl rfl⟩
    · exact ⟨_, rfl, rfl, .inr rfl⟩

/-- What an attempt reads, and what it leaves. -/
theorem attempt_spec (hs : s.sock = some c) (a : Attempt) :
    ∃ unread, (unread = c.unread ∨ unread = c.unread ++ sent s.calls a.answer) ∧
      (s.attempt c a).2.calls = s.calls ∧ (s.attempt c a).2.unread <:+ unread ∧
      ∀ m, (s.attempt c a).1 = some m →
        recvMsg a.chunks unread = (some m, (s.attempt c a).2.unread) := by
  obtain ⟨conn, hconn, hcalls, hunread⟩ := sendall_sock hs a
  refine ⟨conn.unread, hunread, ?_⟩
  unfold attempt
  generalize s.sendall c a = r at hconn hcalls
  obtain ⟨ok, s₁⟩ := r
  cases ok with
  | false =>
    refine ⟨hcalls, ?_, nofun⟩
    show s₁.sock.elim [] _ <:+ _
    rw [hconn]
    exact List.suffix_rfl
  | true =>
    have hrecv : s₁.recv a.chunks = ((recvMsg a.chunks conn.unread).1,
        { s₁ with sock := some { conn with unread := (recvMsg a.chunks conn.unread).2 } }) := by
      unfold recv
      rw [hconn]
    dsimp only
    rw [if_pos rfl, hrecv]
    exact ⟨hcalls, recvMsg_suffix _ _, fun m hm => Prod.ext hm rfl⟩

/-- On a connection where nothing is left an attempt returns the answer to its request. -/
theorem attempt_clean (hs : s.sock = some c) (hclean : c.unread = []) {m : List Sent}
    (hm : (s.attempt c a).1 = some m) :
    m = sent s.calls a.answer ∧ (s.attempt c a).2.unread = [] := by
  obtain ⟨unread, hunread, -, -, hread⟩ := attempt_spec hs a
  have hread := hread m hm
  rw [hclean] at hunread
  rcases hunread with rfl | rfl
  · exact absurd hread (recvMsg_nil _)
  · exact recvMsg_sent a.answer.property hread

/-- Where bytes are left it returns one of them. -/
theorem attempt_stale (hs : s.sock = some c) {b : Sent} {bs : List Sent}
    (hstale : c.unread = b :: bs) {m : List Sent} (hm : (s.attempt c a).1 = some m) : b ∈ m := by
  obtain ⟨unread, hunread, -, -, hread⟩ := attempt_spec hs a
  have hread := hread m hm
  rw [hstale] at hunread
  rcases hunread with rfl | rfl
  · exact head_recvMsg hread
  · exact head_recvMsg hread

theorem mem_unread_attempt (hs : s.sock = some c) {b : Sent}
    (hb : b ∈ (s.attempt c a).2.unread) : b ∈ s.unread ∨ b.1 = s.calls := by
  obtain ⟨unread, hunread, -, hsuffix, -⟩ := attempt_spec hs a
  have hleft : s.unread = c.unread := by
    unfold Session.unread
    rw [hs]
    rfl
  have hmem := hsuffix.mem hb
  rw [hleft]
  rcases hunread with rfl | rfl
  · exact .inl hmem
  · rcases List.mem_append.mp hmem with hmem | hmem
    · exact .inl hmem
    · obtain ⟨_, -, rfl⟩ := List.mem_map.mp hmem
      exact .inr rfl

/-! ## A call -/

theorem ensure_some (hs : s.sock = some c) (ok : Bool) : s.ensure ok = s := by
  unfold ensure
  rw [hs]
  rfl

theorem ensure_frame (s : Session) (ok : Bool) :
    (s.ensure ok).calls = s.calls ∧ (s.ensure ok).unread = s.unread := by
  cases hs : s.sock with
  | some c => rw [ensure_some hs]; exact ⟨rfl, rfl⟩
  | none =>
    unfold ensure Session.unread
    rw [hs]
    cases ok <;> exact ⟨rfl, rfl⟩

/-- The second attempt is on a new connection. -/
theorem retry_answer {course : Course} {m : List Sent} (hm : (s.retry course).1 = some m) :
    m = sent s.calls course.second.answer := by
  unfold retry at hm
  cases hok : course.reconnects with
  | false =>
    rw [hok] at hm
    cases hm
  | true =>
    rw [hok] at hm
    exact (attempt_clean (c := ⟨[], false⟩) rfl rfl hm).1

theorem mem_unread_retry {course : Course} {b : Sent} (hb : b ∈ (s.retry course).2.unread) :
    b.1 = s.calls := by
  unfold retry at hb
  cases hok : course.reconnects with
  | false =>
    rw [hok] at hb
    cases hb
  | true =>
    rw [hok] at hb
    rcases mem_unread_attempt (c := ⟨[], false⟩) rfl hb with hmem | hcall
    · cases hmem
    · exact hcall

theorem unread_some (hs : s.sock = some c) : s.unread = c.unread := by
  rw [Session.unread, hs]
  rfl

/-- A first attempt returns, or there is a second one. -/
theorem exchange_cases (hs : s.sock = some c) (course : Course) :
    (∃ m, (s.attempt c course.first).1 = some m ∧ s.exchange course = s.attempt c course.first) ∨
      (s.attempt c course.first).1 = none ∧
        s.exchange course = (s.attempt c course.first).2.retry course := by
  unfold exchange
  rw [hs]
  dsimp only
  generalize s.attempt c course.first = r
  obtain ⟨m, s₁⟩ := r
  cases m with
  | none => exact .inr ⟨rfl, rfl⟩
  | some m => exact .inl ⟨m, rfl, rfl⟩

/-- After a first attempt that fails, a call returns the answer to what it sent again. -/
theorem answer_of_failed (hs : s.sock = some c) {course : Course} {m : List Sent}
    (hm : ((s.attempt c course.first).2.retry course).1 = some m) :
    m = sent s.calls course.second.answer := by
  obtain ⟨-, -, hcalls, -⟩ := attempt_spec hs course.first
  rw [retry_answer hm, hcalls]

/-- Where nothing is left a call returns the answer to its request. -/
theorem exchange_clean (hclean : s.unread = []) {course : Course} {m : List Sent}
    (hm : (s.exchange course).1 = some m) :
    m = sent s.calls course.first.answer ∨ m = sent s.calls course.second.answer := by
  cases hs : s.sock with
  | none =>
    rw [exchange, hs] at hm
    cases hm
  | some conn =>
    rcases exchange_cases hs course with ⟨_, -, hcall⟩ | ⟨-, hcall⟩
    · rw [hcall] at hm
      exact .inl (attempt_clean hs ((unread_some hs).symm.trans hclean) hm).1
    · rw [hcall] at hm
      exact .inr (answer_of_failed hs hm)

theorem mem_unread_exchange {course : Course} {b : Sent}
    (hb : b ∈ (s.exchange course).2.unread) : b ∈ s.unread ∨ b.1 = s.calls := by
  cases hs : s.sock with
  | none =>
    rw [exchange, hs] at hb
    exact .inl hb
  | some conn =>
    rcases exchange_cases hs course with ⟨_, -, hcall⟩ | ⟨-, hcall⟩
    · rw [hcall] at hb
      exact mem_unread_attempt hs hb
    · obtain ⟨-, -, hcalls, -⟩ := attempt_spec hs course.first
      rw [hcall] at hb
      exact .inr ((mem_unread_retry hb).trans hcalls)

/-! ## Runs -/

/-- The bytes that are left answer earlier requests. -/
def Inv (s : Session) : Prop := ∀ b ∈ s.unread, b.1 < s.calls

theorem shutdown_frame (s : Session) (connects : Bool) (sending : Sending) :
    (s.shutdown connects sending).calls = s.calls ∧
      (s.shutdown connects sending).unread = s.unread := by
  obtain ⟨hcalls, hunread⟩ := ensure_frame s connects
  unfold shutdown
  dsimp only
  generalize s.ensure connects = s₁ at hcalls hunread
  cases hs : s₁.sock with
  | none => exact ⟨hcalls, hunread⟩
  | some conn =>
    dsimp only
    split
    · exact ⟨hcalls, hunread⟩
    · exact ⟨hcalls, (unread_some hs).symm.trans hunread⟩

theorem inv_step (h : s.Inv) (st : Step) : (s.step st).Inv := by
  cases st with
  | close => exact fun b hb => nomatch hb
  | shutdown connects sending =>
    obtain ⟨hcalls, hunread⟩ := shutdown_frame s connects sending
    unfold Inv step
    rw [hcalls, hunread]
    exact h
  | request course =>
    obtain ⟨hcalls, hunread⟩ := ensure_frame s course.connects
    intro b hb
    rcases mem_unread_exchange hb with hmem | hcall
    · exact Nat.lt_succ_of_lt (h b (hunread ▸ hmem))
    · exact Nat.lt_succ_of_le (hcall.trans hcalls).le

theorem answered_iff (h : s.Inv) (st : Step) : s.Answered st ↔ s.Undisturbed st := by
  cases st with
  | shutdown => exact Iff.rfl
  | close => exact Iff.rfl
  | request course =>
    cases hs : s.sock with
    | none =>
      obtain ⟨hcalls, hunread⟩ := ensure_frame s course.connects
      refine iff_of_true (fun m hm => ?_) fun conn hconn => nomatch hs.symm.trans hconn
      rw [← hcalls]
      exact exchange_clean (hunread.trans (by rw [Session.unread, hs]; rfl)) hm
    | some conn =>
      have hund : s.Undisturbed (.request course) ↔
          conn.unread = [] ∨ (s.attempt conn course.first).1 = none :=
        ⟨fun hall => hall conn hs, fun hcase conn' hconn' => by
          cases hs.symm.trans hconn'
          exact hcase⟩
      have hcall : s.sendRequest course = s.exchange course := by
        rw [sendRequest, ensure_some hs]
      rw [hund, Answered, hcall]
      rcases exchange_cases hs course with ⟨m, hm, hfirst⟩ | ⟨hnone, hsecond⟩
      · cases hbytes : conn.unread with
        | nil =>
          refine iff_of_true (fun m hm => ?_) (.inl rfl)
          exact exchange_clean ((unread_some hs).trans hbytes) hm
        | cons b bs =>
          -- the message begins with a byte of an earlier answer
          have hearlier : b.1 < s.calls :=
            h b (by rw [unread_some hs, hbytes]; exact List.mem_cons_self)
          have hnot : ∀ a : UserMsg, m ≠ sent s.calls a := by
            rintro a rfl
            obtain ⟨_, -, rfl⟩ := List.mem_map.mp (attempt_stale hs hbytes hm)
            exact Nat.lt_irrefl _ hearlier
          refine iff_of_false (fun hanswered => ?_) (fun hcase => ?_)
          · rcases hanswered m (by rw [hfirst, hm]) with heq | heq
            · exact hnot _ heq
            · exact hnot _ heq
          · rw [hm] at hcase
            rcases hcase with hnil | hnone
            · cases hnil
            · cases hnone
      · refine iff_of_true (fun m hm => .inr ?_) (.inr hnone)
        rw [hsecond] at hm
        exact answer_of_failed hs hm

/-- If the second attempt's request reaches the server, the attempt reads the answer. -/
def RetryReads (s : Session) : Step → Prop
  | .request c => c.second.sending = .delivered →
      (recvMsg c.second.chunks (sent s.calls c.second.answer)).1.isSome
  | _ => True

/-- On a new connection an attempt leaves nothing, if it reads what it asked for. -/
theorem unread_retry {course : Course} (h : s.RetryReads (.request course)) :
    (s.retry course).2.unread = [] := by
  unfold retry
  cases course.reconnects with
  | false => rfl
  | true =>
    show (attempt _ ⟨[], false⟩ course.second).2.unread = []
    unfold attempt sendall
    cases hsend : course.second.sending with
    | raised => rfl
    | swallowed => exact List.suffix_nil.mp (recvMsg_suffix course.second.chunks [])
    | delivered =>
      obtain ⟨m, hm⟩ := Option.isSome_iff_exists.mp (h hsend)
      exact (recvMsg_sent course.second.answer.property (Prod.ext hm rfl)).2

theorem unread_step {st : Step} (h : s.unread = []) (hr : s.RetryReads st) :
    (s.step st).unread = [] := by
  cases st with
  | close => rfl
  | shutdown connects sending => exact (shutdown_frame s connects sending).2.trans h
  | request course =>
    obtain ⟨hcalls, hunread⟩ := ensure_frame s course.connects
    show ((s.ensure course.connects).exchange course).2.unread = []
    rw [h] at hunread
    cases hs : (s.ensure course.connects).sock with
    | none =>
      rw [exchange, hs]
      exact hunread
    | some conn =>
      rcases exchange_cases hs course with ⟨m, hm, hcall⟩ | ⟨-, hcall⟩
      · rw [hcall]
        exact (attempt_clean hs ((unread_some hs).symm.trans hunread) hm).2
      · obtain ⟨-, -, hcalls', -⟩ := attempt_spec hs course.first
        rw [hcall]
        refine unread_retry ?_
        unfold RetryReads
        rw [hcalls', hcalls]
        exact hr

/-- No call finds bytes of an earlier answer when every second attempt whose request reaches the
server reads the answer. -/
theorem undisturbed_of_retries (connects : Bool) {steps : List Step}
    (h : Along step RetryReads (.init connects) steps) :
    Along step Undisturbed (.init connects) steps := by
  refine h.mono_inv (fun s => s.unread = []) (fun s st hs hr => unread_step hs hr)
    (fun s st hs _ => ?_) (by cases connects <;> rfl)
  cases st with
  | request course => exact fun conn hconn => .inl ((unread_some hconn).symm.trans hs)
  | shutdown => trivial
  | close => trivial

end Session

/-- In every run of calls, whatever the losses of connections and the times that run out: each
call that returns a message returns what the server answered to its own request, if and only if
no first attempt succeeds on a connection where bytes of an earlier answer are left. -/
theorem own_answers (connects : Bool) (steps : List Step) :
    Along Session.step Session.Answered (.init connects) steps ↔
      Along Session.step Session.Undisturbed (.init connects) steps := by
  have hinit : (Session.init connects).Inv := by
    cases connects <;> exact fun b hb => nomatch hb
  exact ⟨fun h => h.mono_inv Session.Inv (fun s st hs _ => Session.inv_step hs st)
      (fun s st hs => (Session.answered_iff hs st).mp) hinit,
    fun h => h.mono_inv Session.Inv (fun s st hs _ => Session.inv_step hs st)
      (fun s st hs => (Session.answered_iff hs st).mpr) hinit⟩

/-- An answer to `get_status`: whether the server is shutting down, and whether it is paused. -/
def statusAnswer (paused : UInt8) : { m : UserMsg // m.body.length = m.size.toNat } :=
  ⟨⟨UserMsgType.responseGetStatus.code, 8, [0, 0, 0, 0, paused, 0, 0, 0]⟩, rfl⟩

/-- Two calls of `get_status`. The connection of the first is lost, and its second attempt sends
the request and runs out of time; the server is paused between the calls. -/
def statusCalls : List Step :=
  [.request ⟨true, ⟨.raised, statusAnswer 0, []⟩, true, ⟨.delivered, statusAnswer 0, []⟩⟩,
    .request ⟨true, ⟨.delivered, statusAnswer 1, [8, 8]⟩, true, ⟨.delivered, statusAnswer 1, [8, 8]⟩⟩]

/-- The second call returns the answer to the first one. -/
theorem own_answers_leftover :
    ¬ Along Session.step Session.Answered (.init true) statusCalls := by
  rintro ⟨-, hsecond, -⟩
  rcases hsecond (sent 0 (statusAnswer 0)) (by decide) with h | h
  · exact absurd h (by decide)
  · exact absurd h (by decide)

end JautoProf.ProfClient
