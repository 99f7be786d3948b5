import JautoProf.AddedLines
import JautoProf.ClientSends
import JautoProf.ConnectionsApart
import JautoProf.PackedRequests
import Mathlib.Data.List.ReduceOption

/-!
# A client and the server

The client's thread, the listener and the event thread, in any order. What the listener reads from
a connection of the client is a start of what the client sent on it. The listener's calls of the
handler are counted; the events in the queue and the executed ones are kept with the number of the
call that they come from.

Results:
1. `message_bytes`: a message that the handler is called with stands in what was sent.
2. `sends_unique`: the handler is called once, at most, with what an attempt sent.
3. `Inv.step`: each call of the handler puts one event in the queue, at most, which is executed once,
   at most.
-/

namespace JautoProf

open Wire Peek Ledger Vouch

variable {J : Type}

/-! ## The handler -/

/-- `msg->type` of the message in a buffer. -/
def messageType (buf : List UInt8) : UInt32 := UInt32.ofNat (ofLe (buf.take 4))

/-- `msg->body` of the message in a buffer. -/
def messageBody (buf : List UInt8) (off : Nat) : UInt8 := (buf.drop uifMsgHdrSize).getD off 0

/-- The event of a message of a client. -/
def messageEvent (k : Nat) (buf : List UInt8) : Option (PsMsg Nat) :=
  Peek.run (messageBody buf) (psUifHandler k (messageType buf) (announcedSize buf))

/-! ## The system -/

/-- `peer k` is the client's end of a connection of the listener, if it is one of the client.
`queued` and `executed` are the events with the numbers of the handler's calls; an event of another
thread has none. `lines` are the line instruments that an execution added. -/
structure Deployment (J : Type) where
  client : Requests.State
  listener : Listening.State
  peer : Nat → Option Nat
  loop : EventLoop J Nat
  queued : List (Option Nat)
  executed : List (Nat × PsMsg Nat)
  lines : List (Nat × Nat)

inductive DeploymentStep
  | client (st : Requests.Step)
  /-- A step of the listener; `source` is the other end of what `accept` returns, if the client made
  the connection, and `queues` is whether the allocations of the handler and of `evq_push`
  succeed. -/
  | listener (a : Listening.Act) (source : Option Nat) (queues : Bool)
  | closed (k : Nat)
  | post (msg : PsMsg Nat) (own : msg.client = none)
  | dispatch

namespace Deployment

def init (connects : Bool) (uif : Listening.UifFds) (pauseOnStart : Bool)
    (agentThread : Option JThread) (j : J) : Deployment J where
  client := .init connects
  listener := .init uif
  peer _ := none
  loop := .init Nat pauseOnStart agentThread j
  queued := []
  executed := []
  lines := []

/-- The client made the connection, and `accept` has not returned it. -/
def accepts (d : Deployment J) (source : Option Nat) : Bool :=
  source.all fun i => decide (i < d.client.client.nextConn) &&
    (List.range d.listener.nextConn).all fun k => decide (d.peer k ≠ some i)

/-- What was read from the client's connections is a start of what was sent. -/
def carried (d : Deployment J) : Bool :=
  (List.range d.listener.nextConn).all fun k => (d.peer k).all fun i =>
    (d.listener.received k).isPrefixOf ((d.client.client.stream i).map Prod.snd)

variable (env : Env) (jvm : Jvm J)

/-- The call `h` of the handler. -/
def handle (d : Deployment J) (h k : Nat) (buf : List UInt8) : Deployment J :=
  { d with
    loop := loopStep env jvm d.loop
      (.receive k (messageType buf) (announcedSize buf) (messageBody buf))
    queued := d.queued ++ (messageEvent k buf).toList.map fun _ => some h }

/-- The listener has made a step. -/
def heard (d : Deployment J) (a : Listening.Act) (source : Option Nat) : Deployment J :=
  let listener := Listening.step d.listener a
  { d with
    listener
    peer := if listener.nextConn = d.listener.nextConn then d.peer
      else Function.update d.peer d.listener.nextConn source }

/-- The listener makes a step, which may call the handler; what is not possible does not happen. -/
def listen (d : Deployment J) (a : Listening.Act) (source : Option Nat) (queues : Bool) :
    Deployment J :=
  let d' := d.heard a source
  if d.accepts source && d'.carried then
    match d'.listener.handled[d.listener.handled.length]? with
    | some (k, buf) => if queues then d'.handle env jvm d.listener.handled.length k buf else d'
    | none => d'
  else d

/-- The event thread takes the next event. -/
def dispatch (d : Deployment J) : Deployment J :=
  match d.loop.evQ, d.queued with
  | msg :: _, origin :: queued =>
    if d.loop.running then
      let loop := loopStep env jvm d.loop .dispatch
      { d with
        loop, queued
        executed := d.executed ++ origin.toList.map fun h => (h, msg)
        lines := d.lines ++ origin.toList.flatMap fun h =>
          (newLines d.loop.ps.instrCtx.ledger loop.ps.instrCtx.ledger).map fun id => (h, id) }
    else d
  | _, _ => d

def step (d : Deployment J) : DeploymentStep → Deployment J
  | .client st => { d with client := Requests.step d.client st }
  | .listener a source queues => d.listen env jvm a source queues
  | .closed k => { d with loop := loopStep env jvm d.loop (.closed k) }
  | .post msg own =>
    { d with loop := loopStep env jvm d.loop (.post msg own), queued := d.queued ++ [none] }
  | .dispatch => d.dispatch env jvm

/-! ## Whose request a message is -/

/-- The number of bytes of the messages of a connection. -/
def consumed (handled : List (Nat × List UInt8)) (k : Nat) : Nat :=
  ((handled.filter fun e => e.1 = k).map fun e => uifMsgHdrSize + announcedSize e.2).sum

/-- What the client sent of the message that the call `h` of the handler was for. -/
def message (d : Deployment J) (h : Nat) : List (Requests.Tag × UInt8) :=
  match d.listener.handled[h]? with
  | none => []
  | some (k, buf) =>
    (((d.peer k).elim [] d.client.client.stream).drop
      (consumed (d.listener.handled.take h) k)).take (uifMsgHdrSize + announcedSize buf)

/-- The message is what an attempt of a call sent, from its first byte to its last. One that was put
together from the bytes of two attempts is the request of no call. -/
def sends (d : Deployment J) (tag : Requests.Tag) (h : Nat) : Bool :=
  (d.client.client.tries tag.1)[tag.2]?.any fun t => d.message h = t.bytes.map fun b => (tag, b)

/-- The message is the request of a call. -/
def requests (d : Deployment J) (n h : Nat) : Bool :=
  (List.range (d.client.client.tries n).length).any fun j => d.sends (n, j) h

/-- The executions of the request of a call. -/
def executedBy (d : Deployment J) (n : Nat) : List (Nat × PsMsg Nat) :=
  d.executed.filter fun e => d.requests n e.1

/-- The line instruments in the master table that they added. -/
def linesOf (d : Deployment J) (n : Nat) : List Nat :=
  d.loop.ps.instrCtx.ledger.lineIds.filter fun id =>
    d.lines.any fun l => decide (l.2 = id) && d.requests n l.1

end Deployment

/-! ## The bytes of a message -/

/-- The message that a method sends. -/
theorem Requests.message_wire {call : ProfClient.Call} {bytes : List UInt8}
    (h : Requests.message call = .ok bytes) : ∃ m : UserMsg, m.Framed ∧
      m.type = call.type.code ∧ call.pack = .ok m.body ∧ m.wire = bytes := by
  obtain ⟨body, hpack, h⟩ := bind_eq_ok.mp h
  obtain ⟨types, htypes, h⟩ := bind_eq_ok.mp h
  obtain ⟨sizes, hsizes, h⟩ := bind_eq_ok.mp h
  obtain ⟨t, -, ht, rfl⟩ := packUnsigned_ok htypes
  obtain ⟨k, hk, hlen, rfl⟩ := packUnsigned_ok hsizes
  obtain rfl : call.type.code.toNat = t := by exact_mod_cast ht
  obtain rfl : body.length = k := by exact_mod_cast hlen
  have hsize : (UInt32.ofNat body.length).toNat = body.length := UInt32.toNat_ofNat_of_lt' hk
  refine ⟨⟨call.type.code, UInt32.ofNat body.length, body⟩, hsize.symm, rfl, hpack, ?_⟩
  rw [UserMsg.wire, hsize, ← pure_eq_ok.mp h, List.append_assoc]

/-- The event that the handler makes of the message of a call is its request. -/
theorem messageEvent_wire {m : UserMsg} (hm : m.Framed) {buf : List UInt8} (hbuf : m.wire <+: buf)
    {call : ProfClient.Call} (htype : m.type = call.type.code) (hpack : call.pack = .ok m.body)
    (k : Nat) : ∃ r : Request, r.Packs call ∧ messageEvent k buf = some (r.event k) := by
  obtain ⟨r, hpacks, hrtype, hbody⟩ := pack_body hpack
  refine ⟨r, hpacks, psUifHandler_eq_some.mpr ⟨r, ?_, ?_, rfl⟩⟩
  · obtain ⟨rest, rfl⟩ := hbuf
    rw [hrtype, ← htype, messageType, UserMsg.wire, List.append_assoc, List.take_left' (le_length 4 _),
      ofLe_le m.type.toNat_lt, UInt32.ofNat_toNat]
  · obtain ⟨rest, rfl⟩ := hbuf
    have hdrop : (m.wire ++ rest).drop uifMsgHdrSize = m.body ++ rest := by
      rw [UserMsg.wire, ← List.append_assoc, List.append_assoc,
        List.drop_left' (by simp [uifMsgHdrSize])]
    have hread : bytesAt (messageBody (m.wire ++ rest)) 0 m.body.length = m.body := by
      refine bytesAt_of_getElem fun off hlt => ?_
      rw [messageBody, hdrop, List.getD, List.getElem?_append_left hlt, List.getElem?_eq_getElem hlt]
      rfl
    rw [UserMsg.announcedSize_wire, ← hm, hread]
    exact ⟨[], (List.append_nil _).trans hbody⟩

namespace Deployment

theorem consumed_append (l l' : List (Nat × List UInt8)) (k : Nat) :
    consumed (l ++ l') k = consumed l k + consumed l' k := by
  simp [consumed]

/-- The messages of a connection follow one another. -/
theorem consumed_le {l : List (Nat × List UInt8)} {h h' k : Nat} {buf : List UInt8}
    (hat : l[h]? = some (k, buf)) (hlt : h < h') :
    consumed (l.take h) k + (uifMsgHdrSize + announcedSize buf) ≤ consumed (l.take h') k := by
  have hnext : consumed (l.take (h + 1)) k =
      consumed (l.take h) k + (uifMsgHdrSize + announcedSize buf) := by
    rw [List.take_add_one, hat, consumed_append]
    simp [consumed]
  rw [← hnext]
  obtain ⟨rest, hrest⟩ := List.take_prefix_take_left (Nat.succ_le_of_lt hlt) (l := l)
  rw [← hrest, consumed_append]
  exact Nat.le_add_right _ _

theorem delivered_split {buf : List UInt8} {pre post : List (List UInt8)} {ms : List UserMsg}
    (h : Delivered (pre ++ buf :: post) ms) :
    ∃ done m todo, ms = done ++ m :: todo ∧ Delivered pre done ∧ m.wire <+: buf := by
  induction pre generalizing ms with
  | nil =>
    cases h with
    | cons hbuf hpost => exact ⟨[], _, _, rfl, .nil, hbuf⟩
  | cons b pre ih =>
    cases h with
    | cons hb hrest =>
      obtain ⟨done, m, todo, rfl, hdone, hbuf⟩ := ih hrest
      exact ⟨_ :: done, m, todo, rfl, .cons hb hdone, hbuf⟩

theorem length_of_delivered {pre : List (List UInt8)} {ms : List UserMsg} (h : Delivered pre ms)
    (hms : ∀ m ∈ ms, m.Framed) :
    (pre.map fun buf => uifMsgHdrSize + announcedSize buf).sum =
      (ms.flatMap UserMsg.wire).length := by
  induction h with
  | nil => rfl
  | cons hbuf _ ih =>
    obtain ⟨hm, hms⟩ := List.forall_mem_cons.mp hms
    obtain ⟨rest, rfl⟩ := hbuf
    rw [List.map_cons, List.sum_cons, ih hms, UserMsg.announcedSize_wire, List.flatMap_cons,
      List.length_append, UserMsg.wire_length, hm]

section

variable {d : Deployment J} {h k i : Nat} {buf : List UInt8}

theorem message_of_handled (hat : d.listener.handled[h]? = some (k, buf)) (hpeer : d.peer k = some i) :
    d.message h = ((d.client.client.stream i).drop (consumed (d.listener.handled.take h) k)).take
      (uifMsgHdrSize + announcedSize buf) := by
  rw [message, hat]
  show (((d.peer k).elim [] d.client.client.stream).drop _).take _ = _
  rw [hpeer]
  rfl

/-- A message that the handler is called with stands in what the client sent. -/
theorem message_bytes (hlistener : Listening.Apart d.listener)
    (hbytes : d.listener.received k <+: (d.client.client.stream i).map Prod.snd)
    (hat : d.listener.handled[h]? = some (k, buf)) (hpeer : d.peer k = some i) :
    ∃ m : UserMsg, m.Framed ∧ m.wire <+: buf ∧ (d.message h).map Prod.snd = m.wire := by
  obtain ⟨ms, part, hreceived, haccepted, hdelivered, -⟩ := hlistener.frames k
  obtain ⟨hlt, hget⟩ := List.getElem?_eq_some_iff.mp hat
  -- the calls of the handler for this connection, before this one and after it
  have hsplit : d.listener.handledOf k =
      ((d.listener.handled.take h).filter fun e => e.1 = k).map Prod.snd ++
        buf :: ((d.listener.handled.drop (h + 1)).filter fun e => e.1 = k).map Prod.snd := by
    have hmid : d.listener.handled.drop h = (k, buf) :: d.listener.handled.drop (h + 1) := by
      rw [List.drop_eq_getElem_cons hlt, hget]
    rw [Listening.State.handledOf]
    nth_rewrite 1 [← List.take_append_drop h d.listener.handled]
    rw [hmid, List.filter_append, List.filter_cons, if_pos (decide_eq_true rfl), List.map_append,
      List.map_cons]
  rw [hsplit] at hdelivered
  obtain ⟨done, m, todo, rfl, hdone, hbuf⟩ := delivered_split hdelivered
  have hframed : ∀ m' ∈ done ++ m :: todo, m'.Framed := fun m' hm' => (haccepted m' hm').1
  have hm : m.Framed := hframed m (List.mem_append_right _ List.mem_cons_self)
  have hbefore : consumed (d.listener.handled.take h) k = (done.flatMap UserMsg.wire).length := by
    rw [← length_of_delivered hdone fun m' hm' => hframed m' (List.mem_append_left _ hm'),
      List.map_map]
    rfl
  have hsize : uifMsgHdrSize + announcedSize buf = m.wire.length := by
    obtain ⟨rest, rfl⟩ := hbuf
    rw [UserMsg.announcedSize_wire, UserMsg.wire_length, hm]
  refine ⟨m, hm, hbuf, ?_⟩
  obtain ⟨tail, htail⟩ := hbytes
  rw [message_of_handled hat hpeer, List.map_take, List.map_drop, ← htail, hreceived, hbefore, hsize,
    List.flatMap_append, List.flatMap_cons]
  simp only [List.append_assoc]
  rw [List.drop_left' rfl, List.take_left' rfl]

/-- Where a message stands that an attempt sent. -/
theorem of_sends (hclient : d.client.client.Inv) {tag : Requests.Tag} (hs : d.sends tag h) :
    ∃ t k buf, (d.client.client.tries tag.1)[tag.2]? = some t ∧
      d.listener.handled[h]? = some (k, buf) ∧ d.peer k = some t.conn ∧
      d.message h = t.bytes.map (fun b => (tag, b)) ∧ 0 < t.bytes.length := by
  unfold sends at hs
  cases ht : (d.client.client.tries tag.1)[tag.2]? with
  | none => rw [ht] at hs; cases hs
  | some t =>
    rw [ht] at hs
    have hmessage := of_decide_eq_true hs
    have hpos : 0 < t.bytes.length := by
      obtain ⟨call, -, hcall⟩ := hclient.message tag.1 t (List.mem_of_getElem? ht)
      obtain ⟨m, -, -, -, hwire⟩ := Requests.message_wire hcall
      rw [← hwire, UserMsg.wire_length]
      exact Nat.lt_of_lt_of_le (by decide) (Nat.le_add_right _ _)
    obtain ⟨b, bs, hbytes⟩ := List.exists_cons_of_length_pos hpos
    rw [hbytes] at hmessage
    cases hat : d.listener.handled[h]? with
    | none =>
      rw [message, hat] at hmessage
      cases hmessage
    | some e =>
      obtain ⟨k, buf⟩ := e
      cases hpeer : d.peer k with
      | none =>
        rw [message, hat] at hmessage
        simp [hpeer] at hmessage
      | some i =>
        -- its first byte is one that the attempt sent on this connection
        have hmem : (tag, b) ∈ d.message h := by
          rw [hmessage]
          exact List.mem_cons_self
        rw [message_of_handled hat hpeer] at hmem
        obtain ⟨t', ht', hconn⟩ :=
          hclient.tags i _ (List.mem_of_mem_drop (List.mem_of_mem_take hmem))
        cases ht.symm.trans ht'
        exact ⟨t, k, buf, rfl, rfl, by rw [hpeer, hconn], by rw [hbytes]; exact hmessage, hpos⟩

/-- The handler is called once, at most, with what an attempt sent. -/
theorem sends_unique (hclient : d.client.client.Inv)
    (hpeers : ∀ k k' i, d.peer k = some i → d.peer k' = some i → k = k') {tag : Requests.Tag}
    {h' : Nat} (hs : d.sends tag h) (hs' : d.sends tag h') : h = h' := by
  wlog hlt : h < h' generalizing h h'
  · rcases Nat.lt_or_eq_of_le (Nat.le_of_not_lt hlt) with hgt | heq
    · exact (this hs' hs hgt).symm
    · exact heq.symm
  obtain ⟨t, k, buf, ht, hat, hpeer, hmessage, hpos⟩ := of_sends hclient hs
  obtain ⟨t', k', buf', ht', hat', hpeer', hmessage', -⟩ := of_sends hclient hs'
  cases ht.symm.trans ht'
  obtain rfl := hpeers k k' t.conn hpeer hpeer'
  -- all bytes of both messages are bytes of the attempt, which sent as many as one of them has
  have hcount : ∀ h, d.message h = t.bytes.map (fun b => (tag, b)) →
      Requests.bytesOf tag (d.message h) = t.bytes.length := by
    intro h hmessage
    rw [hmessage, Requests.bytesOf, List.countP_map]
    exact List.countP_eq_length.mpr fun b _ => decide_eq_true rfl
  have hslices := Lists.countP_slices (fun e => decide (e.1 = tag)) (d.client.client.stream t.conn)
    (uifMsgHdrSize + announcedSize buf') (consumed_le hat hlt)
  rw [← message_of_handled hat hpeer, ← message_of_handled hat' hpeer'] at hslices
  have htwice : t.bytes.length + t.bytes.length ≤ t.bytes.length :=
    calc t.bytes.length + t.bytes.length =
          Requests.bytesOf tag (d.message h) + Requests.bytesOf tag (d.message h') := by
            rw [hcount h hmessage, hcount h' hmessage']
      _ ≤ Requests.bytesOf tag (d.client.client.stream t.conn) := hslices
      _ ≤ t.bytes.length := hclient.sent tag.1 tag.2 t ht
  exact absurd htwice (Nat.not_le.mpr (Nat.lt_add_of_pos_right hpos))

end

/-! ## What every run keeps -/

/-- The call `h` of the handler made the event. -/
def From (d : Deployment J) (h : Nat) (msg : PsMsg Nat) : Prop :=
  ∃ k buf, d.listener.handled[h]? = some (k, buf) ∧ messageEvent k buf = some msg

/-- What holds at every moment. Each number of a call of the handler is in the queue or among what
was executed, once. -/
structure Inv (d : Deployment J) : Prop where
  client : Requests.Inv d.client
  listener : Listening.Inv d.listener
  peer_lt : ∀ k i, d.peer k = some i → k < d.listener.nextConn
  peer_inj : ∀ k k' i, d.peer k = some i → d.peer k' = some i → k = k'
  bytes : ∀ k i, d.peer k = some i →
    d.listener.received k <+: (d.client.client.stream i).map Prod.snd
  queued : List.Forall₂ (fun msg origin => ∀ h ∈ origin, d.From h msg) d.loop.evQ d.queued
  executed : ∀ e ∈ d.executed, d.From e.1 e.2
  once : (d.executed.map Prod.fst ++ d.queued.reduceOption).Nodup
  ledger : anyRun.Inv d.loop.ps.instrCtx.ledger
  lines : ∀ p : Nat → Bool,
    (d.lines.countP fun l => p l.1) ≤ d.executed.countP fun e => p e.1

section

variable {env : Env} {jvm : Jvm J} {d : Deployment J}

theorem From.lt {h : Nat} {msg : PsMsg Nat} (hfrom : d.From h msg) :
    h < d.listener.handled.length := by
  obtain ⟨k, buf, hat, -⟩ := hfrom
  exact (List.getElem?_eq_some_iff.mp hat).1

/-- The calls of the handler before stay what they were. -/
theorem From.mono {h : Nat} {msg : PsMsg Nat} (hfrom : d.From h msg) {d' : Deployment J}
    (hhandled : d.listener.handled <+: d'.listener.handled) : d'.From h msg := by
  obtain ⟨k, buf, hat, hevent⟩ := hfrom
  obtain ⟨rest, hrest⟩ := hhandled
  refine ⟨k, buf, ?_, hevent⟩
  rw [← hrest, List.getElem?_append_left (List.getElem?_eq_some_iff.mp hat).1, hat]

theorem Inv.clientStep (h : d.Inv) (st : Requests.Step) :
    Inv { d with client := Requests.step d.client st } :=
  { h with
    client := h.client.step st
    bytes := fun k i hpeer =>
      (h.bytes k i hpeer).trans ((Requests.stream_step d.client st i).map Prod.snd) }

theorem heard_handled (d : Deployment J) (a : Listening.Act) (source : Option Nat) :
    d.listener.handled <+: (d.heard a source).listener.handled := by
  show d.listener.handled <+: (Listening.step d.listener a).handled
  rcases (Listening.step_frame d.listener a).2 with heq | ⟨e, heq⟩
  · exact ⟨[], (List.append_nil _).trans heq.symm⟩
  · rw [heq]
    exact List.prefix_append _ _

/-- A connection of the client is an earlier one, or the one that `accept` returned. -/
theorem heard_peer {a : Listening.Act} {source : Option Nat}
    (h : ∀ k i, d.peer k = some i → k < d.listener.nextConn) {k i : Nat}
    (hpeer : (d.heard a source).peer k = some i) : k < (d.heard a source).listener.nextConn ∧
      (d.peer k = some i ∨ k = d.listener.nextConn ∧ source = some i) := by
  have hnext : d.listener.nextConn ≤ (Listening.step d.listener a).nextConn :=
    (Listening.step_frame d.listener a).1
  unfold heard at hpeer ⊢
  dsimp only at hpeer ⊢
  split at hpeer
  · exact ⟨Nat.lt_of_lt_of_le (h k i hpeer) hnext, .inl hpeer⟩
  · next hne =>
    by_cases hk : k = d.listener.nextConn
    · subst hk
      rw [Function.update_self] at hpeer
      exact ⟨Nat.lt_of_le_of_ne hnext (Ne.symm hne), .inr ⟨rfl, hpeer⟩⟩
    · rw [Function.update_of_ne hk] at hpeer
      exact ⟨Nat.lt_of_lt_of_le (h k i hpeer) hnext, .inl hpeer⟩

theorem Inv.heard (h : d.Inv) (a : Listening.Act) {source : Option Nat}
    (haccepts : d.accepts source = true) (hcarried : (d.heard a source).carried = true) :
    (d.heard a source).Inv := by
  have hfree : ∀ k i, d.peer k = some i → source ≠ some i := by
    rintro k i hpeer rfl
    have hall := (Bool.and_eq_true_iff.mp haccepts).2
    have hne := List.all_eq_true.mp hall k (List.mem_range.mpr (h.peer_lt k i hpeer))
    exact of_decide_eq_true hne hpeer
  refine ⟨h.client, h.listener.step a, fun k i hpeer => (heard_peer h.peer_lt hpeer).1,
    fun k k' i hpeer hpeer' => ?_, fun k i hpeer => ?_,
    h.queued.imp fun msg origin hfrom n hn => (hfrom n hn).mono (heard_handled d a source),
    fun e he => (h.executed e he).mono (heard_handled d a source), h.once, h.ledger, h.lines⟩
  · rcases (heard_peer h.peer_lt hpeer).2 with hold | ⟨rfl, hnew⟩
    · rcases (heard_peer h.peer_lt hpeer').2 with hold' | ⟨-, hnew'⟩
      · exact h.peer_inj k k' i hold hold'
      · exact absurd hnew' (hfree k i hold)
    · rcases (heard_peer h.peer_lt hpeer').2 with hold' | ⟨rfl, -⟩
      · exact absurd hnew (hfree k' i hold')
      · rfl
  · have hlt := (heard_peer h.peer_lt hpeer).1
    have hall := List.all_eq_true.mp hcarried k (List.mem_range.mpr hlt)
    rw [hpeer] at hall
    exact List.isPrefixOf_iff_prefix.mp hall

/-- The handler puts one event in the queue, at most. -/
theorem handle_eq (d : Deployment J) (n k : Nat) (buf : List UInt8) :
    d.handle env jvm n k buf = (messageEvent k buf).elim d fun msg =>
      { d with loop := d.loop.push msg, queued := d.queued ++ [some n] } := by
  unfold handle messageEvent
  rw [loopStep]
  cases Peek.run (messageBody buf) (psUifHandler k (messageType buf) (announcedSize buf)) with
  | none =>
    show { d with queued := d.queued ++ [] } = d
    rw [List.append_nil]
  | some msg => rfl

theorem Inv.push (h : d.Inv) (msg : PsMsg Nat) {origin : Option Nat}
    (hfrom : ∀ n ∈ origin, d.From n msg)
    (hnew : ∀ n ∈ origin, n ∉ d.executed.map Prod.fst ++ d.queued.reduceOption) :
    Inv { d with loop := d.loop.push msg, queued := d.queued ++ [origin] } := by
  refine { h with queued := List.rel_append h.queued (.cons hfrom .nil), once := ?_ }
  show (d.executed.map Prod.fst ++ (d.queued ++ [origin]).reduceOption).Nodup
  rw [List.reduceOption_append, ← List.append_assoc]
  cases origin with
  | none => exact (List.append_nil _).symm ▸ h.once
  | some n =>
    rw [List.reduceOption_singleton, Option.toList_some, ← List.concat_eq_append]
    exact (List.nodup_concat _ _).mpr ⟨hnew n rfl, h.once⟩

/-- The number of a call of the handler that has made an event is not a new one. -/
theorem Inv.lt (h : d.Inv) {n : Nat} (hn : n ∈ d.executed.map Prod.fst ++ d.queued.reduceOption) :
    n < d.listener.handled.length := by
  rcases List.mem_append.mp hn with hn | hn
  · obtain ⟨e, he, rfl⟩ := List.mem_map.mp hn
    exact (h.executed e he).lt
  · obtain ⟨i, hi, hget⟩ := List.getElem_of_mem (List.reduceOption_mem_iff.mp hn)
    have hlt : i < d.loop.evQ.length := h.queued.length_eq ▸ hi
    exact (h.queued.get hlt hi n hget).lt

theorem Inv.listen (h : d.Inv) (a : Listening.Act) (source : Option Nat) (queues : Bool) :
    (d.listen env jvm a source queues).Inv := by
  unfold Deployment.listen
  dsimp only
  split
  · next hok =>
    obtain ⟨haccepts, hcarried⟩ := Bool.and_eq_true_iff.mp hok
    have hheard := h.heard a haccepts hcarried
    split
    · next k buf hat =>
      split
      · rw [handle_eq]
        cases hevent : messageEvent k buf with
        | none => exact hheard
        | some msg =>
          refine hheard.push msg ?_ ?_
          · rintro n hn
            cases hn
            exact ⟨k, buf, hat, hevent⟩
          · rintro n hn hmem
            cases hn
            exact absurd (h.lt hmem) (Nat.lt_irrefl _)
      · exact hheard
    · exact hheard
  · exact h

/-- What an execution adds to the line instruments, under its number. -/
theorem lines_le {L L' : Ledger} (hle : (newLines L L').length ≤ 1) (p : Nat → Bool)
    (origin : Option Nat) (msg : PsMsg Nat) :
    (origin.toList.flatMap fun n => (newLines L L').map fun id => (n, id)).countP (fun l => p l.1) ≤
      (origin.toList.map fun n => (n, msg)).countP fun e => p e.1 := by
  cases origin with
  | none => exact Nat.le_refl 0
  | some n =>
    simp only [Option.toList_some, List.flatMap_cons, List.flatMap_nil, List.append_nil,
      List.map_cons, List.map_nil, List.countP_map, List.countP_singleton]
    cases hp : p n with
    | false =>
      refine Nat.le_of_eq (List.countP_eq_zero.mpr fun id _ htrue => ?_)
      exact absurd (hp.symm.trans htrue) Bool.false_ne_true
    | true => exact List.countP_le_length.trans hle

theorem Inv.dispatch (h : d.Inv) : (d.dispatch env jvm).Inv := by
  unfold Deployment.dispatch
  split
  · next msg evQ origin queued hevQ hqueued =>
    split
    · next hrunning =>
      have hboth := h.queued
      rw [hevQ, hqueued] at hboth
      obtain ⟨hfrom, hrest⟩ := List.forall₂_cons.mp hboth
      -- the number goes from the queue to what was executed
      have honce : ((d.executed ++ origin.toList.map fun n => (n, msg)).map Prod.fst ++
          queued.reduceOption).Nodup := by
        have hbefore := h.once
        rw [hqueued] at hbefore
        cases origin with
        | none => exact (List.append_nil d.executed).symm ▸ hbefore
        | some n =>
          rw [List.reduceOption_cons_of_some] at hbefore
          rw [List.map_append, List.append_assoc]
          exact hbefore
      rw [loopStep, dispatchNext_cons hrunning hevQ]
      refine { h with
        queued := hrest, executed := fun e he => ?_, once := honce, ledger := ?_, lines := ?_ }
      · rcases List.mem_append.mp he with he | he
        · exact h.executed e he
        · obtain ⟨n, hn, rfl⟩ := List.mem_map.mp he
          exact hfrom n (Option.mem_toList.mp hn)
      · exact inv_serverStep h.ledger _
      · intro p
        show ((d.lines ++ _).countP _) ≤ (d.executed ++ _).countP _
        rw [List.countP_append, List.countP_append]
        exact Nat.add_le_add (h.lines p) (lines_le (newLines_serverStep h.ledger _) p origin msg)
    · exact h
  · exact h

theorem Inv.step (h : d.Inv) (st : DeploymentStep) : (d.step env jvm st).Inv := by
  cases st with
  | client st => exact h.clientStep st
  | listener a source queues => exact h.listen a source queues
  | closed k =>
    have hledger : anyRun.Inv (serverStep env jvm d.loop.ps (.closed k)).instrCtx.ledger :=
      inv_serverStep h.ledger _
    exact { h with ledger := hledger }
  | post msg own => exact h.push msg (fun n hn => nomatch hn) fun n hn => nomatch hn
  | dispatch => exact h.dispatch

theorem inv_init (connects : Bool) (uif : Listening.UifFds) (pauseOnStart : Bool)
    (agentThread : Option JThread) (j : J) : (init connects uif pauseOnStart agentThread j).Inv where
  client := Requests.inv_init connects
  listener := Listening.inv_steps uif []
  peer_lt _ _ hpeer := nomatch hpeer
  peer_inj _ _ _ hpeer := nomatch hpeer
  bytes _ _ hpeer := nomatch hpeer
  queued := .nil
  executed _ he := absurd he List.not_mem_nil
  once := .nil
  ledger := ihCtxInit_inv
  lines _ := Nat.le_refl 0

/-! ## Executions -/

/-- What an attempt sent is executed once, at most. -/
theorem Inv.executed_le (h : d.Inv) (tag : Requests.Tag) :
    (d.executed.filter fun e => d.sends tag e.1).length ≤ 1 := by
  have hnodup : ((d.executed.filter fun e => d.sends tag e.1).map Prod.fst).Nodup :=
    (List.Nodup.of_append_left h.once).sublist (List.filter_sublist.map _)
  cases hfirst : d.executed.filter fun e => d.sends tag e.1 with
  | nil => exact Nat.zero_le 1
  | cons e es =>
    have hsends : ∀ e' ∈ d.executed.filter (fun e => d.sends tag e.1), d.sends tag e'.1 = true :=
      fun e' he' => (List.mem_filter.mp he').2
    rw [hfirst] at hnodup hsends
    have hsub : (e :: es).map Prod.fst ⊆ [e.1] := by
      intro n hn
      obtain ⟨e', he', rfl⟩ := List.mem_map.mp hn
      exact List.mem_singleton.mpr (sends_unique h.client.client h.peer_inj (hsends e' he')
        (hsends e List.mem_cons_self))
    exact (List.length_map _).symm.trans_le (List.subperm_of_subset hnodup hsub).length_le

/-- The request of a call is executed as often as it was sent, at most. -/
theorem Inv.length_executedBy (h : d.Inv) (n : Nat) :
    (d.executedBy n).length ≤ (d.client.client.tries n).length := by
  rw [executedBy, ← List.countP_eq_length_filter]
  refine Lists.countP_any_range_le (p := fun j (e : Nat × PsMsg Nat) => d.sends (n, j) e.1)
    (fun j => ?_) _
  rw [List.countP_eq_length_filter]
  exact h.executed_le (n, j)

/-- The line instruments that are left are no more than what the executions added. -/
theorem Inv.length_linesOf (h : d.Inv) (n : Nat) :
    (d.linesOf n).length ≤ (d.executedBy n).length := by
  have hnodup : (d.linesOf n).Nodup := (Ledger.nodup_lineIds _).filter _
  have hsub : d.linesOf n ⊆ (d.lines.filter fun l => d.requests n l.1).map Prod.snd := by
    intro id hid
    obtain ⟨l, hl, hof⟩ := List.any_eq_true.mp (List.mem_filter.mp hid).2
    obtain ⟨hid, hof⟩ := Bool.and_eq_true_iff.mp hof
    exact List.mem_map.mpr ⟨l, List.mem_filter.mpr ⟨hl, hof⟩, of_decide_eq_true hid⟩
  calc (d.linesOf n).length
      ≤ ((d.lines.filter fun l => d.requests n l.1).map Prod.snd).length :=
        (List.subperm_of_subset hnodup hsub).length_le
    _ = d.lines.countP fun l => d.requests n l.1 := by
        rw [List.length_map, List.countP_eq_length_filter]
    _ ≤ d.executed.countP fun e => d.requests n e.1 := h.lines (d.requests n)
    _ = (d.executedBy n).length := List.countP_eq_length_filter

/-- What is executed is the request that the call packed. -/
theorem Inv.packs (h : d.Inv) {n : Nat} {e : Nat × PsMsg Nat} (he : e ∈ d.executedBy n) :
    ∃ call r k, d.client.client.calls[n]? = some call ∧ Request.Packs r call ∧
      e.2 = r.event k := by
  obtain ⟨hexec, hof⟩ := List.mem_filter.mp he
  obtain ⟨j, -, hsends⟩ := List.any_eq_true.mp hof
  obtain ⟨t, k, buf, ht, hat, hpeer, hmessage, -⟩ := of_sends h.client.client hsends
  obtain ⟨m, hm, hbuf, hwire⟩ := message_bytes h.listener.apart (h.bytes k t.conn hpeer) hat hpeer
  obtain ⟨call, hcall, hsent⟩ := h.client.client.message n t (List.mem_of_getElem? ht)
  obtain ⟨m', hm', htype, hpack, hwire'⟩ := Requests.message_wire hsent
  -- the message that the handler was called with is the one of the call
  have hsame : m.wire = m'.wire := by
    rw [← hwire, hmessage, hwire', List.map_map]
    exact List.map_id t.bytes
  obtain ⟨rfl, -⟩ := UserMsg.prefixFree m m' hm hm' [] [] (congrArg (· ++ []) hsame)
  obtain ⟨r, hpacks, hevent⟩ := messageEvent_wire hm hbuf htype hpack k
  obtain ⟨k', buf', hat', hevent'⟩ := h.executed e hexec
  cases hat.symm.trans hat'
  exact ⟨call, r, k, hcall, hpacks, Option.some.inj (hevent'.symm.trans hevent)⟩

end

end Deployment

end JautoProf
