import JautoProf.Pauses
import JautoProf.PsUifHandler

/-!
# The event loop

The listener decodes what the clients send and appends an event to the queue for each
request that is well formed. The event thread takes the events from the front, one after the
other, and ends when `dispatch` says so.

Results:
1. `requests_answered`: when the allocations succeed, each request that is dispatched while
   its client is open is sent one response of its type, and the responses to a client are in
   the order of its requests, if and only if the bodies of the responses fit in 32 bits and
   the JVM returns the stats.
2. `stats_unanswered`: a run where the JVM does not, and a request is sent no response.
-/

namespace JautoProf

variable {J C : Type} [DecidableEq C] (env : Env) (jvm : Jvm J)

/-- The server and its queue. `requests` are the requests that were put in the queue, and
`dispatched` those of them that were dispatched while their client was open. -/
structure EventLoop (J C : Type) where
  ps : ProfServer J C
  evQ : List (PsMsg C)
  running : Bool
  requests : List (C × UsrRq)
  dispatched : List (C × UsrRq)

/-- The request that an event carries, if it carries one. -/
def PsMsg.request : PsMsg C → List (C × UsrRq)
  | .usrRq client rq => [(client, rq)]
  | _ => []

namespace EventLoop

/-- The start of the event loop. -/
def init (C : Type) (pauseOnStart : Bool) (agentThread : Option JThread) (j : J) : EventLoop J C where
  ps := psInit C pauseOnStart agentThread j
  evQ := []
  running := true
  requests := []
  dispatched := []

/-- `evq_push`. -/
def push (s : EventLoop J C) (msg : PsMsg C) : EventLoop J C :=
  { s with evQ := s.evQ ++ [msg], requests := s.requests ++ msg.request }

end EventLoop

/-- The listener receives a message of a client or closes it, another thread posts an event
that no client asked for, or the event thread takes the next event. -/
inductive LoopEvent (C : Type)
  | receive (client : C) (type : UInt32) (size : Nat) (mem : Nat → UInt8)
  | closed (client : C)
  | post (msg : PsMsg C) (own : msg.client = none)
  | dispatch

/-- The event thread takes the next event. -/
def dispatchNext (s : EventLoop J C) : EventLoop J C :=
  match s.evQ with
  | [] => s
  | msg :: evQ =>
    if s.running then
      { s with
        ps := serverStep env jvm s.ps (.dispatch msg)
        evQ := evQ
        running := (dispatch env jvm msg).result s.ps
        dispatched := s.dispatched ++ msg.request.filter fun r => r.1 ∉ s.ps.uif.closed }
    else s

def loopStep (s : EventLoop J C) : LoopEvent C → EventLoop J C
  | .receive client type size mem =>
    match Peek.run mem (psUifHandler client type size) with
    | none => s
    | some msg => s.push msg
  | .closed client => { s with ps := serverStep env jvm s.ps (.closed client) }
  | .post msg _ => s.push msg
  | .dispatch => dispatchNext env jvm s

/-! ## What is answered -/

/-- The next event is this request of an open client. -/
def Next (s : EventLoop J C) (client : C) (rq : UsrRq) : Prop :=
  s.running = true ∧ client ∉ s.ps.uif.closed ∧ ∃ evQ, s.evQ = .usrRq client rq :: evQ

/-- When the event thread takes a request of an open client, one response of the type of the
request is sent to the client. -/
def AnswersOnce (s : EventLoop J C) : LoopEvent C → Prop
  | .dispatch => ∀ client rq, Next s client rq → ∃ msg : UserMsg,
      msg.type = rq.responseType.code ∧
        (dispatchNext env jvm s).ps.uif.sent = s.ps.uif.sent ++ [(client, msg)]
  | _ => True

/-- When the event thread takes a request of an open client, the request can be answered. -/
def TakesAnswerable (s : EventLoop J C) : LoopEvent C → Prop
  | .dispatch => ∀ client rq, Next s client rq → Answerable jvm s.ps rq
  | _ => True

/-- The items of a client. -/
def ofClient {α : Type} (client : C) (l : List (C × α)) : List α :=
  (l.filter fun r => r.1 = client).map Prod.snd

/-- What a client was sent are the responses to its requests, in the order of the requests. -/
def InOrder (s : EventLoop J C) : Prop :=
  ∀ client, (ofClient client s.ps.uif.sent).map UserMsg.type =
      (ofClient client s.dispatched).map (fun rq => rq.responseType.code) ∧
    ofClient client s.dispatched <+: ofClient client s.requests

variable {env jvm}

/-! ## One step -/

theorem dispatchNext_cons {s : EventLoop J C} {msg : PsMsg C} {evQ : List (PsMsg C)}
    (hrunning : s.running = true) (hevQ : s.evQ = msg :: evQ) :
    dispatchNext env jvm s = { s with
      ps := serverStep env jvm s.ps (.dispatch msg)
      evQ := evQ
      running := (dispatch env jvm msg).result s.ps
      dispatched := s.dispatched ++ msg.request.filter fun r => r.1 ∉ s.ps.uif.closed } := by
  unfold dispatchNext
  rw [hevQ]
  exact if_pos hrunning

theorem answersOnce_iff (h : HeapOk env jvm) (s : EventLoop J C) (e : LoopEvent C) :
    AnswersOnce env jvm s e ↔ TakesAnswerable jvm s e := by
  cases e with
  | dispatch =>
    refine forall_congr' fun client => forall_congr' fun rq => forall_congr' fun hnext => ?_
    obtain ⟨hrunning, hopen, evQ, hevQ⟩ := hnext
    rw [← response_isSome_iff env jvm h, dispatchNext_cons hrunning hevQ]
    constructor
    · rintro ⟨msg, -, hsent⟩
      obtain ⟨-, -, hr⟩ := sends_iff.mp ⟨msg, rfl, hsent⟩
      rw [hr]
      rfl
    · intro hsome
      obtain ⟨msg, hr⟩ := Option.isSome_iff_exists.mp hsome
      obtain ⟨msg', hmsg, hsent⟩ := sends_iff.mpr ⟨hopen, hsome, rfl⟩
      exact ⟨msg', response_type env jvm hmsg, hsent⟩
  | receive => exact Iff.rfl
  | closed => exact Iff.rfl
  | post => exact Iff.rfl

/-! ## The order of the responses -/

theorem ofClient_append {α : Type} (client : C) (l l' : List (C × α)) :
    ofClient client (l ++ l') = ofClient client l ++ ofClient client l' := by
  simp [ofClient]

theorem ofClient_nil {α : Type} (client : C) : ofClient client ([] : List (C × α)) = [] := rfl

theorem ofClient_self {α : Type} (client : C) (x : α) : ofClient client [(client, x)] = [x] := by
  simp [ofClient]

theorem ofClient_ne {α : Type} {client client' : C} (h : client' ≠ client) (x : α) :
    ofClient client [(client', x)] = [] := by
  simp [ofClient, h]

/-- The requests in the queue. -/
def EventLoop.queued (s : EventLoop J C) : List (C × UsrRq) := s.evQ.flatMap PsMsg.request

/-- What a client was sent matches its dispatched requests, which are followed by those that
were taken after it was closed and by those in the queue. -/
def Ordered (s : EventLoop J C) (client : C) : Prop :=
  (ofClient client s.ps.uif.sent).map UserMsg.type =
      (ofClient client s.dispatched).map (fun rq => rq.responseType.code) ∧
    ∃ skipped, ofClient client s.requests =
      ofClient client s.dispatched ++ (skipped ++ ofClient client s.queued) ∧
        (client ∉ s.ps.uif.closed → skipped = [])

theorem Ordered.inOrder {s : EventLoop J C} (h : ∀ client, Ordered s client) : InOrder s := by
  intro client
  obtain ⟨hsent, skipped, hreq, -⟩ := h client
  exact ⟨hsent, _, hreq.symm⟩

theorem Ordered.push {s : EventLoop J C} {client : C} (h : Ordered s client) (msg : PsMsg C) :
    Ordered (s.push msg) client := by
  obtain ⟨hsent, skipped, hreq, hopen⟩ := h
  refine ⟨hsent, skipped, ?_, hopen⟩
  have hqueued : (s.push msg).queued = s.queued ++ msg.request := by
    simp [EventLoop.queued, EventLoop.push]
  show ofClient client (s.requests ++ msg.request) = _
  rw [hqueued, ofClient_append, ofClient_append, hreq]
  simp [EventLoop.push]

/-- The event thread takes an event that is no request. -/
theorem Ordered.dispatch_own {s : EventLoop J C} {client : C} (h : Ordered s client)
    {msg : PsMsg C} (hown : msg.request = []) {evQ : List (PsMsg C)} (hevQ : s.evQ = msg :: evQ)
    (hrunning : s.running = true) : Ordered (dispatchNext env jvm s) client := by
  obtain ⟨hsent, skipped, hreq, hopen⟩ := h
  have huif : (serverStep env jvm s.ps (.dispatch msg)).uif = s.ps.uif := by
    cases msg with
    | usrRq client' rq => cases hown
    | _ => rfl
  have hqueued : s.queued = evQ.flatMap PsMsg.request := by
    rw [EventLoop.queued, hevQ, List.flatMap_cons, hown, List.nil_append]
  rw [dispatchNext_cons hrunning hevQ, hown, List.filter_nil, List.append_nil]
  rw [hqueued] at hreq
  refine ⟨?_, skipped, hreq, ?_⟩
  · rw [huif]
    exact hsent
  · rw [huif]
    exact hopen

theorem Ordered.dispatch_usrRq {s : EventLoop J C} {client : C} (h : Ordered s client)
    {client' : C} {rq : UsrRq} {evQ : List (PsMsg C)} (hevQ : s.evQ = .usrRq client' rq :: evQ)
    (hrunning : s.running = true)
    (hresp : client' ∉ s.ps.uif.closed → (response env jvm s.ps rq).isSome) :
    Ordered (dispatchNext env jvm s) client := by
  obtain ⟨hsent, skipped, hreq, hopen⟩ := h
  have huif : (serverStep env jvm s.ps (.dispatch (.usrRq client' rq))).uif =
      s.ps.uif.add client' (response env jvm s.ps rq) := dispatch_usrRq_uif s.ps client' rq
  have hqueued : ofClient client s.queued =
      ofClient client [(client', rq)] ++ ofClient client (evQ.flatMap PsMsg.request) := by
    rw [EventLoop.queued, hevQ, List.flatMap_cons, ← ofClient_append]
    rfl
  rw [hqueued] at hreq
  rw [dispatchNext_cons hrunning hevQ]
  unfold Ordered
  simp only [huif, UserIf.closed_add, ofClient_append]
  by_cases hclosed : client' ∈ s.ps.uif.closed
  · -- the client is gone: its request is skipped, and nothing is sent
    have hadd : s.ps.uif.add client' (response env jvm s.ps rq) = s.ps.uif := by
      unfold UserIf.add
      split
      · rfl
      · exact if_pos hclosed
    have hfilter : (PsMsg.usrRq client' rq).request.filter (fun r => r.1 ∉ s.ps.uif.closed) = [] := by
      simp [PsMsg.request, hclosed]
    rw [hadd, hfilter]
    refine ⟨by rwa [ofClient_nil, List.append_nil], skipped ++ ofClient client [(client', rq)], ?_, ?_⟩
    · rw [hreq, ofClient_nil, List.append_nil, List.append_assoc]
      rfl
    · intro hnot
      have hne : client' ≠ client := by
        rintro rfl
        exact hnot hclosed
      rw [hopen hnot, ofClient_ne hne]
      rfl
  · obtain ⟨msg, hmsg⟩ := Option.isSome_iff_exists.mp (hresp hclosed)
    have hadd : (s.ps.uif.add client' (response env jvm s.ps rq)).sent =
        s.ps.uif.sent ++ [(client', msg)] := by
      rw [hmsg, UserIf.add, if_neg hclosed]
    have hfilter : (PsMsg.usrRq client' rq).request.filter (fun r => r.1 ∉ s.ps.uif.closed) =
        [(client', rq)] := by
      simp [PsMsg.request, hclosed]
    rw [hadd, hfilter]
    by_cases heq : client' = client
    · subst heq
      simp only [ofClient_append, ofClient_self, List.map_append, hsent, List.map_cons, List.map_nil,
        response_type env jvm hmsg, true_and]
      refine ⟨[], ?_, fun _ => rfl⟩
      -- no request of an open client was skipped, so this is its oldest one
      rw [hreq, hopen hclosed, ofClient_self, List.nil_append, List.nil_append, List.append_assoc]
      rfl
    · simp only [ofClient_append, ofClient_ne heq, List.append_nil, hsent, true_and]
      refine ⟨skipped, ?_, hopen⟩
      rw [hreq, ofClient_ne heq]
      rfl

theorem ordered_step (h : HeapOk env jvm) {s : EventLoop J C} (hs : ∀ client, Ordered s client)
    {e : LoopEvent C} (he : TakesAnswerable jvm s e) (client : C) :
    Ordered (loopStep env jvm s e) client := by
  cases e with
  | receive client' type size mem =>
    cases hrun : Peek.run mem (psUifHandler client' type size) with
    | none =>
      simp only [loopStep, hrun]
      exact hs client
    | some msg =>
      simp only [loopStep, hrun]
      exact (hs client).push msg
  | closed client' =>
    obtain ⟨hsent, skipped, hreq, hopen⟩ := hs client
    exact ⟨hsent, skipped, hreq, fun hnot => hopen fun hmem => hnot (List.mem_cons_of_mem _ hmem)⟩
  | post msg own => exact (hs client).push msg
  | dispatch =>
    unfold loopStep
    cases hevQ : s.evQ with
    | nil =>
      unfold dispatchNext
      rw [hevQ]
      exact hs client
    | cons msg evQ =>
      cases hrunning : s.running with
      | false =>
        unfold dispatchNext
        rw [hevQ]
        simp only [hrunning, Bool.false_eq_true, if_false]
        exact hs client
      | true =>
        cases msg with
        | usrRq client' rq =>
          refine (hs client).dispatch_usrRq hevQ hrunning fun hopen => ?_
          exact (response_isSome_iff env jvm h _ _).mpr (he client' rq ⟨hrunning, hopen, evQ, hevQ⟩)
        | _ => exact (hs client).dispatch_own rfl hevQ hrunning

theorem ordered_init (pauseOnStart : Bool) (agentThread : Option JThread) (j : J) (client : C) :
    Ordered (EventLoop.init C pauseOnStart agentThread j) client :=
  ⟨rfl, [], rfl, fun _ => rfl⟩

/-! ## Runs -/

/-- For every run of the event loop in which the allocations succeed: each request that is
dispatched while its client is open is sent one response of its type, and what a client was
sent are the responses to its requests in their order, if and only if each of these requests
can be answered. -/
theorem requests_answered (env : Env) (jvm : Jvm J) (h : HeapOk env jvm) (pauseOnStart : Bool)
    (agentThread : Option JThread) (j : J) (es : List (LoopEvent C)) :
    Runs.Along (loopStep env jvm)
        (fun s e => AnswersOnce env jvm s e ∧ InOrder (loopStep env jvm s e))
        (EventLoop.init C pauseOnStart agentThread j) es ↔
      Runs.Along (loopStep env jvm) (TakesAnswerable jvm)
        (EventLoop.init C pauseOnStart agentThread j) es := by
  constructor
  · exact fun hok => hok.mono fun s e hs => (answersOnce_iff h s e).mp hs.1
  · intro hok
    refine hok.mono_inv (fun s => ∀ client, Ordered s client)
      (fun s e hs he => ordered_step h hs he) (fun s e hs he => ?_) (ordered_init _ _ _)
    exact ⟨(answersOnce_iff h s e).mpr he, Ordered.inOrder (ordered_step h hs he)⟩

/-- A JVM whose calls succeed, but for those that get the stats where `stats` is `false`. -/
def smoothJvm (stats : Bool) : Jvm Unit where
  malloc _ := pure true
  getAllThreads := pure (some [])
  getThreadInfo _ := pure (some false)
  getThreadState _ := pure (some 0)
  suspendThreadList _ := pure ()
  resumeThread _ := pure ()
  newGlobalRef _ := pure true
  deleteGlobalRef _ := pure ()
  getStats := pure (if stats then some [] else none)

theorem heapOk_smooth (stats : Bool) : HeapOk Env.smooth (smoothJvm stats) :=
  ⟨fun _ => rfl, fun _ => rfl, fun _ _ => rfl⟩

/-- A client asks for the stats. -/
def statsRun : List (LoopEvent Nat) :=
  [.receive 0 UserMsgType.requestGetStats.code 0 fun _ => 0, .dispatch]

theorem requests_answered_stats :
    HeapOk Env.smooth (smoothJvm true) ∧
      Runs.Along (loopStep Env.smooth (smoothJvm true))
        (fun s e => AnswersOnce Env.smooth (smoothJvm true) s e ∧
          InOrder (loopStep Env.smooth (smoothJvm true) s e))
        (EventLoop.init Nat false none ()) statsRun := by
  refine ⟨heapOk_smooth true, ?_⟩
  refine (requests_answered Env.smooth (smoothJvm true) (heapOk_smooth true) false none ()
    statsRun).mpr ?_
  refine ⟨trivial, ?_, trivial⟩
  rintro client rq ⟨-, -, evQ, hevQ⟩
  cases hevQ
  rfl

/-- The JVM does not return the stats, and the client that asked for them is sent nothing. -/
theorem stats_unanswered :
    HeapOk Env.smooth (smoothJvm false) ∧
      ¬ Runs.Along (loopStep Env.smooth (smoothJvm false))
        (fun s e => AnswersOnce Env.smooth (smoothJvm false) s e ∧
          InOrder (loopStep Env.smooth (smoothJvm false) s e))
        (EventLoop.init Nat false none ()) statsRun := by
  refine ⟨heapOk_smooth false, ?_⟩
  rintro ⟨-, ⟨h, -⟩, -⟩
  obtain ⟨msg, -, hsent⟩ := h 0 .getStats ⟨rfl, List.not_mem_nil, [], rfl⟩
  cases hsent

end JautoProf
