import JautoProf.RemoteCalls
import Mathlib.Data.List.Forall2

/-!
# Runs of remote calls (`prof_client.py`, `user-if.c`, `prof-server.c`)

`Net` runs the event loop together with its clients: a client calls a method, whose packed body
the listener finds in its buffer, in front of what earlier messages left there; and the loop has
its other events, among them messages that no method sent.

Results:
1. `Net.linear_step`, `Net.carried_step`: what was sent goes with what was served, and what was
   served with what was called.
2. `calls_carried_out`: in every run, each client is answered in the order of its calls, every
   call is carried out once, with its arguments, on the server as it is at that moment, and
   returns what it came to there.
-/

namespace JautoProf

open Wire Utf8 Peek ProfClient

variable {J C : Type}

/-! ## Calls and their service -/

/-- The receive buffer: the body of a request, and behind it what earlier messages left. -/
def callBuffer (body : List UInt8) (stale : Nat → UInt8) (off : Nat) : UInt8 :=
  body.getD off (stale off)

/-- The event loop with its clients: the calls that sent a request and wait for its response, and
what the event thread had before it each time it took a request of an open client. -/
structure Net (J C : Type) where
  loop : EventLoop J C
  calls : List (C × ProfClient.Call)
  served : List (C × Served J C)

/-- The start of the event loop, without clients. -/
def Net.init (C : Type) (pauseOnStart : Bool) (agentThread : Option JThread) (j : J) : Net J C where
  loop := .init C pauseOnStart agentThread j
  calls := []
  served := []

/-- A client calls a method, or another event of the loop happens. -/
inductive NetEvent (C : Type)
  | call (client : C) (call : ProfClient.Call) (stale : Nat → UInt8)
  | loop (e : LoopEvent C)

variable [DecidableEq C] (env : Env) (jvm : Jvm J)

/-- What the event thread has before it when it takes a request of an open client. -/
def taken (s : EventLoop J C) : LoopEvent C → List (C × Served J C)
  | .dispatch =>
    match s.evQ with
    | .usrRq client rq :: _ =>
      if s.running ∧ client ∉ s.ps.uif.closed then [(client, ⟨s.ps, rq⟩)] else []
    | _ => []
  | _ => []

def netStep (s : Net J C) : NetEvent C → Net J C
  | .call client call stale =>
    match call.pack with
    | .error _ => s
    | .ok body =>
      { s with
        loop := loopStep env jvm s.loop
          (.receive client call.type.code body.length (callBuffer body stale))
        calls := s.calls ++ if call = .shutdown then [] else [(client, call)] }
  | .loop e =>
    { s with loop := loopStep env jvm s.loop e, served := s.served ++ taken s.loop e }

/-- The requests that the event thread takes can be answered. -/
def NetAnswerable (s : Net J C) : NetEvent C → Prop
  | .loop e => TakesAnswerable jvm s.loop e
  | .call .. => True

/-- The client sends nothing but the requests of its calls, whose strings hold no U+0000. -/
def NetEvent.OnlyCalls (client : C) : NetEvent C → Prop
  | .call client' c _ => client' = client → ∀ s ∈ c.strings, ∀ x ∈ s, x.val ≠ 0
  | .loop (.receive client' ..) => client' ≠ client
  | .loop _ => True

variable {env jvm}

theorem bytesAt_callBuffer (body : List UInt8) (stale : Nat → UInt8) :
    bytesAt (callBuffer body stale) 0 body.length = body := by
  refine bytesAt_of_getElem fun off hlt => ?_
  rw [callBuffer, List.getD, List.getElem?_eq_getElem hlt]
  rfl

omit [DecidableEq C] in
/-- The event of the listener for a packed body. -/
theorem run_packed {call : ProfClient.Call} {body : List UInt8} (h : call.pack = .ok body)
    (client : C) (stale : Nat → UInt8) (h0 : ∀ s ∈ call.strings, ∀ c ∈ s, c ≠ 0) :
    ∃ ev : PsMsg C, run (callBuffer body stale)
        (psUifHandler client call.type.code body.length) = some ev ∧ ev.Carries client call := by
  obtain ⟨r, hpacks, htype, hbody⟩ := pack_body h
  refine ⟨r.event client, ?_, hpacks.carries client h0⟩
  have hbytes := (bytesAt_callBuffer body stale).trans hbody.symm
  exact psUifHandler_eq_some.mpr ⟨r, by rw [htype], hbytes ▸ List.prefix_rfl, rfl⟩

/-! ## What every run keeps -/

/-- What was sent and what was served go together, in the order of the requests. -/
structure Net.Linear (env : Env) (jvm : Jvm J) (s : Net J C) : Prop where
  ordered : ∀ client, Ordered s.loop client
  dispatched : s.served.map (fun v => (v.1, v.2.rq)) = s.loop.dispatched
  sent : List.Forall₂ (fun m v => m.1 = v.1 ∧ response env jvm v.2.ps v.2.rq = some m.2)
    s.loop.ps.uif.sent s.served

namespace Net

theorem linear_init (pauseOnStart : Bool) (agentThread : Option JThread) (j : J) :
    (Net.init C pauseOnStart agentThread j).Linear env jvm where
  ordered := ordered_init pauseOnStart agentThread j
  dispatched := rfl
  sent := .nil

/-- An event that takes no request of an open client. -/
theorem Linear.keep {s : Net J C} (h : s.Linear env jvm) {loop : EventLoop J C}
    (hordered : ∀ client, Ordered loop client) (hdispatched : loop.dispatched = s.loop.dispatched)
    (hsent : loop.ps.uif.sent = s.loop.ps.uif.sent) (calls : List (C × ProfClient.Call)) :
    Linear env jvm { s with loop := loop, calls := calls } where
  ordered := hordered
  dispatched := h.dispatched.trans hdispatched.symm
  sent := hsent ▸ h.sent

variable (env jvm) in
theorem receive_frame (s : EventLoop J C) (client : C) (type : UInt32) (size : Nat)
    (mem : Nat → UInt8) :
    let s' := loopStep env jvm s (.receive client type size mem)
    s'.dispatched = s.dispatched ∧ s'.ps = s.ps := by
  dsimp only [loopStep]
  cases run mem (psUifHandler client type size) with
  | none => exact ⟨rfl, rfl⟩
  | some msg => exact ⟨rfl, rfl⟩

theorem Linear.receive {s : Net J C} (h : s.Linear env jvm) (hok : HeapOk env jvm) (client : C)
    (type : UInt32) (size : Nat) (mem : Nat → UInt8) (calls : List (C × ProfClient.Call)) :
    Linear env jvm { s with
      loop := loopStep env jvm s.loop (.receive client type size mem), calls := calls } := by
  obtain ⟨hdispatched, hps⟩ := receive_frame env jvm s.loop client type size mem
  exact h.keep (ordered_step hok h.ordered (e := .receive client type size mem) trivial) hdispatched
    (by rw [hps]) calls

/-- The event thread takes a request of an open client. -/
theorem Linear.serve {s : Net J C} (h : s.Linear env jvm) (hok : HeapOk env jvm)
    (he : TakesAnswerable jvm s.loop .dispatch) {client : C} {rq : UsrRq} {evQ : List (PsMsg C)}
    (hevQ : s.loop.evQ = .usrRq client rq :: evQ) (hrunning : s.loop.running = true)
    (hopen : client ∉ s.loop.ps.uif.closed) :
    Linear env jvm { s with
      loop := dispatchNext env jvm s.loop
      served := s.served ++ [(client, ⟨s.loop.ps, rq⟩)] } := by
  have hanswer := he client rq ⟨hrunning, hopen, evQ, hevQ⟩
  obtain ⟨msg, hmsg⟩ := Option.isSome_iff_exists.mp ((response_isSome_iff env jvm hok _ _).mpr hanswer)
  refine ⟨ordered_step hok h.ordered (e := .dispatch) he, ?_, ?_⟩
  · rw [dispatchNext_cons hrunning hevQ, List.map_append, h.dispatched]
    simp [PsMsg.request, hopen]
  · have huif : (serverStep env jvm s.loop.ps (.dispatch (.usrRq client rq))).uif.sent =
        s.loop.ps.uif.sent ++ [(client, msg)] := by
      have hadd : (serverStep env jvm s.loop.ps (.dispatch (.usrRq client rq))).uif =
          s.loop.ps.uif.add client (response env jvm s.loop.ps rq) := dispatch_usrRq_uif _ client rq
      rw [hadd, hmsg, UserIf.add, if_neg hopen]
    rw [dispatchNext_cons hrunning hevQ]
    show List.Forall₂ _ (serverStep env jvm s.loop.ps (.dispatch (.usrRq client rq))).uif.sent _
    rw [huif]
    exact List.rel_append h.sent (.cons ⟨rfl, hmsg⟩ .nil)

theorem linear_step (hok : HeapOk env jvm) {s : Net J C} (h : s.Linear env jvm) {e : NetEvent C}
    (he : NetAnswerable jvm s e) : (netStep env jvm s e).Linear env jvm := by
  cases e with
  | call client call stale =>
    unfold netStep
    split
    · rename_i heq
      cases heq
      split
      · exact h
      · exact h.receive hok _ _ _ _ _
    · rename_i heq
      cases heq
  | loop e =>
    have hordered := ordered_step hok h.ordered (e := e) he
    cases e with
    | receive client type size mem =>
      simpa [netStep, taken] using h.receive hok client type size mem s.calls
    | closed client => simpa [netStep, taken] using h.keep hordered rfl rfl s.calls
    | post msg own => simpa [netStep, taken] using h.keep hordered rfl rfl s.calls
    | dispatch =>
      have hordered : ∀ client, Ordered (dispatchNext env jvm s.loop) client := hordered
      show Net.Linear env jvm { s with
        loop := dispatchNext env jvm s.loop, served := s.served ++ taken s.loop .dispatch }
      cases hevQ : s.loop.evQ with
      | nil =>
        have hstay : dispatchNext env jvm s.loop = s.loop := by
          unfold dispatchNext
          rw [hevQ]
        simpa [taken, hevQ] using h.keep hordered (by rw [hstay]) (by rw [hstay]) s.calls
      | cons msg evQ =>
        cases hrunning : s.loop.running with
        | false =>
          have hstay : dispatchNext env jvm s.loop = s.loop := by
            unfold dispatchNext
            rw [hevQ]
            simp [hrunning]
          have htaken : taken s.loop .dispatch = [] := by
            unfold taken
            rw [hevQ]
            cases msg <;> simp [hrunning]
          rw [htaken, List.append_nil]
          exact h.keep hordered (by rw [hstay]) (by rw [hstay]) s.calls
        | true =>
          have hnext : dispatchNext env jvm s.loop = _ := dispatchNext_cons hrunning hevQ
          cases msg with
          | usrRq client rq =>
            by_cases hopen : client ∈ s.loop.ps.uif.closed
            · have huif : (serverStep env jvm s.loop.ps (.dispatch (.usrRq client rq))).uif =
                  s.loop.ps.uif := by
                refine (dispatch_usrRq_uif _ client rq).trans ?_
                unfold UserIf.add
                split
                · rfl
                · exact if_pos hopen
              have htaken : taken s.loop .dispatch = [] := by simp [taken, hevQ, hopen]
              rw [htaken, List.append_nil]
              refine h.keep hordered ?_ ?_ s.calls
              · rw [hnext]
                simp [PsMsg.request, hopen]
              · rw [hnext]
                exact congrArg UserIf.sent huif
            · have htaken : taken s.loop .dispatch = [(client, ⟨s.loop.ps, rq⟩)] := by
                simp [taken, hevQ, hopen, hrunning]
              rw [htaken]
              exact h.serve hok he hevQ hrunning hopen
          | _ =>
            have htaken : taken s.loop .dispatch = [] := by simp [taken, hevQ]
            rw [htaken, List.append_nil]
            refine h.keep hordered ?_ ?_ s.calls
            · rw [hnext]
              simp [PsMsg.request]
            · rw [hnext]
              rfl

/-- The requests of the client have the arguments of its calls. -/
def Carried (client : C) (s : Net J C) : Prop :=
  List.Forall₂ (fun call rq => PsMsg.Carries client (.usrRq client rq) call)
    (ofClient client s.calls) (ofClient client s.loop.requests)

omit [DecidableEq C] in
/-- A request that the listener makes is one of the client that sent the message. -/
theorem request_of_handler {mem : Nat → UInt8} {client : C} {type : UInt32} {size : Nat}
    {msg : PsMsg C} (h : run mem (psUifHandler client type size) = some msg) :
    msg.request = [] ∨ ∃ rq, msg.request = [(client, rq)] := by
  obtain ⟨r, -, -, rfl⟩ := psUifHandler_eq_some.mp h
  cases r with
  | shutdown => exact .inl rfl
  | _ => exact .inr ⟨_, rfl⟩

omit [DecidableEq C] in
/-- A request that carries a call is one, unless it is a shutdown. -/
theorem request_of_carries {client : C} {msg : PsMsg C} {call : ProfClient.Call}
    (h : msg.Carries client call) : (call = .shutdown ∧ msg.request = []) ∨
      (call ≠ .shutdown ∧ ∃ rq, msg = .usrRq client rq ∧ msg.request = [(client, rq)]) := by
  cases h with
  | shutdown => exact .inl ⟨rfl, rfl⟩
  | _ => exact .inr ⟨by simp, _, rfl, rfl⟩

theorem Carried.call {client : C} {s : Net J C} (h : s.Carried client) {call : ProfClient.Call}
    (h0 : ∀ t ∈ call.strings, ∀ x ∈ t, x ≠ 0) (stale : Nat → UInt8) :
    (netStep env jvm s (.call client call stale)).Carried client := by
  unfold netStep
  dsimp only
  split
  · exact h
  · rename_i body hpack
    obtain ⟨ev, hrun, hcarries⟩ := run_packed hpack client stale h0
    unfold Carried at h ⊢
    simp only [loopStep, hrun, EventLoop.push, ofClient_append]
    rcases request_of_carries hcarries with ⟨rfl, hreq⟩ | ⟨hne, rq, rfl, hreq⟩
    · simpa [hreq, ofClient_nil] using h
    · rw [if_neg hne, hreq, ofClient_self, ofClient_self]
      exact List.rel_append h (.cons hcarries .nil)

/-- A message of another client. -/
theorem Carried.other {client client' : C} {s : Net J C} (h : s.Carried client)
    (hne : client' ≠ client) (type : UInt32) (size : Nat) (mem : Nat → UInt8)
    {calls : List (C × ProfClient.Call)} (hcalls : ofClient client calls = []) :
    Carried client { s with
      loop := loopStep env jvm s.loop (.receive client' type size mem)
      calls := s.calls ++ calls } := by
  unfold Carried at h ⊢
  simp only [loopStep, ofClient_append, hcalls, List.append_nil]
  split
  · exact h
  · rename_i msg hrun
    simp only [EventLoop.push, ofClient_append]
    rcases request_of_handler hrun with hreq | ⟨rq, hreq⟩
    · rwa [hreq, ofClient_nil, List.append_nil]
    · rwa [hreq, ofClient_ne hne, List.append_nil]

theorem carried_step {client : C} {s : Net J C} (h : s.Carried client) {e : NetEvent C}
    (he : e.OnlyCalls client) : (netStep env jvm s e).Carried client := by
  cases e with
  | call client' call stale =>
    by_cases heq : client' = client
    · subst heq
      exact h.call (fun t ht x hx h0 => he rfl t ht x hx (congrArg Fin.val h0)) stale
    · unfold netStep
      dsimp only
      split
      · exact h
      · refine h.other heq _ _ _ ?_
        split
        · rfl
        · exact ofClient_ne heq call
  | loop e =>
    cases e with
    | receive client' type size mem =>
      have hother : Carried client { s with
          loop := loopStep env jvm s.loop (.receive client' type size mem)
          calls := s.calls ++ [] } := h.other he type size mem rfl
      rwa [List.append_nil] at hother
    | closed client' => exact h
    | post msg own =>
      have hreq : msg.request = [] := by
        cases msg with
        | usrRq client' rq => cases own
        | _ => rfl
      unfold Carried at h ⊢
      show List.Forall₂ _ _ (ofClient client (s.loop.requests ++ msg.request))
      rwa [hreq, List.append_nil]
    | dispatch =>
      unfold Carried at h ⊢
      show List.Forall₂ _ _ (ofClient client (dispatchNext env jvm s.loop).requests)
      unfold dispatchNext
      split
      · exact h
      · split <;> exact h

end Net

/-! ## Runs -/

theorem ofClient_map {α β : Type} (client : C) (f : α → β) (l : List (C × α)) :
    ofClient client (l.map fun r => (r.1, f r.2)) = (ofClient client l).map f := by
  simp [ofClient, List.filter_map, Function.comp_def]

theorem ofClient_forall₂ {α β : Type} {R : α → β → Prop} (client : C) {l : List (C × α)}
    {l' : List (C × β)} (h : List.Forall₂ (fun a b => a.1 = b.1 ∧ R a.2 b.2) l l') :
    List.Forall₂ R (ofClient client l) (ofClient client l') := by
  induction h with
  | nil => exact .nil
  | @cons a b l l' hab _ ih =>
    obtain ⟨c, x⟩ := a
    obtain ⟨d, y⟩ := b
    obtain ⟨rfl, hxy⟩ := hab
    by_cases heq : c = client
    · simpa [ofClient, heq] using And.intro hxy ih
    · simpa [ofClient, heq] using ih

theorem forall₂_zip {α β γ δ : Type} {R : α → γ → Prop} {S : δ → β → Prop} {f : β → γ}
    {as : List α} {bs : List β} (has : List.Forall₂ R as (bs.map f)) {cs : List δ}
    (hcs : List.Forall₂ S cs bs) :
    List.Forall₂ (fun a r => R a (f r.1) ∧ S r.2 r.1) as (bs.zip cs) := by
  induction hcs generalizing as with
  | nil =>
    cases has
    exact .nil
  | cons hc _ ih =>
    obtain _ | ⟨ha, has⟩ := has
    exact .cons ⟨ha, hc⟩ (ih has)

/-- The call was carried out as one operation: with its arguments, and with this response. -/
structure CarriedOut (env : Env) (jvm : Jvm J) (client : C) (call : ProfClient.Call)
    (v : Served J C) (msg : UserMsg) : Prop where
  carries : PsMsg.Carries client (.usrRq client v.rq) call
  framed : msg.Framed
  result : v.result env jvm = some (call.unpack msg)

/-- For every run of the event loop with its clients in which the allocations succeed, the
statistics fit in a byte array and the requests that are taken can be answered, and every client
that sends nothing but its calls: the responses to it belong to those of its calls that wait for
one, in their order, and to all of them once no event is left and the client is still open; the
event thread took one request for each of these, with its arguments; the response has the size
that its header announces; and the method returns, or raises, what the operation came to on the
server that the event thread had before it. -/
theorem calls_carried_out (hok : HeapOk env jvm) (hfit : StatsFit jvm) (pauseOnStart : Bool)
    (agentThread : Option JThread) (j : J) (client : C) {es : List (NetEvent C)}
    (hrun : Runs.Along (netStep env jvm) (fun s e => NetAnswerable jvm s e ∧ e.OnlyCalls client)
      (Net.init C pauseOnStart agentThread j) es) {s : Net J C}
    (hs : Runs.run (netStep env jvm) (Net.init C pauseOnStart agentThread j) es = s) :
    ∃ answered waiting, ofClient client s.calls = answered ++ waiting ∧
      (s.loop.evQ = [] → client ∉ s.loop.ps.uif.closed → waiting = []) ∧
      (ofClient client s.served).length = (ofClient client s.loop.ps.uif.sent).length ∧
      List.Forall₂ (fun call r => CarriedOut env jvm client call r.1 r.2) answered
        ((ofClient client s.served).zip (ofClient client s.loop.ps.uif.sent)) := by
  have hinv := Runs.inv_run (fun s => s.Linear env jvm ∧ s.Carried client)
    (fun s e h he => ⟨Net.linear_step hok h.1 he.1, Net.carried_step h.2 he.2⟩)
    ⟨Net.linear_init pauseOnStart agentThread j, .nil⟩ hrun
  rw [hs] at hinv
  obtain ⟨hlin, hcarried⟩ := hinv
  have hsent : List.Forall₂ (fun msg v => response env jvm v.ps v.rq = some msg)
      (ofClient client s.loop.ps.uif.sent) (ofClient client s.served) :=
    ofClient_forall₂ client hlin.sent
  have hdispatched : ofClient client s.loop.dispatched = (ofClient client s.served).map Served.rq := by
    rw [← hlin.dispatched, ← ofClient_map]
  obtain ⟨-, skipped, hrequests, hskipped⟩ := hlin.ordered client
  unfold Net.Carried at hcarried
  rw [hrequests, hdispatched] at hcarried
  -- the requests that were taken are the first ones, and so are the calls that they carry
  have hanswered := List.forall₂_take_append _ _ _ hcarried
  refine ⟨(ofClient client s.calls).take _, _, (List.take_append_drop _ _).symm, ?_,
    hsent.length_eq.symm, List.Forall₂.imp ?_ (forall₂_zip hanswered hsent)⟩
  · intro hevQ hopen
    have hqueued : ofClient client s.loop.queued = [] := by rw [EventLoop.queued, hevQ]; rfl
    rw [hskipped hopen, hqueued, List.append_nil, List.append_nil] at hcarried
    exact List.drop_eq_nil_of_le (Nat.le_of_eq hcarried.length_eq)
  · rintro call ⟨v, msg⟩ ⟨hcall, hmsg⟩
    exact ⟨hcall, response_framed hok hfit hmsg, unpack_response hok hcall hmsg⟩

/-- A client asks for the status and for the removal of an instrument that there is not, while
another client sends a message that is no request. -/
def twoCalls : List (NetEvent Nat) :=
  [.call 0 .getStatus fun _ => 0, .loop (.receive 1 99 0 fun _ => 0),
    .call 0 (.deinstrumentById 7) fun _ => 255, .loop .dispatch, .loop .dispatch]

theorem calls_carried_out_two :
    let s := Runs.run (netStep Env.smooth (smoothJvm true)) (Net.init Nat false none ()) twoCalls
    ∃ answered waiting, ofClient 0 s.calls = answered ++ waiting ∧
      (s.loop.evQ = [] → 0 ∉ s.loop.ps.uif.closed → waiting = []) ∧
      (ofClient 0 s.served).length = (ofClient 0 s.loop.ps.uif.sent).length ∧
      List.Forall₂ (fun call r => CarriedOut Env.smooth (smoothJvm true) 0 call r.1 r.2) answered
        ((ofClient 0 s.served).zip (ofClient 0 s.loop.ps.uif.sent)) := by
  refine calls_carried_out (heapOk_smooth true) ?_ false none () 0 ?_ rfl
  · rintro j stats hstats
    cases hstats
    decide
  · refine ⟨⟨trivial, fun _ => by simp [Call.strings]⟩, ⟨trivial, show (1 : Nat) ≠ 0 by decide⟩,
      ⟨trivial, fun _ => by simp [Call.strings]⟩, ⟨?_, trivial⟩, ⟨?_, trivial⟩, trivial⟩
    · rintro client rq ⟨-, -, evQ, hevQ⟩
      cases hevQ
      trivial
    · rintro client rq ⟨-, -, evQ, hevQ⟩
      cases hevQ
      trivial

end JautoProf
