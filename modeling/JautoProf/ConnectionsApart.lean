import JautoProf.ListenerThread

/-!
# The messages of a connection (`user-if.c`)

What the listener makes of the bytes of one connection does not depend on the others.

Results:
1. `Apart.step`: each connection is framed as if it were alone.
2. `step_frame`: a step calls the handler once, at most.
3. `listener_separates`: in every run, the handler was called for each connection with the complete
   messages that were read from it, once and in order; the descriptors that are open for
   connections are those of the clients; and an event reaches the client it was reported for.
-/

namespace JautoProf.Listening

open Runs

/-! ## One client -/

/-- The bytes that `read` returned. -/
def readBytes : ReadResult → List UInt8
  | .data bs => bs
  | .error _ => []

theorem expectBody_realloc (ctx : UifClientCtx) (fresh : Nat → UInt8) :
    expectBody ctx none = expectBody ctx (some fresh) ∨ expectBody ctx none = none ∧
      ∃ ctx', expectBody ctx (some fresh) = some ctx' ∧ ctx'.bytesRead = ctx.bytesRead ∧
        uifMsgHdrSize < ctx'.bufExpected := by
  unfold expectBody
  dsimp only
  by_cases hlong : announcedSize ctx.buf > uifMaxBodySize
  · rw [if_pos hlong, if_pos hlong]
    exact .inl rfl
  · rw [if_neg hlong, if_neg hlong]
    by_cases hbody : announcedSize ctx.buf > 0
    · rw [if_pos hbody, if_pos hbody]
      by_cases hneeded : uifMsgHdrSize + announcedSize ctx.buf > ctx.bufAlloc
      · rw [if_pos hneeded, if_pos hneeded]
        exact .inr ⟨rfl, _, rfl, rfl, Nat.lt_add_of_pos_right hbody⟩
      · rw [if_neg hneeded, if_neg hneeded]
        exact .inl rfl
    · rw [if_neg hbody, if_neg hbody]
      exact .inl rfl

/-- Where the memory for a body is missing the client is closed before the handler is called. -/
theorem afterRead_realloc (ctx : UifClientCtx) (fresh : Nat → UInt8) :
    afterRead true ctx none = afterRead true ctx (some fresh) ∨
      afterRead true ctx none = .closed ∧ ∃ ctx', afterRead true ctx (some fresh) = .kept ctx' := by
  unfold afterRead
  by_cases hheader : ctx.bytesRead = uifMsgHdrSize
  · rw [if_pos hheader, if_pos hheader]
    rcases expectBody_realloc ctx fresh with heq | ⟨hnone, ctx', hsome, hread, hlt⟩
    · rw [heq]
      exact .inl rfl
    · rw [hnone, hsome]
      -- the header alone is not the whole message
      refine .inr ⟨rfl, ctx', if_neg ?_⟩
      rw [hread, hheader]
      exact Nat.ne_of_lt hlt
  · rw [if_neg hheader, if_neg hheader]
    exact .inl rfl

theorem handleClientData_realloc (ctx : UifClientCtx) (res : ReadResult) (fresh : Nat → UInt8) :
    handleClientData true ctx res none = handleClientData true ctx res (some fresh) ∨
      handleClientData true ctx res none = some .closed ∧
        ∃ ctx', handleClientData true ctx res (some fresh) = some (.kept ctx') := by
  cases res with
  | error again => exact .inl rfl
  | data bs =>
    unfold handleClientData
    by_cases hnil : bs.length = 0
    · simp only [if_pos hnil, true_or]
    · simp only [if_neg hnil]
      cases store ctx.buf ctx.bytesRead bs with
      | none => exact .inl rfl
      | some buf =>
        rcases afterRead_realloc { ctx with buf, bytesRead := ctx.bytesRead + bs.length } fresh with
          heq | ⟨hclosed, ctx', hkept⟩
        · exact .inl (congrArg some heq)
        · exact .inr ⟨congrArg some hclosed, ctx', congrArg some hkept⟩

/-- One event of a client. -/
theorem reached_event {r : List UInt8} {conn : Conn} {ctx : UifClientCtx} (h : Reached r conn)
    (hctx : conn.ctx = some ctx) {res : ReadResult}
    (hfits : ∀ bs, res = .data bs → bs.length ≤ ctx.bufExpected - ctx.bytesRead)
    (grow : Option (Nat → UInt8)) :
    ∃ out conn', handleClientData true ctx res grow = some out ∧
      Reached (r ++ readBytes res) conn' ∧ conn'.handled = (conn.next out).handled ∧
      (out ≠ .closed → conn'.ctx = (conn.next out).ctx) := by
  cases res with
  | error again =>
    have hbytes : r ++ readBytes (.error again) = r := List.append_nil r
    rw [hbytes]
    cases again with
    | true =>
      have hout : handleClientData true ctx (.error true) grow = some (.kept ctx) := rfl
      exact ⟨_, _, hout, .again h hctx hout, rfl, fun _ => rfl⟩
    | false => exact ⟨.closed, conn, rfl, h, rfl, fun hne => absurd rfl hne⟩
  | data bs =>
    rcases Nat.eq_zero_or_pos bs.length with hnil | hpos
    · have hbytes : r ++ readBytes (.data bs) = r := by
        rw [readBytes, List.eq_nil_of_length_eq_zero hnil, List.append_nil]
      rw [hbytes]
      exact ⟨.closed, conn, if_pos hnil, h, rfl, fun hne => absurd rfl hne⟩
    · obtain ⟨ms, part, htracks⟩ := h.tracks
      have hdata : ∀ fresh, ∃ out, handleClientData true ctx (.data bs) (some fresh) = some out ∧
          Reached (r ++ bs) (conn.next out) := by
        intro fresh
        obtain ⟨out, hout, -⟩ := handleClientData_data (htracks.current ctx hctx) hpos
          (hfits bs rfl) fresh
        exact ⟨out, hout, .data bs fresh h hctx hpos (hfits bs rfl) hout⟩
      cases grow with
      | some fresh =>
        obtain ⟨out, hout, hreached⟩ := hdata fresh
        exact ⟨out, _, hout, hreached, rfl, fun _ => rfl⟩
      | none =>
        obtain ⟨out, hout, hreached⟩ := hdata fun _ => 0
        rcases handleClientData_realloc ctx (.data bs) fun _ => 0 with heq | ⟨hclosed, ctx', hkept⟩
        · exact ⟨out, _, heq.trans hout, hreached, rfl, fun _ => rfl⟩
        · rw [hkept] at hout
          cases hout
          exact ⟨.closed, _, hclosed, hreached, rfl, fun hne => absurd rfl hne⟩

/-! ## All clients -/

/-- The buffers that the handler was called with for clients of a connection. -/
def State.handledOf (s : State) (k : Nat) : List (List UInt8) :=
  (s.handled.filter fun h => h.1 = k).map Prod.snd

/-- Each connection is where it would be alone; nothing is known of those to come. -/
structure Apart (s : State) : Prop where
  fault : s.fault = false
  framed : ∀ k < s.nextConn, ∃ conn, Reached (s.received k) conn ∧ conn.handled = s.handledOf k ∧
    ∀ c ∈ s.clients, c.conn = k → conn.ctx = some c.ctx
  fresh : ∀ k, s.nextConn ≤ k → s.received k = [] ∧ s.handledOf k = []

section

variable {s : State} {i : Nat} {c : Client} {fd : Nat}

theorem Apart.init (uif : UifFds) : Apart (.init uif) where
  fault := rfl
  framed := fun _ h => absurd h (Nat.not_lt_zero _)
  fresh := fun _ _ => ⟨rfl, rfl⟩

/-- The descriptors do not matter. -/
theorem Apart.congr (h : Apart s) {s' : State} (hfault : s'.fault = s.fault)
    (hnext : s'.nextConn = s.nextConn) (hclients : s'.clients = s.clients)
    (hreceived : s'.received = s.received) (hhandled : s'.handled = s.handled) : Apart s' := by
  have hof : s'.handledOf = s.handledOf := by
    funext k
    unfold State.handledOf
    rw [hhandled]
  refine ⟨hfault.trans h.fault, ?_, ?_⟩
  · rw [hnext, hreceived, hof, hclients]
    exact h.framed
  · rw [hnext, hreceived, hof]
    exact h.fresh

/-- A connection gets on, and the clients of others are as they were. -/
theorem Apart.change (h : Apart s) {s' : State} {k : Nat} {bs : List UInt8} {conn : Conn}
    (hk : k < s.nextConn) (hreached : Reached (s.received k ++ bs) conn)
    (hfault : s'.fault = s.fault) (hnext : s'.nextConn = s.nextConn)
    (hreceived : s'.received = Function.update s.received k (s.received k ++ bs))
    (hhandled : conn.handled = s'.handledOf k)
    (hothers : ∀ k' ≠ k, s'.handledOf k' = s.handledOf k')
    (hclients : ∀ c ∈ s'.clients, c.conn = k ∧ conn.ctx = some c.ctx ∨ c ∈ s.clients ∧ c.conn ≠ k) :
    Apart s' := by
  refine ⟨hfault.trans h.fault, fun k' hk' => ?_, fun k' hk' => ?_⟩
  · rw [hreceived]
    by_cases heq : k' = k
    · subst heq
      refine ⟨conn, (Function.update_self k' _ _).symm ▸ hreached, hhandled, fun c hc hconn => ?_⟩
      rcases hclients c hc with ⟨-, hctx⟩ | ⟨-, hne⟩
      · exact hctx
      · exact absurd hconn hne
    · rw [hnext] at hk'
      obtain ⟨conn', hreached', hhandled', hctx⟩ := h.framed k' hk'
      rw [Function.update_of_ne heq, hothers k' heq]
      refine ⟨conn', hreached', hhandled', fun c hc hconn => ?_⟩
      rcases hclients c hc with ⟨hconn', -⟩ | ⟨hc, -⟩
      · exact absurd (hconn.symm.trans hconn') heq
      · exact hctx c hc hconn
  · rw [hnext] at hk'
    have hne : k' ≠ k := by
      rintro rfl
      exact absurd hk (Nat.not_lt.mpr hk')
    rw [hreceived, Function.update_of_ne hne, hothers k' hne]
    exact h.fresh k' hk'

theorem readFrom_eq (h : Live s) (hc : c ∈ s.clients) (res : ReadResult) :
    readFrom c.fd res s = { s with
      received := Function.update s.received c.conn (s.received c.conn ++ readBytes res) } := by
  unfold readFrom
  rw [h.client c hc]
  cases res with
  | data bs => rfl
  | error again =>
    show s = { s with received := Function.update s.received c.conn (s.received c.conn ++ []) }
    rw [List.append_nil, Function.update_eq_self]

/-- The event of a client. -/
theorem Apart.handleData (h : Apart s) (hlive : Live s) (hc : s.clients[i]? = some c)
    {res : ReadResult} (hfits : ∀ bs, res = .data bs → bs.length ≤ c.ctx.bufExpected - c.ctx.bytesRead)
    (grow : Option (Nat → UInt8)) : Apart (handleData i c res grow (readFrom c.fd res s)) := by
  have hmem := List.mem_of_getElem? hc
  have hk := hlive.conn_lt c hmem
  obtain ⟨conn, hreached, hhandled, hctx⟩ := h.framed c.conn hk
  obtain ⟨out, conn', hout, hreached', hhandled', hctx'⟩ :=
    reached_event hreached (hctx c hmem rfl) hfits grow
  rw [readFrom_eq hlive hmem]
  unfold Listening.handleData
  rw [hout]
  have hset : ∀ {ctx : UifClientCtx}, conn'.ctx = some ctx → ∀ c' ∈ s.clients.set i { c with ctx },
      c'.conn = c.conn ∧ conn'.ctx = some c'.ctx ∨ c' ∈ s.clients ∧ c'.conn ≠ c.conn := by
    intro ctx hsome c' hc'
    rcases mem_set hc hlive.conns_nodup hc' with rfl | hother
    · exact .inl ⟨rfl, hsome⟩
    · exact .inr hother
  cases out with
  | closed =>
    refine h.change hk hreached' rfl rfl rfl (hhandled'.trans hhandled) (fun _ _ => rfl) ?_
    exact fun c' hc' => .inr ((mem_eraseIdx hc hlive.conns_nodup).mp hc')
  | kept ctx =>
    refine h.change hk hreached' rfl rfl rfl (hhandled'.trans hhandled) (fun _ _ => rfl) ?_
    exact hset (hctx' Received.noConfusion)
  | handled msg ctx =>
    have hof : ∀ k', (s.handled ++ [(c.conn, msg)]).filter (fun e => e.1 = k') =
        s.handled.filter (fun e => e.1 = k') ++ if c.conn = k' then [(c.conn, msg)] else [] := by
      intro k'
      rw [List.filter_append, List.filter_singleton]
      by_cases heq : c.conn = k' <;> simp [heq]
    refine h.change hk hreached' rfl rfl rfl ?_ (fun k' hne => ?_) (hset (hctx' Received.noConfusion))
    · show conn'.handled = ((s.handled ++ [(c.conn, msg)]).filter fun e => e.1 = c.conn).map Prod.snd
      rw [hof, if_pos rfl, List.map_append, hhandled']
      exact congrArg (· ++ [msg]) hhandled
    · show ((s.handled ++ [(c.conn, msg)]).filter fun e => e.1 = k').map Prod.snd = _
      rw [hof, if_neg (Ne.symm hne), List.append_nil]
      rfl

/-- A connection that `accept` returned; there may be no client of it. -/
theorem Apart.accepts (h : Apart s) (hlive : Live s) {s' : State} (hfault : s'.fault = s.fault)
    (hnext : s'.nextConn = s.nextConn + 1) (hreceived : s'.received = s.received)
    (hhandled : s'.handled = s.handled) (new : Nat → UInt8)
    (hclients : ∀ c ∈ s'.clients, c ∈ s.clients ∨ c.conn = s.nextConn ∧ c.ctx = acceptCtx new) :
    Apart s' := by
  have hof : s'.handledOf = s.handledOf := by
    funext k
    unfold State.handledOf
    rw [hhandled]
  refine ⟨hfault.trans h.fault, fun k hk => ?_, fun k hk => ?_⟩
  · rw [hreceived, hof]
    rcases Nat.lt_or_eq_of_le (Nat.le_of_lt_succ (hnext ▸ hk)) with hk | rfl
    · obtain ⟨conn, hreached, hhandled, hctx⟩ := h.framed k hk
      refine ⟨conn, hreached, hhandled, fun c hc hconn => ?_⟩
      rcases hclients c hc with hc | ⟨hnew, -⟩
      · exact hctx c hc hconn
      · exact absurd (hconn.symm.trans hnew) (Nat.ne_of_lt hk)
    · obtain ⟨hnil, hnone⟩ := h.fresh s.nextConn (Nat.le_refl _)
      refine ⟨⟨some (acceptCtx new), []⟩, hnil.symm ▸ Reached.accept new, hnone.symm,
        fun c hc hconn => ?_⟩
      rcases hclients c hc with hc | ⟨-, hctx⟩
      · exact absurd hconn (Nat.ne_of_lt (hlive.conn_lt c hc))
      · rw [hctx]
  · rw [hreceived, hof]
    rw [hnext] at hk
    exact h.fresh k (Nat.le_of_succ_le hk)

theorem Apart.acceptClient (h : Apart s) (hlive : Live s) (o : AcceptCalls) :
    Apart (acceptClient o s) := by
  unfold Listening.acceptClient
  split
  · split
    · exact h
    · next fd haccept =>
      have hfails : Apart (closeFd fd (accepted fd s)) :=
        h.accepts hlive rfl rfl rfl rfl (fun _ => 0) fun _ => .inl
      dsimp only
      split
      · split
        · split
          · exact hfails
          · next fresh hbuf =>
            split
            · refine h.accepts hlive rfl rfl rfl rfl fresh fun c hc => ?_
              rcases List.mem_append.mp hc with hc | hc
              · exact .inl hc
              · rw [List.mem_singleton.mp hc]
                exact .inr ⟨rfl, rfl⟩
            · exact hfails
        · exact hfails
      · exact hfails
  · exact h

/-! ## Runs -/

theorem closeAllClients_eq (s : State) : ∃ fds watched, closeAllClients s = { s with fds, watched } ∧
    ∀ fd, fds fd ≠ none → fds fd = s.fds fd ∧ ∀ c ∈ s.clients, c.fd ≠ fd := by
  suffices h : ∀ (clients : List Client) (s : State), ∃ fds watched,
      clients.foldl (fun s c => closeFd c.fd s) s = { s with fds, watched } ∧
        ∀ fd, fds fd ≠ none → fds fd = s.fds fd ∧ ∀ c ∈ clients, Client.fd c ≠ fd from
    h s.clients s
  intro clients
  induction clients with
  | nil =>
    exact fun s => ⟨s.fds, s.watched, rfl, fun _ _ => ⟨rfl, fun _ h => absurd h List.not_mem_nil⟩⟩
  | cons c clients ih =>
    intro s
    obtain ⟨fds, watched, heq, hopen⟩ := ih (closeFd c.fd s)
    refine ⟨fds, watched, heq, fun fd hfd => ?_⟩
    obtain ⟨hsame, hclients⟩ := hopen fd hfd
    have hne : fd ≠ c.fd := by
      rintro rfl
      rw [hsame] at hfd
      exact hfd (Function.update_self _ _ _)
    refine ⟨hsame.trans (Function.update_of_ne hne _ _), fun c' hc' => ?_⟩
    rcases List.mem_cons.mp hc' with rfl | hc'
    · exact Ne.symm hne
    · exact hclients c' hc'

/-- What holds at every moment; a listener that has stopped has closed all connections. -/
structure Inv (s : State) : Prop where
  apart : Apart s
  live : s.stopped = false → Live s
  ended : s.stopped = true → ∀ fd k, s.fds fd ≠ some (.conn k)

/-- The end of the thread. -/
theorem Inv.stops (hapart : Apart s) (hlive : Live s) (batch : List (Nat × Option Target)) :
    Inv { closeAllClients s with batch, stopped := true } := by
  obtain ⟨fds, watched, heq, hopen⟩ := closeAllClients_eq s
  rw [heq]
  refine ⟨hapart.congr rfl rfl rfl rfl rfl, fun h => (by cases h), fun _ fd k hfd => ?_⟩
  have hfd : fds fd = some (.conn k) := hfd
  obtain ⟨hsame, hclients⟩ := hopen fd (hfd ▸ Option.some_ne_none _)
  obtain ⟨c, hc, hcfd, -⟩ := hlive.conn fd k (hsame.symm.trans hfd)
  exact hclients c hc hcfd

theorem Inv.event (hapart : Apart s) (hlive : Live s) (hrunning : s.stopped = false)
    {e : Nat × Option Target} {rest : List (Nat × Option Target)} (hbatch : s.batch = e :: rest)
    {o : EventCalls} (hfree : acceptsFree s o = true) (hfits : readFits s o = true) :
    Inv (handleEvent e.1 o { s with batch := rest }) := by
  have hapart' : Apart { s with batch := rest } := hapart.congr rfl rfl rfl rfl rfl
  have hlive' : Live { s with batch := rest } := hlive.rest hbatch
  have hrest : ∀ e' ∈ rest, e'.1 ≠ e.1 := by
    have hnodup := hlive.batch_nodup
    rw [hbatch, List.map_cons, List.nodup_cons] at hnodup
    intro e' he' heq
    exact hnodup.1 (heq ▸ List.mem_map_of_mem he')
  have hon : ∀ {s' : State}, s'.stopped = s.stopped → Apart s' → Live s' → Inv s' := by
    intro s' hstopped ha hl
    refine ⟨ha, fun _ => hl, fun hended => ?_⟩
    rw [hstopped, hrunning] at hended
    cases hended
  unfold handleEvent
  split
  · exact .stops hapart' hlive' []
  · split
    · have haccept : ∀ fd, o.accept.accept = some fd → s.fds fd = none := by
        intro fd hfd
        unfold acceptsFree at hfree
        rw [hfd] at hfree
        exact Option.isNone_iff_eq_none.mp hfree
      refine hon ?_ (hapart'.acceptClient hlive' o.accept) (hlive'.acceptClient haccept)
      unfold acceptClient
      repeat' split
      all_goals rfl
    · cases hfind : findClient { s with batch := rest } e.1 with
      | none => exact hon rfl hapart' hlive'
      | some ic =>
        obtain ⟨i, c⟩ := ic
        obtain ⟨hc, hfd⟩ := of_findClient hfind
        have hread : ∀ bs, o.read = .data bs → bs.length ≤ c.ctx.bufExpected - c.ctx.bytesRead := by
          intro bs hbs
          unfold readFits at hfits
          have hfind' : (s.batch.head?.bind fun e => findClient s e.1) = some (i, c) := by
            rw [hbatch]
            exact hfind
          rw [hfind', hbs] at hfits
          exact of_decide_eq_true hfits
        have hdata := hapart'.handleData hlive' hc hread o.realloc
        dsimp only
        rw [readFrom_eq hlive' (List.mem_of_getElem? hc)] at hdata ⊢
        have hlive'' : Live { s with
            batch := rest
            received := Function.update s.received c.conn (s.received c.conn ++ readBytes o.read) } :=
          { hlive' with }
        have hne : ∀ e' ∈ rest, e'.1 ≠ c.fd := fun e' he' => hfd ▸ hrest e' he'
        unfold handleData at hdata ⊢
        cases hout : handleClientData true c.ctx o.read o.realloc with
        | none =>
          rw [hout] at hdata
          exact absurd hdata.fault Bool.noConfusion
        | some out =>
          rw [hout] at hdata
          cases out with
          | closed => exact hon rfl hdata (hlive''.closeClient hc hne)
          | kept ctx => exact hon rfl hdata (hlive''.setCtx hc ctx)
          | handled msg ctx => exact hon rfl hdata { hlive''.setCtx hc ctx with }

theorem Inv.step (h : Inv s) (a : Act) : Inv (step s a) := by
  unfold Listening.step
  split
  · exact h
  · next hpossible =>
    rw [Bool.or_eq_true, not_or, Bool.not_eq_true, Bool.not_eq_true', Bool.not_eq_false] at hpossible
    obtain ⟨hrunning, hpossible⟩ := hpossible
    have hlive := h.live hrunning
    have hon : ∀ {s' : State}, s'.stopped = s.stopped → Apart s' → Live s' → Inv s' := by
      intro s' hstopped ha hl
      refine ⟨ha, fun _ => hl, fun hended => ?_⟩
      rw [hstopped, hrunning] at hended
      cases hended
    cases a with
    | wait events =>
      obtain ⟨hevents, hwatched⟩ := Bool.and_eq_true_iff.mp hpossible
      dsimp only
      split
      · refine hon rfl (h.apart.congr rfl rfl rfl rfl rfl) (hlive.wait (of_decide_eq_true hevents).1 ?_)
        exact List.all_eq_true.mp hwatched
      · exact h
    | waitFails interrupted =>
      dsimp only
      split
      · exact .stops h.apart hlive _
      · exact h
    | event o =>
      obtain ⟨hfree, hfits⟩ := Bool.and_eq_true_iff.mp hpossible
      dsimp only
      split
      · exact h
      · next fd target rest hbatch => exact .event h.apart hlive hrunning hbatch hfree hfits
    | opens fd =>
      exact hon rfl (h.apart.congr rfl rfl rfl rfl rfl)
        (hlive.opens (Option.isNone_iff_eq_none.mp hpossible))
    | closes fd =>
      exact hon rfl (h.apart.congr rfl rfl rfl rfl rfl) (hlive.closes (of_decide_eq_true hpossible))

theorem inv_steps (uif : UifFds) (as : List Act) : Inv (run step (.init uif) as) :=
  inv_run Inv (fun _ a h _ => h.step a)
    ⟨.init uif, fun _ => .init uif, fun h => (by cases h)⟩ (.of_true _ as)

end

/-! ## What other threads see of a step -/

/-- The numbers of connections only grow, and the handler is called once, at most. -/
def Frame (s s' : State) : Prop :=
  s.nextConn ≤ s'.nextConn ∧ (s'.handled = s.handled ∨ ∃ e, s'.handled = s.handled ++ [e])

theorem frame_of_eq {s s' : State} (hnext : s'.nextConn = s.nextConn)
    (hhandled : s'.handled = s.handled) : Frame s s' :=
  ⟨Nat.le_of_eq hnext.symm, .inl hhandled⟩

theorem closeAllClients_frame (s : State) : Frame s (closeAllClients s) := by
  obtain ⟨fds, watched, heq, -⟩ := closeAllClients_eq s
  rw [heq]
  exact frame_of_eq rfl rfl

theorem acceptClient_frame (o : AcceptCalls) (s : State) : Frame s (acceptClient o s) := by
  unfold acceptClient
  repeat' split
  all_goals first
    | exact frame_of_eq rfl rfl
    | exact ⟨Nat.le_succ _, .inl rfl⟩

theorem readFrom_frame (fd : Nat) (res : ReadResult) (s : State) :
    (readFrom fd res s).nextConn = s.nextConn ∧ (readFrom fd res s).handled = s.handled := by
  unfold readFrom
  split <;> exact ⟨rfl, rfl⟩

theorem handleData_frame (i : Nat) (c : Client) (res : ReadResult) (grow : Option (Nat → UInt8))
    (s : State) : Frame s (handleData i c res grow s) := by
  unfold handleData
  split
  · exact frame_of_eq rfl rfl
  · exact frame_of_eq rfl rfl
  · exact frame_of_eq rfl rfl
  · next msg ctx hout => exact ⟨Nat.le_refl _, .inr ⟨(c.conn, msg), rfl⟩⟩

theorem handleEvent_frame (fd : Nat) (o : EventCalls) (s : State) :
    Frame s (handleEvent fd o s) := by
  unfold handleEvent
  split
  · exact closeAllClients_frame s
  · split
    · exact acceptClient_frame o.accept s
    · split
      · exact frame_of_eq rfl rfl
      · next i c hfind =>
        obtain ⟨hnext, hhandled⟩ := readFrom_frame c.fd o.read s
        have hdata := handleData_frame i c o.read o.realloc (readFrom c.fd o.read s)
        unfold Frame at hdata ⊢
        rwa [hnext, hhandled] at hdata

theorem step_frame (s : State) (a : Act) : Frame s (step s a) := by
  unfold step
  split
  · exact frame_of_eq rfl rfl
  · cases a with
    | wait events =>
      dsimp only
      split <;> exact frame_of_eq rfl rfl
    | waitFails interrupted =>
      dsimp only
      split
      · exact closeAllClients_frame s
      · exact frame_of_eq rfl rfl
    | event o =>
      dsimp only
      split
      · exact frame_of_eq rfl rfl
      · next fd target rest hbatch => exact handleEvent_frame fd o { s with batch := rest }
    | opens fd => exact frame_of_eq rfl rfl
    | closes fd => exact frame_of_eq rfl rfl

/-- The listener keeps the connections apart. -/
structure Separates (s : State) : Prop where
  inBounds : s.fault = false
  /-- An event that is left in the batch is still for what it was reported for, and a client is
  found for it. -/
  reported : s.stopped = false → ∀ e ∈ s.batch, s.fds e.1 = e.2 ∧
    (e.2 = some .server ∨ e.2 = some .shutdown ∨
      ∃ i c, findClient s e.1 = some (i, c) ∧ e.2 = some (.conn c.conn))
  /-- No descriptor is lost. -/
  opened : s.stopped = false → ∀ fd k, s.fds fd = some (.conn k) ↔
    ∃ c ∈ s.clients, c.fd = fd ∧ c.conn = k
  closed : s.stopped = true → ∀ fd k, s.fds fd ≠ some (.conn k)
  /-- The bytes that were read from a connection are messages, for each of which the handler was
  called once and in order, and the start of another. -/
  framed : ∀ k, ∃ ms part, s.received k = ms.flatMap UserMsg.wire ++ part ∧
    (∀ m ∈ ms, m.Accepted) ∧ Delivered (s.handledOf k) ms ∧
    ∀ (m : UserMsg) (rest : List UInt8), m.Accepted → part ≠ m.wire ++ rest

theorem Conn.Tracks.rest_incomplete {conn : Conn} {r part : List UInt8} {ms : List UserMsg}
    (h : conn.Tracks r ms part) {m : UserMsg} (hm : m.Accepted) (rest : List UInt8) :
    part ≠ m.wire ++ rest := by
  cases hctx : conn.ctx with
  | some ctx => exact (h.current ctx hctx).incomplete hm.1
  | none =>
    obtain ⟨-, hlong⟩ := h.closed hctx
    rintro rfl
    rw [UserMsg.announcedSize_wire] at hlong
    exact absurd hm.2 (Nat.not_le.mpr hlong)

theorem Apart.frames {s : State} (h : Apart s) (k : Nat) :
    ∃ ms part, s.received k = ms.flatMap UserMsg.wire ++ part ∧ (∀ m ∈ ms, m.Accepted) ∧
      Delivered (s.handledOf k) ms ∧
      ∀ (m : UserMsg) (rest : List UInt8), m.Accepted → part ≠ m.wire ++ rest := by
  rcases Nat.lt_or_ge k s.nextConn with hk | hk
  · obtain ⟨conn, hreached, hhandled, -⟩ := h.framed k hk
    obtain ⟨ms, part, htracks⟩ := hreached.tracks
    refine ⟨ms, part, htracks.bytes, htracks.accepted, hhandled ▸ htracks.delivered, ?_⟩
    exact fun m rest hm => Conn.Tracks.rest_incomplete htracks hm rest
  · obtain ⟨hnil, hnone⟩ := h.fresh k hk
    refine ⟨[], [], hnil, by simp, hnone.symm ▸ .nil, fun m rest _ heq => ?_⟩
    have hlength := congrArg List.length heq
    rw [List.length_nil, List.length_append, UserMsg.wire_length] at hlength
    exact absurd hlength (by unfold uifMsgHdrSize; omega)

/-- In every run, whatever the other threads do and however the calls come out. -/
theorem listener_separates (uif : UifFds) (as : List Act) : Separates (run step (.init uif) as) := by
  have hinv := inv_steps uif as
  generalize run step (State.init uif) as = s at hinv
  constructor
  · exact hinv.apart.fault
  · intro hrunning e he
    have hlive := hinv.live hrunning
    have hsame := hlive.batch_same e he
    refine ⟨hsame, ?_⟩
    rcases (hlive.watched e.1).mp (hlive.batch_watched e he) with hfd | hfd | ⟨c, hc, hfd⟩
    · exact .inl (by rw [← hsame, hfd, hlive.server])
    · exact .inr (.inl (by rw [← hsame, hfd, hlive.shutdown]))
    · obtain ⟨i, c', hfind⟩ := findClient_of_mem hc
      obtain ⟨hc', hfd'⟩ := of_findClient hfind
      refine .inr (.inr ⟨i, c', hfd ▸ hfind, ?_⟩)
      rw [← hsame, ← hfd, ← hfd']
      exact hlive.client c' (List.mem_of_getElem? hc')
  · intro hrunning fd k
    have hlive := hinv.live hrunning
    refine ⟨hlive.conn fd k, ?_⟩
    rintro ⟨c, hc, rfl, rfl⟩
    exact hlive.client c hc
  · exact hinv.ended
  · exact hinv.apart.frames

end JautoProf.Listening
