import JautoProf.Lib.Runs
import JautoProf.UserIf
import Mathlib.Data.List.Nodup
import Mathlib.Logic.Function.Basic

/-!
# The listener thread (`user-if.c`)

The listener takes the events of a batch of `epoll_wait` one after the other. It knows a client by
its descriptor only, and a number is free for the next connection as soon as it is closed. A
connection is named by an id that is given out once. The other threads of the process open and
close descriptors too.

Results:
1. `Open.step`: the descriptors that are open for connections are those of the clients, each event
   that is left in a batch is still for what it was reported for, and the listener finds its client.
2. `Apart.step`: what was read from a connection is framed by itself.
3. `listener_separates`: the handler is called for the clients of a connection with the messages
   that arrived on it, each once and in order, whatever happens on the others.
-/

namespace JautoProf.Listening

open Runs

/-! ## The process -/

/-- What a descriptor is open for. -/
inductive Target
  | server
  | shutdown
  | conn (k : Nat)
  | other
deriving DecidableEq

/-- The descriptor of `uif->server_fd` and that of `uif->shutdown_fd`. -/
def UifFds := {p : Nat × Nat // p.1 ≠ p.2}

/-- `struct uif_client_ctx` with the descriptor of its client, and the connection that `accept`
returned with it. -/
structure Client where
  fd : Nat
  conn : Nat
  ctx : UifClientCtx

/-- The descriptors, those that `epoll_fd` watches, the fields of the `user_if`, and the events that
are left in the batch, each with what its descriptor was open for when it was reported. What was
read from a connection is kept, and the calls of the handler: of whose client, and the buffer. -/
structure State where
  fds : Nat → Option Target
  watched : Nat → Bool
  uif : UifFds
  nextConn : Nat
  clients : List Client
  batch : List (Nat × Option Target)
  stopped : Bool
  fault : Bool
  received : Nat → List UInt8
  handled : List (Nat × List UInt8)

/-- After `uif_init` and `uif_register_handler`. -/
def State.init (uif : UifFds) : State where
  fds fd := if fd = uif.val.1 then some .server else if fd = uif.val.2 then some .shutdown else none
  watched fd := decide (fd = uif.val.1 ∨ fd = uif.val.2)
  uif := uif
  nextConn := 0
  clients := []
  batch := []
  stopped := false
  fault := false
  received := fun _ => []
  handled := []

/-! ## `user-if.c` -/

def closeFd (fd : Nat) (s : State) : State :=
  { s with fds := Function.update s.fds fd none, watched := Function.update s.watched fd false }

/-- `find_client`: the client, and where it is in the list. -/
def findClient (s : State) (fd : Nat) : Option (Nat × Client) :=
  (s.clients.findIdx? fun c => c.fd = fd).bind fun i => s.clients[i]?.map fun c => (i, c)

/-- `close_client`, which closes the descriptor and removes the client from the list. -/
def closeClient (i : Nat) (c : Client) (s : State) : State :=
  { closeFd c.fd s with clients := s.clients.eraseIdx i }

/-- `close_all_clients`; the list stays as it is. -/
def closeAllClients (s : State) : State := s.clients.foldl (fun s c => closeFd c.fd s) s

/-- How the calls of `accept_client` come out: `client_list_add`, `accept` with its descriptor,
`fcntl`, the two of `malloc` and `epoll_ctl`. -/
structure AcceptCalls where
  listAdd : Bool
  accept : Option Nat
  fcntl : Bool
  malloc : Bool
  mallocBuf : Option (Nat → UInt8)
  epollCtl : Bool

/-- `accept` returns a descriptor that was free, for a new connection. -/
def accepted (fd : Nat) (s : State) : State :=
  { s with
    fds := Function.update s.fds fd (some (.conn s.nextConn))
    nextConn := s.nextConn + 1 }

/-- `accept_client`; what fails after `accept` leads to `fail_2`, where the descriptor is closed. -/
def acceptClient (o : AcceptCalls) (s : State) : State :=
  if o.listAdd then
    match o.accept with
    | none => s
    | some fd =>
      let client := accepted fd s
      if o.fcntl then
        if o.malloc then
          match o.mallocBuf with
          | none => closeFd fd client
          | some fresh =>
            if o.epollCtl then
              { client with
                watched := Function.update s.watched fd true
                clients := s.clients ++ [⟨fd, s.nextConn, acceptCtx fresh⟩] }
            else closeFd fd client
        else closeFd fd client
      else closeFd fd client
  else s

/-- `ctx` is a pointer into the list. -/
def setCtx (i : Nat) (c : Client) (ctx : UifClientCtx) (s : State) : State :=
  { s with clients := s.clients.set i { c with ctx } }

/-- `handle_client_data` of a client; the handler is called with `ctx->client`. -/
def handleData (i : Nat) (c : Client) (res : ReadResult) (grow : Option (Nat → UInt8)) (s : State) :
    State :=
  match handleClientData true c.ctx res grow with
  | none => { s with fault := true }
  | some .closed => closeClient i c s
  | some (.kept ctx) => setCtx i c ctx s
  | some (.handled msg ctx) => { setCtx i c ctx s with handled := s.handled ++ [(c.conn, msg)] }

/-- `read` takes bytes from what the descriptor is open for. -/
def readFrom (fd : Nat) (res : ReadResult) (s : State) : State :=
  match s.fds fd, res with
  | some (.conn k), .data bs =>
    { s with received := Function.update s.received k (s.received k ++ bs) }
  | _, _ => s

/-- How the calls for one event come out. -/
structure EventCalls where
  accept : AcceptCalls
  read : ReadResult
  realloc : Option (Nat → UInt8)

/-- The loop over the events, for one of them. -/
def handleEvent (fd : Nat) (o : EventCalls) (s : State) : State :=
  if fd = s.uif.val.2 then { closeAllClients s with batch := [], stopped := true }
  else if fd = s.uif.val.1 then acceptClient o.accept s
  else
    match findClient s fd with
    | none => s
    | some (i, c) => handleData i c o.read o.realloc (readFrom c.fd o.read s)

/-! ## Runs -/

/-- `UIF_MAX_EVENTS`. -/
def uifMaxEvents : Nat := 16

inductive Act
  /-- `epoll_wait` returns. -/
  | wait (events : List Nat)
  /-- It fails, with `EINTR` or not. -/
  | waitFails (interrupted : Bool)
  /-- The next event of the batch. -/
  | event (o : EventCalls)
  /-- Another thread opens or closes a descriptor. -/
  | opens (fd : Nat)
  | closes (fd : Nat)

/-- `accept` returns a descriptor that is not open. -/
def acceptsFree (s : State) (o : EventCalls) : Bool :=
  match o.accept.accept with
  | none => true
  | some fd => (s.fds fd).isNone

/-- `read` returns no more bytes than it was asked for. -/
def readFits (s : State) (o : EventCalls) : Bool :=
  match s.batch.head?.bind fun e => findClient s e.1, o.read with
  | some (_, c), .data bs => decide (bs.length ≤ c.ctx.bufExpected - c.ctx.bytesRead)
  | _, _ => true

/-- What the kernel does; `epoll_wait` reports watched descriptors, each once. -/
def possible (s : State) : Act → Bool
  | .wait events =>
    decide (events.Nodup ∧ events.length ≤ uifMaxEvents) && events.all s.watched
  | .waitFails _ => true
  | .event o => acceptsFree s o && readFits s o
  | .opens fd => (s.fds fd).isNone
  | .closes fd => decide (s.fds fd = some .other)

/-- The listener thread; what is not possible does not happen. -/
def step (s : State) (a : Act) : State :=
  if s.stopped || !possible s a then s
  else
    match a with
    | .wait events =>
      if s.batch.isEmpty then { s with batch := events.map fun fd => (fd, s.fds fd) } else s
    | .waitFails interrupted =>
      if s.batch.isEmpty && !interrupted then { closeAllClients s with stopped := true } else s
    | .event o =>
      match s.batch with
      | [] => s
      | (fd, _) :: rest => handleEvent fd o { s with batch := rest }
    | .opens fd => { s with fds := Function.update s.fds fd (some .other) }
    | .closes fd => { s with fds := Function.update s.fds fd none }

/-! ## The list of clients -/

section

variable {s : State} {i : Nat} {c c' : Client} {fd : Nat}

theorem of_findClient (h : findClient s fd = some (i, c)) : s.clients[i]? = some c ∧ c.fd = fd := by
  obtain ⟨j, hj, hmap⟩ := Option.bind_eq_some_iff.mp h
  obtain ⟨c', hc', heq⟩ := Option.map_eq_some_iff.mp hmap
  cases heq
  obtain ⟨hlt, hfd, -⟩ := List.findIdx?_eq_some_iff_getElem.mp hj
  rw [List.getElem?_eq_getElem hlt, Option.some.injEq] at hc'
  exact ⟨hc' ▸ List.getElem?_eq_getElem hlt, hc' ▸ of_decide_eq_true hfd⟩

theorem findClient_of_mem (h : c ∈ s.clients) : ∃ i c', findClient s c.fd = some (i, c') := by
  unfold findClient
  cases hfind : s.clients.findIdx? fun c' => c'.fd = c.fd with
  | none =>
    have hnone := List.findIdx?_eq_none_iff.mp hfind c h
    exact absurd rfl (of_decide_eq_false hnone)
  | some i =>
    obtain ⟨hlt, -⟩ := List.findIdx?_eq_some_iff_getElem.mp hfind
    exact ⟨i, s.clients[i], by simp [hlt]⟩

variable {α : Type} {f : Client → α}

/-- What tells the clients apart tells what is at `i` from the rest. -/
theorem mem_eraseIdx (h : s.clients[i]? = some c) (hnodup : (s.clients.map f).Nodup) :
    c' ∈ s.clients.eraseIdx i ↔ c' ∈ s.clients ∧ f c' ≠ f c := by
  rw [List.mem_eraseIdx_iff_getElem?]
  constructor
  · rintro ⟨j, hne, hj⟩
    refine ⟨List.mem_of_getElem? hj, fun heq => hne ?_⟩
    have hlt : j < (s.clients.map f).length := by
      rw [List.length_map]
      exact (List.getElem?_eq_some_iff.mp hj).1
    refine (List.getElem?_inj hlt hnodup).mp ?_
    rw [List.getElem?_map, List.getElem?_map, hj, h, Option.map_some, Option.map_some, heq]
  · rintro ⟨hmem, hne⟩
    obtain ⟨j, hj⟩ := List.getElem?_of_mem hmem
    refine ⟨j, ?_, hj⟩
    rintro rfl
    rw [h] at hj
    exact hne (congrArg f (Option.some.inj hj).symm)

theorem mem_set {ctx : UifClientCtx} (h : s.clients[i]? = some c)
    (hnodup : (s.clients.map f).Nodup) (hmem : c' ∈ s.clients.set i { c with ctx }) :
    c' = { c with ctx } ∨ c' ∈ s.clients ∧ f c' ≠ f c := by
  obtain ⟨hi, -⟩ := List.getElem?_eq_some_iff.mp h
  obtain ⟨j, hj⟩ := List.getElem?_of_mem hmem
  by_cases heq : i = j
  · subst heq
    rw [List.getElem?_set_self hi] at hj
    exact .inl (Option.some.inj hj).symm
  · rw [List.getElem?_set_ne heq] at hj
    exact .inr ((mem_eraseIdx h hnodup).mp (List.mem_eraseIdx_iff_getElem?.mpr ⟨j, Ne.symm heq, hj⟩))

theorem map_set {ctx : UifClientCtx} (h : s.clients[i]? = some c)
    (hf : f { c with ctx } = f c) : (s.clients.set i { c with ctx }).map f = s.clients.map f := by
  refine List.ext_getElem? fun j => ?_
  rw [List.getElem?_map, List.getElem?_map]
  by_cases heq : i = j
  · subst heq
    rw [List.getElem?_set_self (List.getElem?_eq_some_iff.mp h).1, h, Option.map_some,
      Option.map_some, hf]
  · rw [List.getElem?_set_ne heq]

end

/-! ## The descriptors -/

/-- What is open while the listener runs: the two descriptors of the `user_if`, and one for each
client. -/
structure Live (s : State) : Prop where
  server : s.fds s.uif.val.1 = some .server
  shutdown : s.fds s.uif.val.2 = some .shutdown
  client : ∀ c ∈ s.clients, s.fds c.fd = some (.conn c.conn)
  conn : ∀ fd k, s.fds fd = some (.conn k) → ∃ c ∈ s.clients, c.fd = fd ∧ c.conn = k
  fds_nodup : (s.clients.map Client.fd).Nodup
  conns_nodup : (s.clients.map Client.conn).Nodup
  conn_lt : ∀ c ∈ s.clients, c.conn < s.nextConn
  watched : ∀ fd, s.watched fd = true ↔
    fd = s.uif.val.1 ∨ fd = s.uif.val.2 ∨ ∃ c ∈ s.clients, c.fd = fd
  batch_nodup : (s.batch.map Prod.fst).Nodup
  batch_watched : ∀ e ∈ s.batch, s.watched e.1 = true
  batch_same : ∀ e ∈ s.batch, s.fds e.1 = e.2

section

variable {s : State} {i : Nat} {c : Client} {fd : Nat}

theorem Live.init (uif : UifFds) : Live (.init uif) where
  server := if_pos rfl
  shutdown := (if_neg (Ne.symm uif.property)).trans (if_pos rfl)
  client := fun _ h => absurd h List.not_mem_nil
  conn := by
    intro fd k h
    unfold State.init at h
    dsimp only at h
    split at h
    · cases h
    · split at h <;> cases h
  fds_nodup := .nil
  conns_nodup := .nil
  conn_lt := fun _ h => absurd h List.not_mem_nil
  watched := by
    intro fd
    show decide _ = true ↔ _
    simp [State.init]
  batch_nodup := .nil
  batch_watched := fun _ h => absurd h List.not_mem_nil
  batch_same := fun _ h => absurd h List.not_mem_nil

theorem Live.watched_open (h : Live s) (hw : s.watched fd = true) : s.fds fd ≠ none := by
  rcases (h.watched fd).mp hw with rfl | rfl | ⟨c, hc, rfl⟩
  · rw [h.server]
    exact Option.some_ne_none _
  · rw [h.shutdown]
    exact Option.some_ne_none _
  · rw [h.client c hc]
    exact Option.some_ne_none _

/-- A change of the descriptors that leaves those alone that the listener has. -/
theorem Live.others (h : Live s) {fds : Nat → Option Target}
    (hsame : ∀ fd, s.watched fd = true → fds fd = s.fds fd)
    (hconn : ∀ fd k, fds fd = some (.conn k) → s.fds fd = some (.conn k)) :
    Live { s with fds } :=
  { h with
    server := (hsame _ ((h.watched _).mpr (.inl rfl))).trans h.server
    shutdown := (hsame _ ((h.watched _).mpr (.inr (.inl rfl)))).trans h.shutdown
    client := fun c hc => (hsame _ ((h.watched _).mpr (.inr (.inr ⟨c, hc, rfl⟩)))).trans (h.client c hc)
    conn := fun fd k hfd => h.conn fd k (hconn fd k hfd)
    batch_same := fun e he => (hsame _ (h.batch_watched e he)).trans (h.batch_same e he) }

theorem Live.opens (h : Live s) (hfree : s.fds fd = none) :
    Live { s with fds := Function.update s.fds fd (some .other) } := by
  refine h.others (fun fd' hw => ?_) fun fd' k hfd' => ?_
  · refine Function.update_of_ne ?_ _ _
    rintro rfl
    exact h.watched_open hw hfree
  · by_cases heq : fd' = fd
    · subst heq
      rw [Function.update_self] at hfd'
      cases hfd'
    · rwa [Function.update_of_ne heq] at hfd'

theorem Live.closes (h : Live s) (hother : s.fds fd = some .other) :
    Live { s with fds := Function.update s.fds fd none } := by
  refine h.others (fun fd' hw => ?_) fun fd' k hfd' => ?_
  · refine Function.update_of_ne ?_ _ _
    rintro rfl
    rcases (h.watched fd').mp hw with rfl | rfl | ⟨c, hc, rfl⟩
    · rw [h.server] at hother
      cases hother
    · rw [h.shutdown] at hother
      cases hother
    · rw [h.client c hc] at hother
      cases hother
  · by_cases heq : fd' = fd
    · subst heq
      rw [Function.update_self] at hfd'
      cases hfd'
    · rwa [Function.update_of_ne heq] at hfd'

theorem Live.wait (h : Live s) {events : List Nat} (hnodup : events.Nodup)
    (hwatched : ∀ fd ∈ events, s.watched fd = true) :
    Live { s with batch := events.map fun fd => (fd, s.fds fd) } := by
  refine { h with batch_nodup := ?_, batch_watched := ?_, batch_same := ?_ }
  · rw [List.map_map]
    simpa [Function.comp_def] using hnodup
  · intro e he
    obtain ⟨fd, hfd, rfl⟩ := List.mem_map.mp he
    exact hwatched fd hfd
  · intro e he
    obtain ⟨fd, -, rfl⟩ := List.mem_map.mp he
    rfl

theorem Live.rest (h : Live s) {e : Nat × Option Target} {rest : List (Nat × Option Target)}
    (hbatch : s.batch = e :: rest) : Live { s with batch := rest } := by
  have hnodup := h.batch_nodup
  rw [hbatch, List.map_cons, List.nodup_cons] at hnodup
  refine { h with batch_nodup := hnodup.2, batch_watched := ?_, batch_same := ?_ }
  · intro e' he'
    exact h.batch_watched e' (hbatch ▸ List.mem_cons_of_mem _ he')
  · intro e' he'
    exact h.batch_same e' (hbatch ▸ List.mem_cons_of_mem _ he')

/-- The descriptor and the connection of a client. -/
def Client.key (c : Client) : Nat × Nat := (c.fd, c.conn)

theorem mem_of_keys {l l' : List Client} (h : l.map Client.key = l'.map Client.key)
    (hc : c ∈ l) : ∃ c' ∈ l', c'.fd = c.fd ∧ c'.conn = c.conn := by
  obtain ⟨c', hc', heq⟩ := List.mem_map.mp (h ▸ List.mem_map_of_mem hc)
  exact ⟨c', hc', Prod.mk.inj heq⟩

/-- What the contexts hold does not matter. -/
theorem Live.congr (h : Live s) {clients : List Client}
    (hkeys : clients.map Client.key = s.clients.map Client.key) : Live { s with clients } := by
  have hfds : clients.map Client.fd = s.clients.map Client.fd := by
    have hfst := congrArg (List.map Prod.fst) hkeys
    rwa [List.map_map, List.map_map] at hfst
  have hconns : clients.map Client.conn = s.clients.map Client.conn := by
    have hsnd := congrArg (List.map Prod.snd) hkeys
    rwa [List.map_map, List.map_map] at hsnd
  refine { h with
    client := ?_, conn := ?_, fds_nodup := hfds ▸ h.fds_nodup, conns_nodup := hconns ▸ h.conns_nodup,
    conn_lt := ?_, watched := ?_ }
  · intro c hc
    obtain ⟨c', hc', hfd, hconn⟩ := mem_of_keys hkeys hc
    rw [← hfd, ← hconn]
    exact h.client c' hc'
  · intro fd k hfd
    obtain ⟨c, hc, rfl, rfl⟩ := h.conn fd k hfd
    exact mem_of_keys hkeys.symm hc
  · intro c hc
    obtain ⟨c', hc', -, hconn⟩ := mem_of_keys hkeys hc
    exact hconn ▸ h.conn_lt c' hc'
  · intro fd
    rw [h.watched fd]
    refine or_congr_right (or_congr_right ⟨?_, ?_⟩)
    · rintro ⟨c, hc, rfl⟩
      obtain ⟨c', hc', hfd, -⟩ := mem_of_keys hkeys.symm hc
      exact ⟨c', hc', hfd⟩
    · rintro ⟨c, hc, rfl⟩
      obtain ⟨c', hc', hfd, -⟩ := mem_of_keys hkeys hc
      exact ⟨c', hc', hfd⟩

theorem Live.setCtx (h : Live s) (hc : s.clients[i]? = some c) (ctx : UifClientCtx) :
    Live (setCtx i c ctx s) :=
  h.congr (map_set hc rfl)

/-- The client whose event it is is closed. -/
theorem Live.closeClient (h : Live s) (hc : s.clients[i]? = some c)
    (hbatch : ∀ e ∈ s.batch, e.1 ≠ c.fd) : Live (closeClient i c s) := by
  have hmem := List.mem_of_getElem? hc
  have hfd := h.client c hmem
  have hserver : s.uif.val.1 ≠ c.fd := by
    intro heq
    rw [← heq, h.server] at hfd
    cases hfd
  have hshutdown : s.uif.val.2 ≠ c.fd := by
    intro heq
    rw [← heq, h.shutdown] at hfd
    cases hfd
  have herase : ∀ c', c' ∈ s.clients.eraseIdx i ↔ c' ∈ s.clients ∧ c'.fd ≠ c.fd :=
    fun c' => mem_eraseIdx hc h.fds_nodup
  constructor
  · exact (Function.update_of_ne hserver _ _).trans h.server
  · exact (Function.update_of_ne hshutdown _ _).trans h.shutdown
  · intro c' hc'
    obtain ⟨hc', hne⟩ := (herase c').mp hc'
    exact (Function.update_of_ne hne _ _).trans (h.client c' hc')
  · intro fd k hk
    change Function.update s.fds c.fd none fd = _ at hk
    by_cases heq : fd = c.fd
    · rw [heq, Function.update_self] at hk
      cases hk
    · rw [Function.update_of_ne heq] at hk
      obtain ⟨c', hc', rfl, rfl⟩ := h.conn fd k hk
      exact ⟨c', (herase c').mpr ⟨hc', heq⟩, rfl, rfl⟩
  · exact h.fds_nodup.sublist ((List.eraseIdx_sublist _ _).map _)
  · exact h.conns_nodup.sublist ((List.eraseIdx_sublist _ _).map _)
  · exact fun c' hc' => h.conn_lt c' ((herase c').mp hc').1
  · intro fd
    show Function.update s.watched c.fd false fd = true ↔ _
    by_cases heq : fd = c.fd
    · rw [heq, Function.update_self]
      refine ⟨fun hfalse => (by cases hfalse), ?_⟩
      rintro (hfd | hfd | ⟨c', hc', hfd⟩)
      · exact absurd hfd.symm hserver
      · exact absurd hfd.symm hshutdown
      · exact absurd hfd ((herase c').mp hc').2
    · rw [Function.update_of_ne heq, h.watched fd]
      refine or_congr_right (or_congr_right ⟨?_, ?_⟩)
      · rintro ⟨c', hc', rfl⟩
        exact ⟨c', (herase c').mpr ⟨hc', heq⟩, rfl⟩
      · rintro ⟨c', hc', rfl⟩
        exact ⟨c', ((herase c').mp hc').1, rfl⟩
  · exact h.batch_nodup
  · intro e he
    exact (Function.update_of_ne (hbatch e he) _ _).trans (h.batch_watched e he)
  · intro e he
    exact (Function.update_of_ne (hbatch e he) _ _).trans (h.batch_same e he)

/-- A descriptor that `accept` returned and that is closed again. -/
theorem Live.acceptFails (h : Live s) (hfree : s.fds fd = none) :
    Live (closeFd fd (accepted fd s)) := by
  have hwatched : s.watched fd = false := by
    cases hw : s.watched fd with
    | false => rfl
    | true => exact absurd hfree (h.watched_open hw)
  have hfds : Function.update (Function.update s.fds fd (some (.conn s.nextConn))) fd none = s.fds := by
    rw [Function.update_idem, ← hfree, Function.update_eq_self]
  have hsame : Function.update s.watched fd false = s.watched := by
    rw [← hwatched, Function.update_eq_self]
  unfold closeFd accepted
  dsimp only
  rw [hfds, hsame]
  exact { h with conn_lt := fun c hc => Nat.lt_succ_of_lt (h.conn_lt c hc) }

theorem Live.accepts (h : Live s) (hfree : s.fds fd = none) (ctx : UifClientCtx) :
    Live { accepted fd s with
      watched := Function.update s.watched fd true
      clients := s.clients ++ [⟨fd, s.nextConn, ctx⟩] } := by
  have hne : ∀ {fd'}, s.watched fd' = true → fd' ≠ fd := by
    rintro fd' hw rfl
    exact h.watched_open hw hfree
  have hclient : ∀ c ∈ s.clients, c.fd ≠ fd :=
    fun c hc => hne ((h.watched _).mpr (.inr (.inr ⟨c, hc, rfl⟩)))
  constructor
  · exact (Function.update_of_ne (hne ((h.watched _).mpr (.inl rfl))) _ _).trans h.server
  · exact (Function.update_of_ne (hne ((h.watched _).mpr (.inr (.inl rfl)))) _ _).trans h.shutdown
  · intro c hc
    rcases List.mem_append.mp hc with hc | hc
    · exact (Function.update_of_ne (hclient c hc) _ _).trans (h.client c hc)
    · rw [List.mem_singleton.mp hc]
      exact Function.update_self _ _ _
  · intro fd' k hk
    change Function.update s.fds fd (some (.conn s.nextConn)) fd' = _ at hk
    by_cases heq : fd' = fd
    · subst heq
      rw [Function.update_self] at hk
      cases hk
      exact ⟨_, List.mem_append_right _ (List.mem_singleton_self _), rfl, rfl⟩
    · rw [Function.update_of_ne heq] at hk
      obtain ⟨c, hc, rfl, rfl⟩ := h.conn fd' k hk
      exact ⟨c, List.mem_append_left _ hc, rfl, rfl⟩
  · rw [List.map_append]
    refine List.nodup_append.mpr ⟨h.fds_nodup, List.nodup_singleton _, ?_⟩
    intro a ha b hb
    obtain ⟨c, hc, rfl⟩ := List.mem_map.mp ha
    rw [List.mem_singleton.mp hb]
    exact hclient c hc
  · rw [List.map_append]
    refine List.nodup_append.mpr ⟨h.conns_nodup, List.nodup_singleton _, ?_⟩
    intro a ha b hb
    obtain ⟨c, hc, rfl⟩ := List.mem_map.mp ha
    rw [List.mem_singleton.mp hb]
    exact Nat.ne_of_lt (h.conn_lt c hc)
  · intro c hc
    rcases List.mem_append.mp hc with hc | hc
    · exact Nat.lt_succ_of_lt (h.conn_lt c hc)
    · rw [List.mem_singleton.mp hc]
      exact Nat.lt_succ_self _
  · intro fd'
    show Function.update s.watched fd true fd' = true ↔ _
    by_cases heq : fd' = fd
    · subst heq
      rw [Function.update_self]
      exact ⟨fun _ => .inr (.inr ⟨_, List.mem_append_right _ (List.mem_singleton_self _), rfl⟩),
        fun _ => rfl⟩
    · rw [Function.update_of_ne heq, h.watched fd']
      refine or_congr_right (or_congr_right ⟨?_, ?_⟩)
      · rintro ⟨c, hc, rfl⟩
        exact ⟨c, List.mem_append_left _ hc, rfl⟩
      · rintro ⟨c, hc, rfl⟩
        rcases List.mem_append.mp hc with hc | hc
        · exact ⟨c, hc, rfl⟩
        · exact absurd (congrArg Client.fd (List.mem_singleton.mp hc)) heq
  · exact h.batch_nodup
  · intro e he
    exact (Function.update_of_ne (hne (h.batch_watched e he)) _ _).trans (h.batch_watched e he)
  · intro e he
    exact (Function.update_of_ne (hne (h.batch_watched e he)) _ _).trans (h.batch_same e he)

theorem Live.acceptClient (h : Live s) {o : AcceptCalls}
    (hfree : ∀ fd, o.accept = some fd → s.fds fd = none) : Live (acceptClient o s) := by
  unfold Listening.acceptClient
  split
  · split
    · exact h
    · next fd haccept =>
      have hfails := h.acceptFails (hfree fd haccept)
      dsimp only
      split
      · split
        · split
          · exact hfails
          · split
            · exact h.accepts (hfree fd haccept) _
            · exact hfails
        · exact hfails
      · exact hfails
  · exact h

end

end JautoProf.Listening
