import JautoProf.ClientRuns

/-!
# Where responses are written to

`uif_send` tests whether the client was closed and then writes to its descriptor. Between
the two the listener may close the descriptor and accept another connection on the same
number.

Results:
1. `guarded_dispatch`: the event thread writes to a client only right after it found the
   client open.
2. `responses_delivered`: when no `accept` returns the descriptor of a client that is about
   to be written to, every response reaches the connection of its client.
3. `response_misdelivered`: a run where a response reaches another client.
-/

namespace JautoProf.Threads

open Shared

/-! ## Writes follow the test -/

/-- What a thread has found open just now, before and after an action. -/
def afterTest : Act → Answer → Option ClientId → Option ClientId
  | .isClosed c, none, _ => some c
  | _, _, _ => none

/-- A client is written to right after it was found open, and only then. -/
def preSend : Act → Option ClientId → Prop
  | .write c, found => found = some c
  | _, found => found = none

/-- The program writes to a client right after it found it open, and only then. -/
def Guarded {α : Type} (found : Option ClientId) (p : Thread α) : Prop :=
  p.Safe preSend afterTest found fun _ found' => found' = none

/-- The program does not write. -/
def Silent {α : Type} (p : Thread α) : Prop :=
  p.Safe (fun a _ => ∀ c, a ≠ .write c) (fun _ _ (u : Unit) => u) () fun _ _ => True

theorem guarded_ask {α : Type} {a : Act} {f : Bool → Thread α} {found : Option ClientId}
    (ha : preSend a found) (hf : ∀ r : Answer, Guarded (afterTest a r found) (f r.isSome)) :
    Guarded found (ask a >>= f) := ⟨ha, hf⟩

theorem Guarded.bind {α β : Type} {p : Thread α} {f : α → Thread β} (hp : Guarded none p)
    (hf : ∀ x, Guarded none (f x)) : Guarded none (p >>= f) :=
  Proc.Safe.bind (hp.mono fun x found hfound => by
    subst hfound
    exact hf x)

theorem guarded_uifSend (c : ClientId) : Guarded none (uifSend c) := by
  refine guarded_ask rfl fun r => ?_
  cases r with
  | none => exact ⟨rfl, fun _ => rfl⟩
  | some n => rfl

theorem guarded_release {α : Type} (c : ClientId) (x : α) :
    Guarded none (Proc.call (.release c) >>= fun _ => pure x : Thread α) := ⟨rfl, fun _ => rfl⟩

theorem guarded_respondShort (c : ClientId) : Guarded none (respondShort c) :=
  (guarded_uifSend c).bind fun _ => guarded_release c ()

theorem guarded_respondSized (c : ClientId) : Guarded none (respondSized c) := by
  refine Guarded.bind (guarded_ask rfl fun r => ?_) fun _ => guarded_release c ()
  cases r with
  | none => rfl
  | some n => exact guarded_uifSend c

theorem guarded_handleUsrRq (c : ClientId) (rq : UsrRq) : Guarded none (handleUsrRq c rq) := by
  cases rq with
  | loadedClasses | classMethods | listInstrumented | getAsyncErrors =>
    exact guarded_respondSized c
  | instrumentMethod | deinstrumentMethod | resume | pauseThreads | deinstrumentById
  | instrumentLine | getStatus => exact guarded_respondShort c
  | getStats =>
    refine guarded_ask rfl fun r => ?_
    cases r with
    | none => exact guarded_release c ()
    | some n => exact guarded_respondSized c

theorem guarded_dispatch (m : PsMsg ClientId) : Guarded none (dispatch m) := by
  cases m with
  | usrRq c rq => exact (guarded_handleUsrRq c rq).bind fun _ => rfl
  | classLoaded | shutdown | shutdownRequest | shutdownStarting => rfl

theorem Silent.bind {α β : Type} {p : Thread α} {f : α → Thread β} (hp : Silent p)
    (hf : ∀ x, Silent (f x)) : Silent (p >>= f) :=
  Proc.Safe.bind (hp.mono fun x _ _ => hf x)

theorem silent_call {α : Type} {a : Act} {f : Answer → Thread α} (ha : ∀ c, a ≠ .write c)
    (hf : ∀ r, Silent (f r)) : Silent (Proc.call a >>= f) := ⟨ha, hf⟩

theorem silent_ask {α : Type} {a : Act} {f : Bool → Thread α} (ha : ∀ c, a ≠ .write c)
    (hf : ∀ b, Silent (f b)) : Silent (ask a >>= f) := ⟨ha, fun _ => hf _⟩

theorem silent_pure {α : Type} (x : α) : Silent (pure x : Thread α) := trivial

theorem silent_mallocs (n : Nat) : Silent (mallocs n) := by
  induction n with
  | zero => exact silent_pure true
  | succ n ih =>
    refine silent_ask (fun _ => Act.noConfusion) fun b => ?_
    cases b with
    | false => exact silent_pure false
    | true => exact ih

theorem silent_psSendUsrRq (allocs : Nat) (c : ClientId) (rq : UsrRq) :
    Silent (psSendUsrRq allocs c rq) := by
  refine (silent_mallocs allocs).bind fun ok => ?_
  cases ok with
  | false => exact silent_pure ()
  | true =>
    refine silent_call (fun _ => Act.noConfusion) fun _ => silent_ask (fun _ => Act.noConfusion)
      fun b => ?_
    cases b with
    | false => exact silent_call (fun _ => Act.noConfusion) fun _ => silent_pure ()
    | true => exact silent_pure ()

theorem silent_psUifHandler (c : ClientId) (r : Request) : Silent (psUifHandler c r) := by
  cases r with
  | loadedClasses | getStats | resume | pauseThreads | listInstrumented | getAsyncErrors
  | deinstrumentById | instrumentLine | getStatus => exact silent_psSendUsrRq ..
  | classMethods | instrumentMethod | deinstrumentMethod =>
    refine (silent_mallocs _).bind fun ok => ?_
    cases ok with
    | false => exact silent_pure ()
    | true => exact silent_psSendUsrRq ..
  | shutdown =>
    refine (silent_mallocs _).bind fun ok => ?_
    cases ok with
    | false => exact silent_pure ()
    | true => exact silent_call (fun _ => Act.noConfusion) fun _ => silent_pure ()

theorem silent_acceptClient (clients : List ClientId) : Silent (acceptClient clients) := by
  refine silent_ask (fun _ => Act.noConfusion) fun b => ?_
  cases b with
  | false => exact silent_pure clients
  | true =>
    refine silent_call (fun _ => Act.noConfusion) fun r => ?_
    cases r with
    | none => exact silent_pure clients
    | some fd =>
      refine silent_ask (fun _ => Act.noConfusion) fun b => ?_
      cases b with
      | false => exact silent_call (fun _ => Act.noConfusion) fun _ => silent_pure clients
      | true =>
        refine silent_call (fun _ => Act.noConfusion) fun r => ?_
        cases r with
        | none => exact silent_pure clients
        | some c => exact silent_pure _

theorem silent_closeOne (c : ClientId) : Silent (closeOne c) :=
  silent_call (fun _ => Act.noConfusion) fun _ => silent_call (fun _ => Act.noConfusion) fun _ =>
    silent_call (fun _ => Act.noConfusion) fun _ => silent_pure ()

/-! ## The window between the test and the write -/

/-- The descriptor of a client is closed, or still the one of its connection. -/
def Shared.Window (s : Shared) (c : ClientId) : Prop :=
  ∃ k, s.clients c = some k ∧ (s.fds k.fd = none ∨ s.fds k.fd = k.conn)

/-- A response that was written reached the connection of its client. -/
def Shared.Delivered (s : Shared) : Prop := ∀ w ∈ s.written, w.own = some w.reached

variable {s : Shared} {c : ClientId}

theorem Shared.Window.congr {t : Shared} (h : s.Window c) (hclients : t.clients c = s.clients c)
    (hfds : t.fds = s.fds) : t.Window c := by
  obtain ⟨k, hk, hfd⟩ := h
  exact ⟨k, hclients.trans hk, hfds ▸ hfd⟩

/-- A change of a client that keeps its descriptor. -/
theorem Shared.Window.setClient (h : s.Window c) {d : ClientId} {k : UserIfClient}
    (hk : s.clients d = some k) (k' : Option UserIfClient)
    (hsame : ∀ x, k' = some x → x.fd = k.fd ∧ x.conn = k.conn)
    (hlive : (s.setClient d k').clients c ≠ none) : (s.setClient d k').Window c := by
  obtain ⟨x, hx, hfd⟩ := h
  by_cases hc : c = d
  · subst hc
    rw [hk] at hx
    cases hx
    rw [setClient_self] at hlive
    obtain ⟨y, rfl⟩ := Option.ne_none_iff_exists'.mp hlive
    obtain ⟨hyfd, hyconn⟩ := hsame y rfl
    exact ⟨y, setClient_self .., by rw [hyfd, hyconn]; exact hfd⟩
  · exact ⟨x, (setClient_of_ne hc ..).trans hx, hfd⟩

theorem Shared.Window.close (h : s.Window c) (fd : Nat) : (s.setFd fd none).Window c := by
  obtain ⟨k, hk, hfd⟩ := h
  refine ⟨k, hk, ?_⟩
  by_cases heq : k.fd = fd
  · exact .inl (heq ▸ setFd_self ..)
  · rw [setFd_of_ne heq]
    exact hfd

/-- Only an `accept` can bring another connection to the descriptor. -/
theorem window_exec (h : s.Window c) (hlt : c < s.nextClient) {a : Act} {o : Answer}
    (hlive : (s.exec a o).2.clients c ≠ none)
    (haccept : a = .accept → ∀ k, s.clients c = some k → o ≠ some k.fd) :
    (s.exec a o).2.Window c := by
  cases a with
  | choose => exact h
  | acquire d | release d | setClosed d =>
    rw [Shared.exec, Shared.withClient] at hlive ⊢
    cases hd : s.clients d with
    | none => exact h.congr rfl rfl
    | some k =>
      rw [hd] at hlive
      refine h.setClient hd _ (fun x hx => ?_) hlive
      first
        | cases hx
          exact ⟨rfl, rfl⟩
        | split at hx <;> cases hx
          exact ⟨rfl, rfl⟩
  | isClosed d =>
    rw [Shared.exec, Shared.withClient]
    cases s.clients d <;> exact h.congr rfl rfl
  | write d =>
    rw [Shared.exec, Shared.withClient]
    cases s.clients d with
    | none => exact h.congr rfl rfl
    | some k =>
      simp only
      split <;> exact h.congr rfl rfl
  | closeClient d =>
    rw [Shared.exec, Shared.withClient]
    cases s.clients d with
    | none => exact h.congr rfl rfl
    | some k => exact h.close k.fd
  | accept =>
    cases o with
    | none => exact h
    | some fd =>
      -- the new connection gets another descriptor
      obtain ⟨k, hk, hfd⟩ := h
      have hne : k.fd ≠ fd := fun heq => haccept rfl k hk (heq ▸ rfl)
      rw [Shared.exec]
      by_cases hfree : s.fds fd = none
      · simp only [if_pos hfree]
        refine ⟨k, hk, ?_⟩
        show (s.setFd fd _).fds k.fd = none ∨ (s.setFd fd _).fds k.fd = k.conn
        rw [setFd_of_ne hne]
        exact hfd
      · simp only [if_neg hfree]
        exact ⟨k, hk, hfd⟩
  | closeFd fd => exact h.close fd
  | newClient fd =>
    exact h.congr (setClient_of_ne (Nat.ne_of_lt hlt) ..) rfl
  | push m =>
    cases o with
    | none => exact h
    | some n => exact h.congr rfl rfl

/-- Nothing but a write is a write. -/
theorem written_exec {a : Act} (ha : ∀ c, a ≠ .write c) (o : Answer) :
    (s.exec a o).2.written = s.written := by
  cases a with
  | write c => exact absurd rfl (ha c)
  | choose | closeFd | newClient => rfl
  | acquire c | release c | setClosed c | isClosed c | closeClient c =>
    rw [Shared.exec, Shared.withClient]
    cases s.clients c <;> rfl
  | accept =>
    cases o with
    | none => rfl
    | some fd =>
      rw [Shared.exec]
      simp only
      split <;> rfl
  | push m => cases o <;> rfl

/-- A write in the window goes to the connection of the client, or nowhere. -/
theorem delivered_write (h : s.Delivered) (hw : s.Window c) (o : Answer) :
    (s.exec (.write c) o).2.Delivered := by
  obtain ⟨k, hk, hfd⟩ := hw
  rw [Shared.exec, Shared.withClient, hk]
  simp only
  split
  · rename_i n conn hconn
    intro w hmem
    rcases List.mem_append.mp hmem with hmem | hmem
    · exact h w hmem
    · rw [List.mem_singleton.mp hmem]
      rcases hfd with hnone | hsome
      · rw [hnone] at hconn
        cases hconn
      · exact hsome.symm.trans hconn
  · exact h

/-- A client that was found open is in the window. -/
theorem window_of_open {own : Own} (hdescs : Descs s own) {k : UserIfClient}
    (hk : s.clients c = some k) (hopen : k.closed = false) : s.Window c := by
  obtain ⟨k', hk', -, -, hfds⟩ := hdescs.good _ (hdescs.opened c k hk hopen)
  exact ⟨k', hk', .inr hfds⟩

/-! ## The system -/

/-- The next action of the listener. -/
def Listener.next : Listener → Option Act
  | .busy (.act a _) => some a
  | .closingOne _ (.act a _) => some a
  | _ => none

/-- The step is an `accept` that returns the descriptor of the client that the event thread
has found open and is about to write to. -/
def Sys.reuses (s : Sys) (e : Step) : Bool :=
  match e, s.listener.next, s.loop with
  | .listener (some fd), some .accept, .handling _ (.act (.write c) _) =>
    (s.shared.clients c).map UserIfClient.fd = some fd
  | _, _, _ => false

def Listener.Silent : Listener → Prop
  | .busy p => Threads.Silent p
  | .closingOne _ p => Threads.Silent p
  | _ => True

def Loop.Guarded (found : Option ClientId) : Loop → Prop
  | .handling _ p => Threads.Guarded found p
  | _ => found = none

/-- The event thread writes to clients that it found open, and they are in the window. -/
structure Sys.Delivers (s : Sys) : Prop where
  inv : s.Inv
  delivered : s.shared.Delivered
  listener : s.listener.Silent
  loop : ∃ found, s.loop.Guarded found ∧ ∀ c, found = some c → s.shared.Window c

theorem delivers_init : Sys.init.Delivers where
  inv := inv_init
  delivered _ h := by cases h
  listener := trivial
  loop := ⟨none, rfl, fun _ h => by cases h⟩

theorem listen_silent {s : Sys} {p : Thread (List ClientId)} (hp : Threads.Silent p) :
    (s.listen p).listener.Silent ∧ (s.listen p).shared = s.shared ∧ (s.listen p).loop = s.loop := by
  cases p with
  | done clients => exact ⟨trivial, rfl, rfl⟩
  | act a k => exact ⟨hp, rfl, rfl⟩

theorem listenClosing_silent {s : Sys} {c : ClientId} {p : Thread Unit} (hp : Threads.Silent p) :
    (s.listenClosing c p).listener.Silent ∧ (s.listenClosing c p).shared = s.shared ∧
      (s.listenClosing c p).loop = s.loop := by
  cases p with
  | done _ => exact ⟨trivial, rfl, rfl⟩
  | act a k => exact ⟨hp, rfl, rfl⟩

theorem handle_guarded {s : Sys} {m : PsMsg ClientId} {p : Thread Bool} {found : Option ClientId}
    (hp : Threads.Guarded found p) :
    (s.handle m p).loop.Guarded found ∧ (s.handle m p).shared = s.shared ∧
      (s.handle m p).listener = s.listener := by
  cases p with
  | done more => cases more <;> exact ⟨hp, rfl, rfl⟩
  | act a k => exact ⟨hp, rfl, rfl⟩

/-- A client that is about to be written to has not been freed. -/
theorem Sys.Inv.live_of_found {s : Sys} (h : s.Inv) {c : ClientId}
    (hloop : s.loop.Guarded (some c)) : ∃ m k, s.loop = .handling m (.act (.write c) k) ∧
      s.shared.clients c ≠ none ∧ c < s.shared.nextClient := by
  obtain ⟨lown, eown, ⟨hcounts, -, -⟩, -, howns⟩ := h
  cases hl : s.loop with
  | idle | ended =>
    rw [hl] at hloop
    cases hloop
  | handling m p =>
    rw [hl] at hloop howns
    cases p with
    | done _ => cases hloop
    | act a k =>
      cases a with
      | write d =>
        cases hloop.1
        obtain ⟨x, -, ⟨hneeds, -⟩, -⟩ := howns
        have href : 0 < refsOf eown c := hneeds
        obtain ⟨y, hy⟩ := hcounts.live (refsOf_add lown eown c ▸ Nat.add_pos_right _ href)
        exact ⟨m, k, rfl, hy ▸ Option.some_ne_none y, hcounts.lt_next hy⟩
      | _ => cases hloop.1

/-- A step that changes neither clients nor descriptors nor what the event thread does. -/
theorem Sys.Delivers.same {s t : Sys} (h : s.Delivers) (hinv : t.Inv)
    (hlist : t.listener.Silent) (hloop : t.loop = s.loop)
    (hclients : t.shared.clients = s.shared.clients) (hfds : t.shared.fds = s.shared.fds)
    (hwritten : t.shared.written = s.shared.written) : t.Delivers where
  inv := hinv
  delivered := fun w hw => h.delivered w (hwritten ▸ hw)
  listener := hlist
  loop := by
    obtain ⟨found, hguarded, hwindow⟩ := h.loop
    exact ⟨found, hloop ▸ hguarded, fun c hc => (hwindow c hc).congr (by rw [hclients]) hfds⟩

/-- The listener performs an action. -/
theorem Sys.Delivers.act {s t : Sys} (h : s.Delivers) (hinv : t.Inv) {a : Act} {o : Answer}
    (ha : ∀ c, a ≠ .write c) (hlist : t.listener.Silent) (hloop : t.loop = s.loop)
    (hshared : t.shared = (s.shared.exec a o).2)
    (haccept : ∀ c m k, s.loop = .handling m (.act (.write c) k) → a = .accept →
      ∀ k, s.shared.clients c = some k → o ≠ some k.fd) : t.Delivers where
  inv := hinv
  delivered := fun w hw => h.delivered w (by rwa [hshared, written_exec ha] at hw)
  listener := hlist
  loop := by
    obtain ⟨found, hguarded, hwindow⟩ := h.loop
    refine ⟨found, hloop ▸ hguarded, fun c hc => ?_⟩
    subst hc
    obtain ⟨m, k, hwrite, -, hlt⟩ := h.inv.live_of_found hguarded
    obtain ⟨-, -, -, hlive, -⟩ := hinv.live_of_found (hloop ▸ hguarded)
    rw [hshared] at hlive ⊢
    exact window_exec (hwindow c rfl) hlt hlive (haccept c m k hwrite)

/-- An `accept` that does not return the descriptor. -/
theorem ne_of_not_reuses {s : Sys} {o : Answer} (hok : s.reuses (.listener o) = false)
    {m : PsMsg ClientId} {c : ClientId} {k : Answer → Thread Bool}
    (hloop : s.loop = .handling m (.act (.write c) k)) (hnext : s.listener.next = some .accept)
    (kc : UserIfClient) (hkc : s.shared.clients c = some kc) : o ≠ some kc.fd := by
  rintro rfl
  simp [Sys.reuses, hloop, hnext, hkc] at hok

theorem delivers_listener {s : Sys} {o : Answer} (h : s.Delivers)
    (hok : s.reuses (.listener o) = false) : (step s (.listener o)).Delivers := by
  have hinv := inv_step s (.listener o) h.inv
  have hsilent := h.listener
  unfold step at hinv ⊢
  simp only at hinv ⊢
  split at hinv <;> rename_i hl
  · rename_i a k
    rw [hl] at hsilent
    obtain ⟨hlist, hshared, hloop⟩ := listen_silent (hsilent.2 (s.shared.exec a o).1)
      (s := { s with shared := (s.shared.exec a o).2 })
    refine h.act hinv hsilent.1 hlist hloop hshared fun c m k' hwrite ha => ?_
    exact ne_of_not_reuses hok hwrite (by rw [hl, ← ha]; rfl)
  · rename_i c a k
    rw [hl] at hsilent
    obtain ⟨hlist, hshared, hloop⟩ := listenClosing_silent (hsilent.2 (s.shared.exec a o).1)
      (s := { s with shared := (s.shared.exec a o).2 }) (c := c)
    refine h.act hinv hsilent.1 hlist hloop hshared fun d m k' hwrite ha => ?_
    exact ne_of_not_reuses hok hwrite (by rw [hl, ← ha]; rfl)
  · exact h

theorem afterTest_eq_some {a : Act} {r : Answer} {found : Option ClientId} {c : ClientId} :
    afterTest a r found = some c ↔ a = .isClosed c ∧ r = none := by
  cases a <;> cases r <;> simp [afterTest]

/-- The client that the event thread has just found open. -/
theorem Sys.Inv.window_of_test {s : Sys} (h : s.Inv) {m : PsMsg ClientId} {c : ClientId}
    {k : Answer → Thread Bool} (hl : s.loop = .handling m (.act (.isClosed c) k)) {o : Answer}
    (hopen : (s.shared.exec (.isClosed c) o).1 = none) :
    (s.shared.exec (.isClosed c) o).2.Window c := by
  obtain ⟨lown, eown, ⟨hcounts, hdescs, -⟩, -, howns⟩ := h
  rw [hl] at howns
  obtain ⟨d, -, ⟨hneeds, -⟩, -⟩ := howns
  have href : 0 < refsOf eown c := hneeds
  obtain ⟨x, hx⟩ := hcounts.live (refsOf_add lown eown c ▸ Nat.add_pos_right _ href)
  rw [Shared.exec, Shared.withClient, hx] at hopen ⊢
  refine window_of_open hdescs hx ?_
  simpa using hopen

/-- The event thread performs an action. -/
theorem delivers_loop {s : Sys} {o : Answer} (h : s.Delivers) : (step s (.loop o)).Delivers := by
  have hinv := inv_step s (.loop o) h.inv
  have hsilent := h.listener
  obtain ⟨found, hguarded, hwindow⟩ := h.loop
  unfold step at hinv ⊢
  simp only at hinv ⊢
  split at hinv
  · rename_i m a k hl
    rw [hl] at hguarded
    obtain ⟨hpre, hrest⟩ := hguarded
    obtain ⟨hloop, hshared, hlist⟩ := handle_guarded (m := m) (hrest (s.shared.exec a o).1)
      (s := { s with shared := (s.shared.exec a o).2 })
    refine ⟨hinv, ?_, by rw [hlist]; exact hsilent, _, hloop, fun c hc => ?_⟩
    · rw [hshared]
      by_cases ha : ∃ c, a = .write c
      · obtain ⟨c, rfl⟩ := ha
        exact delivered_write h.delivered (hwindow c hpre) o
      · intro w hw
        rw [written_exec fun c hc => ha ⟨c, hc⟩] at hw
        exact h.delivered w hw
    · obtain ⟨rfl, hopen⟩ := afterTest_eq_some.mp hc
      rw [hshared]
      exact h.inv.window_of_test hl hopen
  · exact h

/-- The listener turns to an event. -/
theorem Sys.Delivers.listen {s : Sys} (h : s.Delivers) {p : Thread (List ClientId)}
    (hp : Threads.Silent p) (hinv : (s.listen p).Inv) : (s.listen p).Delivers := by
  obtain ⟨hlist, hshared, hloop⟩ := listen_silent (s := s) hp
  exact h.same hinv hlist hloop (by rw [hshared]) (by rw [hshared]) (by rw [hshared])

theorem delivers_step (s : Sys) (e : Step) (h : s.Delivers) (hok : s.reuses e = false) :
    (step s e).Delivers := by
  have hinv := inv_step s e h.inv
  cases e with
  | listener o => exact delivers_listener h hok
  | loop o => exact delivers_loop h
  | produce m => exact h.same hinv h.listener rfl rfl rfl rfl
  | take =>
    have hsilent := h.listener
    unfold step at hinv ⊢
    simp only at hinv ⊢
    split at hinv
    · rename_i m queue hl hq
      -- the loop takes a message; it writes nothing before it has checked the client
      obtain ⟨hloop, hshared, hlist⟩ := handle_guarded (m := m) (guarded_dispatch m)
        (s := { s with shared := { s.shared with queue } })
      refine ⟨hinv, ?_, by rw [hlist]; exact hsilent, none, hloop, fun c hc => by cases hc⟩
      rw [hshared]
      exact h.delivered
    · exact h
  | closeNext =>
    unfold step at hinv ⊢
    simp only at hinv ⊢
    split at hinv
    · rename_i c rest hl hc
      obtain ⟨hlist, hshared, hloop⟩ := listenClosing_silent (s := s) (c := c) (silent_closeOne c)
      exact h.same hinv hlist hloop (by rw [hshared]) (by rw [hshared]) (by rw [hshared])
    · exact h.same hinv trivial rfl rfl rfl rfl
    · exact h
  | acceptReady =>
    unfold step at hinv ⊢
    simp only at hinv ⊢
    split at hinv
    · exact h.listen (silent_acceptClient s.clients) hinv
    · exact h
  | clientRequest client r =>
    unfold step at hinv ⊢
    simp only at hinv ⊢
    split at hinv
    · by_cases hc : client ∈ s.clients
      · rw [if_pos hc] at hinv ⊢
        exact h.listen ((silent_psUifHandler client r).bind fun _ => silent_pure _) hinv
      · rw [if_neg hc]
        exact h
    · exact h
  | clientGone client =>
    unfold step at hinv ⊢
    simp only at hinv ⊢
    split at hinv
    · by_cases hc : client ∈ s.clients
      · rw [if_pos hc] at hinv ⊢
        exact h.listen ((silent_closeOne client).bind fun _ => silent_pure _) hinv
      · rw [if_neg hc]
        exact h
    · exact h
  | closeAll =>
    unfold step at hinv ⊢
    simp only at hinv ⊢
    split at hinv
    · exact h.same hinv trivial rfl rfl rfl rfl
    · exact h

/-- In a run where no `accept` returns the descriptor of a client that the event thread is
about to write to, every response that was written reached the connection of its client. -/
theorem responses_delivered {es : List Step}
    (h : Runs.Along step (fun s e => s.reuses e = false) Sys.init es) :
    ∀ w ∈ (Runs.run step Sys.init es).shared.written, w.own = some w.reached :=
  (Runs.inv_run Sys.Delivers delivers_step delivers_init h).delivered

/-- Client 0 asks for the status on descriptor 5, and its request is dispatched. -/
def statusSteps : List Step :=
  acceptSteps 5 ++ requestSteps 0 .getStatus ++ [.take, .loop none]

/-- The listener closes a client. -/
def closeSteps (client : ClientId) : List Step :=
  [.clientGone client, .listener none, .listener none, .listener none]

theorem responses_delivered_status :
    (Runs.run step Sys.init (statusSteps ++ [.loop (some 0)])).shared.written = [⟨0, some 0⟩] ∧
    ∀ w ∈ (Runs.run step Sys.init (statusSteps ++ [.loop (some 0)])).shared.written,
      w.own = some w.reached :=
  ⟨rfl, responses_delivered (by simp only [statusSteps]; repeat constructor)⟩

/-- Client 0 is found open and then closed; client 1 is accepted on its descriptor and gets
the response. -/
theorem response_misdelivered :
    ¬ ∀ es : List Step, ∀ w ∈ (Runs.run step Sys.init es).shared.written,
      w.own = some w.reached := by
  intro h
  have hmem : (⟨1, some 0⟩ : Written) ∈ (Runs.run step Sys.init
      (statusSteps ++ closeSteps 0 ++ acceptSteps 5 ++ [.loop (some 0)])).shared.written :=
    List.mem_singleton.mpr rfl
  cases h _ _ hmem

end JautoProf.Threads
