import JautoProf.ClientDescriptors
import JautoProf.Lib.Runs

/-!
# Clients in every run of the two threads

Results:
1. `inv_step`: what both threads own agrees with the counts and the descriptors, whatever
   step comes next.
2. `client_counts`: the count of a client is the number of its holders, and no action is on
   a client that was freed.
-/

namespace JautoProf.Threads

open Shared

/-! ## The system -/

/-- What the listener owns. -/
def ListenerOwns (clients : List ClientId) : Listener → Own → Prop
  | .idle, own => own = listed clients
  | .busy (.act a k), own => (Proc.act a k).Safe (preListener 1 clients) after own
    fun clients' own' => own' = listed clients'
  | .busy (.done _), _ => False
  | .closing, own => own = listed clients
  | .closingOne c (.act a k), own => (Proc.act a k).Safe (preListener 0 clients) after own
    fun _ own' => own' = listed (clients.erase c)
  | .closingOne _ (.done _), _ => False
  | .stopped, own => own = listed clients

/-- What the event thread owns. -/
def LoopOwns : Loop → Own → Prop
  | .idle, own => own = 0
  | .handling m (.act a k), own => ∃ c, m.client = some c ∧
    (Proc.act a k).Safe (preLoop c) after own fun _ own' => own' = 0
  | .handling _ (.done _), _ => False
  | .ended, own => own = 0

/-- What both threads own agrees with the counts, whatever they do next. -/
structure Sound (s : Shared) (clients : List ClientId) (lown eown : Own) : Prop where
  counts : Counts s (lown + eown)
  descs : Descs s (lown + eown)
  nodup : clients.Nodup

/-- The invariant of the system. -/
structure Sys.Owns (s : Sys) (lown eown : Own) : Prop where
  sound : Sound s.shared s.clients lown eown
  listener : ListenerOwns s.clients s.listener lown
  loop : LoopOwns s.loop eown

def Sys.Inv (s : Sys) : Prop := ∃ lown eown, s.Owns lown eown

theorem inv_init : Sys.init.Inv :=
  ⟨0, 0, ⟨counts_init, descs_init, List.nodup_nil⟩, rfl, rfl⟩

/-- No client is listed twice: its descriptor would be. -/
theorem nodup_of_descs {s : Shared} {clients : List ClientId} {frame : Own}
    (h : Descs s (listed clients + frame)) : clients.Nodup := by
  rw [List.nodup_iff_count_le_one]
  intro c
  by_contra htwice
  have hmem : c ∈ clients := List.count_pos_iff.mp (by omega)
  have hagain : c ∈ clients.erase c := by
    rw [← List.count_pos_iff, List.count_erase_self]
    omega
  have hchan := chan_mem_listed hmem
  obtain ⟨k, hk, -⟩ := h.good _ (Multiset.mem_add.mpr (.inl hchan))
  have hfd : s.fdOf (.chan c) = some k.fd := by rw [Shared.fdOf, hk]; rfl
  refine h.fdOf_ne (Multiset.mem_add.mpr (.inl hchan)) ?_ hfd hfd
  rw [Multiset.erase_add_left_pos _ hchan, listed_erase]
  exact Multiset.mem_add.mpr (.inl (chan_mem_listed hagain))

theorem listen_owns {s : Sys} {lown eown : Own} {p : Thread (List ClientId)}
    (h : Sound s.shared s.clients lown eown)
    (hp : p.Safe (preListener 1 s.clients) after lown fun clients own => own = listed clients)
    (hloop : LoopOwns s.loop eown) : (s.listen p).Inv := by
  cases p with
  | done clients =>
    cases hp
    exact ⟨_, eown, ⟨h.counts, h.descs, nodup_of_descs h.descs⟩, rfl, hloop⟩
  | act a k => exact ⟨lown, eown, h, hp, hloop⟩

theorem listenClosing_owns {s : Sys} {lown eown : Own} {c : ClientId} {p : Thread Unit}
    (h : Sound s.shared s.clients lown eown)
    (hp : p.Safe (preListener 0 s.clients) after lown fun _ own => own = listed (s.clients.erase c))
    (hloop : LoopOwns s.loop eown) : (s.listenClosing c p).Inv := by
  cases p with
  | done _ => exact ⟨lown, eown, ⟨h.counts, h.descs, h.nodup.erase c⟩, hp, hloop⟩
  | act a k => exact ⟨lown, eown, h, hp, hloop⟩

theorem handle_owns {s : Sys} {lown eown : Own} {m : PsMsg ClientId} {c : ClientId}
    {p : Thread Bool} (h : Sound s.shared s.clients lown eown)
    (hlist : ListenerOwns s.clients s.listener lown) (hm : m.client = some c)
    (hp : p.Safe (preLoop c) after eown fun _ own => own = 0) : (s.handle m p).Inv := by
  cases p with
  | done more =>
    cases more with
    | true => exact ⟨lown, eown, h, hlist, hp⟩
    | false => exact ⟨lown, eown, h, hlist, hp⟩
  | act a k => exact ⟨lown, eown, h, hlist, c, hm, hp⟩

/-- A thread performs an action. -/
theorem counts_step {s : Shared} {own frame : Own} (h : Counts s (own + frame)) {a : Act}
    (ha : needs a own) (o : Answer) :
    Counts (s.exec a o).2 (after a (s.exec a o).1 own + frame) := by
  rw [← after_add ha]
  exact counts_exec h (needs_add ha frame) o

/-- A message is taken out of the queue, and its reference with it. -/
theorem Counts.take {s : Shared} {own : Own} {m : PsMsg ClientId} {queue : List (PsMsg ClientId)}
    (h : Counts s own) (hq : s.queue = m :: queue) :
    Counts { s with queue } (own + (m.client.elim 0 fun c => {Tok.ref c})) where
  ok := h.ok
  count c := by
    have hcount := h.count c
    rw [Shared.queued, hq, List.countP_cons] at hcount
    have hown : refsOf (m.client.elim 0 fun c => {Tok.ref c}) c =
        if m.client = some c then 1 else 0 := by
      cases m.client with
      | none => rfl
      | some d => exact (refsOf_cons (.ref d) 0 c).trans (Nat.zero_add _)
    rw [refsOf_add, hown]
    show s.rcOf c = _ + queue.countP _
    simp only [decide_eq_true_eq] at hcount
    omega
  pos := h.pos
  fresh := h.fresh

/-- Descriptors have no part in the queue. -/
theorem Descs.queue {s : Shared} {own : Own} (h : Descs s own) (queue : List (PsMsg ClientId)) :
    Descs { s with queue } own :=
  h.congr rfl rfl (fun _ hx => .inl hx) (fun _ hd => hd) fun _ => Nat.le_refl _

theorem Descs.take {s : Shared} {own : Own} (h : Descs s own) (m : PsMsg ClientId) :
    Descs s (own + (m.client.elim 0 fun c => {Tok.ref c})) := by
  cases m.client with
  | none =>
    rw [Option.elim_none, Multiset.add_zero]
    exact h
  | some c =>
    rw [Option.elim_some, Multiset.add_comm]
    refine h.congr rfl rfl (fun x hx => ?_) (fun d hd => Multiset.mem_cons_of_mem hd)
      fun fd => (users_cons s (.ref c) own fd).le
    rcases Multiset.mem_cons.mp hx with rfl | hx
    · exact .inr ⟨c, rfl⟩
    · exact .inl hx

/-- A message that names no client is enqueued. -/
theorem Counts.produce {s : Shared} {own : Own} {m : PsMsg ClientId} (h : Counts s own)
    (hm : m.client = none) : Counts { s with queue := s.queue ++ [m] } own := by
  have := h.push (m := m) (fun c hc => by rw [hm] at hc; cases hc) 0
  simpa [after, hm] using this

theorem descs_step {s : Shared} {own frame : Own} (h : Counts s (own + frame))
    (hdescs : Descs s (own + frame)) {a : Act} (ha : needs a own) (o : Answer) :
    Descs (s.exec a o).2 (after a (s.exec a o).1 own + frame) := by
  rw [← after_add ha]
  exact descs_exec hdescs h (needs_add ha frame) o

theorem inv_listener {s : Sys} (o : Answer) (h : s.Inv) : (step s (.listener o)).Inv := by
  have hsame := h
  obtain ⟨lown, eown, ⟨hcounts, hdescs, hnodup⟩, hlist, hloop⟩ := h
  unfold step
  simp only
  split
  · rename_i a k hl
    rw [hl] at hlist
    exact listen_owns ⟨counts_step hcounts hlist.1.1 o, descs_step hcounts hdescs hlist.1.1 o, hnodup⟩
      (hlist.2 _) hloop
  · rename_i c a k hl
    rw [hl] at hlist
    exact listenClosing_owns
      ⟨counts_step hcounts hlist.1.1 o, descs_step hcounts hdescs hlist.1.1 o, hnodup⟩ (hlist.2 _) hloop
  · exact hsame

theorem inv_take {s : Sys} (h : s.Inv) : (step s .take).Inv := by
  have hsame := h
  obtain ⟨lown, eown, ⟨hcounts, hdescs, hnodup⟩, hlist, hloop⟩ := h
  unfold step
  simp only
  split
  · rename_i m queue hl hq
    rw [hl] at hloop
    cases hloop
    rw [Multiset.add_zero] at hcounts hdescs
    have htaken := hcounts.take hq
    have hdescs' := (hdescs.queue queue).take m
    cases m with
    | usrRq client rq =>
      exact handle_owns ⟨htaken, hdescs', hnodup⟩ hlist rfl (safe_dispatch rq)
    | classLoaded | shutdown | shutdownRequest | shutdownStarting =>
      exact ⟨lown, 0, ⟨htaken, hdescs', hnodup⟩, hlist, rfl⟩
  · exact hsame

theorem inv_loop {s : Sys} (o : Answer) (h : s.Inv) : (step s (.loop o)).Inv := by
  have hsame := h
  obtain ⟨lown, eown, ⟨hcounts, hdescs, hnodup⟩, hlist, hloop⟩ := h
  unfold step
  simp only
  split
  · rename_i m a k hl
    rw [hl] at hloop
    obtain ⟨c, hm, hpre, hsafe⟩ := hloop
    rw [Multiset.add_comm] at hcounts hdescs
    have hnext := counts_step hcounts hpre.1 o
    have hdescs' := descs_step hcounts hdescs hpre.1 o
    rw [Multiset.add_comm] at hnext hdescs'
    exact handle_owns ⟨hnext, hdescs', hnodup⟩ hlist hm (hsafe _)
  · exact hsame

/-- The listener, when it is idle, turns to a program. -/
theorem Sys.Inv.listen {s : Sys} (h : s.Inv) (hl : s.listener = .idle)
    {p : Thread (List ClientId)} (hp : p.Safe (preListener 1 s.clients) after (listed s.clients)
      fun clients own => own = listed clients) : (s.listen p).Inv := by
  obtain ⟨lown, eown, hsound, hlist, hloop⟩ := h
  rw [hl] at hlist
  cases hlist
  exact listen_owns hsound hp hloop

theorem inv_closeNext {s : Sys} (h : s.Inv) : (step s .closeNext).Inv := by
  have hsame := h
  obtain ⟨lown, eown, ⟨hcounts, hdescs, hnodup⟩, hlist, hloop⟩ := h
  unfold step
  simp only
  split
  · rename_i c rest hl hc
    rw [hl] at hlist
    cases hlist
    exact listenClosing_owns ⟨hcounts, hdescs, hnodup⟩ (safe_closeOne (by simp [hc])) hloop
  · rename_i hl hc
    rw [hl] at hlist
    exact ⟨lown, eown, ⟨hcounts, hdescs, hnodup⟩, hlist, hloop⟩
  · exact hsame

theorem inv_step (s : Sys) (e : Step) (h : s.Inv) : (step s e).Inv := by
  unfold step
  cases e with
  | listener o => exact inv_listener o h
  | take => exact inv_take h
  | loop o => exact inv_loop o h
  | closeNext => exact inv_closeNext h
  | produce m =>
    -- the message of another thread holds no token of a client
    obtain ⟨lown, eown, ⟨hcounts, hdescs, hnodup⟩, hlist, hloop⟩ := h
    exact ⟨lown, eown, ⟨hcounts.produce m.property, hdescs.queue _, hnodup⟩, hlist, hloop⟩
  | acceptReady =>
    cases hl : s.listener with
    | idle => exact h.listen hl (safe_acceptClient s.clients)
    | busy | closing | closingOne | stopped => exact h
  | clientRequest client r =>
    cases hl : s.listener with
    | idle =>
      dsimp only
      split
      · next hc => exact h.listen hl (safe_handleRequest hc r)
      · exact h
    | busy | closing | closingOne | stopped => exact h
  | clientGone client =>
    cases hl : s.listener with
    | idle =>
      dsimp only
      split
      · next hc => exact h.listen hl (safe_closeClient hc)
      · exact h
    | busy | closing | closingOne | stopped => exact h
  | closeAll =>
    cases hl : s.listener with
    | idle =>
      obtain ⟨lown, eown, hsound, hlist, hloop⟩ := h
      rw [hl] at hlist
      exact ⟨lown, eown, hsound, hlist, hloop⟩
    | busy | closing | closingOne | stopped => exact h

/-! ## The counts in every state -/

theorem inv_run (es : List Step) : (Runs.run step Sys.init es).Inv := by
  suffices h : ∀ s : Sys, s.Inv → (Runs.run step s es).Inv from h _ inv_init
  induction es with
  | nil => exact fun _ h => h
  | cons e es ih => exact fun s h => ih _ (inv_step s e h)

/-- The event thread is handling a message that names the client. -/
def Loop.handles (c : ClientId) : Loop → Prop
  | .handling m _ => m.client = some c
  | _ => False

instance (c : ClientId) (l : Loop) : Decidable (l.handles c) :=
  match l with
  | .handling m _ => inferInstanceAs (Decidable (m.client = some c))
  | .idle | .ended => inferInstanceAs (Decidable False)

/-- The holders of a client: the listener while it has it in its list, and every message
that names it, in the queue or being handled. -/
def Sys.holders (s : Sys) (c : ClientId) : Nat :=
  (if c ∈ s.clients then 1 else 0) + s.shared.queued c + if s.loop.handles c then 1 else 0

/-- In the middle of an event other than the close of all clients. -/
def Listener.isBusy : Listener → Bool
  | .busy _ => true
  | _ => false

theorem LoopOwns.refs {l : Loop} {own : Own} (h : LoopOwns l own) (c : ClientId) :
    refsOf own c = if l.handles c then 1 else 0 := by
  cases l with
  | idle | ended =>
    cases h
    rfl
  | handling m p =>
    cases p with
    | done _ => exact h.elim
    | act a k =>
      obtain ⟨d, hd, ⟨-, hown⟩, -⟩ := h
      subst hown
      have hone : refsOf {Tok.ref d} c = if some d = some c then 1 else 0 :=
        (refsOf_cons (.ref d) 0 c).trans (Nat.zero_add _)
      rw [hone, ← hd]
      rfl

theorem ListenerOwns.near {clients : List ClientId} {l : Listener} {own : Own}
    (h : ListenerOwns clients l own) : Near (if l.isBusy then 1 else 0) clients own := by
  cases l with
  | idle | closing | stopped =>
    cases h
    exact near_listed 0 clients
  | busy p =>
    cases p with
    | done _ => exact h.elim
    | act a k => exact h.1.2
  | closingOne c p =>
    cases p with
    | done _ => exact h.elim
    | act a k => exact h.1.2

theorem count_nodup {clients : List ClientId} (h : clients.Nodup) (c : ClientId) :
    clients.count c = if c ∈ clients then 1 else 0 := by
  split
  · exact List.count_eq_one_of_mem h ‹_›
  · exact List.count_eq_zero_of_not_mem ‹_›

/-- In every state of the system: no action was on a client that had been freed; the count
of a client is the number of its holders, one more at most while the listener is at an
event (when it has counted a message that it is about to enqueue); and between two events
of the listener a client is freed exactly when it has no holder left. -/
theorem client_counts (es : List Step) :
    (Runs.run step Sys.init es).shared.fault = false ∧
    ∀ c, (Runs.run step Sys.init es).holders c ≤ (Runs.run step Sys.init es).shared.rcOf c ∧
      (Runs.run step Sys.init es).shared.rcOf c ≤ (Runs.run step Sys.init es).holders c + 1 ∧
      ((Runs.run step Sys.init es).listener.isBusy = false →
        (Runs.run step Sys.init es).shared.rcOf c = (Runs.run step Sys.init es).holders c ∧
        ((Runs.run step Sys.init es).shared.clients c = none ↔
          (Runs.run step Sys.init es).holders c = 0)) := by
  obtain ⟨lown, eown, ⟨hcounts, -, hnodup⟩, hlist, hloop⟩ := inv_run es
  generalize Runs.run step Sys.init es = s at *
  refine ⟨hcounts.ok, fun c => ?_⟩
  have hcount := hcounts.count c
  have hnear := hlist.near c
  rw [refsOf_add, hloop.refs c] at hcount
  rw [count_nodup hnodup c] at hnear
  have hle : s.holders c ≤ s.shared.rcOf c ∧ s.shared.rcOf c ≤ s.holders c +
      if s.listener.isBusy then 1 else 0 := by
    unfold Sys.holders
    omega
  refine ⟨hle.1, hle.2.trans (by split <;> omega), fun hidle => ?_⟩
  rw [hidle] at hle
  have heq : s.shared.rcOf c = s.holders c := Nat.le_antisymm hle.2 hle.1
  refine ⟨heq, ?_⟩
  rw [← heq, Shared.rcOf]
  cases hk : s.shared.clients c with
  | none => simp
  | some k => simpa using Nat.ne_of_gt (hcounts.pos c k hk)

/-- One holder is the listener and the other one the queued request. -/
theorem client_counts_queued :
    (Runs.run step Sys.init (acceptSteps 5 ++ requestSteps 0 .getStatus)).shared.rcOf 0 =
      (Runs.run step Sys.init (acceptSteps 5 ++ requestSteps 0 .getStatus)).holders 0 ∧
    (Runs.run step Sys.init (acceptSteps 5 ++ requestSteps 0 .getStatus)).holders 0 = 2 :=
  ⟨(((client_counts (acceptSteps 5 ++ requestSteps 0 .getStatus)).2 0).2.2 rfl).1, rfl⟩

end JautoProf.Threads
