import JautoProf.ClientThreads

/-!
# The reference counts of clients

What each thread owns is a multiset of tokens: the references that it holds, of the
listener's with what it has done to the descriptor, and descriptors that no client has yet.
The count of a client is the number of its references among the tokens of both threads and
the messages of the queue, whatever action comes next.

Results:
1. `counts_exec`: an action that owns what it needs keeps the counts.
2. `safe_acceptClient`, `safe_handleRequest`, `safe_closeOne`, `safe_dispatch`: the programs
   of both threads own what their actions need, and end with what they should.
-/

namespace JautoProf.Threads

open Shared

/-- What a thread owns. A `chan` is the listener's reference to a client whose descriptor is
open, and `marked` the same after the client was marked as closed. -/
inductive Tok
  | ref (c : ClientId)
  | chan (c : ClientId)
  | marked (c : ClientId)
  | raw (fd : Nat)
deriving DecidableEq

/-- The client that a token is a reference to. -/
def Tok.client : Tok → Option ClientId
  | ref c | chan c | marked c => some c
  | raw _ => none

abbrev Own : Type := Multiset Tok

/-- The number of references to a client. -/
def refsOf (own : Own) (c : ClientId) : Nat := own.countP fun t => t.client = some c

/-- What an action needs. -/
def needs : Act → Own → Prop
  | .choose, _ => True
  | .acquire c, own => 0 < refsOf own c
  | .release c, own => .ref c ∈ own
  | .setClosed c, own => .chan c ∈ own
  | .isClosed c, own => 0 < refsOf own c
  | .write c, own => 0 < refsOf own c
  | .closeClient c, own => .marked c ∈ own
  | .accept, _ => True
  | .closeFd fd, own => .raw fd ∈ own
  | .newClient fd, own => .raw fd ∈ own
  | .push m, own => ∀ c, m.client = some c → .ref c ∈ own

/-- What is owned after an action. -/
def after : Act → Answer → Own → Own
  | .acquire c, _, own => .ref c ::ₘ own
  | .release c, _, own => own.erase (.ref c)
  | .setClosed c, _, own => .marked c ::ₘ own.erase (.chan c)
  | .closeClient c, _, own => .ref c ::ₘ own.erase (.marked c)
  | .accept, some fd, own => .raw fd ::ₘ own
  | .closeFd fd, _, own => own.erase (.raw fd)
  | .newClient fd, r, own =>
    match r with
    | none => own.erase (.raw fd)
    | some c => .chan c ::ₘ own.erase (.raw fd)
  | .push m, some _, own =>
    match m.client with
    | none => own
    | some c => own.erase (.ref c)
  | _, _, own => own

/-! ## References -/

@[simp] theorem refsOf_zero (c : ClientId) : refsOf 0 c = 0 := rfl

@[simp] theorem refsOf_cons (t : Tok) (own : Own) (c : ClientId) :
    refsOf (t ::ₘ own) c = refsOf own c + if t.client = some c then 1 else 0 :=
  Multiset.countP_cons _ _ _

@[simp] theorem refsOf_add (own frame : Own) (c : ClientId) :
    refsOf (own + frame) c = refsOf own c + refsOf frame c :=
  Multiset.countP_add _ _ _

theorem refsOf_erase {t : Tok} {own : Own} (h : t ∈ own) (c : ClientId) :
    refsOf own c = refsOf (own.erase t) c + if t.client = some c then 1 else 0 := by
  rw [← refsOf_cons, Multiset.cons_erase h]

theorem refsOf_pos {t : Tok} {own : Own} {c : ClientId} (h : t ∈ own) (hc : t.client = some c) :
    0 < refsOf own c := by
  rw [refsOf_erase h, if_pos hc]
  exact Nat.succ_pos _

theorem needs_add {a : Act} {own : Own} (h : needs a own) (frame : Own) :
    needs a (own + frame) := by
  cases a with
  | choose | accept => trivial
  | acquire c | isClosed c | write c =>
    show 0 < refsOf (own + frame) c
    rw [refsOf_add]
    exact Nat.add_pos_left h _
  | release c | setClosed c | closeClient c | closeFd fd | newClient fd =>
    exact Multiset.mem_add.mpr (.inl h)
  | push m => exact fun c hc => Multiset.mem_add.mpr (.inl (h c hc))

/-- An action leaves alone what other threads own. -/
theorem after_add {a : Act} {own : Own} (h : needs a own) (r : Answer) (frame : Own) :
    after a r (own + frame) = after a r own + frame := by
  cases a with
  | choose | isClosed c | write c => rfl
  | accept =>
    cases r with
    | none => rfl
    | some fd => exact (Multiset.cons_add ..).symm
  | acquire c => exact (Multiset.cons_add ..).symm
  | release c => exact Multiset.erase_add_left_pos _ h
  | closeFd fd => exact Multiset.erase_add_left_pos _ h
  | setClosed c | closeClient c =>
    simp only [after]
    rw [Multiset.erase_add_left_pos _ h, Multiset.cons_add]
  | newClient fd =>
    cases r with
    | none => exact Multiset.erase_add_left_pos _ h
    | some c =>
      simp only [after]
      rw [Multiset.erase_add_left_pos _ h, Multiset.cons_add]
  | push m =>
    cases r with
    | none => rfl
    | some n =>
      simp only [after]
      cases hm : m.client with
      | none => rfl
      | some c => exact Multiset.erase_add_left_pos _ (h c hm)

/-! ## The counts -/

/-- The count of a client, zero when it was freed. -/
def Shared.rcOf (s : Shared) (c : ClientId) : Nat := (s.clients c).elim 0 UserIfClient.rc

/-- The number of messages in the queue that name a client. -/
def Shared.queued (s : Shared) (c : ClientId) : Nat := s.queue.countP fun m => m.client = some c

/-- The counts agree with what is owned. -/
structure Counts (s : Shared) (own : Own) : Prop where
  ok : s.fault = false
  count : ∀ c, s.rcOf c = refsOf own c + s.queued c
  pos : ∀ c k, s.clients c = some k → 0 < k.rc
  fresh : ∀ c, s.nextClient ≤ c → s.clients c = none

theorem counts_init : Counts Shared.init 0 where
  ok := rfl
  count _ := rfl
  pos _ _ h := by cases h
  fresh _ _ := rfl

variable {s : Shared} {own : Own}

theorem Counts.live (h : Counts s own) {c : ClientId} (hc : 0 < refsOf own c) :
    ∃ k, s.clients c = some k := by
  have hcount := h.count c
  cases hk : s.clients c with
  | some k => exact ⟨k, rfl⟩
  | none =>
    rw [Shared.rcOf, hk] at hcount
    simp at hcount
    omega

theorem Counts.lt_next (h : Counts s own) {c : ClientId} {k : UserIfClient}
    (hk : s.clients c = some k) : c < s.nextClient := by
  by_contra hle
  rw [h.fresh c (Nat.le_of_not_lt hle)] at hk
  cases hk

/-- A client is replaced, by one with another count or by none. -/
theorem Counts.setClient (h : Counts s own) {own' : Own} {c : ClientId} {k : UserIfClient}
    (hk : s.clients c = some k) (k' : Option UserIfClient) (hpos : ∀ x, k' = some x → 0 < x.rc)
    (hcount : k'.elim 0 UserIfClient.rc = refsOf own' c + s.queued c)
    (hother : ∀ c', c' ≠ c → refsOf own' c' = refsOf own c') : Counts (s.setClient c k') own' where
  ok := h.ok
  count c' := by
    by_cases hc : c' = c
    · subst hc
      rw [Shared.rcOf, setClient_self]
      exact hcount
    · rw [Shared.rcOf, setClient_of_ne hc, hother c' hc]
      exact h.count c'
  pos c' x hx := by
    by_cases hc : c' = c
    · subst hc
      rw [setClient_self] at hx
      exact hpos x hx
    · rw [setClient_of_ne hc] at hx
      exact h.pos c' x hx
  fresh c' hle := by
    have hne : c' ≠ c := by
      rintro rfl
      exact absurd (h.lt_next hk) (Nat.not_lt_of_le hle)
    rw [setClient_of_ne hne]
    exact h.fresh c' hle

theorem rcOf_some {c : ClientId} {k : UserIfClient} (hk : s.clients c = some k) : s.rcOf c = k.rc := by
  rw [Shared.rcOf, hk]
  rfl

/-- A change that concerns neither clients nor the queue. -/
theorem Counts.congr (h : Counts s own) {t : Shared} {own' : Own} (hclients : t.clients = s.clients)
    (hnext : t.nextClient = s.nextClient) (hqueue : t.queue = s.queue) (hfault : t.fault = s.fault)
    (hown : ∀ c, refsOf own' c = refsOf own c) : Counts t own' where
  ok := hfault.trans h.ok
  count c := by
    rw [Shared.rcOf, Shared.queued, hclients, hqueue, hown c]
    exact h.count c
  pos := hclients ▸ h.pos
  fresh := by
    rw [hclients, hnext]
    exact h.fresh

/-- A token is exchanged for another one of the same client, or of none. -/
theorem refsOf_exchange {t : Tok} (t' : Tok) (ht : t ∈ own) (h : t.client = t'.client) (c : ClientId) :
    refsOf (t' ::ₘ own.erase t) c = refsOf own c := by
  rw [refsOf_cons, refsOf_erase ht c, h]

/-- A new client has one reference, and it replaces the descriptor that it was made from. -/
theorem Counts.newClient (h : Counts s own) {fd : Nat} (hfd : .raw fd ∈ own) (o : Answer) :
    Counts (s.exec (.newClient fd) o).2 (.chan s.nextClient ::ₘ own.erase (.raw fd)) := by
  have hown : ∀ c, refsOf (.chan s.nextClient ::ₘ own.erase (.raw fd)) c =
      refsOf own c + if s.nextClient = c then 1 else 0 := by
    intro c
    simp [refsOf_erase hfd c, Tok.client]
  -- nobody holds the new client yet
  have hnew := h.count s.nextClient
  rw [Shared.rcOf, h.fresh _ (Nat.le_refl _), Option.elim_none] at hnew
  constructor
  · exact h.ok
  · intro c
    rw [hown c]
    by_cases hc : c = s.nextClient
    · subst hc
      have hrc : Shared.rcOf (s.exec (.newClient fd) o).2 s.nextClient = 1 := by
        simp [Shared.rcOf, Shared.exec]
      have hqueued : Shared.queued (s.exec (.newClient fd) o).2 s.nextClient =
        s.queued s.nextClient := rfl
      rw [if_pos rfl]
      omega
    · rw [if_neg (Ne.symm hc), Nat.add_zero, Shared.rcOf, Shared.exec]
      simp only [setClient_of_ne hc]
      exact h.count c
  · intro c k hk
    by_cases hc : c = s.nextClient
    · subst hc
      simp [Shared.exec] at hk
      rw [← hk]
      exact Nat.one_pos
    · simp only [Shared.exec, setClient_of_ne hc] at hk
      exact h.pos c k hk
  · intro c hle
    have hlt : s.nextClient < c := hle
    simp only [Shared.exec, setClient_of_ne (Nat.ne_of_gt hlt)]
    exact h.fresh c (Nat.le_of_lt hlt)

/-- A message that is enqueued takes its reference along. -/
theorem Counts.push (h : Counts s own) {m : PsMsg ClientId}
    (hm : ∀ c, m.client = some c → .ref c ∈ own) (n : Nat) :
    Counts { s with queue := s.queue ++ [m] } (after (.push m) (some n) own) where
  ok := h.ok
  count c := by
    have hcount := h.count c
    have hqueued : Shared.queued { s with queue := s.queue ++ [m] } c =
        s.queued c + if m.client = some c then 1 else 0 := by
      simp [Shared.queued, List.countP_append, List.countP_cons]
    have hown : refsOf own c =
        refsOf (after (.push m) (some n) own) c + if m.client = some c then 1 else 0 := by
      simp only [after]
      cases hmc : m.client with
      | none => simp
      | some d => exact refsOf_erase (hm d hmc) c
    rw [hqueued]
    show s.rcOf c = _
    omega
  pos := h.pos
  fresh := h.fresh

/-- An action that owns what it needs keeps the counts. -/
theorem counts_exec (h : Counts s own) {a : Act} (ha : needs a own) (o : Answer) :
    Counts (s.exec a o).2 (after a (s.exec a o).1 own) := by
  cases a with
  | choose => exact h
  | acquire c =>
    obtain ⟨k, hk⟩ := h.live ha
    rw [Shared.exec, Shared.withClient, hk]
    refine h.setClient hk _ (fun x hx => ?_) ?_ fun c' hc => ?_
    · cases hx
      exact Nat.succ_pos _
    · have := h.count c
      rw [rcOf_some hk] at this
      simp [after, Tok.client]
      omega
    · simp [after, Tok.client, Ne.symm hc]
  | release c =>
    obtain ⟨k, hk⟩ := h.live (refsOf_pos ha rfl)
    have hcount := h.count c
    -- the last reference frees the client, and then no token of it is left
    have herase := refsOf_erase ha c
    rw [Tok.client, if_pos rfl] at herase
    rw [rcOf_some hk] at hcount
    rw [Shared.exec, Shared.withClient, hk]
    refine h.setClient hk _ (fun x hx => ?_) ?_ fun c' hc => ?_
    · split at hx
      · cases hx
      · cases hx
        have := h.pos c k hk
        simp only
        omega
    · simp only [after]
      split <;> simp <;> omega
    · have := refsOf_erase ha c'
      simp [Tok.client, Ne.symm hc] at this
      exact this.symm
  | setClosed c =>
    obtain ⟨k, hk⟩ := h.live (refsOf_pos ha rfl)
    have hown := refsOf_exchange (.marked c) ha rfl
    rw [Shared.exec, Shared.withClient, hk]
    refine h.setClient hk _ (fun x hx => ?_) ?_ fun c' _ => hown c'
    · cases hx
      exact h.pos c k hk
    · have := h.count c
      rw [rcOf_some hk, ← hown c] at this
      exact this
  | isClosed c =>
    obtain ⟨k, hk⟩ := h.live ha
    rw [Shared.exec, Shared.withClient, hk]
    exact h
  | write c =>
    obtain ⟨k, hk⟩ := h.live ha
    rw [Shared.exec, Shared.withClient, hk]
    simp only
    split
    · exact h.congr rfl rfl rfl rfl fun _ => rfl
    · exact h
  | closeClient c =>
    obtain ⟨k, hk⟩ := h.live (refsOf_pos ha rfl)
    rw [Shared.exec, Shared.withClient, hk]
    exact h.congr rfl rfl rfl rfl (refsOf_exchange (.ref c) ha rfl)
  | accept =>
    cases o with
    | none => exact h
    | some fd =>
      rw [Shared.exec]
      simp only
      split
      · exact h.congr rfl rfl rfl rfl fun c => by simp [after, Tok.client]
      · exact h
  | closeFd fd =>
    refine h.congr rfl rfl rfl rfl fun c => ?_
    have := refsOf_erase ha c
    simp [Tok.client] at this
    exact this.symm
  | newClient fd => exact h.newClient ha o
  | push m =>
    cases o with
    | none => exact h
    | some n => exact h.push ha n

/-! ## The programs -/

/-- The listener's clients, each with its descriptor. -/
def listed (clients : List ClientId) : Own := (clients.map Tok.chan : List Tok)

theorem refsOf_listed (clients : List ClientId) (c : ClientId) :
    refsOf (listed clients) c = clients.count c := by
  induction clients with
  | nil => rfl
  | cons d clients ih =>
    have hcons : listed (d :: clients) = .chan d ::ₘ listed clients := rfl
    rw [hcons, refsOf_cons, ih, List.count_cons]
    simp [Tok.client]

theorem chan_mem_listed {clients : List ClientId} {c : ClientId} (h : c ∈ clients) :
    .chan c ∈ listed clients :=
  Multiset.mem_coe.mpr (List.mem_map_of_mem h)

theorem listed_erase (clients : List ClientId) (c : ClientId) :
    (listed clients).erase (.chan c) = listed (clients.erase c) := by
  have hinj : Function.Injective Tok.chan := fun _ _ h => Tok.chan.inj h
  rw [listed, Multiset.coe_erase, ← List.map_erase hinj, listed]

theorem listed_append (clients : List ClientId) (c : ClientId) :
    listed (clients ++ [c]) = .chan c ::ₘ listed clients := by
  rw [listed, List.map_append, ← Multiset.coe_add, Multiset.add_comm]
  rfl

/-- The references that are owned are those to the clients, and at most `extra` more. -/
def Near (extra : Nat) (clients : List ClientId) (own : Own) : Prop :=
  ∀ c, clients.count c ≤ refsOf own c ∧ refsOf own c ≤ clients.count c + extra

/-- What holds whenever the listener performs an action. -/
def preListener (extra : Nat) (clients : List ClientId) (a : Act) (own : Own) : Prop :=
  needs a own ∧ Near extra clients own

/-- What holds whenever the event thread performs an action: it has its one reference. -/
def preLoop (c : ClientId) (a : Act) (own : Own) : Prop := needs a own ∧ own = {.ref c}

theorem safe_ask {pre : Act → Own → Prop} {a : Act} {α : Type} {f : Bool → Thread α}
    {Q : α → Own → Prop} (ha : pre a own)
    (hf : ∀ r, (f r.isSome).Safe pre after (after a r own) Q) :
    (ask a >>= f).Safe pre after own Q := ⟨ha, hf⟩

section Loop

variable {c : ClientId}

theorem safe_uifSend : (uifSend c).Safe (preLoop c) after {.ref c} fun _ own => own = {.ref c} := by
  have href : 0 < refsOf {.ref c} c := refsOf_pos (Multiset.mem_singleton_self _) rfl
  refine safe_ask ⟨href, rfl⟩ fun r => ?_
  cases r with
  | none => exact .call ⟨href, rfl⟩ fun _ => rfl
  | some n => rfl

/-- The reference is let go, and nothing follows. -/
theorem safe_release {α : Type} (x : α) :
    (Proc.call (.release c) >>= fun _ => pure x : Thread α).Safe (preLoop c) after {.ref c}
      fun _ own => own = 0 :=
  .call ⟨Multiset.mem_singleton_self _, rfl⟩ fun _ => Multiset.erase_singleton ..

/-- A handler, and what follows it. -/
theorem safe_then {p : Thread Unit}
    (hp : p.Safe (preLoop c) after {.ref c} fun _ own => own = {.ref c}) :
    (do p; let _ ← Proc.call (.release c) : Thread Unit).Safe (preLoop c) after {.ref c}
      fun _ own => own = 0 := by
  refine .bind (hp.mono fun _ own hown => ?_)
  subst hown
  exact safe_release ()

theorem safe_respondShort :
    (respondShort c).Safe (preLoop c) after {.ref c} fun _ own => own = 0 :=
  safe_then safe_uifSend

theorem safe_respondSized :
    (respondSized c).Safe (preLoop c) after {.ref c} fun _ own => own = 0 := by
  refine safe_then (safe_ask ⟨trivial, rfl⟩ fun r => ?_)
  cases r with
  | none => rfl
  | some n => exact safe_uifSend

theorem safe_handleUsrRq (rq : UsrRq) :
    (handleUsrRq c rq).Safe (preLoop c) after {.ref c} fun _ own => own = 0 := by
  cases rq with
  | loadedClasses | classMethods | listInstrumented | getAsyncErrors => exact safe_respondSized
  | instrumentMethod | deinstrumentMethod | resume | pauseThreads | deinstrumentById
  | instrumentLine | getStatus => exact safe_respondShort
  | getStats =>
    refine safe_ask ⟨trivial, rfl⟩ fun r => ?_
    cases r with
    | none => exact safe_release ()
    | some n => exact safe_respondSized

theorem safe_dispatch (rq : UsrRq) : (dispatch (.usrRq c rq)).Safe (preLoop c) after {.ref c}
    fun _ own => own = 0 :=
  .bind (safe_handleUsrRq rq)

end Loop

section Listener

variable {extra : Nat} {clients : List ClientId} {c : ClientId}

theorem near_listed (extra : Nat) (clients : List ClientId) : Near extra clients (listed clients) :=
  fun c => by
    rw [refsOf_listed]
    omega

theorem Near.exchange {own : Own} (h : Near extra clients own) {t : Tok} (t' : Tok) (ht : t ∈ own)
    (hc : t.client = t'.client) : Near extra clients (t' ::ₘ own.erase t) := by
  intro c
  rw [refsOf_exchange t' ht hc]
  exact h c

theorem near_cons_listed (clients : List ClientId) (t : Tok) :
    Near 1 clients (t ::ₘ listed clients) := by
  intro c
  rw [refsOf_cons, refsOf_listed]
  split <;> omega

theorem safe_mallocs (n : Nat) : (mallocs n).Safe (preListener 1 clients) after (listed clients)
    fun _ own => own = listed clients := by
  induction n with
  | zero => rfl
  | succ n ih =>
    refine safe_ask ⟨trivial, near_listed 1 clients⟩ fun r => ?_
    cases r with
    | none => rfl
    | some _ => exact ih

theorem safe_psSendUsrRq (hc : c ∈ clients) (allocs : Nat) (rq : UsrRq) :
    (psSendUsrRq allocs c rq).Safe (preListener 1 clients) after (listed clients)
      fun _ own => own = listed clients := by
  refine .bind ((safe_mallocs allocs).mono fun ok own hown => ?_)
  subst hown
  cases ok with
  | false => rfl
  | true =>
    have hchan := chan_mem_listed hc
    refine .call ⟨refsOf_pos hchan rfl, near_listed 1 clients⟩ fun _ => ?_
    have hmem : Tok.ref c ∈ Tok.ref c ::ₘ listed clients := Multiset.mem_cons_self ..
    have hnear := near_cons_listed clients (.ref c)
    have hback : (Tok.ref c ::ₘ listed clients).erase (.ref c) = listed clients :=
      Multiset.erase_cons_head ..
    refine safe_ask ⟨fun d hd => ?_, hnear⟩ fun r => ?_
    · cases hd
      exact hmem
    · cases r with
      | none => exact .call ⟨hmem, hnear⟩ fun _ => hback
      | some _ => exact hback

theorem safe_psUifHandler (hc : c ∈ clients) (r : Request) :
    (psUifHandler c r).Safe (preListener 1 clients) after (listed clients)
      fun _ own => own = listed clients := by
  cases r with
  | loadedClasses | getStats | resume | pauseThreads | listInstrumented | getAsyncErrors
  | deinstrumentById | instrumentLine | getStatus => exact safe_psSendUsrRq hc ..
  | classMethods | instrumentMethod | deinstrumentMethod =>
    refine .bind ((safe_mallocs _).mono fun ok own hown => ?_)
    subst hown
    cases ok with
    | false => rfl
    | true => exact safe_psSendUsrRq hc ..
  | shutdown =>
    refine .bind ((safe_mallocs _).mono fun ok own hown => ?_)
    subst hown
    cases ok with
    | false => rfl
    | true =>
      refine .call ⟨fun d hd => ?_, near_listed 1 clients⟩ fun r => ?_
      · cases hd
      · cases r <;> rfl

theorem safe_handleRequest (hc : c ∈ clients) (r : Request) :
    (handleRequest clients c r).Safe (preListener 1 clients) after (listed clients)
      fun clients' own => own = listed clients' :=
  .bind ((safe_psUifHandler hc r).mono fun _ _ hown => hown)

theorem safe_acceptClient (clients : List ClientId) :
    (acceptClient clients).Safe (preListener 1 clients) after (listed clients)
      fun clients' own => own = listed clients' := by
  refine safe_ask ⟨trivial, near_listed 1 clients⟩ fun r => ?_
  cases r with
  | none => rfl
  | some _ =>
    refine .call ⟨trivial, near_listed 1 clients⟩ fun r => ?_
    cases r with
    | none => rfl
    | some fd =>
      have hmem : Tok.raw fd ∈ Tok.raw fd ::ₘ listed clients := Multiset.mem_cons_self ..
      have hnear := near_cons_listed clients (.raw fd)
      have hback : (Tok.raw fd ::ₘ listed clients).erase (.raw fd) = listed clients :=
        Multiset.erase_cons_head ..
      refine safe_ask ⟨trivial, hnear⟩ fun r => ?_
      cases r with
      | none => exact .call ⟨hmem, hnear⟩ fun _ => hback
      | some _ =>
        refine .call ⟨hmem, hnear⟩ fun r => ?_
        cases r with
        | none => exact hback
        | some c => exact (congrArg (Tok.chan c ::ₘ ·) hback).trans (listed_append clients c).symm

/-- A client is closed: its descriptor, and then the listener's reference. -/
theorem safe_closeOne (hc : c ∈ clients) :
    (closeOne c).Safe (preListener extra clients) after (listed clients)
      fun _ own => own = listed (clients.erase c) := by
  have hchan := chan_mem_listed hc
  have hnear := near_listed extra clients
  have hmarked := hnear.exchange (.marked c) hchan rfl
  have hmem : Tok.marked c ∈ Tok.marked c ::ₘ (listed clients).erase (.chan c) :=
    Multiset.mem_cons_self ..
  refine .call ⟨hchan, hnear⟩ fun _ => .call ⟨hmem, hmarked⟩ fun _ => ?_
  have href := hmarked.exchange (.ref c) hmem rfl
  rw [Multiset.erase_cons_head, listed_erase] at href
  show Proc.Safe _ _ (.ref c ::ₘ (Tok.marked c ::ₘ (listed clients).erase (.chan c)).erase _) _ _
  rw [Multiset.erase_cons_head, listed_erase]
  have hback : (Tok.ref c ::ₘ listed (clients.erase c)).erase (.ref c) = listed (clients.erase c) :=
    Multiset.erase_cons_head ..
  exact .call ⟨Multiset.mem_cons_self .., href⟩ fun _ => hback

theorem safe_closeClient (hc : c ∈ clients) :
    (closeClient clients c).Safe (preListener 1 clients) after (listed clients)
      fun clients' own => own = listed clients' :=
  .bind ((safe_closeOne hc).mono fun _ _ hown => hown)

end Listener

end JautoProf.Threads
