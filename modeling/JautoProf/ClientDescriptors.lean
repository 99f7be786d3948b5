import JautoProf.ClientCounts

/-!
# The descriptors of clients

The number of a descriptor is used again after it was closed. What the listener owns says
which descriptors are open, and for whom.

Results:
1. `descs_exec`: an action that owns what it needs keeps every open descriptor with one
   client, and with the connection that the client was accepted with.
-/

namespace JautoProf.Threads

open Shared

/-! ## Descriptors -/

/-- The descriptor that a token gives the right to close. -/
def Shared.fdOf (s : Shared) : Tok → Option Nat
  | .chan c | .marked c => (s.clients c).map UserIfClient.fd
  | .raw fd => some fd
  | .ref _ => none

/-- A client whose descriptor is open, on the connection it was accepted with. -/
def Shared.Connected (s : Shared) (c : ClientId) (closed : Bool) : Prop :=
  ∃ k, s.clients c = some k ∧ k.closed = closed ∧ k.conn ≠ none ∧ s.fds k.fd = k.conn

/-- What a token says about the descriptor. -/
def Shared.Good (s : Shared) : Tok → Prop
  | .ref _ => True
  | .chan c => s.Connected c false
  | .marked c => s.Connected c true
  | .raw fd => s.fds fd ≠ none

/-- The tokens of a descriptor. -/
def Shared.users (s : Shared) (own : Own) (fd : Nat) : Nat := own.countP fun t => s.fdOf t = some fd

/-- The descriptors agree with what is owned. -/
structure Descs (s : Shared) (own : Own) : Prop where
  good : ∀ t ∈ own, s.Good t
  one : ∀ fd, s.users own fd ≤ 1
  opened : ∀ c k, s.clients c = some k → k.closed = false → .chan c ∈ own

variable {s t : Shared} {own own' : Own}

theorem users_cons (s : Shared) (x : Tok) (own : Own) (fd : Nat) :
    s.users (x ::ₘ own) fd = s.users own fd + if s.fdOf x = some fd then 1 else 0 :=
  Multiset.countP_cons _ _ _

theorem users_erase {x : Tok} (h : x ∈ own) (fd : Nat) :
    s.users own fd = s.users (own.erase x) fd + if s.fdOf x = some fd then 1 else 0 := by
  rw [← users_cons, Multiset.cons_erase h]

theorem users_pos {x : Tok} {fd : Nat} (h : x ∈ own) (hx : s.fdOf x = some fd) :
    0 < s.users own fd := by
  rw [users_erase h, if_pos hx]
  exact Nat.succ_pos _

/-- Two states with the same descriptors of clients. -/
theorem users_congr (h : ∀ x ∈ own, t.fdOf x = s.fdOf x) (fd : Nat) :
    t.users own fd = s.users own fd :=
  Multiset.countP_congr rfl fun x hx => by rw [h x hx]

/-- The other tokens are of other descriptors. -/
theorem Descs.fdOf_ne (h : Descs s own) {x y : Tok} (hx : x ∈ own) (hy : y ∈ own.erase x) {fd : Nat}
    (hfd : s.fdOf x = some fd) : s.fdOf y ≠ some fd := by
  intro hyfd
  have hone := h.one fd
  have herase := users_pos (s := s) hy hyfd
  rw [users_erase hx, if_pos hfd] at hone
  omega

theorem descs_init : Descs Shared.init 0 where
  good _ h := absurd h (Multiset.notMem_zero _)
  one _ := Nat.zero_le _
  opened _ _ h := by cases h

/-- A change that concerns neither clients nor descriptors. -/
theorem Descs.congr (h : Descs s own) (hclients : t.clients = s.clients) (hfds : t.fds = s.fds)
    (hmem : ∀ x ∈ own', x ∈ own ∨ ∃ c, x = .ref c) (hchan : ∀ c, .chan c ∈ own → .chan c ∈ own')
    (husers : ∀ fd, s.users own' fd ≤ s.users own fd) : Descs t own' := by
  have hfdOf : ∀ x, t.fdOf x = s.fdOf x := by
    intro x
    cases x <;> simp only [Shared.fdOf, hclients]
  have hgood : ∀ x, t.Good x ↔ s.Good x := by
    intro x
    cases x <;> simp only [Shared.Good, Shared.Connected, hclients, hfds]
  refine ⟨fun x hx => ?_, fun fd => ?_, fun c k hk hclosed => ?_⟩
  · rcases hmem x hx with hx | ⟨c, rfl⟩
    · exact (hgood x).mpr (h.good x hx)
    · trivial
  · rw [users_congr (fun x _ => hfdOf x)]
    exact (husers fd).trans (h.one fd)
  · rw [hclients] at hk
    exact hchan c (h.opened c k hk hclosed)

/-- The count of a client changes, or it is freed when the listener has let go of it. -/
theorem Descs.recount (h : Descs s own) {c : ClientId} {k : UserIfClient}
    (hk : s.clients c = some k) (k' : Option UserIfClient)
    (hsame : ∀ x, k' = some x → x.fd = k.fd ∧ x.closed = k.closed ∧ x.conn = k.conn)
    (hgone : k' = none → .chan c ∉ own' ∧ .marked c ∉ own')
    (hmem : ∀ x ∈ own', x ∈ own ∨ ∃ c, x = .ref c) (hchan : ∀ c, .chan c ∈ own → .chan c ∈ own')
    (husers : ∀ fd, s.users own' fd ≤ s.users own fd) : Descs (s.setClient c k') own' := by
  have hconn : ∀ d closed, (d = c → k' ≠ none) → s.Connected d closed →
      (s.setClient c k').Connected d closed := by
    rintro d closed hne ⟨x, hx, hclosed, hsome, hfds⟩
    by_cases hd : d = c
    · subst hd
      rw [hk] at hx
      cases hx
      obtain ⟨x, rfl⟩ := Option.ne_none_iff_exists'.mp (hne rfl)
      obtain ⟨hfd, hcl, hcn⟩ := hsame x rfl
      exact ⟨x, setClient_self .., hcl.trans hclosed, hcn ▸ hsome, by rw [hfd, hcn]; exact hfds⟩
    · exact ⟨x, (setClient_of_ne hd ..).trans hx, hclosed, hsome, hfds⟩
  have hfdOf : ∀ d, (d = c → k' ≠ none) →
      ((s.setClient c k').clients d).map UserIfClient.fd = (s.clients d).map UserIfClient.fd := by
    intro d hne
    by_cases hd : d = c
    · subst hd
      obtain ⟨x, rfl⟩ := Option.ne_none_iff_exists'.mp (hne rfl)
      rw [setClient_self, hk]
      exact congrArg some (hsame x rfl).1
    · rw [setClient_of_ne hd]
  -- a client that the listener holds is not freed
  have hlive : ∀ d, .chan d ∈ own' ∨ .marked d ∈ own' → d = c → k' ≠ none := by
    rintro d hd rfl hnone
    rcases hd with hd | hd
    · exact (hgone hnone).1 hd
    · exact (hgone hnone).2 hd
  refine ⟨fun x hx => ?_, fun fd => ?_, fun d x hx hclosed => ?_⟩
  · rcases hmem x hx with hown | ⟨d, rfl⟩
    · have hgood := h.good x hown
      cases x with
      | ref d => trivial
      | raw fd => exact hgood
      | chan d => exact hconn d false (hlive d (.inl hx)) hgood
      | marked d => exact hconn d true (hlive d (.inr hx)) hgood
    · trivial
  · rw [users_congr (s := s)]
    · exact (husers fd).trans (h.one fd)
    · intro x hx
      cases x with
      | ref d => rfl
      | raw fd => rfl
      | chan d => exact hfdOf d (hlive d (.inl hx))
      | marked d => exact hfdOf d (hlive d (.inr hx))
  · by_cases hd : d = c
    · subst hd
      rw [setClient_self] at hx
      exact hchan d (h.opened d k hk ((hsame x hx).2.1 ▸ hclosed))
    · rw [setClient_of_ne hd] at hx
      exact hchan d (h.opened d x hx hclosed)

/-- The listener marks a client as closed. -/
theorem Descs.mark (h : Descs s own) {c : ClientId} {k : UserIfClient} (hk : s.clients c = some k)
    (hc : .chan c ∈ own) :
    Descs (s.setClient c (some { k with closed := true })) (.marked c ::ₘ own.erase (.chan c)) := by
  have hfd : s.fdOf (.chan c) = some k.fd := by simp [Shared.fdOf, hk]
  have hfdOf : ∀ x, (s.setClient c (some { k with closed := true })).fdOf x = s.fdOf x := by
    intro x
    cases x with
    | ref d | raw fd => rfl
    | chan d | marked d =>
      by_cases hd : d = c
      · subst hd
        simp [Shared.fdOf, hk]
      · simp [Shared.fdOf, setClient_of_ne hd]
  -- no other token has the descriptor, so none is of this client
  have hother : ∀ x ∈ own.erase (.chan c), s.Good x →
      (s.setClient c (some { k with closed := true })).Good x := by
    intro x hx hgood
    have hne := h.fdOf_ne hc hx hfd
    cases x with
    | ref d => trivial
    | raw fd => exact hgood
    | chan d | marked d =>
      have hd : d ≠ c := by
        rintro rfl
        exact hne (by simp [Shared.fdOf, hk])
      obtain ⟨y, hy, hrest⟩ := hgood
      exact ⟨y, (setClient_of_ne hd ..).trans hy, hrest⟩
  refine ⟨fun x hx => ?_, fun fd => ?_, fun d x hx hclosed => ?_⟩
  · rcases Multiset.mem_cons.mp hx with rfl | hx
    · obtain ⟨y, hy, -, hsome, hfds⟩ := h.good _ hc
      rw [hk] at hy
      cases hy
      exact ⟨_, setClient_self .., rfl, hsome, hfds⟩
    · exact hother x hx (h.good x (Multiset.mem_of_mem_erase hx))
  · have hone := h.one fd
    rw [users_erase hc] at hone
    rw [users_congr (s := s) fun x _ => hfdOf x, users_cons]
    exact hone
  · have hd : d ≠ c := by
      rintro rfl
      rw [setClient_self] at hx
      cases hx
      cases hclosed
    rw [setClient_of_ne hd] at hx
    have hmem := h.opened d x hx hclosed
    refine Multiset.mem_cons_of_mem ((Multiset.mem_erase_of_ne fun heq => ?_).mpr hmem)
    exact hd (Tok.chan.inj heq)

/-- A descriptor is closed, and the token for it is used up. -/
theorem Descs.close (h : Descs s own) {x : Tok} {fd : Nat} (hx : x ∈ own) (hfd : s.fdOf x = some fd)
    (hmem : ∀ y ∈ own', y ∈ own.erase x ∨ ∃ c, y = .ref c)
    (hchan : ∀ c, .chan c ∈ own → .chan c ∈ own')
    (husers : ∀ fd, s.users own' fd ≤ s.users own fd) : Descs (s.setFd fd none) own' := by
  have hconn : ∀ d closed, (s.clients d).map UserIfClient.fd ≠ some fd → s.Connected d closed →
      (s.setFd fd none).Connected d closed := by
    rintro d closed hne ⟨k, hk, hclosed, hsome, hfds⟩
    have hkfd : k.fd ≠ fd := by
      rintro rfl
      exact hne (by rw [hk]; rfl)
    exact ⟨k, hk, hclosed, hsome, (setFd_of_ne hkfd ..).trans hfds⟩
  refine ⟨fun y hy => ?_, fun fd' => (husers fd').trans (h.one fd'), fun c k hk hclosed => ?_⟩
  · rcases hmem y hy with hy | ⟨c, rfl⟩
    · have hne := h.fdOf_ne hx hy hfd
      have hgood := h.good y (Multiset.mem_of_mem_erase hy)
      cases y with
      | ref d => trivial
      | chan d => exact hconn d false hne hgood
      | marked d => exact hconn d true hne hgood
      | raw fd' =>
        have hfd' : fd' ≠ fd := fun heq => hne (congrArg some heq)
        exact (setFd_of_ne hfd' ..).trans_ne hgood
    · trivial
  · exact hchan c (h.opened c k hk hclosed)

/-- A token is of an open descriptor. -/
theorem Descs.fds_ne_none (h : Descs s own) {x : Tok} (hx : x ∈ own) {fd : Nat}
    (hfd : s.fdOf x = some fd) : s.fds fd ≠ none := by
  have hgood := h.good x hx
  cases x with
  | ref c => cases hfd
  | raw fd' =>
    cases hfd
    exact hgood
  | chan c | marked c =>
    obtain ⟨k, hk, -, hsome, hfds⟩ := hgood
    rw [Shared.fdOf, hk] at hfd
    cases hfd
    rw [hfds]
    exact hsome

/-- The kernel opens a descriptor that was closed. -/
theorem Descs.accept (h : Descs s own) {fd : Nat} (hfd : s.fds fd = none) (conn next : ConnId) :
    Descs { s.setFd fd (some conn) with nextConn := next } (.raw fd ::ₘ own) := by
  have hother : ∀ fd', s.fds fd' ≠ none → (s.setFd fd (some conn)).fds fd' = s.fds fd' :=
    fun fd' hne => setFd_of_ne (fun (heq : fd' = fd) => hne (heq ▸ hfd)) ..
  have hconn : ∀ d closed, s.Connected d closed → Shared.Connected
      { s.setFd fd (some conn) with nextConn := next } d closed := by
    rintro d closed ⟨k, hk, hclosed, hsome, hfds⟩
    exact ⟨k, hk, hclosed, hsome, (hother k.fd (hfds ▸ hsome)).trans hfds⟩
  refine ⟨fun x hx => ?_, fun fd' => ?_, fun c k hk hclosed => ?_⟩
  · rcases Multiset.mem_cons.mp hx with rfl | hx
    · show (s.setFd fd (some conn)).fds fd ≠ none
      rw [setFd_self]
      exact Option.some_ne_none conn
    · have hgood := h.good x hx
      cases x with
      | ref d => trivial
      | chan d => exact hconn d false hgood
      | marked d => exact hconn d true hgood
      | raw fd' => exact (hother fd' hgood).trans_ne hgood
  · rw [users_congr (s := s) fun x _ => by cases x <;> rfl, users_cons]
    by_cases heq : fd' = fd
    · subst heq
      have hzero : s.users own fd' = 0 := by
        rw [Shared.users, Multiset.countP_eq_zero]
        exact fun x hx hxfd => h.fds_ne_none hx hxfd hfd
      rw [hzero]
      split <;> omega
    · have hraw : s.fdOf (.raw fd) ≠ some fd' := fun hraw => heq (Option.some.inj hraw).symm
      rw [if_neg hraw]
      exact h.one fd'
  · exact Multiset.mem_cons_of_mem (h.opened c k hk hclosed)

/-- A client is made of a descriptor. -/
theorem Descs.newClient (h : Descs s own) (hcounts : Counts s own) {fd : Nat}
    (hfd : .raw fd ∈ own) (o : Answer) :
    Descs (s.exec (.newClient fd) o).2 (.chan s.nextClient ::ₘ own.erase (.raw fd)) := by
  have hnew : ∀ x ∈ own, x.client ≠ some s.nextClient := by
    intro x hx hclient
    obtain ⟨k, hk⟩ := hcounts.live (refsOf_pos hx hclient)
    rw [hcounts.fresh _ (Nat.le_refl _)] at hk
    cases hk
  have hclients : ∀ d, d ≠ s.nextClient → (s.exec (.newClient fd) o).2.clients d = s.clients d :=
    fun d hd => setClient_of_ne hd ..
  have hself : (s.exec (.newClient fd) o).2.clients s.nextClient = some ⟨fd, 1, false, s.fds fd⟩ :=
    setClient_self ..
  have hconn : ∀ d closed, d ≠ s.nextClient → s.Connected d closed →
      (s.exec (.newClient fd) o).2.Connected d closed := by
    rintro d closed hd ⟨k, hk, hrest⟩
    exact ⟨k, (hclients d hd).trans hk, hrest⟩
  have hne : ∀ x ∈ own, ∀ d, x.client = some d → d ≠ s.nextClient := by
    rintro x hx d hd rfl
    exact hnew x hx hd
  refine ⟨fun x hx => ?_, fun fd' => ?_, fun c k hk hclosed => ?_⟩
  · rcases Multiset.mem_cons.mp hx with rfl | hx
    · exact ⟨_, hself, rfl, h.good _ hfd, rfl⟩
    · have hown := Multiset.mem_of_mem_erase hx
      have hgood := h.good x hown
      cases x with
      | ref d => trivial
      | chan d => exact hconn d false (hne _ hown d rfl) hgood
      | marked d => exact hconn d true (hne _ hown d rfl) hgood
      | raw fd' => exact hgood
  · have hone := h.one fd'
    rw [users_erase hfd] at hone
    have hrest : (s.exec (.newClient fd) o).2.users (own.erase (.raw fd)) fd' =
        s.users (own.erase (.raw fd)) fd' := by
      refine users_congr (fun x hx => ?_) fd'
      have hown := Multiset.mem_of_mem_erase hx
      cases x with
      | ref d | raw fd' => rfl
      | chan d | marked d => simp only [Shared.fdOf, hclients d (hne _ hown d rfl)]
    -- the channel of the new client stands for the raw descriptor
    have hchan : (s.exec (.newClient fd) o).2.fdOf (.chan s.nextClient) = s.fdOf (.raw fd) := by
      simp only [Shared.fdOf, hself, Option.map_some]
    rw [users_cons, hrest, hchan]
    exact hone
  · by_cases hc : c = s.nextClient
    · rw [hc]
      exact Multiset.mem_cons_self ..
    · rw [hclients c hc] at hk
      have hmem := h.opened c k hk hclosed
      exact Multiset.mem_cons_of_mem ((Multiset.mem_erase_of_ne Tok.noConfusion).mpr hmem)

/-- An action that owns what it needs keeps every descriptor with its client. -/
theorem descs_exec (h : Descs s own) (hcounts : Counts s own) {a : Act} (ha : needs a own)
    (o : Answer) : Descs (s.exec a o).2 (after a (s.exec a o).1 own) := by
  have herase : ∀ {x : Tok}, x ∈ own → ∀ fd, s.users (own.erase x) fd ≤ s.users own fd :=
    fun hx fd => by
      rw [users_erase hx]
      exact Nat.le_add_right _ _
  cases a with
  | choose => exact h
  | acquire c =>
    obtain ⟨k, hk⟩ := hcounts.live ha
    rw [Shared.exec, Shared.withClient, hk]
    refine h.recount hk _ (fun x hx => ?_) (fun hnone => ?_) (fun x hx => ?_)
      (fun d hd => Multiset.mem_cons_of_mem hd) fun fd => ?_
    · cases hx
      exact ⟨rfl, rfl, rfl⟩
    · cases hnone
    · rcases Multiset.mem_cons.mp hx with rfl | hx
      · exact .inr ⟨c, rfl⟩
      · exact .inl hx
    · exact (users_cons s (.ref c) own fd).le
  | release c =>
    obtain ⟨k, hk⟩ := hcounts.live (refsOf_pos ha rfl)
    have hcount := hcounts.count c
    rw [rcOf_some hk, refsOf_erase ha c, Tok.client, if_pos rfl] at hcount
    rw [Shared.exec, Shared.withClient, hk]
    refine h.recount hk _ (fun x hx => ?_) (fun hnone => ?_)
      (fun x hx => .inl (Multiset.mem_of_mem_erase hx))
      (fun d hd => (Multiset.mem_erase_of_ne Tok.noConfusion).mpr hd) (herase ha)
    · split at hx
      · cases hx
      · cases hx
        exact ⟨rfl, rfl, rfl⟩
    · -- the last reference: the listener has none left
      have hrc : k.rc = 1 := by
        by_contra hne
        rw [if_neg hne] at hnone
        cases hnone
      have hnone : ∀ x ∈ own.erase (.ref c), x.client ≠ some c := fun x hx hxc => by
        have := refsOf_pos hx hxc
        omega
      exact ⟨fun hmem => hnone _ hmem rfl, fun hmem => hnone _ hmem rfl⟩
  | setClosed c =>
    obtain ⟨k, hk⟩ := hcounts.live (refsOf_pos ha rfl)
    rw [Shared.exec, Shared.withClient, hk]
    exact h.mark hk ha
  | isClosed c =>
    obtain ⟨k, hk⟩ := hcounts.live ha
    rw [Shared.exec, Shared.withClient, hk]
    exact h
  | write c =>
    obtain ⟨k, hk⟩ := hcounts.live ha
    rw [Shared.exec, Shared.withClient, hk]
    simp only
    split
    · exact h.congr rfl rfl (fun x hx => .inl hx) (fun d hd => hd) fun _ => Nat.le_refl _
    · exact h
  | closeClient c =>
    obtain ⟨k, hk⟩ := hcounts.live (refsOf_pos ha rfl)
    rw [Shared.exec, Shared.withClient, hk]
    refine h.close ha (by rw [Shared.fdOf, hk]; rfl) (fun x hx => ?_) (fun d hd => ?_) fun fd => ?_
    · rcases Multiset.mem_cons.mp hx with rfl | hx
      · exact .inr ⟨c, rfl⟩
      · exact .inl hx
    · exact Multiset.mem_cons_of_mem ((Multiset.mem_erase_of_ne Tok.noConfusion).mpr hd)
    · exact (users_cons s (.ref c) _ fd).le.trans (herase ha fd)
  | accept =>
    cases o with
    | none => exact h
    | some fd =>
      rw [Shared.exec]
      by_cases hfd : s.fds fd = none
      · simp only [if_pos hfd]
        exact h.accept hfd _ _
      · simp only [if_neg hfd]
        exact h
  | closeFd fd =>
    exact h.close ha rfl (fun x hx => .inl hx)
      (fun d hd => (Multiset.mem_erase_of_ne Tok.noConfusion).mpr hd) (herase ha)
  | newClient fd => exact h.newClient hcounts ha o
  | push m =>
    cases o with
    | none => exact h
    | some n =>
      simp only [Shared.exec, after]
      cases hm : m.client with
      | none => exact h.congr rfl rfl (fun x hx => .inl hx) (fun d hd => hd) fun _ => Nat.le_refl _
      | some c =>
        exact h.congr rfl rfl (fun x hx => .inl (Multiset.mem_of_mem_erase hx))
          (fun d hd => (Multiset.mem_erase_of_ne Tok.noConfusion).mpr hd) (herase (ha c hm))

end JautoProf.Threads
