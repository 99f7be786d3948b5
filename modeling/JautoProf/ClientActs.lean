import JautoProf.Lib.Proc
import JautoProf.PsMsg
import Mathlib.Data.Multiset.Count
import Mathlib.Data.Multiset.AddSub

/-!
# Clients, descriptors and the event queue (`user-if.c`, `util/ref-count.h`, `util/ev-queue.c`)

What the listener thread and the event thread share, and their atomic actions on it. A
client is named by an id that is given out once, and so is a connection; the number of a
descriptor is free again when the descriptor is closed. An action on a client that was
freed sets `fault`.
-/

namespace JautoProf.Threads

abbrev ClientId : Type := Nat

abbrev ConnId : Type := Nat

/-- `struct user_if_client`; `conn` is the connection that `accept` returned with `fd`. -/
structure UserIfClient where
  fd : Nat
  rc : Nat
  closed : Bool
  conn : Option ConnId
deriving DecidableEq

/-- A write to a connection, and the connection of the client whose response it is. -/
structure Written where
  reached : ConnId
  own : Option ConnId
deriving DecidableEq

/-- What the threads share. -/
structure Shared where
  clients : ClientId → Option UserIfClient
  nextClient : ClientId
  fds : Nat → Option ConnId
  nextConn : ConnId
  queue : List (PsMsg ClientId)
  written : List Written
  fault : Bool

def Shared.init : Shared where
  clients _ := none
  nextClient := 0
  fds _ := none
  nextConn := 0
  queue := []
  written := []
  fault := false

/-- The atomic actions. `choose` is whatever else decides a branch: `malloc`, the JVM, the
kernel. -/
inductive Act
  | choose
  | acquire (c : ClientId)
  | release (c : ClientId)
  | setClosed (c : ClientId)
  | isClosed (c : ClientId)
  | write (c : ClientId)
  | closeClient (c : ClientId)
  | accept
  | closeFd (fd : Nat)
  | newClient (fd : Nat)
  | push (m : PsMsg ClientId)
deriving DecidableEq

/-- The answer to an action: `none` where it fails, or where a test is false. -/
abbrev Answer : Type := Option Nat

namespace Shared

def setClient (s : Shared) (c : ClientId) (k : Option UserIfClient) : Shared :=
  { s with clients := Function.update s.clients c k }

def setFd (s : Shared) (fd : Nat) (conn : Option ConnId) : Shared :=
  { s with fds := Function.update s.fds fd conn }

@[simp] theorem setClient_self (s : Shared) (c : ClientId) (k : Option UserIfClient) :
    (s.setClient c k).clients c = k := Function.update_self ..

@[simp] theorem setClient_of_ne {c c' : ClientId} (h : c' ≠ c) (s : Shared)
    (k : Option UserIfClient) : (s.setClient c k).clients c' = s.clients c' :=
  Function.update_of_ne h ..

@[simp] theorem setFd_self (s : Shared) (fd : Nat) (conn : Option ConnId) :
    (s.setFd fd conn).fds fd = conn := Function.update_self ..

@[simp] theorem setFd_of_ne {fd fd' : Nat} (h : fd' ≠ fd) (s : Shared) (conn : Option ConnId) :
    (s.setFd fd conn).fds fd' = s.fds fd' := Function.update_of_ne h ..

/-- An access to a client. -/
def withClient (s : Shared) (c : ClientId) (f : UserIfClient → Answer × Shared) : Answer × Shared :=
  match s.clients c with
  | none => (none, { s with fault := true })
  | some k => f k

/-- Perform an action; `o` is the outcome that the environment proposes. -/
def exec (a : Act) (o : Answer) (s : Shared) : Answer × Shared :=
  match a with
  | .choose => (o, s)
  | .acquire c => s.withClient c fun k => (some 0, s.setClient c (some { k with rc := k.rc + 1 }))
  | .release c => s.withClient c fun k =>
    (some 0, s.setClient c (if k.rc = 1 then none else some { k with rc := k.rc - 1 }))
  | .setClosed c => s.withClient c fun k =>
    (some 0, s.setClient c (some { k with closed := true }))
  | .isClosed c => s.withClient c fun k => (if k.closed then some 0 else none, s)
  | .write c => s.withClient c fun k =>
    match o, s.fds k.fd with
    | some n, some conn => (some n, { s with written := s.written ++ [⟨conn, k.conn⟩] })
    | _, _ => (none, s)
  | .closeClient c => s.withClient c fun k => (some 0, s.setFd k.fd none)
  | .accept =>
    match o with
    | none => (none, s)
    | some fd =>
      if s.fds fd = none then
        (some fd, { s.setFd fd (some s.nextConn) with nextConn := s.nextConn + 1 })
      else (none, s)
  | .closeFd fd => (some 0, s.setFd fd none)
  | .newClient fd =>
    (some s.nextClient,
      { s.setClient s.nextClient (some ⟨fd, 1, false, s.fds fd⟩) with
        nextClient := s.nextClient + 1 })
  | .push m =>
    match o with
    | none => (none, s)
    | some n => (some n, { s with queue := s.queue ++ [m] })

end Shared

end JautoProf.Threads
