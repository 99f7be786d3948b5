import JautoProf.Deployment

/-!
# Requests that are executed more than once (`prof_client.py`, `user-if.c`, `prof-server.c`)

`_send_request` sends its request again when the first attempt ends in an error, and does not
know whether the server acted on it. The server reads the bytes of both attempts, each on its own
connection, and nothing in a request tells it that it is the same one.

Results:
1. `executed_at_most_twice`: a call's request is executed once for each attempt, at most, and there
   is a second attempt only after an error of the first, on a new connection; the line instruments
   that it leaves in the master table are no more than its executions.
2. `executed_at_most_twice_line`: a call of `instrument_line` that leaves two.
-/

namespace JautoProf

open ProfClient

variable {J : Type}

/-- In every run, whatever connections are lost and times run out, and however the steps of the
client, the listener and the event thread follow one another: what an attempt of a call sent is
executed once, at most; there are two attempts, at most, the second one after the first ended in
an error, on a newer connection on which nothing was sent before; what is executed is the request
that the call packed; and the line instruments that a call left in the master table are no more
than its executions. -/
theorem executed_at_most_twice (env : Env) (jvm : Jvm J) (connects : Bool) (uif : Listening.UifFds)
    (pauseOnStart : Bool) (agentThread : Option JThread) (j : J) (steps : List DeploymentStep)
    (n : Nat) :
    let d := Runs.run (Deployment.step env jvm) (.init connects uif pauseOnStart agentThread j) steps
    let tries := d.client.client.tries n
    (d.executedBy n).length ≤ tries.length ∧ tries.length ≤ 2 ∧
      (∀ i, (d.executed.filter fun e => d.sends (n, i) e.1).length ≤ 1) ∧
      (∀ t t', tries = [t, t'] → (n, 0) ∈ t'.failed ∧ t.conn < t'.conn ∧ t'.before = []) ∧
      (∀ e ∈ d.executedBy n, ∃ call r k, d.client.client.calls[n]? = some call ∧
        Request.Packs r call ∧ e.2 = r.event k) ∧
      (d.linesOf n).length ≤ (d.executedBy n).length := by
  intro d tries
  have hinv : d.Inv := Runs.inv_run Deployment.Inv (fun _ st hd _ => hd.step st)
    (Deployment.inv_init connects uif pauseOnStart agentThread j) (.of_true _ steps)
  have hresent : Requests.Resent n tries := hinv.client.client.resent n
  refine ⟨hinv.length_executedBy n, ?_, fun i => hinv.executed_le (n, i), fun t t' htries => ?_,
    fun e he => hinv.packs he, hinv.length_linesOf n⟩
  · match tries, hresent with
    | [], _ => exact Nat.zero_le 2
    | [_], _ => exact Nat.le_succ 1
    | [_, _], _ => exact Nat.le_refl 2
  · rw [htries] at hresent
    exact hresent

/-- The listener accepts a connection of the client and reads the two parts of a message. -/
def receives (fd source : Nat) (hdr body : List UInt8) : List DeploymentStep :=
  let calls (accept : Option Nat) (bs : List UInt8) : Listening.EventCalls :=
    ⟨⟨true, accept, true, true, some fun _ => 0, true⟩, .data bs, some fun _ => 0⟩
  [.listener (.wait [3]) none true, .listener (.event (calls (some fd) [])) (some source) true,
    .listener (.wait [fd]) none true, .listener (.event (calls none hdr)) none true,
    .listener (.wait [fd]) none true, .listener (.event (calls none body)) none true]

/-- A call of `instrument_line` whose first attempt runs out of time before the server has read the
request. -/
def lineCall : List DeploymentStep :=
  let hdr : List UInt8 := [21, 0, 0, 0, 14, 0, 0, 0]
  let body : List UInt8 := [10, 0, 0, 0, 20, 0, 0, 0, 1, 0, 65, 1, 0, 65]
  let name : Utf8.Str := [⟨65, by decide⟩]
  .client (.call (.instrumentLine name name 10 20)) ::
    List.replicate 24 (.client (.act true)) ++ .client (.act false) ::
    List.replicate 25 (.client (.act true)) ++
    receives 10 0 hdr body ++ receives 11 1 hdr body ++ [.dispatch, .dispatch]

/-- The call has its request executed twice, and leaves two line instruments. -/
theorem executed_at_most_twice_line :
    let d := Runs.run (Deployment.step .smooth (smoothJvm true))
      (.init true ⟨(3, 4), by decide⟩ false none ()) lineCall
    1 < (d.executedBy 0).length ∧ 1 < (d.linesOf 0).length := by decide +kernel

end JautoProf
