import JautoProf.Lib.Chains
import JautoProf.Lib.Runs
import Mathlib.Data.List.Nodup

/-!
# The event queue (`util/ev-queue.c`)

A push takes a node of the free list, or allocates one, and links it after the tail; a wait
unlinks the head and returns its node to the free list. Both lists use the `next` field of the
nodes. Each call holds the mutex, so a run is the list of the calls in the order in which they
got it, whatever threads made them.

Results:
1. `Holds.evqPush`, `Holds.evqWait`: the calls are those of a first-in first-out queue, which is
   the one that the event loop is stated on.
2. `evq_fifo`: in every run what was returned is a prefix of what was pushed, and the queue
   holds the rest; no node is reached twice, from the head or from the free list.
-/

namespace JautoProf

open Runs

/-- `struct ev_queue_node`. -/
structure EvQueueNode (P D : Type) where
  data : D
  size : UInt64
  next : Option P

/-- `struct ev_queue`, and the memory of the nodes. -/
structure EvQueue (P D : Type) where
  memory : P → EvQueueNode P D
  head : Option P
  tail : Option P
  freeList : Option P

variable {P D : Type}

namespace EvQueue

/-- `node->next`. -/
def next (q : EvQueue P D) (node : P) : Option P := (q.memory node).next

/-- `node->data` and `node->size`. -/
def message (q : EvQueue P D) (node : P) : D × UInt64 :=
  ((q.memory node).data, (q.memory node).size)

/-- `alloc_node`; `malloc` is what the allocator answers. -/
def allocNode (q : EvQueue P D) (malloc : Option P) : Option P × EvQueue P D :=
  match q.freeList with
  | some node => (some node, { q with freeList := q.next node })
  | none => (malloc, q)

variable [DecidableEq P]

/-- `node->next = next`. -/
def setNext (q : EvQueue P D) (node : P) (next : Option P) : EvQueue P D :=
  { q with memory := Function.update q.memory node { q.memory node with next := next } }

/-- `return_node`. -/
def returnNode (q : EvQueue P D) (node : P) : EvQueue P D :=
  { q.setNext node q.freeList with freeList := some node }

end EvQueue

variable [DecidableEq P]

/-- `EVQ_INITIAL_FREE_NODES`. -/
def evqInitialFreeNodes : Nat := 16

/-- `evq_init`, over memory that is not initialised; `nodes` are what the allocator answers, up
to its first failure. -/
def evqInit (memory : P → EvQueueNode P D) (nodes : List P) : EvQueue P D :=
  (nodes.take evqInitialFreeNodes).foldl (fun q node => q.returnNode node)
    ⟨memory, none, none, none⟩

/-- `node->data = data`, `node->size = size` and `node->next = NULL`. -/
def EvQueue.fill (q : EvQueue P D) (node : P) (data : D) (size : UInt64) : EvQueue P D :=
  { q with memory := Function.update q.memory node ⟨data, size, none⟩ }

/-- The node is linked after the tail. -/
def EvQueue.link (q : EvQueue P D) (node : P) : EvQueue P D :=
  match q.tail with
  | some tail => { q.setNext tail (some node) with tail := some node }
  | none => { q with head := some node, tail := some node }

/-- `evq_push`. -/
def evqPush (q : EvQueue P D) (data : D) (size : UInt64) (malloc : Option P) :
    Int × EvQueue P D :=
  match q.allocNode malloc with
  | (none, q) => (-1, q)
  | (some node, q) => (0, (q.fill node data size).link node)

/-- What `evq_wait` stores and returns for a message; the size is a `ssize_t`. -/
def received (message : D × UInt64) : D × Int64 := (message.1, message.2.toInt64)

/-- `node`, which is the head, is unlinked. -/
def EvQueue.unlink (q : EvQueue P D) (node : P) : EvQueue P D :=
  let q := { q with head := q.next node }
  if q.head = none then { q with tail := none } else q

/-- `evq_wait`, where it does not wait. -/
def evqWait (q : EvQueue P D) : Option ((D × Int64) × EvQueue P D) :=
  match q.head with
  | none => none
  | some node =>
    let q := q.unlink node
    some (received (q.message node), q.returnNode node)

/-! ## The fields of the nodes -/

namespace EvQueue

variable {q : EvQueue P D} {node i : P} {data : D} {size : UInt64} {n : Option P}

@[simp] theorem next_setNext_self : (q.setNext node n).next node = n := by
  simp [next, setNext]

theorem next_setNext_of_ne (h : i ≠ node) : (q.setNext node n).next i = q.next i := by
  simp [next, setNext, h]

@[simp] theorem message_setNext : (q.setNext node n).message i = q.message i := by
  by_cases h : i = node
  · subst h
    simp [message, setNext]
  · simp [message, setNext, h]

@[simp] theorem next_fill_self : (q.fill node data size).next node = none := by
  simp [next, fill]

theorem next_fill_of_ne (h : i ≠ node) : (q.fill node data size).next i = q.next i := by
  simp [next, fill, h]

@[simp] theorem message_fill_self : (q.fill node data size).message node = (data, size) := by
  simp [message, fill]

theorem message_fill_of_ne (h : i ≠ node) :
    (q.fill node data size).message i = q.message i := by
  simp [message, fill, h]

@[simp] theorem message_link : (q.link node).message i = q.message i := by
  unfold link
  cases q.tail with
  | none => rfl
  | some tail => exact message_setNext

omit [DecidableEq P] in
@[simp] theorem message_unlink : (q.unlink node).message i = q.message i := by
  unfold unlink
  dsimp only
  split <;> rfl

end EvQueue

/-! ## The two lists -/

/-- The nodes in the queue and on the free list. -/
structure EvQueue.Lists (q : EvQueue P D) (queued free : List P) : Prop where
  head : Chain q.next q.head queued none
  tail : q.tail = queued.getLast?
  freeList : Chain q.next q.freeList free none
  nodup : (queued ++ free).Nodup

namespace EvQueue.Lists

variable {q : EvQueue P D} {queued free : List P} {node : P}

/-- A node that is in neither list is returned. -/
theorem returnNode (h : q.Lists queued free) (hnode : node ∉ queued ++ free) :
    (q.returnNode node).Lists queued (node :: free) where
  head := h.head.congr fun _ hi =>
    next_setNext_of_ne fun heq => hnode (heq ▸ List.mem_append_left _ hi)
  tail := h.tail
  freeList := h.freeList.cons next_setNext_self fun _ hi =>
    next_setNext_of_ne fun heq => hnode (heq ▸ List.mem_append_right _ hi)
  nodup := List.nodup_middle.mpr (List.nodup_cons.mpr ⟨hnode, h.nodup⟩)

theorem fill (h : q.Lists queued free) (hnode : node ∉ queued ++ free) (data : D)
    (size : UInt64) : (q.fill node data size).Lists queued free where
  head := h.head.congr fun _ hi =>
    next_fill_of_ne fun heq => hnode (heq ▸ List.mem_append_left _ hi)
  tail := h.tail
  freeList := h.freeList.congr fun _ hi =>
    next_fill_of_ne fun heq => hnode (heq ▸ List.mem_append_right _ hi)
  nodup := h.nodup

/-- A node that is in neither list, and leads nowhere, is linked. -/
theorem link (h : q.Lists queued free) (hnode : node ∉ queued ++ free)
    (hnext : q.next node = none) : (q.link node).Lists (queued ++ [node]) free := by
  have hnodup : (queued ++ [node] ++ free).Nodup := by
    rw [List.append_assoc]
    exact List.nodup_middle.mpr (List.nodup_cons.mpr ⟨hnode, h.nodup⟩)
  have htail := h.tail
  unfold EvQueue.link
  cases hq : q.tail with
  | none =>
    rw [hq, eq_comm, List.getLast?_eq_none_iff] at htail
    subst htail
    exact ⟨⟨rfl, hnext⟩, rfl, h.freeList, hnodup⟩
  | some last =>
    rw [hq, eq_comm, List.getLast?_eq_some_iff] at htail
    obtain ⟨l, rfl⟩ := htail
    have hne : node ≠ last := fun heq => hnode (by simp [heq])
    refine ⟨h.head.snoc next_setNext_self ?_ fun i hi => next_setNext_of_ne ?_,
      List.getLast?_concat.symm, h.freeList.congr fun i hi => next_setNext_of_ne ?_, hnodup⟩
    · rw [← hnext]
      exact next_setNext_of_ne hne
    · rintro rfl
      have hl := (List.nodup_append.mp h.nodup).1
      exact (List.nodup_append.mp hl).2.2 i hi i List.mem_cons_self rfl
    · rintro rfl
      exact (List.nodup_append.mp h.nodup).2.2 i (by simp) i hi rfl

omit [DecidableEq P] in
/-- The first node of the free list is taken. -/
theorem pop (h : q.Lists queued (node :: free)) :
    q.freeList = some node ∧ node ∉ queued ++ free ∧
      ({ q with freeList := q.next node } : EvQueue P D).Lists queued free := by
  obtain ⟨hnode, hnodup⟩ := List.nodup_cons.mp (List.nodup_middle.mp h.nodup)
  exact ⟨h.freeList.1, hnode, h.head, h.tail, h.freeList.2, hnodup⟩

/-- A node that is in neither list gets a message and is linked. -/
theorem append (h : q.Lists queued free) (hnode : node ∉ queued ++ free) (data : D)
    (size : UInt64) :
    ((q.fill node data size).link node).Lists (queued ++ [node]) free ∧
      (queued ++ [node]).map ((q.fill node data size).link node).message =
        queued.map q.message ++ [(data, size)] := by
  refine ⟨(h.fill hnode data size).link hnode next_fill_self, ?_⟩
  rw [List.map_append, List.map_singleton, message_link, message_fill_self]
  congr 1
  refine List.map_congr_left fun i hi => ?_
  rw [message_link]
  exact message_fill_of_ne fun heq => hnode (heq ▸ List.mem_append_left _ hi)

omit [DecidableEq P] in
/-- The head is unlinked. -/
theorem unlink (h : q.Lists (node :: queued) free) :
    node ∉ queued ++ free ∧ (q.unlink node).Lists queued free := by
  obtain ⟨hnode, hnodup⟩ := List.nodup_cons.mp h.nodup
  have hhead := h.head.2
  have htail := h.tail
  refine ⟨hnode, ?_⟩
  unfold EvQueue.unlink
  dsimp only
  cases queued with
  | nil =>
    rw [if_pos (show q.next node = none from hhead)]
    exact ⟨hhead, rfl, h.freeList, hnodup⟩
  | cons first queued =>
    have hnext : q.next node ≠ none := by
      rw [hhead.1]
      exact Option.some_ne_none first
    rw [if_neg hnext]
    exact ⟨hhead, htail, h.freeList, hnodup⟩

/-- The head is unlinked, and its node returned to the free list. -/
theorem evqWait (h : q.Lists (node :: queued) free) :
    ∃ q', evqWait q = some (received (q.message node), q') ∧ q'.Lists queued (node :: free) ∧
      ∀ i, q'.message i = q.message i := by
  obtain ⟨hnode, hlists⟩ := h.unlink
  refine ⟨(q.unlink node).returnNode node, ?_, hlists.returnNode hnode,
    fun i => message_setNext.trans message_unlink⟩
  unfold JautoProf.evqWait
  rw [h.head.1]
  dsimp only
  rw [message_unlink]

end EvQueue.Lists

/-! ## The first-in first-out queue -/

namespace EvQueue

variable {q : EvQueue P D} {nodes : List P} {messages : List (D × UInt64)}

/-- The queue holds the messages, and its nodes are among those that were allocated. -/
def Holds (q : EvQueue P D) (nodes : List P) (messages : List (D × UInt64)) : Prop :=
  ∃ queued free, q.Lists queued free ∧ (∀ i ∈ queued ++ free, i ∈ nodes) ∧
    queued.map q.message = messages

theorem holds_evqInit (memory : P → EvQueueNode P D) (nodes : List P) (h : nodes.Nodup) :
    (evqInit memory nodes).Holds (nodes.take evqInitialFreeNodes) [] := by
  have hinit : ∀ (new : List P) (q : EvQueue P D) (free : List P), q.Lists [] free →
      (new ++ free).Nodup →
      (new.foldl (fun q node => q.returnNode node) q).Lists [] (new.reverse ++ free) := by
    intro new
    induction new with
    | nil => exact fun q free hq _ => hq
    | cons node new ih =>
      intro q free hq hnd
      rw [List.reverse_cons, List.append_assoc]
      have hnd' := List.nodup_cons.mp hnd
      exact ih _ _ (hq.returnNode fun hmem => hnd'.1 (List.mem_append_right _ hmem))
        (List.nodup_middle.mpr hnd)
  have hlists := hinit (nodes.take evqInitialFreeNodes) ⟨memory, none, none, none⟩ []
    ⟨rfl, rfl, rfl, List.nodup_nil⟩
    (by rw [List.append_nil]; exact h.sublist (List.take_sublist _ _))
  exact ⟨[], _, hlists, fun i hi => by simpa using hi, rfl⟩

/-- The nodes that are allocated after a push. -/
def allocated (q : EvQueue P D) (nodes : List P) (malloc : Option P) : List P :=
  if q.freeList = none then malloc.toList ++ nodes else nodes

omit [DecidableEq P] in
theorem Holds.allocated (h : q.Holds nodes messages) (malloc : Option P) :
    q.Holds (q.allocated nodes malloc) messages := by
  obtain ⟨queued, free, hlists, hnodes, hmessages⟩ := h
  refine ⟨queued, free, hlists, fun i hi => ?_, hmessages⟩
  unfold EvQueue.allocated
  split
  · exact List.mem_append_right _ (hnodes i hi)
  · exact hnodes i hi

/-- A push appends its message, or fails and changes nothing. -/
theorem Holds.evqPush (h : q.Holds nodes messages) (data : D) (size : UInt64)
    {malloc : Option P} (hfresh : q.freeList = none → ∀ node ∈ malloc, node ∉ nodes) :
    evqPush q data size malloc = (-1, q) ∨
      ∃ q', evqPush q data size malloc = (0, q') ∧
        q'.Holds (q.allocated nodes malloc) (messages ++ [(data, size)]) := by
  obtain ⟨queued, free, hlists, hnodes, rfl⟩ := h
  unfold JautoProf.evqPush EvQueue.allocNode EvQueue.allocated
  cases free with
  | nil =>
    have hfree : q.freeList = none := hlists.freeList
    rw [hfree, if_pos rfl]
    cases malloc with
    | none => exact .inl rfl
    | some node =>
      have hnode : node ∉ queued ++ [] := fun hmem => hfresh hfree node rfl (hnodes node hmem)
      obtain ⟨hlists', hmessages⟩ := hlists.append hnode data size
      refine .inr ⟨_, rfl, _, [], hlists', fun i hi => ?_, hmessages⟩
      rw [List.append_assoc, List.append_nil, List.mem_append, List.mem_singleton] at hi
      rcases hi with hi | rfl
      · exact List.mem_cons_of_mem node (hnodes i (List.mem_append_left _ hi))
      · exact List.mem_cons_self
  | cons node free =>
    obtain ⟨hfree, hnode, hpop⟩ := hlists.pop
    obtain ⟨hlists', hmessages⟩ := hpop.append hnode data size
    rw [hfree, if_neg (Option.some_ne_none node)]
    refine .inr ⟨_, rfl, _, free, hlists', fun i hi => hnodes i ?_, hmessages⟩
    rwa [List.append_assoc] at hi

theorem evqPush_failed {data : D} {size : UInt64} {malloc : Option P}
    (h : (JautoProf.evqPush q data size malloc).1 ≠ 0) :
    (JautoProf.evqPush q data size malloc).2 = q := by
  unfold JautoProf.evqPush allocNode at h ⊢
  cases hfree : q.freeList with
  | some node =>
    rw [hfree] at h
    exact absurd rfl h
  | none =>
    rw [hfree] at h
    cases malloc with
    | some node => exact absurd rfl h
    | none => rfl

/-- A wait that does not block takes the first message. -/
theorem Holds.evqWait (h : q.Holds nodes messages) :
    (messages = [] ∧ evqWait q = none) ∨
      ∃ message rest q', messages = message :: rest ∧ evqWait q = some (received message, q') ∧
        q'.Holds nodes rest := by
  obtain ⟨queued, free, hlists, hnodes, rfl⟩ := h
  cases queued with
  | nil =>
    have hhead : q.head = none := hlists.head
    exact .inl ⟨rfl, by rw [JautoProf.evqWait, hhead]⟩
  | cons node queued =>
    obtain ⟨q', hq', hlists', hmessage⟩ := hlists.evqWait
    refine .inr ⟨q.message node, queued.map q.message, q', rfl, hq', queued, node :: free, hlists',
      fun i hi => hnodes i (List.perm_middle.mem_iff.mp hi),
      List.map_congr_left fun i _ => hmessage i⟩

end EvQueue

/-! ## Runs -/

/-- The queue, the nodes that were allocated, the messages whose push returned 0, and what the
waits returned. -/
structure EvqState (P D : Type) where
  q : EvQueue P D
  nodes : List P
  pushed : List (D × UInt64)
  returned : List (D × Int64)

/-- A call of some thread. -/
inductive EvqCall (P D : Type)
  | push (data : D) (size : UInt64) (malloc : Option P)
  | wait

namespace EvqState

def init (memory : P → EvQueueNode P D) (nodes : List P) : EvqState P D :=
  ⟨evqInit memory nodes, nodes.take evqInitialFreeNodes, [], []⟩

def push (s : EvqState P D) (data : D) (size : UInt64) (malloc : Option P) : EvqState P D :=
  let (result, q) := evqPush s.q data size malloc
  { s with
    q := q
    nodes := s.q.allocated s.nodes malloc
    pushed := if result = 0 then s.pushed ++ [(data, size)] else s.pushed }

def wait (s : EvqState P D) : EvqState P D :=
  match evqWait s.q with
  | none => s
  | some (message, q) => { s with q := q, returned := s.returned ++ [message] }

def step (s : EvqState P D) : EvqCall P D → EvqState P D
  | .push data size malloc => s.push data size malloc
  | .wait => s.wait

omit [DecidableEq P] in
/-- A wait goes on when the queue is not empty, and the allocator answers with a node that is not
in use. -/
def Enabled (s : EvqState P D) : EvqCall P D → Prop
  | .push _ _ malloc => s.q.freeList = none → ∀ node ∈ malloc, node ∉ s.nodes
  | .wait => s.q.head ≠ none

instance (s : EvqState P D) : (call : EvqCall P D) → Decidable (s.Enabled call)
  | .push _ _ malloc =>
    inferInstanceAs (Decidable (s.q.freeList = none → ∀ node ∈ malloc, node ∉ s.nodes))
  | .wait => inferInstanceAs (Decidable (s.q.head ≠ none))

/-- The queue holds what was pushed and not returned. -/
def Inv (s : EvqState P D) : Prop :=
  ∃ messages, s.q.Holds s.nodes messages ∧
    s.pushed.map received = s.returned ++ messages.map received

theorem inv_init (memory : P → EvQueueNode P D) {nodes : List P} (h : nodes.Nodup) :
    (init memory nodes).Inv :=
  ⟨[], EvQueue.holds_evqInit memory nodes h, rfl⟩

theorem Inv.push {s : EvqState P D} (h : s.Inv) (data : D) (size : UInt64) {malloc : Option P}
    (hfresh : s.q.freeList = none → ∀ node ∈ malloc, node ∉ s.nodes) :
    (s.push data size malloc).Inv := by
  obtain ⟨messages, hholds, heq⟩ := h
  unfold EvqState.push
  rcases hholds.evqPush data size hfresh with hfail | ⟨q', hq', hholds'⟩
  · rw [hfail]
    exact ⟨messages, hholds.allocated malloc, heq⟩
  · rw [hq']
    refine ⟨messages ++ [(data, size)], hholds', ?_⟩
    dsimp only
    rw [if_pos rfl, List.map_append, List.map_append, heq, List.append_assoc]

theorem Inv.wait {s : EvqState P D} (h : s.Inv) : s.wait.Inv := by
  obtain ⟨messages, hholds, heq⟩ := h
  unfold EvqState.wait
  rcases hholds.evqWait with ⟨-, hnone⟩ | ⟨message, rest, q', rfl, hq', hholds'⟩
  · rw [hnone]
    exact ⟨messages, hholds, heq⟩
  · rw [hq']
    refine ⟨rest, hholds', ?_⟩
    dsimp only
    rw [heq, List.map_cons, List.append_assoc, List.singleton_append]

theorem inv_step (s : EvqState P D) (call : EvqCall P D) (h : s.Inv) (he : s.Enabled call) :
    (s.step call).Inv := by
  cases call with
  | push data size malloc => exact h.push data size he
  | wait => exact h.wait

end EvqState

/-- In every run of pushes and waits, where allocations may fail: the messages that the waits
returned are the first of those whose push returned 0, in the order of the pushes, and the queue
holds the rest; no node is reached twice from the head, or twice from the free list, or from
both; and a push that fails changes nothing. -/
theorem evq_fifo (memory : P → EvQueueNode P D) {nodes : List P} (hnodes : nodes.Nodup)
    {calls : List (EvqCall P D)}
    (h : Along EvqState.step EvqState.Enabled (.init memory nodes) calls) :
    let s := run EvqState.step (.init memory nodes) calls
    (∃ queued, Chain s.q.next s.q.head queued none ∧
      s.pushed.map received = s.returned ++ (queued.map s.q.message).map received) ∧
    ReachedOnce s.q.next s.q.head ∧ ReachedOnce s.q.next s.q.freeList ∧
    Apart s.q.next s.q.head s.q.freeList ∧
    ∀ data size malloc, (evqPush s.q data size malloc).1 ≠ 0 →
      (evqPush s.q data size malloc).2 = s.q := by
  intro s
  obtain ⟨messages, ⟨queued, free, hlists, -, rfl⟩, heq⟩ :=
    inv_run EvqState.Inv EvqState.inv_step (EvqState.inv_init memory hnodes) h
  obtain ⟨hqueued, hfree, hdisj⟩ := List.nodup_append'.mp hlists.nodup
  exact ⟨⟨queued, hlists.head, heq⟩, hlists.head.reachedOnce hqueued,
    hlists.freeList.reachedOnce hfree, hlists.head.apart hlists.freeList hdisj,
    fun _ _ _ => EvQueue.evqPush_failed⟩

/-- Two initial nodes and a third that is allocated, one push that fails, and nodes that are used
again. -/
def recyclingCalls : List (EvqCall Nat Char) :=
  [.push 'a' 1 none, .push 'b' 2 none, .push 'c' 3 (some 7), .push 'd' 4 none, .wait,
    .push 'e' 5 none, .wait, .wait, .push 'f' 6 none]

theorem evq_fifo_recycling :
    let s := run EvqState.step (.init (fun _ => ⟨'x', 0, none⟩) [3, 5]) recyclingCalls
    ReachedOnce s.q.next s.q.head ∧ Apart s.q.next s.q.head s.q.freeList ∧
      s.pushed = [('a', 1), ('b', 2), ('c', 3), ('e', 5), ('f', 6)] ∧
      s.returned = [('a', 1), ('b', 2), ('c', 3)] := by
  have hrun : Along EvqState.step EvqState.Enabled
      (.init (fun _ => (⟨'x', 0, none⟩ : EvQueueNode Nat Char)) [3, 5]) recyclingCalls :=
    ⟨by decide, by decide, by decide, by decide, by decide, by decide, by decide, by decide,
      by decide, trivial⟩
  obtain ⟨-, hhead, -, hapart, -⟩ := evq_fifo _ (by decide) hrun
  exact ⟨hhead, hapart, by decide, by decide⟩

end JautoProf
