import JautoProf.Lib.Framing
import JautoProf.Lib.Peek
import JautoProf.UserMsg
import Mathlib.Data.List.Forall2

/-!
# The receive buffer of a client (`user-if.c`)

`handleClientData` is the listener's reaction to a connection that has data: one `read`,
and then perhaps a call of the handler. `none` stands for an access outside the buffer.

Results:
1. `handleClientData_data`: what one read does to the message that is being received.
2. `Receives.inv`: what has been handled, and what is in the buffer, after any reads.
3. `frames_delivered`: every message of a stream is handled once and in order.
-/

namespace JautoProf

open Wire

/-- `UIF_MAX_BODY_SIZE`. -/
def uifMaxBodySize : Nat := 1024 * 1024

/-- `struct uif_client_ctx`, without the client; `buf` is the whole allocation. -/
structure UifClientCtx where
  buf : List UInt8
  bufAlloc : Nat
  bufExpected : Nat
  bytesRead : Nat

/-- The context that `accept_client` makes; `fresh` is what `malloc` finds in the memory. -/
def acceptCtx (fresh : Nat → UInt8) : UifClientCtx where
  buf := Peek.bytesAt fresh 0 uifMsgHdrSize
  bufAlloc := uifMsgHdrSize
  bufExpected := uifMsgHdrSize
  bytesRead := 0

/-- What `read` returns: bytes, none of them at the end of the stream, or an error. -/
inductive ReadResult
  | data (bs : List UInt8)
  | error (again : Bool)

/-- What becomes of the client, and the message that the handler is called with. -/
inductive Received
  | closed
  | kept (ctx : UifClientCtx)
  | handled (msg : List UInt8) (ctx : UifClientCtx)

/-- Write bytes at an offset of an allocation. -/
def store (buf : List UInt8) (off : Nat) (bs : List UInt8) : Option (List UInt8) :=
  if off + bs.length ≤ buf.length then
    some (buf.take off ++ bs ++ buf.drop (off + bs.length))
  else none

/-- `msg->size` of the message in a buffer. -/
def announcedSize (buf : List UInt8) : Nat := ofLe ((buf.drop 4).take 4)

/-- The branch of `handle_client_data` where the header is complete; `none` closes the
client. -/
def expectBody (ctx : UifClientCtx) (grow : Option (Nat → UInt8)) : Option UifClientCtx :=
  let bodySize := announcedSize ctx.buf
  if bodySize > uifMaxBodySize then none
  else if bodySize > 0 then
    let needed := uifMsgHdrSize + bodySize
    if needed > ctx.bufAlloc then
      match grow with
      | none => none
      | some fresh =>
        some { ctx with
          buf := ctx.buf ++ Peek.bytesAt fresh 0 (needed - ctx.bufAlloc)
          bufAlloc := needed
          bufExpected := needed }
    else some { ctx with bufExpected := needed }
  else some ctx

/-- The end of `handle_client_data`; `registered` is `uif->handler != NULL`. -/
def deliver (registered : Bool) (ctx : UifClientCtx) : Received :=
  if ctx.bytesRead = ctx.bufExpected then
    let next := { ctx with bytesRead := 0, bufExpected := uifMsgHdrSize }
    if registered then .handled ctx.buf next else .kept next
  else .kept ctx

/-- `handle_client_data` after `read` has put bytes into the buffer. -/
def afterRead (registered : Bool) (ctx : UifClientCtx) (grow : Option (Nat → UInt8)) : Received :=
  if ctx.bytesRead = uifMsgHdrSize then
    match expectBody ctx grow with
    | none => .closed
    | some ctx => deliver registered ctx
  else deliver registered ctx

/-- `handle_client_data`; `grow` is the memory that `realloc` adds, if it succeeds. -/
def handleClientData (registered : Bool) (ctx : UifClientCtx) (res : ReadResult)
    (grow : Option (Nat → UInt8)) : Option Received :=
  match res with
  | .error again => some (if again then .kept ctx else .closed)
  | .data bs =>
    if bs.length = 0 then some .closed
    else
      (store ctx.buf ctx.bytesRead bs).map fun buf =>
        afterRead registered { ctx with buf, bytesRead := ctx.bytesRead + bs.length } grow

/-! ## Messages on the wire -/

/-- A message whose body has the size that its header announces. -/
def UserMsg.Framed (m : UserMsg) : Prop := m.body.length = m.size.toNat

theorem UserMsg.wire_length (m : UserMsg) : m.wire.length = uifMsgHdrSize + m.body.length := by
  simp [UserMsg.wire, uifMsgHdrSize]
  omega

theorem UserMsg.announcedSize_wire (m : UserMsg) (rest : List UInt8) :
    announcedSize (m.wire ++ rest) = m.size.toNat := by
  have hlt : m.size.toNat < 256 ^ 4 := m.size.toNat_lt
  have hdrop : (m.wire ++ rest).drop 4 = le 4 m.size.toNat ++ (m.body ++ rest) := by
    rw [UserMsg.wire, List.append_assoc, List.drop_left' (le_length 4 _), List.append_assoc]
  rw [announcedSize, hdrop, List.take_left' (le_length 4 _), ofLe_le hlt]

theorem le_inj {n x y : Nat} (hx : x < 256 ^ n) (hy : y < 256 ^ n) (h : le n x = le n y) :
    x = y := by
  rw [← ofLe_le hx, h, ofLe_le hy]

theorem UserMsg.prefixFree : PrefixFree UserMsg.Framed UserMsg.wire := by
  rintro ⟨ta, sa, ba⟩ ⟨tb, sb, bb⟩ ha hb s t heq
  unfold UserMsg.wire at heq
  simp only [List.append_assoc] at heq
  obtain ⟨htype, hrest⟩ := List.append_inj heq (by simp)
  obtain ⟨hsize, hbody⟩ := List.append_inj hrest (by simp)
  obtain rfl := UInt32.toNat_inj.mp (le_inj ta.toNat_lt tb.toNat_lt htype)
  obtain rfl := UInt32.toNat_inj.mp (le_inj sa.toNat_lt sb.toNat_lt hsize)
  obtain ⟨rfl, rfl⟩ := List.append_inj hbody (ha.trans hb.symm)
  exact ⟨rfl, rfl⟩

/-- The bytes of a complete message are those of a framed one. -/
theorem exists_wire {bs : List UInt8} (h : bs.length = uifMsgHdrSize + announcedSize bs) :
    ∃ m : UserMsg, m.Framed ∧ m.size.toNat = announcedSize bs ∧ m.wire = bs := by
  have hhdr : uifMsgHdrSize = 8 := rfl
  have hlt4 : (bs.take 4).length = 4 := by simp; omega
  have hld4 : ((bs.drop 4).take 4).length = 4 := by simp; omega
  have htype : ofLe (bs.take 4) < 2 ^ 32 := by
    have := ofLe_lt (bs.take 4)
    rwa [hlt4] at this
  have hsize : announcedSize bs < 2 ^ 32 := by
    have := ofLe_lt ((bs.drop 4).take 4)
    rwa [hld4] at this
  have htb : le 4 (ofLe (bs.take 4)) = bs.take 4 := by
    have := le_ofLe (bs.take 4)
    rwa [hlt4] at this
  have hsb : le 4 (announcedSize bs) = (bs.drop 4).take 4 := by
    have := le_ofLe ((bs.drop 4).take 4)
    rwa [hld4] at this
  refine ⟨⟨UInt32.ofNat (ofLe (bs.take 4)), UInt32.ofNat (announcedSize bs), bs.drop 8⟩, ?_, ?_, ?_⟩
  · rw [UserMsg.Framed, UInt32.toNat_ofNat_of_lt' hsize, List.length_drop]
    omega
  · exact UInt32.toNat_ofNat_of_lt' hsize
  · rw [UserMsg.wire, UInt32.toNat_ofNat_of_lt' hsize, UInt32.toNat_ofNat_of_lt' htype, htb, hsb]
    have hsplit : (bs.drop 4).take 4 ++ bs.drop 8 = bs.drop 4 := by
      have := List.take_append_drop 4 (bs.drop 4)
      rwa [List.drop_drop] at this
    rw [hsplit, List.take_append_drop]

/-! ## One read -/

/-- The buffer holds the first bytes of a message, or all of them, and has room for what is
expected of it. -/
structure UifClientCtx.Receives (ctx : UifClientCtx) (part : List UInt8) : Prop where
  alloc : ctx.buf.length = ctx.bufAlloc
  read : ctx.bytesRead = part.length
  bytes : part <+: ctx.buf
  read_le : ctx.bytesRead ≤ ctx.bufExpected
  le_alloc : ctx.bufExpected ≤ ctx.bufAlloc
  header : part.length < uifMsgHdrSize → ctx.bufExpected = uifMsgHdrSize
  body : uifMsgHdrSize ≤ part.length →
    ctx.bufExpected = uifMsgHdrSize + announcedSize part ∧ announcedSize part ≤ uifMaxBodySize

/-- Between two reads something is missing. -/
def UifClientCtx.Holds (ctx : UifClientCtx) (part : List UInt8) : Prop :=
  ctx.Receives part ∧ ctx.bytesRead < ctx.bufExpected

/-- The buffer before the first byte of a message. -/
theorem holds_nil (ctx : UifClientCtx) (halloc : ctx.buf.length = ctx.bufAlloc)
    (hroom : uifMsgHdrSize ≤ ctx.bufAlloc) :
    { ctx with bytesRead := 0, bufExpected := uifMsgHdrSize }.Holds [] := by
  refine ⟨⟨halloc, rfl, List.nil_prefix, Nat.zero_le _, hroom, fun _ => rfl, fun h => ?_⟩, ?_⟩
  · exact absurd h (by decide)
  · show 0 < uifMsgHdrSize
    decide

theorem holds_accept (fresh : Nat → UInt8) : (acceptCtx fresh).Holds [] :=
  holds_nil (acceptCtx fresh) (Peek.bytesAt_length ..) (Nat.le_refl _)

/-- The header of a message is read from its first bytes. -/
theorem announcedSize_of_le {part buf : List UInt8} (h : part <+: buf)
    (hlen : uifMsgHdrSize ≤ part.length) : announcedSize buf = announcedSize part := by
  obtain ⟨rest, rfl⟩ := h
  have hhdr : uifMsgHdrSize = 8 := rfl
  have hfour : 4 ≤ part.length := by omega
  rw [announcedSize, announcedSize, List.drop_append_of_le_length hfour,
    List.take_append_of_le_length]
  rw [List.length_drop]
  omega

theorem store_prefix {buf part : List UInt8} (bs : List UInt8) (h : part <+: buf)
    (hroom : part.length + bs.length ≤ buf.length) :
    ∃ buf', store buf part.length bs = some buf' ∧ buf'.length = buf.length ∧
      part ++ bs <+: buf' := by
  obtain ⟨rest, rfl⟩ := h
  refine ⟨_, if_pos hroom, ?_, ?_⟩
  · simp
    simp at hroom
    omega
  · rw [List.take_left' rfl]
    exact List.prefix_append _ _

theorem expectBody_receives (ctx : UifClientCtx) {part : List UInt8}
    (halloc : ctx.buf.length = ctx.bufAlloc) (hread : ctx.bytesRead = part.length)
    (hbytes : part <+: ctx.buf) (hexp : ctx.bufExpected = uifMsgHdrSize)
    (hle : ctx.bufExpected ≤ ctx.bufAlloc) (hlen : part.length = uifMsgHdrSize)
    (fresh : Nat → UInt8) :
    match expectBody ctx (some fresh) with
    | none => uifMaxBodySize < announcedSize part
    | some ctx' => ctx'.Receives part := by
  have hsize : announcedSize ctx.buf = announcedSize part :=
    announcedSize_of_le hbytes (Nat.le_of_eq hlen.symm)
  unfold expectBody
  simp only [hsize]
  split_ifs with hmax hpos hneeded
  · exact hmax
  · refine ⟨?_, hread, hbytes.trans (List.prefix_append _ _), ?_, Nat.le_refl _, ?_, ?_⟩
    · rw [List.length_append, Peek.bytesAt_length, halloc]
      exact Nat.add_sub_cancel' (Nat.le_of_lt hneeded)
    · simp only
      omega
    · intro hlt
      omega
    · exact fun _ => ⟨rfl, Nat.le_of_not_lt hmax⟩
  · refine ⟨halloc, hread, hbytes, ?_, Nat.le_of_not_lt hneeded, ?_, ?_⟩
    · simp only
      omega
    · intro hlt
      omega
    · exact fun _ => ⟨rfl, Nat.le_of_not_lt hmax⟩
  · refine ⟨halloc, hread, hbytes, ?_, hle, fun _ => hexp, fun _ => ⟨?_, ?_⟩⟩ <;> omega

/-- What a call makes of the bytes of the current message: the client is closed on the
header of a message that is too long, or the message is incomplete, or it is handled. -/
def Received.Reflects (bs : List UInt8) : Received → Prop
  | .closed => bs.length = uifMsgHdrSize ∧ uifMaxBodySize < announcedSize bs
  | .kept ctx => ctx.Holds bs
  | .handled buf ctx => (∃ m : UserMsg, m.Framed ∧ m.size.toNat ≤ uifMaxBodySize ∧
      m.wire = bs ∧ m.wire <+: buf) ∧ ctx.Holds []

/-- A complete message is handled, and the next one can be received. -/
theorem deliver_reflects {ctx : UifClientCtx} {part : List UInt8} (h : ctx.Receives part) :
    (deliver true ctx).Reflects part := by
  unfold deliver
  by_cases hfull : ctx.bytesRead = ctx.bufExpected
  · have hlen : uifMsgHdrSize ≤ part.length := by
      by_contra hlt
      have := h.header (Nat.lt_of_not_le hlt)
      have := h.read
      omega
    obtain ⟨hexp, hmax⟩ := h.body hlen
    rw [if_pos hfull, if_pos rfl]
    have hwhole : part.length = uifMsgHdrSize + announcedSize part := by
      rw [← h.read, hfull, hexp]
    obtain ⟨m, hframed, hsize, hwire⟩ := exists_wire hwhole
    refine ⟨⟨m, hframed, hsize ▸ hmax, hwire, hwire ▸ h.bytes⟩, holds_nil ctx h.alloc ?_⟩
    have := h.le_alloc
    omega
  · rw [if_neg hfull]
    exact ⟨h, Nat.lt_of_le_of_ne h.read_le hfull⟩

/-- What one read does to the message that is being received, where `realloc` succeeds. -/
theorem handleClientData_data {ctx : UifClientCtx} {part bs : List UInt8} (h : ctx.Holds part)
    (hpos : 0 < bs.length) (hle : bs.length ≤ ctx.bufExpected - ctx.bytesRead)
    (fresh : Nat → UInt8) :
    ∃ out, handleClientData true ctx (.data bs) (some fresh) = some out ∧
      out.Reflects (part ++ bs) := by
  obtain ⟨⟨halloc, hread, hbytes, hreadle, hlealloc, hheader, hbody⟩, hlt⟩ := h
  obtain ⟨buf, hstore, hbuflen, hprefix⟩ := store_prefix bs hbytes (by omega)
  have hlen : (part ++ bs).length = part.length + bs.length := List.length_append
  refine ⟨afterRead true { ctx with buf, bytesRead := part.length + bs.length } (some fresh),
    ?_, ?_⟩
  · rw [handleClientData, if_neg (Nat.ne_of_gt hpos), hread, hstore]
    rfl
  unfold afterRead
  simp only
  -- the read ends the header, or is of the header or the body only
  by_cases hhdr : part.length + bs.length = uifMsgHdrSize
  · rw [if_pos hhdr]
    have hexp : ctx.bufExpected = uifMsgHdrSize := hheader (by omega)
    have hnext := expectBody_receives { ctx with buf, bytesRead := part.length + bs.length }
      (hbuflen.trans halloc) hlen.symm hprefix hexp hlealloc (hlen.trans hhdr) fresh
    revert hnext
    cases expectBody { ctx with buf, bytesRead := part.length + bs.length } (some fresh) with
    | none => exact fun hmax => ⟨hlen.trans hhdr, hmax⟩
    | some ctx' => exact deliver_reflects
  · rw [if_neg hhdr]
    refine deliver_reflects ⟨hbuflen.trans halloc, hlen.symm, hprefix, ?_, hlealloc, ?_, ?_⟩
    · simp only
      omega
    · intro hshort
      exact hheader (by omega)
    · intro hlong
      have hpart : uifMsgHdrSize ≤ part.length := by
        by_contra hshort
        have := hheader (Nat.lt_of_not_le hshort)
        omega
      rw [announcedSize_of_le (List.prefix_append part bs) hpart]
      exact hbody hpart

/-! ## Any number of reads -/

/-- A client of the listener, and the messages that the handler was called with. -/
structure Conn where
  ctx : Option UifClientCtx
  handled : List (List UInt8)

def Conn.next (conn : Conn) : Received → Conn
  | .closed => ⟨none, conn.handled⟩
  | .kept ctx => ⟨some ctx, conn.handled⟩
  | .handled msg ctx => ⟨some ctx, conn.handled ++ [msg]⟩

/-- What a client can have become when some bytes have been read from it: the calls of
`handle_client_data` read what was asked for or less, in any parts. -/
inductive Reached : List UInt8 → Conn → Prop
  | accept (fresh : Nat → UInt8) : Reached [] ⟨some (acceptCtx fresh), []⟩
  | again {c : List UInt8} {conn : Conn} {ctx : UifClientCtx} {grow : Option (Nat → UInt8)}
      {out : Received} (h : Reached c conn) (hctx : conn.ctx = some ctx)
      (hout : handleClientData true ctx (.error true) grow = some out) : Reached c (conn.next out)
  | data {c : List UInt8} {conn : Conn} {ctx : UifClientCtx} {out : Received} (bs : List UInt8)
      (fresh : Nat → UInt8) (h : Reached c conn) (hctx : conn.ctx = some ctx)
      (hpos : 0 < bs.length) (hle : bs.length ≤ ctx.bufExpected - ctx.bytesRead)
      (hout : handleClientData true ctx (.data bs) (some fresh) = some out) :
      Reached (c ++ bs) (conn.next out)

/-- A message that the listener accepts. -/
def UserMsg.Accepted (m : UserMsg) : Prop := m.Framed ∧ m.size.toNat ≤ uifMaxBodySize

/-- The handler was called once for each of the messages, in order, with a buffer that
starts with the message. -/
def Delivered (handled : List (List UInt8)) (ms : List UserMsg) : Prop :=
  List.Forall₂ (fun buf m => m.wire <+: buf) handled ms

/-- The bytes that were read are messages, all handled, and the start of another one. -/
structure Conn.Tracks (conn : Conn) (c : List UInt8) (ms : List UserMsg) (part : List UInt8) :
    Prop where
  bytes : c = ms.flatMap UserMsg.wire ++ part
  accepted : ∀ m ∈ ms, m.Accepted
  delivered : Delivered conn.handled ms
  current : ∀ ctx, conn.ctx = some ctx → ctx.Holds part
  closed : conn.ctx = none → part.length = uifMsgHdrSize ∧ uifMaxBodySize < announcedSize part

theorem Conn.Tracks.next {conn : Conn} {c part bs : List UInt8} {ms : List UserMsg}
    {out : Received} (h : conn.Tracks c ms part) (hout : out.Reflects (part ++ bs)) :
    ∃ ms' part', (conn.next out).Tracks (c ++ bs) ms' part' := by
  have hbytes : c ++ bs = ms.flatMap UserMsg.wire ++ (part ++ bs) := by
    rw [h.bytes, List.append_assoc]
  cases out with
  | closed => 
    refine ⟨ms, part ++ bs, hbytes, h.accepted, h.delivered, fun ctx hctx => ?_, fun _ => hout⟩
    cases hctx
  | kept ctx =>
    refine ⟨ms, part ++ bs, hbytes, h.accepted, h.delivered, fun ctx' hctx => ?_, fun hnone => ?_⟩
    · cases hctx
      exact hout
    · cases hnone
  | handled buf ctx =>
    obtain ⟨⟨m, hframed, hsize, hwire, hbuf⟩, hnil⟩ := hout
    refine ⟨ms ++ [m], [], ?_, ?_, ?_, fun ctx' hctx => ?_, fun hnone => ?_⟩
    · rw [hbytes, List.flatMap_append, ← hwire]
      simp
    · intro m' hm'
      rcases List.mem_append.mp hm' with hm' | hm'
      · exact h.accepted m' hm'
      · rw [List.mem_singleton.mp hm']
        exact ⟨hframed, hsize⟩
    · exact List.rel_append h.delivered (.cons hbuf .nil)
    · cases hctx
      exact hnil
    · cases hnone

theorem Reached.tracks {c : List UInt8} {conn : Conn} (h : Reached c conn) :
    ∃ ms part, conn.Tracks c ms part := by
  induction h with
  | accept fresh =>
    refine ⟨[], [], rfl, by simp, .nil, fun ctx hctx => ?_, fun hnone => ?_⟩
    · cases hctx
      exact holds_accept fresh
    · cases hnone
  | again h hctx hout ih =>
    obtain ⟨ms, part, htracks⟩ := ih
    cases hout
    refine ⟨ms, part, htracks.bytes, htracks.accepted, htracks.delivered, fun ctx' hctx' => ?_,
      fun hnone => ?_⟩
    · cases hctx'
      exact htracks.current _ hctx
    · cases hnone
  | data bs fresh h hctx hpos hle hout ih =>
    obtain ⟨ms, part, htracks⟩ := ih
    obtain ⟨out, heq, hreflects⟩ := handleClientData_data (htracks.current _ hctx) hpos hle _
    rw [hout] at heq
    cases heq
    exact htracks.next hreflects

/-- The bytes of a message that is being received are not all of it. -/
theorem UifClientCtx.Holds.incomplete {ctx : UifClientCtx} {part rest : List UInt8}
    {m : UserMsg} (h : ctx.Holds part) (hm : m.Framed) : part ≠ m.wire ++ rest := by
  rintro rfl
  have hlen := m.wire_length
  have hbody := h.1.body (by rw [List.length_append]; omega)
  rw [m.announcedSize_wire] at hbody
  have hread := h.1.read
  have hlt := h.2
  rw [List.length_append] at hread
  unfold UserMsg.Framed at hm
  omega

/-- The bytes after the messages are not those of a message. -/
theorem Conn.Tracks.incomplete {conn : Conn} {c part rest : List UInt8} {ms : List UserMsg}
    {m : UserMsg} (h : conn.Tracks c ms part) (hm : m.Accepted) : part ≠ m.wire ++ rest := by
  cases hctx : conn.ctx with
  | some ctx => exact (h.current ctx hctx).incomplete hm.1
  | none =>
    rintro rfl
    have hlong := (h.closed hctx).2
    rw [m.announcedSize_wire] at hlong
    exact absurd hm.2 (Nat.not_le_of_lt hlong)

/-- The messages that were handled are the first ones of a stream of messages. -/
theorem Conn.Tracks.of_prefix {conn : Conn} {c part : List UInt8} {done ms : List UserMsg}
    (h : conn.Tracks c done part) (hms : ∀ m ∈ ms, m.Accepted)
    (hc : c <+: ms.flatMap UserMsg.wire) :
    ∃ todo, ms = done ++ todo ∧ part <+: todo.flatMap UserMsg.wire := by
  obtain ⟨rest, hrest⟩ := hc
  rw [h.bytes, List.append_assoc, ← List.append_nil (ms.flatMap _)] at hrest
  rcases UserMsg.prefixFree.flatMap (fun m hm => (h.accepted m hm).1) (fun m hm => (hms m hm).1)
    hrest with ⟨todo, rfl, htodo⟩ | ⟨zs, rfl, hzs⟩
  · exact ⟨todo, rfl, rest, by rw [htodo, List.append_nil]⟩
  · cases zs with
    | nil => exact ⟨[], by simp, rest, by simpa using hzs.symm⟩
    | cons m zs =>
      have hlen := congrArg List.length hzs
      simp [UserMsg.wire_length, uifMsgHdrSize] at hlen
      omega

/-- The next message of the stream has been read in part. -/
theorem Conn.Tracks.part_prefix {conn : Conn} {c part : List UInt8} {done todo : List UserMsg}
    (h : conn.Tracks c done part) (htodo : ∀ m ∈ todo, m.Accepted)
    (hpart : part <+: todo.flatMap UserMsg.wire) :
    ∀ m ∈ todo.head?, part <+: m.wire ∧ part ≠ m.wire := by
  intro m hm
  obtain ⟨todo, rfl⟩ : ∃ t, todo = m :: t := by
    cases todo with
    | nil => cases hm
    | cons _ t => exact ⟨t, by rw [Option.some.inj hm]⟩
  have hinc : ∀ rest, part ≠ m.wire ++ rest := fun _ => h.incomplete (htodo m List.mem_cons_self)
  rw [List.flatMap_cons] at hpart
  refine ⟨?_, fun heq => hinc [] (heq.trans (List.append_nil _).symm)⟩
  rcases List.prefix_or_prefix_of_prefix hpart (List.prefix_append m.wire _) with hle | ⟨rest, hge⟩
  · exact hle
  · exact absurd hge.symm (hinc rest)

/-- A stream of messages leaves the client open. -/
theorem Conn.Tracks.open_of_prefix {conn : Conn} {c part : List UInt8} {done todo : List UserMsg}
    (h : conn.Tracks c done part) (htodo : ∀ m ∈ todo, m.Accepted)
    (hpart : part <+: todo.flatMap UserMsg.wire) : conn.ctx ≠ none := by
  intro hnone
  obtain ⟨hlen, hlong⟩ := h.closed hnone
  have hhead := h.part_prefix htodo hpart
  cases todo with
  | nil =>
    have := hpart.length_le
    rw [hlen] at this
    exact absurd this (by decide)
  | cons m todo =>
    have hsize := m.announcedSize_wire []
    rw [List.append_nil, announcedSize_of_le (hhead m rfl).1 (Nat.le_of_eq hlen.symm)] at hsize
    have := (htodo m List.mem_cons_self).2
    omega

/-- A message that is too long closes the client, and nothing after its header is read. -/
theorem Conn.Tracks.closed_of_prefix {conn : Conn} {c part hdr : List UInt8}
    {done ms : List UserMsg} (h : conn.Tracks c done part) (hms : ∀ m ∈ ms, m.Accepted)
    (hlen : hdr.length = uifMsgHdrSize) (hlong : uifMaxBodySize < announcedSize hdr)
    (hc : ms.flatMap UserMsg.wire ++ hdr <+: c) : conn.ctx = none ∧ done = ms := by
  obtain ⟨rest, hrest⟩ := hc
  rw [h.bytes, List.append_assoc] at hrest
  have heq : part = hdr ++ rest ∧ done = ms := by
    rcases UserMsg.prefixFree.flatMap (fun m hm => (hms m hm).1)
      (fun m hm => (h.accepted m hm).1) hrest with ⟨zs, rfl, hzs⟩ | ⟨zs, rfl, hzs⟩
    · cases zs with
      | nil => exact ⟨hzs.symm, List.append_nil ms⟩
      | cons m zs =>
        -- the header of a handled message announces what the listener accepts
        have hm := (h.accepted m (by simp)).2
        rw [List.flatMap_cons, List.append_assoc] at hzs
        have hsize : announcedSize hdr = m.size.toNat := by
          rw [← announcedSize_of_le (List.prefix_append hdr rest) (Nat.le_of_eq hlen.symm), hzs,
            m.announcedSize_wire]
        omega
    · cases zs with
      | nil => exact ⟨hzs, (List.append_nil done).symm⟩
      | cons m zs =>
        rw [List.flatMap_cons, List.append_assoc] at hzs
        exact absurd hzs (h.incomplete (hms m (by simp)))
  refine ⟨?_, heq.2⟩
  cases hctx : conn.ctx with
  | none => rfl
  | some ctx =>
    have hbody := ((h.current ctx hctx).1.body (by simp [heq.1, hlen])).2
    rw [heq.1, announcedSize_of_le (List.prefix_append hdr rest) (Nat.le_of_eq hlen.symm)] at hbody
    omega

/-- Whatever parts a stream is read in: the buffer is never overrun; of a stream of
messages every message that is complete has been handled, once and in order, and all of
them have when the stream has been read; and the header of a message that is too long
closes the client after the messages before it. -/
theorem frames_delivered {c : List UInt8} {conn : Conn} (h : Reached c conn) :
    (∀ ctx, conn.ctx = some ctx →
      ctx.bytesRead ≤ ctx.bufExpected ∧ ctx.bufExpected ≤ ctx.bufAlloc ∧
      ∀ bs fresh, bs.length ≤ ctx.bufExpected - ctx.bytesRead →
        handleClientData true ctx (.data bs) (some fresh) ≠ none) ∧
    (∀ ms : List UserMsg, (∀ m ∈ ms, m.Accepted) → c <+: ms.flatMap UserMsg.wire →
      conn.ctx ≠ none ∧ ∃ done todo part, ms = done ++ todo ∧ Delivered conn.handled done ∧
        c = done.flatMap UserMsg.wire ++ part ∧
        ∀ m ∈ todo.head?, part <+: m.wire ∧ part ≠ m.wire) ∧
    (∀ ms : List UserMsg, (∀ m ∈ ms, m.Accepted) → c = ms.flatMap UserMsg.wire →
      Delivered conn.handled ms) ∧
    (∀ (ms : List UserMsg) (hdr : List UInt8), (∀ m ∈ ms, m.Accepted) →
      hdr.length = uifMsgHdrSize → uifMaxBodySize < announcedSize hdr →
      ms.flatMap UserMsg.wire ++ hdr <+: c → conn.ctx = none ∧ Delivered conn.handled ms) := by
  obtain ⟨done, part, htracks⟩ := h.tracks
  refine ⟨fun ctx hctx => ?_, fun ms hms hc => ?_, fun ms hms hc => ?_,
    fun ms hdr hms hlen hlong hc => ?_⟩
  · have hholds := htracks.current ctx hctx
    refine ⟨hholds.1.read_le, hholds.1.le_alloc, fun bs fresh hle => ?_⟩
    rcases Nat.eq_zero_or_pos bs.length with hnil | hpos
    · rw [handleClientData, if_pos hnil]
      exact Option.some_ne_none _
    · obtain ⟨out, heq, -⟩ := handleClientData_data hholds hpos hle fresh
      rw [heq]
      exact Option.some_ne_none _
  · obtain ⟨todo, rfl, hpart⟩ := htracks.of_prefix hms hc
    have htodo : ∀ m ∈ todo, m.Accepted := fun m hm => hms m (List.mem_append_right _ hm)
    exact ⟨htracks.open_of_prefix htodo hpart, done, todo, part, rfl, htracks.delivered,
      htracks.bytes, htracks.part_prefix htodo hpart⟩
  · obtain ⟨todo, rfl, hpart⟩ := htracks.of_prefix hms (hc ▸ List.prefix_refl _)
    rw [htracks.bytes, List.flatMap_append, List.append_cancel_left_eq] at hc
    cases todo with
    | nil =>
      rw [List.append_nil]
      exact htracks.delivered
    -- no message is still incomplete when all bytes were read
    | cons m todo => exact absurd hc (htracks.incomplete (hms m (by simp)))
  · obtain ⟨hclosed, rfl⟩ := htracks.closed_of_prefix hms hlen hlong hc
    exact ⟨hclosed, htracks.delivered⟩

/-- Two requests for the methods of a class, with a read that ends in each header and each body. -/
theorem reached_split :
    Reached ([] ++ [2, 0, 0] ++ [0, 3, 0, 0, 0] ++ [1, 0] ++ [65] ++ [2, 0, 0, 0, 4] ++ [0, 0, 0] ++
        [2] ++ [0, 66, 67])
      ⟨some ⟨[2, 0, 0, 0, 4, 0, 0, 0, 2, 0, 66, 67], 12, 8, 0⟩,
        [[2, 0, 0, 0, 3, 0, 0, 0, 1, 0, 65], [2, 0, 0, 0, 4, 0, 0, 0, 2, 0, 66, 67]]⟩ :=
  have hhdr : Reached ([] ++ [2, 0, 0]) ⟨some ⟨[2, 0, 0, 7, 7, 7, 7, 7], 8, 8, 3⟩, []⟩ :=
    .data [2, 0, 0] (fun _ => 0) (.accept fun _ => 7) rfl (by decide) (by decide) rfl
  have hsize : Reached ([] ++ [2, 0, 0] ++ [0, 3, 0, 0, 0])
      ⟨some ⟨[2, 0, 0, 0, 3, 0, 0, 0, 9, 9, 9], 11, 11, 8⟩, []⟩ :=
    .data [0, 3, 0, 0, 0] (fun _ => 9) hhdr rfl (by decide) (by decide) rfl
  have hbody : Reached ([] ++ [2, 0, 0] ++ [0, 3, 0, 0, 0] ++ [1, 0])
      ⟨some ⟨[2, 0, 0, 0, 3, 0, 0, 0, 1, 0, 9], 11, 11, 10⟩, []⟩ :=
    .data [1, 0] (fun _ => 0) hsize rfl (by decide) (by decide) rfl
  have hfirst : Reached ([] ++ [2, 0, 0] ++ [0, 3, 0, 0, 0] ++ [1, 0] ++ [65])
      ⟨some ⟨[2, 0, 0, 0, 3, 0, 0, 0, 1, 0, 65], 11, 8, 0⟩, [[2, 0, 0, 0, 3, 0, 0, 0, 1, 0, 65]]⟩ :=
    .data [65] (fun _ => 0) hbody rfl (by decide) (by decide) rfl
  have hhdr' : Reached ([] ++ [2, 0, 0] ++ [0, 3, 0, 0, 0] ++ [1, 0] ++ [65] ++ [2, 0, 0, 0, 4])
      ⟨some ⟨[2, 0, 0, 0, 4, 0, 0, 0, 1, 0, 65], 11, 8, 5⟩, [[2, 0, 0, 0, 3, 0, 0, 0, 1, 0, 65]]⟩ :=
    .data [2, 0, 0, 0, 4] (fun _ => 0) hfirst rfl (by decide) (by decide) rfl
  have hsize' : Reached ([] ++ [2, 0, 0] ++ [0, 3, 0, 0, 0] ++ [1, 0] ++ [65] ++ [2, 0, 0, 0, 4] ++
        [0, 0, 0])
      ⟨some ⟨[2, 0, 0, 0, 4, 0, 0, 0, 1, 0, 65, 9], 12, 12, 8⟩,
        [[2, 0, 0, 0, 3, 0, 0, 0, 1, 0, 65]]⟩ :=
    .data [0, 0, 0] (fun _ => 9) hhdr' rfl (by decide) (by decide) rfl
  have hbody' : Reached ([] ++ [2, 0, 0] ++ [0, 3, 0, 0, 0] ++ [1, 0] ++ [65] ++ [2, 0, 0, 0, 4] ++
        [0, 0, 0] ++ [2])
      ⟨some ⟨[2, 0, 0, 0, 4, 0, 0, 0, 2, 0, 65, 9], 12, 12, 9⟩,
        [[2, 0, 0, 0, 3, 0, 0, 0, 1, 0, 65]]⟩ :=
    .data [2] (fun _ => 0) hsize' rfl (by decide) (by decide) rfl
  .data [0, 66, 67] (fun _ => 0) hbody' rfl (by decide) (by decide) rfl

theorem frames_delivered_split :
    Delivered [[2, 0, 0, 0, 3, 0, 0, 0, 1, 0, 65], [2, 0, 0, 0, 4, 0, 0, 0, 2, 0, 66, 67]]
      [⟨2, 3, [1, 0, 65]⟩, ⟨2, 4, [2, 0, 66, 67]⟩] :=
  (frames_delivered reached_split).2.2.1 [⟨2, 3, [1, 0, 65]⟩, ⟨2, 4, [2, 0, 66, 67]⟩]
    (by simp [UserMsg.Accepted, UserMsg.Framed, uifMaxBodySize]) rfl

end JautoProf
