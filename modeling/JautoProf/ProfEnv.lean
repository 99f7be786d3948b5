import JautoProf.Lib.Scanf
import JautoProf.Util
import Mathlib.Algebra.Ring.Nat

/-!
# The socket of the environment (`prof-env.c`)

`JAUTO_PROF_SOCKET` names a Unix socket or, after `tcp://`, an address and a port, which `sscanf`
reads. What `%u` stores for a number that an `unsigned int` cannot hold is up to the library.

Results:
1. `tcp_spec_exact`: `parse_tcp_spec` accepts what it says it expects and nothing else, except
   where `sscanf` reads five numbers that pass its tests from another text.
   `tcp_spec_trailing`: a text after the port is one of these.
-/

namespace JautoProf

open Scanf

/-- `struct prof_socket_tcp`. -/
structure ProfSocketTcp where
  addr : UInt8 × UInt8 × UInt8 × UInt8
  port : UInt16
deriving DecidableEq

/-- `struct prof_socket_spec`. -/
inductive ProfSocketSpec
  | unix (path : List UInt8)
  | tcp (tcp : ProfSocketTcp)
deriving DecidableEq

/-- `TCP_SCHEME`. -/
def tcpScheme : List UInt8 := ascii "tcp://"

/-- `"%u.%u.%u.%u:%u"`. -/
def tcpFormat : List Directive :=
  [.unsigned, .char 46, .unsigned, .char 46, .unsigned, .char 46, .unsigned, .char 58, .unsigned]

variable (huge : Sign → Nat → UInt32)

/-- What `%u` stores: the number, after a minus sign its negation, and for a number that needs
more than 32 bits whatever the library makes of it. -/
def stored (i : Item) : UInt32 :=
  let n := decimal i.digits.text
  if n < 2 ^ 32 then
    if i.sign = .minus then -UInt32.ofNat n else UInt32.ofNat n
  else huge i.sign n

/-- `parse_tcp_spec`. -/
def parseTcpSpec (spec : List UInt8) : Option ProfSocketTcp :=
  match sscanf tcpFormat (spec.drop tcpScheme.length) with
  | [ia, ib, ic, id, iport] =>
    let a := stored huge ia
    let b := stored huge ib
    let c := stored huge ic
    let d := stored huge id
    let port := stored huge iport
    if 255 < a ∨ 255 < b ∨ 255 < c ∨ 255 < d then none
    else if port = 0 ∨ 65535 < port then none
    else some ⟨(a.toUInt8, b.toUInt8, c.toUInt8, d.toUInt8), port.toUInt16⟩
  | _ => none

/-- `prof_socket`, given what `getenv` returns. -/
def profSocket (val : Option CStr) : Option ProfSocketSpec :=
  match val with
  | none => some (.unix (ascii "/tmp/jauto-profiler.sock"))
  | some val =>
    if val.val.take tcpScheme.length = tcpScheme then (parseTcpSpec huge val.val).map .tcp
    else some (.unix val.val)

/-! ## What is expected and what is read -/

/-- The text of a specification, from the texts of its numbers. -/
def tcpText (a b c d port : List UInt8) : List UInt8 :=
  a ++ 46 :: (b ++ 46 :: (c ++ 46 :: (d ++ 58 :: port)))

/-- The text is `a.b.c.d:port`, with decimal numbers in their ranges, and nothing else. -/
def IsTcpSpec (text : List UInt8) (tcp : ProfSocketTcp) : Prop :=
  ∃ a b c d port : Digits, text = tcpText a.text b.text c.text d.text port.text ∧
    decimal a.text = tcp.addr.1.toNat ∧ decimal b.text = tcp.addr.2.1.toNat ∧
    decimal c.text = tcp.addr.2.2.1.toNat ∧ decimal d.text = tcp.addr.2.2.2.toNat ∧
    decimal port.text = tcp.port.toNat ∧ 0 < tcp.port.toNat

/-- `parse_tcp_spec` accepts exactly the expected texts, and reads their numbers. -/
def TcpSpecExact (text : List UInt8) : Prop :=
  ∀ tcp, parseTcpSpec huge (tcpScheme ++ text) = some tcp ↔ IsTcpSpec text tcp

/-- The numbers that are stored pass the tests. -/
def Passes (a b c d port : Item) : Prop :=
  (∀ i ∈ [a, b, c, d], stored huge i ≤ 255) ∧ stored huge port ≠ 0 ∧ stored huge port ≤ 65535

/-- A number without white space or a sign before it, which 32 bits hold. -/
def Plain (i : Item) : Prop := i.space = [] ∧ i.sign = .none ∧ decimal i.digits.text < 2 ^ 32

/-- `sscanf` reads five numbers that pass the tests, but there is more than them and what is
between them: white space or a sign before one, or a text after the port; or one of them does not
fit 32 bits. -/
def ReadLoosely (text : List UInt8) : Prop :=
  ∃ (a b c d port : Item) (rest : List UInt8),
    text = tcpText a.text b.text c.text d.text (port.text ++ rest) ∧ NoDigit rest ∧
      Passes huge a b c d port ∧ ¬ ((∀ i ∈ [a, b, c, d, port], Plain i) ∧ rest = [])

/-! ## The scan -/

theorem noDigit_cons {b : UInt8} (h : isDigit b = false) (s : List UInt8) : NoDigit (b :: s) := by
  rintro c ⟨⟩
  exact h

/-- All conversions are made where the text starts with a specification. -/
theorem sscanf_tcpFormat_iff {text : List UInt8} {a b c d port : Item} :
    sscanf tcpFormat text = [a, b, c, d, port] ↔
      ∃ rest, text = tcpText a.text b.text c.text d.text (port.text ++ rest) ∧ NoDigit rest := by
  constructor
  · intro h
    have hlength : (sscanf tcpFormat text).length = conversions tcpFormat := by rw [h]; rfl
    obtain ⟨rest, hm⟩ := matches_of_length rfl hlength
    rw [h] at hm
    cases hm with | unsigned _ _ hm =>
    cases hm with | char _ hm =>
    cases hm with | unsigned _ _ hm =>
    cases hm with | char _ hm =>
    cases hm with | unsigned _ _ hm =>
    cases hm with | char _ hm =>
    cases hm with | unsigned _ _ hm =>
    cases hm with | char _ hm =>
    cases hm with | unsigned _ hrest hm =>
    cases hm with | done =>
    exact ⟨rest, rfl, hrest⟩
  · rintro ⟨rest, rfl, hrest⟩
    have hdot : isDigit 46 = false := rfl
    have hcolon : isDigit 58 = false := rfl
    have hport : Matches [.unsigned] [port] (port.text ++ rest) rest :=
      .unsigned port hrest (.done rest)
    have hd := Matches.unsigned d (noDigit_cons hcolon _) (.char 58 hport)
    have hc := Matches.unsigned c (noDigit_cons hdot _) (.char 46 hd)
    have hb := Matches.unsigned b (noDigit_cons hdot _) (.char 46 hc)
    exact (Matches.unsigned a (noDigit_cons hdot _) (.char 46 hb)).sscanf

/-- What is accepted, and what it is read as. -/
theorem parseTcpSpec_iff {text : List UInt8} {tcp : ProfSocketTcp} :
    parseTcpSpec huge (tcpScheme ++ text) = some tcp ↔ ∃ a b c d port : Item,
      sscanf tcpFormat text = [a, b, c, d, port] ∧ Passes huge a b c d port ∧
      tcp = ⟨((stored huge a).toUInt8, (stored huge b).toUInt8, (stored huge c).toUInt8,
        (stored huge d).toUInt8), (stored huge port).toUInt16⟩ := by
  unfold parseTcpSpec
  rw [List.drop_left]
  constructor
  · intro h
    split at h
    · next a b c d port hscan =>
      simp only at h
      split_ifs at h with haddr hport
      refine ⟨a, b, c, d, port, hscan, ?_, (Option.some.inj h).symm⟩
      simp only [not_or, UInt32.not_lt] at haddr hport
      exact ⟨by simpa using haddr, hport⟩
    · cases h
  · rintro ⟨a, b, c, d, port, hscan, ⟨haddr, hzero, hport⟩, rfl⟩
    rw [hscan]
    simp only [List.forall_mem_cons, ← UInt32.not_lt] at haddr
    obtain ⟨ha, hb, hc, hd, -⟩ := haddr
    simp only
    rw [if_neg (by simp only [ha, hb, hc, hd, or_self, not_false_eq_true]),
      if_neg (not_or.mpr ⟨hzero, UInt32.not_lt.mpr hport⟩)]

/-! ## Plain numbers -/

/-- Digits as what `%u` takes. -/
def plainItem (ds : Digits) : Item := ⟨[], .none, ds, fun _ h => nomatch h⟩

theorem plainItem_text (ds : Digits) : (plainItem ds).text = ds.text := rfl

theorem stored_plain {i : Item} (h : Plain i) :
    (stored huge i).toNat = decimal i.digits.text := by
  unfold stored
  rw [if_pos h.2.2, if_neg (by rw [h.2.1]; decide)]
  exact UInt32.toNat_ofNat_of_lt' h.2.2

theorem plain_eq {i : Item} (h : Plain i) : i = plainItem i.digits := by
  obtain ⟨space, sign, ds, hspace⟩ := i
  obtain ⟨rfl, rfl, -⟩ := h
  rfl

theorem plain_plainItem {ds : Digits} {n : Nat} (h : decimal ds.text = n) (hn : n < 2 ^ 32) :
    Plain (plainItem ds) :=
  ⟨rfl, rfl, h ▸ hn⟩

theorem toNat_toUInt8 {v : UInt32} (h : v ≤ 255) : v.toUInt8.toNat = v.toNat := by
  rw [UInt32.toNat_toUInt8]
  exact Nat.mod_eq_of_lt (Nat.lt_succ_of_le (UInt32.le_iff_toNat_le.mp h))

theorem toNat_toUInt16 {v : UInt32} (h : v ≤ 65535) : v.toUInt16.toNat = v.toNat := by
  rw [UInt32.toNat_toUInt16]
  exact Nat.mod_eq_of_lt (Nat.lt_succ_of_le (UInt32.le_iff_toNat_le.mp h))

/-- The number that is stored for the digits of a byte. -/
theorem stored_byte {ds : Digits} {x : UInt8} (h : decimal ds.text = x.toNat) :
    stored huge (plainItem ds) ≤ 255 ∧ (stored huge (plainItem ds)).toUInt8 = x := by
  have hlt := x.toNat_lt
  have hstored : (stored huge (plainItem ds)).toNat = x.toNat :=
    (stored_plain huge (plain_plainItem h (by omega))).trans h
  have hle : stored huge (plainItem ds) ≤ 255 := by
    rw [UInt32.le_iff_toNat_le, hstored]
    exact Nat.le_of_lt_succ hlt
  exact ⟨hle, UInt8.toNat_inj.mp ((toNat_toUInt8 hle).trans hstored)⟩

theorem stored_port {ds : Digits} {x : UInt16} (h : decimal ds.text = x.toNat) :
    stored huge (plainItem ds) ≤ 65535 ∧ (stored huge (plainItem ds)).toUInt16 = x := by
  have hlt := x.toNat_lt
  have hstored : (stored huge (plainItem ds)).toNat = x.toNat :=
    (stored_plain huge (plain_plainItem h (by omega))).trans h
  have hle : stored huge (plainItem ds) ≤ 65535 := by
    rw [UInt32.le_iff_toNat_le, hstored]
    exact Nat.le_of_lt_succ hlt
  exact ⟨hle, UInt16.toNat_inj.mp ((toNat_toUInt16 hle).trans hstored)⟩

/-- A text as it is expected is scanned as its numbers, and they pass the tests. -/
theorem IsTcpSpec.scanned {text : List UInt8} {tcp : ProfSocketTcp} (h : IsTcpSpec text tcp) :
    ∃ a b c d port : Digits,
      text = tcpText a.text b.text c.text d.text port.text ∧
      sscanf tcpFormat text =
        [plainItem a, plainItem b, plainItem c, plainItem d, plainItem port] ∧
      (∀ i ∈ [plainItem a, plainItem b, plainItem c, plainItem d, plainItem port], Plain i) ∧
      parseTcpSpec huge (tcpScheme ++ text) = some tcp := by
  obtain ⟨a, b, c, d, port, htext, ha, hb, hc, hd, hport, hzero⟩ := h
  have hscan : sscanf tcpFormat text =
      [plainItem a, plainItem b, plainItem c, plainItem d, plainItem port] :=
    sscanf_tcpFormat_iff.mpr ⟨[], by rw [htext, List.append_nil]; rfl, by rintro _ ⟨⟩⟩
  have hbyte : ∀ {ds : Digits} {x : UInt8}, decimal ds.text = x.toNat → Plain (plainItem ds) :=
    fun {ds x} hds => plain_plainItem hds (Nat.lt_trans x.toNat_lt (by decide))
  refine ⟨a, b, c, d, port, htext, hscan, ?_, ?_⟩
  · have hplain := plain_plainItem hport (Nat.lt_trans tcp.port.toNat_lt (by decide))
    simp only [List.forall_mem_cons]
    exact ⟨hbyte ha, hbyte hb, hbyte hc, hbyte hd, hplain, List.forall_mem_nil _⟩
  · obtain ⟨hale, hax⟩ := stored_byte huge ha
    obtain ⟨hble, hbx⟩ := stored_byte huge hb
    obtain ⟨hcle, hcx⟩ := stored_byte huge hc
    obtain ⟨hdle, hdx⟩ := stored_byte huge hd
    obtain ⟨hple, hpx⟩ := stored_port huge hport
    have hne : stored huge (plainItem port) ≠ 0 := by
      intro h0
      rw [h0] at hpx
      rw [← hpx] at hzero
      exact absurd hzero (by decide)
    refine (parseTcpSpec_iff huge).mpr ⟨_, _, _, _, _, hscan, ⟨?_, hne, hple⟩, ?_⟩
    · simp only [List.forall_mem_cons]
      exact ⟨hale, hble, hcle, hdle, List.forall_mem_nil _⟩
    · rw [hax, hbx, hcx, hdx, hpx]

/-- The server listens on TCP exactly where a specification follows the scheme. -/
theorem profSocket_tcp_iff {val : CStr} {tcp : ProfSocketTcp} :
    profSocket huge (some val) = some (.tcp tcp) ↔
      ∃ text, val.val = tcpScheme ++ text ∧ parseTcpSpec huge (tcpScheme ++ text) = some tcp := by
  unfold profSocket
  constructor
  · intro h
    simp only at h
    split at h
    · next hscheme =>
      obtain ⟨tcp', hparse, heq⟩ := Option.map_eq_some_iff.mp h
      cases heq
      have htext : val.val = tcpScheme ++ val.val.drop tcpScheme.length := by
        conv_lhs => rw [← List.take_append_drop tcpScheme.length val.val, hscheme]
      exact ⟨_, htext, htext ▸ hparse⟩
    · cases h
  · rintro ⟨text, htext, hparse⟩
    simp only
    rw [htext, if_pos (List.take_left ..), hparse]
    rfl

/-- For every text after `tcp://`: that `parse_tcp_spec` accepts it if and only if it is
`a.b.c.d:port` in the ranges, and then reads these numbers, holds exactly if the text is not read
loosely. -/
theorem tcp_spec_exact (huge : Sign → Nat → UInt32) (text : List UInt8) :
    TcpSpecExact huge text ↔ ¬ ReadLoosely huge text := by
  constructor
  · rintro hexact ⟨a, b, c, d, port, rest, htext, hrest, hpasses, hloose⟩
    have hscan := sscanf_tcpFormat_iff.mpr ⟨rest, htext, hrest⟩
    have hparse := (parseTcpSpec_iff huge).mpr ⟨a, b, c, d, port, hscan, hpasses, rfl⟩
    -- the text would be a plain specification, which is scanned in one way only
    obtain ⟨a', b', c', d', port', htext', hscan', hplain, -⟩ :=
      ((hexact _).mp hparse).scanned huge
    rw [hscan] at hscan'
    injection hscan' with ha hscan'
    injection hscan' with hb hscan'
    injection hscan' with hc hscan'
    injection hscan' with hd hscan'
    injection hscan' with hport hscan'
    subst ha hb hc hd hport
    refine hloose ⟨hplain, ?_⟩
    rw [htext'] at htext
    simpa [tcpText, plainItem_text] using htext
  · intro hnot tcp
    constructor
    · intro hparse
      obtain ⟨a, b, c, d, port, hscan, hpasses, rfl⟩ := (parseTcpSpec_iff huge).mp hparse
      obtain ⟨rest, htext, hrest⟩ := sscanf_tcpFormat_iff.mp hscan
      obtain ⟨hplain, rfl⟩ := not_not.mp fun hloose =>
        hnot ⟨a, b, c, d, port, rest, htext, hrest, hpasses, hloose⟩
      obtain ⟨haddr, hzero, hport⟩ := hpasses
      simp only [List.forall_mem_cons] at hplain haddr
      obtain ⟨ha, hb, hc, hd, hp, -⟩ := hplain
      obtain ⟨hale, hble, hcle, hdle, -⟩ := haddr
      have hpos : 0 < (stored huge port).toNat :=
        Nat.pos_of_ne_zero fun h0 => hzero (UInt32.toNat_inj.mp h0)
      refine ⟨a.digits, b.digits, c.digits, d.digits, port.digits, ?_, ?_, ?_, ?_, ?_, ?_, ?_⟩
      · rw [htext, plain_eq ha, plain_eq hb, plain_eq hc, plain_eq hd, plain_eq hp, List.append_nil]
        rfl
      · rw [toNat_toUInt8 hale, stored_plain huge ha]
      · rw [toNat_toUInt8 hble, stored_plain huge hb]
      · rw [toNat_toUInt8 hcle, stored_plain huge hc]
      · rw [toNat_toUInt8 hdle, stored_plain huge hd]
      · rw [toNat_toUInt16 hport, stored_plain huge hp]
      · rw [toNat_toUInt16 hport]
        exact hpos
    · intro h
      obtain ⟨-, -, -, -, -, -, -, -, hparse⟩ := h.scanned huge
      exact hparse

/-- `strtoul` of 64 bits, of which 32 are kept. -/
def storedByStrtoul (sign : Sign) (n : Nat) : UInt32 :=
  if n < 2 ^ 64 then if sign = .minus then -UInt32.ofNat n else UInt32.ofNat n else 0xFFFFFFFF

/-- A text after the port is not seen. -/
theorem tcp_spec_trailing : ¬ TcpSpecExact storedByStrtoul (ascii "127.0.0.1:80x") := by
  intro hexact
  have hparse : parseTcpSpec storedByStrtoul (tcpScheme ++ ascii "127.0.0.1:80x") =
      some ⟨(127, 0, 0, 1), 80⟩ := by decide
  obtain ⟨a, b, c, d, port, htext, -⟩ := (hexact _).mp hparse
  have hmem : (120 : UInt8) ∈ ascii "127.0.0.1:80x" := by decide
  have hnot : ∀ ds : Digits, (120 : UInt8) ∉ ds.text := fun ds hds =>
    absurd (ds.digit 120 hds) (by decide)
  rw [htext] at hmem
  simp [tcpText, hnot] at hmem

end JautoProf
