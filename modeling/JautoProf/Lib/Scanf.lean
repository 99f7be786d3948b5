import Mathlib.Tactic.Common
import Mathlib.Data.List.TakeWhile

/-!
# Formatted input

`sscanf` on formats of `%u` and single characters. What `%u` takes from the input is white space,
an optional sign and digits, as many as stand there. The scanner stops at the first directive that
does not match, and what is left of the input does not matter.

Results:
1. `scanItem_iff`: what `%u` takes.
2. `Matches.sscanf`, `matches_of_length`: the scanner makes all conversions exactly on inputs that
   start with what the format asks for.
-/

namespace JautoProf.Scanf

/-- `isspace` in the C locale. -/
def isSpace (b : UInt8) : Bool := b == 32 || (9 ≤ b && b ≤ 13)

def isDigit (b : UInt8) : Bool := 48 ≤ b && b ≤ 57

/-- The number that decimal digits denote. -/
def decimal (ds : List UInt8) : Nat := ds.foldl (fun n d => 10 * n + (d.toNat - 48)) 0

/-- The sign before the digits. -/
inductive Sign
  | none
  | plus
  | minus
deriving DecidableEq

def Sign.text : Sign → List UInt8
  | none => []
  | plus => [43]
  | minus => [45]

/-- Decimal digits, at least one. -/
structure Digits where
  text : List UInt8
  ne_nil : text ≠ []
  digit : ∀ b ∈ text, isDigit b = true
deriving DecidableEq

/-- What `%u` takes from the input. -/
structure Item where
  space : List UInt8
  sign : Sign
  digits : Digits
  is_space : ∀ b ∈ space, isSpace b = true
deriving DecidableEq

def Item.text (i : Item) : List UInt8 := i.space ++ (i.sign.text ++ i.digits.text)

/-- No digit comes next. -/
def NoDigit (s : List UInt8) : Prop := ∀ b ∈ s.head?, isDigit b = false

instance (s : List UInt8) : Decidable (NoDigit s) :=
  match s with
  | [] => isTrue fun _ h => nomatch h
  | b :: _ => decidable_of_iff (isDigit b = false) (by simp [NoDigit])

/-! ## One conversion -/

def takeSign : List UInt8 → Sign × List UInt8
  | [] => (.none, [])
  | b :: s => if b = 43 then (.plus, s) else if b = 45 then (.minus, s) else (.none, b :: s)

/-- The digits at the start. -/
def takeDigits (s : List UInt8) : Option (Digits × List UInt8) :=
  if h : s.takeWhile isDigit = [] then none
  else some (⟨s.takeWhile isDigit, h, fun _ hb => List.mem_takeWhile_imp hb⟩, s.dropWhile isDigit)

/-- The conversion `%u`: the item, and what is left of the input. -/
def scanItem (s : List UInt8) : Option (Item × List UInt8) :=
  let signed := takeSign (s.dropWhile isSpace)
  (takeDigits signed.2).map fun r =>
    (⟨s.takeWhile isSpace, signed.1, r.1, fun _ hb => List.mem_takeWhile_imp hb⟩, r.2)

/-- A prefix with `p` ends where the next one has not `p`. -/
theorem span_append {p : UInt8 → Bool} {l r : List UInt8} (hl : ∀ b ∈ l, p b = true)
    (hr : ∀ b ∈ r.head?, p b = false) :
    (l ++ r).takeWhile p = l ∧ (l ++ r).dropWhile p = r := by
  induction l with
  | nil =>
    cases r with
    | nil => exact ⟨rfl, rfl⟩
    | cons b r =>
      have hb : p b = false := hr b rfl
      exact ⟨List.takeWhile_cons_of_neg (by simp [hb]), List.dropWhile_cons_of_neg (by simp [hb])⟩
  | cons b l ih =>
    have hb := hl b List.mem_cons_self
    obtain ⟨htake, hdrop⟩ := ih fun c hc => hl c (List.mem_cons_of_mem b hc)
    rw [List.cons_append, List.takeWhile_cons_of_pos hb, List.dropWhile_cons_of_pos hb]
    exact ⟨congrArg (b :: ·) htake, hdrop⟩

theorem head?_dropWhile {p : UInt8 → Bool} (s : List UInt8) :
    ∀ b ∈ (s.dropWhile p).head?, p b = false := by
  intro b hb
  have hnot := List.head?_dropWhile_not p s
  rw [Option.mem_def.mp hb] at hnot
  exact hnot

theorem takeDigits_iff {s rest : List UInt8} {ds : Digits} :
    takeDigits s = some (ds, rest) ↔ s = ds.text ++ rest ∧ NoDigit rest := by
  unfold takeDigits
  constructor
  · intro h
    split at h
    · cases h
    · cases h
      exact ⟨List.takeWhile_append_dropWhile.symm, head?_dropWhile s⟩
  · rintro ⟨rfl, hrest⟩
    obtain ⟨htake, hdrop⟩ := span_append ds.digit hrest
    rw [dif_neg (by rw [htake]; exact ds.ne_nil)]
    simp only [htake, hdrop]

/-- The first character of digits, and no sign or white space. -/
theorem Digits.exists_cons (ds : Digits) :
    ∃ b l, ds.text = b :: l ∧ isDigit b = true := by
  obtain ⟨text, hne, hdigit⟩ := ds
  cases text with
  | nil => exact absurd rfl hne
  | cons b l => exact ⟨b, l, rfl, hdigit b List.mem_cons_self⟩

theorem isDigit_bounds {b : UInt8} (h : isDigit b = true) : 48 ≤ b.toNat ∧ b.toNat ≤ 57 := by
  simpa [isDigit, UInt8.le_iff_toNat_le] using h

theorem isSpace_of_isDigit {b : UInt8} (h : isDigit b = true) : isSpace b = false := by
  have hb := isDigit_bounds h
  have hne : b ≠ 32 := fun he => by subst he; exact absurd hb.1 (by decide)
  have hgt : ¬ b ≤ 13 := fun hle => by
    have := UInt8.le_iff_toNat_le.mp hle
    have h13 : (13 : UInt8).toNat = 13 := rfl
    omega
  simp [isSpace, hne, hgt]

theorem takeSign_text (s : List UInt8) : s = (takeSign s).1.text ++ (takeSign s).2 := by
  cases s with
  | nil => rfl
  | cons b s =>
    show b :: s = (if b = 43 then _ else if b = 45 then _ else _ : Sign × List UInt8).1.text ++
      (if b = 43 then _ else if b = 45 then _ else _ : Sign × List UInt8).2
    by_cases h43 : b = 43
    · rw [if_pos h43, h43]
      rfl
    · rw [if_neg h43]
      by_cases h45 : b = 45
      · rw [if_pos h45, h45]
        rfl
      · rw [if_neg h45]
        rfl

/-- A sign is taken where one stands before a digit. -/
theorem takeSign_append (g : Sign) (ds : Digits) (rest : List UInt8) :
    takeSign (g.text ++ (ds.text ++ rest)) = (g, ds.text ++ rest) := by
  obtain ⟨b, l, hbl, hb⟩ := ds.exists_cons
  rw [hbl]
  cases g with
  | none =>
    have hbounds := isDigit_bounds hb
    have h43 : b ≠ 43 := fun he => by subst he; exact absurd hbounds.1 (by decide)
    have h45 : b ≠ 45 := fun he => by subst he; exact absurd hbounds.1 (by decide)
    show (if b = 43 then _ else _) = _
    rw [if_neg h43, if_neg h45]
    rfl
  | plus => rfl
  | minus => rfl

theorem scanItem_iff {s rest : List UInt8} {i : Item} :
    scanItem s = some (i, rest) ↔ s = i.text ++ rest ∧ NoDigit rest := by
  unfold scanItem
  constructor
  · intro h
    obtain ⟨⟨ds, r⟩, hds, he⟩ := Option.map_eq_some_iff.mp h
    cases he
    obtain ⟨hdigits, hrest⟩ := takeDigits_iff.mp hds
    refine ⟨?_, hrest⟩
    have hsign := takeSign_text (s.dropWhile isSpace)
    rw [hdigits] at hsign
    show s = (s.takeWhile isSpace ++ ((takeSign (s.dropWhile isSpace)).1.text ++ ds.text)) ++ r
    rw [List.append_assoc, List.append_assoc, ← hsign]
    exact List.takeWhile_append_dropWhile.symm
  · rintro ⟨rfl, hrest⟩
    obtain ⟨space, sign, ds, hspace⟩ := i
    -- the white space ends at the sign or the first digit
    have hstop : ∀ b ∈ (sign.text ++ (ds.text ++ rest)).head?, isSpace b = false := by
      obtain ⟨b, l, hbl, hb⟩ := ds.exists_cons
      rw [hbl]
      cases sign with
      | none =>
        rintro c ⟨⟩
        exact isSpace_of_isDigit hb
      | plus => rintro c ⟨⟩; rfl
      | minus => rintro c ⟨⟩; rfl
    obtain ⟨htake, hdrop⟩ := span_append hspace hstop
    have htext : (Item.mk space sign ds hspace).text ++ rest =
        space ++ (sign.text ++ (ds.text ++ rest)) := by
      simp [Item.text]
    simp only [htext, htake, hdrop, takeSign_append, takeDigits_iff.mpr ⟨rfl, hrest⟩,
      Option.map_some]

/-! ## Formats -/

/-- A directive of a format. -/
inductive Directive
  | unsigned
  | char (b : UInt8)
deriving DecidableEq

/-- The conversions that are made before the first directive that does not match. -/
def sscanf : List Directive → List UInt8 → List Item
  | [], _ => []
  | .unsigned :: fmt, s =>
    match scanItem s with
    | none => []
    | some (i, rest) => i :: sscanf fmt rest
  | .char _ :: _, [] => []
  | .char b :: fmt, c :: s => if c = b then sscanf fmt s else []

/-- The conversions that a format asks for. -/
def conversions (fmt : List Directive) : Nat := fmt.count .unsigned

/-- The input is what the format asks for, with these items, and then the rest. -/
inductive Matches : List Directive → List Item → List UInt8 → List UInt8 → Prop
  | done (rest : List UInt8) : Matches [] [] rest rest
  | unsigned {fmt : List Directive} {is : List Item} {s rest : List UInt8} (i : Item) :
      NoDigit s → Matches fmt is s rest → Matches (.unsigned :: fmt) (i :: is) (i.text ++ s) rest
  | char {fmt : List Directive} {is : List Item} {s rest : List UInt8} (b : UInt8) :
      Matches fmt is s rest → Matches (.char b :: fmt) is (b :: s) rest

theorem Matches.sscanf {fmt : List Directive} {is : List Item} {s rest : List UInt8}
    (h : Matches fmt is s rest) : Scanf.sscanf fmt s = is := by
  induction h with
  | done rest => rfl
  | unsigned i hs _ ih =>
    unfold Scanf.sscanf
    rw [scanItem_iff.mpr ⟨rfl, hs⟩, ← ih]
  | char b _ ih =>
    unfold Scanf.sscanf
    rw [if_pos rfl, ih]

/-- Where all conversions are made and the last directive is one, the input matches. -/
theorem matches_of_length {fmt : List Directive} {s : List UInt8}
    (hlast : fmt.getLast? = some .unsigned) (h : (sscanf fmt s).length = conversions fmt) :
    ∃ rest, Matches fmt (sscanf fmt s) s rest := by
  induction fmt generalizing s with
  | nil => cases hlast
  | cons d fmt ih =>
    cases d with
    | unsigned =>
      cases hscan : scanItem s with
      | none =>
        rw [sscanf, hscan, conversions, List.count_cons_self] at h
        cases h
      | some r =>
        obtain ⟨i, s'⟩ := r
        obtain ⟨rfl, hnot⟩ := scanItem_iff.mp hscan
        have hs : sscanf (.unsigned :: fmt) (i.text ++ s') = i :: sscanf fmt s' := by
          rw [sscanf, hscan]
        rw [hs, List.length_cons, conversions, List.count_cons_self, Nat.add_right_cancel_iff] at h
        rw [hs]
        cases fmt with
        | nil => exact ⟨s', .unsigned i hnot (.done s')⟩
        | cons d' fmt' =>
          obtain ⟨rest, hrest⟩ := ih (by rwa [List.getLast?_cons_cons] at hlast) h
          exact ⟨rest, .unsigned i hnot hrest⟩
    | char b =>
      have hcount : conversions (.char b :: fmt) = conversions fmt :=
        List.count_cons_of_ne (by simp)
      have hlast' : fmt.getLast? = some .unsigned := by
        cases fmt with
        | nil => cases hlast
        | cons d' fmt' => rwa [List.getLast?_cons_cons] at hlast
      -- a conversion is still asked for
      have hpos : 0 < conversions fmt := List.count_pos_iff.mpr (List.mem_of_getLast? hlast')
      rw [hcount] at h
      cases s with
      | nil => exact absurd (h.symm.trans rfl) (Nat.ne_of_gt hpos)
      | cons c s =>
        rw [sscanf] at h ⊢
        split at h
        · next hc =>
          obtain ⟨rest, hrest⟩ := ih hlast' h
          rw [if_pos hc, hc]
          exact ⟨rest, .char b hrest⟩
        · exact absurd (h.symm.trans rfl) (Nat.ne_of_gt hpos)

end JautoProf.Scanf
