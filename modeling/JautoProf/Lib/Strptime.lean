import JautoProf.Lib.Utf8
import Mathlib.Algebra.Ring.Nat
import Mathlib.Data.Fin.Basic

/-!
# Dates and times of day, and their parser

Dates are those of the Gregorian calendar in the years 1 to 9999. `strptime` of Python makes a
regular expression of a format and takes the first match at the start of the string, in the order
in which the expression tries its alternatives; the match must reach the end. Fields that the
format has not are those of 1900-01-01 00:00:00, and a date that does not exist is an error.

Results:
1. `matchFormat_two`, `matchFormat_year`: a field whose digits are all there is read as they are,
   and only where the right character follows.
2. `complete_time`: a time of day is read up to the end.
-/

namespace JautoProf.Strptime

open Utf8

/-! ## The calendar -/

def isLeap (year : Nat) : Bool := year % 4 == 0 && (year % 100 != 0 || year % 400 == 0)

def daysInMonth (year month : Nat) : Nat :=
  if month = 2 then if isLeap year then 29 else 28
  else if month = 4 ∨ month = 6 ∨ month = 9 ∨ month = 11 then 30
  else 31

/-- A day of the calendar. -/
structure Date where
  year : Nat
  month : Nat
  day : Nat
  year_valid : 1 ≤ year ∧ year ≤ 9999
  month_valid : 1 ≤ month ∧ month ≤ 12
  day_valid : 1 ≤ day ∧ day ≤ daysInMonth year month
deriving DecidableEq

/-- A time of day. -/
structure Time where
  hour : Nat
  minute : Nat
  second : Nat
  valid : hour < 24 ∧ minute < 60 ∧ second < 60
deriving DecidableEq

/-- A `datetime` without a time zone. -/
structure DateTime where
  date : Date
  time : Time
deriving DecidableEq

/-- `date(year, month, day)`, or the error that there is no such day. -/
def mkDate (year month day : Nat) : Option Date :=
  if h : (1 ≤ year ∧ year ≤ 9999) ∧ (1 ≤ month ∧ month ≤ 12) ∧
      (1 ≤ day ∧ day ≤ daysInMonth year month)
  then some ⟨year, month, day, h.1, h.2.1, h.2.2⟩
  else none

/-- `time(hour, minute, second)`. -/
def mkTime (hour minute second : Nat) : Option Time :=
  if h : hour < 24 ∧ minute < 60 ∧ second < 60 then some ⟨hour, minute, second, h⟩ else none

/-- `datetime(year, month, day, hour, minute, second)`. -/
def mkDateTime (year month day hour minute second : Nat) : Option DateTime :=
  (mkDate year month day).bind fun d => (mkTime hour minute second).map fun t => ⟨d, t⟩

theorem daysInMonth_le (year month : Nat) : daysInMonth year month ≤ 31 := by
  unfold daysInMonth
  split_ifs <;> decide

/-! ## Formats -/

/-- There are characters, so that numerals stand for them. -/
scoped instance neZero_points : NeZero 0x110000 := ⟨by decide⟩

/-- A class of characters; `anyDigit` is `\d`. -/
inductive CharClass
  | digits (lo hi : Nat)
  | anyDigit
  | space
deriving DecidableEq

/-- A directive of a format. -/
inductive Directive
  | year
  | month
  | day
  | hour
  | minute
  | second
deriving DecidableEq

open CharClass in
/-- The alternatives of the regular expression of a directive, in the order in which they are
tried. -/
def Directive.alternatives : Directive → List (List CharClass)
  | year => [[anyDigit, anyDigit, anyDigit, anyDigit]]
  | month => [[digits 1 1, digits 0 2], [digits 0 0, digits 1 9], [digits 1 9]]
  | day =>
    [[digits 3 3, digits 0 1], [digits 1 2, anyDigit], [digits 0 0, digits 1 9], [digits 1 9],
      [space, digits 1 9]]
  | hour => [[digits 2 2, digits 0 3], [digits 0 1, anyDigit], [anyDigit]]
  | minute => [[digits 0 5, anyDigit], [anyDigit]]
  | second => [[digits 6 6, digits 0 1], [digits 0 5, anyDigit], [anyDigit]]

/-- An element of a format: a directive, or a character that stands for itself. -/
inductive Element
  | field (d : Directive)
  | char (c : Fin 0x110000)
deriving DecidableEq

/-- The fields of a `struct_time`. -/
structure Fields where
  year : Nat
  month : Nat
  day : Nat
  hour : Nat
  minute : Nat
  second : Nat
deriving DecidableEq

/-- The fields that a format leaves out. -/
def absent : Fields := ⟨1900, 1, 1, 0, 0, 0⟩

def Fields.set (f : Fields) (n : Nat) : Directive → Fields
  | .year => { f with year := n }
  | .month => { f with month := n }
  | .day => { f with day := n }
  | .hour => { f with hour := n }
  | .minute => { f with minute := n }
  | .second => { f with second := n }

/-! ## Matching -/

section Matching

-- `wide` has the decimal digits outside ASCII
variable (wide : Fin 0x110000 → Option (Fin 10))

/-- The digit that a character of the class stands for; `int` skips white space. -/
def CharClass.value (c : Fin 0x110000) : CharClass → Option Nat
  | digits lo hi => if 48 + lo ≤ c.val ∧ c.val ≤ 48 + hi then some (c.val - 48) else none
  | anyDigit =>
    if 48 ≤ c.val ∧ c.val ≤ 57 then some (c.val - 48)
    else if c.val < 128 then none
    else (wide c).map Fin.val
  | space => if c = 32 then some 0 else none

/-- A sequence of classes, with the number read so far. -/
def matchClasses : List CharClass → Nat → Str → Option (Nat × Str)
  | [], n, s => some (n, s)
  | _ :: _, _, [] => none
  | k :: ks, n, c :: s =>
    match k.value wide c with
    | none => none
    | some d => matchClasses ks (10 * n + d) s

/-- The matches of a directive at the start of the string, with what they leave of it. -/
def matchField (d : Directive) (s : Str) : List (Nat × Str) :=
  d.alternatives.filterMap fun ks => matchClasses wide ks 0 s

/-- The matches of a format at the start of the string, in the order in which they are found. -/
def matchFormat : List Element → Fields → Str → List (Fields × Str)
  | [], f, s => [(f, s)]
  | .field d :: fmt, f, s =>
    (matchField wide d s).flatMap fun r => matchFormat fmt (f.set r.1 d) r.2
  | .char _ :: _, _, [] => []
  | .char c :: fmt, f, c' :: s => if c' = c then matchFormat fmt f s else []

/-- The fields of the first match, if it reaches the end. -/
def complete : List (Fields × Str) → Option Fields
  | (f, []) :: _ => some f
  | _ => none

/-- `datetime.strptime`. Without a year, February 29 passes the first checks of the library, and
then fails as a day of 1900. -/
def strptime (fmt : List Element) (s : Str) : Option DateTime :=
  (complete (matchFormat wide fmt absent s)).bind fun f =>
    mkDateTime f.year f.month f.day f.hour f.minute f.second

/-! ## Numbers that are written out -/

/-- An ASCII digit. -/
def digit (a : Fin 10) : Fin 0x110000 :=
  ⟨48 + a.val, Nat.lt_of_lt_of_le (Nat.add_lt_add_left a.isLt 48) (by decide)⟩

/-- The number of two digits. -/
def tens (a b : Fin 10) : Nat := 10 * a.val + b.val

/-- Two digits. -/
def two (a b : Fin 10) : Str := [digit a, digit b]

/-- An ASCII digit belongs to a class. -/
def CharClass.accepts (a : Fin 10) : CharClass → Bool
  | digits lo hi => decide (lo ≤ a.val ∧ a.val ≤ hi)
  | anyDigit => true
  | space => false

theorem value_digit (k : CharClass) (a : Fin 10) :
    k.value wide (digit a) = if k.accepts a then some a.val else none := by
  have ha := a.isLt
  cases k with
  | digits lo hi =>
    have hiff : (48 + lo ≤ 48 + a.val ∧ 48 + a.val ≤ 48 + hi) ↔ (lo ≤ a.val ∧ a.val ≤ hi) := by
      omega
    simp only [CharClass.value, CharClass.accepts, digit, hiff, decide_eq_true_eq,
      Nat.add_sub_cancel_left]
  | anyDigit =>
    have hdigit : 48 ≤ 48 + a.val ∧ 48 + a.val ≤ 57 := by omega
    simp [CharClass.value, CharClass.accepts, digit, hdigit]
  | space =>
    have hne : digit a ≠ 32 := by
      intro h
      have hval : 48 + a.val = 32 := congrArg Fin.val h
      omega
    simp [CharClass.value, CharClass.accepts, hne]

/-- What a sequence of at most two classes makes of two digits: the number, and how many
characters it takes. -/
def twoDigits (a b : Fin 10) : List CharClass → Option (Nat × Nat)
  | [k] => if k.accepts a then some (a.val, 1) else none
  | [k, l] => if k.accepts a && l.accepts b then some (tens a b, 2) else none
  | _ => none

theorem matchClasses_two (a b : Fin 10) (s : Str) {ks : List CharClass}
    (h : ks.length = 1 ∨ ks.length = 2) : matchClasses wide ks 0 (digit a :: digit b :: s) =
      (twoDigits a b ks).map fun r => (r.1, (digit a :: digit b :: s).drop r.2) := by
  match ks, h with
  | [k], _ =>
    simp only [matchClasses, value_digit, twoDigits]
    split <;> simp_all
  | [k, l], _ =>
    simp only [matchClasses, value_digit, twoDigits]
    cases k.accepts a <;> cases l.accepts b <;> simp [tens]

/-- What a directive accepts, written with two digits. -/
def Directive.accepts : Directive → Nat → Bool
  | year, _ => false
  | month, n => decide (1 ≤ n ∧ n ≤ 12)
  | day, n => decide (1 ≤ n ∧ n ≤ 31)
  | hour, n => decide (n ≤ 23)
  | minute, n => decide (n ≤ 59)
  | second, n => decide (n ≤ 61)

/-- Two digits are taken if the directive accepts them; otherwise at most the first one is. -/
theorem twoDigits_table (d : Directive) (hd : d ≠ .year) (a b : Fin 10) :
    ∃ one : Bool, d.alternatives.filterMap (twoDigits a b) =
      (if d.accepts (tens a b) then [(tens a b, 2)] else []) ++
        if one then [(a.val, 1)] else [] := by
  revert a b
  cases d with
  | year => exact absurd rfl hd
  | _ => decide

theorem matchField_two (d : Directive) (hd : d ≠ .year) (a b : Fin 10) (s : Str) :
    ∃ one : Bool, matchField wide d (digit a :: digit b :: s) =
      (if d.accepts (tens a b) then [(tens a b, s)] else []) ++
        if one then [(a.val, digit b :: s)] else [] := by
  obtain ⟨one, htable⟩ := twoDigits_table d hd a b
  have hlen : ∀ ks ∈ d.alternatives, ks.length = 1 ∨ ks.length = 2 := by
    cases d with
    | year => exact absurd rfl hd
    | _ => decide
  have hmap : matchField wide d (digit a :: digit b :: s) =
      (d.alternatives.filterMap (twoDigits a b)).map
        fun r => (r.1, (digit a :: digit b :: s).drop r.2) := by
    rw [matchField, List.map_filterMap]
    exact List.filterMap_congr fun ks hks => matchClasses_two wide a b s (hlen ks hks)
  refine ⟨one, ?_⟩
  rw [hmap, htable]
  cases d.accepts (tens a b) <;> cases one <;> rfl

/-- A hyphen or a colon. -/
def IsSeparator (c : Fin 0x110000) : Prop := c = 45 ∨ c = 58

theorem IsSeparator.ne_digit {c : Fin 0x110000} (h : IsSeparator c) (a : Fin 10) : digit a ≠ c := by
  intro he
  have hval : 48 + a.val = c.val := congrArg Fin.val he
  rcases h with rfl | rfl
  · have h45 : ((45 : Fin 0x110000) : Nat) = 45 := rfl
    omega
  · have h58 : ((58 : Fin 0x110000) : Nat) = 58 := rfl
    omega

variable (f : Fields) (fmt : List Element) (a b : Fin 10) (s : Str)

/-- A field of two digits is read where its separator follows, and nowhere else. -/
theorem matchFormat_two {d : Directive} (hd : d ≠ .year) {sep : Fin 0x110000}
    (hsep : IsSeparator sep) (c : Fin 0x110000) :
    matchFormat wide (.field d :: .char sep :: fmt) f (digit a :: digit b :: c :: s) =
      if c = sep ∧ d.accepts (tens a b) then matchFormat wide fmt (f.set (tens a b) d) s
      else [] := by
  obtain ⟨one, hfield⟩ := matchField_two wide d hd a b (c :: s)
  -- after one digit the other one stands in the place of the separator
  have hone : (if one then [(a.val, digit b :: c :: s)] else []).flatMap
      (fun r => matchFormat wide (.char sep :: fmt) (f.set r.1 d) r.2) = [] := by
    cases one with
    | false => rfl
    | true => simp [matchFormat, hsep.ne_digit b]
  rw [matchFormat, hfield, List.flatMap_append, hone, List.append_nil]
  cases d.accepts (tens a b) <;> by_cases hc : c = sep <;> simp [matchFormat, hc]

theorem matchFormat_sep {d : Directive} (hd : d ≠ .year) {sep : Fin 0x110000}
    (hsep : IsSeparator sep) :
    matchFormat wide (.field d :: .char sep :: fmt) f (two a b ++ sep :: s) =
      if d.accepts (tens a b) then matchFormat wide fmt (f.set (tens a b) d) s else [] := by
  have h := matchFormat_two wide f fmt a b s hd hsep sep
  simp only [true_and] at h
  exact h

/-- Four digits are a year. -/
theorem matchFormat_year (c d : Fin 10) :
    matchFormat wide (.field .year :: fmt) f (two a b ++ (two c d ++ s)) =
      matchFormat wide fmt (f.set (100 * tens a b + tens c d) .year) s := by
  have hclasses : matchField wide .year (two a b ++ (two c d ++ s)) =
      [(10 * (10 * (10 * (10 * 0 + a.val) + b.val) + c.val) + d.val, s)] := by
    simp [matchField, Directive.alternatives, two, matchClasses, value_digit, CharClass.accepts]
  have hnum : 10 * (10 * (10 * (10 * 0 + a.val) + b.val) + c.val) + d.val =
      100 * tens a b + tens c d := by
    unfold tens
    omega
  rw [matchFormat, hclasses, hnum, List.flatMap_singleton]

/-- No year begins with two digits and a separator. -/
theorem matchFormat_not_year {c : Fin 0x110000} (hc : IsSeparator c) :
    matchFormat wide (.field .year :: fmt) f (digit a :: digit b :: c :: s) = [] := by
  have hvalue : CharClass.anyDigit.value wide c = none := by
    rcases hc with rfl | rfl <;> rfl
  have hclasses : matchField wide .year (digit a :: digit b :: c :: s) = [] := by
    simp [matchField, Directive.alternatives, matchClasses, value_digit, CharClass.accepts, hvalue]
  rw [matchFormat, hclasses]
  rfl

/-- The seconds are read up to the end of the string. -/
theorem complete_second :
    complete (matchFormat wide [.field .second] f (two a b)) =
      if Directive.accepts .second (tens a b) then some (f.set (tens a b) .second) else none := by
  obtain ⟨one, hfield⟩ := matchField_two wide .second (by decide) a b []
  have htwo : matchFormat wide [.field .second] f (two a b) =
      (matchField wide .second (digit a :: digit b :: [])).flatMap fun r =>
        [(f.set r.1 .second, r.2)] := rfl
  rw [htwo, hfield]
  cases Directive.accepts .second (tens a b) <;> cases one <;> rfl

end Matching

end JautoProf.Strptime
