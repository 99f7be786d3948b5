import JautoProf.Lib.Strptime

/-!
# Time arguments (`time_util.py`)

`parse_time_arg` tries four formats and takes the fields that the format has not from today's
date. `strptime` checks the date before that, as one of 1900 where the year is missing.

Results:
1. `parse_time_exact`: a clock reading is parsed as the completed date and time, or rejected where
   there is none, unless it is February 29 without a year and this year has one, or `timestamp()`
   raises for the completed date. `leap_day_rejected`: a reading of the first kind.
-/

namespace JautoProf

open Utf8 Strptime

/-- An entry of `_DATETIME_FORMATS`. -/
structure DatetimeFormat where
  format : List Element
  fillYear : Bool
  fillMonth : Bool
  fillDay : Bool

/-- `"%H:%M:%S"`. -/
def timeFormat : List Element :=
  [.field .hour, .char 58, .field .minute, .char 58, .field .second]

/-- `"%d-%H:%M:%S"`. -/
def dayFormat : List Element := .field .day :: .char 45 :: timeFormat

/-- `"%m-%d-%H:%M:%S"`. -/
def monthFormat : List Element := .field .month :: .char 45 :: dayFormat

/-- `"%Y-%m-%d-%H:%M:%S"`. -/
def yearFormat : List Element := .field .year :: .char 45 :: monthFormat

/-- `_DATETIME_FORMATS`. -/
def datetimeFormats : List DatetimeFormat :=
  [⟨yearFormat, false, false, false⟩, ⟨monthFormat, true, false, false⟩,
    ⟨dayFormat, true, true, false⟩, ⟨timeFormat, true, true, true⟩]

/-- What `datetime.timestamp` raises for a local time at an end of the calendar, where the time in
UTC, or one a day away, is in no year that there is: `ValueError`, `OverflowError` or `OSError`. -/
inductive TimestampError
  | value
  | overflow
  | os
deriving DecidableEq

/-- The `ValueError` that shows the argument and the two forms that are expected, that of `replace`,
"day is out of range for month", and what `timestamp` raises. -/
inductive TimeArgError
  | cannotParse (s : Str)
  | dayOutOfRange
  | timestamp (e : TimestampError)
deriving DecidableEq

/-- What Python does: the decimal digits outside ASCII, `float` of a string, `time.time()` less an
offset, and `timestamp()` of a local date and time. -/
structure PyTime (F T : Type) where
  wide : Fin 0x110000 → Option (Fin 10)
  float : Str → Option F
  secondsAgo : F → T
  timestamp : DateTime → Except TimestampError T

variable {F T : Type} (py : PyTime F T) (today : Date)

/-- `dt.replace`, with the fields that are filled in from today's date. -/
def replaceAbsent (fmt : DatetimeFormat) (dt : DateTime) : Option DateTime :=
  (mkDate (if fmt.fillYear then today.year else dt.date.year)
    (if fmt.fillMonth then today.month else dt.date.month)
    (if fmt.fillDay then today.day else dt.date.day)).map fun d => ⟨d, dt.time⟩

/-- The loop over the formats. `replace` and `timestamp` are called outside of the `try`. -/
def tryFormats (s : Str) : List DatetimeFormat → Except TimeArgError T
  | [] => .error (.cannotParse s)
  | fmt :: fmts =>
    match strptime py.wide fmt.format s with
    | none => tryFormats s fmts
    | some dt =>
      match replaceAbsent today fmt dt with
      | none => .error .dayOutOfRange
      | some dt => (py.timestamp dt).mapError .timestamp

/-- `parse_time_arg`. -/
def parseTimeArg (s : Str) : Except TimeArgError T :=
  if 58 ∉ s then
    match py.float s with
    | none => .error (.cannotParse s)
    | some offset => .ok (py.secondsAgo offset)
  else tryFormats py today s datetimeFormats

/-! ## Clock readings -/

/-- A number of two digits, as it is written. -/
structure TwoDigits where
  high : Fin 10
  low : Fin 10
deriving DecidableEq

def TwoDigits.val (n : TwoDigits) : Nat := tens n.high n.low

def TwoDigits.text (n : TwoDigits) : Str := two n.high n.low

/-- The components before the time of day; a year has four digits. -/
inductive Leading
  | none
  | day (d : TwoDigits)
  | monthDay (m d : TwoDigits)
  | yearMonthDay (century year m d : TwoDigits)
deriving DecidableEq

/-- A string of the form `[yyyy-][mm-][dd-]hh:mm:ss`. -/
structure ClockReading where
  leading : Leading
  hour : TwoDigits
  minute : TwoDigits
  second : TwoDigits
deriving DecidableEq

namespace ClockReading

variable (r : ClockReading)

def timeText : Str := r.hour.text ++ 58 :: (r.minute.text ++ 58 :: r.second.text)

def text : Str :=
  match r.leading with
  | .none => r.timeText
  | .day d => d.text ++ 45 :: r.timeText
  | .monthDay m d => m.text ++ 45 :: (d.text ++ 45 :: r.timeText)
  | .yearMonthDay c y m d =>
    c.text ++ (y.text ++ 45 :: (m.text ++ 45 :: (d.text ++ 45 :: r.timeText)))

/-- A date with the time of the reading. -/
def on (year month day : Nat) : Option DateTime :=
  mkDateTime year month day r.hour.val r.minute.val r.second.val

/-- The date and time of the reading, completed from the left with today's date. -/
def completed : Option DateTime :=
  match r.leading with
  | .none => r.on today.year today.month today.day
  | .day d => r.on today.year today.month d.val
  | .monthDay m d => r.on today.year m.val d.val
  | .yearMonthDay c y m d => r.on (100 * c.val + y.val) m.val d.val

/-- A result is the timestamp of a date and time, or an error if there is no such date and time. -/
def IsResult (result : Except TimeArgError T) : Option DateTime → Prop
  | some dt => ∃ t, py.timestamp dt = .ok t ∧ result = .ok t
  | none => ∃ e, result = .error e

/-- The reading is parsed as the completed date and time, or rejected if there is none. -/
def ParsedAsCompleted : Prop := IsResult py (parseTimeArg py today r.text) (r.completed today)

/-- February 29 without a year, in a year that has it. -/
def IsLeapDay : Prop :=
  ∃ m d, r.leading = .monthDay m d ∧ m.val = 2 ∧ d.val = 29 ∧ isLeap today.year = true ∧
    r.hour.val < 24 ∧ r.minute.val < 60 ∧ r.second.val < 60

/-- `timestamp` raises for no date and time of an option. -/
def HasTimestamp (filled : Option DateTime) : Prop :=
  ∀ dt, filled = some dt → ∃ t, py.timestamp dt = .ok t

end ClockReading

/-! ## The formats on readings -/

theorem hyphen_separator : IsSeparator 45 := .inl rfl

theorem colon_separator : IsSeparator 58 := .inr rfl

section Formats

variable (wide : Fin 0x110000 → Option (Fin 10)) (f : Fields) (a b : Fin 10) (s : Str)
  {c : Fin 0x110000}

theorem timeFormat_nil (hc : c ≠ 58) :
    matchFormat wide timeFormat f (digit a :: digit b :: c :: s) = [] := by
  rw [timeFormat, matchFormat_two wide f _ a b s (by decide) colon_separator c,
    if_neg fun h => hc h.1]

theorem dayFormat_nil (hc : c ≠ 45) :
    matchFormat wide dayFormat f (digit a :: digit b :: c :: s) = [] := by
  rw [dayFormat, matchFormat_two wide f _ a b s (by decide) hyphen_separator c,
    if_neg fun h => hc h.1]

theorem monthFormat_nil (hc : c ≠ 45) :
    matchFormat wide monthFormat f (digit a :: digit b :: c :: s) = [] := by
  rw [monthFormat, matchFormat_two wide f _ a b s (by decide) hyphen_separator c,
    if_neg fun h => hc h.1]

theorem dayFormat_eq (d : TwoDigits) :
    matchFormat wide dayFormat f (d.text ++ 45 :: s) =
      if Directive.day.accepts d.val then matchFormat wide timeFormat (f.set d.val .day) s
      else [] :=
  matchFormat_sep wide f timeFormat d.high d.low s (by decide) hyphen_separator

theorem monthFormat_eq (m : TwoDigits) :
    matchFormat wide monthFormat f (m.text ++ 45 :: s) =
      if Directive.month.accepts m.val then matchFormat wide dayFormat (f.set m.val .month) s
      else [] :=
  matchFormat_sep wide f dayFormat m.high m.low s (by decide) hyphen_separator

end Formats

namespace ClockReading

variable (r : ClockReading) (wide : Fin 0x110000 → Option (Fin 10)) (f : Fields)

/-- The `datetime` that the fields make. -/
def madeOf (f : Fields) : Option DateTime :=
  mkDateTime f.year f.month f.day f.hour f.minute f.second

theorem on_eq_none {year month day : Nat}
    (h : mkDate year month day = none ∨
      ¬ (r.hour.val < 24 ∧ r.minute.val < 60 ∧ r.second.val < 60)) :
    r.on year month day = none := by
  unfold on mkDateTime
  rcases h with hdate | htime
  · rw [hdate]
    rfl
  · rw [mkTime, dif_neg htime]
    cases mkDate year month day <;> rfl

/-- The time of day is read as it is written, or there is no such time. -/
theorem read_time : (complete (matchFormat wide timeFormat f r.timeText)).bind madeOf =
    r.on f.year f.month f.day := by
  obtain ⟨leading, h, m, s⟩ := r
  have hhour : matchFormat wide timeFormat f (h.text ++ 58 :: (m.text ++ 58 :: s.text)) =
      if Directive.hour.accepts h.val then matchFormat wide
        [.field .minute, .char 58, .field .second] (f.set h.val .hour) (m.text ++ 58 :: s.text)
      else [] := matchFormat_sep wide f _ h.high h.low _ (by decide) colon_separator
  have hminute : matchFormat wide [.field .minute, .char 58, .field .second] (f.set h.val .hour)
      (m.text ++ 58 :: s.text) =
      if Directive.minute.accepts m.val then matchFormat wide [.field .second]
        ((f.set h.val .hour).set m.val .minute) s.text
      else [] := matchFormat_sep wide _ _ m.high m.low _ (by decide) colon_separator
  have hsecond : complete (matchFormat wide [.field .second]
      ((f.set h.val .hour).set m.val .minute) s.text) = _ := complete_second wide _ s.high s.low
  rw [timeText, hhour, hminute]
  simp only [Directive.accepts, decide_eq_true_eq] at hsecond ⊢
  by_cases hh : h.val ≤ 23
  · by_cases hm : m.val ≤ 59
    · rw [if_pos hh, if_pos hm, hsecond]
      split
      · rfl
      · next hs =>
        refine (on_eq_none _ (.inr ?_)).symm
        exact fun htime => hs (Nat.le_trans (Nat.le_of_lt htime.2.2) (by decide))
    · rw [if_pos hh, if_neg hm]
      exact (on_eq_none _ (.inr fun htime => hm (Nat.le_of_lt_succ htime.2.1))).symm
  · rw [if_neg hh]
    exact (on_eq_none _ (.inr fun htime => hh (Nat.le_of_lt_succ htime.1))).symm

theorem mkDate_eq_none {year month day : Nat}
    (h : ¬ ((1 ≤ month ∧ month ≤ 12) ∧ 1 ≤ day ∧ day ≤ daysInMonth year month)) :
    mkDate year month day = none :=
  dif_neg fun hvalid => h hvalid.2

/-- The day as well; one that the format does not take is in no month. -/
theorem read_day (d : TwoDigits) :
    (complete (matchFormat wide dayFormat f (d.text ++ 45 :: r.timeText))).bind madeOf =
      r.on f.year f.month d.val := by
  rw [dayFormat_eq]
  split
  · exact r.read_time wide (f.set d.val .day)
  · next hd =>
    refine (on_eq_none _ (.inl (mkDate_eq_none fun h => hd ?_))).symm
    exact decide_eq_true ⟨h.2.1, Nat.le_trans h.2.2 (daysInMonth_le _ _)⟩

theorem read_month (m d : TwoDigits) :
    (complete (matchFormat wide monthFormat f (m.text ++ 45 :: (d.text ++ 45 :: r.timeText)))).bind
      madeOf = r.on f.year m.val d.val := by
  rw [monthFormat_eq]
  split
  · exact r.read_day wide (f.set m.val .month) d
  · next hm => exact (on_eq_none _ (.inl (mkDate_eq_none fun h => hm (decide_eq_true h.1)))).symm

theorem read_year (c y m d : TwoDigits) :
    (complete (matchFormat wide yearFormat f
      (c.text ++ (y.text ++ 45 :: (m.text ++ 45 :: (d.text ++ 45 :: r.timeText)))))).bind madeOf =
      r.on (100 * c.val + y.val) m.val d.val := by
  have hyear := matchFormat_year wide f (.char 45 :: monthFormat) c.high c.low
    (45 :: (m.text ++ 45 :: (d.text ++ 45 :: r.timeText))) y.high y.low
  have hyear' : matchFormat wide yearFormat f
      (c.text ++ (y.text ++ 45 :: (m.text ++ 45 :: (d.text ++ 45 :: r.timeText)))) =
      matchFormat wide monthFormat (f.set (100 * c.val + y.val) .year)
        (m.text ++ 45 :: (d.text ++ 45 :: r.timeText)) := hyear
  rw [hyear']
  exact r.read_month wide (f.set (100 * c.val + y.val) .year) m d

/-! ## The loop on readings -/

theorem on_eq_none_iff {year month day : Nat} : r.on year month day = none ↔
    ¬ (((1 ≤ year ∧ year ≤ 9999) ∧ (1 ≤ month ∧ month ≤ 12) ∧
        1 ≤ day ∧ day ≤ daysInMonth year month) ∧
      r.hour.val < 24 ∧ r.minute.val < 60 ∧ r.second.val < 60) := by
  constructor
  · rintro h ⟨hdate, htime⟩
    rw [on, mkDateTime, mkDate, dif_pos hdate, mkTime, dif_pos htime] at h
    cases h
  · intro h
    by_cases htime : r.hour.val < 24 ∧ r.minute.val < 60 ∧ r.second.val < 60
    · exact on_eq_none r (.inl (dif_neg fun hdate => h ⟨hdate, htime⟩))
    · exact on_eq_none r (.inr htime)

/-- After `strptime` the time of the reading goes with the date that is filled in. -/
theorem replaceAbsent_on (fmt : DatetimeFormat) {year month day : Nat} {dt : DateTime}
    (h : r.on year month day = some dt) : replaceAbsent today fmt dt =
      r.on (if fmt.fillYear then today.year else year)
        (if fmt.fillMonth then today.month else month)
        (if fmt.fillDay then today.day else day) := by
  unfold on mkDateTime at h
  obtain ⟨date, hdate, h⟩ := Option.bind_eq_some_iff.mp h
  obtain ⟨time, htime, rfl⟩ := Option.map_eq_some_iff.mp h
  unfold mkDate at hdate
  split at hdate
  · cases hdate
    rw [replaceAbsent, on, mkDateTime, htime]
    cases mkDate _ _ _ <;> rfl
  · cases hdate

theorem tryFormats_nil {s : Str} {l : List DatetimeFormat}
    (h : ∀ x ∈ l, strptime py.wide x.format s = none) :
    tryFormats py today s l = .error (.cannotParse s) := by
  induction l with
  | nil => rfl
  | cons x l ih =>
    rw [tryFormats, h x List.mem_cons_self]
    exact ih fun y hy => h y (List.mem_cons_of_mem x hy)

theorem tryFormats_append {s : Str} {pre : List DatetimeFormat} (post : List DatetimeFormat)
    (h : ∀ x ∈ pre, strptime py.wide x.format s = none) :
    tryFormats py today s (pre ++ post) = tryFormats py today s post := by
  induction pre with
  | nil => rfl
  | cons x l ih =>
    rw [List.cons_append, tryFormats, h x List.mem_cons_self]
    exact ih fun y hy => h y (List.mem_cons_of_mem x hy)

/-- The timestamp of a date and time is returned unless there is none. -/
theorem isResult_timestamp (dt : DateTime) :
    IsResult py ((py.timestamp dt).mapError .timestamp) (some dt) ↔
      HasTimestamp py (some dt) := by
  unfold IsResult HasTimestamp
  simp only [Option.some.injEq, forall_eq']
  constructor
  · rintro ⟨t, ht, -⟩
    exact ⟨t, ht⟩
  · rintro ⟨t, ht⟩
    refine ⟨t, ht, ?_⟩
    rw [ht]
    rfl

/-- Where one format alone reads the string, the result is what is filled in, unless the date
passes only then or has no timestamp. -/
theorem tryFormats_on {s : Str} (pre : List DatetimeFormat) (fmt : DatetimeFormat)
    (post : List DatetimeFormat) {year month day : Nat}
    (hpre : ∀ x ∈ pre, strptime py.wide x.format s = none)
    (hpost : ∀ x ∈ post, strptime py.wide x.format s = none)
    (h : strptime py.wide fmt.format s = r.on year month day) {filled : Option DateTime}
    (hfilled : r.on (if fmt.fillYear then today.year else year)
      (if fmt.fillMonth then today.month else month)
      (if fmt.fillDay then today.day else day) = filled) :
    IsResult py (tryFormats py today s (pre ++ fmt :: post)) filled ↔
      (r.on year month day = none → filled = none) ∧ HasTimestamp py filled := by
  rw [tryFormats_append py today _ hpre, tryFormats, h]
  cases hon : r.on year month day with
  | none =>
    simp only [true_implies]
    rw [tryFormats_nil py today hpost]
    cases filled with
    | none => exact iff_of_true ⟨_, rfl⟩ ⟨rfl, fun dt h => nomatch h⟩
    | some dt =>
      refine iff_of_false ?_ fun hboth => nomatch hboth.1
      rintro ⟨t, -, he⟩
      cases he
  | some dt =>
    simp only [reduceCtorEq, false_implies, true_and]
    rw [r.replaceAbsent_on today fmt hon, hfilled]
    cases filled with
    | none => exact iff_of_true ⟨_, rfl⟩ fun dt h => nomatch h
    | some dt' => exact isResult_timestamp py dt'

/-! ## Each form of a reading -/

/-- The colon is seen. -/
theorem parseTimeArg_text :
    parseTimeArg py today r.text = tryFormats py today r.text datetimeFormats := by
  have hcolon : 58 ∈ r.text := by
    unfold text timeText
    cases r.leading <;> simp
  rw [parseTimeArg, if_neg (not_not.mpr hcolon)]

theorem strptime_nil {fmt : List Element} {s : Str} (h : matchFormat wide fmt absent s = []) :
    strptime wide fmt s = none := by
  rw [strptime, h]
  rfl

variable {r}

theorem parsed_none (h : r.leading = .none) :
    ParsedAsCompleted py today r ↔ (r.on 1900 1 1 = none → r.completed today = none)  ∧
      HasTimestamp py (r.completed today) := by
  have htext : r.text = r.timeText := by rw [text, h]
  unfold ParsedAsCompleted
  rw [parseTimeArg_text, htext]
  refine r.tryFormats_on py today [⟨yearFormat, false, false, false⟩,
    ⟨monthFormat, true, false, false⟩, ⟨dayFormat, true, true, false⟩]
    ⟨timeFormat, true, true, true⟩ [] ?_ (fun _ h => nomatch h) (r.read_time py.wide absent) ?_
  · simp only [List.forall_mem_cons]
    refine ⟨?_, ?_, ?_, fun _ h => nomatch h⟩
    · exact strptime_nil _ (matchFormat_not_year _ _ _ _ _ _ colon_separator)
    · exact strptime_nil _ (monthFormat_nil _ _ _ _ _ (by decide))
    · exact strptime_nil _ (dayFormat_nil _ _ _ _ _ (by decide))
  · rw [completed, h]
    rfl

theorem parsed_day {d : TwoDigits} (h : r.leading = .day d) :
    ParsedAsCompleted py today r ↔ (r.on 1900 1 d.val = none → r.completed today = none)  ∧
      HasTimestamp py (r.completed today) := by
  have htext : r.text = d.text ++ 45 :: r.timeText := by rw [text, h]
  unfold ParsedAsCompleted
  rw [parseTimeArg_text, htext]
  refine r.tryFormats_on py today [⟨yearFormat, false, false, false⟩,
    ⟨monthFormat, true, false, false⟩] ⟨dayFormat, true, true, false⟩
    [⟨timeFormat, true, true, true⟩] ?_ ?_ (r.read_day py.wide absent d) ?_
  · simp only [List.forall_mem_cons]
    refine ⟨?_, ?_, fun _ h => nomatch h⟩
    · exact strptime_nil _ (matchFormat_not_year _ _ _ _ _ _ hyphen_separator)
    · -- the day is taken for a month, and then no hyphen follows the hour
      refine strptime_nil _ ?_
      rw [monthFormat_eq]
      split
      · exact dayFormat_nil _ _ _ _ _ (by decide)
      · rfl
  · simp only [List.forall_mem_singleton]
    exact strptime_nil _ (timeFormat_nil _ _ _ _ _ (by decide))
  · rw [completed, h]
    rfl

theorem parsed_monthDay {m d : TwoDigits} (h : r.leading = .monthDay m d) :
    ParsedAsCompleted py today r ↔ (r.on 1900 m.val d.val = none → r.completed today = none)  ∧
      HasTimestamp py (r.completed today) := by
  have htext : r.text = m.text ++ 45 :: (d.text ++ 45 :: r.timeText) := by rw [text, h]
  unfold ParsedAsCompleted
  rw [parseTimeArg_text, htext]
  refine r.tryFormats_on py today [⟨yearFormat, false, false, false⟩]
    ⟨monthFormat, true, false, false⟩
    [⟨dayFormat, true, true, false⟩, ⟨timeFormat, true, true, true⟩] ?_ ?_
    (r.read_month py.wide absent m d) ?_
  · simp only [List.forall_mem_singleton]
    exact strptime_nil _ (matchFormat_not_year _ _ _ _ _ _ hyphen_separator)
  · simp only [List.forall_mem_cons]
    refine ⟨?_, ?_, fun _ h => nomatch h⟩
    · -- the month is taken for a day, and then no colon follows the day
      refine strptime_nil _ ?_
      rw [dayFormat_eq]
      split
      · exact timeFormat_nil _ _ _ _ _ (by decide)
      · rfl
    · exact strptime_nil _ (timeFormat_nil _ _ _ _ _ (by decide))
  · rw [completed, h]
    rfl

theorem parsed_yearMonthDay {c y m d : TwoDigits} (h : r.leading = .yearMonthDay c y m d) :
    ParsedAsCompleted py today r ↔
      (r.on (100 * c.val + y.val) m.val d.val = none → r.completed today = none) ∧
        HasTimestamp py (r.completed today) := by
  have htext : r.text =
      c.text ++ (y.text ++ 45 :: (m.text ++ 45 :: (d.text ++ 45 :: r.timeText))) := by rw [text, h]
  unfold ParsedAsCompleted
  rw [parseTimeArg_text, htext]
  refine r.tryFormats_on py today [] ⟨yearFormat, false, false, false⟩
    [⟨monthFormat, true, false, false⟩, ⟨dayFormat, true, true, false⟩,
      ⟨timeFormat, true, true, true⟩] (fun _ h => nomatch h) ?_
    (r.read_year py.wide absent c y m d) ?_
  · -- after two digits of the year comes a third one
    have h45 := hyphen_separator.ne_digit y.high
    have h58 := colon_separator.ne_digit y.high
    simp only [List.forall_mem_cons]
    refine ⟨?_, ?_, ?_, fun _ h => nomatch h⟩
    · exact strptime_nil _ (monthFormat_nil _ _ _ _ _ h45)
    · exact strptime_nil _ (dayFormat_nil _ _ _ _ _ h45)
    · exact strptime_nil _ (timeFormat_nil _ _ _ _ _ h58)
  · rw [completed, h]
    rfl

end ClockReading

/-! ## Leap days -/

/-- A day that its year has and 1900 has not is February 29. -/
theorem day_lost_iff {year month day : Nat} (h : 1 ≤ day) :
    (day ≤ daysInMonth year month ∧ ¬ day ≤ daysInMonth 1900 month) ↔
      month = 2 ∧ day = 29 ∧ isLeap year = true := by
  have h1900 : isLeap 1900 = false := by decide
  unfold daysInMonth
  rw [h1900]
  by_cases hm : month = 2
  · cases isLeap year with
    | false => simp [hm]
    | true =>
      simp only [hm, if_true, Bool.false_eq_true, if_false, true_and, and_true]
      omega
  · simp [hm]

open ClockReading in
/-- For every date of today and every string of the form `[yyyy-][mm-][dd-]hh:mm:ss`: that it is
parsed as the completed date and time, and rejected if there is none, holds exactly if it is not
February 29 without a year, in a year that has one, and `timestamp` does not raise for the
completed date and time. -/
theorem parse_time_exact (py : PyTime F T) (today : Date) (r : ClockReading) :
    ParsedAsCompleted py today r ↔
      ¬ IsLeapDay today r ∧ ∀ dt, r.completed today = some dt → ∃ t, py.timestamp dt = .ok t := by
  -- without a month and day the reading is no leap day
  have hother : (∀ m d, r.leading ≠ .monthDay m d) → ¬ IsLeapDay today r :=
    fun hne ⟨m, d, hl, _⟩ => hne m d hl
  cases hl : r.leading with
  | none =>
    have hno := hother fun m d h => by cases hl.symm.trans h
    refine (parsed_none py today hl).trans (and_congr (iff_of_true ?_ hno) Iff.rfl)
    rw [completed, hl, on_eq_none_iff, on_eq_none_iff]
    exact fun h hvalid => h ⟨by decide, hvalid.2⟩
  | day d =>
    have hno := hother fun m d h => by cases hl.symm.trans h
    refine (parsed_day py today hl).trans (and_congr (iff_of_true ?_ hno) Iff.rfl)
    rw [completed, hl, on_eq_none_iff, on_eq_none_iff]
    rintro h ⟨⟨-, -, hday⟩, htime⟩
    -- January has every day that a month has
    exact h ⟨⟨by decide, by decide, hday.1, Nat.le_trans hday.2 (daysInMonth_le _ _)⟩, htime⟩
  | monthDay m d =>
    refine (parsed_monthDay py today hl).trans (and_congr ?_ Iff.rfl)
    rw [completed, hl, on_eq_none_iff, on_eq_none_iff]
    constructor
    · rintro h ⟨m', d', hl', hm, hd, hleap, htime⟩
      cases hl.symm.trans hl'
      obtain ⟨hle, hlost⟩ := (day_lost_iff (by omega)).mpr ⟨hm, hd, hleap⟩
      refine h (fun hvalid => hlost hvalid.1.2.2.2) ⟨⟨today.year_valid, ?_, ?_⟩, htime⟩
      · omega
      · exact ⟨by omega, hle⟩
    · rintro hnot h ⟨⟨-, hmonth, hday⟩, htime⟩
      refine hnot ⟨m, d, hl, ?_⟩
      have hlost : ¬ d.val ≤ daysInMonth 1900 m.val := fun hle =>
        h ⟨⟨by decide, hmonth, hday.1, hle⟩, htime⟩
      obtain ⟨hm, hd, hleap⟩ := (day_lost_iff hday.1).mp ⟨hday.2, hlost⟩
      exact ⟨hm, hd, hleap, htime⟩
  | yearMonthDay c y m d =>
    refine (parsed_yearMonthDay py today hl).trans
      (and_congr (iff_of_true ?_ (hother fun m d h => by cases hl.symm.trans h)) Iff.rfl)
    rw [completed, hl]
    exact id

/-- A day in a leap year. -/
def newYear2024 : Date := ⟨2024, 1, 1, by decide, by decide, by decide⟩

/-- The reading `02-29-10:00:00`. -/
def leapDayReading : ClockReading := ⟨.monthDay ⟨0, 2⟩ ⟨2, 9⟩, ⟨1, 0⟩, ⟨0, 0⟩, ⟨0, 0⟩⟩

/-- Python without digits outside ASCII, without numbers, and with the date and time as the
timestamp, which the first day of the calendar has not. -/
def plainPython : PyTime Unit (Option DateTime) :=
  ⟨fun _ => none, fun _ => none, fun _ => none, fun dt =>
    if dt.date.year = 1 ∧ dt.date.month = 1 ∧ dt.date.day = 1 then .error .value
    else .ok (some dt)⟩

/-- February 29, 2024 is rejected. -/
theorem leap_day_rejected : ¬ leapDayReading.ParsedAsCompleted plainPython newYear2024 := by
  intro h
  have hcompleted : leapDayReading.completed newYear2024 =
      some ⟨⟨2024, 2, 29, by decide, by decide, by decide⟩, ⟨10, 0, 0, by decide⟩⟩ := rfl
  have hrejected : parseTimeArg plainPython newYear2024 leapDayReading.text =
      .error (.cannotParse leapDayReading.text) := rfl
  rw [ClockReading.ParsedAsCompleted, hcompleted, hrejected] at h
  obtain ⟨t, -, he⟩ := h
  cases he

/-- The reading `0001-01-01-00:00:00`. -/
def firstDayReading : ClockReading :=
  ⟨.yearMonthDay ⟨0, 0⟩ ⟨0, 1⟩ ⟨0, 1⟩ ⟨0, 1⟩, ⟨0, 0⟩, ⟨0, 0⟩, ⟨0, 0⟩⟩

-- a date that passes every format and has no timestamp
example : parseTimeArg plainPython newYear2024 firstDayReading.text =
    .error (.timestamp .value) := rfl

end JautoProf
