import HegelCpp.Engine.Calls
import HegelCpp.Logic.Calendar

/-! `dates()`, `times()` and `datetimes()`: the range they ask the engine for
and the text they make of the value it writes. The texts are ASCII, so that
`std::string` compares them as `String` does. -/
namespace Hegel.Generators

open Logic Calendar FixedWidth

variable {S V α β : Type}

/-- `hegel_date_t`. -/
structure HegelDate where
  year : Int32
  month : UInt8
  day : UInt8
  deriving DecidableEq, Repr

/-- `hegel_time_t`. -/
structure HegelTime where
  hour : UInt8
  minute : UInt8
  second : UInt8
  nanosecond : UInt32
  deriving DecidableEq, Repr

/-- `hegel_datetime_t`. -/
structure HegelDatetime where
  date : HegelDate
  time : HegelTime
  deriving DecidableEq, Repr

/-- The conversion `%0<width>d`. A sign takes one of the places. -/
def signedPadded (width : Nat) : Int → List Char
  | .ofNat n => padded width n
  | .negSucc n => '-' :: padded (width - 1) (n + 1)

/-- `std::snprintf` into a buffer of `size` characters, read up to the
terminator, which takes one of them. -/
def snprintf (size : Nat) (output : List Char) : String := String.ofList (output.take (size - 1))

/-- The output of `"%04d-%02u-%02u"`. -/
def HegelDate.output (d : HegelDate) : List Char :=
  signedPadded 4 d.year.toInt ++ '-' :: (padded 2 d.month.toNat ++ '-' :: padded 2 d.day.toNat)

/-- `format_date`. -/
def formatDate (d : HegelDate) : String := snprintf 16 d.output

def HegelTime.microsecond (t : HegelTime) : UInt32 := t.nanosecond / 1000

/-- The output of `"%02u:%02u:%02u"`. -/
def HegelTime.clock (t : HegelTime) : List Char :=
  padded 2 t.hour.toNat ++ ':' :: (padded 2 t.minute.toNat ++ ':' :: padded 2 t.second.toNat)

/-- The output of `"%02u:%02u:%02u.%06u"` or of the format without a fraction. -/
def HegelTime.output (t : HegelTime) : List Char :=
  if t.microsecond ≠ 0 then t.clock ++ '.' :: padded 6 t.microsecond.toNat else t.clock

/-- `format_time`. -/
def formatTime (t : HegelTime) : String := snprintf 24 t.output

def formatDatetime (dt : HegelDatetime) : String :=
  formatDate dt.date ++ "T" ++ formatTime dt.time

/-- One call that draws a value between two others, and the code's use of the
value. -/
structure BoundedDraw (V α : Type) where
  what : String
  minValue : V
  maxValue : V
  result : V → α

/-- The draw on a test-case handle. What the engine writes to the
out-parameter is read off its answer. -/
def BoundedDraw.run (draw : BoundedDraw V α) (out : Answer → V) : Client S α := do
  let answer ← engineCall draw.what
  pure (draw.result (out answer))

def BoundedDraw.map (f : α → β) (draw : BoundedDraw V α) : BoundedDraw V β :=
  { draw with result := fun value => f (draw.result value) }

/-- `draw_date`. -/
def drawDate : BoundedDraw HegelDate HegelDate where
  what := "hegel_generate_date"
  minValue := ⟨1, 1, 1⟩
  maxValue := ⟨9999, 12, 31⟩
  result value := value

/-- `draw_time`. -/
def drawTime : BoundedDraw HegelTime HegelTime where
  what := "hegel_generate_time"
  minValue := ⟨0, 0, 0, 0⟩
  maxValue := ⟨23, 59, 59, 999999999⟩
  result value := value

/-- `draw_datetime`. -/
def drawDatetime : BoundedDraw HegelDatetime HegelDatetime where
  what := "hegel_generate_datetime"
  minValue := ⟨⟨1, 1, 1⟩, ⟨0, 0, 0, 0⟩⟩
  maxValue := ⟨⟨9999, 12, 31⟩, ⟨23, 59, 59, 999999999⟩⟩
  result value := value

/-- `DatesGenerator::do_draw`. -/
def dates : BoundedDraw HegelDate String := drawDate.map formatDate

/-- `TimesGenerator::do_draw`. -/
def times : BoundedDraw HegelTime String := drawTime.map formatTime

/-- `DatetimesGenerator::do_draw`. -/
def datetimes : BoundedDraw HegelDatetime String := drawDatetime.map formatDatetime

example : formatDatetime ⟨⟨800, 2, 29⟩, ⟨7, 5, 0, 999⟩⟩ = "0800-02-29T07:05:00" := by decide

/-! The texts of the calendar's dates and times of day. -/

def dateText (d : Date) : List Char :=
  padded 4 d.year ++ '-' :: (padded 2 d.month ++ '-' :: padded 2 d.day)

def fraction (microsecond : Nat) : List Char :=
  if microsecond = 0 then [] else '.' :: padded 6 microsecond

def timeText (t : Time) : List Char :=
  padded 2 t.hour ++ ':' :: (padded 2 t.minute ++ ':' ::
    (padded 2 t.second ++ fraction t.microsecond))

def datetimeText (dt : Datetime) : List Char := dateText dt.date ++ 'T' :: timeText dt.time

/-- A letter of a shape stands for any digit, all else and the `T` for itself. -/
def FitsAt (place c : Char) : Prop :=
  if place.isAlpha ∧ place ≠ 'T' then c.isDigit = true else c = place

def Fits (shape : String) (text : List Char) : Prop := List.Forall₂ FitsAt shape.toList text

def dateShape : String := "YYYY-MM-DD"

def timeShape (t : Time) : String :=
  if t.microsecond = 0 then "HH:MM:SS" else "HH:MM:SS.ffffff"

def decodeDate : Decoder Char Date := fun text => do
  let year ← digits 4 text
  let dash ← Decoder.expect ['-'] year.2
  let month ← digits 2 dash.2
  let dash ← Decoder.expect ['-'] month.2
  let day ← digits 2 dash.2
  pure (⟨year.1, month.1, day.1⟩, day.2)

def decodeFraction : Decoder Char Nat
  | '.' :: text => digits 6 text
  | text => some (0, text)

def decodeTime : Decoder Char Time := fun text => do
  let hour ← digits 2 text
  let colon ← Decoder.expect [':'] hour.2
  let minute ← digits 2 colon.2
  let colon ← Decoder.expect [':'] minute.2
  let second ← digits 2 colon.2
  let microsecond ← decodeFraction second.2
  pure (⟨hour.1, minute.1, second.1, microsecond.1⟩, microsecond.2)

def decodeDatetime : Decoder Char Datetime := fun text => do
  let date ← decodeDate text
  let opened ← Decoder.expect ['T'] date.2
  let time ← decodeTime opened.2
  pure (⟨date.1, time.1⟩, time.2)

theorem expect_cons (c : Char) (rest : List Char) :
    Decoder.expect [c] (c :: rest) = some ((), rest) := Decoder.expect_append [c] rest

/-- A numeral at as many letters as it has digits. -/
theorem fits_padded (places : List Char) {rest more : List Char} {n : Nat}
    (hPos : 0 < places.length) (hLt : n < 10 ^ places.length)
    (hPlaces : places.all (fun place => place.isAlpha && place != 'T') = true)
    (hRest : List.Forall₂ FitsAt rest more) :
    List.Forall₂ FitsAt (places ++ rest) (padded places.length n ++ more) := by
  refine List.rel_append (List.forall₂_iff_zip.mpr ⟨(length_padded hPos hLt).symm, ?_⟩) hRest
  intro place c hMem
  have hPlace := List.all_eq_true.mp hPlaces place (List.of_mem_zip hMem).1
  rw [FitsAt, if_pos (by simpa using hPlace)]
  exact isDigit_of_mem_padded (List.of_mem_zip hMem).2

theorem fits_cons {c : Char} {rest more : List Char} (hFixed : ¬ (c.isAlpha ∧ c ≠ 'T'))
    (hRest : List.Forall₂ FitsAt rest more) : List.Forall₂ FitsAt (c :: rest) (c :: more) :=
  .cons (by rw [FitsAt, if_neg hFixed]) hRest

/-! Dates. -/
section Dates
variable {d d' : Date}

theorem fields_lt (h : d.Valid) : d.month < 10 ^ 2 ∧ d.day < 10 ^ 2 := by
  have hMonth := h.month_le
  have hDay := h.day_le.trans (daysInMonth_le _ _)
  omega

theorem dateText_fits (h : d.Valid) (hYear : d.year < 10 ^ 4) : Fits dateShape (dateText d) := by
  obtain ⟨hMonth, hDay⟩ := fields_lt h
  have hShape : dateShape.toList =
      ['Y', 'Y', 'Y', 'Y'] ++ '-' :: (['M', 'M'] ++ '-' :: (['D', 'D'] ++ [])) := by decide
  have hText : dateText d = padded 4 d.year ++ '-' :: (padded 2 d.month ++ '-' ::
      (padded 2 d.day ++ [])) := by
    rw [dateText, List.append_nil]
  rw [Fits, hShape, hText]
  refine fits_padded ['Y', 'Y', 'Y', 'Y'] (by decide) hYear (by decide) (fits_cons (by decide) ?_)
  refine fits_padded ['M', 'M'] (by decide) hMonth (by decide) (fits_cons (by decide) ?_)
  exact fits_padded ['D', 'D'] (by decide) hDay (by decide) .nil

theorem decodeDate_dateText (h : d.Valid) (hYear : d.year < 10 ^ 4) (rest : List Char) :
    decodeDate (dateText d ++ rest) = some (d, rest) := by
  obtain ⟨hMonth, hDay⟩ := fields_lt h
  simp [decodeDate, dateText, expect_cons, digits_padded (by decide : 0 < 4) hYear,
    digits_padded (by decide : 0 < 2) hMonth, digits_padded (by decide : 0 < 2) hDay]

theorem dateText_lt_iff (h : d.Valid) (hYear : d.year < 10 ^ 4) (h' : d'.Valid)
    (hYear' : d'.year < 10 ^ 4) : dateText d < dateText d' ↔ d.Before d' := by
  obtain ⟨hMonth, hDay⟩ := fields_lt h
  obtain ⟨hMonth', hDay'⟩ := fields_lt h'
  rw [dateText, dateText, padded_append_lt_iff (by decide) hYear hYear', List.cons_lt_cons_self,
    padded_append_lt_iff (by decide) hMonth hMonth', List.cons_lt_cons_self,
    padded_lt_iff (by decide) hDay hDay', Date.Before]

end Dates

/-! Times of day. -/
section Times
variable {t t' : Time}

theorem clock_lt (h : t.Valid) : t.hour < 10 ^ 2 ∧ t.minute < 10 ^ 2 ∧ t.second < 10 ^ 2 := by
  obtain ⟨hHour, hMinute, hSecond, _⟩ := h
  omega

theorem fraction_fits {n : Nat} (hLt : n < 10 ^ 6) :
    List.Forall₂ FitsAt (if n = 0 then [] else '.' :: ['f', 'f', 'f', 'f', 'f', 'f'])
      (fraction n) := by
  rw [fraction]
  split
  · exact .nil
  · rw [← List.append_nil (padded 6 n)]
    refine fits_cons (by decide) ?_
    exact fits_padded ['f', 'f', 'f', 'f', 'f', 'f'] (by decide) hLt (by decide) .nil

theorem timeText_fits (h : t.Valid) : Fits (timeShape t) (timeText t) := by
  obtain ⟨hHour, hMinute, hSecond⟩ := clock_lt h
  have hShape : (timeShape t).toList = ['H', 'H'] ++ ':' :: (['M', 'M'] ++ ':' :: (['S', 'S'] ++
      if t.microsecond = 0 then [] else '.' :: ['f', 'f', 'f', 'f', 'f', 'f'])) := by
    unfold timeShape
    split <;> decide
  rw [Fits, hShape, timeText]
  refine fits_padded ['H', 'H'] (by decide) hHour (by decide) (fits_cons (by decide) ?_)
  refine fits_padded ['M', 'M'] (by decide) hMinute (by decide) (fits_cons (by decide) ?_)
  exact fits_padded ['S', 'S'] (by decide) hSecond (by decide) (fraction_fits h.microsecond_lt)

theorem decodeFraction_fraction {n : Nat} (hLt : n < 10 ^ 6) :
    decodeFraction (fraction n) = some (n, []) := by
  rw [fraction]
  split
  · simp [decodeFraction, *]
  · rw [← List.append_nil (padded 6 n)]
    exact digits_padded (by decide) hLt []

theorem decodeTime_timeText (h : t.Valid) : decodeTime (timeText t) = some (t, []) := by
  obtain ⟨hHour, hMinute, hSecond⟩ := clock_lt h
  simp [decodeTime, timeText, expect_cons, digits_padded (by decide : 0 < 2) hHour,
    digits_padded (by decide : 0 < 2) hMinute, digits_padded (by decide : 0 < 2) hSecond,
    decodeFraction_fraction h.microsecond_lt]

/-- No fraction comes before every fraction. -/
theorem fraction_lt_iff {n m : Nat} (hLt : n < 10 ^ 6) (hLt' : m < 10 ^ 6) :
    fraction n < fraction m ↔ n < m := by
  unfold fraction
  split
  · rename_i hZero
    split
    · simp [*]
    · simp [*]
      omega
  · rename_i hSome
    split
    · simp [*]
    · rw [List.cons_lt_cons_self, padded_lt_iff (by decide) hLt hLt']

theorem timeText_lt_iff (h : t.Valid) (h' : t'.Valid) :
    timeText t < timeText t' ↔ t.Before t' := by
  obtain ⟨hHour, hMinute, hSecond⟩ := clock_lt h
  obtain ⟨hHour', hMinute', hSecond'⟩ := clock_lt h'
  rw [timeText, timeText, padded_append_lt_iff (by decide) hHour hHour', List.cons_lt_cons_self,
    padded_append_lt_iff (by decide) hMinute hMinute', List.cons_lt_cons_self,
    padded_append_lt_iff (by decide) hSecond hSecond',
    fraction_lt_iff h.microsecond_lt h'.microsecond_lt, Time.Before]

end Times

/-! Dates with a time of day. The texts of dates are equally long. -/
section Datetimes
variable {dt dt' : Datetime}

theorem length_dateText {d : Date} (h : d.Valid) (hYear : d.year < 10 ^ 4) :
    (dateText d).length = 10 := (List.Forall₂.length_eq (dateText_fits h hYear)).symm

theorem dateText_injOn : Set.InjOn dateText {d | d.Valid ∧ d.year < 10 ^ 4} := by
  intro d hd d' hd' hSame
  have hDecoded := decodeDate_dateText hd.1 hd.2 []
  rw [hSame, decodeDate_dateText hd'.1 hd'.2] at hDecoded
  exact (congrArg Prod.fst (Option.some.inj hDecoded)).symm

theorem datetimeText_fits (h : dt.Valid) (hYear : dt.date.year < 10 ^ 4) :
    Fits (dateShape ++ "T" ++ timeShape dt.time) (datetimeText dt) := by
  rw [Fits, String.toList_append, String.toList_append, List.append_assoc]
  exact List.rel_append (dateText_fits h.date hYear)
    (fits_cons (by decide) (timeText_fits h.time))

theorem decodeDatetime_datetimeText (h : dt.Valid) (hYear : dt.date.year < 10 ^ 4) :
    decodeDatetime (datetimeText dt) = some (dt, []) := by
  simp [decodeDatetime, datetimeText, decodeDate_dateText h.date hYear, expect_cons,
    decodeTime_timeText h.time]

theorem datetimeText_lt_iff (h : dt.Valid) (hYear : dt.date.year < 10 ^ 4) (h' : dt'.Valid)
    (hYear' : dt'.date.year < 10 ^ 4) : datetimeText dt < datetimeText dt' ↔ dt.Before dt' := by
  have hLength := (length_dateText h.date hYear).trans (length_dateText h'.date hYear').symm
  have hSame := dateText_injOn.eq_iff ⟨h.date, hYear⟩ ⟨h'.date, hYear'⟩
  rw [datetimeText, datetimeText, append_lt_append_iff hLength,
    dateText_lt_iff h.date hYear h'.date hYear', hSame, List.cons_lt_cons_self,
    timeText_lt_iff h.time h'.time, Datetime.Before]

end Datetimes

/-! What the engine writes. -/

def HegelDate.fields (d : HegelDate) : Date where
  year := d.year.toInt.toNat
  month := d.month.toNat
  day := d.day.toNat

/-- The fields with the nanoseconds cut down to microseconds. -/
def HegelTime.truncated (t : HegelTime) : Time where
  hour := t.hour.toNat
  minute := t.minute.toNat
  second := t.second.toNat
  microsecond := t.nanosecond.toNat / 1000

/-- A date of the calendar from 0001-01-01 to 9999-12-31. -/
structure DrawnDate extends HegelDate where
  year_pos : 1 ≤ year.toInt
  year_le : year.toInt ≤ 9999
  valid : toHegelDate.fields.Valid

/-- A time of day. -/
structure DrawnTime extends HegelTime where
  hour_lt : hour.toNat < 24
  minute_lt : minute.toNat < 60
  second_lt : second.toNat < 60
  nanosecond_le : nanosecond.toNat ≤ 999999999

structure DrawnDatetime where
  date : DrawnDate
  time : DrawnTime

namespace DrawnDate
variable (d : DrawnDate)

theorem year_lt : d.fields.year < 10 ^ 4 := by
  have hYear := d.year_le
  show d.year.toInt.toNat < 10 ^ 4
  omega

theorem output_eq : d.output = dateText d.fields := by
  have hYear : d.year.toInt = Int.ofNat d.fields.year :=
    (Int.toNat_of_nonneg (le_trans (by decide) d.year_pos)).symm
  rw [HegelDate.output, hYear]
  rfl

theorem toList_formatDate : (formatDate d.toHegelDate).toList = dateText d.fields := by
  have hFits : (dateText d.fields).length ≤ 16 - 1 := by
    rw [length_dateText d.valid d.year_lt]
    decide
  rw [formatDate, snprintf, String.toList_ofList, d.output_eq, List.take_of_length_le hFits]

end DrawnDate

namespace DrawnTime
variable (t : DrawnTime)

theorem valid : t.truncated.Valid where
  hour_lt := t.hour_lt
  minute_lt := t.minute_lt
  second_lt := t.second_lt
  microsecond_lt := by
    have hNanosecond := t.nanosecond_le
    show t.nanosecond.toNat / 1000 < 1000000
    omega

theorem output_eq : t.output = timeText t.truncated := by
  have hMicrosecond : t.microsecond.toNat = t.truncated.microsecond := UInt32.toNat_div _ _
  have hZero : t.microsecond = 0 ↔ t.truncated.microsecond = 0 := by
    rw [← hMicrosecond]
    exact UInt32.toNat_inj.symm
  rw [HegelTime.output, timeText, fraction, hMicrosecond]
  by_cases hNone : t.truncated.microsecond = 0
  · rw [if_neg (not_not.mpr (hZero.mpr hNone)), if_pos hNone, List.append_nil]
    rfl
  · rw [if_pos (mt hZero.mp hNone), if_neg hNone, HegelTime.clock]
    simp [HegelTime.truncated]

theorem toList_formatTime : (formatTime t.toHegelTime).toList = timeText t.truncated := by
  have hFits : (timeText t.truncated).length ≤ 24 - 1 := by
    rw [← List.Forall₂.length_eq (timeText_fits t.valid), timeShape]
    split <;> decide
  rw [formatTime, snprintf, String.toList_ofList, t.output_eq, List.take_of_length_le hFits]

end DrawnTime

namespace DrawnDatetime
variable (dt : DrawnDatetime)

def toHegelDatetime : HegelDatetime := ⟨dt.date.toHegelDate, dt.time.toHegelTime⟩

def truncated : Datetime := ⟨dt.date.fields, dt.time.truncated⟩

/-- The texts of the date and of the time before the buffers. -/
def output : List Char := dt.date.output ++ 'T' :: dt.time.output

theorem valid : dt.truncated.Valid := ⟨dt.date.valid, dt.time.valid⟩

theorem output_eq : dt.output = datetimeText dt.truncated := by
  rw [output, dt.date.output_eq, dt.time.output_eq]
  rfl

theorem toList_formatDatetime :
    (formatDatetime dt.toHegelDatetime).toList = datetimeText dt.truncated := by
  rw [formatDatetime, String.toList_append, String.toList_append]
  show (formatDate dt.date.toHegelDate).toList ++ "T".toList ++
    (formatTime dt.time.toHegelTime).toList = _
  rw [dt.date.toList_formatDate, dt.time.toList_formatTime, List.append_assoc]
  rfl

end DrawnDatetime

/-- The text of a value is the whole output of its format and has the shape of
the value. It decodes to the truncated fields, and two texts compare as the
instants of the truncated values do. -/
structure Iso8601 {V F : Type} (text : V → String) (output : V → List Char) (truncated : V → F)
    (shape : F → String) (decode : Decoder Char F) (instant : F → Nat) : Prop where
  whole : ∀ v, (text v).toList = output v
  fits : ∀ v, Fits (shape (truncated v)) (text v).toList
  decoded : ∀ v, decode (text v).toList = some (truncated v, [])
  lt_iff : ∀ v v', text v < text v' ↔ instant (truncated v) < instant (truncated v')
  eq_iff : ∀ v v', text v = text v' ↔ truncated v = truncated v'

section
variable {F : Type} {text : V → String} {output : V → List Char} {truncated : V → F}
  {shape : F → String} {decode : Decoder Char F} {instant : F → Nat}

/-- The whole follows from the text that the truncated fields have. -/
theorem iso8601_of_text {spec : F → List Char} (hText : ∀ v, (text v).toList = spec (truncated v))
    (hOutput : ∀ v, output v = spec (truncated v))
    (hFits : ∀ v, Fits (shape (truncated v)) (spec (truncated v)))
    (hDecoded : ∀ v, decode (spec (truncated v)) = some (truncated v, []))
    (hLt : ∀ v v', spec (truncated v) < spec (truncated v') ↔
      instant (truncated v) < instant (truncated v')) :
    Iso8601 text output truncated shape decode instant where
  whole v := (hText v).trans (hOutput v).symm
  fits v := hText v ▸ hFits v
  decoded v := hText v ▸ hDecoded v
  lt_iff v v' := by rw [String.lt_iff, hText, hText, hLt]
  eq_iff v v' := by
    rw [← String.toList_inj, hText, hText]
    constructor
    · intro hSame
      have hDecoded' := hDecoded v
      rw [hSame, hDecoded v'] at hDecoded'
      exact (congrArg Prod.fst (Option.some.inj hDecoded')).symm
    · exact congrArg spec

end

theorem iso8601_dates :
    Iso8601 (fun d : DrawnDate => dates.result d.toHegelDate) (fun d => d.output)
      (fun d => d.fields) (fun _ => dateShape) decodeDate Date.ordinal :=
  iso8601_of_text (fun d => d.toList_formatDate) (fun d => d.output_eq)
    (fun d => dateText_fits d.valid d.year_lt)
    (fun d => by simpa using decodeDate_dateText d.valid d.year_lt [])
    fun d d' => (dateText_lt_iff d.valid d.year_lt d'.valid d'.year_lt).trans
      (Date.ordinal_lt_iff d.valid d'.valid).symm

theorem iso8601_times :
    Iso8601 (fun t : DrawnTime => times.result t.toHegelTime) (fun t => t.output)
      (fun t => t.truncated) timeShape decodeTime Time.sinceMidnight :=
  iso8601_of_text (fun t => t.toList_formatTime) (fun t => t.output_eq)
    (fun t => timeText_fits t.valid) (fun t => decodeTime_timeText t.valid)
    fun t t' => (timeText_lt_iff t.valid t'.valid).trans
      (Time.sinceMidnight_lt_iff t.valid t'.valid).symm

theorem iso8601_datetimes :
    Iso8601 (fun dt : DrawnDatetime => datetimes.result dt.toHegelDatetime) (fun dt => dt.output)
      (fun dt => dt.truncated) (fun dt => dateShape ++ "T" ++ timeShape dt.time) decodeDatetime
      Datetime.instant :=
  iso8601_of_text (fun dt => dt.toList_formatDatetime) (fun dt => dt.output_eq)
    (fun dt => datetimeText_fits dt.valid dt.date.year_lt)
    (fun dt => decodeDatetime_datetimeText dt.valid dt.date.year_lt)
    fun dt dt' => (datetimeText_lt_iff dt.valid dt.date.year_lt dt'.valid dt'.date.year_lt).trans
      (Datetime.instant_lt_iff dt.valid dt'.valid).symm

/-- Every date, every time of day and every datetime has its own faithful text,
up to the nanoseconds below a microsecond. -/
theorem dates_times_datetimes_iso8601 :
    Iso8601 (fun d : DrawnDate => dates.result d.toHegelDate) (fun d => d.output)
      (fun d => d.fields) (fun _ => dateShape) decodeDate Date.ordinal ∧
    Iso8601 (fun t : DrawnTime => times.result t.toHegelTime) (fun t => t.output)
      (fun t => t.truncated) timeShape decodeTime Time.sinceMidnight ∧
    Iso8601 (fun dt : DrawnDatetime => datetimes.result dt.toHegelDatetime) (fun dt => dt.output)
      (fun dt => dt.truncated) (fun dt => dateShape ++ "T" ++ timeShape dt.time) decodeDatetime
      Datetime.instant :=
  ⟨iso8601_dates, iso8601_times, iso8601_datetimes⟩

/-- A leap day, a nanosecond before midnight. -/
example : ∃ dt : DrawnDatetime,
    dates.result dt.date.toHegelDate = "0296-02-29" ∧
    times.result dt.time.toHegelTime = "23:59:59.999999" ∧
    ((datetimes.run fun _ => dt.toHegelDatetime) 0
      { answers := [{}], memory := () : World Unit }).map Prod.fst =
        some (.ok "0296-02-29T23:59:59.999999") := by
  refine ⟨⟨⟨⟨296, 2, 29⟩, by decide, by decide, by decide, by decide, by decide, by decide⟩,
    ⟨23, 59, 59, 999999999⟩, by decide, by decide, by decide, by decide⟩, ?_⟩
  decide

end Hegel.Generators
