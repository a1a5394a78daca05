import LearningProjects.Calendar
import LearningProjects.Truncate

/-! # Describing dates

`clearDescribe` compares a date with the start of today: it converts the seconds
between them to an `Int32` first, and from there goes by their absolute value.
`timeSpaceOfCurrent` gives the age of a date in hours or days. Dates are exact
numbers of seconds, in a calendar of a fixed zone.
-/

namespace LearningProjects.QuickUI.DateEx

open Truncate

/-- The text `word + self.format(dateFormat)`. The formatter is not part of this. -/
structure DateText where
  word : String
  dateFormat : String
  deriving DecidableEq, Repr

/-- A formatted date, `"\(count)天前"` or `"\(count)小时前"`. -/
inductive TimeSpace where
  | formatted (dateFormat : String)
  | days (count : Int)
  | hours (count : Int)
  deriving DecidableEq, Repr

/-- `Date.init?(time:)`. `timeInterval` is the conversion of a string to a number. -/
def ofTime (timeInterval : String → Option Rat) (stamp : Option String) : Option Rat :=
  (timeInterval (stamp.getD "")).map (· / 1000)

variable (calendar : Calendar)

/-- `none` where the program stops. The start of today is what the formatter makes of
    today's date at 00:00. -/
def clearDescribe (current date : Rat) : Option DateText := do
  let currentDate := calendar.startOfDay current
  let second ← toInt 32 (currentDate - date)
  let today ← if date > currentDate then
      (abs 32 second).map fun distance => decide (distance < 60 * 60 * 24)
    else some false
  if today then some ⟨"今天 ", "HH:mm"⟩
  else
    let distance ← abs 32 second
    if distance < 60 * 60 * 24 then
      some ⟨if second < 0 then "明天 " else "昨天 ", "HH:mm"⟩
    else if distance < 60 * 60 * 24 * 2 then
      some ⟨if second < 0 then "后天 " else "前天 ", "HH:mm"⟩
    else if calendar.year date = calendar.year currentDate ∧ second > 0 then
      some ⟨"", "MM/dd HH:mm"⟩
    else some ⟨"", "yyyy/MM/dd HH:mm"⟩

def timeSpaceOfCurrent (currentDate date : Rat) : Option TimeSpace :=
  let timeInterval := currentDate - date
  if calendar.year date = calendar.year currentDate then
    if timeInterval > 30 * 24 * 60 * 60 then some (.formatted "MM月dd日")
    else if timeInterval > 24 * 60 * 60 then
      (toInt 64 (timeInterval / 24 / 60 / 60)).map .days
    else do
      let hours ← toInt 64 (timeInterval / 60 / 60)
      let seconds ← toInt 64 timeInterval
      return .hours (if seconds.tmod 360 > 0 then hours + 1 else hours)
  else some (.formatted "yyyy年MM月dd日")

/-! ## What the texts should say -/

/-- The word for a day at some distance from today. -/
def dayWord (d : Int) : String :=
  if d = 0 then "今天 "
  else if d = 1 then "明天 "
  else if d = -1 then "昨天 "
  else if d = 2 then "后天 "
  else if d = -2 then "前天 "
  else ""

/-- The text names the day by its word, or by its date. -/
structure Names (current date : Rat) (text : DateText) : Prop where
  word : text.word = dayWord (calendar.day date - calendar.day current)
  form : dayWord (calendar.day date - calendar.day current) = "" → text.dateFormat =
    if calendar.year date = calendar.year current ∧ calendar.day date < calendar.day current then
      "MM/dd HH:mm" else "yyyy/MM/dd HH:mm"

/-- Seconds since today began. -/
def sinceToday (current date : Rat) : Rat := date - calendar.startOfDay current

/-- In reach, neither tomorrow nor the day after, and not when one of the last three
    days began. -/
structure Nameable (current date : Rat) : Prop where
  inReach : |sinceToday calendar current date| < 2 ^ 31
  notTomorrow : calendar.day date - calendar.day current ≠ 1
  notAfterTomorrow : calendar.day date - calendar.day current ≠ 2
  today : sinceToday calendar current date ≠ 0
  yesterday : sinceToday calendar current date ≠ -86400
  beforeYesterday : sinceToday calendar current date ≠ -172800

variable {calendar} {current date : Rat}

/-- What is compared with what, where the program does not stop. -/
def described (x : Rat) (sameYear : Prop) [Decidable sameYear] : DateText :=
  if |x| < 86400 then ⟨if 0 < x then "今天 " else "昨天 ", "HH:mm"⟩
  else if |x| < 172800 then ⟨if 0 < x then "后天 " else "前天 ", "HH:mm"⟩
  else if sameYear ∧ x < 0 then ⟨"", "MM/dd HH:mm"⟩
  else ⟨"", "yyyy/MM/dd HH:mm"⟩

theorem clearDescribe_eq (inReach : |sinceToday calendar current date| < 2 ^ 31) :
    clearDescribe calendar current date = some (described (sinceToday calendar current date)
      (calendar.year date = calendar.year current)) := by
  have flip : calendar.startOfDay current - date = -sinceToday calendar current date := by
    rw [sinceToday, neg_sub]
  have today : date > calendar.startOfDay current ↔ 0 < sinceToday calendar current date :=
    sub_pos.symm
  have inside : |-sinceToday calendar current date| < 2 ^ (32 - 1) := by rwa [abs_neg]
  simp only [clearDescribe, flip, today, toInt_of_abs_lt inside, Calendar.year_startOfDay,
    abs_of_abs_lt inside, Option.bind_eq_bind, Option.bind_some, Option.map_some]
  generalize sinceToday calendar current date = x
  have day : |truncate (-x)| < 60 * 60 * 24 ↔ |x| < 86400 := by
    rw [abs_truncate_lt_iff, abs_neg]
    norm_num
  have twoDays : |truncate (-x)| < 60 * 60 * 24 * 2 ↔ |x| < 172800 := by
    rw [abs_truncate_lt_iff, abs_neg]
    norm_num
  simp only [day, twoDays, described]
  by_cases later : 0 < x
  · by_cases near : |x| < 86400
    · simp [later, near]
    · rw [abs_of_pos later] at near
      have second : truncate (-x) < 0 := (truncate_neg_iff _).mpr (by linarith)
      simp [later, near, second, second.not_gt, later.not_gt, abs_of_pos later, apply_ite some]
  · have nonneg : 0 ≤ -x := by linarith
    have second := truncate_nonneg nonneg
    by_cases near : |x| < 86400
    · simp [later, near, second.not_gt]
    · rw [abs_of_nonpos (not_lt.mp later)] at near
      have before : x < 0 := by linarith
      have positive : 0 < truncate (-x) := (truncate_pos_iff _).mpr (by linarith)
      simp [later, near, second.not_gt, before, positive, abs_of_neg before, apply_ite some]

theorem clearDescribe_stops (outOfReach : 2 ^ 31 ≤ |sinceToday calendar current date|) :
    clearDescribe calendar current date = none := by
  have flip : calendar.startOfDay current - date = -sinceToday calendar current date := by
    rw [sinceToday, neg_sub]
  have outside : 2 ^ (32 - 1) ≤ |calendar.startOfDay current - date| := by rwa [flip, abs_neg]
  have stops := abs_toInt_of_le_abs outside
  simp only [clearDescribe, Option.bind_eq_bind]
  cases converted : toInt 32 (calendar.startOfDay current - date) with
  | none => rfl
  | some second =>
      rw [converted, Option.bind_some] at stops
      simp only [Option.bind_some, stops, Option.map_none]
      split <;> rfl

theorem le_days_iff (calendar : Calendar) (current date : Rat) (k : Int) :
    k ≤ calendar.day date - calendar.day current ↔ k * 86400 ≤ sinceToday calendar current date :=
  Calendar.le_day_sub_iff current date k

theorem dayWord_far {d : Int} (far : d < -2 ∨ 2 < d) : dayWord d = "" := by
  unfold dayWord
  repeat rw [if_neg (by omega)]

section Cascade

variable {d : Int} {x : Rat} {sameYear : Prop} [Decidable sameYear]

theorem described_near (near : |x| < 86400) :
    described x sameYear = ⟨if 0 < x then "今天 " else "昨天 ", "HH:mm"⟩ := if_pos near

theorem described_far (far : 86400 ≤ |x|) (near : |x| < 172800) :
    described x sameYear = ⟨if 0 < x then "后天 " else "前天 ", "HH:mm"⟩ := by
  rw [described, if_neg (not_lt.mpr far), if_pos near]

theorem described_date (far : 172800 ≤ |x|) : described x sameYear =
    ⟨"", if sameYear ∧ x < 0 then "MM/dd HH:mm" else "yyyy/MM/dd HH:mm"⟩ := by
  rw [described, if_neg (not_lt.mpr (by linarith)), if_neg (not_lt.mpr far)]
  split <;> rfl

/-- The cascade finds the word or the date of a day exactly if nothing it confuses is
    asked for. -/
theorem described_iff (day : ∀ k : Int, k ≤ d ↔ k * 86400 ≤ x) :
    ((described x sameYear).word = dayWord d ∧ (dayWord d = "" → (described x sameYear).dateFormat =
      if sameYear ∧ d < 0 then "MM/dd HH:mm" else "yyyy/MM/dd HH:mm")) ↔
      d ≠ 1 ∧ d ≠ 2 ∧ x ≠ 0 ∧ x ≠ -86400 ∧ x ≠ -172800 := by
  have low : d * 86400 ≤ x := (day d).mp le_rfl
  have high : x < (d + 1) * 86400 := by
    have next := mt (day (d + 1)).mpr (by omega)
    push_cast at next
    exact not_le.mp next
  obtain before | rfl | rfl | rfl | rfl | rfl | after :
      d < -2 ∨ d = -2 ∨ d = -1 ∨ d = 0 ∨ d = 1 ∨ d = 2 ∨ 2 < d := by omega
  · have bound : (d : Rat) + 1 ≤ -2 := by exact_mod_cast before
    have past : x < -172800 := by linarith
    have negative : x < 0 := by linarith
    rw [described_date (by rw [abs_of_neg negative]; linarith), dayWord_far (.inl before)]
    have today : d < 0 := by omega
    simp only [negative, today, true_and]
    exact iff_of_true (by simp) ⟨by omega, by omega, by linarith, by linarith, by linarith⟩
  · norm_num at low high
    have size : |x| = -x := abs_of_neg (by linarith)
    by_cases began : x = -172800
    · rw [described_date (by rw [size, began]; norm_num)]
      simp [dayWord, began]
    · have later : -172800 < x := lt_of_le_of_ne low (Ne.symm began)
      rw [described_far (by linarith) (by linarith), if_neg (by linarith)]
      exact iff_of_true (by simp [dayWord])
        ⟨by decide, by decide, by linarith, by linarith, began⟩
  · norm_num at low high
    have size : |x| = -x := abs_of_neg high
    by_cases began : x = -86400
    · rw [described_far (by linarith) (by linarith), if_neg (by linarith)]
      simp [dayWord, began]
    · have later : -86400 < x := lt_of_le_of_ne low (Ne.symm began)
      rw [described_near (by linarith), if_neg (by linarith)]
      exact iff_of_true (by simp [dayWord])
        ⟨by decide, by decide, by linarith, began, by linarith⟩
  · norm_num at low high
    have size : |x| = x := abs_of_nonneg low
    rw [described_near (by linarith)]
    by_cases began : x = 0
    · simp [dayWord, began]
    · have later : 0 < x := lt_of_le_of_ne low (Ne.symm began)
      rw [if_pos later]
      exact iff_of_true (by simp [dayWord])
        ⟨by decide, by decide, began, by linarith, by linarith⟩
  · norm_num at low high
    have size : |x| = x := abs_of_pos (by linarith)
    rw [described_far (by linarith) (by linarith), if_pos (by linarith)]
    simp [dayWord]
  · norm_num at low high
    have size : |x| = x := abs_of_pos (by linarith)
    rw [described_date (by linarith)]
    simp [dayWord]
  · have bound : (3 : Rat) ≤ d := by exact_mod_cast after
    have future : 259200 ≤ x := by linarith
    rw [described_date (by rw [abs_of_pos (by linarith)]; linarith), dayWord_far (.inr after)]
    have notPast : ¬d < 0 := by omega
    have positive : ¬x < 0 := by linarith
    simp only [notPast, positive, and_false]
    exact iff_of_true (by simp) ⟨by omega, by omega, by linarith, by linarith, by linarith⟩

end Cascade

theorem names_iff {text : DateText} : Names calendar current date text ↔
    text.word = dayWord (calendar.day date - calendar.day current) ∧
      (dayWord (calendar.day date - calendar.day current) = "" → text.dateFormat =
        if calendar.year date = calendar.year current ∧
          calendar.day date - calendar.day current < 0 then "MM/dd HH:mm"
        else "yyyy/MM/dd HH:mm") := by
  simp only [sub_lt_zero]
  exact ⟨fun h => ⟨h.word, h.form⟩, fun h => ⟨h.1, h.2⟩⟩

/-- For every date: `clearDescribe` names its day exactly if the date is in reach, not
    tomorrow or the day after, and not one of the last three midnights. -/
theorem clearDescribe_names_iff (calendar : Calendar) (current date : Rat) :
    (∃ text, clearDescribe calendar current date = some text ∧
      Names calendar current date text) ↔ Nameable calendar current date := by
  constructor
  · rintro ⟨text, returned, names⟩
    have inReach : |sinceToday calendar current date| < 2 ^ 31 := by
      by_contra outOfReach
      rw [clearDescribe_stops (not_lt.mp outOfReach)] at returned
      cases returned
    rw [clearDescribe_eq inReach, Option.some.injEq] at returned
    rw [← returned, names_iff, described_iff (le_days_iff calendar current date)] at names
    obtain ⟨tomorrow, afterTomorrow, today, yesterday, beforeYesterday⟩ := names
    exact ⟨inReach, tomorrow, afterTomorrow, today, yesterday, beforeYesterday⟩
  · rintro ⟨inReach, tomorrow, afterTomorrow, today, yesterday, beforeYesterday⟩
    refine ⟨_, clearDescribe_eq inReach, ?_⟩
    rw [names_iff, described_iff (le_days_iff calendar current date)]
    exact ⟨tomorrow, afterTomorrow, today, yesterday, beforeYesterday⟩

/-- A date on the day after 3 February 2021. -/
theorem tomorrow_misnamed :
    ¬∃ text, clearDescribe .gregorian 1612345678 1612432078 = some text ∧
      Names .gregorian 1612345678 1612432078 text := by
  rintro ⟨text, returned, names⟩
  have said : clearDescribe .gregorian 1612345678 1612432078 = some ⟨"后天 ", "HH:mm"⟩ := by
    decide +kernel
  obtain rfl := Option.some.inj (said.symm.trans returned)
  have word := names.word
  revert word
  decide +kernel

/-! ## Where the program stops -/

/-- No conversion stops for the seconds between two dates of one year. -/
theorem toInt_short {x : Rat} (behind : -(400 * 86400) < x) (ahead : x < 400 * 86400) :
    toInt 64 x = some (truncate x) := by
  refine toInt_of_abs_lt (lt_trans (abs_lt.mpr ⟨behind, ahead⟩) ?_)
  norm_num

theorem timeSpaceOfCurrent_returns (calendar : Calendar) (currentDate date : Rat) :
    timeSpaceOfCurrent calendar currentDate date ≠ none := by
  unfold timeSpaceOfCurrent
  by_cases sameYear : calendar.year date = calendar.year currentDate
  · have ahead := Calendar.sub_lt_of_year_eq sameYear
    have behind := Calendar.sub_lt_of_year_eq sameYear.symm
    simp only [sameYear, if_true]
    split
    · simp
    · split
      · rw [toInt_short (by linarith) (by linarith)]
        simp
      · rw [toInt_short (by linarith) (by linarith), toInt_short (by linarith) (by linarith)]
        simp
  · simp [sameYear]

/-- Neither function stops exactly if the date is less than 2³¹ seconds from the start
    of today. -/
theorem describes_iff (calendar : Calendar) (current date : Rat) :
    (clearDescribe calendar current date ≠ none ∧ timeSpaceOfCurrent calendar current date ≠ none) ↔
      |sinceToday calendar current date| < 2 ^ 31 := by
  rw [and_iff_left (timeSpaceOfCurrent_returns calendar current date)]
  constructor
  · intro returns
    by_contra outOfReach
    exact returns (clearDescribe_stops (not_lt.mp outOfReach))
  · intro inReach
    rw [clearDescribe_eq inReach]
    exact Option.some_ne_none _

/-- A stamp in microseconds. -/
theorem microseconds_stop :
    let timeInterval : String → Option Rat := fun stamp =>
      if stamp = "1612345678000000" then some 1612345678000000 else none
    ∃ date, ofTime timeInterval (some "1612345678000000") = some date ∧
      clearDescribe .gregorian 1612345678 date = none :=
  ⟨1612345678000, by decide +kernel, by decide +kernel⟩

/-! ## Ages -/

/-- The age that a text says, in hours. -/
def TimeSpace.age : TimeSpace → Option Int
  | .formatted _ => none
  | .days count => some (24 * count)
  | .hours count => some count

def wholeSeconds (now date : Rat) : Int := ⌊now - date⌋

/-- The earlier date is not said to be younger, and the later one's hours are rounded
    up. -/
structure Aged (calendar : Calendar) (now earlier later : Rat) : Prop where
  ordered : ∃ age age', (timeSpaceOfCurrent calendar now earlier).bind TimeSpace.age = some age ∧
    (timeSpaceOfCurrent calendar now later).bind TimeSpace.age = some age' ∧ age' ≤ age
  hours : now - later ≤ 24 * 60 * 60 → timeSpaceOfCurrent calendar now later =
    some (.hours ⌈(wholeSeconds now later : Rat) / 3600⌉)

/-- The later date's age is no multiple of six minutes, or full hours, and so is the
    earlier one's unless there is a full hour between them. -/
structure OffSixMinutes (now earlier later : Rat) : Prop where
  ofEarlier : now - earlier ≤ 24 * 60 * 60 → wholeSeconds now earlier % 360 = 0 →
    wholeSeconds now earlier % 3600 = 0 ∨
      wholeSeconds now later ≤ 3600 * (wholeSeconds now earlier / 3600)
  ofLater : now - later ≤ 24 * 60 * 60 → wholeSeconds now later % 360 = 0 →
    wholeSeconds now later % 3600 = 0

/-- The hours which the code counts. -/
def hoursCounted (seconds : Int) : Int :=
  if seconds % 360 > 0 then seconds / 3600 + 1 else seconds / 3600

section Ages

variable {calendar : Calendar} {now earlier later date : Rat}

theorem wholeSeconds_nonneg (past : date ≤ now) : 0 ≤ wholeSeconds now date :=
  Int.floor_nonneg.mpr (sub_nonneg.mpr past)

theorem timeSpaceOfCurrent_hours (past : date ≤ now)
    (sameYear : calendar.year date = calendar.year now) (recent : now - date ≤ 24 * 60 * 60) :
    timeSpaceOfCurrent calendar now date =
      some (.hours (hoursCounted (wholeSeconds now date))) := by
  have nonneg := sub_nonneg.mpr past
  have seconds : truncate (now - date) = wholeSeconds now date := truncate_of_nonneg nonneg
  have hours : truncate ((now - date) / 60 / 60) = wholeSeconds now date / 3600 := by
    rw [truncate_of_nonneg (by positivity), div_div, wholeSeconds]
    exact_mod_cast Int.floor_div_natCast (now - date) 3600
  unfold timeSpaceOfCurrent
  rw [if_pos sameYear, if_neg (by linarith), if_neg (by linarith),
    toInt_short (by linarith) (by linarith), toInt_short (by linarith) (by linarith), seconds,
    hours]
  simp only [Option.bind_eq_bind, Option.bind_some,
    Int.tmod_eq_emod_of_nonneg (wholeSeconds_nonneg past)]
  rfl

theorem timeSpaceOfCurrent_days (past : date ≤ now)
    (sameYear : calendar.year date = calendar.year now) (old : 24 * 60 * 60 < now - date)
    (recent : now - date ≤ 30 * 24 * 60 * 60) :
    timeSpaceOfCurrent calendar now date = some (.days (wholeSeconds now date / 86400)) := by
  have nonneg := sub_nonneg.mpr past
  have days : truncate ((now - date) / 24 / 60 / 60) = wholeSeconds now date / 86400 := by
    rw [truncate_of_nonneg (by positivity), div_div, div_div, wholeSeconds]
    exact_mod_cast Int.floor_div_natCast (now - date) 86400
  unfold timeSpaceOfCurrent
  rw [if_pos sameYear, if_neg (by linarith), if_pos old, toInt_short (by linarith) (by linarith),
    days]
  rfl

theorem ceil_hours (seconds : Int) : ⌈(seconds : Rat) / 3600⌉ = -(-seconds / 3600) := by
  exact_mod_cast Rat.ceil_intCast_div_natCast seconds 3600

/-- The count is the number of started hours exactly off the six minutes. -/
theorem hoursCounted_eq_iff (seconds : Int) :
    hoursCounted seconds = ⌈(seconds : Rat) / 3600⌉ ↔
      (seconds % 360 = 0 → seconds % 3600 = 0) := by
  rw [ceil_hours]
  unfold hoursCounted
  split <;> omega

theorem hours_ordered_iff {m n : Int} (order : n ≤ m) (rounded : n % 360 = 0 → n % 3600 = 0) :
    hoursCounted n ≤ hoursCounted m ↔
      (m % 360 = 0 → m % 3600 = 0 ∨ n ≤ 3600 * (m / 3600)) := by
  unfold hoursCounted
  split <;> split <;> omega

theorem wholeSeconds_mono (order : earlier ≤ later) :
    wholeSeconds now later ≤ wholeSeconds now earlier :=
  Int.floor_le_floor (by linarith)

/-- Hours on one day at most are hours of one day at most. -/
theorem hoursCounted_le (recent : now - date ≤ 24 * 60 * 60) :
    hoursCounted (wholeSeconds now date) ≤ 24 := by
  have day : wholeSeconds now date ≤ 86400 := by
    have floor := Int.floor_le_floor recent
    norm_num at floor
    exact floor
  unfold hoursCounted
  split <;> omega

theorem day_le_wholeSeconds (old : 24 * 60 * 60 < now - date) :
    86400 ≤ wholeSeconds now date := by
  rw [wholeSeconds, Int.le_floor]
  norm_num
  linarith

theorem aged_iff {a b : TimeSpace} {age age' : Int}
    (earlierText : timeSpaceOfCurrent calendar now earlier = some a)
    (laterText : timeSpaceOfCurrent calendar now later = some b) (earlierAge : a.age = some age)
    (laterAge : b.age = some age') : Aged calendar now earlier later ↔
      age' ≤ age ∧ (now - later ≤ 24 * 60 * 60 →
        b = .hours ⌈(wholeSeconds now later : Rat) / 3600⌉) := by
  constructor
  · rintro ⟨⟨x, y, foundEarlier, foundLater, ordered⟩, hours⟩
    rw [earlierText, Option.bind_some, earlierAge, Option.some.injEq] at foundEarlier
    rw [laterText, Option.bind_some, laterAge, Option.some.injEq] at foundLater
    subst foundEarlier foundLater
    exact ⟨ordered, fun recent => Option.some.inj (laterText.symm.trans (hours recent))⟩
  · rintro ⟨ordered, hours⟩
    refine ⟨⟨age, age', ?_, ?_, ordered⟩, fun recent => ?_⟩
    · rw [earlierText, Option.bind_some, earlierAge]
    · rw [laterText, Option.bind_some, laterAge]
    · rw [laterText, hours recent]

end Ages

/-- For two dates in the last 30 days of this year: the earlier one is said to be at
    least as old, and the later one's hours are rounded up, exactly off the six
    minutes. -/
theorem aged_iff_offSixMinutes (calendar : Calendar) (now earlier later : Rat)
    (order : earlier ≤ later) (past : later ≤ now)
    (earlierYear : calendar.year earlier = calendar.year now)
    (laterYear : calendar.year later = calendar.year now)
    (recent : now - earlier ≤ 30 * 24 * 60 * 60) :
    Aged calendar now earlier later ↔ OffSixMinutes now earlier later := by
  have older : wholeSeconds now later ≤ wholeSeconds now earlier := wholeSeconds_mono order
  have earlierPast := order.trans past
  by_cases laterDay : now - later ≤ 24 * 60 * 60
  · have laterText := timeSpaceOfCurrent_hours past laterYear laterDay
    have rounded := hoursCounted_eq_iff (wholeSeconds now later)
    by_cases earlierDay : now - earlier ≤ 24 * 60 * 60
    · have earlierText := timeSpaceOfCurrent_hours earlierPast earlierYear earlierDay
      rw [aged_iff earlierText laterText rfl rfl]
      constructor
      · rintro ⟨ordered, hours⟩
        have even := rounded.mp (TimeSpace.hours.inj (hours laterDay))
        exact ⟨fun _ => (hours_ordered_iff older even).mp ordered, fun _ => even⟩
      · rintro ⟨ofEarlier, ofLater⟩
        have even := ofLater laterDay
        exact ⟨(hours_ordered_iff older even).mpr (ofEarlier earlierDay),
          fun _ => congrArg _ (rounded.mpr even)⟩
    · -- a full day is at least as long as any hours
      have old := not_le.mp earlierDay
      have earlierText := timeSpaceOfCurrent_days earlierPast earlierYear old recent
      have ordered : hoursCounted (wholeSeconds now later) ≤
          24 * (wholeSeconds now earlier / 86400) := by
        have hours := hoursCounted_le laterDay
        have days := day_le_wholeSeconds old
        omega
      rw [aged_iff earlierText laterText rfl rfl, and_iff_right ordered]
      constructor
      · intro hours
        exact ⟨fun day => absurd day earlierDay,
          fun day => rounded.mp (TimeSpace.hours.inj (hours day))⟩
      · exact fun off day => congrArg _ (rounded.mpr (off.ofLater day))
  · have old := not_le.mp laterDay
    have earlierOld : 24 * 60 * 60 < now - earlier := by linarith
    have laterText := timeSpaceOfCurrent_days past laterYear old (by linarith)
    have earlierText := timeSpaceOfCurrent_days earlierPast earlierYear earlierOld recent
    rw [aged_iff earlierText laterText rfl rfl]
    refine iff_of_true ⟨by omega, fun day => absurd day laterDay⟩ ⟨fun day => ?_, fun day => ?_⟩
    · exact absurd day (not_le.mpr earlierOld)
    · exact absurd day laterDay

/-- Six minutes are said to be no hours, and less than that one hour. -/
theorem six_minutes_younger : ¬Aged .gregorian 1612345678 1612345318 1612345319 := by
  rintro ⟨⟨age, age', found, found', ordered⟩, -⟩
  have zero : (timeSpaceOfCurrent .gregorian 1612345678 1612345318).bind TimeSpace.age =
      some 0 := by
    decide +kernel
  have one : (timeSpaceOfCurrent .gregorian 1612345678 1612345319).bind TimeSpace.age =
      some 1 := by
    decide +kernel
  obtain rfl := Option.some.inj (zero.symm.trans found)
  obtain rfl := Option.some.inj (one.symm.trans found')
  omega

/-- Less than three hours and less than two. -/
theorem aged_within_hours : Aged .gregorian 1612345678 1612337678 1612340678 := by
  refine (aged_iff_offSixMinutes .gregorian 1612345678 1612337678 1612340678 (by norm_num)
    (by norm_num) (by decide +kernel) (by decide +kernel) (by norm_num)).mpr ⟨?_, ?_⟩
  · intro _ even
    exact absurd even (by decide +kernel)
  · intro _ even
    exact absurd even (by decide +kernel)

end LearningProjects.QuickUI.DateEx
