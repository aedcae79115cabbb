import Adaad.Py.Json.Dumps
import Mathlib.Algebra.BigOperators.Group.Finset.Basic
import Mathlib.Algebra.Order.BigOperators.Group.Finset
import Mathlib.Algebra.Order.Field.Rat
import Mathlib.Tactic.Linarith

/-!
# Timestamps

The timestamps of ISO 8601 in UTC, in the extended form with four digits for the year: a date, a
time of day down to the second, a fraction of the second with any number of digits, and `Z` or
`+00:00`.  How many days a month has is a parameter.

Up to the second the text has a fixed width, and its order is that of time
(`strLe_text_append`).  What comes after the second is in no such order.
-/

namespace Py.IsoTime

/-! ### Places -/

/-- `f"{n:0{w}d}"`, of a number that fits in. -/
def digits : Nat → Nat → Str
  | 0, _ => []
  | w + 1, n => digits w (n / 10) ++ [48 + n % 10]

theorem strLe_cons {a b : Nat} {x y : Str} :
    strLe (a :: x) (b :: y) = true ↔ a < b ∨ a = b ∧ strLe x y = true := by
  simp only [strLe, Bool.or_eq_true, Bool.and_eq_true, decide_eq_true_eq, beq_iff_eq]

theorem strLe_cons_self {a : Nat} {x y : Str} : strLe (a :: x) (a :: y) = strLe x y := by
  rw [Bool.eq_iff_iff, strLe_cons]
  simp

theorem strLe_digits_append {w m n : Nat} {x y : Str} (hm : m < 10 ^ w) (hn : n < 10 ^ w) :
    strLe (digits w m ++ x) (digits w n ++ y) = true ↔ m < n ∨ m = n ∧ strLe x y = true := by
  induction w generalizing m n x y with
  | zero =>
    have hm0 : m = 0 := by simpa using hm
    have hn0 : n = 0 := by simpa using hn
    simp [digits, hm0, hn0]
  | succ w ih =>
    have hm' : m / 10 < 10 ^ w := Nat.div_lt_of_lt_mul (by rwa [pow_succ, Nat.mul_comm] at hm)
    have hn' : n / 10 < 10 ^ w := Nat.div_lt_of_lt_mul (by rwa [pow_succ, Nat.mul_comm] at hn)
    rw [digits, digits, List.append_assoc, List.append_assoc, List.singleton_append,
      List.singleton_append, ih hm' hn', strLe_cons]
    constructor
    · rintro (h | ⟨h, h' | ⟨h', hxy⟩⟩)
      · exact .inl (by omega)
      · exact .inl (by omega)
      · exact .inr ⟨by omega, hxy⟩
    · rintro (h | ⟨rfl, hxy⟩)
      · by_cases hdiv : m / 10 = n / 10
        · exact .inr ⟨hdiv, .inl (by omega)⟩
        · exact .inl (by omega)
      · exact .inr ⟨rfl, .inr ⟨rfl, hxy⟩⟩

/-- A number `a` of steps of different widths, of which the one that is under way has got to `c`:
what comes first is decided by the steps. -/
theorem place_lt_or {f w : Nat → Nat} (hf : ∀ {a a'}, a < a' → f a + w a ≤ f a')
    {a a' c c' : Nat} (hc : c < w a) (hc' : c' < w a') (p : Prop) :
    (f a + c < f a' + c' ∨ f a + c = f a' + c' ∧ p) ↔
      a < a' ∨ a = a' ∧ (c < c' ∨ c = c' ∧ p) := by
  rcases Nat.lt_trichotomy a a' with h | rfl | h
  · have hle := hf h
    constructor
    · intro _
      exact .inl h
    · intro _
      exact .inl (by omega)
  · simp only [Nat.add_lt_add_iff_left, Nat.add_left_cancel_iff, lt_self_iff_false, true_and,
      false_or]
  · have hle := hf h
    constructor
    · rintro (h' | ⟨h', -⟩)
      · omega
      · omega
    · rintro (h' | ⟨h', -⟩)
      · omega
      · omega

theorem radix_lt_or {b a a' c c' : Nat} (hc : c < b) (hc' : c' < b) (p : Prop) :
    (a * b + c < a' * b + c' ∨ a * b + c = a' * b + c' ∧ p) ↔
      a < a' ∨ a = a' ∧ (c < c' ∨ c = c' ∧ p) := by
  refine place_lt_or (f := fun a => a * b) (w := fun _ => b) ?_ hc hc' p
  intro a a' h
  have hmul : (a + 1) * b ≤ a' * b := Nat.mul_le_mul_right b h
  rwa [Nat.add_mul, Nat.one_mul] at hmul

/-- How much lies before the step `n`. -/
def before (w : Nat → Nat) (n : Nat) : Nat :=
  ∑ k ∈ Finset.range n, w k

theorem before_succ (w : Nat → Nat) (n : Nat) : before w (n + 1) = before w n + w n :=
  Finset.sum_range_succ w n

theorem before_add_le {w : Nat → Nat} {a a' : Nat} (h : a < a') :
    before w a + w a ≤ before w a' := by
  rw [← before_succ]
  exact Finset.sum_le_sum_of_subset (Finset.range_mono h)

/-! ### Seconds -/

variable (monthDays : Nat → Nat → Nat)

/-- A date and a time of day. -/
structure DateTime where
  year : Nat
  month : Nat
  day : Nat
  hour : Nat
  minute : Nat
  second : Nat
  year_le : year ≤ 9999
  month_pos : 1 ≤ month
  month_le : month ≤ 12
  day_pos : 1 ≤ day
  day_le : day ≤ monthDays year month
  hour_lt : hour < 24
  minute_lt : minute < 60
  second_lt : second < 60

/-- The days of the year before a month of it, where the first month is `0`. -/
def monthStart (year month : Nat) : Nat :=
  before (fun k => monthDays year (k + 1)) month

def yearStart (year : Nat) : Nat :=
  before (fun y => monthStart monthDays y 12) year

variable {monthDays}

namespace DateTime

variable (d d' : DateTime monthDays)

def dayOfYear : Nat :=
  monthStart monthDays d.year (d.month - 1) + (d.day - 1)

/-- The days from the first of January of the year `0`. -/
def dayNumber : Nat :=
  yearStart monthDays d.year + d.dayOfYear

def minutes : Nat :=
  (d.dayNumber * 24 + d.hour) * 60 + d.minute

def seconds : Nat :=
  d.minutes * 60 + d.second

/-- `YYYY-MM-DDTHH:MM:SS` -/
def text : Str :=
  digits 4 d.year ++ 45 :: (digits 2 d.month ++ 45 :: (digits 2 d.day ++ 84 ::
    (digits 2 d.hour ++ 58 :: (digits 2 d.minute ++ 58 :: digits 2 d.second))))

def IsLast : Prop :=
  d.year = 9999 ∧ d.month = 12 ∧ d.day = monthDays 9999 12 ∧ d.hour = 23 ∧ d.minute = 59 ∧
    d.second = 59

instance : Decidable d.IsLast :=
  inferInstanceAs (Decidable (_ ∧ _))

theorem dayOfYear_lt : d.dayOfYear < monthStart monthDays d.year 12 := by
  have hday := d.day_le
  have hpos := d.day_pos
  have hmonth := d.month_pos
  have hmonth' := d.month_le
  have hstart : monthStart monthDays d.year (d.month - 1) + monthDays d.year d.month ≤
      monthStart monthDays d.year 12 := by
    have hlt : d.month - 1 < 12 := by omega
    have hle := before_add_le (w := fun k => monthDays d.year (k + 1)) hlt
    rwa [Nat.sub_add_cancel hmonth] at hle
  unfold dayOfYear
  omega

theorem dayNumber_lt_or (p : Prop) :
    (d.dayNumber < d'.dayNumber ∨ d.dayNumber = d'.dayNumber ∧ p) ↔
      d.year < d'.year ∨ d.year = d'.year ∧
        (d.month < d'.month ∨ d.month = d'.month ∧ (d.day < d'.day ∨ d.day = d'.day ∧ p)) := by
  have hyears : ∀ {y y' : Nat}, y < y' →
      yearStart monthDays y + monthStart monthDays y 12 ≤ yearStart monthDays y' := before_add_le
  unfold dayNumber
  rw [place_lt_or (w := fun y => monthStart monthDays y 12) hyears d.dayOfYear_lt d'.dayOfYear_lt]
  refine or_congr_right (and_congr_right fun hyear => ?_)
  have hpos := d.day_pos
  have hpos' := d'.day_pos
  have hmonth := d.month_pos
  have hmonth' := d'.month_pos
  have hday : d.day - 1 < monthDays d.year (d.month - 1 + 1) := by
    have := d.day_le
    rw [Nat.sub_add_cancel hmonth]
    omega
  have hday' : d'.day - 1 < monthDays d.year (d'.month - 1 + 1) := by
    have := d'.day_le
    rw [Nat.sub_add_cancel hmonth', hyear]
    omega
  unfold dayOfYear
  rw [← hyear, monthStart, monthStart,
    place_lt_or (w := fun k => monthDays d.year (k + 1)) before_add_le hday hday']
  constructor
  · rintro (h | ⟨h, h' | ⟨h', hp⟩⟩)
    · exact .inl (by omega)
    · exact .inr ⟨by omega, .inl (by omega)⟩
    · exact .inr ⟨by omega, .inr ⟨by omega, hp⟩⟩
  · rintro (h | ⟨h, h' | ⟨h', hp⟩⟩)
    · exact .inl (by omega)
    · exact .inr ⟨by omega, .inl (by omega)⟩
    · exact .inr ⟨by omega, .inr ⟨by omega, hp⟩⟩

theorem seconds_lt_or (p : Prop) :
    (d.seconds < d'.seconds ∨ d.seconds = d'.seconds ∧ p) ↔
      d.year < d'.year ∨ d.year = d'.year ∧
        (d.month < d'.month ∨ d.month = d'.month ∧ (d.day < d'.day ∨ d.day = d'.day ∧
          (d.hour < d'.hour ∨ d.hour = d'.hour ∧ (d.minute < d'.minute ∨ d.minute = d'.minute ∧
            (d.second < d'.second ∨ d.second = d'.second ∧ p))))) := by
  rw [seconds, seconds, radix_lt_or d.second_lt d'.second_lt, minutes, minutes,
    radix_lt_or d.minute_lt d'.minute_lt, radix_lt_or d.hour_lt d'.hour_lt, dayNumber_lt_or]

/-! ### The order of the texts -/

variable (hdays : ∀ year month, monthDays year month < 100)

include hdays in
/-- Two texts that begin with a date and a time of day are in the order of these, and where they are
the same second in that of the rest. -/
theorem strLe_text_append (x y : Str) :
    strLe (d.text ++ x) (d'.text ++ y) = true ↔
      d.seconds < d'.seconds ∨ d.seconds = d'.seconds ∧ strLe x y = true := by
  have hyear : d.year < 10 ^ 4 := Nat.lt_succ_of_le d.year_le
  have hyear' : d'.year < 10 ^ 4 := Nat.lt_succ_of_le d'.year_le
  have hmonth : d.month < 10 ^ 2 := d.month_le.trans_lt (by decide)
  have hmonth' : d'.month < 10 ^ 2 := d'.month_le.trans_lt (by decide)
  have hday : d.day < 10 ^ 2 := d.day_le.trans_lt (hdays _ _)
  have hday' : d'.day < 10 ^ 2 := d'.day_le.trans_lt (hdays _ _)
  have hhour : d.hour < 10 ^ 2 := d.hour_lt.trans (by decide)
  have hhour' : d'.hour < 10 ^ 2 := d'.hour_lt.trans (by decide)
  have hminute : d.minute < 10 ^ 2 := d.minute_lt.trans (by decide)
  have hminute' : d'.minute < 10 ^ 2 := d'.minute_lt.trans (by decide)
  have hsecond : d.second < 10 ^ 2 := d.second_lt.trans (by decide)
  have hsecond' : d'.second < 10 ^ 2 := d'.second_lt.trans (by decide)
  rw [seconds_lt_or, text, text]
  simp only [List.append_assoc, List.cons_append]
  rw [strLe_digits_append hyear hyear', strLe_cons_self, strLe_digits_append hmonth hmonth',
    strLe_cons_self, strLe_digits_append hday hday', strLe_cons_self,
    strLe_digits_append hhour hhour', strLe_cons_self, strLe_digits_append hminute hminute',
    strLe_cons_self, strLe_digits_append hsecond hsecond']

/-! ### The next second -/

theorem seconds_le_of_isLast (h : d.IsLast) : d'.seconds ≤ d.seconds := by
  by_contra hlt
  have hparts := (seconds_lt_or d d' False).mp (.inl (Nat.lt_of_not_le hlt))
  obtain ⟨hyear, hmonth, hday, hhour, hminute, hsecond⟩ := h
  have hyear' := d'.year_le
  have hmonth' := d'.month_le
  have hday' := d'.day_le
  have hhour' := d'.hour_lt
  have hminute' := d'.minute_lt
  have hsecond' := d'.second_lt
  rw [hyear, hmonth, hday, hhour, hminute, hsecond] at hparts
  rcases hparts with h | ⟨hy, h | ⟨hm, h | ⟨-, h | ⟨-, h | ⟨-, h | ⟨-, h⟩⟩⟩⟩⟩⟩
  · omega
  · omega
  · rw [← hy, ← hm] at hday'
    omega
  · omega
  · omega
  · omega
  · exact h

theorem dayNumber_nextMonth (hday : d.day = monthDays d.year d.month) :
    yearStart monthDays d.year + monthStart monthDays d.year d.month = d.dayNumber + 1 := by
  have hpos := d.month_pos
  have hpos' := d.day_pos
  have hstart := before_succ (fun k => monthDays d.year (k + 1)) (d.month - 1)
  rw [Nat.sub_add_cancel hpos] at hstart
  unfold dayNumber dayOfYear monthStart
  omega

theorem dayNumber_nextYear (hmonth : d.month = 12) (hday : d.day = monthDays d.year d.month) :
    yearStart monthDays (d.year + 1) = d.dayNumber + 1 := by
  have hpos := d.day_pos
  have hstart : monthStart monthDays d.year 12 =
      monthStart monthDays d.year (d.month - 1) + monthDays d.year d.month := by
    rw [hmonth]
    exact before_succ (fun k => monthDays d.year (k + 1)) 11
  have hyear : yearStart monthDays (d.year + 1) =
      yearStart monthDays d.year + monthStart monthDays d.year 12 :=
    before_succ (fun y => monthStart monthDays y 12) d.year
  unfold dayNumber dayOfYear
  omega

variable (hpos : ∀ year month, 1 ≤ monthDays year month)

include hpos in
theorem exists_nextDay (h : ¬ (d.year = 9999 ∧ d.month = 12 ∧ d.day = monthDays 9999 12)) :
    ∃ d' : DateTime monthDays,
      d'.dayNumber = d.dayNumber + 1 ∧ d'.hour = 0 ∧ d'.minute = 0 ∧ d'.second = 0 := by
  have hday_pos := d.day_pos
  by_cases hday : d.day < monthDays d.year d.month
  · refine ⟨⟨d.year, d.month, d.day + 1, 0, 0, 0, d.year_le, d.month_pos, d.month_le, by omega,
      hday, by omega, by omega, by omega⟩, ?_, rfl, rfl, rfl⟩
    unfold dayNumber dayOfYear
    dsimp only
    omega
  have hlast : d.day = monthDays d.year d.month := Nat.le_antisymm d.day_le (Nat.le_of_not_lt hday)
  by_cases hmonth : d.month < 12
  · refine ⟨⟨d.year, d.month + 1, 1, 0, 0, 0, d.year_le, by omega, hmonth, le_rfl, hpos _ _,
      by omega, by omega, by omega⟩, ?_, rfl, rfl, rfl⟩
    rw [← d.dayNumber_nextMonth hlast]
    rfl
  have hmonth_eq : d.month = 12 := Nat.le_antisymm d.month_le (Nat.le_of_not_lt hmonth)
  have hyear : d.year + 1 ≤ 9999 := by
    have hle := d.year_le
    by_contra hyear
    have hyear_eq : d.year = 9999 := by omega
    rw [hyear_eq, hmonth_eq] at hlast
    exact h ⟨hyear_eq, hmonth_eq, hlast⟩
  refine ⟨⟨d.year + 1, 1, 1, 0, 0, 0, hyear, le_rfl, by omega, le_rfl, hpos _ _, by omega,
    by omega, by omega⟩, ?_, rfl, rfl, rfl⟩
  rw [← d.dayNumber_nextYear hmonth_eq hlast]
  rfl

include hpos in
theorem exists_next (h : ¬ d.IsLast) : ∃ d' : DateTime monthDays, d'.seconds = d.seconds + 1 := by
  have hhour_lt := d.hour_lt
  have hminute_lt := d.minute_lt
  have hsecond_lt := d.second_lt
  by_cases hsecond : d.second < 59
  · refine ⟨{ d with second := d.second + 1, second_lt := by omega }, ?_⟩
    show d.minutes * 60 + (d.second + 1) = d.minutes * 60 + d.second + 1
    omega
  by_cases hminute : d.minute < 59
  · refine ⟨{ d with
      minute := d.minute + 1, second := 0, minute_lt := by omega, second_lt := by omega }, ?_⟩
    show ((d.dayNumber * 24 + d.hour) * 60 + (d.minute + 1)) * 60 + 0 =
      ((d.dayNumber * 24 + d.hour) * 60 + d.minute) * 60 + d.second + 1
    omega
  by_cases hhour : d.hour < 23
  · refine ⟨{ d with
      hour := d.hour + 1, minute := 0, second := 0, hour_lt := by omega, minute_lt := by omega,
      second_lt := by omega }, ?_⟩
    show ((d.dayNumber * 24 + (d.hour + 1)) * 60 + 0) * 60 + 0 =
      ((d.dayNumber * 24 + d.hour) * 60 + d.minute) * 60 + d.second + 1
    omega
  have hday : ¬ (d.year = 9999 ∧ d.month = 12 ∧ d.day = monthDays 9999 12) := by
    rintro ⟨hyear, hmonth, hday⟩
    exact h ⟨hyear, hmonth, hday, by omega, by omega, by omega⟩
  obtain ⟨d', hnumber, hhour', hminute', hsecond'⟩ := d.exists_nextDay hpos hday
  refine ⟨d', ?_⟩
  rw [seconds, minutes, hnumber, hhour', hminute', hsecond', seconds, minutes]
  omega

end DateTime

/-! ### Fractions of a second -/

/-- The fraction that has the digits after its point. -/
def fractionValue : Str → ℚ
  | [] => 0
  | c :: cs => (((c - 48 : Nat) : ℚ) + fractionValue cs) / 10

theorem fractionValue_nonneg (ds : Str) : 0 ≤ fractionValue ds := by
  induction ds with
  | nil => exact le_rfl
  | cons c cs ih =>
    have hc : (0 : ℚ) ≤ ((c - 48 : Nat) : ℚ) := Nat.cast_nonneg _
    rw [fractionValue]
    linarith

theorem fractionValue_lt_one {ds : Str} (h : ∀ c ∈ ds, isDigit c = true) :
    fractionValue ds < 1 := by
  induction ds with
  | nil => exact zero_lt_one
  | cons c cs ih =>
    have hc : ((c - 48 : Nat) : ℚ) ≤ 9 := by
      have hdigit := h c List.mem_cons_self
      have hle : c - 48 ≤ 9 := by
        simp only [isDigit, Bool.and_eq_true, decide_eq_true_eq] at hdigit
        omega
      exact_mod_cast hle
    have hrest := ih fun c hc => h c (List.mem_cons_of_mem _ hc)
    rw [fractionValue]
    linarith

/-! ### Timestamps -/

inductive Zone where
  | z
  | offset
  deriving DecidableEq, Repr

def Zone.text : Zone → Str
  | z => str "Z"
  | offset => str "+00:00"

variable (monthDays) in
/-- A timestamp; one without digits after the second has no point either. -/
structure Timestamp where
  date : DateTime monthDays
  fraction : Str
  zone : Zone
  digit_fraction : ∀ c ∈ fraction, isDigit c = true

namespace Timestamp

variable (t : Timestamp monthDays)

def tail : Str :=
  (if t.fraction = [] then [] else 46 :: t.fraction) ++ t.zone.text

def text : Str :=
  t.date.text ++ t.tail

/-- The seconds from the first of January of the year `0`. -/
def instant : ℚ :=
  t.date.seconds + fractionValue t.fraction

/-- A second, written with `Z`. -/
def ofDate (d : DateTime monthDays) : Timestamp monthDays :=
  ⟨d, [], .z, fun _ hc => absurd hc List.not_mem_nil⟩

theorem seconds_le_instant : (t.date.seconds : ℚ) ≤ t.instant := by
  have hnonneg := fractionValue_nonneg t.fraction
  unfold instant
  linarith

theorem instant_lt : t.instant < t.date.seconds + 1 := by
  have hlt := fractionValue_lt_one t.digit_fraction
  unfold instant
  linarith

theorem instant_of_fraction_eq_nil (h : t.fraction = []) : t.instant = t.date.seconds := by
  rw [instant, h, fractionValue, add_zero]

theorem instant_ofDate (d : DateTime monthDays) : (ofDate d).instant = d.seconds :=
  instant_of_fraction_eq_nil _ rfl

end Timestamp

end Py.IsoTime
